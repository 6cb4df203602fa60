import Mathlib.Data.Option.Basic
import Mathlib.Data.List.Basic

/-!
Runs of a partial step function. `step s e = none` means that event `e` is not enabled in `s`.
An invariant is proved once per step and lifted to runs here, either for every run or for the
runs whose steps all meet a condition.
-/

namespace Transition
variable {σ ε : Type*} {step : σ → ε → Option σ}

/-- The state after `events`, or `none` when one of them is not enabled where it occurs. -/
def run (step : σ → ε → Option σ) : σ → List ε → Option σ
  | s, [] => some s
  | s, e :: rest => (step s e).bind fun t => run step t rest

def Along (step : σ → ε → Option σ) (C : σ → ε → Prop) : σ → List ε → Prop
  | _, [] => True
  | s, e :: rest => C s e ∧ ∀ t, step s e = some t → Along step C t rest

/-- On a deterministic step function the condition can be evaluated along a concrete run. -/
instance decidableAlong {C : σ → ε → Prop} [∀ s e, Decidable (C s e)] :
    ∀ (s : σ) (es : List ε), Decidable (Along step C s es)
  | _, [] => .isTrue trivial
  | s, e :: rest =>
    match h : step s e with
    | none => decidable_of_iff (C s e) (by simp [Along, h])
    | some m =>
      have := decidableAlong (C := C) m rest
      decidable_of_iff (C s e ∧ Along step C m rest) (by simp [Along, h])

theorem along_of_forall {C : σ → ε → Prop} {s : σ} {es : List ε}
    (meets : ∀ e ∈ es, ∀ s, C s e) : Along step C s es := by
  induction es generalizing s with
  | nil => trivial
  | cons e rest ih =>
    exact ⟨meets e List.mem_cons_self s, fun t _ => ih fun e he => meets e (List.mem_cons_of_mem _ he)⟩

theorem run_cons_ok {s t : σ} {e : ε} {rest : List ε} (h : run step s (e :: rest) = some t) :
    ∃ m, step s e = some m ∧ run step m rest = some t :=
  Option.bind_eq_some_iff.mp h

theorem run_cons_of {s m t : σ} {e : ε} {rest : List ε} (first : step s e = some m)
    (later : run step m rest = some t) : run step s (e :: rest) = some t :=
  Option.bind_eq_some_iff.mpr ⟨m, first, later⟩

theorem run_append_ok {s t : σ} {es fs : List ε} (h : run step s (es ++ fs) = some t) :
    ∃ m, run step s es = some m ∧ run step m fs = some t := by
  induction es generalizing s with
  | nil => exact ⟨s, rfl, h⟩
  | cons e rest ih =>
    obtain ⟨next, he, h⟩ := run_cons_ok h
    obtain ⟨m, first, later⟩ := ih h
    exact ⟨m, run_cons_of he first, later⟩

theorem run_append_of {s m t : σ} {es fs : List ε} (first : run step s es = some m) (later : run step m fs = some t) :
    run step s (es ++ fs) = some t := by
  induction es generalizing s with
  | nil =>
    obtain rfl := Option.some.inj first
    exact later
  | cons e rest ih =>
    obtain ⟨next, he, first⟩ := run_cons_ok first
    exact run_cons_of he (ih first)

theorem run_concat_of {s m t : σ} {e : ε} {es : List ε} (first : run step s es = some m) (last : step m e = some t) :
    run step s (es ++ [e]) = some t := run_append_of first (run_cons_of last rfl)

/-- Every step of a run meets the condition in the state that the steps before it have led to. -/
theorem along_iff_split {C : σ → ε → Prop} {s t : σ} {es : List ε} (h : run step s es = some t) :
    Along step C s es ↔ ∀ before e after m, es = before ++ e :: after → run step s before = some m → C m e := by
  induction es generalizing s with
  | nil => exact iff_of_true trivial fun before e after m split => (by simp at split)
  | cons e rest ih =>
    obtain ⟨m, first, h⟩ := run_cons_ok h
    constructor
    · rintro ⟨here, later⟩ before e' after m' split reached
      cases before with
      | nil =>
        obtain ⟨rfl, _⟩ := List.cons.inj split
        obtain rfl := Option.some.inj reached
        exact here
      | cons e'' before =>
        obtain ⟨rfl, tails⟩ := List.cons.inj split
        obtain ⟨next, first', reached⟩ := run_cons_ok reached
        obtain rfl := Option.some.inj (first.symm.trans first')
        exact (ih h).mp (later m first) before e' after m' tails reached
    · intro meets
      refine ⟨meets [] e rest s rfl rfl, fun m' first' => ?_⟩
      obtain rfl := Option.some.inj (first.symm.trans first')
      exact (ih h).mpr fun before e' after m' split reached =>
        meets (e :: before) e' after m' (by rw [split]; rfl) (run_cons_of first reached)

theorem run_keeps {I : σ → Prop} (keeps : ∀ s e t, I s → step s e = some t → I t)
    {s t : σ} {es : List ε} (h : run step s es = some t) (initial : I s) : I t := by
  induction es generalizing s with
  | nil =>
    obtain rfl := Option.some.inj h
    exact initial
  | cons e rest ih =>
    obtain ⟨m, he, h⟩ := run_cons_ok h
    exact ih h (keeps s e m initial he)

/-- A property that a step only loses holds along a run at whose end it holds. -/
theorem run_before {P : σ → Prop} (before : ∀ s e t, step s e = some t → P t → P s) {s t : σ} {es : List ε}
    (h : run step s es = some t) (last : P t) : P s := by
  induction es generalizing s with
  | nil =>
    obtain rfl := Option.some.inj h
    exact last
  | cons e rest ih =>
    obtain ⟨m, he, h⟩ := run_cons_ok h
    exact before s e m he (ih h)

/-- A property kept by every step that meets `C` is kept by every run whose steps all meet `C`. -/
theorem run_keeps_along {I : σ → Prop} {C : σ → ε → Prop}
    (keeps : ∀ s e t, I s → C s e → step s e = some t → I t)
    {s t : σ} {es : List ε} (h : run step s es = some t) (meets : Along step C s es)
    (initial : I s) : I t := by
  induction es generalizing s with
  | nil =>
    obtain rfl := Option.some.inj h
    exact initial
  | cons e rest ih =>
    obtain ⟨m, he, h⟩ := run_cons_ok h
    exact ih h (meets.2 m he) (keeps s e m initial meets.1 he)

/-- The same for a run whose events are all of one form. -/
theorem run_map_keeps {α : Type*} {f : α → ε} {as : List α} {I : σ → Prop}
    (keeps : ∀ a ∈ as, ∀ s t, I s → step s (f a) = some t → I t)
    {s t : σ} (h : run step s (as.map f) = some t) (initial : I s) : I t := by
  have only : Along step (fun _ e => ∃ a ∈ as, f a = e) s (as.map f) :=
    along_of_forall fun e he _ => List.mem_map.mp he
  refine run_keeps_along (fun s e t hs meets stepped => ?_) h only initial
  obtain ⟨a, ha, rfl⟩ := meets
  exact keeps a ha s t hs stepped

/-- A property of a state and the events before it, kept by every step that meets `C`, holds after every
run whose steps all meet `C`. -/
theorem run_history_along {I : List ε → σ → Prop} {C : σ → ε → Prop}
    (keeps : ∀ past s e t, I past s → C s e → step s e = some t → I (past ++ [e]) t)
    {past : List ε} {s t : σ} {es : List ε} (h : run step s es = some t) (meets : Along step C s es)
    (initial : I past s) : I (past ++ es) t := by
  induction es generalizing past s with
  | nil =>
    obtain rfl := Option.some.inj h
    rwa [List.append_nil]
  | cons e rest ih =>
    obtain ⟨m, he, h⟩ := run_cons_ok h
    rw [List.append_cons]
    exact ih h (meets.2 m he) (keeps past s e m initial meets.1 he)

theorem run_history {I : List ε → σ → Prop}
    (keeps : ∀ past s e t, I past s → step s e = some t → I (past ++ [e]) t)
    {past : List ε} {s t : σ} {es : List ε} (h : run step s es = some t) (initial : I past s) : I (past ++ es) t :=
  run_history_along (C := fun _ _ => True) (fun past s e t hs _ => keeps past s e t hs) h
    (along_of_forall fun _ _ _ => trivial) initial

/-- Every state that the run from `s` passes, from the first to the last, satisfies `P`. -/
def Always (step : σ → ε → Option σ) (P : σ → Prop) (s : σ) (es : List ε) : Prop :=
  ∀ before m, before <+: es → run step s before = some m → P m

theorem always_cons {P : σ → Prop} {s m : σ} {e : ε} {rest : List ε} (first : step s e = some m) :
    Always step P s (e :: rest) ↔ P s ∧ Always step P m rest := by
  constructor
  · intro always
    refine ⟨always [] s List.nil_prefix rfl, fun before t initial reached => ?_⟩
    exact always (e :: before) t (List.cons_prefix_cons.mpr ⟨rfl, initial⟩) (run_cons_of first reached)
  · rintro ⟨here, later⟩ before t initial reached
    cases before with
    | nil =>
      obtain rfl := Option.some.inj reached
      exact here
    | cons e' before =>
      obtain ⟨rfl, shorter⟩ := List.cons_prefix_cons.mp initial
      obtain ⟨m', first', reached⟩ := run_cons_ok reached
      obtain rfl := Option.some.inj (first.symm.trans first')
      exact later before t shorter reached

theorem Along.imp {C D : σ → ε → Prop} {s : σ} {es : List ε} (h : Along step C s es)
    (weaker : ∀ s e, C s e → D s e) : Along step D s es := by
  induction es generalizing s with
  | nil => trivial
  | cons e rest ih => exact ⟨weaker s e h.1, fun t stepped => ih (h.2 t stepped)⟩

theorem along_shorter {C : σ → ε → Prop} {s : σ} {before es : List ε} (h : Along step C s es)
    (initial : before <+: es) : Along step C s before := by
  induction before generalizing s es with
  | nil => trivial
  | cons e before ih =>
    obtain ⟨after, rfl⟩ := initial
    exact ⟨h.1, fun t stepped => ih (h.2 t stepped) (List.prefix_append before after)⟩

theorem always_of_along {I P : σ → Prop} {C : σ → ε → Prop}
    (keeps : ∀ s e t, I s → C s e → step s e = some t → I t) (gives : ∀ s, I s → P s)
    {s : σ} {es : List ε} (meets : Along step C s es) (initial : I s) : Always step P s es :=
  fun _ _ shorter reached => gives _ (run_keeps_along keeps reached (along_shorter meets shorter) initial)

/-- Where exactly the steps that meet `C` keep `P`, a run always satisfies `P` exactly when all its
steps meet `C`. -/
theorem always_iff_along {I P : σ → Prop} {C : σ → ε → Prop}
    (keeps : ∀ s e t, I s → step s e = some t → I t)
    (exact_step : ∀ s e t, I s → P s → step s e = some t → (P t ↔ C s e))
    {s t : σ} {es : List ε} (h : run step s es = some t) (initial : I s) (good : P s) :
    Always step P s es ↔ Along step C s es := by
  induction es generalizing s with
  | nil =>
    refine ⟨fun _ => trivial, fun _ before m initial reached => ?_⟩
    obtain rfl := List.prefix_nil.mp initial
    obtain rfl := Option.some.inj reached
    exact good
  | cons e rest ih =>
    obtain ⟨m, first, h⟩ := run_cons_ok h
    have exact_here := exact_step s e m initial good first
    have next := keeps s e m initial first
    rw [always_cons first]
    constructor
    · rintro ⟨_, later⟩
      have good' : P m := later [] m List.nil_prefix rfl
      refine ⟨exact_here.mp good', fun m' first' => ?_⟩
      obtain rfl := Option.some.inj (first.symm.trans first')
      exact (ih h next good').mp later
    · rintro ⟨meets, later⟩
      exact ⟨good, (ih h next (exact_here.mpr meets)).mpr (later m first)⟩

theorem along_and {C D : σ → ε → Prop} {s : σ} {es : List ε} (hc : Along step C s es) (hd : Along step D s es) :
    Along step (fun s e => C s e ∧ D s e) s es := by
  induction es generalizing s with
  | nil => trivial
  | cons e rest ih => exact ⟨⟨hc.1, hd.1⟩, fun t stepped => ih (hc.2 t stepped) (hd.2 t stepped)⟩

theorem along_append {C : σ → ε → Prop} {s m : σ} {before after : List ε} (reached : run step s before = some m)
    (first : Along step C s before) (later : Along step C m after) : Along step C s (before ++ after) := by
  induction before generalizing s with
  | nil =>
    obtain rfl := Option.some.inj reached
    exact later
  | cons e before ih =>
    obtain ⟨next, he, reached⟩ := run_cons_ok reached
    refine ⟨first.1, fun next' he' => ?_⟩
    obtain rfl := Option.some.inj (he.symm.trans he')
    exact ih reached (first.2 next he)

theorem forall_of_along {P : ε → Prop} {s t : σ} {es : List ε} (h : run step s es = some t)
    (meets : Along step (fun _ e => P e) s es) : ∀ e ∈ es, P e := by
  induction es generalizing s with
  | nil => exact List.forall_mem_nil _
  | cons e rest ih =>
    obtain ⟨m, he, h⟩ := run_cons_ok h
    exact List.forall_mem_cons.mpr ⟨meets.1, ih h (meets.2 m he)⟩

/-- What every state with the invariant gives is met along every run. -/
theorem along_of_keeps {I : σ → Prop} {C : σ → ε → Prop} (keeps : ∀ s e t, I s → step s e = some t → I t)
    (gives : ∀ s e, I s → C s e) {s : σ} (initial : I s) (es : List ε) : Along step C s es := by
  induction es generalizing s with
  | nil => trivial
  | cons e rest ih => exact ⟨gives s e initial, fun t stepped => ih (keeps s e t initial stepped)⟩

end Transition
