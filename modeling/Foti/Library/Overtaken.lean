import Foti.Library.ReadChooseWrite
import Foti.Library.Transition

/-!
Which fields are lost, read off the order of the steps. On a document that is missing at the start, a call
whose read is answered before any write replaces the document, so it drops what was written in between.
`erased_iff_overtaken` says that this is the only way to lose a field.
-/

namespace Document
open Entries Transition
variable {κ ν ρ : Type*}

/-- The call that takes the step. -/
def CallEvent.call : CallEvent → Nat
  | .read n _ | .write n _ | .acknowledge n => n

def Call.Failed (c : Call κ ν ρ) : Prop := (∃ whole, c.stage = .written whole false) ∨ c.stage = .finished false

namespace Shared

def Clean (s : Shared κ ν ρ) : Prop := ∀ c ∈ s.calls, ¬ c.Failed

/-- The key and the value of each call. -/
def subjects (s : Shared κ ν ρ) : List (κ × Option ν) := s.calls.map fun c => (c.key, c.value)

/-- The read of call `n` is answered before any write. -/
def ReadFirst (es : List CallEvent) (n : Nat) : Prop :=
  ∃ before after, es = before ++ .read n true :: after ∧ ∀ m, .write m true ∉ before

/-- The last write about `key` sets a value, and `after` are the steps since. -/
def LastSets (subjects : List (κ × Option ν)) (es : List CallEvent) (key : κ) (after : List CallEvent) : Prop :=
  ∃ before m v, es = before ++ .write m true :: after ∧ subjects[m]? = some (key, some v) ∧
    ∀ n w, .write n true ∈ after → subjects[n]? ≠ some (key, w)

/-- The document is missing at the start, and the last write about `key`, which sets a value, comes before
the write of a call whose read was answered before any write. -/
def Overtaken (start : Doc κ ν) (subjects : List (κ × Option ν)) (es : List CallEvent) (key : κ) : Prop :=
  start = none ∧ ∃ after, LastSets subjects es key after ∧ ∃ n, .write n true ∈ after ∧ ReadFirst es n

/-! ### One more step -/

section
variable {es : List CallEvent} {e : CallEvent} {key : κ}

theorem readFirst_snoc {n : Nat} :
    ReadFirst (es ++ [e]) n ↔ ReadFirst es n ∨ e = .read n true ∧ ∀ m, .write m true ∉ es := by
  constructor
  · rintro ⟨before, after, split, first⟩
    rcases List.eq_nil_or_concat' after with rfl | ⟨after, last, rfl⟩
    · obtain ⟨rfl, same⟩ := List.append_inj' split rfl
      exact .inr ⟨List.singleton_inj.mp same, first⟩
    · rw [← List.cons_append, ← List.append_assoc] at split
      obtain ⟨rfl, _⟩ := List.append_inj' split rfl
      exact .inl ⟨before, after, rfl, first⟩
  · rintro (⟨before, after, rfl, first⟩ | ⟨rfl, first⟩)
    · exact ⟨before, after ++ [e], by simp, first⟩
    · exact ⟨es, [], rfl, first⟩

theorem lastSets_snoc {subjects : List (κ × Option ν)} {after : List CallEvent} :
    LastSets subjects (es ++ [e]) key after ↔
      (after = [] ∧ ∃ m v, e = .write m true ∧ subjects[m]? = some (key, some v)) ∨
      ∃ earlier, after = earlier ++ [e] ∧ LastSets subjects es key earlier ∧
        ∀ n w, e = .write n true → subjects[n]? ≠ some (key, w) := by
  constructor
  · rintro ⟨before, m, v, split, sets, last⟩
    rcases List.eq_nil_or_concat' after with rfl | ⟨after, final, rfl⟩
    · obtain ⟨rfl, same⟩ := List.append_inj' split rfl
      exact .inl ⟨rfl, m, v, List.singleton_inj.mp same, sets⟩
    · rw [← List.cons_append, ← List.append_assoc] at split
      obtain ⟨rfl, same⟩ := List.append_inj' split rfl
      obtain rfl := List.singleton_inj.mp same
      refine .inr ⟨after, rfl, ⟨before, m, v, rfl, sets, fun n w written => ?_⟩, fun n w same => ?_⟩
      · exact last n w (List.mem_append_left _ written)
      · exact last n w (same ▸ List.mem_append_right _ (List.mem_singleton_self _))
  · rintro (⟨rfl, m, v, rfl, sets⟩ | ⟨earlier, rfl, ⟨before, m, v, rfl, sets, last⟩, other⟩)
    · exact ⟨es, m, v, rfl, sets, fun _ _ written => (List.not_mem_nil written).elim⟩
    · refine ⟨before, m, v, by simp, sets, fun n w written => ?_⟩
      rcases List.mem_append.mp written with old | new
      · exact last n w old
      · exact other n w (List.mem_singleton.mp new).symm

/-- A step that is no write. -/
theorem lastSets_other {subjects : List (κ × Option ν)} {after : List CallEvent} (silent : ∀ n, e ≠ .write n true) :
    LastSets subjects (es ++ [e]) key after ↔ ∃ earlier, after = earlier ++ [e] ∧ LastSets subjects es key earlier := by
  rw [lastSets_snoc]
  constructor
  · rintro (⟨_, m, _, same, _⟩ | ⟨earlier, rfl, sets, _⟩)
    · exact (silent m same).elim
    · exact ⟨earlier, rfl, sets⟩
  · rintro ⟨earlier, rfl, sets⟩
    exact .inr ⟨earlier, rfl, sets, fun n _ same => (silent n same).elim⟩

/-- A write about `key` or about another. -/
theorem lastSets_write {subjects : List (κ × Option ν)} {n : Nat} {other : κ} {v : Option ν}
    (written : subjects[n]? = some (other, v)) :
    (∃ after, LastSets subjects (es ++ [.write n true]) key after) ↔
      (other = key ∧ v.isSome) ∨ other ≠ key ∧ ∃ after, LastSets subjects es key after := by
  constructor
  · rintro ⟨after, sets⟩
    rcases lastSets_snoc.mp sets with ⟨_, m, x, same, about⟩ | ⟨earlier, _, sets, away⟩
    · obtain ⟨rfl, _⟩ := CallEvent.write.inj same
      obtain ⟨rfl, rfl⟩ := Prod.mk.inj (Option.some.inj (written.symm.trans about))
      exact .inl ⟨rfl, rfl⟩
    · refine .inr ⟨?_, earlier, sets⟩
      rintro rfl
      exact away n v rfl written
  · rintro (⟨rfl, held⟩ | ⟨different, earlier, sets⟩)
    · obtain ⟨x, rfl⟩ := Option.isSome_iff_exists.mp held
      exact ⟨[], lastSets_snoc.mpr (.inl ⟨rfl, n, x, rfl, written⟩)⟩
    · refine ⟨earlier ++ [.write n true], lastSets_snoc.mpr (.inr ⟨earlier, rfl, sets, fun m w same about => ?_⟩)⟩
      obtain ⟨rfl, _⟩ := CallEvent.write.inj same
      exact different (Prod.mk.inj (Option.some.inj (written.symm.trans about))).1

theorem lastSets_mem {subjects : List (κ × Option ν)} {after : List CallEvent} (h : LastSets subjects es key after) :
    ∀ e ∈ after, e ∈ es := by
  obtain ⟨before, m, v, rfl, _⟩ := h
  exact fun e he => List.mem_append_right _ (List.mem_cons_of_mem _ he)

/-- A call that starts takes part in no step before. -/
theorem lastSets_concat {subjects : List (κ × Option ν)} {x : κ × Option ν} {after : List CallEvent}
    (bounded : ∀ e ∈ es, e.call < subjects.length) :
    LastSets (subjects ++ [x]) es key after ↔ LastSets subjects es key after := by
  have same : ∀ n, .write n true ∈ es → (subjects ++ [x])[n]? = subjects[n]? := fun n hn =>
    List.getElem?_append_left (bounded _ hn)
  constructor
  · rintro ⟨before, m, v, rfl, sets, last⟩
    refine ⟨before, m, v, rfl, by rwa [← same m (by simp)], fun n w hn => ?_⟩
    rw [← same n (by simp [hn])]
    exact last n w hn
  · rintro ⟨before, m, v, rfl, sets, last⟩
    refine ⟨before, m, v, rfl, by rwa [same m (by simp)], fun n w hn => ?_⟩
    rw [same n (by simp [hn])]
    exact last n w hn

section
variable {start : Doc κ ν} {subjects : List (κ × Option ν)}

theorem overtaken_silent (silent : ∀ n, e ≠ .write n true)
    (unread : ∀ n, .write n true ∈ es → e ≠ .read n true) :
    Overtaken start subjects (es ++ [e]) key ↔ Overtaken start subjects es key := by
  constructor
  · rintro ⟨missing, after, sets, n, written, first⟩
    obtain ⟨earlier, rfl, before⟩ := (lastSets_other silent).mp sets
    have written : .write n true ∈ earlier := by
      rcases List.mem_append.mp written with old | new
      · exact old
      · exact (silent n (List.mem_singleton.mp new).symm).elim
    refine ⟨missing, earlier, before, n, written, ?_⟩
    rcases readFirst_snoc.mp first with first | ⟨same, _⟩
    · exact first
    · exact (unread n (lastSets_mem before _ written) same).elim
  · rintro ⟨missing, after, sets, n, written, first⟩
    exact ⟨missing, after ++ [e], (lastSets_other silent).mpr ⟨after, rfl, sets⟩, n, List.mem_append_left _ written,
      readFirst_snoc.mpr (.inl first)⟩

theorem overtaken_write {n : Nat} {other : κ} {v : Option ν} (written : subjects[n]? = some (other, v)) :
    Overtaken start subjects (es ++ [.write n true]) key ↔ other ≠ key ∧ (Overtaken start subjects es key ∨
      (start = none ∧ ReadFirst es n) ∧ ∃ after, LastSets subjects es key after) := by
  have reads : ∀ m, ReadFirst (es ++ [.write n true]) m ↔ ReadFirst es m := fun m => by simp [readFirst_snoc]
  constructor
  · rintro ⟨missing, after, sets, m, wrote, first⟩
    rcases lastSets_snoc.mp sets with ⟨rfl, _⟩ | ⟨earlier, rfl, before, away⟩
    · exact (List.not_mem_nil wrote).elim
    · refine ⟨fun same => away n v rfl (same ▸ written), ?_⟩
      rcases List.mem_append.mp wrote with old | new
      · exact .inl ⟨missing, earlier, before, m, old, (reads m).mp first⟩
      · obtain ⟨rfl, _⟩ := CallEvent.write.inj (List.mem_singleton.mp new)
        exact .inr ⟨⟨missing, (reads m).mp first⟩, earlier, before⟩
  · rintro ⟨different, lost⟩
    have later : ∀ {after}, LastSets subjects es key after →
        LastSets subjects (es ++ [.write n true]) key (after ++ [.write n true]) := fun {after} sets => by
      refine lastSets_snoc.mpr (.inr ⟨after, rfl, sets, fun m w same about => ?_⟩)
      obtain ⟨rfl, _⟩ := CallEvent.write.inj same
      exact different (Prod.mk.inj (Option.some.inj (written.symm.trans about))).1
    rcases lost with ⟨missing, after, sets, m, wrote, first⟩ | ⟨⟨missing, first⟩, after, sets⟩
    · exact ⟨missing, _, later sets, m, List.mem_append_left _ wrote, (reads m).mpr first⟩
    · exact ⟨missing, _, later sets, n, List.mem_append_right _ (List.mem_singleton_self _), (reads n).mpr first⟩

end
end

/-! ### Runs -/

variable [DecidableEq κ]

/-- What the steps so far say about the document, the log and the calls, when none has failed. -/
structure Traced (start : Doc κ ν) (es : List CallEvent) (s : Shared κ ν ρ) : Prop where
  bounded : ∀ e ∈ es, e.call < s.calls.length
  unread : ∀ n c, s.calls[n]? = some c → c.stage = .reading → ∀ ok, .read n ok ∉ es ∧ .write n ok ∉ es
  present : s.doc.isSome ↔ start.isSome ∨ ∃ m, .write m true ∈ es
  chosen : ∀ n c whole, s.calls[n]? = some c → c.stage = .writing whole →
    (whole = true ↔ start = none ∧ ReadFirst es n)
  held : start = none → ∀ key,
    (intended start s.log key).isSome ↔ ∃ after, LastSets s.subjects es key after
  erased : ∀ key, Erased start s.log key ↔ Overtaken start s.subjects es key

omit [DecidableEq κ] in
theorem subjects_set {s : Shared κ ν ρ} {n : Nat} {c : Call κ ν ρ} (found : s.calls[n]? = some c) (stage : Stage) :
    (s.calls.set n { c with stage }).map (fun c => (c.key, c.value)) = s.subjects := map_set_same found rfl

theorem fresh_traced (start : Doc κ ν) : Traced start [] (fresh (ρ := ρ) start) where
  bounded := fun _ he => (List.not_mem_nil he).elim
  unread := fun _ _ found => by cases found
  present := by simp [fresh]
  chosen := fun _ _ _ found => by cases found
  held := fun missing key => by
    subst missing
    refine iff_of_false (by simp [fresh]) ?_
    rintro ⟨_, before, _, _, split, _⟩
    simp at split
  erased := fun key => by
    refine iff_of_false not_erased_nil ?_
    rintro ⟨_, _, ⟨before, _, _, split, _⟩, _⟩
    simp at split

theorem start_traced {first : Doc κ ν} {es : List CallEvent} {s : Shared κ ν ρ} {c : Call κ ν ρ} (h : Traced first es s)
    (starts : c.Starts) : Traced first es (s.start c) := by
  have subjects : (s.start c).subjects = s.subjects ++ [(c.key, c.value)] := by simp [Shared.subjects, start]
  have bounded : ∀ e ∈ es, e.call < s.subjects.length := fun e he => by simpa [Shared.subjects] using h.bounded e he
  refine ⟨fun e he => ?_, fun n d found reading ok => ?_, h.present, fun n d whole found writing => ?_, ?_, ?_⟩
  · simpa [start] using Nat.lt_succ_of_lt (h.bounded e he)
  · rcases concat_cases found with ⟨rfl, rfl⟩ | old
    · exact ⟨fun he => absurd (h.bounded _ he) (Nat.lt_irrefl _), fun he => absurd (h.bounded _ he) (Nat.lt_irrefl _)⟩
    · exact h.unread n d old reading ok
  · rcases concat_cases found with ⟨rfl, rfl⟩ | old
    · rcases starts with reading | merging
      · cases reading.symm.trans writing
      · obtain rfl := Stage.writing.inj (merging.symm.trans writing)
        refine iff_of_false Bool.false_ne_true ?_
        rintro ⟨_, before, after, split, _⟩
        exact absurd (h.bounded (.read s.calls.length true) (by simp [split])) (Nat.lt_irrefl _)
    · exact h.chosen n d whole old writing
  · intro missing key
    simp only [subjects, lastSets_concat bounded]
    exact h.held missing key
  · intro key
    simp only [subjects, Overtaken, lastSets_concat bounded]
    exact h.erased key

/-- The steps of calls none of which fails. -/
theorem clean_step {s t : Shared κ ν ρ} {e : CallEvent} (h : s.step e = some t) (clean : t.Clean) :
    (∃ n c, e = .read n true ∧ s.calls[n]? = some c ∧ c.stage = .reading ∧
      t = { s with calls := s.calls.set n { c with stage := .writing (!s.doc.isSome) } }) ∨
    (∃ n c whole d, e = .write n true ∧ s.calls[n]? = some c ∧ c.stage = .writing whole ∧
      (c.write whole).apply s.doc = some d ∧
      t = ⟨d, s.calls.set n { c with stage := .written whole true }, s.log ++ [c.write whole]⟩) ∨
    ∃ n c whole, e = .acknowledge n ∧ s.calls[n]? = some c ∧ c.stage = .written whole true ∧
      t = { s with calls := s.calls.set n { c with stage := .finished true } } := by
  have failing : ∀ {n : Nat} {c : Call κ ν ρ} {stage : Stage}, s.calls[n]? = some c →
      t.calls = s.calls.set n { c with stage } → ¬ ({ c with stage } : Call κ ν ρ).Failed := fun found calls =>
    clean _ (calls ▸ List.mem_set (List.getElem?_eq_some_iff.mp found).1 _)
  cases e with
  | read n ok =>
    obtain ⟨c, found, h⟩ := Option.bind_eq_some_iff.mp h
    obtain ⟨c', answered, same⟩ := Option.bind_eq_some_iff.mp h
    obtain rfl := Option.some.inj same
    obtain ⟨reading, rfl⟩ := Call.answer_same answered
    cases ok with
    | true => exact .inl ⟨n, c, rfl, found, reading, rfl⟩
    | false => exact (failing found rfl (.inr rfl)).elim
  | write n ok =>
    obtain ⟨c, found, h⟩ := Option.bind_eq_some_iff.mp h
    cases stage : c.stage with
    | writing whole =>
      simp only [stage, Option.pure_def, Option.some.injEq] at h
      subst h
      unfold applyWrite at failing ⊢
      split at failing
      · rename_i d applied
        cases ok with
        | true =>
          rw [if_pos rfl] at applied
          exact .inr (.inl ⟨n, c, whole, d, rfl, found, stage, applied, rfl⟩)
        | false => cases applied
      · exact (failing found rfl (.inl ⟨whole, rfl⟩)).elim
    | _ => simp [stage] at h
  | acknowledge n =>
    obtain ⟨c, found, h⟩ := Option.bind_eq_some_iff.mp h
    obtain ⟨c', acknowledged, same⟩ := Option.bind_eq_some_iff.mp h
    obtain rfl := Option.some.inj same
    obtain ⟨whole, ok, written, rfl⟩ := Call.acknowledge_same acknowledged
    cases ok with
    | true => exact .inr (.inr ⟨n, c, whole, rfl, found, written, rfl⟩)
    | false => exact (failing found rfl (.inr rfl)).elim

theorem apply_isSome {w : Write κ ν} {d t : Doc κ ν} (h : w.apply d = some t) : t.isSome := by
  unfold Write.apply at h
  split at h
  · obtain rfl := Option.some.inj h
    rfl
  · exact (updateData_exists h).2

/-- A step that does not write. -/
theorem silent_traced {first : Doc κ ν} {es : List CallEvent} {s : Shared κ ν ρ} {e : CallEvent} {c : Call κ ν ρ}
    {stage : Stage} (h : Traced first es s) (found : s.calls[e.call]? = some c) (silent : ∀ n ok, e ≠ .write n ok)
    (later : stage ≠ .reading) (unread : ∀ n, .write n true ∈ es → e ≠ .read n true)
    (chosen : ∀ whole, stage = .writing whole → (whole = true ↔ first = none ∧ ReadFirst (es ++ [e]) e.call)) :
    Traced first (es ++ [e]) { s with calls := s.calls.set e.call { c with stage } } := by
  have inside := (List.getElem?_eq_some_iff.mp found).1
  have subjects : ({ s with calls := s.calls.set e.call { c with stage } } : Shared κ ν ρ).subjects = s.subjects :=
    subjects_set found stage
  have writes : ∀ n ok, .write n ok ∈ es ++ [e] ↔ .write n ok ∈ es := fun n ok => by
    simp [Ne.symm (silent n ok)]
  refine ⟨?_, fun n d hd reading ok => ?_, ?_, fun n d whole hd writing => ?_, fun missing key => ?_, fun key => ?_⟩
  · rw [List.length_set]
    exact forall_mem_concat h.bounded inside
  · rcases set_cases hd with ⟨rfl, rfl⟩ | ⟨other, hd⟩
    · exact (later reading).elim
    · obtain ⟨notRead, notWritten⟩ := h.unread n d hd reading ok
      refine ⟨fun he => ?_, fun he => notWritten ((writes n ok).mp he)⟩
      rcases List.mem_append.mp he with old | new
      · exact notRead old
      · exact other (congrArg CallEvent.call (List.mem_singleton.mp new))
  · simp only [writes]
    exact h.present
  · rcases set_cases hd with ⟨rfl, rfl⟩ | ⟨other, hd⟩
    · exact chosen whole writing
    · have kept : ReadFirst (es ++ [e]) n ↔ ReadFirst es n := by
        rw [readFirst_snoc, or_iff_left]
        rintro ⟨same, _⟩
        exact other (congrArg CallEvent.call same).symm
      rw [kept]
      exact h.chosen n d whole hd writing
  · rw [subjects]
    rw [h.held missing key]
    constructor
    · rintro ⟨after, sets⟩
      exact ⟨after ++ [e], (lastSets_other fun n => silent n true).mpr ⟨after, rfl, sets⟩⟩
    · rintro ⟨after, sets⟩
      obtain ⟨earlier, _, before⟩ := (lastSets_other fun n => silent n true).mp sets
      exact ⟨earlier, before⟩
  · rw [subjects, overtaken_silent (fun n => silent n true) unread]
    exact h.erased key

theorem write_traced {first : Doc κ ν} {es : List CallEvent} {s : Shared κ ν ρ} {n : Nat} {c : Call κ ν ρ}
    {whole : Bool} {d : Doc κ ν} (h : Traced first es s) (found : s.calls[n]? = some c) (writing : c.stage = .writing whole)
    (applied : (c.write whole).apply s.doc = some d) : Traced first (es ++ [.write n true])
      ⟨d, s.calls.set n { c with stage := .written whole true }, s.log ++ [c.write whole]⟩ := by
  have inside := (List.getElem?_eq_some_iff.mp found).1
  have subjects : (⟨d, s.calls.set n { c with stage := .written whole true }, s.log ++ [c.write whole]⟩ :
    Shared κ ν ρ).subjects = s.subjects := subjects_set found _
  have about : s.subjects[n]? = some (c.key, c.value) := by simp [Shared.subjects, found]
  refine ⟨?_, fun m x hx reading ok => ?_, ?_, fun m x w hx going => ?_, fun missing key => ?_, fun key => ?_⟩
  · rw [List.length_set]
    exact forall_mem_concat h.bounded inside
  · rcases set_cases hx with ⟨rfl, rfl⟩ | ⟨other, hx⟩
    · cases reading
    · have old := h.unread m x hx reading ok
      simp only [List.mem_append, List.mem_singleton, reduceCtorEq, or_false, CallEvent.write.injEq]
      exact ⟨old.1, fun he => he.elim old.2 fun same => other same.1⟩
  · exact iff_of_true (apply_isSome applied) (.inr ⟨n, by simp⟩)
  · rcases set_cases hx with ⟨rfl, rfl⟩ | ⟨other, hx⟩
    · cases going
    · rw [readFirst_snoc, or_iff_left (by simp)]
      exact h.chosen m x w hx going
  · rw [subjects, lastSets_write about, intended_snoc, ← h.held missing key]
    by_cases same : c.key = key
    · simp [Call.write, same]
    · simp [Call.write, same]
  · rw [subjects, overtaken_write about, erased_snoc, h.erased key]
    have choice := h.chosen n c whole found writing
    refine and_congr Iff.rfl (or_congr Iff.rfl ?_)
    rw [Call.write, ← choice]
    refine and_congr_right fun replaces => h.held (choice.mp replaces).1 key

theorem step_traced {first : Doc κ ν} {es : List CallEvent} {s t : Shared κ ν ρ} {e : CallEvent} (h : Traced first es s)
    (stepped : s.step e = some t) (clean : t.Clean) : Traced first (es ++ [e]) t := by
  rcases clean_step stepped clean with ⟨n, c, rfl, found, reading, rfl⟩ |
    ⟨n, c, whole, d, rfl, found, writing, applied, rfl⟩ | ⟨n, c, whole, rfl, found, written, rfl⟩
  · have notYet := h.unread n c found reading
    refine silent_traced h found (by simp) (by simp) (fun m written same => ?_) fun whole same => ?_
    · obtain ⟨rfl, _⟩ := CallEvent.read.inj same
      exact (notYet true).2 written
    · obtain rfl := Stage.writing.inj same
      have unread : ¬ ReadFirst es n := by
        rintro ⟨before, after, split, _⟩
        exact (notYet true).1 (by simp [split])
      have missing : (!s.doc.isSome) = true ↔ first = none ∧ ∀ m, .write m true ∉ es := by
        rw [Bool.not_eq_true', ← Bool.not_eq_true, h.present, not_or, not_exists, Option.not_isSome_iff_eq_none]
      rw [missing, readFirst_snoc]
      simp [CallEvent.call, unread]
  · exact write_traced h found writing applied
  · exact silent_traced h found (by simp) (by simp) (by simp) (by simp)

/-- A call that has failed stays so: its failed write is acknowledged as one. -/
theorem clean_before {s t : Shared κ ν ρ} {e : CallEvent} (h : s.step e = some t) (clean : t.Clean) : s.Clean := by
  have kept : ∀ {n : Nat} {c d : Call κ ν ρ}, s.calls[n]? = some c → t.calls = s.calls.set n d → ¬ c.Failed →
      s.Clean := fun {n c d} found calls fine x hx failed => by
    obtain ⟨m, hm⟩ := List.mem_iff_getElem?.mp hx
    by_cases same : n = m
    · subst same
      obtain rfl := Option.some.inj (found.symm.trans hm)
      exact fine failed
    · exact clean x (calls ▸ List.mem_of_getElem? ((List.getElem?_set_ne same).trans hm)) failed
  rcases clean_step h clean with ⟨n, c, _, found, reading, rfl⟩ | ⟨n, c, whole, d, _, found, writing, _, rfl⟩ |
    ⟨n, c, whole, _, found, written, rfl⟩
  · exact kept found rfl (by simp [Call.Failed, reading])
  · exact kept found rfl (by simp [Call.Failed, writing])
  · exact kept found rfl (by simp [Call.Failed, written])

omit [DecidableEq κ] in
theorem clean_of_done {s : Shared κ ν ρ} (done : ∀ c ∈ s.calls, c.stage = .finished true) : s.Clean :=
  fun c hc => by simp [Call.Failed, done c hc]

/-- No field of a document that exists at the start is lost. -/
theorem Traced.not_erased {start : Doc κ ν} {es : List CallEvent} {s : Shared κ ν ρ} (h : Traced start es s)
    (existing : start.isSome) (key : κ) : ¬ Erased start s.log key := by
  rw [h.erased key]
  rintro ⟨rfl, _⟩
  cases existing

/-! ### A program that hosts the calls -/

section Host
variable {σ ε : Type*} {step : σ → ε → Option σ} (shared : σ → Shared κ ν ρ) (callOf : ε → Option CallEvent)

/-- A step of the host is a step of the store, or it starts at most one call, whose value satisfies `P`. -/
def Hosts (P : Option ν → Prop) (step : σ → ε → Option σ) : Prop := ∀ s e t, step s e = some t → match callOf e with
  | some e => (shared s).step e = some (shared t)
  | none => shared t = shared s ∨ ∃ c : Call κ ν ρ, c.Starts ∧ P c.value ∧ shared t = (shared s).start c

variable {shared callOf} {P : Option ν → Prop}

theorem Hosts.moves (hosts : Hosts shared callOf P step) {s t : σ} {e : ε} (h : step s e = some t) :
    Moves P (shared s) (shared t) := by
  have moved := hosts s e t h
  split at moved
  · exact .inr (.inr ⟨_, moved⟩)
  · rcases moved with same | ⟨c, starts, value, started⟩
    · exact .inl same
    · exact .inr (.inl ⟨c, starts.unapplied, value, started⟩)

theorem Hosts.clean_before (hosts : Hosts shared callOf P step) {s t : σ} {e : ε} (h : step s e = some t)
    (clean : (shared t).Clean) : (shared s).Clean := by
  have moved := hosts s e t h
  split at moved
  · exact Shared.clean_before moved clean
  · rcases moved with same | ⟨c, _, _, started⟩
    · exact same ▸ clean
    · rw [started] at clean
      exact fun d hd => clean d (List.mem_append_left _ hd)

/-- Along a run without failures the steps so far say what the document holds and what is lost. -/
theorem Hosts.run_traced (hosts : Hosts shared callOf P step) {first : Doc κ ν} {s t : σ} {es : List ε}
    (h : run step s es = some t) (clean : (shared t).Clean) {past : List CallEvent} (initial : Traced first past (shared s)) :
    Traced first (past ++ es.filterMap callOf) (shared t) := by
  induction es generalizing past s with
  | nil =>
    obtain rfl := Option.some.inj h
    simpa using initial
  | cons e rest ih =>
    obtain ⟨m, he, h⟩ := run_cons_ok h
    have fine : (shared m).Clean :=
      run_before (fun _ _ _ stepped => hosts.clean_before stepped) h clean
    have moved := hosts s e m he
    split at moved
    · rename_i e called
      rw [List.filterMap_cons_some called, List.append_cons]
      exact ih h (step_traced initial moved fine)
    · rename_i called
      rw [List.filterMap_cons_none called]
      refine ih h ?_
      rcases moved with same | ⟨c, starts, _, started⟩
      · exact same ▸ initial
      · exact started ▸ start_traced initial starts

end Host

end Shared
end Document
