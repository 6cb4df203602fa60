import Foti.Library.Entries
import Foti.Library.WriteLog

/-!
Clients that read a document, choose the kind of write by whether it exists, and write one field.
The read, the write and its acknowledgement are separate steps of a call, so calls interleave.
Every run keeps the document equal to the replay of its log; whether each field then holds what
was last written about it is the question `Document.Erased` answers.
-/

namespace Document
open Entries
variable {κ ν ρ : Type*}

/-- Where a call stands. A write remembers whether it is whole, a written call also its outcome. -/
inductive Stage where
  | reading
  | writing (whole : Bool)
  | written (whole ok : Bool)
  | finished (ok : Bool)
  deriving DecidableEq, Repr

/-- One call: the field it writes, what its callbacks captured, and its stage. -/
structure Call (κ ν ρ : Type*) where
  key : κ
  value : Option ν
  closure : ρ
  stage : Stage

/-- The steps that a call at the stage still takes. -/
def Stage.left : Stage → Nat
  | .reading => 3
  | .writing _ => 2
  | .written _ _ => 1
  | .finished _ => 0

namespace Call

def Applied (c : Call κ ν ρ) : Prop :=
  match c.stage with
  | .written _ ok => ok = true
  | .finished ok => ok = true
  | _ => False

instance (c : Call κ ν ρ) : Decidable c.Applied :=
  match h : c.stage with
  | .written _ ok | .finished ok => decidable_of_iff (ok = true) (by rw [Applied, h])
  | .reading | .writing _ => .isFalse (by rw [Applied, h]; exact id)

def Finished (c : Call κ ν ρ) : Prop := ∃ ok, c.stage = .finished ok

instance (c : Call κ ν ρ) : Decidable c.Finished :=
  match h : c.stage with
  | .finished ok => .isTrue ⟨ok, h⟩
  | .reading | .writing _ | .written _ _ => .isFalse (by rintro ⟨ok, same⟩; rw [h] at same; cases same)

theorem unfinished {c : Call κ ν ρ} {stage : Stage} (at_stage : c.stage = stage) (going : ∀ ok, stage ≠ .finished ok) :
    ¬ c.Finished :=
  fun ⟨ok, finished⟩ => going ok (at_stage.symm.trans finished)

/-- A call begins with its read, or merges at once. -/
def Starts (c : Call κ ν ρ) : Prop := c.stage = .reading ∨ c.stage = .writing false

theorem Starts.unapplied {c : Call κ ν ρ} (starts : c.Starts) : ¬ c.Applied := by
  rcases starts with stage | stage <;> simp [Applied, stage]

def write (c : Call κ ν ρ) (whole : Bool) : Write κ ν := ⟨whole, c.key, c.value⟩

/-- The answer of the read: an existing document gets a merging write, a missing one a whole write. -/
def answer (c : Call κ ν ρ) (present ok : Bool) : Option (Call κ ν ρ) :=
  match c.stage with
  | .reading => some { c with stage := if ok then .writing (!present) else .finished false }
  | _ => none

def acknowledge (c : Call κ ν ρ) : Option (Call κ ν ρ) :=
  match c.stage with
  | .written _ ok => some { c with stage := .finished ok }
  | _ => none

theorem answer_same {c c' : Call κ ν ρ} {present ok : Bool} (h : c.answer present ok = some c') :
    c.stage = .reading ∧ c' = { c with stage := if ok then .writing (!present) else .finished false } := by
  unfold answer at h
  split at h
  · exact ⟨by assumption, (Option.some.inj h).symm⟩
  · cases h

theorem acknowledge_same {c c' : Call κ ν ρ} (h : c.acknowledge = some c') :
    ∃ whole ok, c.stage = .written whole ok ∧ c' = { c with stage := .finished ok } := by
  unfold acknowledge at h
  split at h
  · exact ⟨_, _, by assumption, (Option.some.inj h).symm⟩
  · cases h

theorem answer_left {c c' : Call κ ν ρ} {present ok : Bool} (h : c.answer present ok = some c') :
    c'.stage.left < c.stage.left := by
  obtain ⟨reading, rfl⟩ := answer_same h
  rw [reading]
  cases ok <;> simp [Stage.left]

theorem acknowledge_left {c c' : Call κ ν ρ} (h : c.acknowledge = some c') : c'.stage.left < c.stage.left := by
  obtain ⟨whole, ok, written, rfl⟩ := acknowledge_same h
  rw [written]
  exact Nat.zero_lt_one

end Call

/-- The document, every call ever made in the order of their starts, and the applied writes. -/
structure Shared (κ ν ρ : Type*) where
  doc : Doc κ ν
  calls : List (Call κ ν ρ)
  log : List (Write κ ν)

inductive CallEvent where
  | read (n : Nat) (ok : Bool)
  | write (n : Nat) (ok : Bool)
  | acknowledge (n : Nat)
  deriving DecidableEq, Repr

namespace Shared

def fresh (start : Doc κ ν) : Shared κ ν ρ := ⟨start, [], []⟩

def start (s : Shared κ ν ρ) (c : Call κ ν ρ) : Shared κ ν ρ := { s with calls := s.calls ++ [c] }

variable [DecidableEq κ]

def applyWrite (s : Shared κ ν ρ) (n : Nat) (c : Call κ ν ρ) (whole ok : Bool) : Shared κ ν ρ :=
  match if ok then (c.write whole).apply s.doc else none with
  | some doc => ⟨doc, s.calls.set n { c with stage := .written whole true }, s.log ++ [c.write whole]⟩
  | none => { s with calls := s.calls.set n { c with stage := .written whole false } }

def step (s : Shared κ ν ρ) : CallEvent → Option (Shared κ ν ρ)
  | .read n ok => do
      let c ← s.calls[n]?
      let c' ← c.answer s.doc.isSome ok
      return { s with calls := s.calls.set n c' }
  | .write n ok => do
      let c ← s.calls[n]?
      match c.stage with
      | .writing whole => return s.applyWrite n c whole ok
      | _ => none
  | .acknowledge n => do
      let c ← s.calls[n]?
      let c' ← c.acknowledge
      return { s with calls := s.calls.set n c' }

/-- What a step can do: it moves one unfinished call on, and only a write that the store accepts
touches the document and the log. -/
theorem step_cases {s t : Shared κ ν ρ} {e : CallEvent} (h : s.step e = some t) :
    ∃ n c stage, s.calls[n]? = some c ∧ ¬ c.Finished ∧ t.calls = s.calls.set n { c with stage } ∧
      ((t.doc = s.doc ∧ t.log = s.log ∧
          ({ c with stage } : Call κ ν ρ).Applied = c.Applied) ∨
        ∃ whole, c.stage = .writing whole ∧ stage = .written whole true ∧
          (c.write whole).apply s.doc = some t.doc ∧ t.log = s.log ++ [c.write whole]) := by
  cases e with
  | read n ok =>
    simp only [step, Option.bind_eq_bind, Option.bind_eq_some_iff, Option.pure_def] at h
    obtain ⟨c, found, c', answered, same⟩ := h
    obtain rfl := Option.some.inj same
    obtain ⟨reading, rfl⟩ := Call.answer_same answered
    refine ⟨n, c, _, found, Call.unfinished reading (by simp), rfl, .inl ⟨rfl, rfl, ?_⟩⟩
    cases ok <;> simp [Call.Applied, reading]
  | write n ok =>
    simp only [step, Option.bind_eq_bind, Option.bind_eq_some_iff, Option.pure_def] at h
    obtain ⟨c, found, h⟩ := h
    cases stage : c.stage with
    | writing whole =>
      simp only [stage, Option.some.injEq] at h
      have unfinished : ¬ c.Finished := Call.unfinished stage (by simp)
      subst h
      unfold applyWrite
      split
      · rename_i doc applied
        refine ⟨n, c, _, found, unfinished, rfl, .inr ⟨whole, stage, rfl, ?_, rfl⟩⟩
        cases ok with
        | true => simpa using applied
        | false => simp at applied
      · exact ⟨n, c, _, found, unfinished, rfl, .inl ⟨rfl, rfl, by simp [Call.Applied, stage]⟩⟩
    | _ => simp [stage] at h
  | acknowledge n =>
    simp only [step, Option.bind_eq_bind, Option.bind_eq_some_iff, Option.pure_def] at h
    obtain ⟨c, found, c', acknowledged, same⟩ := h
    obtain rfl := Option.some.inj same
    obtain ⟨whole, ok, written, rfl⟩ := Call.acknowledge_same acknowledged
    exact ⟨n, c, _, found, Call.unfinished written (by simp), rfl,
      .inl ⟨rfl, rfl, by simp [Call.Applied, written]⟩⟩

/-! ### Steps of the newest call -/

omit [DecidableEq κ] in
theorem start_newest (s : Shared κ ν ρ) (c : Call κ ν ρ) : (s.start c).calls[s.calls.length]? = some c := by
  simp [start]

omit [DecidableEq κ] in
theorem set_newest (s : Shared κ ν ρ) (c c' : Call κ ν ρ) :
    (s.start c).calls.set s.calls.length c' = s.calls ++ [c'] := by
  simp [start]

theorem read_newest (s : Shared κ ν ρ) {c : Call κ ν ρ} (ok : Bool) (reading : c.stage = .reading) :
    (s.start c).step (.read s.calls.length ok) =
      some (s.start { c with stage := if ok then .writing (!s.doc.isSome) else .finished false }) := by
  simp only [step, start_newest, Option.bind_eq_bind, Option.bind_some, Call.answer, reading, set_newest]
  rfl

theorem write_newest (s : Shared κ ν ρ) {c : Call κ ν ρ} {whole : Bool} {d : Doc κ ν}
    (writing : c.stage = .writing whole) (applied : (c.write whole).apply s.doc = some d) :
    (s.start c).step (.write s.calls.length true) =
      some ({ s with doc := d, log := s.log ++ [c.write whole] }.start { c with stage := .written whole true }) := by
  have applied : (c.write whole).apply (s.start c).doc = some d := applied
  simp only [step, start_newest, Option.bind_eq_bind, Option.bind_some, writing, applyWrite, if_true,
    applied, set_newest]
  rfl

theorem acknowledge_newest (s : Shared κ ν ρ) {c : Call κ ν ρ} {whole ok : Bool}
    (written : c.stage = .written whole ok) :
    (s.start c).step (.acknowledge s.calls.length) = some (s.start { c with stage := .finished ok }) := by
  simp only [step, start_newest, Option.bind_eq_bind, Option.bind_some, Call.acknowledge, written, set_newest]
  rfl

/-! ### What every run keeps -/

/-- The document is the replay of the log, and the log's keys are those of the applied calls. -/
structure Consistent (start : Doc κ ν) (s : Shared κ ν ρ) : Prop where
  replays : Replays start s.log s.doc
  logged : ∀ c ∈ s.calls, c.Applied → ∃ w ∈ s.log, w.key = c.key
  called : ∀ w ∈ s.log, ∃ c ∈ s.calls, c.key = w.key

/-- A key without a call keeps what it has had from the start. -/
theorem Consistent.untouched {start : Doc κ ν} {s : Shared κ ν ρ} {key : κ} (h : Consistent start s)
    (absent : ∀ c ∈ s.calls, c.key ≠ key) : intended start s.log key = value start key := by
  refine intended_untouched fun w hw same => ?_
  obtain ⟨c, hc, sameKey⟩ := h.called w hw
  exact absent c hc (sameKey.trans same)

theorem fresh_consistent (start : Doc κ ν) : Consistent start (fresh (ρ := ρ) start) :=
  ⟨.nil, by simp [fresh], by simp [fresh]⟩

theorem start_consistent {first : Doc κ ν} {s : Shared κ ν ρ} {c : Call κ ν ρ}
    (h : Consistent first s) (unapplied : ¬ c.Applied) : Consistent first (s.start c) := by
  have called : ∀ w ∈ s.log, ∃ d ∈ s.calls ++ [c], d.key = w.key := by
    intro w hw
    obtain ⟨d, hd, same⟩ := h.called w hw
    exact ⟨d, List.mem_append_left _ hd, same⟩
  exact ⟨h.replays, forall_mem_concat h.logged fun applied => (unapplied applied).elim, called⟩

omit [DecidableEq κ] in
theorem moved_back {before calls : List (Call κ ν ρ)} {n m : Nat} {c d : Call κ ν ρ} {stage : Stage}
    (found : before[n]? = some c) (moved : calls = before.set n { c with stage })
    (hd : calls[m]? = some d) : ∃ d₀, before[m]? = some d₀ ∧ d₀.key = d.key ∧ d₀.value = d.value ∧
      (m ≠ n → d₀ = d) ∧ (m = n → d₀ = c ∧ d = { c with stage }) := by
  subst moved
  rcases set_cases hd with ⟨rfl, rfl⟩ | ⟨other, hd⟩
  · exact ⟨c, found, rfl, rfl, fun other => (other rfl).elim, fun _ => ⟨rfl, rfl⟩⟩
  · exact ⟨d, hd, rfl, rfl, fun _ => rfl, fun same => (other same).elim⟩

omit [DecidableEq κ] in
theorem moved_forth {before calls : List (Call κ ν ρ)} {n m : Nat} {c d : Call κ ν ρ} {stage : Stage}
    (found : before[n]? = some c) (moved : calls = before.set n { c with stage })
    (hd : before[m]? = some d) : ∃ d', calls[m]? = some d' ∧ d'.key = d.key := by
  by_cases same : n = m
  · subst same
    obtain rfl := Option.some.inj (found.symm.trans hd)
    have bound := (List.getElem?_eq_some_iff.mp found).1
    exact ⟨{ c with stage }, by simp [moved, bound], rfl⟩
  · exact ⟨d, by rw [moved, List.getElem?_set_ne same]; exact hd, rfl⟩

omit [DecidableEq κ] in
theorem moved_called {before calls : List (Call κ ν ρ)} {n : Nat} {c : Call κ ν ρ} {stage : Stage}
    {key : κ} (found : before[n]? = some c) (moved : calls = before.set n { c with stage })
    (h : ∃ d ∈ before, d.key = key) : ∃ d ∈ calls, d.key = key := by
  obtain ⟨d, hd, rfl⟩ := h
  obtain ⟨m, hm⟩ := List.mem_iff_getElem?.mp hd
  obtain ⟨d', hd', same⟩ := moved_forth found moved hm
  exact ⟨d', List.mem_of_getElem? hd', same⟩

theorem step_consistent {first : Doc κ ν} {s t : Shared κ ν ρ} {e : CallEvent}
    (h : Consistent first s) (stepped : s.step e = some t) : Consistent first t := by
  obtain ⟨n, c, stage, found, _, calls, effect⟩ := step_cases stepped
  have member := List.mem_of_getElem? found
  rcases effect with ⟨doc, log, same⟩ | ⟨whole, writing, rfl, applied, log⟩
  · have replays : Replays first t.log t.doc := by
      rw [doc, log]
      exact h.replays
    have logged : ∀ d ∈ t.calls, d.Applied → ∃ w ∈ t.log, w.key = d.key := by
      rw [calls, log]
      exact forall_mem_set h.logged fun applied => h.logged c member (same ▸ applied)
    have called : ∀ w ∈ t.log, ∃ d ∈ t.calls, d.key = w.key := by
      intro w hw
      rw [log] at hw
      exact moved_called found calls (h.called w hw)
    exact ⟨replays, logged, called⟩
  · have replays : Replays first t.log t.doc := by
      rw [log]
      exact .snoc h.replays applied
    have logged : ∀ d ∈ t.calls, d.Applied → ∃ w ∈ t.log, w.key = d.key := by
      have before : ∀ d ∈ s.calls, d.Applied → ∃ w ∈ s.log ++ [c.write whole], w.key = d.key := by
        intro d hd applied
        obtain ⟨w, hw, same⟩ := h.logged d hd applied
        exact ⟨w, List.mem_append_left _ hw, same⟩
      rw [calls, log]
      exact forall_mem_set before fun _ => ⟨c.write whole, List.mem_append_right _ (List.mem_singleton_self _), rfl⟩
    have called : ∀ w ∈ t.log, ∃ d ∈ t.calls, d.key = w.key := by
      have before : ∀ w ∈ s.log ++ [c.write whole], ∃ d ∈ s.calls, d.key = w.key :=
        forall_mem_concat h.called ⟨c, member, rfl⟩
      intro w hw
      rw [log] at hw
      exact moved_called found calls (before w hw)
    exact ⟨replays, logged, called⟩

structure Values (P : Option ν → Prop) (s : Shared κ ν ρ) : Prop where
  calls : ∀ c ∈ s.calls, P c.value
  log : ∀ w ∈ s.log, P w.value

theorem step_values {P : Option ν → Prop} {s t : Shared κ ν ρ} {e : CallEvent}
    (h : Values P s) (stepped : s.step e = some t) : Values P t := by
  obtain ⟨n, c, stage, found, _, calls, effect⟩ := step_cases stepped
  have written := h.calls c (List.mem_of_getElem? found)
  have moved : ∀ d ∈ t.calls, P d.value := by
    rw [calls]
    exact forall_mem_set h.calls written
  rcases effect with ⟨_, log, _⟩ | ⟨whole, _, _, _, log⟩
  · exact ⟨moved, log ▸ h.log⟩
  · exact ⟨moved, log ▸ forall_mem_concat h.log written⟩

/-- How a program that hosts these calls moves them: it starts one whose value satisfies `P`, or the
store takes a step. -/
def Moves (P : Option ν → Prop) (s t : Shared κ ν ρ) : Prop :=
  t = s ∨ (∃ c : Call κ ν ρ, ¬ c.Applied ∧ P c.value ∧ t = s.start c) ∨ ∃ e, s.step e = some t

theorem moves_consistent {P : Option ν → Prop} {first : Doc κ ν} {s t : Shared κ ν ρ}
    (h : Consistent first s) (moved : Moves P s t) : Consistent first t := by
  rcases moved with rfl | ⟨c, unapplied, _, rfl⟩ | ⟨e, stepped⟩
  · exact h
  · exact start_consistent h unapplied
  · exact step_consistent h stepped

theorem moves_values {P : Option ν → Prop} {s t : Shared κ ν ρ} (h : Values P s) (moved : Moves P s t) :
    Values P t := by
  rcases moved with rfl | ⟨c, _, value, rfl⟩ | ⟨e, stepped⟩
  · exact h
  · exact ⟨forall_mem_concat h.calls value, h.log⟩
  · exact step_values h stepped

/-! ### Calls of one key that do not overlap -/

def IsLast (s : Shared κ ν ρ) (n : Nat) (c : Call κ ν ρ) : Prop :=
  s.calls[n]? = some c ∧ ∀ m d, n < m → s.calls[m]? = some d → d.key ≠ c.key

def Idle (s : Shared κ ν ρ) (key : κ) : Prop := ∀ c ∈ s.calls, c.key = key → c.Finished

structure Sequential (start : Doc κ ν) (s : Shared κ ν ρ) : Prop where
  ordered : ∀ (m n : Nat) (c d : Call κ ν ρ), m < n → s.calls[m]? = some c → s.calls[n]? = some d → c.key = d.key → c.Finished
  latest : ∀ n c, s.IsLast n c → c.Applied → intended start s.log c.key = c.value

theorem fresh_sequential (start : Doc κ ν) : Sequential start (fresh (ρ := ρ) start) :=
  ⟨by simp [fresh], by simp [fresh, IsLast]⟩

theorem start_sequential {first : Doc κ ν} {s : Shared κ ν ρ} {c : Call κ ν ρ}
    (h : Sequential first s) (idle : s.Idle c.key) (unapplied : ¬ c.Applied) :
    Sequential first (s.start c) := by
  refine ⟨?_, ?_⟩
  · intro m n x y less hx hy same
    have bound := (List.getElem?_eq_some_iff.mp hy).1
    simp only [start, List.length_append, List.length_singleton] at bound
    rcases concat_cases hx with ⟨rfl, rfl⟩ | before
    · omega
    · rcases concat_cases hy with ⟨rfl, rfl⟩ | hy
      · exact idle x (List.mem_of_getElem? before) same
      · exact h.ordered m n x y less before hy same
  · rintro n x ⟨hx, last⟩ applied
    rcases concat_cases hx with ⟨rfl, rfl⟩ | hx
    · exact (unapplied applied).elim
    · refine h.latest n x ⟨hx, ?_⟩ applied
      intro m d less hd
      refine last m d less ?_
      rw [start, List.getElem?_append_left (List.getElem?_eq_some_iff.mp hd).1]
      exact hd

theorem step_sequential {first : Doc κ ν} {s t : Shared κ ν ρ} {e : CallEvent}
    (h : Sequential first s) (stepped : s.step e = some t) : Sequential first t := by
  obtain ⟨n, c, stage, found, unfinished, calls, effect⟩ := step_cases stepped
  have keeps : ∀ m d₀ d, s.calls[m]? = some d₀ → t.IsLast m d → d₀.key = d.key → s.IsLast m d₀ := by
    rintro m d₀ d hd₀ ⟨_, last⟩ same
    refine ⟨hd₀, ?_⟩
    intro k x less hx
    obtain ⟨x', hx', sameKey⟩ := moved_forth found calls hx
    rw [← sameKey, same]
    exact last k x' less hx'
  refine ⟨?_, ?_⟩
  · intro m k x y less hx hy same
    obtain ⟨x₀, hx₀, keyX, _, otherX, hereX⟩ := moved_back found calls hx
    obtain ⟨y₀, hy₀, keyY, _⟩ := moved_back found calls hy
    have done := h.ordered m k x₀ y₀ less hx₀ hy₀ (by rw [keyX, same, keyY])
    by_cases here : m = n
    · obtain ⟨rfl, -⟩ := hereX here
      exact (unfinished done).elim
    · exact otherX here ▸ done
  · intro m x last applied
    obtain ⟨x₀, hx₀, keyX, valueX, otherX, hereX⟩ := moved_back found calls last.1
    have lastBefore := keeps m x₀ x hx₀ last keyX
    rcases effect with ⟨_, log, same⟩ | ⟨whole, _, rfl, _, log⟩
    · have appliedBefore : x₀.Applied := by
        by_cases here : m = n
        · obtain ⟨rfl, rfl⟩ := hereX here
          exact same ▸ applied
        · exact otherX here ▸ applied
      rw [log, ← keyX, ← valueX]
      exact h.latest m x₀ lastBefore appliedBefore
    · rw [log, intended_snoc]
      by_cases here : m = n
      · obtain ⟨rfl, rfl⟩ := hereX here
        simp [Call.write]
      · obtain rfl := otherX here
        by_cases sameKey : c.key = x₀.key
        · -- The writing call is unfinished, so no call of its key comes after it, and `x₀` is last.
          rcases Nat.lt_or_gt_of_ne here with less | greater
          · exact (lastBefore.2 n c less found sameKey).elim
          · exact (unfinished (h.ordered n m c x₀ greater found hx₀ sameKey)).elim
        · simp only [Call.write, sameKey, if_false]
          exact h.latest m x₀ lastBefore applied

omit [DecidableEq κ] in
theorem exists_last {s : Shared κ ν ρ} {c : Call κ ν ρ} (member : c ∈ s.calls) :
    ∃ n d, s.IsLast n d ∧ d.key = c.key := by
  obtain ⟨start, found⟩ := List.mem_iff_getElem?.mp member
  have search : ∀ k n d, s.calls.length - n ≤ k → s.calls[n]? = some d → d.key = c.key →
      ∃ n d, s.IsLast n d ∧ d.key = c.key := by
    intro k
    induction k with
    | zero =>
      intro n d small hd _
      have := (List.getElem?_eq_some_iff.mp hd).1
      omega
    | succ k ih =>
      intro n d small hd key
      by_cases more : ∃ m x, n < m ∧ s.calls[m]? = some x ∧ x.key = c.key
      · obtain ⟨m, x, less, hx, keyX⟩ := more
        exact ih m x (by omega) hx keyX
      · refine ⟨n, d, ⟨hd, fun m x less hx same => more ⟨m, x, less, hx, same.trans key⟩⟩, key⟩
  exact search _ start c (Nat.le_refl _) found rfl

end Shared
end Document
