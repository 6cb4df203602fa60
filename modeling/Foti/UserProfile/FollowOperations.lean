import Foti.UserProfile.UserProfileHeader
import Foti.Library.Overtaken

/-!
The `Follows` document of one account under the follow and unfollow taps of any number of its
sessions, on any profiles. A first follow that found no document replaces the document, also when
another session has written it meanwhile. `follows_kept_iff` says exactly in which runs nothing is lost.
-/

namespace Foti.Follows
open Document Transition

/-- The read that `followButton` has sent for the header at `place`. -/
structure Lookup where
  place : Nat
  validUserID : String
  deriving DecidableEq, Repr

structure State where
  shared : Shared String Value Nat
  headers : List UserProfileHeader
  lookups : List Lookup

def State.fresh (first : Doc String Value) (headers : List UserProfileHeader) : State :=
  ⟨.fresh first, headers, []⟩

inductive Event where
  | configure (place : Nat) (user : Option User)
  | followData (l : Lookup) (ok : Bool)
  | tap (place : Nat)
  | call (e : CallEvent)
  deriving DecidableEq, Repr

def complete (c : FollowCall) (headers : List UserProfileHeader) : List UserProfileHeader :=
  match c.stage with
  | .written whole true => headers.modify c.closure (c.completion whole)
  | _ => headers

variable (accountUserID : String)

def step (s : State) : Event → Option State
  | .configure place user => do
      let h ← s.headers[place]?
      if h.crashed then none else
      let (h', asked) := h.setValidUser (some accountUserID) user
      return { s with
        headers := s.headers.set place h'
        lookups := s.lookups ++ (asked.map (Lookup.mk place)).toList }
  | .followData l ok =>
      if l ∈ s.lookups then
        let headers := if ok then
            s.headers.modify l.place fun h => h.followData l.validUserID s.shared.doc
          else s.headers
        some { s with headers, lookups := s.lookups.erase l }
      else none
  | .tap place => do
      let h ← s.headers[place]?
      if h.crashed then none else
      match btnProfile_Follow_Edit h place (some accountUserID) with
      | some c => return { s with shared := s.shared.start c }
      | none => return s
  | .call e => do
      let shared ← s.shared.step e
      match e with
      | .acknowledge n => do
          let c ← s.shared.calls[n]?
          return { s with shared, headers := complete c s.headers }
      | _ => return { s with shared }

def Event.called : Event → Option CallEvent
  | .call e => some e
  | _ => none

/-- What a call writes: an unfollow deletes its field, a follow sets it to 1. -/
def FollowValue (v : Option Value) : Prop := v = none ∨ v = some (.int 1)

theorem hosts : Shared.Hosts State.shared Event.called FollowValue (step accountUserID) := by
  intro s e t h
  cases e with
  | configure place user =>
    simp only [step, Option.bind_eq_bind, Option.bind_eq_some_iff, Option.pure_def] at h
    obtain ⟨_, _, h⟩ := h
    split at h
    · cases h
    · obtain rfl := Option.some.inj h
      exact .inl rfl
  | followData l ok =>
    simp only [step, Option.ite_none_right_eq_some] at h
    obtain ⟨_, h⟩ := h
    obtain rfl := Option.some.inj h
    exact .inl rfl
  | tap place =>
    simp only [step, Option.bind_eq_bind, Option.bind_eq_some_iff, Option.pure_def] at h
    obtain ⟨header, _, h⟩ := h
    split at h
    · cases h
    · split at h
      · rename_i c called
        obtain rfl := Option.some.inj h
        obtain ⟨_, _, _, _, starts, value⟩ := btnProfile_Follow_Edit_ok called
        exact .inr ⟨c, starts, value, rfl⟩
      · obtain rfl := Option.some.inj h
        exact .inl rfl
  | call e =>
    simp only [step, Option.bind_eq_bind, Option.bind_eq_some_iff, Option.pure_def] at h
    obtain ⟨shared, stepped, h⟩ := h
    split at h
    · obtain ⟨_, _, h⟩ := Option.bind_eq_some_iff.mp h
      obtain rfl := Option.some.inj h
      exact stepped
    · obtain rfl := Option.some.inj h
      exact stepped

def Done (s : State) : Prop := ∀ c ∈ s.shared.calls, c.stage = .finished true

instance (s : State) : Decidable (Done s) := by unfold Done; infer_instance

def Contains (d : Doc String Value) (validUserID : String) : Prop := (value d validUserID).isSome

instance (d : Doc String Value) (validUserID : String) : Decidable (Contains d validUserID) := by
  unfold Contains; infer_instance

def LastWriteFollows (log : List (Write String Value)) (validUserID : String) : Prop :=
  ∃ before w after, log = before ++ w :: after ∧ w.key = validUserID ∧
    (∀ v ∈ after, v.key ≠ validUserID) ∧ w.value = some (.int 1)

/-- No follow operation is lost: a tapped user is contained as its last write says, and every other
user as at the start. -/
def Kept (first : Doc String Value) (s : State) : Prop :=
  (∀ validUserID, (∃ c ∈ s.shared.calls, c.key = validUserID) →
    (Contains s.shared.doc validUserID ↔ LastWriteFollows s.shared.log validUserID)) ∧
  ∀ validUserID, (∀ c ∈ s.shared.calls, c.key ≠ validUserID) →
    (Contains s.shared.doc validUserID ↔ Contains first validUserID)

theorem intended_follow {first : Doc String Value} {log : List (Write String Value)} {key : String}
    (values : ∀ w ∈ log, FollowValue w.value) (written : ∃ w ∈ log, w.key = key) :
    (intended first log key).isSome ↔ LastWriteFollows log key := by
  constructor
  · intro held
    obtain ⟨before, w, after, rfl, rfl, last⟩ := exists_last_write written
    rw [intended_last last] at held
    refine ⟨before, w, after, rfl, rfl, last, ?_⟩
    rcases values w (by simp) with absent | follow
    · rw [absent] at held
      cases held
    · exact follow
  · rintro ⟨before, w, after, rfl, rfl, last, follow⟩
    rw [intended_last last, follow]
    rfl

theorem kept_iff_intended {first : Doc String Value} {s : State} (consistent : Shared.Consistent first s.shared)
    (values : Shared.Values FollowValue s.shared) (done : Done s) :
    Kept first s ↔ ∀ key, (value s.shared.doc key).isSome = (intended first s.shared.log key).isSome := by
  have written : ∀ key, (∃ c ∈ s.shared.calls, c.key = key) → ∃ w ∈ s.shared.log, w.key = key := by
    rintro _ ⟨c, hc, rfl⟩
    exact consistent.logged c hc (by simp [Call.Applied, done c hc])
  constructor
  · rintro ⟨tapped, others⟩ key
    rw [Bool.eq_iff_iff]
    by_cases called : ∃ c ∈ s.shared.calls, c.key = key
    · exact (tapped key called).trans (intended_follow values.log (written key called)).symm
    · have absent : ∀ c ∈ s.shared.calls, c.key ≠ key := fun c hc same => called ⟨c, hc, same⟩
      rw [consistent.untouched absent]
      exact others key absent
  · intro same
    refine ⟨fun key called => ?_, fun key absent => ?_⟩
    · rw [Contains, same key]
      exact intended_follow values.log (written key called)
    · rw [Contains, same key, consistent.untouched absent]
      rfl

section Runs
variable {accountUserID} {first : Doc String Value} {headers : List UserProfileHeader} {events : List Event} {t : State}

theorem kept_iff_erased (h : run (step accountUserID) (.fresh first headers) events = some t) (done : Done t) :
    Kept first t ↔ ∀ validUserID, ¬ Erased first t.shared.log validUserID := by
  have consistent : Shared.Consistent first t.shared :=
    run_keeps (I := fun s => Shared.Consistent first s.shared)
      (fun _ _ _ hs stepped => Shared.moves_consistent hs ((hosts accountUserID).moves stepped)) h
      (Shared.fresh_consistent first)
  have values : Shared.Values FollowValue t.shared :=
    run_keeps (I := fun s => Shared.Values FollowValue s.shared)
      (fun _ _ _ hs stepped => Shared.moves_values hs ((hosts accountUserID).moves stepped)) h
      ⟨by simp [State.fresh, Shared.fresh], by simp [State.fresh, Shared.fresh]⟩
  rw [kept_iff_intended consistent values done]
  exact forall_congr' fun key => replays_mem_iff consistent.replays key

theorem run_traced (h : run (step accountUserID) (.fresh first headers) events = some t) (done : Done t) :
    Shared.Traced first (events.filterMap Event.called) t.shared :=
  (hosts accountUserID).run_traced h (Shared.clean_of_done done) (Shared.fresh_traced first)

/-- Where the document exists at the start, no follow operation is lost. -/
theorem follows_kept_existing (h : run (step accountUserID) (.fresh first headers) events = some t) (done : Done t)
    (existing : first.isSome) : Kept first t :=
  (kept_iff_erased h done).mpr fun key => (run_traced h done).not_erased existing key

end Runs

/-- In every run, no follow operation is lost exactly when no user is overtaken: the document is missing at
the start, and after the last write about the user, a follow, comes the `setData` of a follow of another
user whose read was answered before any write. -/
theorem follows_kept_iff (first : Doc String Value) (headers : List UserProfileHeader)
    (events : List Event) (t : State)
    (h : run (step accountUserID) (.fresh first headers) events = some t) (done : Done t) :
    Kept first t ↔
      ∀ validUserID, ¬ Shared.Overtaken first t.shared.subjects (events.filterMap Event.called) validUserID := by
  rw [kept_iff_erased h done]
  exact forall_congr' fun key => not_congr ((run_traced h done).erased key)

def race : List Event :=
  [.configure 0 (some ⟨"bob", "bob", "url"⟩), .configure 1 (some ⟨"carol", "carol", "url"⟩),
   .tap 0, .tap 1, .call (.read 0 true), .call (.read 1 true),
   .call (.write 0 true), .call (.acknowledge 0), .call (.write 1 true), .call (.acknowledge 1)]

theorem follows_kept_iff_race : ∃ t, run (step "alice") (.fresh none [{}, {}]) race = some t ∧
    (Kept none t ↔
      ∀ validUserID, ¬ Shared.Overtaken none t.shared.subjects (race.filterMap Event.called) validUserID) :=
  ⟨_, rfl, follows_kept_iff "alice" none [{}, {}] race _ rfl (by decide)⟩

/-- The second `setData` drops the first follow, although both calls succeeded. -/
theorem race_loses_follow : ∃ t, run (step "alice") (.fresh none [{}, {}]) race = some t ∧ Done t ∧
    LastWriteFollows t.shared.log "bob" ∧ ¬ Contains t.shared.doc "bob" ∧ ¬ Kept none t := by
  have written : LastWriteFollows [⟨true, "bob", some (.int 1)⟩, ⟨true, "carol", some (.int 1)⟩] "bob" :=
    ⟨[], _, _, rfl, rfl, by decide, rfl⟩
  refine ⟨_, rfl, by decide, written, by decide, ?_⟩
  rintro ⟨tapped, _⟩
  exact absurd ((tapped "bob" (by decide)).mpr written) (by decide)

end Foti.Follows
