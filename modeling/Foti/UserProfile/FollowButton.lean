import Foti.UserProfile.FollowOperations

/-!
One header of another user's profile, used one step at a time: every configuration and every tap is
carried through to its last callback before the next one starts. `button_agrees_iff` says exactly
when the title follows the account's `Follows` document and each tap toggles it.
-/

namespace Foti.Follows
open Document Transition

inductive Action where
  | configure
  | tap
  deriving DecidableEq, Repr

def State.header (s : State) : UserProfileHeader := (s.headers[0]?).getD {}

/-- The events of an action without error, up to its last callback. -/
def script (user : User) (s : State) : Action → List Event
  | .configure => [.configure 0 (some user), .followData ⟨0, user.userID⟩ true]
  | .tap =>
      let n := s.shared.calls.length
      match s.header.validUser with
      | none => [.tap 0]
      | some _ =>
          if s.header.title = some .unfollow then [.tap 0, .call (.write n true), .call (.acknowledge n)]
          else [.tap 0, .call (.read n true), .call (.write n true), .call (.acknowledge n)]

def carry (accountUserID : String) (user : User) (s : State) (a : Action) : Option State :=
  run (step accountUserID) s (script user s a)

/-- The title is "Unfollow" exactly when the document contains the user, and "Follow" otherwise. -/
def Agrees (user : User) (s : State) : Prop :=
  s.header.title = some (if Contains s.shared.doc user.userID then .unfollow else .follow)

instance (user : User) (s : State) : Decidable (Agrees user s) := by unfold Agrees; infer_instance

/-- Title and document agree after the action, and a tap has toggled the document. -/
def GoodStep (user : User) (s : State) (a : Action) (t : State) : Prop :=
  Agrees user t ∧ (a = .tap → (Contains t.shared.doc user.userID ↔ ¬ Contains s.shared.doc user.userID))

def GoodRun (accountUserID : String) (user : User) : State → List Action → Prop
  | _, [] => True
  | s, a :: rest => ∃ t, carry accountUserID user s a = some t ∧ GoodStep user s a t ∧
      GoodRun accountUserID user t rest

/-- The document exists and holds nothing but 1 for the user. -/
def Readable (user : User) (d : Doc String Value) : Prop :=
  d.isSome ∧ (value d user.userID = none ∨ value d user.userID = some (.int 1))

/-- The header shows the user with an agreeing title over a readable document. -/
structure Settled (user : User) (s : State) : Prop where
  readable : Readable user s.shared.doc
  headers : ∃ h, s.headers = [h] ∧ h.validUser = some user ∧ h.crashed = false
  agrees : Agrees user s
  idle : s.lookups = []

variable {accountUserID : String} {user : User}

theorem carry_configure {s : State} {h : UserProfileHeader} (other : accountUserID ≠ user.userID)
    (headers : s.headers = [h]) (running : h.crashed = false) (idle : s.lookups = []) :
    carry accountUserID user s .configure = some { s with
      headers := [{ h with validUser := some user }.followData user.userID s.shared.doc] } := by
  simp [carry, script, run, step, headers, running, idle, UserProfileHeader.setValidUser,
    UserProfileHeader.followButton, other]

theorem step_write {s : State} {n : Nat} {ok : Bool} {shared : Shared String Value Nat}
    (h : s.shared.step (.write n ok) = some shared) :
    step accountUserID s (.call (.write n ok)) = some { s with shared } := by
  simp [step, h]

theorem step_acknowledge {s : State} {n : Nat} {c : FollowCall} {shared : Shared String Value Nat}
    (h : s.shared.step (.acknowledge n) = some shared) (found : s.shared.calls[n]? = some c) :
    step accountUserID s (.call (.acknowledge n)) =
      some { s with shared, headers := complete c s.headers } := by
  simp [step, h, found]

theorem run_merge (accountUserID : String) {s : State} {c : FollowCall} {d : Doc String Value} (merging : c.stage = .writing false)
    (applied : updateData c.key c.value s.shared.doc = some d) :
    ∃ t, run (step accountUserID) { s with shared := s.shared.start c }
        [.call (.write s.shared.calls.length true), .call (.acknowledge s.shared.calls.length)] = some t ∧
      t.shared.doc = d ∧ t.lookups = s.lookups ∧
      t.headers = s.headers.modify c.closure (c.completion false) := by
  have applied : (c.write false).apply s.shared.doc = some d := by
    simpa [Write.apply, Call.write] using applied
  have written := Shared.write_newest s.shared merging applied
  have acknowledged := Shared.acknowledge_newest
    { s.shared with doc := d, log := s.shared.log ++ [c.write false] }
    (c := { c with stage := .written false true }) rfl
  refine ⟨_, run_cons_of (step_write written)
    (run_cons_of (step_acknowledge acknowledged (Shared.start_newest _ _)) rfl), rfl, rfl, rfl⟩

theorem carry_tap (accountUserID : String) {s : State} (settled : Settled user s) :
    ∃ t, carry accountUserID user s .tap = some t ∧
      updateData user.userID (if Contains s.shared.doc user.userID then none else some (.int 1))
        s.shared.doc = some t.shared.doc ∧ t.lookups = [] ∧
      t.headers = [{ s.header with
        title := some (if Contains s.shared.doc user.userID then .follow else .unfollow) }] := by
  obtain ⟨⟨present, _⟩, ⟨h, headers, shown, running⟩, agrees, idle⟩ := settled
  have header : s.header = h := by simp [State.header, headers]
  obtain ⟨d, applied⟩ := updateData_of_exists present user.userID
    (if Contains s.shared.doc user.userID then none else some (.int 1))
  rw [Agrees, header] at agrees
  by_cases follows : Contains s.shared.doc user.userID
  · rw [if_pos follows] at agrees
    simp only [follows, if_true] at applied ⊢
    obtain ⟨t, ran, doc, lookups, shownHeaders⟩ :=
      run_merge accountUserID (s := s)
        (c := ⟨user.userID, none, 0, .writing false⟩) rfl applied
    refine ⟨t, ?_, by rw [doc, applied], by rw [lookups, idle], ?_⟩
    · simp only [carry, script, header, shown, agrees, if_true]
      refine run_cons_of ?_ ran
      simp [step, headers, running, btnProfile_Follow_Edit, shown, agrees]
    · simp [shownHeaders, headers, header, FollowCall.completion]
  · rw [if_neg follows] at agrees
    simp only [follows, if_false] at applied ⊢
    obtain ⟨t, ran, doc, lookups, shownHeaders⟩ :=
      run_merge accountUserID (s := s)
        (c := ⟨user.userID, some (.int 1), 0, .writing false⟩) rfl applied
    have read := Shared.read_newest s.shared
      (c := ⟨user.userID, some (.int 1), 0, .reading⟩) true rfl
    simp only [present, Bool.not_true, if_true] at read
    refine ⟨t, ?_, by rw [doc, applied], by rw [lookups, idle], ?_⟩
    · simp only [carry, script, header, shown, agrees]
      refine run_cons_of (m := { s with shared := s.shared.start ⟨user.userID, some (.int 1), 0, .reading⟩ })
        ?_ (run_cons_of ?_ ran)
      · simp [step, headers, running, btnProfile_Follow_Edit, shown, agrees]
      · simp [step, read]
    · simp [shownHeaders, headers, header, FollowCall.completion]

theorem contains_merged {d t : Doc String Value} {v : Option Value}
    (merged : updateData user.userID v d = some t) : Contains t user.userID ↔ v.isSome := by
  rw [Contains, updateData_value_same merged]

theorem configure_settles {s : State} {h : UserProfileHeader} (other : accountUserID ≠ user.userID)
    (headers : s.headers = [h]) (running : h.crashed = false) (idle : s.lookups = [])
    (readable : Readable user s.shared.doc) :
    ∃ t, carry accountUserID user s .configure = some t ∧ GoodStep user s .configure t ∧ Settled user t := by
  refine ⟨_, carry_configure other headers running idle, ?_⟩
  obtain ⟨present, holds⟩ := readable
  obtain ⟨fields, doc⟩ := Option.isSome_iff_exists.mp present
  rw [doc, value_some] at holds
  suffices agrees : Agrees user _ from
    ⟨⟨agrees, by simp⟩, ⟨present, by rwa [doc, value_some]⟩, ⟨_, rfl, ?_, ?_⟩, agrees, idle⟩
  all_goals
    rcases holds with absent | follow
    · simp [Agrees, State.header, UserProfileHeader.followData, doc, Contains, absent, running]
    · simp [Agrees, State.header, UserProfileHeader.followData, doc, Contains, follow, running]

theorem tap_settles {s : State} (settled : Settled user s) :
    ∃ t, carry accountUserID user s .tap = some t ∧ GoodStep user s .tap t ∧ Settled user t := by
  obtain ⟨t, carried, merged, lookups, headers⟩ := carry_tap accountUserID settled
  obtain ⟨h, before, shown, running⟩ := settled.headers
  have header : s.header = h := by simp [State.header, before]
  have toggled : Contains t.shared.doc user.userID ↔ ¬ Contains s.shared.doc user.userID := by
    rw [contains_merged merged]
    split <;> simp_all
  have agrees : Agrees user t := by
    by_cases follows : Contains s.shared.doc user.userID <;>
      simp [Agrees, State.header, headers, toggled, follows]
  refine ⟨t, carried, ⟨agrees, fun _ => toggled⟩, ⟨(updateData_exists merged).2, ?_⟩,
    ⟨_, headers, by rw [header]; exact shown, by rw [header]; exact running⟩, agrees, lookups⟩
  rw [updateData_value_same merged]
  split <;> simp

theorem settled_good {s : State} (other : accountUserID ≠ user.userID) (settled : Settled user s)
    (actions : List Action) : GoodRun accountUserID user s actions := by
  induction actions generalizing s with
  | nil => trivial
  | cons a rest ih =>
    cases a with
    | configure =>
      obtain ⟨h, headers, _, running⟩ := settled.headers
      obtain ⟨t, carried, good, next⟩ :=
        configure_settles other headers running settled.idle settled.readable
      exact ⟨t, carried, good, ih next⟩
    | tap =>
      obtain ⟨t, carried, good, next⟩ := tap_settles settled
      exact ⟨t, carried, good, ih next⟩

theorem readable_of_agrees {first : Doc String Value} {t : State} (other : accountUserID ≠ user.userID)
    (carried : carry accountUserID user (.fresh first [{}]) .configure = some t) (agrees : Agrees user t) :
    Readable user first := by
  rw [carry_configure other rfl rfl rfl] at carried
  obtain rfl := Option.some.inj carried
  cases first with
  | none => simp [Agrees, State.header, State.fresh, Shared.fresh, UserProfileHeader.followData] at agrees
  | some fields =>
    refine ⟨rfl, ?_⟩
    rw [value_some]
    cases found : fields.lookup user.userID with
    | none => exact .inl rfl
    | some v =>
      cases v with
      | int n =>
        by_cases one : n = 1
        · exact .inr (by rw [one])
        · simp [Agrees, State.header, State.fresh, Shared.fresh, UserProfileHeader.followData, found, one] at agrees
      | _ => simp [Agrees, State.header, State.fresh, Shared.fresh, UserProfileHeader.followData, found] at agrees

/-- For every starting document and every sequence of actions on a new header, the button agrees with
the document and every tap toggles it exactly when the header is configured first and the document
exists, holding nothing but 1 for the user. -/
theorem button_agrees_iff (other : accountUserID ≠ user.userID) (first : Doc String Value)
    (actions : List Action) : GoodRun accountUserID user (.fresh first [{}]) actions ↔
      actions = [] ∨ (∃ rest, actions = .configure :: rest) ∧ Readable user first := by
  constructor
  · intro good
    match actions, good with
    | [], _ => exact .inl rfl
    | .configure :: rest, ⟨t, carried, ⟨agrees, _⟩, _⟩ =>
      exact .inr ⟨⟨rest, rfl⟩, readable_of_agrees other carried agrees⟩
    | .tap :: rest, ⟨t, carried, ⟨agrees, _⟩, _⟩ =>
      -- A header that shows nobody ignores the tap and has no title.
      obtain rfl := Option.some.inj carried
      simp [Agrees, State.header, State.fresh] at agrees
  · rintro (rfl | ⟨⟨rest, rfl⟩, readable⟩)
    · trivial
    · obtain ⟨t, carried, good, settled⟩ :=
        configure_settles (s := .fresh first [{}]) other rfl rfl rfl readable
      exact ⟨t, carried, good, settled_good other settled rest⟩

theorem button_agrees_iff_empty : GoodRun "alice" ⟨"bob", "bob", "url"⟩ (.fresh (some ∅) [{}])
    [.configure, .tap, .tap] ↔ [Action.configure, .tap, .tap] = [] ∨
      (∃ rest, [Action.configure, .tap, .tap] = .configure :: rest) ∧
        Readable ⟨"bob", "bob", "url"⟩ (some ∅) :=
  button_agrees_iff (by decide) (some ∅) [.configure, .tap, .tap]

/-- Without a document the configuration leaves the button without a title, the first tap follows but
sets no title either, and the second tap follows again instead of unfollowing. -/
theorem first_follow_untitled : ∃ s t u,
    carry "alice" ⟨"bob", "bob", "url"⟩ (.fresh none [{}]) .configure = some s ∧ s.header.title = none ∧
    carry "alice" ⟨"bob", "bob", "url"⟩ s .tap = some t ∧ t.header.title = none ∧
    Contains t.shared.doc "bob" ∧
    carry "alice" ⟨"bob", "bob", "url"⟩ t .tap = some u ∧ Contains u.shared.doc "bob" ∧
    ¬ GoodRun "alice" ⟨"bob", "bob", "url"⟩ (.fresh none [{}]) [.configure, .tap, .tap] := by
  refine ⟨_, _, _, rfl, by decide, rfl, by decide, by decide, rfl, by decide, ?_⟩
  rintro ⟨t, carried, ⟨agrees, _⟩, _⟩
  obtain rfl := Option.some.inj carried
  exact absurd agrees (by decide)

end Foti.Follows
