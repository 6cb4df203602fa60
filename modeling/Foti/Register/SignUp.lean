import Foti.Library.Entries
import Foti.Library.Transition
import Foti.Register.RegisterController

/-!
Sign-up over any number of attempts. `Auth` refuses a second account for an e-mail and hands out
fresh uids. An attempt that fails after `createUser` leaves its account behind without a user
document; `sign_up_settles` says what every account has once no step is outstanding.
-/

namespace Foti.SignUp
open Entries Transition

structure Account where
  email : String
  uid : String
  deriving DecidableEq, Repr

structure State where
  accounts : List Account := []
  users : String → Option Dict := fun _ => none
  attempts : List SignUpAttempt := []

inductive Event where
  | press (txtEmail txtUserName txtPassword : Option String)
  | created (n : Nat) (result : Option String)
  | uploaded (n : Nat) (ok : Bool)
  | located (n : Nat) (url : Option String) (ok : Bool)
  | stored (n : Nat) (ok : Bool)

/-- `createUser` succeeds only for an e-mail without an account. -/
def Available (accounts : List Account) (email uid : String) : Prop :=
  ∀ acc ∈ accounts, acc.email ≠ email ∧ acc.uid ≠ uid

instance (accounts : List Account) (email uid : String) : Decidable (Available accounts email uid) := by
  unfold Available; infer_instance

def State.put (s : State) (n : Nat) (a : SignUpAttempt) : State :=
  { s with attempts := s.attempts.set n a }

def step (s : State) : Event → Option State
  | .press txtEmail txtUserName txtPassword =>
      match btnSignUpPressed txtEmail txtUserName txtPassword with
      | some a => some { s with attempts := s.attempts ++ [a] }
      | none => some s
  | .created n result => do
      let a ← s.attempts[n]?
      let a' ← a.created result
      match result with
      | some uid =>
          if Available s.accounts a.emailAddress uid then
            some { s.put n a' with accounts := ⟨a.emailAddress, uid⟩ :: s.accounts }
          else none
      | none => some (s.put n a')
  | .uploaded n ok => do
      let a ← s.attempts[n]?
      let a' ← a.uploaded ok
      some (s.put n a')
  | .located n url ok => do
      let a ← s.attempts[n]?
      let a' ← a.located url ok
      some (s.put n a')
  | .stored n ok => do
      let a ← s.attempts[n]?
      let a' ← a.stored ok
      match a'.stage with
      | .saved uid url =>
          some { s.put n a' with
            users := Function.update s.users uid (some (SignUpAttempt.addData a.userName uid url)) }
      | _ => some (s.put n a')

/-- The outcomes of `step`, one constructor for each branch. -/
inductive Stepped (s : State) : Event → State → Prop where
  | pressed {txtEmail txtUserName txtPassword : Option String} {a : SignUpAttempt} (creating : a.stage = .creating)
      (pressed : btnSignUpPressed txtEmail txtUserName txtPassword = some a) :
      Stepped s (.press txtEmail txtUserName txtPassword) { s with attempts := s.attempts ++ [a] }
  | unread {txtEmail txtUserName txtPassword : Option String}
      (unread : btnSignUpPressed txtEmail txtUserName txtPassword = none) :
      Stepped s (.press txtEmail txtUserName txtPassword) s
  | created {n : Nat} {a : SignUpAttempt} {uid : String} (found : s.attempts[n]? = some a)
      (creating : a.stage = .creating) (available : Available s.accounts a.emailAddress uid) :
      Stepped s (.created n (some uid))
        { s.put n { a with stage := .uploading uid } with accounts := ⟨a.emailAddress, uid⟩ :: s.accounts }
  | refused {n : Nat} {a : SignUpAttempt} (found : s.attempts[n]? = some a) (creating : a.stage = .creating) :
      Stepped s (.created n none) (s.put n { a with stage := .refused })
  | uploaded {n : Nat} {a : SignUpAttempt} {uid : String} {ok : Bool} (found : s.attempts[n]? = some a)
      (uploading : a.stage = .uploading uid) :
      Stepped s (.uploaded n ok) (s.put n { a with stage := if ok then .locating uid else .abandoned uid })
  | located {n : Nat} {a : SignUpAttempt} {uid : String} {url : Option String} {ok : Bool}
      (found : s.attempts[n]? = some a) (locating : a.stage = .locating uid) :
      Stepped s (.located n url ok) (s.put n { a with stage := if ok then .saving uid url else .abandoned uid })
  | saved {n : Nat} {a : SignUpAttempt} {uid : String} {url : Option String} (found : s.attempts[n]? = some a)
      (saving : a.stage = .saving uid url) :
      Stepped s (.stored n true) { s.put n { a with stage := .saved uid url } with
        users := Function.update s.users uid (some (SignUpAttempt.addData a.userName uid url)) }
  | saveFails {n : Nat} {a : SignUpAttempt} {uid : String} {url : Option String} (found : s.attempts[n]? = some a)
      (saving : a.stage = .saving uid url) : Stepped s (.stored n false) (s.put n { a with stage := .abandoned uid })

theorem step_ok {s t : State} {e : Event} (h : step s e = some t) : Stepped s e t := by
  cases e with
  | press txtEmail txtUserName txtPassword =>
    simp only [step] at h
    split at h <;> obtain rfl := Option.some.inj h
    · rename_i a pressed
      exact .pressed (btnSignUpPressed_ok pressed) pressed
    · rename_i unread
      exact .unread unread
  | created n result =>
    obtain ⟨a, found, h⟩ := Option.bind_eq_some_iff.mp h
    obtain ⟨a', answered, h⟩ := Option.bind_eq_some_iff.mp h
    obtain ⟨creating, rfl⟩ := SignUpAttempt.created_ok answered
    cases result with
    | none =>
      obtain rfl := Option.some.inj h
      exact .refused found creating
    | some uid =>
      obtain ⟨available, same⟩ := Option.ite_none_right_eq_some.mp h
      obtain rfl := Option.some.inj same
      exact .created found creating available
  | uploaded n ok =>
    obtain ⟨a, found, h⟩ := Option.bind_eq_some_iff.mp h
    obtain ⟨a', answered, same⟩ := Option.bind_eq_some_iff.mp h
    obtain ⟨uid, uploading, rfl⟩ := SignUpAttempt.uploaded_ok answered
    obtain rfl := Option.some.inj same
    exact .uploaded found uploading
  | located n url ok =>
    obtain ⟨a, found, h⟩ := Option.bind_eq_some_iff.mp h
    obtain ⟨a', answered, same⟩ := Option.bind_eq_some_iff.mp h
    obtain ⟨uid, locating, rfl⟩ := SignUpAttempt.located_ok answered
    obtain rfl := Option.some.inj same
    exact .located found locating
  | stored n ok =>
    obtain ⟨a, found, h⟩ := Option.bind_eq_some_iff.mp h
    obtain ⟨a', answered, h⟩ := Option.bind_eq_some_iff.mp h
    obtain ⟨uid, url, saving, rfl⟩ := SignUpAttempt.stored_ok answered
    cases ok <;> obtain rfl := Option.some.inj h
    · exact .saveFails found saving
    · exact .saved found saving

/-- What a step can do to the attempts, the accounts and the user documents. -/
inductive Effect (s t : State) : Prop where
  | same (h : t = s)
  | pressed (a : SignUpAttempt) (none : a.account = none) (h : t = { s with attempts := s.attempts ++ [a] })
  | created (n : Nat) (a a' : SignUpAttempt) (uid : String) (found : s.attempts[n]? = some a)
      (before : a.account = none) (after : a'.account = some uid) (unsaved : a'.document = none)
      (email : a'.emailAddress = a.emailAddress) (available : Available s.accounts a.emailAddress uid)
      (h : t = { s.put n a' with accounts := ⟨a.emailAddress, uid⟩ :: s.accounts })
  | refused (n : Nat) (a a' : SignUpAttempt) (found : s.attempts[n]? = some a)
      (before : a.account = none) (after : a'.account = none) (h : t = s.put n a')
  | moved (n : Nat) (a a' : SignUpAttempt) (uid : String) (found : s.attempts[n]? = some a)
      (before : a.account = some uid) (after : a'.account = some uid)
      (email : a'.emailAddress = a.emailAddress) (unsaved : a.document = none)
      (h : t = { s.put n a' with users := t.users })
      (users : t.users uid = (if a'.document = none then s.users uid else a'.document) ∧
        ∀ other, other ≠ uid → t.users other = s.users other)

/-- An attempt that has its account and not yet its document goes to its next stage. -/
theorem going_effect {s : State} {n : Nat} {a : SignUpAttempt} {stage : SignUpStage} {uid : String}
    (found : s.attempts[n]? = some a) (before : a.account = some uid) (unsaved : a.document = none)
    (after : SignUpAttempt.account { a with stage } = some uid)
    (still : SignUpAttempt.document { a with stage } = none) : Effect s (s.put n { a with stage }) := by
  refine .moved n a { a with stage } uid found before after rfl unsaved rfl ⟨?_, fun _ _ => rfl⟩
  rw [if_pos still]
  rfl

theorem step_effect {s t : State} {e : Event} (h : step s e = some t) : Effect s t := by
  cases step_ok h with
  | @pressed _ _ _ a creating => exact .pressed a (by simp [SignUpAttempt.account, creating]) rfl
  | unread => exact .same rfl
  | @created n a uid found creating available =>
    have before : a.account = none := by simp [SignUpAttempt.account, creating]
    exact .created n a { a with stage := .uploading uid } uid found before rfl rfl rfl available rfl
  | @refused n a found creating =>
    have before : a.account = none := by simp [SignUpAttempt.account, creating]
    exact .refused n a { a with stage := .refused } found before rfl rfl
  | @uploaded n a uid ok found uploading =>
    have before : a.account = some uid := by simp [SignUpAttempt.account, uploading]
    have unsaved : a.document = none := by simp [SignUpAttempt.document, uploading]
    refine going_effect found before unsaved ?_ ?_ <;> cases ok <;> rfl
  | @located n a uid url ok found locating =>
    have before : a.account = some uid := by simp [SignUpAttempt.account, locating]
    have unsaved : a.document = none := by simp [SignUpAttempt.document, locating]
    refine going_effect found before unsaved ?_ ?_ <;> cases ok <;> rfl
  | @saved n a uid url found saving =>
    have before : a.account = some uid := by simp [SignUpAttempt.account, saving]
    have unsaved : a.document = none := by simp [SignUpAttempt.document, saving]
    exact .moved n a { a with stage := .saved uid url } uid found before rfl rfl unsaved rfl
      ⟨by simp [SignUpAttempt.document], fun other different => by simp [different]⟩
  | @saveFails n a uid url found saving =>
    have before : a.account = some uid := by simp [SignUpAttempt.account, saving]
    have unsaved : a.document = none := by simp [SignUpAttempt.document, saving]
    exact going_effect found before unsaved rfl rfl

structure Inv (s : State) : Prop where
  owned : ∀ acc ∈ s.accounts, ∃ a ∈ s.attempts, a.emailAddress = acc.email ∧ a.account = some acc.uid
  accounted : ∀ (n : Nat) (a : SignUpAttempt) (uid : String), s.attempts[n]? = some a →
    a.account = some uid → ⟨a.emailAddress, uid⟩ ∈ s.accounts
  unique : ∀ (m n : Nat) (a b : SignUpAttempt) (uid : String), s.attempts[m]? = some a →
    s.attempts[n]? = some b → a.account = some uid → b.account = some uid → m = n
  documents : ∀ (n : Nat) (a : SignUpAttempt) (uid : String), s.attempts[n]? = some a →
    a.account = some uid → s.users uid = a.document
  noUser : ∀ uid, (∀ acc ∈ s.accounts, acc.uid ≠ uid) → s.users uid = none
  emails : s.accounts.Pairwise fun x y => x.email ≠ y.email

theorem initial_inv : Inv {} := ⟨by simp, by simp, by simp, by simp, fun _ _ => rfl, .nil⟩

theorem put_found {s : State} {n : Nat} {a b : SignUpAttempt} (found : s.attempts[n]? = some a) :
    (s.put n b).attempts[n]? = some b := by
  have bound := (List.getElem?_eq_some_iff.mp found).1
  simp [State.put, bound]

theorem put_other {s : State} {n m : Nat} {a : SignUpAttempt} (different : m ≠ n) :
    (s.put n a).attempts[m]? = s.attempts[m]? := by
  rw [State.put, List.getElem?_set_ne (Ne.symm different)]

theorem put_owned {s : State} {n : Nat} {a a' : SignUpAttempt} {acc : Account} (found : s.attempts[n]? = some a)
    (owner : ∃ b ∈ s.attempts, b.emailAddress = acc.email ∧ b.account = some acc.uid)
    (keeps : a.emailAddress = acc.email → a.account = some acc.uid →
      a'.emailAddress = acc.email ∧ a'.account = some acc.uid) :
    ∃ b ∈ (s.put n a').attempts, b.emailAddress = acc.email ∧ b.account = some acc.uid := by
  obtain ⟨b, hb, email, owns⟩ := owner
  obtain ⟨m, hm⟩ := List.mem_iff_getElem?.mp hb
  by_cases same : m = n
  · subst same
    obtain rfl := Option.some.inj (found.symm.trans hm)
    exact ⟨a', List.mem_of_getElem? (put_found found), keeps email owns⟩
  · exact ⟨b, List.mem_of_getElem? ((put_other same).trans hm), email, owns⟩

/-- A step after which every attempt with an account is as it was. -/
theorem old_inv {s t : State} (h : Inv s) (accounts : t.accounts = s.accounts) (users : t.users = s.users)
    (owned : ∀ acc ∈ s.accounts, ∃ b ∈ t.attempts, b.emailAddress = acc.email ∧ b.account = some acc.uid)
    (old : ∀ {n : Nat} {b : SignUpAttempt} {uid : String}, t.attempts[n]? = some b → b.account = some uid →
      s.attempts[n]? = some b) : Inv t := by
  constructor
  case owned => exact accounts ▸ owned
  case accounted => exact fun n b uid hb owns => accounts ▸ h.accounted n b uid (old hb owns) owns
  case unique =>
    exact fun m n b c uid hb hc ownsB ownsC => h.unique m n b c uid (old hb ownsB) (old hc ownsC) ownsB ownsC
  case documents => exact fun n b uid hb owns => users ▸ h.documents n b uid (old hb owns) owns
  case noUser =>
    rw [accounts, users]
    exact h.noUser
  case emails => exact accounts ▸ h.emails

theorem pressed_inv {s : State} {a : SignUpAttempt} (h : Inv s) (none : a.account = none) :
    Inv { s with attempts := s.attempts ++ [a] } := by
  refine old_inv h rfl rfl (fun acc hacc => ?_) fun found owns => ?_
  · obtain ⟨b, hb, owns⟩ := h.owned acc hacc
    exact ⟨b, List.mem_append_left _ hb, owns⟩
  · refine (concat_cases found).resolve_left fun ⟨_, new⟩ => ?_
    rw [new, none] at owns
    cases owns

theorem refused_inv {s : State} {n : Nat} {a a' : SignUpAttempt} (h : Inv s) (found : s.attempts[n]? = some a)
    (before : a.account = none) (after : a'.account = none) : Inv (s.put n a') := by
  refine old_inv h rfl rfl (fun acc hacc => ?_) fun hb owns => ?_
  · refine put_owned found (h.owned acc hacc) fun _ owns => ?_
    rw [before] at owns
    cases owns
  · rcases set_cases hb with ⟨_, rfl⟩ | ⟨_, hb⟩
    · rw [after] at owns
      cases owns
    · exact hb

theorem created_inv {s : State} {n : Nat} {a a' : SignUpAttempt} {uid : String} (h : Inv s)
    (found : s.attempts[n]? = some a) (before : a.account = none) (after : a'.account = some uid)
    (unsaved : a'.document = none) (email : a'.emailAddress = a.emailAddress)
    (available : Available s.accounts a.emailAddress uid) :
    Inv { s.put n a' with accounts := ⟨a.emailAddress, uid⟩ :: s.accounts } := by
  have absent : ∀ {m : Nat} {b : SignUpAttempt}, s.attempts[m]? = some b → b.account ≠ some uid := fun hb owns =>
    (available _ (h.accounted _ _ _ hb owns)).2 rfl
  constructor
  case owned =>
    intro acc hacc
    rcases List.mem_cons.mp hacc with rfl | hacc
    · exact ⟨a', List.mem_of_getElem? (put_found found), email, after⟩
    · refine put_owned found (h.owned acc hacc) fun _ owns => ?_
      rw [before] at owns
      cases owns
  case accounted =>
    intro m b u hb owns
    rcases set_cases hb with ⟨_, rfl⟩ | ⟨_, hb⟩
    · obtain rfl := Option.some.inj (after.symm.trans owns)
      rw [email]
      exact List.mem_cons_self
    · exact List.mem_cons_of_mem _ (h.accounted m b u hb owns)
  case unique =>
    intro m k b c u hb hc ownsB ownsC
    rcases set_cases hb with ⟨hm, rfl⟩ | ⟨_, oldB⟩ <;> rcases set_cases hc with ⟨hk, rfl⟩ | ⟨_, oldC⟩
    · exact hm.trans hk.symm
    · obtain rfl := Option.some.inj (after.symm.trans ownsB)
      exact (absent oldC ownsC).elim
    · obtain rfl := Option.some.inj (after.symm.trans ownsC)
      exact (absent oldB ownsB).elim
    · exact h.unique m k b c u oldB oldC ownsB ownsC
  case documents =>
    intro m b u hb owns
    rcases set_cases hb with ⟨_, rfl⟩ | ⟨_, hb⟩
    · obtain rfl := Option.some.inj (after.symm.trans owns)
      rw [unsaved]
      exact h.noUser uid fun acc hacc => (available acc hacc).2
    · exact h.documents m b u hb owns
  case noUser =>
    intro u others
    exact h.noUser u fun acc hacc => others acc (List.mem_cons_of_mem _ hacc)
  case emails =>
    exact List.pairwise_cons.mpr ⟨fun acc hacc same => (available acc hacc).1 same.symm, h.emails⟩

theorem moved_inv {s t : State} {n : Nat} {a a' : SignUpAttempt} {uid : String} (h : Inv s)
    (found : s.attempts[n]? = some a) (before : a.account = some uid) (after : a'.account = some uid)
    (email : a'.emailAddress = a.emailAddress) (unsaved : a.document = none)
    (same : t = { s.put n a' with users := t.users })
    (users : t.users uid = (if a'.document = none then s.users uid else a'.document) ∧
      ∀ other, other ≠ uid → t.users other = s.users other) : Inv t := by
  have accounts : t.accounts = s.accounts := by rw [same]; rfl
  have attempts : t.attempts = (s.put n a').attempts := by rw [same]
  have known := h.accounted n a uid found before
  constructor
  case owned =>
    intro acc hacc
    rw [accounts] at hacc
    rw [attempts]
    refine put_owned found (h.owned acc hacc) fun sameEmail owns => ?_
    rw [before] at owns
    exact ⟨email.trans sameEmail, after.trans owns⟩
  case accounted =>
    intro m b u hb owns
    rw [attempts] at hb
    rw [accounts]
    rcases set_cases hb with ⟨_, rfl⟩ | ⟨_, hb⟩
    · obtain rfl := Option.some.inj (after.symm.trans owns)
      rw [email]
      exact known
    · exact h.accounted m b u hb owns
  case unique =>
    intro m k b c u hb hc ownsB ownsC
    rw [attempts] at hb hc
    rcases set_cases hb with ⟨hm, rfl⟩ | ⟨_, oldB⟩ <;> rcases set_cases hc with ⟨hk, rfl⟩ | ⟨_, oldC⟩
    · exact hm.trans hk.symm
    · exact hm ▸ h.unique n k a c u found oldC (before.trans (after.symm.trans ownsB)) ownsC
    · exact hk ▸ h.unique m n b a u oldB found ownsB (before.trans (after.symm.trans ownsC))
    · exact h.unique m k b c u oldB oldC ownsB ownsC
  case documents =>
    intro m b u hb owns
    rw [attempts] at hb
    rcases set_cases hb with ⟨_, rfl⟩ | ⟨other, hb⟩
    · obtain rfl := Option.some.inj (after.symm.trans owns)
      rw [users.1, h.documents n a uid found before, unsaved]
      split
      · rename_i empty
        exact empty.symm
      · rfl
    · -- The uid is that of one attempt only, so nobody else's document changes.
      have different : u ≠ uid := fun hu => other (h.unique m n b a u hb found owns (hu ▸ before))
      rw [users.2 u different]
      exact h.documents m b u hb owns
  case noUser =>
    intro u others
    rw [accounts] at others
    have different : u ≠ uid := fun hu => others _ known hu.symm
    rw [users.2 u different]
    exact h.noUser u others
  case emails =>
    rw [accounts]
    exact h.emails

theorem step_inv {s t : State} {e : Event} (h : Inv s) (stepped : step s e = some t) : Inv t := by
  cases step_effect stepped with
  | same same => exact same ▸ h
  | pressed a none same => exact same ▸ pressed_inv h none
  | created n a a' uid found before after unsaved email available same =>
    exact same ▸ created_inv h found before after unsaved email available
  | refused n a a' found before after same => exact same ▸ refused_inv h found before after
  | moved n a a' uid found before after email unsaved same users =>
    exact moved_inv h found before after email unsaved same users

def Quiet (s : State) : Prop := ∀ a ∈ s.attempts, a.Ended

instance (s : State) : Decidable (Quiet s) := by unfold Quiet; infer_instance

/-! ### What the events have said of an attempt -/

/-- `downloadURL` gives either a URL or an error. -/
def Event.GivesURLOrError : Event → Prop
  | .located _ url ok => url.isSome = ok
  | _ => True

instance (e : Event) : Decidable e.GivesURLOrError := by cases e <;> unfold Event.GivesURLOrError <;> infer_instance

/-- A step after `createUser` failed. -/
def Failed (past : List Event) (n : Nat) : Prop :=
  .uploaded n false ∈ past ∨ .located n none false ∈ past ∨ .stored n false ∈ past

def Told (past : List Event) (n : Nat) : SignUpStage → Prop
  | .creating => True
  | .refused => .created n none ∈ past
  | .uploading uid => .created n (some uid) ∈ past
  | .locating uid => .created n (some uid) ∈ past ∧ .uploaded n true ∈ past
  | .saving uid url => .created n (some uid) ∈ past ∧ .uploaded n true ∈ past ∧
      ∃ link, url = some link ∧ .located n (some link) true ∈ past
  | .saved uid url => (.created n (some uid) ∈ past ∧ .uploaded n true ∈ past ∧
      ∃ link, url = some link ∧ .located n (some link) true ∈ past) ∧ .stored n true ∈ past
  | .abandoned uid => .created n (some uid) ∈ past ∧ Failed past n

theorem told_later {past : List Event} {n : Nat} {stage : SignUpStage} (e : Event) (h : Told past n stage) :
    Told (past ++ [e]) n stage := by
  have later : ∀ {x}, x ∈ past → x ∈ past ++ [e] := fun hx => List.mem_append_left _ hx
  cases stage with
  | creating => trivial
  | refused | uploading => exact later h
  | locating => exact ⟨later h.1, later h.2⟩
  | saving =>
    obtain ⟨created, uploaded, link, given, located⟩ := h
    exact ⟨later created, later uploaded, link, given, later located⟩
  | saved =>
    obtain ⟨⟨created, uploaded, link, given, located⟩, stored⟩ := h
    exact ⟨⟨later created, later uploaded, link, given, later located⟩, later stored⟩
  | abandoned => exact ⟨later h.1, h.2.imp later (Or.imp later later)⟩

/-- The answer that moves an attempt on is what its next stage tells. -/
theorem told_put {past : List Event} {s t : State} {e : Event} {n : Nat} {a' : SignUpAttempt}
    (h : ∀ m b, s.attempts[m]? = some b → Told past m b.stage) (attempts : t.attempts = s.attempts.set n a')
    (told : Told (past ++ [e]) n a'.stage) : ∀ m b, t.attempts[m]? = some b → Told (past ++ [e]) m b.stage := by
  intro m b hb
  rw [attempts] at hb
  rcases set_cases hb with ⟨rfl, rfl⟩ | ⟨_, hb⟩
  · exact told
  · exact told_later e (h m b hb)

theorem step_told {past : List Event} {s t : State} {e : Event}
    (h : ∀ m b, s.attempts[m]? = some b → Told past m b.stage) (given : e.GivesURLOrError)
    (stepped : step s e = some t) : ∀ m b, t.attempts[m]? = some b → Told (past ++ [e]) m b.stage := by
  have now : e ∈ past ++ [e] := List.mem_append_right _ (List.mem_singleton_self e)
  have sofar : ∀ {n a stage}, s.attempts[n]? = some a → a.stage = stage → Told (past ++ [e]) n stage :=
    fun {n a _} found same => same ▸ told_later e (h n a found)
  cases step_ok stepped with
  | pressed creating =>
    intro m b hb
    rcases concat_cases hb with ⟨_, rfl⟩ | old
    · rw [creating]
      trivial
    · exact told_later _ (h m b old)
  | unread => exact fun m b hb => told_later _ (h m b hb)
  | created | refused => exact told_put h rfl now
  | @uploaded n a uid ok found uploading =>
    have before : Told _ n (.uploading uid) := sofar found uploading
    cases ok with
    | false => exact told_put h rfl ⟨before, .inl now⟩
    | true => exact told_put h rfl ⟨before, now⟩
  | @located n a uid url ok found locating =>
    have before : Told _ n (.locating uid) := sofar found locating
    cases ok with
    | false =>
      obtain rfl : url = none := Option.not_isSome_iff_eq_none.mp (Bool.not_eq_true _ ▸ given)
      exact told_put h rfl ⟨before.1, .inr (.inl now)⟩
    | true =>
      obtain ⟨link, rfl⟩ := Option.isSome_iff_exists.mp given
      exact told_put h rfl ⟨before.1, before.2, link, rfl, now⟩
  | @saved n a uid url found saving =>
    have before : Told _ n (.saving uid url) := sofar found saving
    exact told_put h rfl ⟨before, now⟩
  | @saveFails n a uid url found saving =>
    have before : Told _ n (.saving uid url) := sofar found saving
    exact told_put h rfl ⟨before.1, .inr (.inr now)⟩

/-- The account's user document has its uid and the URL that `downloadURL` gave for the stored photo of
the attempt `n` that created it. -/
def Complete (events : List Event) (s : State) (n : Nat) (acc : Account) : Prop :=
  ∃ data url, s.users acc.uid = some data ∧ asString (data.lookup "UserID") = some acc.uid ∧
    asString (data.lookup "ProfilePhotoURL") = some url ∧
    .uploaded n true ∈ events ∧ .located n (some url) true ∈ events ∧ .stored n true ∈ events

/-- Attempt `n` created the account, and saved its complete user document or failed at a later step, and
then the account has no document. -/
def Settled (events : List Event) (s : State) (acc : Account) : Prop :=
  ∃ n a, s.attempts[n]? = some a ∧ a.emailAddress = acc.email ∧ .created n (some acc.uid) ∈ events ∧
    (Complete events s n acc ∨ Failed events n ∧ s.users acc.uid = none)

/-- Sign-up is not all or nothing. When no step is outstanding every account is settled. An e-mail has at
most one account, so a refused attempt left none of its own, and a uid without account has no document. -/
theorem sign_up_settles (events : List Event) (t : State) (h : run step {} events = some t)
    (given : ∀ e ∈ events, e.GivesURLOrError) (quiet : Quiet t) :
    (∀ acc ∈ t.accounts, Settled events t acc) ∧
    (∀ a ∈ t.attempts, ∀ uid, a.account = some uid → ⟨a.emailAddress, uid⟩ ∈ t.accounts) ∧
    (t.accounts.Pairwise fun x y => x.email ≠ y.email) ∧
    ∀ uid, (∀ acc ∈ t.accounts, acc.uid ≠ uid) → t.users uid = none := by
  have inv : Inv t := run_keeps (fun _ _ _ hs stepped => step_inv hs stepped) h initial_inv
  have nothing : ∀ n a, ({} : State).attempts[n]? = some a → Told [] n a.stage := by simp
  have told : ∀ n a, t.attempts[n]? = some a → Told events n a.stage :=
    run_history_along (I := fun past s => ∀ n a, s.attempts[n]? = some a → Told past n a.stage)
      (C := fun _ e => e.GivesURLOrError) (fun _ _ _ _ hs given stepped => step_told hs given stepped) h
      (along_of_forall fun e he _ => given e he) nothing
  refine ⟨?_, ?_, inv.emails, inv.noUser⟩
  · intro acc hacc
    obtain ⟨a, ha, email, owns⟩ := inv.owned acc hacc
    obtain ⟨n, found⟩ := List.mem_iff_getElem?.mp ha
    have document := inv.documents n a acc.uid found owns
    have said := told n a found
    have ended := quiet a ha
    cases stage : a.stage with
    | saved uid url =>
      obtain rfl : uid = acc.uid := by simpa [SignUpAttempt.account, stage] using owns
      rw [stage] at said
      rw [SignUpAttempt.document, stage] at document
      obtain ⟨⟨created, uploaded, link, rfl, located⟩, stored⟩ := said
      exact ⟨n, a, found, email, created, .inl ⟨_, link, document, SignUpAttempt.addData_userID _ _ _,
        SignUpAttempt.addData_profilePhotoURL _ _ _, uploaded, located, stored⟩⟩
    | abandoned uid =>
      obtain rfl : uid = acc.uid := by simpa [SignUpAttempt.account, stage] using owns
      rw [stage] at said
      exact ⟨n, a, found, email, said.1, .inr ⟨said.2, by rw [document, SignUpAttempt.document, stage]⟩⟩
    | refused => simp [SignUpAttempt.account, stage] at owns
    | _ => simp [SignUpAttempt.Ended, stage] at ended
  · intro a ha uid owns
    obtain ⟨n, found⟩ := List.mem_iff_getElem?.mp ha
    exact inv.accounted n a uid found owns

def alice : Event := .press (some "alice@foti") (some "alice") (some "secret")

def bob : Event := .press (some "bob@foti") (some "bob") (some "secret")

def oneSaved : List Event :=
  [alice, bob, .created 0 (some "u"), .created 1 (some "v"), .uploaded 0 true, .uploaded 1 true,
   .located 1 none false, .located 0 (some "https://photo") true, .stored 0 true]

theorem sign_up_settles_oneSaved : ∃ t, run step {} oneSaved = some t ∧ Quiet t ∧
    t.accounts = [⟨"bob@foti", "v"⟩, ⟨"alice@foti", "u"⟩] ∧ (t.users "u").isSome ∧ t.users "v" = none ∧
    ∀ acc ∈ t.accounts, Settled oneSaved t acc :=
  ⟨_, rfl, by decide, rfl, by decide, by decide, (sign_up_settles oneSaved _ rfl (by decide) (by decide)).1⟩

def photoNotSaved : List Event := [alice, .created 0 (some "u"), .uploaded 0 false]

/-- The account stays without a user document, and no later `createUser` for its e-mail succeeds. -/
theorem account_without_user : ∃ t, run step {} photoNotSaved = some t ∧ Quiet t ∧
    ⟨"alice@foti", "u"⟩ ∈ t.accounts ∧ t.users "u" = none ∧
    ∀ uid, run step t [alice, .created 1 (some uid)] = none := by
  refine ⟨_, rfl, by decide, by decide, rfl, ?_⟩
  intro uid
  simp [run, step, alice, btnSignUpPressed, State.put, SignUpAttempt.created, Available]

end Foti.SignUp
