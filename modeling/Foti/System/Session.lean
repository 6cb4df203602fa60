import Foti.MainTabBarController
import Foti.Register.SignUp
import Foti.Register.SignUpForm
import Foti.SignIn.SignInController

/-!
One installed app: its tabs, the sign-in sheet that covers them, and `Auth`, which other devices use
too. A touch needs an active window, and reaches only what nothing covers.
-/

namespace Foti
open SignUp (Account Available)

/-- An account of `Auth`, with its password. -/
structure Registered where
  account : Account
  password : String
  deriving DecidableEq, Repr

/-- The navigation stack of the sheet. -/
structure SignInSheet where
  signIn : SignInController := {}
  register : Option RegisterController := none

inductive Presented where
  | signIn (sheet : SignInSheet)
  | photoChoose

/-- `active` says whether a foreground scene is active, so that the key window is found. `Auth` keeps
`currentUser` when the app is closed. -/
structure Session where
  accounts : List Registered := []
  currentUser : Option String := none
  active : Bool := true
  tabs : Option MainTabBarController := none
  presented : Option Presented := none

namespace Session

inductive Event where
  | launch
  | active (foregroundActive : Bool)
  | elsewhere (r : Registered)
  | changeData (txtEmail txtPassword : String)
  | btnSignInPressed
  | signInAnswered (n : Nat) (result : Option String)
  | signInMessageGone
  | btnRegisterPressed
  | btnHaveAccountPressed
  | dataChange (txtEmail txtUserName txtPassword : String)
  | btnSignUpPressed
  | created (n : Nat) (result : Option String)
  | uploaded (n : Nat) (ok : Bool)
  | located (n : Nat) (url : Option String) (ok : Bool)
  | stored (n : Nat) (ok : Bool)
  | registerMessageGone
  | select (viewController : Tab)
  | photosClosed
  | logOut (ok : Bool)

/-- `MainTabBarController.viewDidLoad` of a fresh process. -/
def viewDidLoad (s : Session) : Session :=
  match s.currentUser with
  | none => { s with active := true, tabs := none, presented := some (.signIn {}) }
  | some _ => { s with active := true, tabs := some (.createView none s.currentUser), presented := none }

def install : Session := viewDidLoad {}

def sheet (s : Session) : Option SignInSheet :=
  match s.presented with
  | some (.signIn sheet) => some sheet
  | _ => none

def put (s : Session) (sheet : SignInSheet) : Session := { s with presented := some (.signIn sheet) }

def putRegister (s : Session) (sheet : SignInSheet) (c : RegisterController) : Session :=
  s.put { sheet with register := some c }

/-- The end of a success handler: without a key window it returns, and the sheet stays. -/
def signedIn (s : Session) : Session :=
  if s.active then { s with tabs := some (.createView s.tabs s.currentUser), presented := none } else s

/-- Another account, as `Auth` makes it. -/
def Fresh (s : Session) (r : Registered) : Prop :=
  r.account.uid ≠ "" ∧ Available (s.accounts.map (·.account)) r.account.email r.account.uid

instance (s : Session) (r : Registered) : Decidable (s.Fresh r) := by unfold Fresh; infer_instance

/-- A callback of an attempt that leaves `Auth` alone. -/
def attempt (s : Session) (n : Nat) (f : SignUpAttempt → Option SignUpAttempt) : Option Session := do
  let sheet ← s.sheet
  let c ← sheet.register
  let a ← c.attempts[n]?
  let a' ← f a
  return s.putRegister sheet (c.put n a')

def step (s : Session) : Event → Option Session
  | .launch => some s.viewDidLoad
  | .active foregroundActive => some { s with active := foregroundActive }
  | .elsewhere r => if s.Fresh r then some { s with accounts := r :: s.accounts } else none
  | .changeData txtEmail txtPassword => do
      let sheet ← s.sheet
      if s.active ∧ sheet.register.isNone then
        some (s.put { sheet with signIn := sheet.signIn.changeData txtEmail txtPassword })
      else none
  | .btnSignInPressed => do
      let sheet ← s.sheet
      if s.active ∧ sheet.register.isNone ∧ sheet.signIn.btnSignInEnabled ∧ ¬ sheet.signIn.Blocked then
        some (s.put { sheet with signIn := sheet.signIn.btnSignInPressed })
      else none
  | .signInAnswered n result => do
      let sheet ← s.sheet
      let r ← sheet.signIn.requests[n]?
      let signIn ← sheet.signIn.answered n result s.active
      match result with
      | none => some (s.put { sheet with signIn })
      | some uid =>
          if ⟨⟨r.emailAddress, uid⟩, r.password⟩ ∈ s.accounts then
            some { s.put { sheet with signIn } with currentUser := some uid }.signedIn
          else none
  | .signInMessageGone => do
      let sheet ← s.sheet
      return s.put { sheet with signIn := { sheet.signIn with messages := sheet.signIn.messages - 1 } }
  | .btnRegisterPressed => do
      let sheet ← s.sheet
      if s.active ∧ sheet.register.isNone ∧ ¬ sheet.signIn.Blocked then some (s.putRegister sheet {}) else none
  | .btnHaveAccountPressed => do
      let sheet ← s.sheet
      let c ← sheet.register
      if s.active ∧ ¬ c.Blocked then some (s.put { sheet with register := none }) else none
  | .dataChange txtEmail txtUserName txtPassword => do
      let sheet ← s.sheet
      let c ← sheet.register
      if s.active then some (s.putRegister sheet (c.dataChange txtEmail txtUserName txtPassword)) else none
  | .btnSignUpPressed => do
      let sheet ← s.sheet
      let c ← sheet.register
      if s.active ∧ c.btnSignUpEnabled ∧ ¬ c.Blocked then some (s.putRegister sheet c.btnSignUpPressed) else none
  | .created n result => do
      let sheet ← s.sheet
      let c ← sheet.register
      let a ← c.attempts[n]?
      let a' ← a.created result
      match result with
      | none => some (s.putRegister sheet (c.put n a'))
      | some uid =>
          let r : Registered := ⟨⟨a.emailAddress, uid⟩, a.password⟩
          if s.Fresh r then
            some { s.putRegister sheet (c.put n a') with accounts := r :: s.accounts, currentUser := some uid }
          else none
  | .uploaded n ok => s.attempt n (·.uploaded ok)
  | .located n url ok => s.attempt n (·.located url ok)
  | .stored n false => s.attempt n (·.stored false)
  | .stored n true => do
      let sheet ← s.sheet
      let c ← sheet.register
      let a ← c.attempts[n]?
      let a' ← a.stored true
      return (s.putRegister sheet (c.put n a').clearView).signedIn
  | .registerMessageGone => do
      let sheet ← s.sheet
      let c ← sheet.register
      return s.putRegister sheet { c with messages := c.messages - 1 }
  | .select viewController => do
      let tabs ← s.tabs
      if s.active ∧ s.presented.isNone then
        if tabs.shouldSelect viewController then some { s with tabs := some { tabs with selected := viewController } }
        else some { s with presented := some .photoChoose }
      else none
  | .photosClosed =>
      match s.presented with
      | some .photoChoose => some { s with presented := none }
      | _ => none
  | .logOut ok => do
      let tabs ← s.tabs
      -- A profile is shown by its tab, or by the one of the search.
      if s.active ∧ s.presented.isNone ∧ tabs.selected ≠ .main then
        match s.currentUser with
        | none => some s
        | some _ => if ok then some { s with currentUser := none, presented := some (.signIn {}) } else some s
      else none

theorem sheet_eq_some {s : Session} {sheet : SignInSheet} :
    s.sheet = some sheet ↔ s.presented = some (.signIn sheet) := by
  unfold Session.sheet
  split
  · rename_i shown same
    rw [same]
    simp
  · rename_i other
    constructor
    · intro h
      cases h
    · exact fun h => (other sheet h).elim

theorem signedIn_sheet {s : Session} {sheet : SignInSheet} (h : s.signedIn.presented = some (.signIn sheet)) :
    s.presented = some (.signIn sheet) := by
  unfold Session.signedIn at h
  split at h
  · cases h
  · exact h

theorem signedIn_accounts (s : Session) : s.signedIn.accounts = s.accounts := by
  unfold Session.signedIn
  split <;> rfl

theorem signedIn_user (s : Session) : s.signedIn.currentUser = s.currentUser := by
  unfold Session.signedIn
  split <;> rfl

/-- A callback of an attempt that has its account and does not save the document. -/
inductive Moves (n : Nat) (a : SignUpAttempt) : Event → SignUpAttempt → Prop where
  | uploaded {uid : String} {ok : Bool} (uploading : a.stage = .uploading uid) :
      Moves n a (.uploaded n ok) { a with stage := if ok then .locating uid else .abandoned uid }
  | located {uid : String} {url : Option String} {ok : Bool} (locating : a.stage = .locating uid) :
      Moves n a (.located n url ok) { a with stage := if ok then .saving uid url else .abandoned uid }
  | storeFails {uid : String} {url : Option String} (saving : a.stage = .saving uid url) :
      Moves n a (.stored n false) { a with stage := .abandoned uid }

/-- The outcomes of `step`, one constructor for each branch. -/
inductive Stepped (s : Session) : Event → Session → Prop where
  | launch : Stepped s .launch s.viewDidLoad
  | active {foregroundActive : Bool} : Stepped s (.active foregroundActive) { s with active := foregroundActive }
  | elsewhere {r : Registered} (fresh : s.Fresh r) : Stepped s (.elsewhere r) { s with accounts := r :: s.accounts }
  | changeData {txtEmail txtPassword : String} {sheet : SignInSheet} (shown : s.presented = some (.signIn sheet)) :
      Stepped s (.changeData txtEmail txtPassword)
        (s.put { sheet with signIn := sheet.signIn.changeData txtEmail txtPassword })
  | btnSignInPressed {sheet : SignInSheet} (shown : s.presented = some (.signIn sheet))
      (enabled : sheet.signIn.btnSignInEnabled) (free : ¬ sheet.signIn.Blocked) (top : sheet.register = none) :
      Stepped s .btnSignInPressed (s.put { sheet with signIn := sheet.signIn.btnSignInPressed })
  | refused {n : Nat} {sheet : SignInSheet} {r : SignInRequest} (shown : s.presented = some (.signIn sheet))
      (found : sheet.signIn.requests[n]? = some r) (signing : r.stage = .signing) :
      Stepped s (.signInAnswered n none) (s.put { sheet with signIn := { sheet.signIn with
        requests := sheet.signIn.requests.set n { r with stage := .refused }
        messages := sheet.signIn.messages + 1 } })
  | accepted {n : Nat} {uid : String} {sheet : SignInSheet} {r : SignInRequest}
      (shown : s.presented = some (.signIn sheet)) (found : sheet.signIn.requests[n]? = some r)
      (signing : r.stage = .signing) (known : ⟨⟨r.emailAddress, uid⟩, r.password⟩ ∈ s.accounts) :
      Stepped s (.signInAnswered n (some uid)) (signedIn { s.put { sheet with signIn := { sheet.signIn with
        requests := sheet.signIn.requests.set n { r with stage := .signedIn uid s.active } } } with
        currentUser := some uid })
  | signInMessageGone {sheet : SignInSheet} (shown : s.presented = some (.signIn sheet)) :
      Stepped s .signInMessageGone
        (s.put { sheet with signIn := { sheet.signIn with messages := sheet.signIn.messages - 1 } })
  | btnRegisterPressed {sheet : SignInSheet} (shown : s.presented = some (.signIn sheet))
      (free : ¬ sheet.signIn.Blocked) (top : sheet.register = none) :
      Stepped s .btnRegisterPressed (s.putRegister sheet {})
  | btnHaveAccountPressed {sheet : SignInSheet} {c : RegisterController} (shown : s.presented = some (.signIn sheet))
      (top : sheet.register = some c) (free : ¬ c.Blocked) :
      Stepped s .btnHaveAccountPressed (s.put { sheet with register := none })
  | dataChange {txtEmail txtUserName txtPassword : String} {sheet : SignInSheet} {c : RegisterController}
      (shown : s.presented = some (.signIn sheet)) (top : sheet.register = some c) :
      Stepped s (.dataChange txtEmail txtUserName txtPassword)
        (s.putRegister sheet (c.dataChange txtEmail txtUserName txtPassword))
  | btnSignUpPressed {sheet : SignInSheet} {c : RegisterController} (shown : s.presented = some (.signIn sheet))
      (top : sheet.register = some c) (enabled : c.btnSignUpEnabled) (free : ¬ c.Blocked) :
      Stepped s .btnSignUpPressed (s.putRegister sheet c.btnSignUpPressed)
  | signUpRefused {n : Nat} {sheet : SignInSheet} {c : RegisterController} {a : SignUpAttempt}
      (shown : s.presented = some (.signIn sheet)) (top : sheet.register = some c) (found : c.attempts[n]? = some a)
      (creating : a.stage = .creating) :
      Stepped s (.created n none) (s.putRegister sheet (c.put n { a with stage := .refused }))
  | created {n : Nat} {uid : String} {sheet : SignInSheet} {c : RegisterController} {a : SignUpAttempt}
      (shown : s.presented = some (.signIn sheet)) (top : sheet.register = some c) (found : c.attempts[n]? = some a)
      (creating : a.stage = .creating) (fresh : s.Fresh ⟨⟨a.emailAddress, uid⟩, a.password⟩) :
      Stepped s (.created n (some uid)) { s.putRegister sheet (c.put n { a with stage := .uploading uid }) with
        accounts := ⟨⟨a.emailAddress, uid⟩, a.password⟩ :: s.accounts
        currentUser := some uid }
  | moved {e : Event} {n : Nat} {sheet : SignInSheet} {c : RegisterController} {a a' : SignUpAttempt}
      (shown : s.presented = some (.signIn sheet)) (top : sheet.register = some c) (found : c.attempts[n]? = some a)
      (moves : Moves n a e a') : Stepped s e (s.putRegister sheet (c.put n a'))
  | stored {n : Nat} {uid : String} {url : Option String} {sheet : SignInSheet} {c : RegisterController}
      {a : SignUpAttempt} (shown : s.presented = some (.signIn sheet)) (top : sheet.register = some c)
      (found : c.attempts[n]? = some a) (saving : a.stage = .saving uid url) :
      Stepped s (.stored n true)
        (s.putRegister sheet (c.put n { a with stage := .saved uid url }).clearView).signedIn
  | registerMessageGone {sheet : SignInSheet} {c : RegisterController} (shown : s.presented = some (.signIn sheet))
      (top : sheet.register = some c) :
      Stepped s .registerMessageGone (s.putRegister sheet { c with messages := c.messages - 1 })
  | selected {viewController : Tab} {tabs : MainTabBarController} (made : s.tabs = some tabs)
      (uncovered : s.presented = none) (selects : tabs.shouldSelect viewController) :
      Stepped s (.select viewController) { s with tabs := some { tabs with selected := viewController } }
  | photosPresented {viewController : Tab} (uncovered : s.presented = none) :
      Stepped s (.select viewController) { s with presented := some .photoChoose }
  | photosClosed (shown : s.presented = some .photoChoose) : Stepped s .photosClosed { s with presented := none }
  | stayed {ok : Bool} : Stepped s (.logOut ok) s
  | loggedOut {uid : String} (uncovered : s.presented = none) (signed : s.currentUser = some uid) :
      Stepped s (.logOut true) { s with currentUser := none, presented := some (.signIn {}) }

theorem attempt_ok {s t : Session} {n : Nat} {f : SignUpAttempt → Option SignUpAttempt} (h : s.attempt n f = some t) :
    ∃ sheet c a a', s.presented = some (.signIn sheet) ∧ sheet.register = some c ∧ c.attempts[n]? = some a ∧
      f a = some a' ∧ t = s.putRegister sheet (c.put n a') := by
  obtain ⟨sheet, shown, h⟩ := Option.bind_eq_some_iff.mp h
  obtain ⟨c, top, h⟩ := Option.bind_eq_some_iff.mp h
  obtain ⟨a, found, h⟩ := Option.bind_eq_some_iff.mp h
  obtain ⟨a', answered, same⟩ := Option.bind_eq_some_iff.mp h
  exact ⟨sheet, c, a, a', sheet_eq_some.mp shown, top, found, answered, (Option.some.inj same).symm⟩

theorem step_ok {s t : Session} {e : Event} (h : s.step e = some t) : Stepped s e t := by
  cases e with
  | launch =>
    obtain rfl := Option.some.inj h
    exact .launch
  | active =>
    obtain rfl := Option.some.inj h
    exact .active
  | elsewhere r =>
    obtain ⟨fresh, same⟩ := Option.ite_none_right_eq_some.mp h
    obtain rfl := Option.some.inj same
    exact .elsewhere fresh
  | changeData txtEmail txtPassword =>
    obtain ⟨sheet, shown, h⟩ := Option.bind_eq_some_iff.mp h
    obtain ⟨_, same⟩ := Option.ite_none_right_eq_some.mp h
    obtain rfl := Option.some.inj same
    exact .changeData (sheet_eq_some.mp shown)
  | btnSignInPressed =>
    obtain ⟨sheet, shown, h⟩ := Option.bind_eq_some_iff.mp h
    obtain ⟨⟨_, top, enabled, free⟩, same⟩ := Option.ite_none_right_eq_some.mp h
    obtain rfl := Option.some.inj same
    exact .btnSignInPressed (sheet_eq_some.mp shown) enabled free (Option.isNone_iff_eq_none.mp top)
  | signInAnswered n result =>
    obtain ⟨sheet, shown, h⟩ := Option.bind_eq_some_iff.mp h
    obtain ⟨r, found, h⟩ := Option.bind_eq_some_iff.mp h
    obtain ⟨signIn, answered, h⟩ := Option.bind_eq_some_iff.mp h
    obtain ⟨r', found', signing, outcome⟩ := SignInController.answered_ok answered
    obtain rfl := Option.some.inj (found.symm.trans found')
    cases result with
    | none =>
      obtain rfl := Option.some.inj h
      rw [outcome]
      exact .refused (sheet_eq_some.mp shown) found signing
    | some uid =>
      obtain ⟨known, same⟩ := Option.ite_none_right_eq_some.mp h
      obtain rfl := Option.some.inj same
      rw [outcome]
      exact .accepted (sheet_eq_some.mp shown) found signing known
  | signInMessageGone =>
    obtain ⟨sheet, shown, same⟩ := Option.bind_eq_some_iff.mp h
    obtain rfl := Option.some.inj same
    exact .signInMessageGone (sheet_eq_some.mp shown)
  | btnRegisterPressed =>
    obtain ⟨sheet, shown, h⟩ := Option.bind_eq_some_iff.mp h
    obtain ⟨⟨_, top, free⟩, same⟩ := Option.ite_none_right_eq_some.mp h
    obtain rfl := Option.some.inj same
    exact .btnRegisterPressed (sheet_eq_some.mp shown) free (Option.isNone_iff_eq_none.mp top)
  | btnHaveAccountPressed =>
    obtain ⟨sheet, shown, h⟩ := Option.bind_eq_some_iff.mp h
    obtain ⟨c, top, h⟩ := Option.bind_eq_some_iff.mp h
    obtain ⟨⟨_, free⟩, same⟩ := Option.ite_none_right_eq_some.mp h
    obtain rfl := Option.some.inj same
    exact .btnHaveAccountPressed (sheet_eq_some.mp shown) top free
  | dataChange txtEmail txtUserName txtPassword =>
    obtain ⟨sheet, shown, h⟩ := Option.bind_eq_some_iff.mp h
    obtain ⟨c, top, h⟩ := Option.bind_eq_some_iff.mp h
    obtain ⟨_, same⟩ := Option.ite_none_right_eq_some.mp h
    obtain rfl := Option.some.inj same
    exact .dataChange (sheet_eq_some.mp shown) top
  | btnSignUpPressed =>
    obtain ⟨sheet, shown, h⟩ := Option.bind_eq_some_iff.mp h
    obtain ⟨c, top, h⟩ := Option.bind_eq_some_iff.mp h
    obtain ⟨⟨_, enabled, free⟩, same⟩ := Option.ite_none_right_eq_some.mp h
    obtain rfl := Option.some.inj same
    exact .btnSignUpPressed (sheet_eq_some.mp shown) top enabled free
  | created n result =>
    obtain ⟨sheet, shown, h⟩ := Option.bind_eq_some_iff.mp h
    obtain ⟨c, top, h⟩ := Option.bind_eq_some_iff.mp h
    obtain ⟨a, found, h⟩ := Option.bind_eq_some_iff.mp h
    obtain ⟨a', answered, h⟩ := Option.bind_eq_some_iff.mp h
    obtain ⟨creating, rfl⟩ := SignUpAttempt.created_ok answered
    cases result with
    | none =>
      obtain rfl := Option.some.inj h
      exact .signUpRefused (sheet_eq_some.mp shown) top found creating
    | some uid =>
      obtain ⟨fresh, same⟩ := Option.ite_none_right_eq_some.mp h
      obtain rfl := Option.some.inj same
      exact .created (sheet_eq_some.mp shown) top found creating fresh
  | uploaded n ok =>
    obtain ⟨sheet, c, a, a', shown, top, found, answered, rfl⟩ := attempt_ok h
    obtain ⟨uid, uploading, rfl⟩ := SignUpAttempt.uploaded_ok answered
    exact .moved shown top found (.uploaded uploading)
  | located n url ok =>
    obtain ⟨sheet, c, a, a', shown, top, found, answered, rfl⟩ := attempt_ok h
    obtain ⟨uid, locating, rfl⟩ := SignUpAttempt.located_ok answered
    exact .moved shown top found (.located locating)
  | stored n ok =>
    cases ok with
    | false =>
      obtain ⟨sheet, c, a, a', shown, top, found, answered, rfl⟩ := attempt_ok h
      obtain ⟨uid, url, saving, rfl⟩ := SignUpAttempt.stored_ok answered
      exact .moved shown top found (.storeFails saving)
    | true =>
      obtain ⟨sheet, shown, h⟩ := Option.bind_eq_some_iff.mp h
      obtain ⟨c, top, h⟩ := Option.bind_eq_some_iff.mp h
      obtain ⟨a, found, h⟩ := Option.bind_eq_some_iff.mp h
      obtain ⟨a', answered, same⟩ := Option.bind_eq_some_iff.mp h
      obtain ⟨uid, url, saving, rfl⟩ := SignUpAttempt.stored_ok answered
      obtain rfl := Option.some.inj same
      exact .stored (sheet_eq_some.mp shown) top found saving
  | registerMessageGone =>
    obtain ⟨sheet, shown, h⟩ := Option.bind_eq_some_iff.mp h
    obtain ⟨c, top, same⟩ := Option.bind_eq_some_iff.mp h
    obtain rfl := Option.some.inj same
    exact .registerMessageGone (sheet_eq_some.mp shown) top
  | select viewController =>
    obtain ⟨tabs, made, h⟩ := Option.bind_eq_some_iff.mp h
    obtain ⟨⟨_, uncovered⟩, h⟩ := Option.ite_none_right_eq_some.mp h
    have uncovered := Option.isNone_iff_eq_none.mp uncovered
    split at h
    · rename_i selects
      obtain rfl := Option.some.inj h
      exact .selected made uncovered selects
    · obtain rfl := Option.some.inj h
      exact .photosPresented uncovered
  | photosClosed =>
    simp only [step] at h
    split at h
    · rename_i shown
      obtain rfl := Option.some.inj h
      exact .photosClosed shown
    · cases h
  | logOut ok =>
    obtain ⟨tabs, made, h⟩ := Option.bind_eq_some_iff.mp h
    obtain ⟨⟨_, uncovered, _⟩, h⟩ := Option.ite_none_right_eq_some.mp h
    split at h
    · obtain rfl := Option.some.inj h
      exact .stayed
    · rename_i uid signed
      cases ok with
      | true =>
        obtain rfl := Option.some.inj h
        exact .loggedOut (Option.isNone_iff_eq_none.mp uncovered) signed
      | false =>
        obtain rfl := Option.some.inj h
        exact .stayed

end Session
end Foti
