import Foti.Library.Entries

/-!
`SignInController`: the form and its calls of `Auth.signIn`. A HUD over the view blocks its touches. The
keyboard stays, so the fields can be edited while a call is outstanding.
-/

namespace Foti
open Entries

/-- A call of `signIn`, or how it ended. The success handler returns early when no window is active. -/
inductive SignInStage where
  | signing
  | refused
  | signedIn (uid : String) (keyWindow : Bool)
  deriving DecidableEq, Repr

structure SignInRequest where
  emailAddress : String
  password : String
  stage : SignInStage
  deriving DecidableEq, Repr

/-- `messages` counts the HUDs with an error, which are dismissed after a delay. -/
structure SignInController where
  txtEmail : String := ""
  txtPassword : String := ""
  btnSignInEnabled : Bool := false
  messages : Nat := 0
  requests : List SignInRequest := []

namespace SignInRequest

/-- The HUD of the call is over the view. The early return leaves it there. -/
def Hud (r : SignInRequest) : Prop :=
  match r.stage with
  | .signing | .signedIn _ false => True
  | .refused | .signedIn _ true => False

instance (r : SignInRequest) : Decidable r.Hud := by unfold Hud; split <;> infer_instance

end SignInRequest

namespace SignInController

def Blocked (c : SignInController) : Prop := 0 < c.messages ∨ ∃ r ∈ c.requests, r.Hud

instance (c : SignInController) : Decidable c.Blocked := by unfold Blocked; infer_instance

/-- The fields after an edit. -/
def changeData (c : SignInController) (txtEmail txtPassword : String) : SignInController :=
  { c with txtEmail, txtPassword, btnSignInEnabled := 0 < txtEmail.length && 0 < txtPassword.length }

/-- The text of a text field is never nil. -/
def btnSignInPressed (c : SignInController) : SignInController :=
  { c with requests := c.requests ++ [⟨c.txtEmail, c.txtPassword, .signing⟩] }

/-- The callback of `signIn`, with the account's uid or an error. -/
def answered (c : SignInController) (n : Nat) (result : Option String) (keyWindow : Bool) : Option SignInController := do
  let r ← c.requests[n]?
  if r.stage = .signing then
    match result with
    | none => some { c with requests := c.requests.set n { r with stage := .refused }, messages := c.messages + 1 }
    | some uid => some { c with requests := c.requests.set n { r with stage := .signedIn uid keyWindow } }
  else none

theorem changeData_enabled {c : SignInController} {txtEmail txtPassword : String}
    (h : (c.changeData txtEmail txtPassword).btnSignInEnabled) : txtEmail ≠ "" ∧ txtPassword ≠ "" := by
  simp only [changeData, Bool.and_eq_true, decide_eq_true_eq] at h
  constructor
  · rintro rfl
    exact absurd h.1 (by decide)
  · rintro rfl
    exact absurd h.2 (by decide)

theorem answered_ok {c c' : SignInController} {n : Nat} {result : Option String} {keyWindow : Bool}
    (h : c.answered n result keyWindow = some c') : ∃ r, c.requests[n]? = some r ∧ r.stage = .signing ∧
      match result with
      | none => c' = { c with requests := c.requests.set n { r with stage := .refused }, messages := c.messages + 1 }
      | some uid => c' = { c with requests := c.requests.set n { r with stage := .signedIn uid keyWindow } } := by
  obtain ⟨r, found, h⟩ := Option.bind_eq_some_iff.mp h
  obtain ⟨signing, h⟩ := Option.ite_none_right_eq_some.mp h
  refine ⟨r, found, signing, ?_⟩
  cases result <;> exact (Option.some.inj h).symm

end SignInController
end Foti
