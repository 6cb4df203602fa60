import Foti.Register.RegisterController

/-! `RegisterController`'s form, with the HUDs over its view and the attempts started from it. -/

namespace Foti

/-- `messages` counts the HUDs of `clearView`, which are dismissed after a delay. -/
structure RegisterController where
  txtEmail : String := ""
  txtUserName : String := ""
  txtPassword : String := ""
  btnSignUpEnabled : Bool := false
  messages : Nat := 0
  attempts : List SignUpAttempt := []

namespace SignUpAttempt

/-- The HUD of the attempt is over the view. A failure after `createUser` leaves it there. -/
def Hud (a : SignUpAttempt) : Prop :=
  match a.stage with
  | .refused | .saved _ _ => False
  | _ => True

instance : (a : SignUpAttempt) → Decidable a.Hud
  | ⟨_, _, _, stage⟩ => by cases stage <;> unfold Hud <;> infer_instance

end SignUpAttempt

namespace RegisterController

def Blocked (c : RegisterController) : Prop := 0 < c.messages ∨ ∃ a ∈ c.attempts, a.Hud

instance (c : RegisterController) : Decidable c.Blocked := by unfold Blocked; infer_instance

/-- The fields after an edit. -/
def dataChange (c : RegisterController) (txtEmail txtUserName txtPassword : String) : RegisterController :=
  { c with
    txtEmail, txtUserName, txtPassword
    btnSignUpEnabled := 0 < txtEmail.length && 0 < txtUserName.length && 0 < txtPassword.length }

def btnSignUpPressed (c : RegisterController) : RegisterController :=
  match Foti.btnSignUpPressed (some c.txtEmail) (some c.txtUserName) (some c.txtPassword) with
  | some a => { c with attempts := c.attempts ++ [a] }
  | none => c

/-- Text that the program sets raises no `editingChanged`, so the button stays as it is. -/
def clearView (c : RegisterController) : RegisterController :=
  { c with txtEmail := "", txtUserName := "", txtPassword := "", messages := c.messages + 1 }

def put (c : RegisterController) (n : Nat) (a : SignUpAttempt) : RegisterController :=
  { c with attempts := c.attempts.set n a }

theorem dataChange_enabled {c : RegisterController} {txtEmail txtUserName txtPassword : String}
    (h : (c.dataChange txtEmail txtUserName txtPassword).btnSignUpEnabled) :
    txtEmail ≠ "" ∧ txtUserName ≠ "" ∧ txtPassword ≠ "" := by
  simp only [dataChange, Bool.and_eq_true, decide_eq_true_eq] at h
  refine ⟨?_, ?_, ?_⟩ <;> rintro rfl
  · exact absurd h.1.1 (by decide)
  · exact absurd h.1.2 (by decide)
  · exact absurd h.2 (by decide)

end RegisterController

end Foti
