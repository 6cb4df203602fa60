import Foti.Firestore.Value

/-! `RegisterController.btnSignUpPressed`: the account is created first, then the profile photo is
uploaded, its URL fetched and the `Users` document written, each in the callback of the step before. -/

namespace Foti

/-- The step of an attempt that is outstanding, or how it ended. `abandoned` is a step after
`createUser` that failed, so the account exists. -/
inductive SignUpStage where
  | creating
  | uploading (signedUserId : String)
  | locating (signedUserId : String)
  | saving (signedUserId : String) (url : Option String)
  | refused
  | abandoned (signedUserId : String)
  | saved (signedUserId : String) (url : Option String)
  deriving DecidableEq, Repr

structure SignUpAttempt where
  emailAddress : String
  userName : String
  password : String
  stage : SignUpStage
  deriving DecidableEq, Repr

/-- `btnSignUpPressed` up to `Auth.createUser`. -/
def btnSignUpPressed (txtEmail txtUserName txtPassword : Option String) : Option SignUpAttempt := do
  let emailAddress ← txtEmail
  let userName ← txtUserName
  let password ← txtPassword
  return { emailAddress, userName, password, stage := .creating }

theorem btnSignUpPressed_ok {txtEmail txtUserName txtPassword : Option String} {a : SignUpAttempt}
    (h : btnSignUpPressed txtEmail txtUserName txtPassword = some a) : a.stage = .creating := by
  obtain ⟨_, _, h⟩ := Option.bind_eq_some_iff.mp h
  obtain ⟨_, _, h⟩ := Option.bind_eq_some_iff.mp h
  obtain ⟨_, _, same⟩ := Option.bind_eq_some_iff.mp h
  obtain rfl := Option.some.inj same
  rfl

namespace SignUpAttempt

/-- The callback of `createUser`; without a result the handler returns. -/
def created (a : SignUpAttempt) (result : Option String) : Option SignUpAttempt :=
  match a.stage, result with
  | .creating, some signedUserId => some { a with stage := .uploading signedUserId }
  | .creating, none => some { a with stage := .refused }
  | _, _ => none

/-- The callback of `putData`. An error returns, and nothing removes the account. -/
def uploaded (a : SignUpAttempt) (ok : Bool) : Option SignUpAttempt :=
  match a.stage with
  | .uploading signedUserId =>
      some { a with stage := if ok then .locating signedUserId else .abandoned signedUserId }
  | _ => none

/-- The callback of `downloadURL`. -/
def located (a : SignUpAttempt) (url : Option String) (ok : Bool) : Option SignUpAttempt :=
  match a.stage with
  | .locating signedUserId =>
      some { a with stage := if ok then .saving signedUserId url else .abandoned signedUserId }
  | _ => none

def stored (a : SignUpAttempt) (ok : Bool) : Option SignUpAttempt :=
  match a.stage with
  | .saving signedUserId url =>
      some { a with stage := if ok then .saved signedUserId url else .abandoned signedUserId }
  | _ => none

def addData (userName signedUserId : String) (url : Option String) : Dict :=
  dict [("Username", .string userName), ("UserID", .string signedUserId),
    ("ProfilePhotoURL", .string (url.getD ""))]

def document (a : SignUpAttempt) : Option Dict :=
  match a.stage with
  | .saved uid url => some (addData a.userName uid url)
  | _ => none

def account (a : SignUpAttempt) : Option String :=
  match a.stage with
  | .uploading uid | .locating uid | .saving uid _ | .abandoned uid | .saved uid _ => some uid
  | .creating | .refused => none

def Ended (a : SignUpAttempt) : Prop :=
  match a.stage with
  | .refused | .abandoned _ | .saved _ _ => True
  | _ => False

instance (a : SignUpAttempt) : Decidable a.Ended := by unfold Ended; split <;> infer_instance

theorem addData_userID (userName signedUserId : String) (url : Option String) :
    asString ((addData userName signedUserId url).lookup "UserID") = some signedUserId := by
  rw [addData, dict_lookup_tail _ _ (by decide), dict_lookup_head, asString_string]

theorem addData_profilePhotoURL (userName signedUserId : String) (url : Option String) :
    asString ((addData userName signedUserId url).lookup "ProfilePhotoURL") = some (url.getD "") := by
  rw [addData, dict_lookup_tail _ _ (by decide), dict_lookup_tail _ _ (by decide), dict_lookup_head,
    asString_string]

/-- A callback changes nothing but the stage. -/
theorem created_ok {a a' : SignUpAttempt} {result : Option String} (h : a.created result = some a') :
    a.stage = .creating ∧ a' = { a with stage := (result.map .uploading).getD .refused } := by
  unfold created at h
  split at h
  · rename_i creating
    exact ⟨creating, (Option.some.inj h).symm⟩
  · rename_i creating
    exact ⟨creating, (Option.some.inj h).symm⟩
  · cases h

theorem uploaded_ok {a a' : SignUpAttempt} {ok : Bool} (h : a.uploaded ok = some a') :
    ∃ uid, a.stage = .uploading uid ∧ a' = { a with stage := if ok then .locating uid else .abandoned uid } := by
  unfold uploaded at h
  split at h
  · rename_i uid uploading
    exact ⟨uid, uploading, (Option.some.inj h).symm⟩
  · cases h

theorem located_ok {a a' : SignUpAttempt} {url : Option String} {ok : Bool} (h : a.located url ok = some a') :
    ∃ uid, a.stage = .locating uid ∧ a' = { a with stage := if ok then .saving uid url else .abandoned uid } := by
  unfold located at h
  split at h
  · rename_i uid locating
    exact ⟨uid, locating, (Option.some.inj h).symm⟩
  · cases h

theorem stored_ok {a a' : SignUpAttempt} {ok : Bool} (h : a.stored ok = some a') :
    ∃ uid url, a.stage = .saving uid url ∧ a' = { a with stage := if ok then .saved uid url else .abandoned uid } := by
  unfold stored at h
  split at h
  · rename_i uid url saving
    exact ⟨uid, url, saving, (Option.some.inj h).symm⟩
  · cases h

end SignUpAttempt
end Foti
