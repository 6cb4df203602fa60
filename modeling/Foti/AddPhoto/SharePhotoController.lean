import Foti.Firestore.Store

/-! `SharePhotoController`: an attempt uploads the photo, fetches its URL and saves the post, each in
the callback of the step before. -/

namespace Foti

inductive ShareStage where
  | uploading
  | locating
  | saving (validUserID : String) (data : PostData)
  | ended
  | saved (validUserID documentID : String)
  deriving DecidableEq, Repr

structure ShareAttempt where
  photoName : String
  hudDismissed : Bool := false
  stage : ShareStage
  deriving DecidableEq, Repr

/-- `isEnabled` is that of the Share button. -/
structure SharePhotoController where
  chosenPhoto : Option Photo
  txtMessage : String := ""
  isEnabled : Bool := true
  dismissed : Bool := false
  attempts : List ShareAttempt := []
  deriving DecidableEq, Repr

inductive ShareEvent where
  | edit (text : String)
  | press (photoName : String)
  | uploaded (n : Nat) (ok : Bool)
  | located (n : Nat) (url : Option String) (ok : Bool) (now : Timestamp)
  | saved (n : Nat) (documentID : String) (ok : Bool)
  deriving DecidableEq

namespace SharePhotoController

/-- Without a photo the handler returns behind its HUD, with the button disabled. -/
def btnSharePressed (c : SharePhotoController) (photoName : String) : SharePhotoController :=
  let stage := if c.chosenPhoto.isSome then ShareStage.uploading else .ended
  { c with isEnabled := false, attempts := c.attempts ++ [{ photoName, stage }] }

def put (c : SharePhotoController) (n : Nat) (a : ShareAttempt) : SharePhotoController :=
  { c with attempts := c.attempts.set n a }

/-- The callback of `putData`. -/
def uploaded (c : SharePhotoController) (n : Nat) (a : ShareAttempt) (ok : Bool) : SharePhotoController :=
  if ok then c.put n { a with stage := .locating }
  else { c.put n { a with stage := .ended, hudDismissed := true } with isEnabled := true }

/-- The callback of `downloadURL`, through the checks of `savePostFS`. -/
def located (c : SharePhotoController) (n : Nat) (a : ShareAttempt) (url : Option String) (ok : Bool)
    (currentUser : Option String) (now : Timestamp) : SharePhotoController :=
  if ok then
    match url.bind fun url => savePostFS c.chosenPhoto (some c.txtMessage) currentUser url now with
    | some (validUserID, data) => c.put n { a with stage := .saving validUserID data, hudDismissed := true }
    | none => c.put n { a with stage := .ended, hudDismissed := true }
  else { c.put n { a with stage := .ended, hudDismissed := true } with isEnabled := false }

/-- `updateNotification`, posted when a share is saved, is no part of this screen: it refreshes the client's
feeds, each in an event of its own. -/
def handle (c : SharePhotoController) (currentUser : Option String) :
    ShareEvent → Option (SharePhotoController × Option (String × ServerWrite))
  | .edit text => some ({ c with txtMessage := text }, none)
  | .press photoName => if c.isEnabled && !c.dismissed then some (c.btnSharePressed photoName, none) else none
  | .uploaded n ok => do
      let a ← c.attempts[n]?
      if a.stage = .uploading then some (c.uploaded n a ok, none) else none
  | .located n url ok now => do
      let a ← c.attempts[n]?
      if a.stage = .locating then some (c.located n a url ok currentUser now, none) else none
  | .saved n documentID ok => do
      let a ← c.attempts[n]?
      match a.stage with
      | .saving validUserID data =>
          if ok then
            some ({ c.put n { a with stage := .saved validUserID documentID } with dismissed := true },
              some (validUserID, .photoPost validUserID documentID data))
          else some ({ c.put n { a with stage := .ended } with isEnabled := false }, none)
      | _ => none

/-- The outcomes of `handle`, one constructor for each branch. -/
inductive Handled (currentUser : Option String) (c : SharePhotoController) :
    ShareEvent → SharePhotoController → Option (String × ServerWrite) → Prop where
  | edit {text : String} : Handled currentUser c (.edit text) { c with txtMessage := text } none
  | press {photoName : String} (enabled : c.isEnabled = true) (shown : c.dismissed = false) :
      Handled currentUser c (.press photoName) (c.btnSharePressed photoName) none
  | uploaded {n : Nat} {a : ShareAttempt} {ok : Bool} (found : c.attempts[n]? = some a) (uploading : a.stage = .uploading) :
      Handled currentUser c (.uploaded n ok) (c.uploaded n a ok) none
  | located {n : Nat} {a : ShareAttempt} {url : Option String} {ok : Bool} {now : Timestamp}
      (found : c.attempts[n]? = some a) (locating : a.stage = .locating) :
      Handled currentUser c (.located n url ok now) (c.located n a url ok currentUser now) none
  | saved {n : Nat} {a : ShareAttempt} {validUserID documentID : String} {data : PostData}
      (found : c.attempts[n]? = some a) (saving : a.stage = .saving validUserID data) :
      Handled currentUser c (.saved n documentID true)
        { c.put n { a with stage := .saved validUserID documentID } with dismissed := true }
        (some (validUserID, .photoPost validUserID documentID data))
  | saveFails {n : Nat} {a : ShareAttempt} {validUserID documentID : String} {data : PostData}
      (found : c.attempts[n]? = some a) (saving : a.stage = .saving validUserID data) :
      Handled currentUser c (.saved n documentID false) { c.put n { a with stage := .ended } with isEnabled := false } none

theorem handle_ok {currentUser : Option String} {c c' : SharePhotoController} {e : ShareEvent}
    {write : Option (String × ServerWrite)} (h : c.handle currentUser e = some (c', write)) :
    Handled currentUser c e c' write := by
  cases e with
  | edit text =>
    obtain ⟨rfl, rfl⟩ := Prod.mk.inj (Option.some.inj h)
    exact .edit
  | press photoName =>
    obtain ⟨pressable, same⟩ := Option.ite_none_right_eq_some.mp h
    obtain ⟨rfl, rfl⟩ := Prod.mk.inj (Option.some.inj same)
    obtain ⟨enabled, shown⟩ := Bool.and_eq_true_iff.mp pressable
    exact .press enabled (by simpa using shown)
  | uploaded n ok =>
    obtain ⟨a, found, h⟩ := Option.bind_eq_some_iff.mp h
    obtain ⟨uploading, same⟩ := Option.ite_none_right_eq_some.mp h
    obtain ⟨rfl, rfl⟩ := Prod.mk.inj (Option.some.inj same)
    exact .uploaded found uploading
  | located n url ok now =>
    obtain ⟨a, found, h⟩ := Option.bind_eq_some_iff.mp h
    obtain ⟨locating, same⟩ := Option.ite_none_right_eq_some.mp h
    obtain ⟨rfl, rfl⟩ := Prod.mk.inj (Option.some.inj same)
    exact .located found locating
  | saved n documentID ok =>
    obtain ⟨a, found, h⟩ := Option.bind_eq_some_iff.mp h
    split at h
    · rename_i validUserID data saving
      cases ok with
      | true =>
        obtain ⟨rfl, rfl⟩ := Prod.mk.inj (Option.some.inj h)
        exact .saved found saving
      | false =>
        obtain ⟨rfl, rfl⟩ := Prod.mk.inj (Option.some.inj h)
        exact .saveFails found saving
    · cases h

theorem located_cases (c : SharePhotoController) (n : Nat) (a : ShareAttempt) (url : Option String) (ok : Bool)
    (currentUser : Option String) (now : Timestamp) :
    ∃ stage, (c.located n a url ok currentUser now).attempts = c.attempts.set n { a with stage, hudDismissed := true } ∧
      (stage = .ended ∨ ∃ validUserID data, stage = .saving validUserID data ∧ currentUser = some validUserID ∧
        NonBlank data.message ∧ url = some data.imageURL) := by
  unfold located
  split
  · split
    · rename_i validUserID data found
      obtain ⟨imageURL, is_url, checked⟩ := Option.bind_eq_some_iff.mp found
      obtain ⟨signedIn, nonBlank, same, _⟩ := savePostFS_ok checked
      exact ⟨_, rfl, .inr ⟨validUserID, data, rfl, signedIn, nonBlank, same ▸ is_url⟩⟩
    · exact ⟨_, rfl, .inl rfl⟩
  · exact ⟨_, rfl, .inl rfl⟩

end SharePhotoController
end Foti
