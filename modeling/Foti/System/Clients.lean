import Foti.AddPhoto.SharePhotoController
import Foti.MainPage.CommentController
import Foti.MainPage.Feed
import Foti.Register.SignUp
import Foti.UserProfile.UserProfileController

/-!
The whole program: any number of clients with their screens over one store and one `Auth`. Screens
stay when others are opened, and listeners keep delivering to them after a sign-out. Here a device has what
the server has accepted, all of it and nothing else; `Foti.Local` has its own pending and refused writes and
its cache as well.
-/

namespace Foti

inductive Screen where
  | register (attempts : List SignUpAttempt)
  | share (c : SharePhotoController)
  | main (c : MainController)
  | comments (c : CommentController)
  | profile (c : UserProfileController)

/-- How a screen is opened. The photo, post or user it is opened for may be any. -/
inductive Opening where
  | register
  | share (chosenPhoto : Option Photo)
  | main
  | comments (chosenPost : Option Post)
  | profile (userID : Option String)

inductive ScreenEvent where
  | share (e : ShareEvent)
  | main (e : MainEvent)
  | comments (e : CommentEvent)
  | profile (e : ProfileEvent)

namespace Screen

def viewDidLoad (currentUser : Option String) (fs : Firestore) : Opening → Screen
  | .register => .register []
  | .share chosenPhoto => .share { chosenPhoto }
  | .main => .main (MainController.viewDidLoad currentUser fs)
  | .comments chosenPost => .comments (CommentController.viewDidLoad chosenPost fs)
  | .profile userID => .profile (UserProfileController.viewDidLoad userID currentUser)

/-- An event at a screen, with the write it makes and the account that issued the write. -/
def handle (currentUser : Option String) (fs : Firestore) :
    Screen → ScreenEvent → Option (Screen × Option (String × ServerWrite))
  | .share c, .share e => (c.handle currentUser e).map (Prod.map .share id)
  | .main c, .main e =>
      (c.handle currentUser fs e).map (Prod.map .main (Option.map fun w => (currentUser.getD "", w)))
  | .comments c, .comments e => (c.handle currentUser fs e).map (Prod.map .comments id)
  | .profile c, .profile e => (c.handle currentUser fs e).map (Prod.map .profile id)
  | _, _ => none

/-- What a screen's listeners learn of a write that the server accepts and that takes the store from `fs` to `fs'`. -/
def notify (fs fs' : Firestore) (w : ServerWrite) : Screen → Screen
  | .register attempts => .register attempts
  | .share c => .share c
  | .main c => .main (c.notify fs fs' w)
  | .comments c => .comments (c.notify w)
  | .profile c => .profile (c.notify w)

inductive Handled (currentUser : Option String) (fs : Firestore) :
    Screen → ScreenEvent → Screen → Option (String × ServerWrite) → Prop where
  | share {c c' : SharePhotoController} {e : ShareEvent} {write : Option (String × ServerWrite)}
      (outcome : SharePhotoController.Handled currentUser c e c' write) :
      Handled currentUser fs (.share c) (.share e) (.share c') write
  | main {c c' : MainController} {e : MainEvent} {w : Option ServerWrite}
      (outcome : MainController.Handled currentUser fs c e c' w) :
      Handled currentUser fs (.main c) (.main e) (.main c') (w.map fun w => (currentUser.getD "", w))
  | comments {c c' : CommentController} {e : CommentEvent} {write : Option (String × ServerWrite)}
      (outcome : CommentController.Handled currentUser fs c e c' write) :
      Handled currentUser fs (.comments c) (.comments e) (.comments c') write
  | profile {c c' : UserProfileController} {e : ProfileEvent} {write : Option (String × ServerWrite)}
      (outcome : UserProfileController.Handled currentUser fs c e c' write) :
      Handled currentUser fs (.profile c) (.profile e) (.profile c') write

theorem handle_ok {currentUser : Option String} {fs : Firestore} {screen screen' : Screen} {e : ScreenEvent}
    {write : Option (String × ServerWrite)} (h : screen.handle currentUser fs e = some (screen', write)) :
    Handled currentUser fs screen e screen' write := by
  unfold handle at h
  split at h
  · obtain ⟨⟨c', w⟩, stepped, same⟩ := Option.map_eq_some_iff.mp h
    obtain ⟨rfl, rfl⟩ := Prod.mk.inj same
    exact .share (SharePhotoController.handle_ok stepped)
  · obtain ⟨⟨c', w⟩, stepped, same⟩ := Option.map_eq_some_iff.mp h
    obtain ⟨rfl, rfl⟩ := Prod.mk.inj same
    exact .main (MainController.handle_ok stepped).2
  · obtain ⟨⟨c', w⟩, stepped, same⟩ := Option.map_eq_some_iff.mp h
    obtain ⟨rfl, rfl⟩ := Prod.mk.inj same
    exact .comments (CommentController.handle_ok stepped)
  · obtain ⟨⟨c', w⟩, stepped, same⟩ := Option.map_eq_some_iff.mp h
    obtain ⟨rfl, rfl⟩ := Prod.mk.inj same
    exact .profile (UserProfileController.handle_ok stepped)
  · cases h

end Screen

structure Client where
  currentUser : Option String := none
  screens : List Screen := []

/-- `issuers` records for each document ID the account that issued its write. -/
structure System where
  fs : Firestore := {}
  accounts : List SignUp.Account := []
  issuers : List (String × String) := []
  clients : List Client := []

namespace System

inductive Event where
  | launch
  | signIn (i : Nat) (uid : String)
  | signOut (i : Nat)
  | «open» (i : Nat) (opening : Opening)
  | register (i j : Nat) (e : SignUp.Event)
  | screen (i j : Nat) (e : ScreenEvent)

/-- The server accepts a write, and from now on the screens may show it. -/
def write (s : System) (sender : String) (w : ServerWrite) : Option System := do
  let fs ← s.fs.apply w
  return { s with
    fs
    issuers := w.issued sender ++ s.issuers
    clients := s.clients.map fun c => { c with screens := c.screens.map (Screen.notify s.fs fs w) } }

def signedUp (c : Client) : SignUp.Event → Client
  | .created _ (some uid) => { c with currentUser := some uid }
  | _ => c

/-- `Auth` hands out non-empty uids. -/
def Named : SignUp.Event → Prop
  | .created _ (some uid) => uid ≠ ""
  | _ => True

instance (e : SignUp.Event) : Decidable (Named e) := by unfold Named; split <;> infer_instance

def step (s : System) : Event → Option System
  | .launch => some { s with clients := s.clients ++ [{}] }
  | .signIn i uid => do
      let c ← s.clients[i]?
      if uid ∈ s.accounts.map (·.uid) then
        some { s with clients := s.clients.set i { c with currentUser := some uid } }
      else none
  | .signOut i => do
      let c ← s.clients[i]?
      return { s with clients := s.clients.set i { c with currentUser := none } }
  | .open i opening => do
      let c ← s.clients[i]?
      let screen := Screen.viewDidLoad c.currentUser s.fs opening
      return { s with clients := s.clients.set i { c with screens := c.screens ++ [screen] } }
  | .register i j e => do
      let c ← s.clients[i]?
      match c.screens[j]? with
      | some (.register attempts) =>
          if Named e then
            let t ← SignUp.step ⟨s.accounts, s.fs.users, attempts⟩ e
            let c := signedUp { c with screens := c.screens.set j (.register t.attempts) } e
            return { s with accounts := t.accounts, fs := { s.fs with users := t.users }, clients := s.clients.set i c }
          else none
      | _ => none
  | .screen i j e => do
      let c ← s.clients[i]?
      let screen ← c.screens[j]?
      let (screen, write) ← screen.handle c.currentUser s.fs e
      let s := { s with clients := s.clients.set i { c with screens := c.screens.set j screen } }
      match write with
      | none => return s
      | some (sender, w) => s.write sender w

def put (s : System) (i : Nat) (c : Client) (j : Nat) (screen : Screen) : System :=
  { s with clients := s.clients.set i { c with screens := c.screens.set j screen } }

/-- A write that the store accepts: every screen of every client is told of it. -/
theorem write_ok {s t : System} {sender : String} {w : ServerWrite} (h : s.write sender w = some t) :
    ∃ fs, s.fs.apply w = some fs ∧ Firestore.Applied s.fs w fs ∧ t = { s with
      fs
      issuers := w.issued sender ++ s.issuers
      clients := s.clients.map fun c => { c with screens := c.screens.map (Screen.notify s.fs fs w) } } := by
  obtain ⟨fs, accepted, same⟩ := Option.bind_eq_some_iff.mp h
  exact ⟨fs, accepted, Firestore.apply_ok accepted, (Option.some.inj same).symm⟩

/-- The outcomes of `step`, one constructor for each branch. -/
inductive Stepped (s : System) : Event → System → Prop where
  | launch : Stepped s .launch { s with clients := s.clients ++ [{}] }
  | signIn {i : Nat} {uid : String} {c : Client} (found : s.clients[i]? = some c) (known : uid ∈ s.accounts.map (·.uid)) :
      Stepped s (.signIn i uid) { s with clients := s.clients.set i { c with currentUser := some uid } }
  | signOut {i : Nat} {c : Client} (found : s.clients[i]? = some c) :
      Stepped s (.signOut i) { s with clients := s.clients.set i { c with currentUser := none } }
  | opened {i : Nat} {opening : Opening} {c : Client} (found : s.clients[i]? = some c) :
      Stepped s (.open i opening) { s with
        clients := s.clients.set i { c with screens := c.screens ++ [Screen.viewDidLoad c.currentUser s.fs opening] } }
  | register {i j : Nat} {e : SignUp.Event} {c : Client} {attempts : List SignUpAttempt} {t : SignUp.State}
      (found : s.clients[i]? = some c) (named : Named e)
      (stepped : SignUp.step ⟨s.accounts, s.fs.users, attempts⟩ e = some t) :
      Stepped s (.register i j e) { s with
        accounts := t.accounts
        fs := { s.fs with users := t.users }
        clients := s.clients.set i (signedUp { c with screens := c.screens.set j (.register t.attempts) } e) }
  | silent {i j : Nat} {e : ScreenEvent} {c : Client} {screen screen' : Screen} (found : s.clients[i]? = some c)
      (shown : c.screens[j]? = some screen) (handled : Screen.Handled c.currentUser s.fs screen e screen' none) :
      Stepped s (.screen i j e) (s.put i c j screen')
  | wrote {i j : Nat} {e : ScreenEvent} {c : Client} {screen screen' : Screen} {sender : String} {w : ServerWrite}
      {t : System} (found : s.clients[i]? = some c) (shown : c.screens[j]? = some screen)
      (handled : Screen.Handled c.currentUser s.fs screen e screen' (some (sender, w)))
      (written : (s.put i c j screen').write sender w = some t) : Stepped s (.screen i j e) t

theorem step_ok {s t : System} {e : Event} (h : s.step e = some t) : Stepped s e t := by
  cases e with
  | launch =>
    obtain rfl := Option.some.inj h
    exact .launch
  | signIn i uid =>
    obtain ⟨c, found, h⟩ := Option.bind_eq_some_iff.mp h
    obtain ⟨known, same⟩ := Option.ite_none_right_eq_some.mp h
    obtain rfl := Option.some.inj same
    exact .signIn found known
  | signOut i =>
    obtain ⟨c, found, same⟩ := Option.bind_eq_some_iff.mp h
    obtain rfl := Option.some.inj same
    exact .signOut found
  | «open» i opening =>
    obtain ⟨c, found, same⟩ := Option.bind_eq_some_iff.mp h
    obtain rfl := Option.some.inj same
    exact .opened found
  | register i j e =>
    obtain ⟨c, found, h⟩ := Option.bind_eq_some_iff.mp h
    split at h
    · obtain ⟨named, h⟩ := Option.ite_none_right_eq_some.mp h
      obtain ⟨t, stepped, same⟩ := Option.bind_eq_some_iff.mp h
      obtain rfl := Option.some.inj same
      exact .register found named stepped
    · cases h
  | screen i j e =>
    obtain ⟨c, found, h⟩ := Option.bind_eq_some_iff.mp h
    obtain ⟨screen, shown, h⟩ := Option.bind_eq_some_iff.mp h
    obtain ⟨⟨screen', write⟩, handled, h⟩ := Option.bind_eq_some_iff.mp h
    cases write with
    | none =>
      obtain rfl := Option.some.inj h
      exact .silent found shown (Screen.handle_ok handled)
    | some write => exact .wrote found shown (Screen.handle_ok handled) h

end System
end Foti
