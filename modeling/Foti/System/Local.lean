import Foti.System.Attribution

/-!
Firestore as a device has it. A write is there for the device's own listeners and reads as soon as it is
issued, before the server has it, and a write that the server refuses has been there. What a read or a
snapshot gives may also lag behind. All that holds is that nobody is given what nobody has issued, and that
a listener is given a document as added only once.
-/

namespace Foti
open Document Listening

/-- What a read gives: users may be missing, the likes may be any, and the follows may be a version that the
server does not have, or no document. -/
structure Cache where
  missing : List String := []
  likes : Option (String → Option Dict) := none
  follows : Option (Option (List String)) := none

/-- `issued.fs` has every user, post and comment whose write was issued, whether or not the server has
accepted it, with the server's likes and follows. `followed` has the follows that were issued, each with
its account, and `calls` the calls whose write was issued, by client, screen and place. `given` has the
documents that Firestore has given to the listeners of each screen, by client and screen. -/
structure Local where
  issued : System := {}
  server : Firestore := {}
  refused : List String := []
  followed : List (String × String) := []
  calls : List (Nat × Nat × Nat) := []
  given : List ((Nat × Nat) × String × Dict) := []

/-- The write of a screen's `n`th call while it waits for the server, with its account. -/
def Screen.pending (n : Nat) (documentID : String) : Screen → Option (String × ServerWrite)
  | .register attempts => do
      let a ← attempts[n]?
      match a.stage with
      | .saving uid url => some (uid, .user uid a.userName url)
      | _ => none
  | .share c => do
      let a ← c.attempts[n]?
      match a.stage with
      | .saving validUserID data => some (validUserID, .photoPost validUserID documentID data)
      | _ => none
  | .main c => do
      let call ← c.likeCalls[n]?
      match call.stage with
      | .writing whole => some (call.key, .like call.closure.postID (call.write whole))
      | _ => none
  | .comments c => do
      let s ← c.sends[n]?
      if s.stage = .writing then some (s.sender, .comment documentID s.data) else none
  | .profile c => do
      let tap ← c.followTaps[n]?
      match tap.call.stage with
      | .writing whole => some (tap.accountUserID, .follow tap.accountUserID (tap.call.write whole))
      | _ => none

/-- The write changes a document that other writes change too. -/
def ServerWrite.Shared : ServerWrite → Bool
  | .like _ _ | .follow _ _ => true
  | .user _ _ _ | .photoPost _ _ _ | .comment _ _ => false

/-- The follow that the write makes. -/
def ServerWrite.follows : ServerWrite → List (String × String)
  | .follow account write => if write.value.isSome then [(account, write.key)] else []
  | _ => []

/-- Mathlib's instance does not evaluate. -/
instance : DecidableEq Dict := fun d e => decidable_of_iff (d.entries = e.entries) AList.ext_iff.symm

namespace Local

inductive Event where
  /-- An event of the program; what it reads comes from the cache. -/
  | program (e : System.Event) (cache : Cache)
  /-- The device takes in the write of a call, which its own reads and listeners may show from now on. -/
  | issue (i j n : Nat) (documentID : String)
  /-- The server refuses a document. -/
  | refuse (documentID : String)
  /-- Firestore has a document for listener `l` of a screen. -/
  | raise (i j l : Nat) (documentID : String)
  /-- Firestore has a version of the account's follows for listener `l` of a feed. -/
  | follows (i j l : Nat) (users : Option (List String))

/-- A version of the account's follows. It has nobody whom the account has not followed. -/
def version (s : Local) (account : String) (users : Option (List String)) : Option Dict :=
  users.map fun users => dict ((users.filter fun user => (account, user) ∈ s.followed).map fun user => (user, .int 1))

/-- A listener that is attached has nothing yet: it gets what the cache has with `raise`. -/
def seen (s : Local) (cache : Cache) : Firestore where
  users := fun uid => if uid ∈ cache.missing then none else s.issued.fs.users uid
  photoPosts := fun _ => []
  addingComments := fun _ => []
  likes := cache.likes.getD s.issued.fs.likes
  follows := fun account =>
    match cache.follows with
    | some users => s.version account users
    | none => s.issued.fs.follows account
  documentIDs := s.issued.fs.documentIDs

/-- The write has been issued, and the server has not refused it. -/
def Issued (s : Local) : ServerWrite → Prop
  | .user uid userName url => s.issued.fs.users uid = some (SignUpAttempt.addData userName uid url)
  | .photoPost author documentID data =>
      (documentID, data.addData author) ∈ s.issued.fs.photoPosts author ∧ documentID ∉ s.refused
  | .comment documentID data =>
      (documentID, data.addingValue) ∈ s.issued.fs.addingComments data.postID ∧ documentID ∉ s.refused
  | .like _ _ => True
  | .follow account write => write.value.isSome → (account, write.key) ∈ s.followed

instance (s : Local) (w : ServerWrite) : Decidable (s.Issued w) :=
  match w with
  | .user uid userName url =>
    inferInstanceAs (Decidable (s.issued.fs.users uid = some (SignUpAttempt.addData userName uid url)))
  | .photoPost author documentID data =>
    inferInstanceAs (Decidable ((documentID, data.addData author) ∈ s.issued.fs.photoPosts author ∧ documentID ∉ s.refused))
  | .comment documentID data => inferInstanceAs
      (Decidable ((documentID, data.addingValue) ∈ s.issued.fs.addingComments data.postID ∧ documentID ∉ s.refused))
  | .like _ _ => isTrue trivial
  | .follow account write => inferInstanceAs (Decidable (write.value.isSome → (account, write.key) ∈ s.followed))

def make (s : Local) (sender : String) (w : ServerWrite) : Option Local := do
  let fs ← s.issued.fs.apply w
  return { s with issued := { s.issued with fs, issuers := w.issued sender ++ s.issued.issuers } }

/-- A document that is made is there from now on; a like or follow changes a document that others change too. -/
def issue (s : Local) (sender : String) (w : ServerWrite) : Option Local :=
  match w with
  | .user uid _ _ => if (s.issued.fs.users uid).isSome then none else s.make sender w
  | .photoPost _ _ _ | .comment _ _ => s.make sender w
  | .like _ _ | .follow _ _ => some { s with followed := w.follows ++ s.followed }

/-- The server accepts a write that was issued. -/
def accept (s : Local) (sender : String) (w : ServerWrite) : Option Local := do
  let server ← s.server.apply w
  if s.Issued w then
    if w.Shared then
      let issued ← s.issued.write sender w
      return { s with issued, server }
    else return { s with server }
  else none

/-- What an event at a screen reads. The answer to the write of a like or follow is the server's. -/
def read (s : Local) (cache : Cache) : ScreenEvent → Firestore
  | .main (.like (.write _ _)) | .profile (.follow (.write _ _)) => s.issued.fs
  | _ => s.seen cache

def program (s : Local) (cache : Cache) : System.Event → Option Local
  | .open i opening => do
      let c ← s.issued.clients[i]?
      let screen := Screen.viewDidLoad c.currentUser (s.seen cache) opening
      return { s with issued := { s.issued with
        clients := s.issued.clients.set i { c with screens := c.screens ++ [screen] } } }
  | .register i j (.stored n true) => do
      let c ← s.issued.clients[i]?
      let screen ← c.screens[j]?
      let (sender, w) ← screen.pending n ""
      let t ← s.accept sender w
      let issued ← s.issued.step (.register i j (.stored n true))
      return { t with issued }
  | .screen i j e => do
      let c ← s.issued.clients[i]?
      let screen ← c.screens[j]?
      let (screen, write) ← screen.handle c.currentUser (s.read cache e) e
      let s := { s with issued := s.issued.put i c j screen }
      match write with
      | none => return s
      | some (sender, w) => s.accept sender w
  | e => (s.issued.step e).map fun issued => { s with issued }

def raised (s : Local) (l : Nat) (documentID : String) : Screen → Option ((String × Dict) × Screen)
  | .main c =>
      (enqueue c.photoListeners l fun author => (s.issued.fs.photoPosts author).find? fun d => d.1 = documentID).map
        (Prod.map id fun photoListeners => .main { c with photoListeners })
  | .comments c =>
      (enqueue c.listeners l fun postID => (s.issued.fs.addingComments postID).find? fun d => d.1 = documentID).map
        (Prod.map id fun listeners => .comments { c with listeners })
  | .profile c =>
      (enqueue c.photoListeners l fun author => (s.issued.fs.photoPosts author).find? fun d => d.1 = documentID).map
        (Prod.map id fun photoListeners => .profile { c with photoListeners })
  | .register _ | .share _ => none

def givenAt (s : Local) (place : Nat × Nat) : List (String × Dict) := (s.given.filter fun g => g.1 = place).map (·.2)

/-- Profiles and comments screens have one listener, which is given a document once. For a comments screen the
`.removed` change of a refused comment counts like an `.added` one. -/
def Raisable (s : Local) (place : Nat × Nat) (d : String × Dict) : Screen → Prop
  | .profile _ => d ∉ s.givenAt place
  | .comments _ => d ∈ s.givenAt place → d.1 ∈ s.refused
  | .register _ | .share _ | .main _ => True

instance (s : Local) (place : Nat × Nat) (d : String × Dict) (screen : Screen) : Decidable (s.Raisable place d screen) :=
  match screen with
  | .profile _ => inferInstanceAs (Decidable (d ∉ s.givenAt place))
  | .comments _ => inferInstanceAs (Decidable (d ∈ s.givenAt place → d.1 ∈ s.refused))
  | .register _ | .share _ | .main _ => isTrue trivial

def step (s : Local) : Event → Option Local
  | .program e cache => s.program cache e
  | .issue i j n documentID => do
      let c ← s.issued.clients[i]?
      let screen ← c.screens[j]?
      let (sender, w) ← screen.pending n documentID
      if (i, j, n) ∈ s.calls then none
      else (s.issue sender w).map fun t => { t with calls := (i, j, n) :: t.calls }
  | .refuse documentID =>
      if documentID ∈ s.server.documentIDs then none else some { s with refused := documentID :: s.refused }
  | .raise i j l documentID => do
      let c ← s.issued.clients[i]?
      let screen ← c.screens[j]?
      let (d, screen') ← s.raised l documentID screen
      if s.Raisable (i, j) d screen then
        return { s with issued := s.issued.put i c j screen', given := s.given ++ [((i, j), d)] }
      else none
  | .follows i j l users => do
      let c ← s.issued.clients[i]?
      match c.screens[j]? with
      | some (.main main) => do
          let (_, followsListeners) ← enqueue main.followsListeners l fun account => some (s.version account users)
          return { s with issued := s.issued.put i c j (.main { main with followsListeners }) }
      | _ => none

end Local
end Foti
