import Foti.Library.Listener
import Foti.MainPage.PostLiked
import Foti.Firestore.Store
import Mathlib.Data.List.Sort

/-!
`MainController`, the home feed. A post comes in at the end of a chain: a snapshot of the `Follows`
document starts a lookup of each user in it, a user found starts a listener on that user's posts,
and each post that the listener delivers starts a lookup of its likes, whose callback inserts it.
-/

namespace Foti
open Document Listening

/-- An outstanding read of a `Users` document; `own` is the one of `getUser`. -/
structure UserLookup where
  own : Bool
  uID : String
  deriving DecidableEq, Repr

/-- An outstanding read of a `Likes` document, with the post that its callback inserts. -/
structure LikeLookup where
  post : Post
  postID : String
  validUserID : String
  deriving DecidableEq, Repr

abbrev FollowsListener := Listener String Unit (Option Dict)

abbrev PhotoListener := Listener String User (String × Dict)

structure MainController where
  posts : List Post := []
  validUser : Option User := none
  userLookups : List UserLookup := []
  followsListeners : List FollowsListener := []
  photoListeners : List PhotoListener := []
  likeLookups : List LikeLookup := []
  likeCalls : List LikeCall := []
  crashed : Bool := false

inductive MainEvent where
  | refreshPosts
  | followsSnapshot (l k : Nat)
  | followsFails (l : Nat)
  | userLookup (n : Nat) (ok : Bool)
  | photoSnapshot (l n : Nat) (now : Timestamp)
  | photoFails (l : Nat)
  | likeLookup (n : Nat) (ok : Bool)
  | tap (row : Nat)
  | like (e : CallEvent)
  deriving DecidableEq

/-- The order of the feed's `sort`, newest first. Swift's sort keeps equal elements in their order. -/
def newerFirst (p q : Post) : Prop := q.postDate ≤ p.postDate

instance : DecidableRel newerFirst := fun p q => inferInstanceAs (Decidable (q.postDate ≤ p.postDate))

namespace MainController

def getFollowedUserValue (c : MainController) (currentUser : Option String) (fs : Firestore) : MainController :=
  match currentUser with
  | none => c
  | some uID => { c with followsListeners := c.followsListeners ++ [⟨uID, (), 0, [fs.follows uID]⟩] }

/-- The callback of a `Follows` snapshot. A missing document has no data. -/
def followed (c : MainController) (currentUser : Option String) (data : Option Dict) : MainController :=
  let keys := (data.map AList.keys).getD []
  { c with userLookups := c.userLookups ++ keys.filterMap fun key => (createUser key currentUser).map (⟨false, ·⟩) }

def getUser (c : MainController) (userID : String) (currentUser : Option String) : MainController :=
  match currentUser with
  | none => c
  | some validUser =>
      let uID := if userID = "" then validUser else userID
      { c with userLookups := c.userLookups ++ [⟨true, uID⟩] }

/-- A document path with an empty component traps. -/
def getPosts (c : MainController) (user : User) (fs : Firestore) : MainController :=
  if user.userID = "" then { c with crashed := true } else
  let existing := fs.photoPosts user.userID
  { c with photoListeners := c.photoListeners ++ [⟨user.userID, user, existing.length, existing⟩] }

/-- The callback of a `Users` read; a missing document ends the chain. -/
def userFound (c : MainController) (lookup : UserLookup) (userData : Option Dict) (fs : Firestore) : MainController :=
  match userData with
  | none => c
  | some userData =>
      let user := User.init userData
      { c with validUser := if lookup.own then some user else c.validUser }.getPosts user fs

/-- The callback of a posts snapshot with the added documents `changes`. -/
def postsAdded (c : MainController) (currentUser : Option String) (user : User) (changes : List (String × Dict))
    (now : Timestamp) : MainController :=
  match currentUser with
  | none => c
  | some validUserID =>
      let lookups := changes.map fun d => ⟨{ Post.init now user d.2 with id := some d.1 }, d.1, validUserID⟩
      { c with likeLookups := c.likeLookups ++ lookups }

/-- The callback of a `Likes` read. -/
def likeFound (c : MainController) (lookup : LikeLookup) (likeData : Option Dict) : MainController :=
  let post := { lookup.post with liked := decide (asInt (value likeData lookup.validUserID) = some 1) }
  { c with posts := (c.posts ++ [post]).reverse.insertionSort newerFirst }

def refreshPosts (c : MainController) (currentUser : Option String) (fs : Firestore) : MainController :=
  ({ c with posts := [] }.getFollowedUserValue currentUser fs).getUser "" currentUser

def viewDidLoad (currentUser : Option String) (fs : Firestore) : MainController :=
  (({} : MainController).getUser "" currentUser).getFollowedUserValue currentUser fs

/-- The callbacks of `postLiked`, and the write that the store applies in them. -/
def likeStep (c : MainController) (fs : Firestore) : CallEvent → Option (MainController × Option ServerWrite)
  | .read n ok => do
      let call ← c.likeCalls[n]?
      let call' ← call.answer (fs.likes call.closure.postID).isSome ok
      return ({ c with likeCalls := c.likeCalls.set n call' }, none)
  | .write n ok => do
      let call ← c.likeCalls[n]?
      match call.stage with
      | .writing whole =>
          let accepted := ok && ((call.write whole).apply (fs.likes call.closure.postID)).isSome
          return ({ c with likeCalls := c.likeCalls.set n { call with stage := .written whole accepted } },
            if accepted then some (.like call.closure.postID (call.write whole)) else none)
      | _ => none
  | .acknowledge n => do
      let call ← c.likeCalls[n]?
      let call' ← call.acknowledge
      let c := { c with likeCalls := c.likeCalls.set n call' }
      if call'.stage = .finished true then
        match call.completion c.posts with
        | some posts => return ({ c with posts }, none)
        | none => return ({ c with crashed := true }, none)
      else return (c, none)

/-- One event at the screen. After a trap there are no more. -/
def handle (c : MainController) (currentUser : Option String) (fs : Firestore) (e : MainEvent) :
    Option (MainController × Option ServerWrite) :=
  if c.crashed then none else
  match e with
  | .refreshPosts => some (c.refreshPosts currentUser fs, none)
  | .followsSnapshot l k => do
      let (_, data, listeners) ← deliverVersion c.followsListeners l k
      return ({ c with followsListeners := listeners }.followed currentUser data, none)
  | .followsFails l => some ({ c with followsListeners := c.followsListeners.eraseIdx l }, none)
  | .userLookup n ok => do
      let lookup ← c.userLookups[n]?
      let c := { c with userLookups := c.userLookups.eraseIdx n }
      return (if ok then c.userFound lookup (fs.users lookup.uID) fs else c, none)
  | .photoSnapshot l n now => do
      let (listener, listeners) ← deliver c.photoListeners l n
      return ({ c with photoListeners := listeners }.postsAdded currentUser listener.closure
        (orderedByPostDate (listener.pending.take n)) now, none)
  | .photoFails l => some ({ c with photoListeners := c.photoListeners.eraseIdx l }, none)
  | .likeLookup n ok => do
      let lookup ← c.likeLookups[n]?
      let c := { c with likeLookups := c.likeLookups.eraseIdx n }
      return (if ok then c.likeFound lookup (fs.likes lookup.postID) else c, none)
  | .tap row => do
      let call ← postLiked c.posts row currentUser
      return ({ c with likeCalls := c.likeCalls ++ [call] }, none)
  | .like e => c.likeStep fs e

/-- Two versions of a document with the same data; a write that leaves the data as it is raises no
snapshot. -/
def sameData : Option Dict → Option Dict → Bool
  | none, none => true
  | some d, some e => decide (d.entries.Perm e.entries)
  | _, _ => false

/-- What the listeners learn of a write that took the store from `fs` to `fs'`. -/
def notify (c : MainController) (fs fs' : Firestore) : ServerWrite → MainController
  | .photoPost author documentID data =>
      { c with photoListeners := publish author (documentID, data.addData author) c.photoListeners }
  | .follow accountUserID _ =>
      if sameData (fs.follows accountUserID) (fs'.follows accountUserID) then c
      else { c with followsListeners := publish accountUserID (fs'.follows accountUserID) c.followsListeners }
  | _ => c

end MainController
end Foti
