import Foti.Library.Listener
import Foti.Firestore.Store
import Foti.UserProfile.ProfilePosts
import Foti.UserProfile.UserProfileHeader

/-! `UserProfileController`: it looks its user up, listens to that user's posts, and gives its headers
the user, each of which asks for the state of the follow. -/

namespace Foti
open Document Listening

/-- An outstanding read of `followButton`. -/
structure FollowRead where
  place : Nat
  accountUserID : String
  validUserID : String
  deriving DecidableEq, Repr

/-- A tap of the button, with the account signed in at the tap. -/
structure FollowTap where
  accountUserID : String
  call : FollowCall

structure UserProfileController where
  validUser : Option User := none
  posts : List Post := []
  userLookup : Option String := none
  photoListeners : List (Listener String Unit (String × Dict)) := []
  headers : List UserProfileHeader := []
  followReads : List FollowRead := []
  followTaps : List FollowTap := []
  crashed : Bool := false

inductive ProfileEvent where
  | userLookup (ok : Bool)
  | photoSnapshot (l n : Nat) (now : Timestamp)
  | photoFails (l : Nat)
  | configure (place : Nat)
  | followRead (n : Nat) (ok : Bool)
  | tap (place : Nat)
  | follow (e : CallEvent)
  deriving DecidableEq

namespace UserProfileController

/-- `getUser` at `viewDidLoad`. `userID` is that of a search result; the own tab has none. -/
def viewDidLoad (userID currentUser : Option String) : UserProfileController :=
  let validUserID := (userID.or currentUser).getD ""
  if validUserID = "" then { crashed := true } else { userLookup := some validUserID }

def getPostFS (c : UserProfileController) (fs : Firestore) : UserProfileController :=
  match c.validUser with
  | none => c
  | some user =>
      if user.userID = "" then { c with crashed := true } else
      let existing := fs.photoPosts user.userID
      { c with photoListeners := c.photoListeners ++ [⟨user.userID, (), existing.length, existing⟩] }

/-- The callback of `getUser`'s read. -/
def userFound (c : UserProfileController) (userData : Option Dict) (fs : Firestore) : UserProfileController :=
  match userData with
  | none => c
  | some userData => { c with validUser := some (User.init userData) }.getPostFS fs

/-- The callback of a posts snapshot; it reads the screen's user again. -/
def postsAdded (c : UserProfileController) (changes : List (String × Dict)) (now : Timestamp) :
    UserProfileController :=
  match c.validUser with
  | none => { c with crashed := true }
  | some user =>
      { c with posts := ProfilePosts.getPostFS user c.posts ⟨now, changes.map fun d => ⟨.added, d.1, d.2⟩⟩ }

/-- A header is dequeued, fresh or used, and given the screen's user. -/
def configure (c : UserProfileController) (place : Nat) (currentUser : Option String) : UserProfileController :=
  let place := min place c.headers.length
  let (header, asks) := (c.headers[place]?.getD {}).setValidUser currentUser c.validUser
  let headers := if place < c.headers.length then c.headers.set place header else c.headers ++ [header]
  match currentUser, asks with
  | some accountUserID, some validUserID =>
      { c with headers, followReads := c.followReads ++ [⟨place, accountUserID, validUserID⟩] }
  | _, _ => { c with headers }

/-- The callback of `followButton`'s read. A trap in it ends the program. -/
def followRead (c : UserProfileController) (r : FollowRead) (followDatas : Option Dict) : UserProfileController :=
  match c.headers[r.place]? with
  | none => c
  | some header =>
      let header := header.followData r.validUserID followDatas
      { c with headers := c.headers.set r.place header, crashed := header.crashed }

/-- The steps of a tap after the button was pressed, and the write that the store applies in them. -/
def followStep (c : UserProfileController) (fs : Firestore) :
    CallEvent → Option (UserProfileController × Option (String × ServerWrite))
  | .read n ok => do
      let tap ← c.followTaps[n]?
      let call ← tap.call.answer (fs.follows tap.accountUserID).isSome ok
      return ({ c with followTaps := c.followTaps.set n { tap with call } }, none)
  | .write n ok => do
      let tap ← c.followTaps[n]?
      match tap.call.stage with
      | .writing whole =>
          let write := tap.call.write whole
          let accepted := ok && (write.apply (fs.follows tap.accountUserID)).isSome
          let call := { tap.call with stage := .written whole accepted }
          return ({ c with followTaps := c.followTaps.set n { tap with call } },
            if accepted then some (tap.accountUserID, .follow tap.accountUserID write) else none)
      | _ => none
  | .acknowledge n => do
      let tap ← c.followTaps[n]?
      let call ← tap.call.acknowledge
      let c := { c with followTaps := c.followTaps.set n { tap with call } }
      match tap.call.stage, c.headers[call.closure]? with
      | .written whole true, some header =>
          return ({ c with headers := c.headers.set call.closure (tap.call.completion whole header) }, none)
      | _, _ => return (c, none)

def handle (c : UserProfileController) (currentUser : Option String) (fs : Firestore) (e : ProfileEvent) :
    Option (UserProfileController × Option (String × ServerWrite)) :=
  if c.crashed then none else
  match e with
  | .userLookup ok => do
      let uID ← c.userLookup
      let c := { c with userLookup := none }
      return (if ok then c.userFound (fs.users uID) fs else c, none)
  | .photoSnapshot l n now => do
      let (listener, photoListeners) ← deliver c.photoListeners l n
      return ({ c with photoListeners }.postsAdded (orderedByPostDate (listener.pending.take n)) now, none)
  | .photoFails l => some ({ c with photoListeners := c.photoListeners.eraseIdx l }, none)
  | .configure place => some (c.configure place currentUser, none)
  | .followRead n ok => do
      let r ← c.followReads[n]?
      let c := { c with followReads := c.followReads.eraseIdx n }
      return (if ok then c.followRead r (fs.follows r.accountUserID) else c, none)
  | .tap place => do
      let header ← c.headers[place]?
      let accountUserID ← currentUser
      let call ← btnProfile_Follow_Edit header place currentUser
      return ({ c with followTaps := c.followTaps ++ [⟨accountUserID, call⟩] }, none)
  | .follow e => c.followStep fs e

def notify (c : UserProfileController) : ServerWrite → UserProfileController
  | .photoPost author documentID data =>
      { c with photoListeners := publish author (documentID, data.addData author) c.photoListeners }
  | _ => c

/-- A header that `configure` leaves is an old one, or it has the screen's user and traps as it did before. -/
theorem configure_cases (c : UserProfileController) (place : Nat) (currentUser : Option String) :
    ∃ headers followReads, c.configure place currentUser = { c with headers, followReads } ∧
      ∀ header ∈ headers, header ∈ c.headers ∨ header.validUser = c.validUser ∧
        (header.crashed = false ∨ ∃ used ∈ c.headers, header.crashed = used.crashed) := by
  let used := c.headers[min place c.headers.length]?.getD {}
  let drawn := (used.setValidUser currentUser c.validUser).1
  obtain ⟨shown, crashed⟩ := UserProfileHeader.setValidUser_same currentUser used c.validUser
  have new : drawn.validUser = c.validUser ∧ (drawn.crashed = false ∨ ∃ used ∈ c.headers, drawn.crashed = used.crashed) := by
    refine ⟨shown, ?_⟩
    cases listed : c.headers[min place c.headers.length]? with
    | none => exact .inl (by rw [crashed]; simp [used, listed])
    | some header => exact .inr ⟨header, List.mem_of_getElem? listed, by rw [crashed]; simp [used, listed]⟩
  have headers : ∀ header ∈ if min place c.headers.length < c.headers.length then
      c.headers.set (min place c.headers.length) drawn else c.headers ++ [drawn], header ∈ c.headers ∨
        header.validUser = c.validUser ∧ (header.crashed = false ∨ ∃ used ∈ c.headers, header.crashed = used.crashed) := by
    split
    · exact Entries.forall_mem_set (fun _ old => .inl old) (.inr new)
    · exact Entries.forall_mem_concat (fun _ old => .inl old) (.inr new)
  unfold configure
  dsimp only
  split <;> exact ⟨_, _, rfl, headers⟩

theorem followRead_cases (c : UserProfileController) (r : FollowRead) (followDatas : Option Dict) :
    c.followRead r followDatas = c ∨ ∃ header ∈ c.headers, c.followRead r followDatas = { c with
      headers := c.headers.set r.place (header.followData r.validUserID followDatas)
      crashed := (header.followData r.validUserID followDatas).crashed } := by
  unfold followRead
  split
  · exact .inl rfl
  · rename_i header listed
    exact .inr ⟨header, List.mem_of_getElem? listed, rfl⟩

/-- The outcomes of `handle`. A tap's call moves on, and the one that completes sets its header's title. -/
inductive Handled (currentUser : Option String) (fs : Firestore) (c : UserProfileController) :
    ProfileEvent → UserProfileController → Option (String × ServerWrite) → Prop where
  | userFound {uID : String} (waits : c.userLookup = some uID) : Handled currentUser fs c (.userLookup true)
      ({ c with userLookup := none }.userFound (fs.users uID) fs) none
  | userFails {uID : String} (waits : c.userLookup = some uID) : Handled currentUser fs c (.userLookup false)
      { c with userLookup := none } none
  | photoSnapshot {l n : Nat} {now : Timestamp} {listener : Listener String Unit (String × Dict)}
      {photoListeners : List (Listener String Unit (String × Dict))}
      (delivered : deliver c.photoListeners l n = some (listener, photoListeners)) :
      Handled currentUser fs c (.photoSnapshot l n now)
        ({ c with photoListeners }.postsAdded (orderedByPostDate (listener.pending.take n)) now) none
  | photoFails {l : Nat} : Handled currentUser fs c (.photoFails l)
      { c with photoListeners := c.photoListeners.eraseIdx l } none
  | configure {place : Nat} : Handled currentUser fs c (.configure place) (c.configure place currentUser) none
  | followRead {n : Nat} {r : FollowRead} (found : c.followReads[n]? = some r) :
      Handled currentUser fs c (.followRead n true)
        ({ c with followReads := c.followReads.eraseIdx n }.followRead r (fs.follows r.accountUserID)) none
  | followReadFails {n : Nat} {r : FollowRead} (found : c.followReads[n]? = some r) :
      Handled currentUser fs c (.followRead n false) { c with followReads := c.followReads.eraseIdx n } none
  | tap {place : Nat} {header : UserProfileHeader} {accountUserID : String} {call : FollowCall}
      (listed : c.headers[place]? = some header) (signedIn : currentUser = some accountUserID)
      (called : btnProfile_Follow_Edit header place currentUser = some call) :
      Handled currentUser fs c (.tap place) { c with followTaps := c.followTaps ++ [⟨accountUserID, call⟩] } none
  | moved {e : CallEvent} {n : Nat} {tap : FollowTap} {stage : Stage} {write : Option (String × ServerWrite)}
      (found : c.followTaps[n]? = some tap)
      (followed : ∀ w ∈ write, ∃ whole, w = (tap.accountUserID, .follow tap.accountUserID (tap.call.write whole))) :
      Handled currentUser fs c (.follow e)
        { c with followTaps := c.followTaps.set n { tap with call := { tap.call with stage } } } write
  | completed {n : Nat} {tap : FollowTap} {whole : Bool} {header : UserProfileHeader}
      (found : c.followTaps[n]? = some tap) (listed : c.headers[tap.call.closure]? = some header) :
      Handled currentUser fs c (.follow (.acknowledge n))
        { c with
          followTaps := c.followTaps.set n { tap with call := { tap.call with stage := .finished true } }
          headers := c.headers.set tap.call.closure (tap.call.completion whole header) } none

theorem followStep_ok {currentUser : Option String} {fs : Firestore} {c c' : UserProfileController} {e : CallEvent}
    {write : Option (String × ServerWrite)} (h : c.followStep fs e = some (c', write)) :
    Handled currentUser fs c (.follow e) c' write := by
  cases e with
  | read n ok =>
    obtain ⟨tap, found, h⟩ := Option.bind_eq_some_iff.mp h
    obtain ⟨call, answered, same⟩ := Option.bind_eq_some_iff.mp h
    obtain ⟨rfl, rfl⟩ := Prod.mk.inj (Option.some.inj same)
    obtain ⟨_, rfl⟩ := Call.answer_same answered
    exact .moved found (by simp)
  | write n ok =>
    obtain ⟨tap, found, h⟩ := Option.bind_eq_some_iff.mp h
    split at h
    · obtain ⟨rfl, rfl⟩ := Prod.mk.inj (Option.some.inj h)
      refine .moved found fun w hw => ?_
      split at hw
      · exact ⟨_, (Option.some.inj hw).symm⟩
      · cases hw
    · cases h
  | acknowledge n =>
    obtain ⟨tap, found, h⟩ := Option.bind_eq_some_iff.mp h
    obtain ⟨call, acknowledged, h⟩ := Option.bind_eq_some_iff.mp h
    obtain ⟨whole, ok, written, rfl⟩ := Call.acknowledge_same acknowledged
    dsimp only at h
    split at h
    · rename_i completed listed
      obtain ⟨rfl, rfl⟩ := Prod.mk.inj (Option.some.inj h)
      obtain ⟨rfl, rfl⟩ := Stage.written.inj (written.symm.trans completed)
      exact .completed found listed
    · obtain ⟨rfl, rfl⟩ := Prod.mk.inj (Option.some.inj h)
      exact .moved found (by simp)

theorem handle_ok {currentUser : Option String} {fs : Firestore} {c c' : UserProfileController} {e : ProfileEvent}
    {write : Option (String × ServerWrite)} (h : c.handle currentUser fs e = some (c', write)) :
    Handled currentUser fs c e c' write := by
  obtain ⟨_, h⟩ := Option.ite_none_left_eq_some.mp h
  cases e with
  | userLookup ok =>
    obtain ⟨uID, waits, same⟩ := Option.bind_eq_some_iff.mp h
    obtain ⟨rfl, rfl⟩ := Prod.mk.inj (Option.some.inj same)
    cases ok with
    | true => exact .userFound waits
    | false => exact .userFails waits
  | photoSnapshot l n now =>
    obtain ⟨⟨listener, listeners⟩, delivered, same⟩ := Option.bind_eq_some_iff.mp h
    obtain ⟨rfl, rfl⟩ := Prod.mk.inj (Option.some.inj same)
    exact .photoSnapshot delivered
  | photoFails l =>
    obtain ⟨rfl, rfl⟩ := Prod.mk.inj (Option.some.inj h)
    exact .photoFails
  | configure place =>
    obtain ⟨rfl, rfl⟩ := Prod.mk.inj (Option.some.inj h)
    exact .configure
  | followRead n ok =>
    obtain ⟨r, found, same⟩ := Option.bind_eq_some_iff.mp h
    obtain ⟨rfl, rfl⟩ := Prod.mk.inj (Option.some.inj same)
    cases ok with
    | true => exact .followRead found
    | false => exact .followReadFails found
  | tap place =>
    obtain ⟨header, listed, h⟩ := Option.bind_eq_some_iff.mp h
    obtain ⟨accountUserID, signedIn, h⟩ := Option.bind_eq_some_iff.mp h
    obtain ⟨call, called, same⟩ := Option.bind_eq_some_iff.mp h
    obtain ⟨rfl, rfl⟩ := Prod.mk.inj (Option.some.inj same)
    exact .tap listed signedIn called
  | follow e => exact followStep_ok h

/-- A profile screen writes nothing but follows. -/
theorem Handled.write_follow {currentUser : Option String} {fs : Firestore} {c c' : UserProfileController}
    {e : ProfileEvent} {write : Option (String × ServerWrite)} (h : Handled currentUser fs c e c' write) :
    write = none ∨ ∃ sender accountUserID w, write = some (sender, .follow accountUserID w) := by
  cases h with
  | @moved e n tap stage write found followed =>
    cases write with
    | none => exact .inl rfl
    | some w =>
      obtain ⟨whole, rfl⟩ := followed w rfl
      exact .inr ⟨_, _, _, rfl⟩
  | _ => exact .inl rfl

end UserProfileController
end Foti
