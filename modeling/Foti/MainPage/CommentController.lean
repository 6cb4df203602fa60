import Foti.Library.Listener
import Foti.Firestore.Store
import Foti.Model

/-! `CommentController`: the comments of one post, each shown when its author has been looked up, and
the sends of new ones. -/

namespace Foti
open Listening

inductive SendStage where
  | writing
  | written (ok : Bool)
  | finished (ok : Bool)
  deriving DecidableEq, Repr

/-- A send and the account that was signed in at its tap. -/
structure CommentSend where
  sender : String
  data : CommentData
  stage : SendStage
  deriving DecidableEq, Repr

structure CommentLookup where
  uID : String
  dictionaryData : Dict
  deriving DecidableEq

abbrev CommentsListener := Listener String Unit (String × Dict)

structure CommentController where
  chosenPost : Option Post
  txtComment : String := ""
  comments : List Comment := []
  listeners : List CommentsListener := []
  lookups : List CommentLookup := []
  sends : List CommentSend := []
  crashed : Bool := false

inductive CommentEvent where
  | edit (text : String)
  | send (now : UInt64)
  | write (n : Nat) (documentID : String) (ok : Bool)
  | acknowledge (n : Nat)
  | snapshot (l n : Nat)
  | snapshotFails (l : Nat)
  | userLookup (n : Nat) (ok : Bool)
  deriving DecidableEq

namespace CommentController

/-- `getComments` of a fresh screen. A document path with an empty component traps. -/
def viewDidLoad (chosenPost : Option Post) (fs : Firestore) : CommentController :=
  match chosenPost.bind (·.id) with
  | none => { chosenPost }
  | some postID =>
      let existing := fs.addingComments postID
      if postID = "" then { chosenPost, crashed := true }
      else { chosenPost, listeners := [⟨postID, (), existing.length, existing⟩] }

/-- The callback of a comments snapshot. -/
def commentsChanged (c : CommentController) (currentUser : Option String) (changes : List (String × Dict)) :
    CommentController :=
  let lookups := changes.filterMap fun d => do
    let userID ← asString (d.2.lookup "UserID")
    let uID ← createUser userID currentUser
    return { uID, dictionaryData := d.2 }
  { c with lookups := c.lookups ++ lookups }

def authorFound (c : CommentController) (lookup : CommentLookup) (userData : Option Dict) : CommentController :=
  match userData with
  | none => c
  | some userData => { c with comments := c.comments ++ [Comment.init (User.init userData) lookup.dictionaryData] }

/-- A tap on Send. The text of a text field is never nil. -/
def send (c : CommentController) (currentUser : Option String) (now : UInt64) : CommentController :=
  match currentUser, btnSendCommentPressed (some c.txtComment) currentUser (c.chosenPost.bind (·.id)) now with
  | some sender, some data =>
      if data.postID = "" then { c with crashed := true }
      else { c with sends := c.sends ++ [⟨sender, data, .writing⟩] }
  | _, _ => c

def handle (c : CommentController) (currentUser : Option String) (fs : Firestore) (e : CommentEvent) :
    Option (CommentController × Option (String × ServerWrite)) :=
  if c.crashed then none else
  match e with
  | .edit text => some ({ c with txtComment := text }, none)
  | .send now => some (c.send currentUser now, none)
  | .write n documentID ok => do
      let s ← c.sends[n]?
      if s.stage = .writing then
        some ({ c with sends := c.sends.set n { s with stage := .written ok } },
          if ok then some (s.sender, .comment documentID s.data) else none)
      else none
  | .acknowledge n => do
      let s ← c.sends[n]?
      match s.stage with
      | .written ok =>
          some ({ c with
            sends := c.sends.set n { s with stage := .finished ok }
            txtComment := if ok then "" else c.txtComment }, none)
      | _ => none
  | .snapshot l n => do
      let (listener, listeners) ← deliver c.listeners l n
      return ({ c with listeners }.commentsChanged currentUser (listener.pending.take n), none)
  | .snapshotFails l => some ({ c with listeners := c.listeners.eraseIdx l }, none)
  | .userLookup n ok => do
      let lookup ← c.lookups[n]?
      let c := { c with lookups := c.lookups.eraseIdx n }
      return (if ok then c.authorFound lookup (fs.users lookup.uID) else c, none)

def notify (c : CommentController) : ServerWrite → CommentController
  | .comment documentID data =>
      { c with listeners := publish data.postID (documentID, data.addingValue) c.listeners }
  | _ => c

/-- The outcomes of `handle`, one constructor for each branch. -/
inductive Handled (currentUser : Option String) (fs : Firestore) (c : CommentController) :
    CommentEvent → CommentController → Option (String × ServerWrite) → Prop where
  | edit {text : String} : Handled currentUser fs c (.edit text) { c with txtComment := text } none
  | send {now : UInt64} : Handled currentUser fs c (.send now) (c.send currentUser now) none
  | written {n : Nat} {documentID : String} {s : CommentSend} (found : c.sends[n]? = some s)
      (writing : s.stage = .writing) :
      Handled currentUser fs c (.write n documentID true)
        { c with sends := c.sends.set n { s with stage := .written true } } (some (s.sender, .comment documentID s.data))
  | refused {n : Nat} {documentID : String} {s : CommentSend} (found : c.sends[n]? = some s)
      (writing : s.stage = .writing) :
      Handled currentUser fs c (.write n documentID false)
        { c with sends := c.sends.set n { s with stage := .written false } } none
  | acknowledge {n : Nat} {s : CommentSend} {ok : Bool} (found : c.sends[n]? = some s) (written : s.stage = .written ok) :
      Handled currentUser fs c (.acknowledge n) { c with
        sends := c.sends.set n { s with stage := .finished ok }
        txtComment := if ok then "" else c.txtComment } none
  | snapshot {l n : Nat} {listener : CommentsListener} {listeners : List CommentsListener}
      (delivered : deliver c.listeners l n = some (listener, listeners)) :
      Handled currentUser fs c (.snapshot l n)
        ({ c with listeners }.commentsChanged currentUser (listener.pending.take n)) none
  | snapshotFails {l : Nat} : Handled currentUser fs c (.snapshotFails l)
      { c with listeners := c.listeners.eraseIdx l } none
  | userFound {n : Nat} {lookup : CommentLookup} (found : c.lookups[n]? = some lookup) :
      Handled currentUser fs c (.userLookup n true)
        ({ c with lookups := c.lookups.eraseIdx n }.authorFound lookup (fs.users lookup.uID)) none
  | userFails {n : Nat} {lookup : CommentLookup} (found : c.lookups[n]? = some lookup) :
      Handled currentUser fs c (.userLookup n false) { c with lookups := c.lookups.eraseIdx n } none

theorem handle_ok {currentUser : Option String} {fs : Firestore} {c c' : CommentController} {e : CommentEvent}
    {write : Option (String × ServerWrite)} (h : c.handle currentUser fs e = some (c', write)) :
    Handled currentUser fs c e c' write := by
  obtain ⟨_, h⟩ := Option.ite_none_left_eq_some.mp h
  cases e with
  | edit text =>
    obtain ⟨rfl, rfl⟩ := Prod.mk.inj (Option.some.inj h)
    exact .edit
  | send now =>
    obtain ⟨rfl, rfl⟩ := Prod.mk.inj (Option.some.inj h)
    exact .send
  | write n documentID ok =>
    obtain ⟨s, found, h⟩ := Option.bind_eq_some_iff.mp h
    obtain ⟨writing, same⟩ := Option.ite_none_right_eq_some.mp h
    obtain ⟨rfl, rfl⟩ := Prod.mk.inj (Option.some.inj same)
    cases ok with
    | true => exact .written found writing
    | false => exact .refused found writing
  | acknowledge n =>
    obtain ⟨s, found, h⟩ := Option.bind_eq_some_iff.mp h
    split at h
    · rename_i written
      obtain ⟨rfl, rfl⟩ := Prod.mk.inj (Option.some.inj h)
      exact .acknowledge found written
    · cases h
  | snapshot l n =>
    obtain ⟨⟨listener, listeners⟩, delivered, same⟩ := Option.bind_eq_some_iff.mp h
    obtain ⟨rfl, rfl⟩ := Prod.mk.inj (Option.some.inj same)
    exact .snapshot delivered
  | snapshotFails l =>
    obtain ⟨rfl, rfl⟩ := Prod.mk.inj (Option.some.inj h)
    exact .snapshotFails
  | userLookup n ok =>
    obtain ⟨lookup, found, same⟩ := Option.bind_eq_some_iff.mp h
    obtain ⟨rfl, rfl⟩ := Prod.mk.inj (Option.some.inj same)
    cases ok with
    | true => exact .userFound found
    | false => exact .userFails found

end CommentController
end Foti
