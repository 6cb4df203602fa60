import Foti.Model
import Foti.Library.ReadChooseWrite

/-! `MainController.postLiked`: a like reads the post's `Likes` document, writes one field of it and,
when the write succeeds, puts its own copy of the post back at the row of the tap. -/

namespace Foti
open Document

/-- What the callbacks of `postLiked` capture at the tap. -/
structure LikeClosure where
  row : Nat
  post : Post
  postID : String
  deriving DecidableEq, Repr

abbrev LikeCall := Call String Value LikeClosure

/-- `postLiked` up to its read. The dictionary `addValue` has the one field `validUserID`. -/
def postLiked (posts : List Post) (row : Nat) (currentUser : Option String) : Option LikeCall := do
  let post ← posts[row]?
  let postID ← post.id
  let validUserID ← currentUser
  let addValue : Value := .int (if post.liked then 0 else 1)
  return { key := validUserID, value := some addValue, closure := ⟨row, post, postID⟩, stage := .reading }

/-- The success branch of either write. `none` is the trap of an index that is out of range. -/
def LikeCall.completion (c : LikeCall) (posts : List Post) : Option (List Post) :=
  let post := { c.closure.post with liked := !c.closure.post.liked }
  if c.closure.row < posts.length then some (posts.set c.closure.row post) else none

theorem postLiked_ok {posts : List Post} {row : Nat} {currentUser : Option String} {c : LikeCall}
    (h : postLiked posts row currentUser = some c) :
    ∃ post postID validUserID, posts[row]? = some post ∧ post.id = some postID ∧
      currentUser = some validUserID ∧
      c = ⟨validUserID, some (.int (if post.liked then 0 else 1)), ⟨row, post, postID⟩, .reading⟩ := by
  simp only [postLiked, Option.bind_eq_bind, Option.bind_eq_some_iff, Option.pure_def] at h
  obtain ⟨post, found, postID, hasID, validUserID, signedIn, same⟩ := h
  exact ⟨post, postID, validUserID, found, hasID, signedIn, (Option.some.inj same).symm⟩

end Foti
