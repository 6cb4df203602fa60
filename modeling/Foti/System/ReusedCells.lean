import Foti.Library.Reuse
import Foti.MainPage.CellReuse

/-!
The cells that draw posts, users and comments, and the photo and name of a profile's header.
`SearchUserCell` and `UserPostPhotoCell` keep an earlier photo when theirs has no URL, like `MainPostCell`; a
`CommentCell` does not.
-/

namespace Foti
open Reuse
variable {URL : Type*} (url : String → Option URL)

structure SearchUserCell (URL : Type*) where
  user : Option User := none
  lblUserName : Option String := some "Username"
  imgUserProfile : Option URL := none

structure UserPostPhotoCell (URL : Type*) where
  post : Option Post := none
  imgPhotoPost : Option URL := none

structure CommentCell (URL : Type*) where
  comment : Option Comment := none
  imgUserProfile : Option URL := none
  lblComment : List (String × TextStyle) := []

/-- The photo and the name that a `UserProfileHeader` shows. Its button is that of the model of the header. -/
structure HeaderLabels (URL : Type*) where
  validUser : Option User := none
  imgProfilePhoto : Option URL := none
  labelUsername : Option String := some "Username"

namespace SearchUserCell

def didSet (cell : SearchUserCell URL) (user : Option User) : SearchUserCell URL :=
  let cell := { cell with user, lblUserName := user.map (·.userName) }
  match url ((user.map (·.profilePhotoURL)).getD "") with
  | none => cell
  | some photo => { cell with imgUserProfile := some photo }

theorem didSet_photo (cell : SearchUserCell URL) (user : Option User) : cell.didSet url user =
    ⟨user, user.map (·.userName), (url ((user.map (·.profilePhotoURL)).getD "")).or cell.imgUserProfile⟩ := by
  unfold didSet
  dsimp only
  split
  · rename_i missing
    rw [missing, Option.none_or]
  · rename_i photo found
    rw [found, Option.some_or]

/-- A reused row shows somebody else's photo exactly when its user has none and an earlier one has. -/
theorem row_reused_iff (earlier : List User) (user : User) :
    assign (fun cell user => didSet url cell (some user)) {} (earlier ++ [user]) =
        assign (fun cell user => didSet url cell (some user)) {} [user] ↔
      (url user.profilePhotoURL).isSome ∨ ∀ p ∈ earlier, url p.profilePhotoURL = none := by
  refine part_reused_iff imgUserProfile (fun user => url user.profilePhotoURL) (fun cell user => ?_)
    (fun cell cell' user same => ?_) {} rfl earlier user
  · rw [didSet_photo]
    rfl
  · simp only [didSet_photo] at same ⊢
    rw [same]

end SearchUserCell

namespace UserPostPhotoCell

def didSet (cell : UserPostPhotoCell URL) (post : Option Post) : UserPostPhotoCell URL :=
  let cell := { cell with post }
  match url ((post.bind (·.postImageURL)).getD "") with
  | none => cell
  | some photo => { cell with imgPhotoPost := some photo }

theorem didSet_photo (cell : UserPostPhotoCell URL) (post : Option Post) : cell.didSet url post =
    ⟨post, (url ((post.bind (·.postImageURL)).getD "")).or cell.imgPhotoPost⟩ := by
  unfold didSet
  dsimp only
  split
  · rename_i missing
    rw [missing, Option.none_or]
  · rename_i photo found
    rw [found, Option.some_or]

theorem thumbnail_reused_iff (earlier : List Post) (post : Post) :
    assign (fun cell post => didSet url cell (some post)) {} (earlier ++ [post]) =
        assign (fun cell post => didSet url cell (some post)) {} [post] ↔
      (url (post.postImageURL.getD "")).isSome ∨ ∀ p ∈ earlier, url (p.postImageURL.getD "") = none := by
  refine part_reused_iff imgPhotoPost (fun post => url (post.postImageURL.getD "")) (fun cell post => ?_)
    (fun cell cell' post same => ?_) {} rfl earlier post
  · rw [didSet_photo]
    rfl
  · simp only [didSet_photo] at same ⊢
    rw [same]

end UserPostPhotoCell

namespace CommentCell

/-- `sd_setImage` without a URL clears the image. -/
def didSet (cell : CommentCell URL) (comment : Option Comment) : CommentCell URL :=
  match comment with
  | none => { cell with comment }
  | some x =>
      { comment
        imgUserProfile := url x.user.profilePhotoURL
        lblComment := [(x.user.userName, .bold), (" " ++ x.commentMessage, .plain)] }

theorem overwrites (comment : Comment) : Overwrites (fun cell x => didSet url cell (some x)) comment := fun _ _ => rfl

end CommentCell

namespace HeaderLabels

def didSet (labels : HeaderLabels URL) (validUser : Option User) : HeaderLabels URL :=
  let labels := { labels with validUser }
  match url ((validUser.map (·.profilePhotoURL)).getD "") with
  | none => labels
  | some photo => { labels with imgProfilePhoto := some photo, labelUsername := validUser.map (·.userName) }

theorem overwrites {user : User} (photo : (url user.profilePhotoURL).isSome) : Overwrites (didSet url) (some user) := by
  obtain ⟨photo, found⟩ := Option.isSome_iff_exists.mp photo
  have shown : ∀ labels : HeaderLabels URL,
      labels.didSet url (some user) = ⟨some user, some photo, some user.userName⟩ := by
    intro labels
    simp only [didSet, Option.map_some, Option.getD_some, found]
  exact fun labels labels' => (shown labels).trans (shown labels').symm

end HeaderLabels

theorem MainPostCell.overwrites {post : Post} (complete : MainPostCell.Complete url post) (now : Timestamp) :
    Overwrites (fun cell (p : Timestamp × Post) => MainPostCell.didSet url p.1 cell (some p.2)) (now, post) :=
  fun _ _ => (MainPostCell.didSet_complete complete).1.trans (MainPostCell.didSet_complete complete).1.symm

end Foti
