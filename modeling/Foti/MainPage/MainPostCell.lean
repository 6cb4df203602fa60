import Foti.Extension.Date
import Foti.Model

/-!
`MainPostCell`, which draws one post in the feed and in a profile's list view. `URL` and `url` stand
for Foundation's `URL` and its failable `URL(string:)`.
-/

namespace Foti
variable {URL : Type*}

/-- The images `Like_Not_Selected` and `Like_Selected`. -/
inductive LikeImage where
  | notSelected
  | selected
  deriving DecidableEq, Repr

inductive TextStyle where
  | bold
  | plain
  | gray
  deriving DecidableEq, Repr

structure MainPostCell (URL : Type*) where
  post : Option Post := none
  imgPostPhoto : Option URL := none
  lblUserName : Option String := some "Username "
  imgUserProfilePhoto : Option URL := none
  lblPostMessage : List (String × TextStyle) := []
  btnLike : LikeImage := .notSelected

namespace MainPostCell

def attrPostMessage (cell : MainPostCell URL) (now : Timestamp) : MainPostCell URL :=
  match cell.post with
  | none => cell
  | some post =>
      { cell with lblPostMessage :=
          [(post.user.userName ++ " ", .bold), (post.message.getD "No Data", .plain), ("\n\n", .plain),
            (timeBefore now post.postDate, .gray)] }

/-- `post`'s observer, with a return at each photo that has no URL. -/
def didSet (url : String → Option URL) (now : Timestamp) (cell : MainPostCell URL) (post : Option Post) :
    MainPostCell URL :=
  let cell := { cell with post }
  match (post.bind (·.postImageURL)).bind url with
  | none => cell
  | some imageURL =>
      let cell := { cell with imgPostPhoto := some imageURL, lblUserName := post.map (·.user.userName) }
      match (post.map (·.user.profilePhotoURL)).bind url with
      | none => cell
      | some profileImageURL =>
          let cell := { cell with imgUserProfilePhoto := some profileImageURL }.attrPostMessage now
          { cell with btnLike := if post.map (·.liked) = some true then .selected else .notSelected }

end MainPostCell
end Foti
