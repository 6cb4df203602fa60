import Foti.Model
import Foti.Library.ReadChooseWrite

/-! `UserProfileHeader`: one button serves as Edit Profile, Follow and Unfollow. Its title is set by
callbacks and decides what the next tap does. -/

namespace Foti
open Document

inductive Title where
  | follow
  | unfollow
  | editProfile
  deriving DecidableEq, Repr

/-- `crashed` records the trap of `data as! Int`. -/
structure UserProfileHeader where
  validUser : Option User := none
  title : Option Title := none
  crashed : Bool := false
  deriving DecidableEq, Repr

namespace UserProfileHeader

/-- `followButton` up to its read: another user's profile asks for the account's `Follows` document. -/
def followButton (h : UserProfileHeader) (currentUser : Option String) :
    UserProfileHeader × Option String :=
  match currentUser, h.validUser with
  | some accountUserID, some user =>
      if accountUserID ≠ user.userID then (h, some user.userID)
      else ({ h with title := some .editProfile }, none)
  | _, _ => (h, none)

/-- `validUser`'s observer -/
def setValidUser (h : UserProfileHeader) (currentUser : Option String) (user : Option User) :
    UserProfileHeader × Option String :=
  { h with validUser := user }.followButton currentUser

/-- The callback of `followButton`'s read. A missing document leaves the title as it is. -/
def followData (h : UserProfileHeader) (validUserID : String) (data : Option Dict) : UserProfileHeader :=
  match data with
  | none => h
  | some followDatas =>
      match followDatas.lookup validUserID with
      | some (.int follow) => if follow = 1 then { h with title := some .unfollow } else h
      | some _ => { h with crashed := true }
      | none => { h with title := some .follow }

theorem setValidUser_same (currentUser : Option String) (h : UserProfileHeader) (user : Option User) :
    (h.setValidUser currentUser user).1.validUser = user ∧
      (h.setValidUser currentUser user).1.crashed = h.crashed := by
  unfold setValidUser followButton
  split
  · split <;> exact ⟨rfl, rfl⟩
  · exact ⟨rfl, rfl⟩

theorem followData_user (h : UserProfileHeader) (validUserID : String) (data : Option Dict) :
    (h.followData validUserID data).validUser = h.validUser := by
  unfold followData
  split
  · rfl
  · split
    · split <;> rfl
    · rfl
    · rfl

end UserProfileHeader

/-- A follow or unfollow captures the header whose title it sets, here by its place. -/
abbrev FollowCall := Call String Value Nat

/-- `btnProfile_Follow_Edit` up to its first request: an unfollow merges at once, a follow reads first. -/
def btnProfile_Follow_Edit (h : UserProfileHeader) (place : Nat) (currentUser : Option String) :
    Option FollowCall := do
  let _ ← currentUser
  let user ← h.validUser
  if h.title = some .unfollow then
    return { key := user.userID, value := none, closure := place, stage := .writing false }
  else
    return { key := user.userID, value := some (.int 1), closure := place, stage := .reading }

/-- The success branch of the three writes. The `setData` of a first follow sets no title. -/
def FollowCall.completion (c : FollowCall) (whole : Bool) (h : UserProfileHeader) : UserProfileHeader :=
  match c.value, whole with
  | none, _ => { h with title := some .follow }
  | some _, false => { h with title := some .unfollow }
  | some _, true => h

theorem btnProfile_Follow_Edit_ok {h : UserProfileHeader} {place : Nat} {currentUser : Option String}
    {c : FollowCall} (call : btnProfile_Follow_Edit h place currentUser = some c) :
    ∃ user, h.validUser = some user ∧ c.key = user.userID ∧ c.closure = place ∧ c.Starts ∧
      (c.value = none ∨ c.value = some (.int 1)) := by
  simp only [btnProfile_Follow_Edit, Option.bind_eq_bind, Option.bind_eq_some_iff, Option.pure_def] at call
  obtain ⟨_, _, user, shown, call⟩ := call
  refine ⟨user, shown, ?_⟩
  split at call <;> obtain rfl := Option.some.inj call <;> simp [Call.Starts]

end Foti
