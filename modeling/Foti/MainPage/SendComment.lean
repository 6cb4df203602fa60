import Foti.Firestore.Value

/-! `CommentController.btnSendCommentPressed`: the check before a comment is sent, and its data. -/

namespace Foti

/-- A comment under its post. `date` is the bit pattern of the seconds since the reference date. -/
structure CommentData where
  postID : String
  message : String
  date : UInt64
  userID : String
  deriving DecidableEq, Repr

def CommentData.addingValue (c : CommentData) : Dict :=
  dict [("commentMessage", .string c.message), ("Comment_Date", .double c.date), ("UserID", .string c.userID)]

/-- Only an empty text returns; a missing text would be sent as the empty message. -/
def btnSendCommentPressed (txtComment currentUser chosenPostID : Option String) (now : UInt64) :
    Option CommentData := do
  if txtComment = some "" then none else
  let validUserID ← currentUser
  let postID := chosenPostID.getD ""
  return { postID, message := txtComment.getD "", date := now, userID := validUserID }

theorem btnSendCommentPressed_ok {text : String} {currentUser chosenPostID : Option String} {now : UInt64}
    {c : CommentData} (h : btnSendCommentPressed (some text) currentUser chosenPostID now = some c) :
    c.message = text ∧ text ≠ "" ∧ currentUser = some c.userID ∧ c.postID = chosenPostID.getD "" := by
  simp only [btnSendCommentPressed, Option.some.injEq] at h
  split at h
  · cases h
  · rename_i nonempty
    simp only [Option.bind_eq_bind, Option.bind_eq_some_iff, Option.pure_def, Option.some.injEq] at h
    obtain ⟨uid, signedIn, rfl⟩ := h
    exact ⟨rfl, nonempty, signedIn, rfl⟩

theorem addingValue_lookup (c : CommentData) :
    c.addingValue.lookup "commentMessage" = some (.string c.message) ∧
    c.addingValue.lookup "UserID" = some (.string c.userID) := by
  refine ⟨dict_lookup_head _ _ _, ?_⟩
  rw [CommentData.addingValue, dict_lookup_tail _ _ (by decide), dict_lookup_tail _ _ (by decide),
    dict_lookup_head]

end Foti
