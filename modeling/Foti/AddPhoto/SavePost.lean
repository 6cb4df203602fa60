import Foti.Firestore.Value
import Mathlib.Data.List.TakeWhile

/-! `SharePhotoController.savePostFS`: the checks before a post is saved, and the data it is saved with. -/

namespace Foti

/-- A photo with the bit patterns of its size. -/
structure Photo where
  width : UInt64
  height : UInt64
  deriving DecidableEq, Repr

/-- What `savePostFS` writes, besides the author that is also in its path. -/
structure PostData where
  imageURL : String
  message : String
  photo : Photo
  date : Timestamp
  deriving DecidableEq, Repr

def PostData.addData (p : PostData) (validUserID : String) : Dict :=
  dict [("UserID", .string validUserID), ("PostImageURL", .string p.imageURL), ("Message", .string p.message),
    ("ImageWidth", .double p.photo.width), ("ImageHeight", .double p.photo.height),
    ("PostDate", .timestamp p.date)]

/-- `CharacterSet.whitespacesAndNewlines`: the separators, tab and the newlines. -/
def whitespacesAndNewlines (c : Char) : Bool :=
  let n := c.toNat
  (9 ≤ n && n ≤ 13) || n == 0x20 || n == 0x85 || n == 0xA0 || n == 0x1680 || (0x2000 ≤ n && n ≤ 0x200A) ||
    n == 0x2028 || n == 0x2029 || n == 0x202F || n == 0x205F || n == 0x3000

def trimmingCharacters (p : Char → Bool) (s : List Char) : List Char :=
  ((s.dropWhile p).reverse.dropWhile p).reverse

/-- `savePostFS` up to `addDocument`: the author and the data. -/
def savePostFS (chosenPhoto : Option Photo) (txtMessage currentUser : Option String) (imageURL : String)
    (now : Timestamp) : Option (String × PostData) := do
  let photo ← chosenPhoto
  let message ← txtMessage
  if (trimmingCharacters whitespacesAndNewlines message.toList).length > 0 then
    let validUserID ← currentUser
    return (validUserID, { imageURL, message, photo, date := now })
  else none

def NonBlank (message : String) : Prop := ∃ c ∈ message.toList, whitespacesAndNewlines c = false

theorem trimmed_nonempty {p : Char → Bool} {s : List Char} (h : (trimmingCharacters p s).length > 0) :
    ∃ c ∈ s, p c = false := by
  by_contra none
  have all : ∀ c ∈ s, p c = true := by
    intro c hc
    cases hp : p c with
    | true => rfl
    | false => exact (none ⟨c, hc, hp⟩).elim
  have dropped : s.dropWhile p = [] := List.dropWhile_eq_nil_iff.mpr all
  rw [trimmingCharacters, dropped] at h
  cases h

theorem mem_dropWhile_of_not {p : Char → Bool} {s : List Char} {c : Char} (hc : c ∈ s) (kept : p c = false) :
    c ∈ s.dropWhile p := by
  induction s with
  | nil => cases hc
  | cons d rest ih =>
    rw [List.dropWhile_cons]
    split
    · rename_i dropped
      refine ih ((List.mem_cons.mp hc).resolve_left ?_)
      rintro rfl
      rw [kept] at dropped
      cases dropped
    · exact hc

theorem trimmed_nonempty_iff {p : Char → Bool} {s : List Char} :
    (trimmingCharacters p s).length > 0 ↔ ∃ c ∈ s, p c = false := by
  refine ⟨trimmed_nonempty, ?_⟩
  rintro ⟨c, hc, kept⟩
  have left := mem_dropWhile_of_not hc kept
  have right := mem_dropWhile_of_not (List.mem_reverse.mpr left) kept
  exact List.length_pos_of_mem (List.mem_reverse.mpr right)

/-- A post is saved exactly when there is a photo, a message that is not blank, and an account. -/
theorem savePostFS_isSome (chosenPhoto : Option Photo) (message : String) (currentUser : Option String) (imageURL : String)
    (now : Timestamp) :
    (savePostFS chosenPhoto (some message) currentUser imageURL now).isSome ↔
      chosenPhoto.isSome ∧ NonBlank message ∧ currentUser.isSome := by
  unfold savePostFS NonBlank
  rw [← trimmed_nonempty_iff]
  cases chosenPhoto with
  | none => simp
  | some photo =>
    cases currentUser with
    | none => simp
    | some validUserID => simp

theorem savePostFS_ok {chosenPhoto : Option Photo} {txtMessage currentUser : Option String} {imageURL : String}
    {now : Timestamp} {validUserID : String} {p : PostData}
    (h : savePostFS chosenPhoto txtMessage currentUser imageURL now = some (validUserID, p)) :
    currentUser = some validUserID ∧ NonBlank p.message ∧ p.imageURL = imageURL ∧ p.date = now := by
  simp only [savePostFS, Option.bind_eq_bind, Option.bind_eq_some_iff, Option.pure_def,
    Option.ite_none_right_eq_some, Option.some.injEq, Prod.mk.injEq] at h
  obtain ⟨photo, _, message, _, trimmed, uid, signedIn, rfl, rfl⟩ := h
  exact ⟨signedIn, trimmed_nonempty trimmed, rfl, rfl⟩

theorem addData_lookup (p : PostData) (validUserID : String) :
    (p.addData validUserID).lookup "UserID" = some (.string validUserID) ∧
    (p.addData validUserID).lookup "Message" = some (.string p.message) ∧
    (p.addData validUserID).lookup "PostDate" = some (.timestamp p.date) := by
  refine ⟨dict_lookup_head _ _ _, ?_, ?_⟩
  · rw [PostData.addData, dict_lookup_tail _ _ (by decide), dict_lookup_tail _ _ (by decide), dict_lookup_head]
  · rw [PostData.addData]
    iterate 5 rw [dict_lookup_tail _ _ (by decide)]
    exact dict_lookup_head _ _ _

end Foti
