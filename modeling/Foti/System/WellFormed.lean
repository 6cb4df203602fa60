import Foti.Firestore.Store
import Foti.MainPage.Likes

/-! The form of the shared store, and why every write of the program keeps it. -/

namespace Foti
open Document

/-- A stored post names its author, has a date, and a message that is not blank. -/
def PostForm (author : String) (data : Dict) : Prop :=
  asString (data.lookup "UserID") = some author ∧ (∃ t, data.lookup "PostDate" = some (.timestamp t)) ∧
    ∃ message, data.lookup "Message" = some (.string message) ∧ NonBlank message

def CommentForm (author : String) (data : Dict) : Prop :=
  asString (data.lookup "UserID") = some author ∧
    ∃ message, data.lookup "commentMessage" = some (.string message) ∧ message ≠ ""

/-- The form of the store, where `issuers` has the account that issued each document's write. -/
structure WellFormed (fs : Firestore) (issuers : List (String × String)) : Prop where
  users : ∀ u data, fs.users u = some data → asString (data.lookup "UserID") = some u
  posts : ∀ u, ∀ d ∈ fs.photoPosts u, PostForm u d.2 ∧ (d.1, u) ∈ issuers
  likes : ∀ postID uid v, value (fs.likes postID) uid = some v → v = .int 0 ∨ v = .int 1
  follows : ∀ account key v, value (fs.follows account) key = some v → v = .int 1 ∧ (fs.users key).isSome
  comments : ∀ postID, ∀ d ∈ fs.addingComments postID, ∃ sender, CommentForm sender d.2 ∧ sender ≠ "" ∧
    (d.1, sender) ∈ issuers

/-- What the program's handlers see to before they write. -/
def Checked (fs : Firestore) (sender : String) : ServerWrite → Prop
  | .user _ _ _ => True
  | .photoPost author _ data => author = sender ∧ NonBlank data.message
  | .comment _ data => data.userID = sender ∧ sender ≠ "" ∧ data.message ≠ ""
  | .like _ w => Likes.LikeValue w.value
  | .follow _ w => w.value = none ∨ w.value = some (.int 1) ∧ (fs.users w.key).isSome

/-- Documents stay, and so do users. -/
structure Grows (fs fs' : Firestore) : Prop where
  users : ∀ u, (fs.users u).isSome → (fs'.users u).isSome
  posts : ∀ u, ∀ d ∈ fs.photoPosts u, d ∈ fs'.photoPosts u
  comments : ∀ postID, ∀ d ∈ fs.addingComments postID, d ∈ fs'.addingComments postID

/-- What is read of the follows has only ones too. -/
structure Sees (seen fs : Firestore) : Prop extends seen.Reads fs where
  follows : ∀ account key v, value (seen.follows account) key = some v → v = .int 1

theorem WellFormed.sees {fs : Firestore} {issuers : List (String × String)} (h : WellFormed fs issuers) : Sees fs fs :=
  ⟨.refl fs, fun account key v held => (h.follows account key v held).1⟩

section
variable {fs fs' : Firestore} {w : ServerWrite}

theorem comments_mem {documentID : String} {data : CommentData}
    (h : Firestore.Applied fs (.comment documentID data) fs') (postID : String) (d : String × Dict) :
    d ∈ fs'.addingComments postID ↔
      d ∈ fs.addingComments postID ∨ postID = data.postID ∧ d = (documentID, data.addingValue) := by
  cases h
  by_cases same : postID = data.postID
  · subst same
    simp
  · simp [same]

theorem applied_grows (h : Firestore.Applied fs w fs') : Grows fs fs' := by
  cases h with
  | @user uid =>
    refine ⟨fun u present => ?_, fun _ _ h => h, fun _ _ h => h⟩
    by_cases written : u = uid
    · subst written
      simp
    · simpa [written] using present
  | photoPost fresh =>
    exact ⟨fun _ h => h, fun u d hd => ((Firestore.Applied.photoPost fresh).photoPosts_mem u d).mpr (.inl hd),
      fun _ _ h => h⟩
  | comment fresh =>
    exact ⟨fun _ h => h, fun _ _ h => h, fun p d hd => (comments_mem (.comment fresh) p d).mpr (.inl hd)⟩
  | _ => exact ⟨fun _ h => h, fun _ _ h => h, fun _ _ h => h⟩

theorem written_values {P : String → Value → Prop} {write : Write String Value} {d t : Doc String Value}
    (applied : write.apply d = some t) (h : ∀ key v, value d key = some v → P key v)
    (new : ∀ v, write.value = some v → P write.key v) : ∀ key v, value t key = some v → P key v := by
  intro key v held
  by_cases same : key = write.key
  · subst same
    rw [apply_value_same applied] at held
    exact new v held
  · rw [apply_value_other applied same] at held
    split at held
    · cases held
    · exact h key v held

theorem grown_follows {issuers : List (String × String)} (h : WellFormed fs issuers) (grows : Grows fs fs') (account : String) :
    ∀ key v, value (fs.follows account) key = some v → v = .int 1 ∧ (fs'.users key).isSome :=
  fun key v held => (h.follows account key v held).imp_right (grows.users key)

theorem user_wellFormed {issuers : List (String × String)} (h : WellFormed fs issuers) (grows : Grows fs fs')
    (users : ∀ u data, fs'.users u = some data → fs.users u = some data ∨ asString (data.lookup "UserID") = some u)
    (same : fs' = { fs with users := fs'.users }) : WellFormed fs' issuers := by
  refine ⟨fun u data found => ?_, ?_, ?_, ?_, ?_⟩
  · rcases users u data found with old | new
    · exact h.users u data old
    · exact new
  · exact same ▸ h.posts
  · exact same ▸ h.likes
  · intro account key v held
    rw [same] at held
    exact grown_follows h grows account key v held
  · exact same ▸ h.comments

theorem written_wellFormed {issuers : List (String × String)} {sender : String} (h : WellFormed fs issuers)
    (checked : Checked fs sender w) (applied : Firestore.Applied fs w fs') :
    WellFormed fs' (w.issued sender ++ issuers) := by
  cases applied with
  | @user uid userName url =>
    refine user_wellFormed h (applied_grows .user) (fun u data found => ?_) rfl
    rcases Entries.update_cases found with ⟨rfl, rfl⟩ | ⟨_, old⟩
    · exact .inr (SignUpAttempt.addData_userID ..)
    · exact .inl old
  | @photoPost author documentID data fresh =>
    obtain ⟨rfl, nonBlank⟩ := checked
    obtain ⟨userID, message, postDate⟩ := addData_lookup data author
    refine ⟨h.users, fun u d hd => ?_, h.likes, h.follows, fun p d hd => ?_⟩
    · rcases ((Firestore.Applied.photoPost fresh).photoPosts_mem u d).mp hd with old | ⟨rfl, rfl⟩
      · exact (h.posts u d old).imp_right (List.mem_append_right _)
      · exact ⟨⟨by rw [userID, asString_string], ⟨_, postDate⟩, _, message, nonBlank⟩, List.mem_cons_self⟩
    · obtain ⟨sender, form, nonempty, issued⟩ := h.comments p d hd
      exact ⟨sender, form, nonempty, List.mem_append_right _ issued⟩
  | @comment documentID data fresh =>
    obtain ⟨rfl, nonempty, message⟩ := checked
    obtain ⟨commentMessage, userID⟩ := addingValue_lookup data
    refine ⟨h.users, fun u d hd => (h.posts u d hd).imp_right (List.mem_append_right _), h.likes, h.follows,
      fun p d hd => ?_⟩
    rcases (comments_mem (.comment fresh) p d).mp hd with old | ⟨rfl, rfl⟩
    · obtain ⟨sender, form, nonempty, issued⟩ := h.comments p d old
      exact ⟨sender, form, nonempty, List.mem_append_right _ issued⟩
    · exact ⟨_, ⟨by rw [userID, asString_string], _, commentMessage, message⟩, nonempty, List.mem_cons_self⟩
  | @like postID write d written =>
    refine ⟨h.users, h.posts, fun p => ?_, h.follows, h.comments⟩
    by_cases same : p = postID
    · subst same
      simp only [Function.update_self]
      refine written_values (P := fun _ v => v = .int 0 ∨ v = .int 1) written (h.likes p) fun v new => ?_
      exact checked.imp (fun zero => Option.some.inj (new.symm.trans zero)) fun one => Option.some.inj (new.symm.trans one)
    · simpa only [Function.update_of_ne same] using h.likes p
  | @follow accountUserID write d written =>
    refine ⟨h.users, h.posts, h.likes, fun account => ?_, h.comments⟩
    by_cases same : account = accountUserID
    · subst same
      simp only [Function.update_self]
      refine written_values (P := fun key v => v = .int 1 ∧ (fs.users key).isSome) written (h.follows account)
        fun v new => ?_
      rcases checked with deleted | ⟨one, present⟩
      · rw [deleted] at new
        cases new
      · exact ⟨Option.some.inj (new.symm.trans one), present⟩
    · simpa only [Function.update_of_ne same] using h.follows account

end
end Foti
