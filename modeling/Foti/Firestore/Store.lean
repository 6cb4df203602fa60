import Foti.Library.Entries
import Foti.Library.WriteLog
import Foti.Register.RegisterController
import Foti.AddPhoto.SavePost
import Foti.MainPage.SendComment
import Mathlib.Data.List.Nodup
import Mathlib.Data.List.Sort

/-! The shared store, and the writes with which the program changes it. -/

namespace Foti
open Document

/-- The collections of the store. `documentIDs` are the automatic document IDs handed out so far. -/
structure Firestore where
  users : String → Option Dict := fun _ => none
  photoPosts : String → List (String × Dict) := fun _ => []
  likes : String → Option Dict := fun _ => none
  follows : String → Option Dict := fun _ => none
  addingComments : String → List (String × Dict) := fun _ => []
  documentIDs : List String := []

def documentDate (d : String × Dict) : Timestamp := (asTimestamp (d.2.lookup "PostDate")).getD 0

/-- `order(by: "PostDate", descending: false)` -/
def orderedByPostDate (documents : List (String × Dict)) : List (String × Dict) :=
  documents.insertionSort fun d e => documentDate d ≤ documentDate e

theorem orderedByPostDate_perm (documents : List (String × Dict)) : (orderedByPostDate documents).Perm documents :=
  List.perm_insertionSort _ documents

@[simp] theorem mem_orderedByPostDate {documents : List (String × Dict)} {d : String × Dict} :
    d ∈ orderedByPostDate documents ↔ d ∈ documents := (orderedByPostDate_perm documents).mem_iff

/-- A write of the program: the `setData` of sign-up, the `addDocument` of a post, the `setData` of a
comment, and the one-field writes of likes and follows. -/
inductive ServerWrite where
  | user (uid userName : String) (url : Option String)
  | photoPost (validUserID documentID : String) (data : PostData)
  | comment (documentID : String) (data : CommentData)
  | like (postID : String) (w : Write String Value)
  | follow (accountUserID : String) (w : Write String Value)

def ServerWrite.issued (w : ServerWrite) (sender : String) : List (String × String) :=
  match w with
  | .photoPost _ documentID _ => [(documentID, sender)]
  | .comment documentID _ => [(documentID, sender)]
  | _ => []

namespace Firestore

/-- `none` is a write that the store refuses: a merge into a missing document, or a document ID that
is not fresh. -/
def apply (fs : Firestore) : ServerWrite → Option Firestore
  | .user uid userName url =>
      some { fs with users := Function.update fs.users uid (some (SignUpAttempt.addData userName uid url)) }
  | .photoPost validUserID documentID data =>
      if documentID ∈ fs.documentIDs then none else
      some { fs with
        photoPosts := Function.update fs.photoPosts validUserID
          (fs.photoPosts validUserID ++ [(documentID, data.addData validUserID)])
        documentIDs := documentID :: fs.documentIDs }
  | .comment documentID data =>
      if documentID ∈ fs.documentIDs then none else
      some { fs with
        addingComments := Function.update fs.addingComments data.postID
          (fs.addingComments data.postID ++ [(documentID, data.addingValue)])
        documentIDs := documentID :: fs.documentIDs }
  | .like postID w => do
      let d ← w.apply (fs.likes postID)
      return { fs with likes := Function.update fs.likes postID d }
  | .follow accountUserID w => do
      let d ← w.apply (fs.follows accountUserID)
      return { fs with follows := Function.update fs.follows accountUserID d }

inductive Applied (fs : Firestore) : ServerWrite → Firestore → Prop where
  | user {uid userName : String} {url : Option String} : Applied fs (.user uid userName url)
      { fs with users := Function.update fs.users uid (some (SignUpAttempt.addData userName uid url)) }
  | photoPost {author documentID : String} {data : PostData} (fresh : documentID ∉ fs.documentIDs) :
      Applied fs (.photoPost author documentID data) { fs with
        photoPosts := Function.update fs.photoPosts author
          (fs.photoPosts author ++ [(documentID, data.addData author)])
        documentIDs := documentID :: fs.documentIDs }
  | comment {documentID : String} {data : CommentData} (fresh : documentID ∉ fs.documentIDs) :
      Applied fs (.comment documentID data) { fs with
        addingComments := Function.update fs.addingComments data.postID
          (fs.addingComments data.postID ++ [(documentID, data.addingValue)])
        documentIDs := documentID :: fs.documentIDs }
  | like {postID : String} {w : Write String Value} {d : Option Dict}
      (written : w.apply (fs.likes postID) = some d) :
      Applied fs (.like postID w) { fs with likes := Function.update fs.likes postID d }
  | follow {accountUserID : String} {w : Write String Value} {d : Option Dict}
      (written : w.apply (fs.follows accountUserID) = some d) :
      Applied fs (.follow accountUserID w) { fs with follows := Function.update fs.follows accountUserID d }

theorem apply_ok {fs fs' : Firestore} {w : ServerWrite} (h : fs.apply w = some fs') : Applied fs w fs' := by
  cases w with
  | user uid userName url =>
    obtain rfl := Option.some.inj h
    exact .user
  | photoPost author documentID data =>
    obtain ⟨fresh, same⟩ := Option.ite_none_left_eq_some.mp h
    obtain rfl := Option.some.inj same
    exact .photoPost fresh
  | comment documentID data =>
    obtain ⟨fresh, same⟩ := Option.ite_none_left_eq_some.mp h
    obtain rfl := Option.some.inj same
    exact .comment fresh
  | like postID w =>
    obtain ⟨d, written, same⟩ := Option.bind_eq_some_iff.mp h
    obtain rfl := Option.some.inj same
    exact .like written
  | follow accountUserID w =>
    obtain ⟨d, written, same⟩ := Option.bind_eq_some_iff.mp h
    obtain rfl := Option.some.inj same
    exact .follow written

theorem Applied.photoPosts_mem {fs fs' : Firestore} {author documentID : String} {data : PostData}
    (h : Applied fs (.photoPost author documentID data) fs') (other : String) (d : String × Dict) :
    d ∈ fs'.photoPosts other ↔
      d ∈ fs.photoPosts other ∨ other = author ∧ d = (documentID, data.addData author) := by
  cases h
  by_cases same : other = author
  · subst same
    simp
  · simp [same]

/-- What is read of the documents that stay is in the store. -/
structure Reads (seen fs : Firestore) : Prop where
  users : ∀ uid data, seen.users uid = some data → fs.users uid = some data
  posts : ∀ author, ∀ d ∈ seen.photoPosts author, d ∈ fs.photoPosts author
  comments : ∀ postID, ∀ d ∈ seen.addingComments postID, d ∈ fs.addingComments postID

theorem Reads.refl (fs : Firestore) : Reads fs fs := ⟨fun _ _ found => found, fun _ _ hd => hd, fun _ _ hd => hd⟩

/-- Document IDs are handed out once over all collections. -/
structure DistinctIDs (fs : Firestore) : Prop where
  used : ∀ author, ∀ d ∈ fs.photoPosts author, d.1 ∈ fs.documentIDs
  nodup : ∀ author, ((fs.photoPosts author).map Prod.fst).Nodup
  disjoint : ∀ a b, ∀ x ∈ fs.photoPosts a, ∀ y ∈ fs.photoPosts b, x.1 = y.1 → a = b

theorem Applied.distinctIDs {fs fs' : Firestore} {w : ServerWrite} (h : Applied fs w fs') (distinct : fs.DistinctIDs) :
    fs'.DistinctIDs := by
  cases h with
  | @photoPost author documentID data fresh =>
    have applied : Applied fs (.photoPost author documentID data) _ := .photoPost fresh
    have stored := applied.photoPosts_mem
    refine ⟨fun other d hd => ?_, fun other => ?_, fun a b x hx y hy same => ?_⟩
    · rcases (stored other d).mp hd with old | ⟨_, rfl⟩
      · exact List.mem_cons_of_mem _ (distinct.used other d old)
      · exact List.mem_cons_self
    · by_cases written : other = author
      · subst written
        have unused : documentID ∉ (fs.photoPosts other).map Prod.fst := by
          intro known
          obtain ⟨d, hd, rfl⟩ := List.mem_map.mp known
          exact fresh (distinct.used other d hd)
        simp only [Function.update_self, List.map_append]
        exact (List.perm_append_singleton _ _).nodup_iff.mpr (List.nodup_cons.mpr ⟨unused, distinct.nodup other⟩)
      · simpa only [Function.update_of_ne written] using distinct.nodup other
    · rcases (stored a x).mp hx with oldX | ⟨rfl, rfl⟩ <;> rcases (stored b y).mp hy with oldY | ⟨rfl, rfl⟩
      · exact distinct.disjoint a b x oldX y oldY same
      · have known := distinct.used a x oldX
        rw [same] at known
        exact (fresh known).elim
      · have known := distinct.used b y oldY
        rw [← same] at known
        exact (fresh known).elim
      · rfl
  | comment => exact ⟨fun a d hd => List.mem_cons_of_mem _ (distinct.used a d hd), distinct.nodup, distinct.disjoint⟩
  | _ => exact ⟨distinct.used, distinct.nodup, distinct.disjoint⟩

structure Attributed (fs : Firestore) : Prop where
  users : ∀ uid data, fs.users uid = some data → asString (data.lookup "UserID") = some uid
  posts : ∀ author, ∀ d ∈ fs.photoPosts author, asString (d.2.lookup "UserID") = some author

theorem Applied.attributed {fs fs' : Firestore} {w : ServerWrite} (h : Applied fs w fs') (attributed : fs.Attributed) :
    fs'.Attributed := by
  cases h with
  | @user uid userName url =>
    refine ⟨fun u data found => ?_, attributed.posts⟩
    rcases Entries.update_cases found with ⟨rfl, rfl⟩ | ⟨_, old⟩
    · exact SignUpAttempt.addData_userID ..
    · exact attributed.users u data old
  | @photoPost author documentID data fresh =>
    refine ⟨attributed.users, fun other d hd => ?_⟩
    rcases ((Applied.photoPost fresh).photoPosts_mem other d).mp hd with old | ⟨rfl, rfl⟩
    · exact attributed.posts other d old
    · rw [(addData_lookup data other).1, asString_string]
  | _ => exact ⟨attributed.users, attributed.posts⟩

end Firestore
end Foti
