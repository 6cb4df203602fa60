import Mathlib.Data.List.Induction
import Foti.Model

/-!
The posts of a profile: `UserProfileController.getPostFS` appends the added documents of each
snapshot and then reverses the whole list. `newest_first_iff` says for which cuts into snapshots the
profile is newest first throughout.
-/

namespace Foti.ProfilePosts

inductive ChangeType where
  | added
  | modified
  | removed
  deriving DecidableEq, Repr

structure DocumentChange where
  type : ChangeType
  documentID : String
  data : Dict
  deriving DecidableEq

/-- A snapshot, read when the reader's clock shows `now`. -/
structure Snapshot where
  now : Timestamp
  documentChanges : List DocumentChange
  deriving DecidableEq

/-- The snapshot handler of `getPostFS`. Its posts get no `id`. -/
def getPostFS (validUser : User) (posts : List Post) (s : Snapshot) : List Post :=
  (s.documentChanges.foldl (fun posts changes =>
    if changes.type = .added then posts ++ [Post.init s.now validUser changes.data] else posts) posts).reverse

def load (validUser : User) (snapshots : List Snapshot) : List Post :=
  snapshots.foldl (getPostFS validUser) []

def Snapshot.added (validUser : User) (s : Snapshot) : List Post :=
  (s.documentChanges.filter (·.type = .added)).map fun c => Post.init s.now validUser c.data

def delivered (validUser : User) (snapshots : List Snapshot) : List Post :=
  snapshots.flatMap (Snapshot.added validUser)

variable {validUser : User}

theorem getPostFS_eq (posts : List Post) (s : Snapshot) :
    getPostFS validUser posts s = (posts ++ s.added validUser).reverse := by
  have folded : ∀ (changes : List DocumentChange) (posts : List Post),
      changes.foldl (fun posts c =>
        if c.type = .added then posts ++ [Post.init s.now validUser c.data] else posts) posts =
      posts ++ (changes.filter (·.type = .added)).map fun c => Post.init s.now validUser c.data := by
    intro changes
    induction changes with
    | nil => simp
    | cons c rest ih =>
      intro posts
      rw [List.foldl_cons, ih]
      by_cases added : c.type = .added <;> simp [added]
  rw [getPostFS, folded]
  rfl

theorem load_snoc (snapshots : List Snapshot) (s : Snapshot) :
    load validUser (snapshots ++ [s]) = (load validUser snapshots ++ s.added validUser).reverse := by
  rw [load, List.foldl_append, List.foldl_cons, List.foldl_nil, getPostFS_eq]
  rfl

theorem delivered_snoc (snapshots : List Snapshot) (s : Snapshot) :
    delivered validUser (snapshots ++ [s]) = delivered validUser snapshots ++ s.added validUser := by
  simp [delivered]

theorem load_perm (snapshots : List Snapshot) :
    (load validUser snapshots).Perm (delivered validUser snapshots) := by
  induction snapshots using List.reverseRecOn with
  | nil => rfl
  | append_singleton snapshots s ih =>
    rw [load_snoc, delivered_snoc]
    exact (List.reverse_perm _).trans (ih.append_right _)

def Ascending (posts : List Post) : Prop := posts.Pairwise fun p q => p.postDate < q.postDate

def Descending (posts : List Post) : Prop := posts.Pairwise fun p q => q.postDate < p.postDate

instance (posts : List Post) : Decidable (Ascending posts) := by unfold Ascending; infer_instance

instance (posts : List Post) : Decidable (Descending posts) := by unfold Descending; infer_instance

/-- After every snapshot the profile holds the documents delivered so far, newest first. -/
def NewestFirst (validUser : User) (snapshots : List Snapshot) : Prop :=
  ∀ k, Descending (load validUser (snapshots.take k)) ∧
    (load validUser (snapshots.take k)).Perm (delivered validUser (snapshots.take k))

theorem perm_eq_of_few {posts others : List Post} (perm : posts.Perm others) (few : others.length ≤ 1) :
    posts = others := by
  rcases others with _ | ⟨p, _ | ⟨q, rest⟩⟩
  · exact perm.eq_nil
  · exact List.perm_singleton.mp perm
  · simp at few

theorem load_of_few {snapshots : List Snapshot}
    (few : (delivered validUser snapshots.dropLast).length ≤ 1) :
    load validUser snapshots = (delivered validUser snapshots).reverse := by
  rcases List.eq_nil_or_concat snapshots with rfl | ⟨init, s, rfl⟩
  · rfl
  · simp only [List.concat_eq_append, List.dropLast_concat] at few ⊢
    have same := perm_eq_of_few (load_perm init) few
    rw [load_snoc, delivered_snoc, same]

theorem delivered_split (snapshots : List Snapshot) (k : Nat) :
    delivered validUser (snapshots.take k) ++ delivered validUser (snapshots.drop k) =
      delivered validUser snapshots := by
  rw [delivered, delivered, ← List.flatMap_append, List.take_append_drop]
  rfl

theorem delivered_take_le (snapshots : List Snapshot) {j k : Nat} (le : j ≤ k) :
    (delivered validUser (snapshots.take j)).length ≤ (delivered validUser (snapshots.take k)).length := by
  have inner : snapshots.take j = (snapshots.take k).take j := by
    rw [List.take_take, Nat.min_eq_left le]
  rw [inner, ← delivered_split (snapshots.take k) j, List.length_append]
  exact Nat.le_add_right _ _

theorem both_orders {posts : List Post} (up : Ascending posts) (down : Descending posts) :
    posts.length ≤ 1 := by
  match posts, up, down with
  | [], _, _ => simp
  | [_], _, _ => simp
  | p :: q :: rest, up, down =>
    have less := (List.pairwise_cons.mp up).1 q List.mem_cons_self
    have greater := (List.pairwise_cons.mp down).1 q List.mem_cons_self
    exact (Int.lt_irrefl _ (Int.lt_trans less greater)).elim

/-- For documents in ascending order of date, the profile is newest first after every snapshot
exactly when at most one document came before the last snapshot. -/
theorem newest_first_iff (validUser : User) (snapshots : List Snapshot)
    (ascending : Ascending (delivered validUser snapshots)) :
    NewestFirst validUser snapshots ↔ (delivered validUser snapshots.dropLast).length ≤ 1 := by
  constructor
  · intro newest
    rcases List.eq_nil_or_concat snapshots with rfl | ⟨init, s, rfl⟩
    · simp [delivered]
    · simp only [List.concat_eq_append, List.dropLast_concat] at newest ⊢
      have before := (newest init.length).1
      have after := (newest (init.length + 1)).1
      rw [List.take_left] at before
      rw [List.take_of_length_le (by simp), load_snoc, List.reverse_append] at after
      have up : Ascending (load validUser init) := by
        simpa [Ascending, Descending, List.pairwise_reverse] using (List.pairwise_append.mp after).2.1
      have few := both_orders up before
      rwa [(load_perm init).length_eq] at few
  · intro few k
    refine ⟨?_, load_perm _⟩
    have short : (delivered validUser (snapshots.take k).dropLast).length ≤ 1 := by
      refine Nat.le_trans ?_ few
      rw [List.dropLast_eq_take, List.dropLast_eq_take, List.take_take]
      refine delivered_take_le snapshots ?_
      simp only [List.length_take]
      omega
    rw [load_of_few short, Descending, List.pairwise_reverse]
    refine ascending.sublist ?_
    rw [← delivered_split snapshots k]
    exact List.sublist_append_left _ _

def shared (documentID : String) (date : Timestamp) : DocumentChange :=
  ⟨.added, documentID, dict [("PostDate", .timestamp date)]⟩

theorem newest_first_iff_one :
    NewestFirst ⟨"bob", "bob", "url"⟩ [⟨9, [shared "p" 1]⟩, ⟨9, [shared "q" 2]⟩] ↔
      (delivered ⟨"bob", "bob", "url"⟩ [⟨9, [shared "p" 1]⟩, ⟨9, [shared "q" 2]⟩].dropLast).length ≤ 1 :=
  newest_first_iff _ _ (by decide +kernel)

/-- Two posts and a snapshot that adds nothing: the second reversal puts the oldest post first. -/
theorem reversed_back : Ascending (delivered ⟨"bob", "bob", "url"⟩ [⟨9, [shared "p" 1, shared "q" 2]⟩, ⟨9, []⟩]) ∧
    (load ⟨"bob", "bob", "url"⟩ [⟨9, [shared "p" 1, shared "q" 2]⟩, ⟨9, []⟩]).map Post.postDate = [1, 2] ∧
    ¬ NewestFirst ⟨"bob", "bob", "url"⟩ [⟨9, [shared "p" 1, shared "q" 2]⟩, ⟨9, []⟩] := by
  refine ⟨?_, ?_, ?_⟩
  · decide +kernel
  · simp [load, getPostFS, shared, Post.init, dict_lookup_head]
  · intro newest
    have last := (newest 2).1
    simp [Descending, load, getPostFS, shared, Post.init, dict_lookup_head] at last

end Foti.ProfilePosts
