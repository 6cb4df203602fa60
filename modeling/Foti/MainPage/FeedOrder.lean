import Foti.MainPage.Feed
import Foti.UserProfile.ProfilePosts

/-!
The order of the feed does not depend on the network: `likeFound` appends its post, reverses the
list and sorts it, and posts with distinct dates have one sorted arrangement.
-/

namespace Foti.FeedOrder
open Document Transition MainController ProfilePosts

/-- Successful completions of outstanding `Likes` lookups, each named by its place among them. -/
def completions (places : List Nat) : List Feed.Event := places.map fun n => .main (.likeLookup n true)

def inserted (fs : Firestore) (lookup : LikeLookup) : Post :=
  { lookup.post with liked := decide (asInt (value (fs.likes lookup.postID) lookup.validUserID) = some 1) }

def coming (fs : Firestore) (c : MainController) : List Post := c.posts ++ c.likeLookups.map (inserted fs)

instance : Std.Total newerFirst := ⟨fun p q => Int.le_total q.postDate p.postDate⟩

instance : IsTrans Post newerFirst := ⟨fun _ _ _ first second => Int.le_trans second first⟩

def Dated (posts : List Post) : Prop := (posts.map (·.postDate)).Nodup

theorem descending_of_sorted {posts : List Post} (sorted : posts.Pairwise newerFirst) (dated : Dated posts) :
    Descending posts := by
  refine (sorted.and (List.pairwise_map.mp dated)).imp fun {p q} both => ?_
  exact Int.lt_iff_le_and_ne.mpr ⟨both.1, fun same => both.2 same.symm⟩

theorem descending_unique {posts others : List Post} (down : Descending posts) (down' : Descending others)
    (perm : posts.Perm others) : posts = others :=
  perm.eq_of_pairwise (fun _ _ _ _ less greater => (Int.lt_irrefl _ (Int.lt_trans less greater)).elim) down down'

theorem completion_ok {account : String} {s t : Feed} {n : Nat}
    (h : Feed.step account s (.main (.likeLookup n true)) = some t) :
    ∃ lookup, s.main.likeLookups[n]? = some lookup ∧ t.fs = s.fs ∧
      t.main.likeLookups = s.main.likeLookups.eraseIdx n ∧
      t.main.posts = (s.main.posts ++ [inserted s.fs lookup]).reverse.insertionSort newerFirst := by
  obtain ⟨⟨main, w⟩, handled, h⟩ := Option.bind_eq_some_iff.mp h
  obtain ⟨_, outcome⟩ := handle_ok handled
  cases outcome with
  | likeFound found =>
    obtain rfl := Option.some.inj h
    exact ⟨_, found, rfl, rfl, rfl⟩

theorem completion_perm {account : String} {s t : Feed} {n : Nat}
    (h : Feed.step account s (.main (.likeLookup n true)) = some t) :
    ∃ lookup, s.main.likeLookups[n]? = some lookup ∧ t.main.posts.Perm (inserted s.fs lookup :: s.main.posts) := by
  obtain ⟨lookup, found, _, _, posts⟩ := completion_ok h
  refine ⟨lookup, found, posts ▸ ?_⟩
  exact (List.perm_insertionSort newerFirst _).trans ((List.reverse_perm _).trans (List.perm_append_singleton _ _))

theorem completion_coming {account : String} {s t : Feed} {n : Nat}
    (h : Feed.step account s (.main (.likeLookup n true)) = some t) : (coming t.fs t.main).Perm (coming s.fs s.main) := by
  obtain ⟨lookup, found, same, lookups, _⟩ := completion_ok h
  obtain ⟨lookup', found', perm⟩ := completion_perm h
  obtain rfl := Option.some.inj (found.symm.trans found')
  obtain ⟨inside, rfl⟩ := List.getElem?_eq_some_iff.mp found
  have taken := (List.getElem_cons_eraseIdx_perm inside).map (inserted s.fs)
  rw [coming, coming, same, lookups]
  have first := perm.append_right ((s.main.likeLookups.eraseIdx n).map (inserted s.fs))
  exact first.trans (List.perm_middle.symm.trans (taken.append_left _))

/-- Newest first, with distinct dates also of the posts to come. -/
structure Ordered (s : Feed) : Prop where
  descending : Descending s.main.posts
  dated : Dated (coming s.fs s.main)

theorem completion_ordered {account : String} {s t : Feed} {n : Nat} (h : Ordered s)
    (stepped : Feed.step account s (.main (.likeLookup n true)) = some t) : Ordered t := by
  obtain ⟨_, _, _, _, posts⟩ := completion_ok stepped
  have dated : Dated (coming t.fs t.main) :=
    (((completion_coming stepped).map fun p : Post => p.postDate).nodup_iff).mpr h.dated
  have shown : Dated t.main.posts := by
    rw [Dated, coming, List.map_append] at dated
    exact (List.nodup_append.mp dated).1
  exact ⟨descending_of_sorted (posts ▸ List.pairwise_insertionSort newerFirst _) shown, dated⟩

theorem completions_ordered {account : String} {s t : Feed} {places : List Nat} (h : Ordered s)
    (ran : run (Feed.step account) s (completions places) = some t) : Ordered t :=
  run_map_keeps (fun _ _ _ _ => completion_ordered) ran h

theorem completions_coming {account : String} {s t : Feed} {places : List Nat}
    (ran : run (Feed.step account) s (completions places) = some t) : (coming t.fs t.main).Perm (coming s.fs s.main) :=
  run_map_keeps (I := fun m => (coming m.fs m.main).Perm (coming s.fs s.main))
    (fun _ _ _ _ perm stepped => (completion_coming stepped).trans perm) ran (.refl _)

theorem completions_posts {account : String} {s t : Feed} {places : List Nat}
    (ran : run (Feed.step account) s (completions places) = some t) (done : t.main.likeLookups = []) :
    t.main.posts.Perm (coming s.fs s.main) := by
  have perm := completions_coming ran
  rwa [coming, done, List.map_nil, List.append_nil] at perm

/-- From a feed that is newest first, with distinct dates also of the posts to come: every completion
inserts its post and leaves the feed newest first, and any two orders end in the same feed. -/
theorem order_independent (account : String) (s : Feed) (descending : Descending s.main.posts)
    (dated : ((s.main.posts ++ s.main.likeLookups.map (·.post)).map (·.postDate)).Nodup) :
    (∀ places n m t, run (Feed.step account) s (completions places) = some m →
      Feed.step account m (.main (.likeLookup n true)) = some t →
      Descending t.main.posts ∧ ∃ lookup, m.main.likeLookups[n]? = some lookup ∧
        t.main.posts.Perm (inserted m.fs lookup :: m.main.posts)) ∧
    ∀ places places' t t', run (Feed.step account) s (completions places) = some t →
      run (Feed.step account) s (completions places') = some t' →
      t.main.likeLookups = [] → t'.main.likeLookups = [] → t.main.posts = t'.main.posts := by
  have ordered : Ordered s := by
    refine ⟨descending, ?_⟩
    rw [Dated, coming, List.map_append, List.map_map]
    rwa [List.map_append, List.map_map] at dated
  constructor
  · intro places n m t ran stepped
    exact ⟨(completion_ordered (completions_ordered ordered ran) stepped).descending, completion_perm stepped⟩
  · intro places places' t t' ran ran' done done'
    refine descending_unique (completions_ordered ordered ran).descending
      (completions_ordered ordered ran').descending ?_
    exact (completions_posts ran done).trans (completions_posts ran' done').symm

def datedPost (id : String) (date : Timestamp) : Post :=
  { id := some id, user := ⟨"alice", "alice", "url"⟩, postImageURL := some "url", imageWidth := none,
    imageHeight := none, userID := some "alice", message := some "hello", postDate := date }

def waiting : Feed where
  fs := { likes := fun id => if id = "q" then some (dict [("alice", .int 1)]) else none }
  main := { posts := [datedPost "p" 2], likeLookups := [⟨datedPost "q" 1, "q", "alice"⟩, ⟨datedPost "r" 3, "r", "alice"⟩] }

theorem order_independent_waiting : ∃ t t', run (Feed.step "alice") waiting (completions [0, 0]) = some t ∧
    run (Feed.step "alice") waiting (completions [1, 0]) = some t' ∧
    t.main.posts.map (·.id) = [some "r", some "p", some "q"] ∧ t.main.posts = t'.main.posts :=
  ⟨_, _, rfl, rfl, by decide, (order_independent "alice" waiting (by decide) (by decide)).2 [0, 0] [1, 0] _ _ rfl rfl rfl rfl⟩

end Foti.FeedOrder
