import Foti.MainPage.Feed

/-!
When the feed holds a post twice. A listener stays live after `refreshPosts`, and every `Follows`
snapshot and every refresh looks its users up again, so a user found again gets a second listener,
which delivers the user's posts a second time. `posts_nodup` says that this is the only way.
-/

namespace Foti.FeedDuplicates
open Document Entries Listening Transition MainController

/-- The post IDs that are in the feed or still on their way into it. -/
def ids (c : MainController) : List (Option String) :=
  c.posts.map (·.id) ++ c.likeLookups.map (·.post.id) ++ (undelivered c.photoListeners).map fun d => some d.1

/-- No listener on the posts of `a` is live, and no post of `a` is in the feed or being loaded. -/
def Alone (fs : Firestore) (c : MainController) (a : String) : Prop :=
  (∀ l ∈ c.photoListeners, l.topic ≠ a) ∧
    ∀ d ∈ fs.photoPosts a, (∀ p ∈ c.posts, p.id ≠ some d.1) ∧ ∀ q ∈ c.likeLookups, q.post.id ≠ some d.1

instance (fs : Firestore) (c : MainController) (a : String) : Decidable (Alone fs c a) := by
  unfold Alone; infer_instance

/-- A user is found only while nothing of its posts is loaded. Likes are left out. -/
def FoundAlone (fs : Firestore) (c : MainController) : MainEvent → Prop
  | .userLookup n true => ∀ lookup ∈ c.userLookups[n]?, ∀ data ∈ fs.users lookup.uID,
      Alone fs c (User.init data).userID
  | .tap _ | .like _ => False
  | _ => True

instance (fs : Firestore) (c : MainController) (e : MainEvent) : Decidable (FoundAlone fs c e) :=
  match e with
  | .userLookup n true => inferInstanceAs (Decidable (∀ lookup ∈ c.userLookups[n]?, ∀ data ∈ fs.users lookup.uID,
      Alone fs c (User.init data).userID))
  | .tap _ | .like _ => isFalse id
  | .userLookup _ false | .refreshPosts | .followsSnapshot _ _ | .followsFails _ | .photoSnapshot _ _ _ |
    .photoFails _ | .likeLookup _ _ => isTrue trivial

structure Inv (fs : Firestore) (c : MainController) : Prop where
  nodup : (ids c).Nodup
  used : ∀ x ∈ ids c, ∃ id, x = some id ∧ id ∈ fs.documentIDs
  stored : ∀ l ∈ c.photoListeners, ∀ d ∈ l.pending, d ∈ fs.photoPosts l.topic
  single : (c.photoListeners.map (·.topic)).Nodup
  distinct : fs.DistinctIDs

section
variable {fs fs' : Firestore} {c c' : MainController} {account : String}

theorem Inv.of_subperm (h : Inv fs c) (fewer : (ids c').Subperm (ids c))
    (stored : ∀ l ∈ c'.photoListeners, ∃ m ∈ c.photoListeners, l.topic = m.topic ∧ ∀ d ∈ l.pending, d ∈ m.pending)
    (single : (c'.photoListeners.map (·.topic)).Sublist (c.photoListeners.map (·.topic))) : Inv fs c' where
  nodup := by
    obtain ⟨xs, perm, sub⟩ := fewer
    exact perm.nodup (h.nodup.sublist sub)
  used := fun x hx => h.used x (fewer.subset hx)
  stored := fun l hl d hd => by
    obtain ⟨m, hm, same, kept⟩ := stored l hl
    exact same ▸ h.stored m hm d (kept d hd)
  single := h.single.sublist single
  distinct := h.distinct

theorem Inv.of_sublist {posts : List Post} {likeLookups : List LikeLookup} (h : Inv fs c)
    (fewerPosts : posts.Sublist c.posts) (fewerLookups : likeLookups.Sublist c.likeLookups)
    (same : c'.posts = posts ∧ c'.likeLookups = likeLookups ∧ c'.photoListeners = c.photoListeners) : Inv fs c' := by
  obtain ⟨rfl, rfl, listeners⟩ := same
  refine h.of_subperm ?_ (fun l hl => ⟨l, listeners ▸ hl, rfl, fun _ hd => hd⟩) (listeners ▸ .refl _)
  rw [ids, ids, listeners]
  exact (((fewerPosts.map _).append (fewerLookups.map _)).append (.refl _)).subperm

theorem ids_listen (c : MainController) (validUser : Option User) (l : PhotoListener) :
    ids { c with validUser, photoListeners := c.photoListeners ++ [l] } = ids c ++ l.pending.map fun d => some d.1 := by
  simp only [ids, undelivered_concat, List.map_append, List.append_assoc]

theorem not_held {a : String} (h : Inv fs c) (alone : Alone fs c a) {d : String × Dict} (hd : d ∈ fs.photoPosts a) :
    some d.1 ∉ ids c := by
  obtain ⟨unlistened, unloaded⟩ := alone
  intro held
  simp only [ids, List.mem_append, List.mem_map] at held
  rcases held with (⟨p, hp, same⟩ | ⟨q, hq, same⟩) | ⟨e, he, same⟩
  · exact (unloaded d hd).1 p hp same
  · exact (unloaded d hd).2 q hq same
  · obtain ⟨l, hl, pending⟩ := mem_undelivered.mp he
    have stored := h.stored l hl e pending
    exact unlistened l hl (h.distinct.disjoint _ _ e stored d hd (Option.some.inj same))

theorem userFound_inv {lookup : UserLookup} (h : Inv fs c)
    (alone : ∀ data, fs.users lookup.uID = some data → Alone fs c (User.init data).userID) :
    Inv fs (c.userFound lookup (fs.users lookup.uID) fs) := by
  cases found : fs.users lookup.uID with
  | none => exact h
  | some data =>
    have alone := alone data found
    simp only [userFound, getPosts]
    split
    · exact ⟨h.nodup, h.used, h.stored, h.single, h.distinct⟩
    generalize (User.init data).userID = a at *
    have unused : a ∉ c.photoListeners.map (·.topic) := by
      intro listened
      obtain ⟨l, hl, same⟩ := List.mem_map.mp listened
      exact alone.1 l hl same
    constructor
    case nodup =>
      have keyed := (h.distinct.nodup a).map (Option.some_injective String)
      rw [List.map_map] at keyed
      rw [ids_listen]
      refine h.nodup.append keyed fun x hx hnew => ?_
      obtain ⟨d, hd, rfl⟩ := List.mem_map.mp hnew
      exact not_held h alone hd hx
    case used =>
      intro x hx
      rw [ids_listen] at hx
      rcases List.mem_append.mp hx with old | new
      · exact h.used x old
      · obtain ⟨d, hd, rfl⟩ := List.mem_map.mp new
        exact ⟨d.1, rfl, h.distinct.used a d hd⟩
    case stored => exact forall_mem_concat h.stored fun d hd => hd
    case single =>
      have once := List.nodup_cons.mpr ⟨unused, h.single⟩
      rw [List.map_append]
      exact (List.perm_append_singleton _ _).nodup_iff.mpr once
    case distinct => exact h.distinct

theorem photoSnapshot_inv {l n : Nat} {now : Timestamp} {listener : PhotoListener} {listeners : List PhotoListener}
    (h : Inv fs c) (delivered : deliver c.photoListeners l n = some (listener, listeners)) :
    Inv fs ({ c with photoListeners := listeners }.postsAdded (some account) listener.closure
      (orderedByPostDate (listener.pending.take n)) now) := by
  obtain ⟨found, rfl⟩ := deliver_ok delivered
  have pending := (undelivered_set (n := n) found).map fun d => some d.1
  rw [List.map_append] at pending
  have ordered := (orderedByPostDate_perm (listener.pending.take n)).map fun d => some d.1
  have moved : (ids ({ c with photoListeners := c.photoListeners.set l (listener.after n) }.postsAdded (some account)
      listener.closure (orderedByPostDate (listener.pending.take n)) now)).Perm (ids c) := by
    simp only [ids, postsAdded, List.map_append, List.map_map, List.append_assoc]
    exact (((ordered.append_right _).trans pending.symm).append_left _).append_left _
  refine h.of_subperm moved.subperm (fun m hm => ?_) ?_
  · rcases List.mem_or_eq_of_mem_set hm with old | rfl
    · exact ⟨m, old, rfl, fun _ hd => hd⟩
    · exact ⟨listener, List.mem_of_getElem? found, rfl, fun _ hd => List.mem_of_mem_drop hd⟩
  · exact (after_topics found).symm ▸ .refl _

theorem likeFound_inv {n : Nat} {lookup : LikeLookup} {likeData : Option Dict} (h : Inv fs c)
    (found : c.likeLookups[n]? = some lookup) :
    Inv fs ({ c with likeLookups := c.likeLookups.eraseIdx n }.likeFound lookup likeData) := by
  obtain ⟨liked, inserted⟩ := likeFound_posts { c with likeLookups := c.likeLookups.eraseIdx n } lookup likeData
  refine h.of_subperm (List.Perm.subperm ?_) (fun l hl => ⟨l, hl, rfl, fun _ hd => hd⟩) (.refl _)
  obtain ⟨inside, rfl⟩ := List.getElem?_eq_some_iff.mp found
  have moved := (List.getElem_cons_eraseIdx_perm inside).map (·.post.id)
  refine List.Perm.append_right _ ?_
  refine ((inserted.map (·.id)).append_right _).trans ?_
  refine .trans ?_ (moved.append_left _)
  exact List.perm_middle.symm

theorem handled_inv {e : MainEvent} {w : Option ServerWrite} (h : Inv fs c) (alone : FoundAlone fs c e)
    (outcome : Handled (some account) fs c e c' w) : Inv fs c' := by
  cases outcome with
  | refreshPosts => exact h.of_sublist (List.nil_sublist _) (.refl _) ⟨rfl, rfl, rfl⟩
  | followsSnapshot | followsFails | userFails => exact h.of_sublist (.refl _) (.refl _) ⟨rfl, rfl, rfl⟩
  | @userFound n lookup found =>
    have erased : Inv fs { c with userLookups := c.userLookups.eraseIdx n } :=
      h.of_sublist (.refl _) (.refl _) ⟨rfl, rfl, rfl⟩
    exact userFound_inv erased (alone lookup found)
  | photoSnapshot delivered => exact photoSnapshot_inv h delivered
  | @photoFails l =>
    have fewer := List.eraseIdx_sublist c.photoListeners l
    refine h.of_subperm (List.Sublist.subperm ?_) (fun m hm => ⟨m, fewer.subset hm, rfl, fun _ hd => hd⟩)
      (fewer.map _)
    exact ((undelivered_eraseIdx c.photoListeners l).map _).append_left _
  | likeFound found => exact likeFound_inv h found
  | @likeFails n => exact h.of_sublist (.refl _) (List.eraseIdx_sublist _ n) ⟨rfl, rfl, rfl⟩
  | tap | moved | completed | trapped => exact alone.elim

theorem photoPost_inv {author documentID : String} {data : PostData} (h : Inv fs c)
    (applied : Firestore.Applied fs (.photoPost author documentID data) fs') :
    Inv fs' (c.notify fs fs' (.photoPost author documentID data)) := by
  obtain ⟨fresh, issued⟩ : documentID ∉ fs.documentIDs ∧ fs'.documentIDs = documentID :: fs.documentIDs := by
    cases applied with
    | photoPost fresh => exact ⟨fresh, rfl⟩
  have stored := applied.photoPosts_mem author
  have unheld : some documentID ∉ ids c := by
    intro held
    obtain ⟨id, same, used⟩ := h.used _ held
    exact fresh (Option.some.inj same ▸ used)
  have grown : (ids (c.notify fs fs' (.photoPost author documentID data))).Subperm (some documentID :: ids c) := by
    rcases publish_undelivered author (documentID, data.addData author) h.single with same | added
    · have kept := (same.map fun d => some d.1).append_left (c.posts.map (·.id) ++ c.likeLookups.map (·.post.id))
      exact kept.subperm.trans (List.sublist_cons_self _ _).subperm
    · have more := (added.map fun d => some d.1).append_left (c.posts.map (·.id) ++ c.likeLookups.map (·.post.id))
      exact (more.trans List.perm_middle).subperm
  have pending : ∀ l ∈ c.photoListeners, ∀ d ∈ l.pending, d ∈ fs'.photoPosts l.topic := fun l hl d hd =>
    (applied.photoPosts_mem _ d).mpr (.inl (h.stored l hl d hd))
  constructor
  case nodup =>
    obtain ⟨xs, perm, sub⟩ := grown
    have held := List.nodup_cons.mpr ⟨unheld, h.nodup⟩
    exact perm.nodup (held.sublist sub)
  case used =>
    intro x hx
    rw [issued]
    rcases List.mem_cons.mp (grown.subset hx) with rfl | old
    · exact ⟨documentID, rfl, List.mem_cons_self⟩
    · obtain ⟨id, same, used⟩ := h.used x old
      exact ⟨id, same, List.mem_cons_of_mem _ used⟩
  case stored =>
    exact publish_pending (P := fun topic d => d ∈ fs'.photoPosts topic) pending ((stored _).mpr (.inr ⟨rfl, rfl⟩))
  case single =>
    rw [notify, publish_topics]
    exact h.single
  case distinct => exact applied.distinctIDs h.distinct

theorem written_inv {w : ServerWrite} (h : Inv fs c) (applied : Firestore.Applied fs w fs') :
    Inv fs' (c.notify fs fs' w) := by
  have distinct := applied.distinctIDs h.distinct
  cases applied with
  | photoPost fresh => exact photoPost_inv h (.photoPost fresh)
  | comment =>
    refine ⟨h.nodup, fun x hx => ?_, h.stored, h.single, distinct⟩
    obtain ⟨id, same, used⟩ := h.used x hx
    exact ⟨id, same, List.mem_cons_of_mem _ used⟩
  | user | like => exact ⟨h.nodup, h.used, h.stored, h.single, distinct⟩
  | follow =>
    rw [notify]
    split <;> exact ⟨h.nodup, h.used, h.stored, h.single, distinct⟩

end

/-- Along every run in which each user is found only while nothing of its posts is loaded, the entries
of the feed have distinct IDs. -/
theorem posts_nodup (account : String) (fs : Firestore) (distinct : fs.DistinctIDs) (events : List Feed.Event) (t : Feed)
    (h : run (Feed.step account) (Feed.viewDidLoad account fs) events = some t)
    (alone : Along (Feed.step account) (Feed.Meets FoundAlone fun _ _ => True) (Feed.viewDidLoad account fs) events) :
    (t.main.posts.map (·.id)).Nodup := by
  have keeps : ∀ s e s', Inv s.fs s.main → Feed.Meets FoundAlone (fun _ _ => True) s e →
      Feed.step account s e = some s' → Inv s'.fs s'.main := fun s e s' hs meets stepped =>
    Feed.step_keeps (I := Inv) (fun _ _ _ _ _ _ => trivial)
      (fun _ _ _ _ _ hc meets _ outcome => handled_inv hc meets outcome)
      (fun _ _ _ _ hc _ applied => written_inv hc (Firestore.apply_ok applied)) hs meets stepped
  have initial : Inv fs (viewDidLoad (some account) fs) :=
    ⟨List.nodup_nil, fun x hx => (List.not_mem_nil hx).elim, fun l hl => (List.not_mem_nil hl).elim, List.nodup_nil, distinct⟩
  have inv := run_keeps_along (I := fun s : Feed => Inv s.fs s.main) keeps h alone initial
  exact (List.nodup_append.mp (List.nodup_append.mp inv.nodup).1).1

def onlyAlice : Firestore where
  users := fun uid => if uid = "alice" then some (SignUpAttempt.addData uid uid (some "url")) else none

theorem onlyAlice_distinctIDs : onlyAlice.DistinctIDs :=
  ⟨fun _ _ hd => (List.not_mem_nil hd).elim, fun _ => List.nodup_nil, fun _ _ _ hx => (List.not_mem_nil hx).elim⟩

def aPost : PostData := { imageURL := "url", message := "hello", photo := ⟨0, 0⟩, date := 1 }

instance (s : Feed) (e : Feed.Event) : Decidable (Feed.Meets FoundAlone (fun _ _ => True) s e) :=
  match e with
  | .main e => inferInstanceAs (Decidable (FoundAlone s.fs s.main e))
  | .remote _ => isTrue trivial

def aliceFollowsBob : Firestore where
  users := fun uid => if uid = "alice" ∨ uid = "bob" then some (SignUpAttempt.addData uid uid (some "url")) else none
  follows := fun account => if account = "alice" then some (dict [("bob", .int 1)]) else none

theorem aliceFollowsBob_distinctIDs : aliceFollowsBob.DistinctIDs :=
  ⟨fun _ _ hd => (List.not_mem_nil hd).elim, fun _ => List.nodup_nil, fun _ _ _ hx => (List.not_mem_nil hx).elim⟩

/-- Both are found, and both share while the feed listens. -/
def bothShare : List Feed.Event :=
  [.main (.followsSnapshot 0 0), .main (.userLookup 0 true), .main (.userLookup 0 true),
   .remote (.photoPost "alice" "p" aPost), .remote (.photoPost "bob" "q" { aPost with date := 2 }),
   .main (.photoSnapshot 0 1 0), .main (.photoSnapshot 1 1 0), .remote (.photoPost "alice" "r" { aPost with date := 3 }),
   .main (.photoSnapshot 0 1 0), .main (.likeLookup 2 true), .main (.likeLookup 0 true), .main (.likeLookup 0 true)]

theorem posts_nodup_bothShare :
    ∃ t, run (Feed.step "alice") (Feed.viewDidLoad "alice" aliceFollowsBob) bothShare = some t ∧
      t.main.posts.map (·.id) = [some "r", some "q", some "p"] ∧ (t.main.posts.map (·.id)).Nodup :=
  ⟨_, rfl, by decide, posts_nodup "alice" aliceFollowsBob aliceFollowsBob_distinctIDs bothShare _ rfl (by decide)⟩

def sharedAfterRefresh : List Feed.Event :=
  [.main (.userLookup 0 true), .main .refreshPosts, .main (.userLookup 0 true),
   .remote (.photoPost "alice" "p" aPost), .main (.photoSnapshot 0 1 0), .main (.photoSnapshot 1 1 0),
   .main (.likeLookup 0 true), .main (.likeLookup 0 true)]

theorem shared_post_twice :
    ∃ t, run (Feed.step "alice") (Feed.viewDidLoad "alice" onlyAlice) sharedAfterRefresh = some t ∧
      t.main.posts.map (·.id) = [some "p", some "p"] ∧ ¬ (t.main.posts.map (·.id)).Nodup :=
  ⟨_, rfl, by decide, by decide⟩

end Foti.FeedDuplicates
