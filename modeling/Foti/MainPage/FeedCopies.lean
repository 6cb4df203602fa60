import Foti.MainPage.FeedComplete
import Foti.MainPage.FeedDuplicates
import Foti.MainPage.LikeCompletion

/-!
How many copies of a post the feed holds. Each live listener on an author brings in every post of that
author once, so a post is in the feed, or on its way, once for each listener on its author.
`refreshPosts` and a failed read can only lose copies.
-/

namespace Foti.FeedCopies
open Document Entries Listening Transition MainController FeedDuplicates

def listening (c : MainController) (author : String) : Nat := (c.photoListeners.map (·.topic)).count author

/-- No listener fails, and each like that completes finds its row. -/
def Counted (c : MainController) : MainEvent → Prop
  | .photoFails _ => False
  | .like (.acknowledge n) => ∀ call ∈ c.likeCalls[n]?, LikeCompletion.RowKept call c.posts
  | _ => True

/-- Nothing leaves the feed or is left out of it. -/
def Lossless : MainEvent → Prop
  | .refreshPosts | .likeLookup _ false => False
  | _ => True

instance (call : LikeCall) (posts : List Post) : Decidable (LikeCompletion.RowKept call posts) :=
  decidable_of_iff (∃ p ∈ posts[call.closure.row]?, { p with liked := call.closure.post.liked } = call.closure.post)
    .rfl

instance (c : MainController) (e : MainEvent) : Decidable (Counted c e) :=
  match e with
  | .photoFails _ => isFalse id
  | .like (.acknowledge n) => inferInstanceAs (Decidable (∀ call ∈ c.likeCalls[n]?, LikeCompletion.RowKept call c.posts))
  | .like (.read _ _) | .like (.write _ _) | .refreshPosts | .followsSnapshot _ _ | .followsFails _ | .userLookup _ _ |
    .photoSnapshot _ _ _ | .likeLookup _ _ | .tap _ => isTrue trivial

def LosslessEvent : Feed.Event → Prop
  | .main e => Lossless e
  | .remote _ => True

/-- At most `n`, and just `n` when nothing is lost. -/
def Bounded (lossless : Prop) (n m : Nat) : Prop := m ≤ n ∧ (lossless → m = n)

structure Inv (lossless : Prop) (fs : Firestore) (c : MainController) : Prop where
  copies : ∀ a, ∀ d ∈ fs.photoPosts a, Bounded lossless (listening c a) ((ids c).count (some d.1))
  used : ∀ x ∈ ids c, ∃ id, x = some id ∧ id ∈ fs.documentIDs
  distinct : fs.DistinctIDs

section
variable {lossless : Prop} {fs fs' : Firestore} {c c' : MainController} {account : String}

theorem Bounded.add {n m : Nat} (h : Bounded lossless n m) (k : Nat) : Bounded lossless (n + k) (m + k) :=
  ⟨Nat.add_le_add_right h.1 k, fun all => congrArg (· + k) (h.2 all)⟩

theorem Inv.of_perm (h : Inv lossless fs c) (same : (ids c').Perm (ids c))
    (topics : c'.photoListeners.map (·.topic) = c.photoListeners.map (·.topic)) : Inv lossless fs c' where
  copies := fun a d hd => by
    rw [same.count_eq, listening, topics]
    exact h.copies a d hd
  used := fun x hx => h.used x (same.subset hx)
  distinct := h.distinct

theorem Inv.of_loss (h : Inv lossless fs c) (lossy : ¬ lossless) (fewer : (ids c').Sublist (ids c))
    (listeners : c'.photoListeners = c.photoListeners) : Inv lossless fs c' where
  copies := fun a d hd => by
    rw [listening, listeners]
    exact ⟨(fewer.count_le _).trans (h.copies a d hd).1, fun all => (lossy all).elim⟩
  used := fun x hx => h.used x (fewer.subset hx)
  distinct := h.distinct

/-- A new listener on `b` brings in a post of `a` just when `b` is `a`. -/
theorem count_stored (distinct : fs.DistinctIDs) {a : String} {d : String × Dict} (hd : d ∈ fs.photoPosts a)
    (b : String) : ((fs.photoPosts b).map fun e => some e.1).count (some d.1) = [b].count a := by
  have keyed : ((fs.photoPosts b).map fun e => some e.1).Nodup := by
    have keyed := (distinct.nodup b).map (Option.some_injective String)
    rwa [List.map_map] at keyed
  have member : some d.1 ∈ (fs.photoPosts b).map (fun e => some e.1) ↔ b = a := by
    refine ⟨fun inside => ?_, fun same => List.mem_map.mpr ⟨d, same ▸ hd, rfl⟩⟩
    obtain ⟨e, he, same⟩ := List.mem_map.mp inside
    exact distinct.disjoint b a e he d hd (Option.some.inj same)
  rw [keyed.count, List.count_singleton]
  simp only [member, beq_iff_eq]

theorem userFound_inv {lookup : UserLookup} (h : Inv lossless fs c) :
    Inv lossless fs (c.userFound lookup (fs.users lookup.uID) fs) := by
  obtain ⟨validUser, crashed, listeners, same, outcome⟩ := userFound_cases c lookup (fs.users lookup.uID) fs
  rw [same]
  rcases outcome with rfl | ⟨data, _, _, rfl⟩
  · exact h.of_perm (by simp [ids]) (by simp)
  generalize (User.init data).userID = b
  have brought : ids { c with
      validUser, crashed
      photoListeners := c.photoListeners ++ [⟨b, User.init data, (fs.photoPosts b).length, fs.photoPosts b⟩] } =
      ids c ++ (fs.photoPosts b).map fun e => some e.1 :=
    ids_listen c validUser ⟨b, User.init data, (fs.photoPosts b).length, fs.photoPosts b⟩
  constructor
  case copies =>
    intro a d hd
    rw [brought, List.count_append, count_stored h.distinct hd b, listening, List.map_append, List.count_append]
    exact (h.copies a d hd).add _
  case used =>
    intro x hx
    rw [brought] at hx
    rcases List.mem_append.mp hx with old | new
    · exact h.used x old
    · obtain ⟨d, hd, rfl⟩ := List.mem_map.mp new
      exact ⟨d.1, rfl, h.distinct.used b d hd⟩
  case distinct => exact h.distinct

theorem photoSnapshot_ids {l n : Nat} {now : Timestamp} {listener : PhotoListener}
    (found : c.photoListeners[l]? = some listener) :
    (ids ({ c with photoListeners := c.photoListeners.set l (listener.after n) }.postsAdded (some account)
      listener.closure (orderedByPostDate (listener.pending.take n)) now)).Perm (ids c) := by
  have pending := (undelivered_set (n := n) found).map fun d => some d.1
  rw [List.map_append] at pending
  have ordered := (orderedByPostDate_perm (listener.pending.take n)).map fun d => some d.1
  simp only [ids, postsAdded, List.map_append, List.map_map, List.append_assoc]
  exact (((ordered.append_right _).trans pending.symm).append_left _).append_left _

theorem likeFound_ids {n : Nat} {lookup : LikeLookup} (likeData : Option Dict)
    (found : c.likeLookups[n]? = some lookup) :
    (ids ({ c with likeLookups := c.likeLookups.eraseIdx n }.likeFound lookup likeData)).Perm (ids c) := by
  obtain ⟨liked, inserted⟩ := likeFound_posts { c with likeLookups := c.likeLookups.eraseIdx n } lookup likeData
  obtain ⟨inside, rfl⟩ := List.getElem?_eq_some_iff.mp found
  have moved := (List.getElem_cons_eraseIdx_perm inside).map (·.post.id)
  refine List.Perm.append_right _ ?_
  refine ((inserted.map (·.id)).append_right _).trans ?_
  exact List.perm_middle.symm.trans (moved.append_left _)

theorem handled_inv {e : MainEvent} {w : Option ServerWrite} (h : Inv lossless fs c) (counted : Counted c e)
    (losses : lossless → Lossless e) (outcome : Handled (some account) fs c e c' w) : Inv lossless fs c' := by
  cases outcome with
  | refreshPosts =>
    refine h.of_loss losses ?_ rfl
    exact (List.Sublist.append_right (List.nil_sublist _) _).append_right _
  | followsSnapshot | followsFails | userFails | tap | moved => exact h.of_perm (.refl _) rfl
  | @userFound n lookup found =>
    have erased : Inv lossless fs { c with userLookups := c.userLookups.eraseIdx n } := h.of_perm (.refl _) rfl
    exact userFound_inv erased
  | photoSnapshot delivered =>
    obtain ⟨found, rfl⟩ := deliver_ok delivered
    exact h.of_perm (photoSnapshot_ids found) (after_topics found)
  | photoFails => exact counted.elim
  | likeFound found => exact h.of_perm (likeFound_ids _ found) rfl
  | @likeFails n =>
    refine h.of_loss losses ?_ rfl
    exact (((List.eraseIdx_sublist _ n).map _).append_left _).append_right _
  | @completed n call whole posts found written posts_ok =>
    obtain ⟨p, row, same⟩ := counted call found
    obtain ⟨_, rfl⟩ := LikeCompletion.completion_ok posts_ok
    have kept : (ids { c with
        posts := c.posts.set call.closure.row { call.closure.post with liked := !call.closure.post.liked }
        likeCalls := c.likeCalls.set n { call with stage := .finished true } }) = ids c := by
      simp only [ids]
      rw [map_set_same row (by rw [← same])]
    exact h.of_perm (.of_eq kept) rfl
  | trapped => exact h.of_perm (.refl _) rfl

theorem count_ids (c : MainController) (id : String) : (ids c).count (some id) =
    (c.posts.map (·.id)).count (some id) + (c.likeLookups.map (·.post.id)).count (some id) +
      (undelivered c.photoListeners).countP fun d => decide (d.1 = id) := by
  rw [ids, List.count_append, List.count_append, Nat.add_right_inj, List.count, List.countP_map]
  refine List.countP_congr fun d _ => ?_
  simp

theorem photoPost_inv {author documentID : String} {data : PostData} (h : Inv lossless fs c)
    (applied : Firestore.Applied fs (.photoPost author documentID data) fs') :
    Inv lossless fs' (c.notify fs fs' (.photoPost author documentID data)) := by
  obtain ⟨fresh, issued⟩ : documentID ∉ fs.documentIDs ∧ fs'.documentIDs = documentID :: fs.documentIDs := by
    cases applied with
    | photoPost fresh => exact ⟨fresh, rfl⟩
  have unheld : (ids c).count (some documentID) = 0 := by
    refine List.count_eq_zero.mpr fun held => ?_
    obtain ⟨id, same, used⟩ := h.used _ held
    exact fresh (Option.some.inj same ▸ used)
  have grown : ∀ id, (ids (c.notify fs fs' (.photoPost author documentID data))).count (some id) =
      (ids c).count (some id) + if documentID = id then listening c author else 0 := fun id => by
    rw [count_ids, count_ids, notify, publish_countP, Nat.add_assoc, Nat.add_assoc, Nat.add_assoc]
    simp only [decide_eq_true_eq]
    rfl
  have topics : ∀ a, listening (c.notify fs fs' (.photoPost author documentID data)) a = listening c a := fun a => by
    rw [listening, notify, publish_topics, listening]
  constructor
  case copies =>
    intro a d hd
    rw [grown, topics]
    rcases (applied.photoPosts_mem a d).mp hd with old | ⟨rfl, rfl⟩
    · have other : documentID ≠ d.1 := fun same => fresh (same ▸ h.distinct.used a d old)
      rw [if_neg other]
      exact h.copies a d old
    · rw [if_pos rfl, unheld, Nat.zero_add]
      exact ⟨Nat.le_refl _, fun _ => rfl⟩
  case used =>
    intro x hx
    rw [issued]
    have known : x ∈ ids c → ∃ id, x = some id ∧ id ∈ documentID :: fs.documentIDs := fun held => by
      obtain ⟨id, same, used⟩ := h.used x held
      exact ⟨id, same, List.mem_cons_of_mem _ used⟩
    rcases List.mem_append.mp hx with loaded | pending
    · exact known (List.mem_append_left _ loaded)
    · obtain ⟨d, hd, rfl⟩ := List.mem_map.mp pending
      obtain ⟨l, hl, hd⟩ := mem_undelivered.mp hd
      obtain ⟨m, hm, _, _, kept | ⟨_, added⟩⟩ := publish_mem hl
      · refine known (List.mem_append_right _ (List.mem_map.mpr ⟨d, ?_, rfl⟩))
        exact mem_undelivered.mpr ⟨m, hm, kept ▸ hd⟩
      · rcases List.mem_append.mp (added ▸ hd) with old | new
        · refine known (List.mem_append_right _ (List.mem_map.mpr ⟨d, ?_, rfl⟩))
          exact mem_undelivered.mpr ⟨m, hm, old⟩
        · obtain rfl := List.mem_singleton.mp new
          exact ⟨documentID, rfl, List.mem_cons_self⟩
  case distinct => exact applied.distinctIDs h.distinct

theorem written_inv {w : ServerWrite} (h : Inv lossless fs c) (applied : Firestore.Applied fs w fs') :
    Inv lossless fs' (c.notify fs fs' w) := by
  have distinct := applied.distinctIDs h.distinct
  cases applied with
  | photoPost fresh => exact photoPost_inv h (.photoPost fresh)
  | comment =>
    refine ⟨h.copies, fun x hx => ?_, distinct⟩
    obtain ⟨id, same, used⟩ := h.used x hx
    exact ⟨id, same, List.mem_cons_of_mem _ used⟩
  | user | like => exact ⟨h.copies, h.used, distinct⟩
  | follow =>
    rw [notify]
    split <;> exact ⟨h.copies, h.used, distinct⟩

end

theorem initial_inv {lossless : Prop} (account : String) {fs : Firestore} (distinct : fs.DistinctIDs) :
    Inv lossless fs (viewDidLoad (some account) fs) :=
  ⟨fun _ _ _ => ⟨Nat.le_refl _, fun _ => rfl⟩, fun _ hx => (List.not_mem_nil hx).elim, distinct⟩

/-- Along every run in which no listener fails and each completed like finds its row: the feed holds a
stored post at most once for each listener on its author, and when no refresh and no failed read has
lost a copy it is there just that often as soon as nothing is outstanding. -/
theorem copies_counted (account : String) (fs : Firestore) (distinct : fs.DistinctIDs) (events : List Feed.Event)
    (t : Feed) (h : run (Feed.step account) (Feed.viewDidLoad account fs) events = some t)
    (counted : Along (Feed.step account) (Feed.Meets (fun _ => Counted) fun _ _ => True)
      (Feed.viewDidLoad account fs) events) (a : String) (d : String × Dict) (hd : d ∈ t.fs.photoPosts a) :
    (t.main.posts.map (·.id)).count (some d.1) ≤ listening t.main a ∧
      ((∀ e ∈ events, LosslessEvent e) → FeedComplete.Quiet t.main →
        (t.main.posts.map (·.id)).count (some d.1) = listening t.main a) := by
  have keeps : ∀ s e s', Inv (∀ e ∈ events, LosslessEvent e) s.fs s.main →
      (e ∈ events ∧ Feed.Meets (fun _ => Counted) (fun _ _ => True) s e) →
      Feed.step account s e = some s' → Inv (∀ e ∈ events, LosslessEvent e) s'.fs s'.main := by
    intro s e s' hs meets stepped
    refine Feed.step_keeps (I := Inv (∀ e ∈ events, LosslessEvent e))
      (H := fun _ c e => Counted c e ∧ .main e ∈ events) (W := fun _ _ => True)
      (fun _ _ _ _ _ _ => trivial)
      (fun _ _ e _ _ hc meets _ outcome => handled_inv hc meets.1 (fun all => all (.main e) meets.2) outcome)
      (fun _ _ _ _ hc _ applied => written_inv hc (Firestore.apply_ok applied)) hs ?_ stepped
    cases e with
    | main e => exact ⟨meets.2, meets.1⟩
    | remote w => trivial
  have inv := run_keeps_along (I := fun s : Feed => Inv (∀ e ∈ events, LosslessEvent e) s.fs s.main) keeps h
    (along_and (along_of_forall fun e he _ => he) counted) (initial_inv account distinct)
  have copies := inv.copies a d hd
  rw [count_ids] at copies
  refine ⟨by have := copies.1; omega, fun lossless quiet => ?_⟩
  have all := copies.2 lossless
  rw [quiet.likes, quiet.photos] at all
  exact all

/-- Alice likes her post, and then follows herself, which gives her a second listener. -/
def followedToo : List Feed.Event :=
  [.main (.userLookup 0 true), .remote (.photoPost "alice" "p" aPost), .main (.photoSnapshot 0 1 0),
   .main (.likeLookup 0 true), .main (.tap 0), .main (.like (.read 0 true)), .main (.like (.write 0 true)),
   .remote (.follow "alice" ⟨true, "alice", some (.int 1)⟩), .main (.followsSnapshot 0 1), .main (.userLookup 0 true),
   .main (.photoSnapshot 1 1 0), .main (.likeLookup 0 true), .main (.like (.acknowledge 0))]

instance (s : Feed) (e : Feed.Event) : Decidable (Feed.Meets (fun _ => Counted) (fun _ _ => True) s e) :=
  match e with
  | .main e => inferInstanceAs (Decidable (Counted s.main e))
  | .remote _ => isTrue trivial

theorem copies_counted_followedToo :
    ∃ t, run (Feed.step "alice") (Feed.viewDidLoad "alice" onlyAlice) followedToo = some t ∧
      listening t.main "alice" = 2 ∧ (t.main.posts.map (·.id)).count (some "p") ≤ listening t.main "alice" ∧
      ((∀ e ∈ followedToo, LosslessEvent e) → FeedComplete.Quiet t.main →
        (t.main.posts.map (·.id)).count (some "p") = listening t.main "alice") :=
  ⟨_, rfl, rfl, copies_counted "alice" onlyAlice onlyAlice_distinctIDs followedToo _ rfl (by decide) "alice"
    ("p", aPost.addData "alice") List.mem_cons_self⟩

end Foti.FeedCopies
