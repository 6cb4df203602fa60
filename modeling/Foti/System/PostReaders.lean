import Foti.MainPage.FeedComplete
import Foti.MainPage.MainPostCell
import Foti.System.Attribution

/-!
The two readers of a user's posts over one store: the account's feed, and a profile that the account
visits. Both build the same `Post` and draw it with the same cell, but only the feed's reader sets the
ID and looks the like up.
-/

namespace Foti.PostReaders
open Document Entries Listening Transition MainController FeedComplete Attribution

/-- `Likes/{id}` holds 1 for the account. -/
def Liked (account : String) (fs : Firestore) (id : String) : Prop := asInt (value (fs.likes id) account) = some 1

instance (account : String) (fs : Firestore) (id : String) : Decidable (Liked account fs id) :=
  inferInstanceAs (Decidable (_ = _))

/-- The post has the data of document `d` of the user `u`, up to the fields set after `init`. -/
def MadeFrom (u : String) (d : String × Dict) (p : Post) : Prop :=
  p.user.userID = u ∧ ∃ now, { p with id := none, liked := false } = Post.init now p.user d.2

/-! ### The feed's reader -/

/-- Every post shown or on its way has an ID, and its flag is that of the document of its likes. -/
structure Marked (account : String) (fs : Firestore) (c : MainController) : Prop where
  lookups : ∀ q ∈ c.likeLookups, q.validUserID = account ∧ q.post.id = some q.postID
  posts : ∀ q ∈ c.posts, ∃ id, q.id = some id ∧ q.liked = decide (Liked account fs id)

section Feed
variable {account u : String} {fs : Firestore}

theorem loading_step {s t : Feed} {e : MainEvent} (loading : Loading e)
    (stepped : Feed.step account s (.main e) = some t) :
    t.fs = s.fs ∧ Handled (some account) s.fs s.main e t.main none := by
  obtain ⟨⟨main, w⟩, handled, stepped⟩ := Option.bind_eq_some_iff.mp stepped
  obtain ⟨_, outcome⟩ := handle_ok handled
  cases w with
  | none =>
    obtain rfl := Option.some.inj stepped
    exact ⟨rfl, outcome⟩
  | some w =>
    cases outcome with
    | moved => exact loading.elim

theorem marked_ok {c c' : MainController} {e : MainEvent} (h : Marked account fs c) (loading : Loading e)
    (outcome : Handled (some account) fs c e c' none) : Marked account fs c' := by
  cases outcome with
  | refreshPosts => exact { h with posts := fun _ hq => (List.not_mem_nil hq).elim }
  | followsSnapshot => exact { h with }
  | @userFound n lookup found =>
    obtain ⟨_, _, _, same, _⟩ := userFound_cases { c with userLookups := c.userLookups.eraseIdx n } lookup
      (fs.users lookup.uID) fs
    rw [same]
    exact { h with }
  | photoSnapshot =>
    refine { h with lookups := List.forall_mem_append.mpr ⟨h.lookups, fun q hq => ?_⟩ }
    obtain ⟨d, _, rfl⟩ := List.mem_map.mp hq
    exact ⟨rfl, rfl⟩
  | @likeFound n lookup found =>
    obtain ⟨signedIn, hasID⟩ := h.lookups lookup (List.mem_of_getElem? found)
    refine ⟨forall_mem_eraseIdx h.lookups, fun q hq => ?_⟩
    have inserted := List.mem_reverse.mp ((List.mem_insertionSort newerFirst).mp hq)
    refine forall_mem_concat h.posts ?_ q inserted
    exact ⟨lookup.postID, hasID, by rw [← signedIn]; rfl⟩
  | followsFails | userFails | photoFails | likeFails | tap | moved | completed | trapped => exact loading.elim

structure FeedOk (account : String) (fs : Firestore) (s : Feed) : Prop where
  store : s.fs = fs
  stored : MainOk fs s.main
  marked : Marked account fs s.main
  owed : FeedComplete.Inv account fs s.main

theorem feed_ok {events : List MainEvent} {s : Feed} (known : AuthorsKnown account fs)
    (h : run (Feed.step account) (Feed.viewDidLoad account fs) (events.map .main) = some s)
    (loads : ∀ e ∈ events, Loading e) : FeedOk account fs s := by
  have initial : FeedOk account fs (Feed.viewDidLoad account fs) := by
    refine ⟨rfl, opened_ok (some account) .main (fun _ _ hd => hd), ?_, initial_inv account fs⟩
    constructor <;> exact fun _ h => (List.not_mem_nil h).elim
  refine run_map_keeps (fun e he s t hs stepped => ?_) h initial
  obtain ⟨store, outcome⟩ := loading_step (loads e he) stepped
  rw [hs.store] at outcome
  exact ⟨store.trans hs.store, main_ok hs.stored (fun _ _ hd => hd) outcome, marked_ok hs.marked (loads e he) outcome,
    handled_inv hs.owed known (loads e he) outcome⟩

end Feed

/-! ### The profile's reader -/

def profileStep (currentUser : Option String) (fs : Firestore) (c : UserProfileController) (e : ProfileEvent) :
    Option UserProfileController :=
  (c.handle currentUser fs e).map Prod.fst

def ProfileLoading : ProfileEvent → Prop
  | .userLookup true | .photoSnapshot .. => True
  | _ => False

instance : DecidablePred ProfileLoading
  | .userLookup true | .photoSnapshot .. => inferInstanceAs (Decidable True)
  | .userLookup false | .photoFails _ | .configure _ | .followRead .. | .tap _ | .follow _ =>
    inferInstanceAs (Decidable False)

structure ProfileQuiet (c : UserProfileController) : Prop where
  user : c.userLookup = none
  photos : undelivered c.photoListeners = []

def PlainPost (fs : Firestore) (user : User) (p : Post) : Prop :=
  ∃ d ∈ fs.photoPosts user.userID, ∃ now, p = Post.init now user d.2

/-- The profile of `u` waits for its user, or each of the user's documents is pending or shown. -/
inductive ProfileInv (fs : Firestore) (u : String) (c : UserProfileController) : Prop where
  | asked (lookup : c.userLookup = some u) (empty : c.posts = []) (unlistened : c.photoListeners = [])
  | listening (user : User) (listener : Listener String Unit (String × Dict)) (answered : c.userLookup = none)
      (found : c.validUser = some user) (uid : user.userID = u) (listens : c.photoListeners = [listener])
      (stored : ∀ d ∈ listener.pending, d ∈ fs.photoPosts u)
      (owed : ∀ d ∈ fs.photoPosts u, d ∈ listener.pending ∨ ∃ p ∈ c.posts, ∃ now, p = Post.init now user d.2)
      (posts : ∀ p ∈ c.posts, PlainPost fs user p)

section Profile
variable {currentUser : Option String} {u : String} {fs : Firestore} {c c' : UserProfileController}

theorem snapshot_posts {user : User} (changes : List (String × Dict)) (now : Timestamp)
    (found : c.validUser = some user) (p : Post) :
    p ∈ (c.postsAdded changes now).posts ↔ p ∈ c.posts ∨ ∃ d ∈ changes, p = Post.init now user d.2 := by
  simp only [UserProfileController.postsAdded, found, ProfilePosts.getPostFS_eq, ProfilePosts.Snapshot.added,
    List.mem_reverse, List.mem_append, List.mem_map, List.mem_filter]
  constructor
  · rintro (old | ⟨_, ⟨⟨d, hd, rfl⟩, _⟩, rfl⟩)
    · exact .inl old
    · exact .inr ⟨d, hd, rfl⟩
  · rintro (old | ⟨d, hd, rfl⟩)
    · exact .inl old
    · exact .inr ⟨_, ⟨⟨d, hd, rfl⟩, rfl⟩, rfl⟩

theorem snapshot_same {user : User} (changes : List (String × Dict)) (now : Timestamp) (found : c.validUser = some user) :
    (c.postsAdded changes now).userLookup = c.userLookup ∧ (c.postsAdded changes now).validUser = c.validUser ∧
      (c.postsAdded changes now).photoListeners = c.photoListeners := by
  simp only [UserProfileController.postsAdded, found, and_self]

theorem profileStep_inv {e : ProfileEvent} (known : Known fs u) (h : ProfileInv fs u c) (loading : ProfileLoading e)
    (stepped : profileStep currentUser fs c e = some c') : ProfileInv fs u c' := by
  obtain ⟨⟨_, write⟩, handled, rfl⟩ := Option.map_eq_some_iff.mp stepped
  cases UserProfileController.handle_ok handled with
  | userFound waits =>
    cases h with
    | listening _ _ answered =>
      rw [answered] at waits
      cases waits
    | asked asked empty unlistened =>
      obtain rfl := Option.some.inj (asked.symm.trans waits)
      obtain ⟨nonempty, data, stored, uid⟩ := known
      simp only [UserProfileController.userFound, stored, UserProfileController.getPostFS, uid,
        if_neg nonempty, unlistened, List.nil_append]
      exact .listening (User.init data) _ rfl rfl uid rfl (fun d hd => hd) (fun d hd => .inl hd) (by simp [empty])
  | @photoSnapshot l n now listener listeners delivered =>
    obtain ⟨there, rfl⟩ := deliver_ok delivered
    cases h with
    | asked _ _ unlistened =>
      rw [unlistened] at there
      cases there
    | listening user own answered found uid listens stored owed posts =>
      -- The user was looked up once, so the listener that delivers is the only one.
      rw [listens, List.getElem?_singleton] at there
      obtain ⟨rfl, same⟩ := Option.ite_none_right_eq_some.mp there
      obtain rfl := Option.some.inj same
      have added := snapshot_posts (c := { c with photoListeners := c.photoListeners.set 0 (own.after n) })
        (orderedByPostDate (own.pending.take n)) now found
      obtain ⟨kept, shown, left⟩ := snapshot_same
        (c := { c with photoListeners := c.photoListeners.set 0 (own.after n) })
        (orderedByPostDate (own.pending.take n)) now found
      refine .listening user (own.after n) (kept.trans answered) (shown.trans found) uid
        (left.trans (by rw [listens]; rfl)) ?_ ?_ ?_
      · exact fun d hd => stored d (List.mem_of_mem_drop hd)
      · intro d hd
        rcases owed d hd with pending | ⟨p, hp, now', made⟩
        · rw [← List.take_append_drop n own.pending] at pending
          rcases List.mem_append.mp pending with delivered | later
          · exact .inr ⟨_, (added _).mpr (.inr ⟨d, mem_orderedByPostDate.mpr delivered, rfl⟩), now, rfl⟩
          · exact .inl later
        · exact .inr ⟨p, (added p).mpr (.inl hp), now', made⟩
      · intro p hp
        rcases (added p).mp hp with old | ⟨d, hd, rfl⟩
        · exact posts p old
        · exact ⟨d, uid ▸ stored d (List.mem_of_mem_take (mem_orderedByPostDate.mp hd)), now, rfl⟩
  | userFails | photoFails | configure | followRead | followReadFails | tap | moved | completed => exact loading.elim

theorem profile_inv {userID : Option String} {account : String} {events : List ProfileEvent}
    (visits : userID.getD account = u) (known : Known fs u)
    (h : run (profileStep (some account) fs) (UserProfileController.viewDidLoad userID (some account)) events = some c)
    (loads : ∀ e ∈ events, ProfileLoading e) : ProfileInv fs u c := by
  have initial : ProfileInv fs u (UserProfileController.viewDidLoad userID (some account)) := by
    have valid : (userID.or (some account)).getD "" = u := by
      cases userID <;> exact visits
    rw [UserProfileController.viewDidLoad, valid, if_neg known.1]
    exact .asked rfl rfl rfl
  exact run_keeps_along (fun _ _ _ hs loading stepped => profileStep_inv known hs loading stepped) h
    (along_of_forall fun e he _ => loads e he) initial

theorem ProfileInv.unmarked (h : ProfileInv fs u c) : ∀ p ∈ c.posts, p.id = none := by
  intro p hp
  cases h with
  | asked _ empty =>
    rw [empty] at hp
    cases hp
  | listening _ _ _ _ _ _ _ _ posts =>
    obtain ⟨_, _, _, rfl⟩ := posts p hp
    rfl

theorem ProfileInv.loaded (h : ProfileInv fs u c) (quiet : ProfileQuiet c) :
    ∀ d ∈ fs.photoPosts u, ∃ p ∈ c.posts, p.liked = false ∧ MadeFrom u d p := by
  intro d hd
  cases h with
  | asked lookup =>
    rw [quiet.user] at lookup
    cases lookup
  | listening user listener _ _ uid listens _ owed _ =>
    rcases owed d hd with pending | ⟨p, hp, now, rfl⟩
    · have undelivered := mem_undelivered.mpr ⟨listener, listens ▸ List.mem_singleton_self _, pending⟩
      rw [quiet.photos] at undelivered
      cases undelivered
    · exact ⟨_, hp, rfl, uid, now, rfl⟩

end Profile

/-! ### Both readers -/

section Both
variable {URL : Type*}

def icon (url : String → Option URL) (now : Timestamp) (p : Post) : LikeImage :=
  (({} : MainPostCell URL).didSet url now (some p)).btnLike

/-- Two posts of one document agree, and their icons show what the document of its likes holds. -/
structure Agree (url : String → Option URL) (now : Timestamp) (account : String) (fs : Firestore) (documentID : String)
    (p q : Post) : Prop where
  id : p.id = q.id
  liked : p.liked = q.liked
  icons : icon url now p = icon url now q
  selected : icon url now q = .selected ↔ Liked account fs documentID

/-- Every document of `u` is held by both readers, and their posts agree. -/
def ReadersAgree (url : String → Option URL) (now : Timestamp) (account u : String) (fs : Firestore)
    (profilePosts feedPosts : List Post) : Prop :=
  ∀ d ∈ fs.photoPosts u, ∃ p ∈ profilePosts, ∃ q ∈ feedPosts, MadeFrom u d p ∧ MadeFrom u d q ∧
    Agree url now account fs d.1 p q

theorem madeFrom_of_shown {fs : Firestore} {u : String} {d : String × Dict} {q : Post} (distinct : fs.DistinctIDs)
    (hd : d ∈ fs.photoPosts u) (stored : OfDocument fs q) (hasID : q.id = some d.1) : MadeFrom u d q := by
  obtain ⟨d', hd', made, same⟩ := stored
  have same := same d.1 hasID
  obtain rfl := distinct.disjoint u q.user.userID d hd d' hd' same
  obtain rfl := List.inj_on_of_nodup_map (distinct.nodup q.user.userID) hd hd' same
  exact ⟨rfl, made⟩

/-- When both screens have loaded a user's posts, both hold a post for each document, the feed's with
the ID and the like and the profile's without. So they agree exactly when there is no document. -/
theorem readers_agree_iff (url : String → Option URL) (now : Timestamp) (account u : String) (fs : Firestore)
    (distinct : fs.DistinctIDs) (known : AuthorsKnown account fs) (author : Author fs account u)
    (mainEvents : List MainEvent) (feed : Feed)
    (feedRan : run (Feed.step account) (Feed.viewDidLoad account fs) (mainEvents.map .main) = some feed)
    (feedLoads : ∀ e ∈ mainEvents, Loading e) (feedQuiet : Quiet feed.main)
    (userID : Option String) (visits : userID.getD account = u) (profileEvents : List ProfileEvent)
    (profile : UserProfileController)
    (profileRan : run (profileStep (some account) fs) (UserProfileController.viewDidLoad userID (some account))
      profileEvents = some profile)
    (profileLoads : ∀ e ∈ profileEvents, ProfileLoading e) (profileQuiet : ProfileQuiet profile) :
    (ReadersAgree url now account u fs profile.posts feed.main.posts ↔ fs.photoPosts u = []) ∧
    ∀ d ∈ fs.photoPosts u, ∃ p ∈ profile.posts, ∃ q ∈ feed.main.posts, MadeFrom u d p ∧ MadeFrom u d q ∧
      p.id = none ∧ q.id = some d.1 ∧ (p.liked = q.liked ↔ ¬ Liked account fs d.1) := by
  have ok := feed_ok known feedRan feedLoads
  have inv := profile_inv visits (known u author) profileRan profileLoads
  constructor
  · refine ⟨fun agree => List.eq_nil_iff_forall_not_mem.mpr fun d hd => ?_, fun empty d hd => ?_⟩
    · -- The feed's posts have IDs and the profile's have none, so no two of them agree.
      obtain ⟨p, hp, q, hq, _, _, agrees⟩ := agree d hd
      obtain ⟨id, hasID, _⟩ := ok.marked.posts q hq
      have same := agrees.id
      rw [inv.unmarked p hp, hasID] at same
      cases same
    · rw [empty] at hd
      cases hd
  · intro d hd
    obtain ⟨q, hq, hasID⟩ := ok.owed.shown feedQuiet author d hd
    obtain ⟨p, hp, plain, made⟩ := inv.loaded profileQuiet d hd
    obtain ⟨id, hasID', flag⟩ := ok.marked.posts q hq
    obtain rfl := Option.some.inj (hasID.symm.trans hasID')
    refine ⟨p, hp, q, hq, made, madeFrom_of_shown distinct hd (ok.stored.posts q hq) hasID, ?_, hasID, ?_⟩
    · exact inv.unmarked p hp
    · rw [plain, flag, eq_comm, decide_eq_false_iff_not]

end Both

def aliceLikes : Firestore :=
  { aliceFollowsBob with likes := fun id => if id = "p" then some (dict [("alice", .int 1)]) else none }

theorem aliceLikes_distinctIDs : aliceLikes.DistinctIDs := by
  have only : ∀ author, ∀ d ∈ aliceLikes.photoPosts author, author = "bob" ∧ d.1 = "p" := by
    intro author d hd
    obtain ⟨own, hd⟩ : author = "bob" ∧ d ∈ [("p", (postOf "hello" 1).addData "bob")] := by
      simpa [aliceLikes, aliceFollowsBob] using hd
    exact ⟨own, congrArg Prod.fst (List.mem_singleton.mp hd)⟩
  refine ⟨fun author d hd => ?_, fun author => ?_, fun a b x hx y hy _ => ?_⟩
  · exact (only author d hd).2 ▸ List.mem_singleton_self _
  · simp only [aliceLikes, aliceFollowsBob]
    split
    · exact List.nodup_singleton _
    · exact List.nodup_nil
  · exact (only a x hx).1.trans (only b y hy).1.symm

def feedLoads : List MainEvent :=
  [.followsSnapshot 0 0, .userLookup 0 true, .userLookup 0 true, .photoSnapshot 0 0 0, .photoSnapshot 1 1 0,
   .likeLookup 0 true]

def profileLoads : List ProfileEvent := [.userLookup true, .photoSnapshot 0 1 0]

theorem readers_agree_iff_bob :
    ∃ feed profile, run (Feed.step "alice") (Feed.viewDidLoad "alice" aliceLikes) (feedLoads.map .main) = some feed ∧
      run (profileStep (some "alice") aliceLikes) (UserProfileController.viewDidLoad (some "bob") (some "alice"))
        profileLoads = some profile ∧
      (ReadersAgree some 1 "alice" "bob" aliceLikes profile.posts feed.main.posts ↔ aliceLikes.photoPosts "bob" = []) :=
  ⟨_, _, rfl, rfl, (readers_agree_iff some 1 "alice" "bob" aliceLikes aliceLikes_distinctIDs (by decide)
    (.inr ⟨_, rfl, by decide⟩) feedLoads _ rfl (by decide) ⟨rfl, rfl, rfl, rfl⟩ (some "bob") rfl profileLoads _ rfl
    (by decide) ⟨rfl, rfl⟩).1⟩

/-- The feed shows the post with its ID and liked, the profile without an ID and not liked. -/
theorem readers_differ :
    ∃ feed profile p q,
      run (Feed.step "alice") (Feed.viewDidLoad "alice" aliceLikes) (feedLoads.map .main) = some feed ∧
      Quiet feed.main ∧
      run (profileStep (some "alice") aliceLikes) (UserProfileController.viewDidLoad (some "bob") (some "alice"))
        profileLoads = some profile ∧
      ProfileQuiet profile ∧ feed.main.posts = [q] ∧ profile.posts = [p] ∧ Liked "alice" aliceLikes "p" ∧
      q.id = some "p" ∧ q.liked = true ∧ icon some 1 q = .selected ∧
      p.id = none ∧ p.liked = false ∧ icon some 1 p = .notSelected ∧
      ¬ ReadersAgree some 1 "alice" "bob" aliceLikes profile.posts feed.main.posts := by
  refine ⟨_, _, _, _, rfl, ⟨rfl, rfl, rfl, rfl⟩, rfl, ⟨rfl, rfl⟩, rfl, rfl, by decide, rfl, rfl, rfl, rfl, rfl, rfl, ?_⟩
  intro agree
  obtain ⟨p, hp, q, hq, _, _, agrees⟩ := agree ("p", (postOf "hello" 1).addData "bob") List.mem_cons_self
  obtain rfl := List.mem_singleton.mp hp
  obtain rfl := List.mem_singleton.mp hq
  exact absurd agrees.id (by decide)

end Foti.PostReaders
