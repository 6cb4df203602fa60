import Foti.MainPage.Feed

/-!
The feed loses no post: when nothing is outstanding, every post of the account and of those it
follows is shown. A missing post is owed by some stage of its author's chain, and `refreshPosts`
starts the chain of every author again.
-/

namespace Foti.FeedComplete
open Document Entries Listening Transition MainController

/-- The user document that a lookup of `a` needs. Document IDs are not empty. -/
def Known (fs : Firestore) (a : String) : Prop := a ≠ "" ∧ ∃ data, fs.users a = some data ∧ (User.init data).userID = a

instance (fs : Firestore) (a : String) : Decidable (Known fs a) :=
  decidable_of_iff (a ≠ "" ∧ (fs.users a).any fun data => (User.init data).userID = a) (by
    cases h : fs.users a <;> simp [Known, h])

def Followed (fs : Firestore) (account a : String) : Prop := ∃ data, fs.follows account = some data ∧ a ∈ data

/-- Whose posts the account's feed is to show. -/
def Author (fs : Firestore) (account a : String) : Prop := a = account ∨ Followed fs account a

def AuthorsKnown (account : String) (fs : Firestore) : Prop := ∀ a, Author fs account a → Known fs a

instance (account : String) (fs : Firestore) : Decidable (AuthorsKnown account fs) :=
  decidable_of_iff (Known fs account ∧ ∀ key ∈ ((fs.follows account).map AList.keys).getD [], Known fs key) (by
    cases h : fs.follows account <;> simp [AuthorsKnown, Author, Followed, h, AList.mem_keys])

/-- Everything but likes, and nothing fails. -/
def Loading : MainEvent → Prop
  | .refreshPosts | .followsSnapshot _ _ | .userLookup _ true | .photoSnapshot _ _ _ | .likeLookup _ true => True
  | _ => False

instance : DecidablePred Loading := fun e => by unfold Loading; split <;> infer_instance

def Loads : Feed.Event → Prop
  | .main e => Loading e
  | .remote _ => True

instance : DecidablePred Loads := fun e => by unfold Loads; split <;> infer_instance

/-- No snapshot is undelivered and no lookup is outstanding. -/
structure Quiet (c : MainController) : Prop where
  follows : undelivered c.followsListeners = []
  users : c.userLookups = []
  photos : undelivered c.photoListeners = []
  likes : c.likeLookups = []

def Shown (c : MainController) (id : String) : Prop := ∃ p ∈ c.posts, p.id = some id

def Loaded (c : MainController) (id : String) : Prop := Shown c id ∨ ∃ q ∈ c.likeLookups, q.post.id = some id

/-- A listener on the posts of `a` is still to be registered. -/
def Coming (account : String) (fs : Firestore) (c : MainController) (a : String) : Prop :=
  (∃ q ∈ c.userLookups, q.uID = a) ∨
    (a ≠ account ∧ Followed fs account a ∧ ∃ f ∈ c.followsListeners, f.pending ≠ [])

def Covered (account : String) (fs : Firestore) (c : MainController) (a : String) : Prop :=
  Coming account fs c a ∨ ∃ l ∈ c.photoListeners, l.topic = a

def Owed (account : String) (fs : Firestore) (c : MainController) (a id : String) : Prop :=
  Loaded c id ∨ Coming account fs c a ∨ ∃ l ∈ c.photoListeners, l.topic = a ∧ ∃ d ∈ l.pending, d.1 = id

structure Inv (account : String) (fs : Firestore) (c : MainController) : Prop where
  own : ∃ f ∈ c.followsListeners, f.topic = account
  topics : ∀ f ∈ c.followsListeners, f.topic = account
  latest : ∀ f ∈ c.followsListeners, ∀ d, f.pending.getLast? = some d →
    ∀ a, Followed fs account a → ∃ data, d = some data ∧ a ∈ data
  known : AuthorsKnown account fs → (∀ q ∈ c.userLookups, Known fs q.uID) ∧
    ∀ f ∈ c.followsListeners, ∀ d ∈ f.pending, ∀ data, d = some data → ∀ key ∈ data, Known fs key
  covered : ∀ a, Author fs account a → Covered account fs c a
  owed : ∀ a, Author fs account a → ∀ d ∈ fs.photoPosts a, Owed account fs c a d.1

/-- What an event that does not empty the feed does to the chains. -/
structure Progress (account : String) (fs : Firestore) (c c' : MainController) : Prop where
  coming : ∀ a, Author fs account a → Coming account fs c a → Coming account fs c' a ∨
    ∃ l ∈ c'.photoListeners, l.topic = a ∧ l.pending = fs.photoPosts a
  listening : ∀ l ∈ c.photoListeners, ∃ l' ∈ c'.photoListeners, l'.topic = l.topic ∧
    ∀ d ∈ l.pending, d ∈ l'.pending ∨ Loaded c' d.1
  loaded : ∀ id, Loaded c id → Loaded c' id

theorem Progress.covered {account : String} {fs : Firestore} {c c' : MainController} {a : String}
    (p : Progress account fs c c') (author : Author fs account a) (h : Covered account fs c a) :
    Covered account fs c' a := by
  rcases h with coming | ⟨l, hl, rfl⟩
  · exact (p.coming a author coming).imp_right fun ⟨l, hl, on, _⟩ => ⟨l, hl, on⟩
  · obtain ⟨l', hl', on, _⟩ := p.listening l hl
    exact .inr ⟨l', hl', on⟩

theorem Progress.owed {account : String} {fs : Firestore} {c c' : MainController} {a : String}
    (p : Progress account fs c c') (author : Author fs account a) {d : String × Dict} (hd : d ∈ fs.photoPosts a)
    (h : Owed account fs c a d.1) : Owed account fs c' a d.1 := by
  rcases h with loaded | coming | ⟨l, hl, on, e, he, same⟩
  · exact .inl (p.loaded _ loaded)
  · rcases p.coming a author coming with coming | ⟨l, hl, on, all⟩
    · exact .inr (.inl coming)
    · exact .inr (.inr ⟨l, hl, on, d, all ▸ hd, rfl⟩)
  · obtain ⟨l', hl', on', pending⟩ := p.listening l hl
    rcases pending e he with kept | loaded
    · exact .inr (.inr ⟨l', hl', on'.trans on, e, kept, same⟩)
    · exact .inl (same ▸ loaded)

theorem Inv.of_progress {account : String} {fs : Firestore} {c c' : MainController} (h : Inv account fs c)
    (p : Progress account fs c c') (follows : c'.followsListeners = c.followsListeners)
    (lookups : ∀ q ∈ c'.userLookups, q ∈ c.userLookups) : Inv account fs c' where
  own := follows ▸ h.own
  topics := follows ▸ h.topics
  latest := follows ▸ h.latest
  known := fun users => ⟨fun q hq => (h.known users).1 q (lookups q hq), follows ▸ (h.known users).2⟩
  covered := fun a author => p.covered author (h.covered a author)
  owed := fun a author d hd => p.owed author hd (h.owed a author d hd)

theorem followed_lookup {account key : String} {c : MainController} {data : Dict} (nonempty : key ≠ "")
    (hkey : key ∈ data) : ⟨false, key⟩ ∈ (c.followed (some account) (some data)).userLookups := by
  refine List.mem_append_right _ (List.mem_filterMap.mpr ⟨key, AList.mem_keys.mp hkey, ?_⟩)
  simp [createUser, nonempty]

/-! ### Events at the screen -/

section Screen
variable {account : String} {fs : Firestore} {c : MainController}

theorem refresh_coming {a : String} (author : Author fs account a) :
    Coming account fs (c.refreshPosts (some account) fs) a := by
  by_cases own : a = account
  · exact .inl ⟨⟨true, account⟩, List.mem_append_right _ List.mem_cons_self, own.symm⟩
  · have followed := author.resolve_left own
    exact .inr ⟨own, followed, ⟨account, (), 0, [fs.follows account]⟩,
      List.mem_append_right _ List.mem_cons_self, List.cons_ne_nil _ _⟩

theorem refreshPosts_inv (h : Inv account fs c) (users : AuthorsKnown account fs) :
    Inv account fs (c.refreshPosts (some account) fs) where
  own := h.own.imp fun f hf => ⟨List.mem_append_left _ hf.1, hf.2⟩
  topics := forall_mem_concat h.topics rfl
  latest := forall_mem_concat h.latest fun d last a followed => by
    obtain rfl := Option.some.inj last
    exact followed
  known := fun _ => by
    have lookups : ∀ q ∈ (c.refreshPosts (some account) fs).userLookups, Known fs q.uID :=
      forall_mem_concat (h.known users).1 (users account (.inl rfl))
    have versions : ∀ f ∈ (c.refreshPosts (some account) fs).followsListeners, ∀ d ∈ f.pending,
        ∀ data, d = some data → ∀ key ∈ data, Known fs key := by
      refine forall_mem_concat (h.known users).2 fun d hd data same key hkey => ?_
      obtain rfl := List.mem_singleton.mp hd
      exact users key (.inr ⟨data, same, hkey⟩)
    exact ⟨lookups, versions⟩
  covered := fun _ author => .inl (refresh_coming author)
  owed := fun _ author _ _ => .inr (.inl (refresh_coming author))

theorem followsSnapshot_progress {l k : Nat} {listener : FollowsListener} {version : Option Dict}
    (h : Inv account fs c) (users : AuthorsKnown account fs) (found : c.followsListeners[l]? = some listener)
    (pending : listener.pending[k]? = some version) :
    Progress account fs c ({ c with followsListeners := c.followsListeners.set l (listener.after (k + 1)) }.followed
      (some account) version) where
  coming := fun a author coming => by
    left
    rcases coming with ⟨q, hq, rfl⟩ | ⟨other, followed, f, hf, owing⟩
    · exact .inl ⟨q, List.mem_append_left _ hq, rfl⟩
    · rcases eq_or_mem_set (listener.after (k + 1)) found hf with rfl | kept
      · by_cases left : f.pending.drop (k + 1) = []
        · have last := getLast?_of_drop_nil pending left
          obtain ⟨data, rfl, hkey⟩ := h.latest f (List.mem_of_getElem? found) version last a followed
          exact .inl ⟨_, followed_lookup (users a author).1 hkey, rfl⟩
        · have inside := (List.getElem?_eq_some_iff.mp found).1
          exact .inr ⟨other, followed, _, List.mem_set inside _, left⟩
      · exact .inr ⟨other, followed, f, kept, owing⟩
  listening := fun m hm => ⟨m, hm, rfl, fun d hd => .inl hd⟩
  loaded := fun _ loaded => loaded

theorem followsSnapshot_inv {l k : Nat} {listener : FollowsListener} {version : Option Dict}
    {listeners : List FollowsListener} (h : Inv account fs c) (users : AuthorsKnown account fs)
    (delivered : deliverVersion c.followsListeners l k = some (listener, version, listeners)) :
    Inv account fs ({ c with followsListeners := listeners }.followed (some account) version) := by
  obtain ⟨found, pending, rfl⟩ := deliverVersion_ok delivered
  have inside := (List.getElem?_eq_some_iff.mp found).1
  have listed := List.mem_of_getElem? found
  have progress := followsSnapshot_progress h users found pending
  obtain ⟨knownLookups, knownVersions⟩ := h.known users
  have lookups : ∀ q ∈ ({ c with followsListeners := c.followsListeners.set l (listener.after (k + 1)) }.followed
      (some account) version).userLookups, Known fs q.uID := by
    refine List.forall_mem_append.mpr ⟨knownLookups, fun q hq => ?_⟩
    obtain ⟨key, hkey, created⟩ := List.mem_filterMap.mp hq
    cases version with
    | none => cases hkey
    | some data =>
      have known := knownVersions listener listed _ (List.mem_of_getElem? pending) data rfl key (AList.mem_keys.mpr hkey)
      simp only [createUser, if_neg known.1, Option.map_some, Option.some.injEq] at created
      rw [← created]
      exact known
  exact {
    own := ⟨_, List.mem_set inside _, h.topics listener listed⟩
    topics := forall_mem_set h.topics (h.topics listener listed)
    latest := forall_mem_set h.latest fun d last => h.latest listener listed d (getLast?_of_drop last)
    known := fun _ => ⟨lookups,
      forall_mem_set knownVersions fun d hd => knownVersions listener listed d (List.mem_of_mem_drop hd)⟩
    covered := fun a author => progress.covered author (h.covered a author)
    owed := fun a author d hd => progress.owed author hd (h.owed a author d hd) }

theorem userFound_inv {n : Nat} {lookup : UserLookup} (h : Inv account fs c) (users : AuthorsKnown account fs)
    (found : c.userLookups[n]? = some lookup) :
    Inv account fs
      ({ c with userLookups := c.userLookups.eraseIdx n }.userFound lookup (fs.users lookup.uID) fs) := by
  obtain ⟨nonempty, data, exists_data, uid⟩ := (h.known users).1 lookup (List.mem_of_getElem? found)
  rw [exists_data]
  simp only [userFound, getPosts, uid, if_neg nonempty]
  have coming : ∀ a, Coming account fs c a →
      Coming account fs { c with userLookups := c.userLookups.eraseIdx n } a ∨ a = lookup.uID := by
    rintro a (⟨q, hq, rfl⟩ | following)
    · rcases eq_or_mem_eraseIdx found hq with rfl | kept
      · exact .inr rfl
      · exact .inl (.inl ⟨q, kept, rfl⟩)
    · exact .inl (.inr following)
  have progress : Progress account fs c { c with
      validUser := if lookup.own then some (User.init data) else c.validUser
      userLookups := c.userLookups.eraseIdx n
      photoListeners := c.photoListeners ++ [⟨lookup.uID, User.init data, (fs.photoPosts lookup.uID).length,
        fs.photoPosts lookup.uID⟩] } := {
    coming := fun a _ still => (coming a still).imp_right fun same => by
      subst same
      exact ⟨_, List.mem_append_right _ List.mem_cons_self, rfl, rfl⟩
    listening := fun m hm => ⟨m, List.mem_append_left _ hm, rfl, fun d hd => .inl hd⟩
    loaded := fun _ loaded => loaded }
  exact h.of_progress progress rfl fun q hq => List.mem_of_mem_eraseIdx hq

theorem photoSnapshot_inv {l n : Nat} {now : Timestamp} {listener : PhotoListener} {listeners : List PhotoListener}
    (h : Inv account fs c) (delivered : deliver c.photoListeners l n = some (listener, listeners)) :
    Inv account fs ({ c with photoListeners := listeners }.postsAdded (some account) listener.closure
      (orderedByPostDate (listener.pending.take n)) now) := by
  obtain ⟨found, rfl⟩ := deliver_ok delivered
  have inside := (List.getElem?_eq_some_iff.mp found).1
  have progress : Progress account fs c ({ c with photoListeners := c.photoListeners.set l (listener.after n) }.postsAdded
      (some account) listener.closure (orderedByPostDate (listener.pending.take n)) now) := by
    refine ⟨fun a author coming => .inl coming, fun m hm => ?_, fun id loaded => ?_⟩
    · rcases eq_or_mem_set (listener.after n) found hm with rfl | kept
      · refine ⟨_, List.mem_set inside _, rfl, fun d hd => ?_⟩
        rw [← List.take_append_drop n m.pending] at hd
        rcases List.mem_append.mp hd with now_loading | later
        · have added := mem_orderedByPostDate.mpr now_loading
          exact .inr (.inr ⟨_, List.mem_append_right _ (List.mem_map.mpr ⟨d, added, rfl⟩), rfl⟩)
        · exact .inl later
      · exact ⟨m, kept, rfl, fun d hd => .inl hd⟩
    · exact loaded.imp_right fun ⟨q, hq, same⟩ => ⟨q, List.mem_append_left _ hq, same⟩
  exact h.of_progress progress rfl fun q hq => hq

theorem likeFound_inv {n : Nat} {lookup : LikeLookup} {likeData : Option Dict} (h : Inv account fs c)
    (found : c.likeLookups[n]? = some lookup) :
    Inv account fs ({ c with likeLookups := c.likeLookups.eraseIdx n }.likeFound lookup likeData) := by
  obtain ⟨liked, inserted⟩ := likeFound_posts { c with likeLookups := c.likeLookups.eraseIdx n } lookup likeData
  have progress : Progress account fs c
      ({ c with likeLookups := c.likeLookups.eraseIdx n }.likeFound lookup likeData) := by
    refine ⟨fun a author coming => .inl coming, fun m hm => ⟨m, hm, rfl, fun d hd => .inl hd⟩, fun id loaded => ?_⟩
    rcases loaded with ⟨p, hp, same⟩ | ⟨q, hq, same⟩
    · exact .inl ⟨p, inserted.mem_iff.mpr (List.mem_cons_of_mem _ hp), same⟩
    · rcases eq_or_mem_eraseIdx found hq with rfl | kept
      · exact .inl ⟨_, inserted.mem_iff.mpr List.mem_cons_self, same⟩
      · exact .inr ⟨q, kept, same⟩
  exact h.of_progress progress rfl fun q hq => hq

theorem handled_inv {e : MainEvent} {c' : MainController} {w : Option ServerWrite} (h : Inv account fs c)
    (users : AuthorsKnown account fs) (loading : Loading e)
    (outcome : Handled (some account) fs c e c' w) : Inv account fs c' := by
  cases outcome with
  | refreshPosts => exact refreshPosts_inv h users
  | followsSnapshot delivered => exact followsSnapshot_inv h users delivered
  | userFound found => exact userFound_inv h users found
  | photoSnapshot delivered => exact photoSnapshot_inv h delivered
  | likeFound found => exact likeFound_inv h found
  | followsFails | userFails | photoFails | likeFails | tap | moved | completed | trapped => exact loading.elim

end Screen

/-! ### Writes -/

section Writes
variable {account : String} {fs fs' : Firestore} {c : MainController}

theorem init_addData (userName uid : String) (url : Option String) :
    (User.init (SignUpAttempt.addData userName uid url)).userID = uid := by
  rw [User.init, SignUpAttempt.addData_userID, Option.getD_some]

theorem known_kept {w : ServerWrite} {a : String} (h : Known fs a) (applied : Firestore.Applied fs w fs') :
    Known fs' a := by
  cases applied with
  | @user uid userName url =>
    obtain ⟨nonempty, data, found, same⟩ := h
    refine ⟨nonempty, ?_⟩
    by_cases written : a = uid
    · subst written
      exact ⟨_, Function.update_self .., init_addData _ _ _⟩
    · exact ⟨data, (Function.update_of_ne written ..).trans found, same⟩
  | _ => exact h

theorem unrelated_inv {w : ServerWrite} (h : Inv account fs c) (users : AuthorsKnown account fs)
    (applied : Firestore.Applied fs w fs') (posts : fs'.photoPosts = fs.photoPosts)
    (followed : ∀ a, Followed fs' account a ↔ Followed fs account a) : Inv account fs' c := by
  have known := h.known users
  have author : ∀ {a}, Author fs' account a → Author fs account a := fun h => h.imp_right (followed _).mp
  have coming : ∀ {a}, Coming account fs c a → Coming account fs' c a := fun h =>
    h.imp_right fun ⟨other, follows, owing⟩ => ⟨other, (followed _).mpr follows, owing⟩
  exact {
    own := h.own
    topics := h.topics
    latest := fun f hf d last a follows => h.latest f hf d last a ((followed a).mp follows)
    known := fun _ => ⟨fun q hq => known_kept (known.1 q hq) applied,
      fun f hf d hd data same key hkey => known_kept (known.2 f hf d hd data same key hkey) applied⟩
    covered := fun a ha => (h.covered a (author ha)).imp_left coming
    owed := fun a ha d hd => (h.owed a (author ha) d (posts ▸ hd)).imp_right (.imp_left coming) }

theorem photoPost_inv {a documentID : String} {data : PostData} (h : Inv account fs c)
    (users : AuthorsKnown account fs) (applied : Firestore.Applied fs (.photoPost a documentID data) fs') :
    Inv account fs' (c.notify fs fs' (.photoPost a documentID data)) := by
  have known := h.known users
  have stored := applied.photoPosts_mem
  have covered : ∀ b, Author fs account b → Covered account fs (c.notify fs fs' (.photoPost a documentID data)) b := by
    intro b author
    refine (h.covered b author).imp_right fun ⟨l, hl, on⟩ => ?_
    obtain ⟨l', hl', same, _⟩ := publish_keeps a (documentID, data.addData a) hl
    exact ⟨l', hl', same.trans on⟩
  cases applied
  refine ⟨h.own, h.topics, h.latest, fun _ => known, covered, fun b author d hd => ?_⟩
  rcases (stored b d).mp hd with old | ⟨rfl, rfl⟩
  · refine (h.owed b author d old).imp_right (.imp_right fun ⟨l, hl, on, e, he, same⟩ => ?_)
    obtain ⟨l', hl', on', kept, _⟩ := publish_keeps a (documentID, data.addData a) hl
    exact ⟨l', hl', on'.trans on, e, kept e he, same⟩
  · -- The new post is pending at a live listener, or its author's listener starts with it.
    rcases h.covered b author with still | ⟨l, hl, on⟩
    · exact .inr (.inl still)
    · obtain ⟨l', hl', on', _, arrived⟩ := publish_keeps b (documentID, data.addData b) hl
      exact .inr (.inr ⟨l', hl', on'.trans on, _, arrived on, rfl⟩)

theorem sameData_followed {d e : Option Dict} (same : sameData d e) (a : String) :
    (∃ data, d = some data ∧ a ∈ data) ↔ ∃ data, e = some data ∧ a ∈ data := by
  cases d with
  | none =>
    cases e with
    | none => exact .rfl
    | some e => cases same
  | some d =>
    cases e with
    | none => cases same
    | some e =>
      have perm : d.entries.Perm e.entries := of_decide_eq_true same
      have keys := (perm.map Sigma.fst).mem_iff (a := a)
      simp only [Option.some.injEq, exists_eq_left']
      exact keys

theorem follow_inv {w : Write String Value} (h : Inv account fs c) (users : AuthorsKnown account fs)
    (applied : Firestore.Applied fs (.follow account w) fs')
    (changed : sameData (fs.follows account) (fs'.follows account) = false) :
    Inv account fs' (c.notify fs fs' (.follow account w)) := by
  obtain ⟨knownLookups, knownVersions⟩ := h.known users
  obtain ⟨own, hown, onOwn⟩ := h.own
  obtain ⟨f, hf, topic, _, arrived⟩ := publish_keeps account (fs'.follows account) hown
  have posts : fs'.photoPosts = fs.photoPosts := by
    cases applied
    rfl
  rw [notify, if_neg (by simp [changed])]
  have kept : ∀ g ∈ publish account (fs'.follows account) c.followsListeners,
      ∃ m ∈ c.followsListeners, g.topic = m.topic ∧ g.pending = m.pending ++ [fs'.follows account] := by
    intro g hg
    obtain ⟨m, hm, rfl⟩ := List.mem_map.mp hg
    rw [if_pos (h.topics m hm)]
    exact ⟨m, hm, rfl, rfl⟩
  have latest : ∀ g ∈ publish account (fs'.follows account) c.followsListeners, ∀ d, g.pending.getLast? = some d →
      d = fs'.follows account := by
    intro g hg d last
    obtain ⟨m, hm, _, pending⟩ := kept g hg
    rw [pending, List.getLast?_append, List.getLast?_singleton, Option.some_or, Option.some.injEq] at last
    exact last.symm
  have versions : AuthorsKnown account fs' → ∀ g ∈ publish account (fs'.follows account) c.followsListeners,
      ∀ d ∈ g.pending, ∀ data, d = some data → ∀ key ∈ data, Known fs' key := by
    intro users' g hg d hd data same key hkey
    obtain ⟨m, hm, _, pending⟩ := kept g hg
    rw [pending] at hd
    rcases List.mem_append.mp hd with old | new
    · exact known_kept (knownVersions m hm d old data same key hkey) applied
    · exact users' key (.inr ⟨data, (List.mem_singleton.mp new).symm.trans same, hkey⟩)
  -- The new version will start a lookup of every followed user. The account's own one is not its concern.
  have others : ∀ a, Author fs' account a → a ≠ account → Coming account fs'
      { c with followsListeners := publish account (fs'.follows account) c.followsListeners } a := fun a author other =>
    .inr ⟨other, author.resolve_left other, f, hf, List.ne_nil_of_mem (arrived onOwn)⟩
  have self : Coming account fs c account → Coming account fs'
      { c with followsListeners := publish account (fs'.follows account) c.followsListeners } account := by
    rintro (lookup | ⟨other, _⟩)
    · exact .inl lookup
    · exact (other rfl).elim
  constructor
  case own => exact ⟨f, hf, topic.trans onOwn⟩
  case topics =>
    intro g hg
    obtain ⟨m, hm, same, _⟩ := kept g hg
    exact same.trans (h.topics m hm)
  case latest => exact fun g hg d last a follows => latest g hg d last ▸ follows
  case known => exact fun users' => ⟨fun q hq => known_kept (knownLookups q hq) applied, versions users'⟩
  case covered =>
    intro a author
    by_cases own : a = account
    · subst own
      exact (h.covered a (.inl rfl)).imp_left self
    · exact .inl (others a author own)
  case owed =>
    intro a author d hd
    by_cases own : a = account
    · subst own
      exact (h.owed a (.inl rfl) d (posts ▸ hd)).imp_right (.imp_left self)
    · exact .inr (.inl (others a author own))

theorem written_inv {w : ServerWrite} (h : Inv account fs c) (users : AuthorsKnown account fs)
    (applied : Firestore.Applied fs w fs') : Inv account fs' (c.notify fs fs' w) := by
  cases w with
  | photoPost a documentID data => exact photoPost_inv h users applied
  | follow accountUserID w =>
    cases same : sameData (fs.follows accountUserID) (fs'.follows accountUserID) with
    | true =>
      rw [notify, if_pos same]
      refine unrelated_inv h users applied (by cases applied; rfl) fun a => ?_
      by_cases own : accountUserID = account
      · subst own
        exact (sameData_followed same a).symm
      · cases applied
        simp only [Followed, Function.update_of_ne (Ne.symm own)]
    | false =>
      by_cases own : accountUserID = account
      · subst own
        exact follow_inv h users applied same
      · have off : publish accountUserID (fs'.follows accountUserID) c.followsListeners = c.followsListeners :=
          publish_off fun f hf topic => own (topic.symm.trans (h.topics f hf))
        rw [notify, if_neg (by simp [same]), off]
        refine unrelated_inv h users applied (by cases applied; rfl) fun a => ?_
        cases applied
        simp only [Followed, Function.update_of_ne (Ne.symm own)]
  | _ => exact unrelated_inv h users applied (by cases applied; rfl) fun a => by cases applied; rfl

end Writes

/-! ### Runs -/

theorem initial_inv (account : String) (fs : Firestore) : Inv account fs (viewDidLoad (some account) fs) := by
  have coming : ∀ a, Author fs account a → Coming account fs (viewDidLoad (some account) fs) a := by
    intro a author
    by_cases own : a = account
    · exact .inl ⟨⟨true, account⟩, List.mem_cons_self, own.symm⟩
    · exact .inr ⟨own, author.resolve_left own, ⟨account, (), 0, [fs.follows account]⟩, List.mem_cons_self,
        List.cons_ne_nil _ _⟩
  have latest : ∀ f ∈ (viewDidLoad (some account) fs).followsListeners, ∀ d, f.pending.getLast? = some d →
      d = fs.follows account := by
    intro f hf d last
    obtain rfl := List.mem_singleton.mp hf
    exact (Option.some.inj last).symm
  have versions : AuthorsKnown account fs → ∀ f ∈ (viewDidLoad (some account) fs).followsListeners,
      ∀ d ∈ f.pending, ∀ data, d = some data → ∀ key ∈ data, Known fs key := by
    intro users f hf d hd data same key hkey
    obtain rfl := List.mem_singleton.mp hf
    obtain rfl := List.mem_singleton.mp hd
    exact users key (.inr ⟨data, same, hkey⟩)
  exact {
    own := ⟨_, List.mem_cons_self, rfl⟩
    topics := List.forall_mem_singleton.mpr rfl
    latest := fun f hf d last a follows => latest f hf d last ▸ follows
    known := fun users => ⟨List.forall_mem_singleton.mpr (users account (.inl rfl)), versions users⟩
    covered := fun a author => .inl (coming a author)
    owed := fun a author d _ => .inr (.inl (coming a author)) }

theorem reachable_inv {account : String} {fs : Firestore} {events : List Feed.Event} {t : Feed}
    (h : run (Feed.step account) (Feed.viewDidLoad account fs) events = some t) (loads : ∀ e ∈ events, Loads e)
    (known : Along (Feed.step account) (fun s _ => AuthorsKnown account s.fs) (Feed.viewDidLoad account fs) events) :
    Inv account t.fs t.main := by
  have keeps : ∀ s e s', Inv account s.fs s.main → (Loads e ∧ AuthorsKnown account s.fs) →
      Feed.step account s e = some s' → Inv account s'.fs s'.main := by
    intro s e s' hs meets stepped
    refine Feed.step_keeps (I := Inv account) (H := fun fs _ e => Loading e ∧ AuthorsKnown account fs)
      (W := fun fs _ => AuthorsKnown account fs) (fun _ _ _ _ _ meets => meets.2)
      (fun _ _ _ _ _ hc meets _ outcome => handled_inv hc meets.2 meets.1 outcome)
      (fun _ _ _ _ hc known applied => written_inv hc known (Firestore.apply_ok applied)) hs ?_ stepped
    cases e with
    | main e => exact meets
    | remote w => exact meets.2
  exact run_keeps_along (I := fun s : Feed => Inv account s.fs s.main) keeps h
    (along_and (along_of_forall fun e he _ => loads e he) known) (initial_inv account fs)

theorem Inv.shown {account : String} {fs : Firestore} {c : MainController} (h : Inv account fs c) (quiet : Quiet c)
    {a : String} (author : Author fs account a) : ∀ d ∈ fs.photoPosts a, Shown c d.1 := by
  intro d hd
  rcases h.owed a author d hd with (shown | ⟨q, hq, _⟩) | (⟨q, hq, _⟩ | ⟨_, _, f, hf, owing⟩) | ⟨l, hl, _, e, he, _⟩
  · exact shown
  · rw [quiet.likes] at hq
    cases hq
  · rw [quiet.users] at hq
    cases hq
  · obtain ⟨version, hversion⟩ := List.exists_mem_of_ne_nil _ owing
    have pending := mem_undelivered.mpr ⟨f, hf, hversion⟩
    rw [quiet.follows] at pending
    cases pending
  · have pending := mem_undelivered.mpr ⟨l, hl, he⟩
    rw [quiet.photos] at pending
    cases pending

/-- From `viewDidLoad`, through any loading and any writes, every post of the account and of the users
it follows is in the feed as soon as nothing is outstanding. -/
theorem loads_everything (account : String) (fs : Firestore) (events : List Feed.Event) (t : Feed)
    (h : run (Feed.step account) (Feed.viewDidLoad account fs) events = some t) (loads : ∀ e ∈ events, Loads e)
    (known : Along (Feed.step account) (fun s _ => AuthorsKnown account s.fs) (Feed.viewDidLoad account fs) events)
    (quiet : Quiet t.main) (a : String) (author : Author t.fs account a) :
    ∀ d ∈ t.fs.photoPosts a, Shown t.main d.1 :=
  (reachable_inv h loads known).shown quiet author

def postOf (message : String) (date : Timestamp) : PostData :=
  { imageURL := "url", message, photo := ⟨0, 0⟩, date }

def aliceFollowsBob : Firestore where
  users := fun uid => if uid = "alice" ∨ uid = "bob" then some (SignUpAttempt.addData uid uid (some "url")) else none
  photoPosts := fun author => if author = "bob" then [("p", (postOf "hello" 1).addData "bob")] else []
  follows := fun account => if account = "alice" then some (dict [("bob", .int 1)]) else none
  documentIDs := ["p"]

def loading : List Feed.Event :=
  [.main (.followsSnapshot 0 0), .main (.userLookup 0 true), .main (.userLookup 0 true), .main (.photoSnapshot 0 0 0),
   .remote (.photoPost "bob" "q" (postOf "again" 2)), .main (.photoSnapshot 1 2 0), .main (.likeLookup 1 true),
   .main (.likeLookup 0 true)]

theorem loads_everything_bob : ∃ t, run (Feed.step "alice") (Feed.viewDidLoad "alice" aliceFollowsBob) loading = some t ∧
    Shown t.main "q" :=
  ⟨_, rfl, loads_everything "alice" aliceFollowsBob loading _ rfl (by decide) (by decide)
    ⟨rfl, rfl, rfl, rfl⟩ "bob" (.inr ⟨_, rfl, by decide⟩) ("q", (postOf "again" 2).addData "bob")
    (List.mem_cons_of_mem _ List.mem_cons_self)⟩

end Foti.FeedComplete
