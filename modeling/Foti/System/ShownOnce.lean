import Foti.MainPage.CommentSnapshots
import Foti.System.LocalRuns

/-!
Profiles and comment lists show a document at most once, also where they show what the server does not have:
each of these screens attaches one listener, and what Firestore gives it is accounted for. Only a comment that
the server refuses may be shown twice. Once the listener has caught up they show all that it was given.
-/

namespace Foti.ShownOnce
open Attribution CommentSnapshots Document Entries Listening Transition

section
variable {seen fs fs' : Firestore} {given : List (String × Dict)} {currentUser : Option String}
  {issuers : List (String × String)}

/-! ### Profiles -/

/-- The profile waits for its user, or its posts are made from what its listener has delivered. -/
inductive ProfileOnce (fs : Firestore) (given : List (String × Dict)) (c : UserProfileController) : Prop where
  | waiting (unknown : c.validUser = none) (empty : c.posts = []) (unlistened : c.photoListeners = [])
      (nothing : given = [])
  | listening {user : User} {taken : List (String × Dict)} (found : c.validUser = some user)
      (answered : c.userLookup = none) (issued : ∀ d ∈ given, d ∈ fs.photoPosts user.userID)
      (tracks : Tracks given user.userID taken c.photoListeners)
      (posts : ∀ now, c.posts.Perm (taken.map fun d => Post.init now user d.2))

/-- A stored post has a date, so the reader's clock does not matter. -/
theorem init_dated {author : String} {data : Dict} (form : PostForm author data) (user : User) (now now' : Timestamp) :
    Post.init now user data = Post.init now' user data := by
  obtain ⟨date, found⟩ := form.2.1
  simp [Post.init, found, asTimestamp]

theorem ProfileOnce.same {c c' : UserProfileController} (h : ProfileOnce fs given c) (user : c'.validUser = c.validUser)
    (posts : c'.posts = c.posts) (lookup : c'.userLookup = c.userLookup)
    (listeners : c'.photoListeners = c.photoListeners) : ProfileOnce fs given c' := by
  cases h with
  | waiting unknown empty unlistened nothing =>
    exact .waiting (user.trans unknown) (posts.trans empty) (listeners.trans unlistened) nothing
  | listening found answered issued tracks made =>
    exact .listening (user.trans found) (lookup.trans answered) issued (listeners ▸ tracks) (posts ▸ made)

/-- The listener starts with nothing. -/
theorem userFound_once {c : UserProfileController} {uID : String} (h : ProfileOnce fs given c)
    (waits : c.userLookup = some uID) (unread : ∀ author, seen.photoPosts author = []) :
    ProfileOnce fs given ({ c with userLookup := none }.userFound (seen.users uID) seen) := by
  cases h with
  | listening _ answered => cases answered.symm.trans waits
  | waiting unknown empty unlistened nothing =>
    subst nothing
    cases seen.users uID with
    | none => exact .waiting unknown empty unlistened rfl
    | some data =>
      have none_shown : ∀ now, c.posts.Perm (([] : List (String × Dict)).map fun d => Post.init now (User.init data) d.2) :=
        fun _ => List.Perm.of_eq empty
      simp only [UserProfileController.userFound, UserProfileController.getPostFS, unlistened, List.nil_append, unread]
      split
      · exact .listening rfl rfl (List.forall_mem_nil _) (.ended List.nil_subperm) none_shown
      · exact .listening rfl rfl (List.forall_mem_nil _) (.live rfl (.refl _)) none_shown

theorem postsAdded_once {c : UserProfileController} {l n : Nat} {now : Timestamp}
    {listener : Listener String Unit (String × Dict)} {rest : List (Listener String Unit (String × Dict))}
    (store : WellFormed fs issuers) (h : ProfileOnce fs given c)
    (delivered : deliver c.photoListeners l n = some (listener, rest)) :
    ProfileOnce fs given ({ c with photoListeners := rest }.postsAdded (orderedByPostDate (listener.pending.take n)) now) := by
  cases h with
  | waiting _ _ unlistened =>
    rw [unlistened] at delivered
    cases delivered
  | @listening user taken found answered issued tracks posts =>
    have tracks' := tracks.deliver delivered
    have dated : ∀ d ∈ listener.pending.take n, PostForm user.userID d.2 := fun d hd =>
      (store.posts user.userID d (issued d (tracks'.within.subset (List.mem_append_right _ hd)))).1
    simp only [UserProfileController.postsAdded, found]
    refine .listening rfl answered issued tracks' fun now' => ?_
    have added : ((orderedByPostDate (listener.pending.take n)).map fun d => Post.init now user d.2).Perm
        ((listener.pending.take n).map fun d => Post.init now' user d.2) := by
      refine ((orderedByPostDate_perm _).map _).trans (List.Perm.of_eq (List.map_congr_left fun d hd => ?_))
      exact init_dated (dated d hd) user now now'
    rw [ProfilePosts.getPostFS_eq, List.map_append]
    refine (List.reverse_perm _).trans ((posts now').append ?_)
    simpa [ProfilePosts.Snapshot.added, List.filter_map, Function.comp_def] using added

theorem profile_once {c c' : UserProfileController} {e : ProfileEvent} {write : Option (String × ServerWrite)}
    (store : WellFormed fs issuers) (unread : ∀ ok, e = .userLookup ok → ∀ author, seen.photoPosts author = [])
    (h : ProfileOnce fs given c) (outcome : UserProfileController.Handled currentUser seen c e c' write) :
    ProfileOnce fs given c' := by
  cases outcome with
  | userFound waits => exact userFound_once h waits (unread true rfl)
  | userFails waits =>
    cases h with
    | waiting unknown empty unlistened nothing => exact .waiting unknown empty unlistened nothing
    | listening _ answered => cases answered.symm.trans waits
  | photoSnapshot delivered => exact postsAdded_once store h delivered
  | photoFails =>
    cases h with
    | waiting unknown empty unlistened nothing => exact .waiting unknown empty (by rw [unlistened]; rfl) nothing
    | listening found answered issued tracks posts => exact .listening found answered issued (tracks.eraseIdx _) posts
  | @configure place =>
    obtain ⟨_, _, same, _⟩ := c.configure_cases place currentUser
    rw [same]
    exact h.same rfl rfl rfl rfl
  | @followRead n r found =>
    rcases UserProfileController.followRead_cases { c with followReads := c.followReads.eraseIdx n } r
      (seen.follows r.accountUserID) with same | ⟨_, _, same⟩ <;> rw [same] <;> exact h.same rfl rfl rfl rfl
  | followReadFails | tap | moved | completed => exact h.same rfl rfl rfl rfl

/-! ### Comments -/

def postID (c : CommentController) : String := (c.chosenPost.bind (·.id)).getD ""

/-- Every comment that the listener has delivered is shown, waits for its author, or is lost. -/
inductive CommentsOnce (lossless : Prop) (fs : Firestore) (given : List (String × Dict)) (c : CommentController) : Prop where
  | mk {taken shown waiting lost : List (String × Dict)} (issued : ∀ d ∈ given, d ∈ fs.addingComments (postID c))
      (tracks : Tracks given (postID c) taken c.listeners)
      (entries : c.comments.map some = shown.map fun d => entry fs d.2)
      (waits : c.lookups.map (·.dictionaryData) = waiting.map (·.2))
      (delivered : (shown ++ waiting ++ lost).Perm taken) (kept : lossless → lost = [])

/-- The author's lookup that an event answers, and whether it succeeds. -/
def answered : Screen → ScreenEvent → Option (Bool × Option CommentLookup)
  | .comments c, .comments (.userLookup n ok) => some (ok, c.lookups[n]?)
  | _, _ => none

/-- The read of a comment's author succeeds and finds the user. -/
def LookupFinds (fs : Firestore) (screen : Screen) (e : ScreenEvent) : Prop :=
  ∀ a ∈ answered screen e, a.1 = true ∧ ∀ q ∈ a.2, (fs.users q.uID).isSome

instance (fs : Firestore) (screen : Screen) (e : ScreenEvent) : Decidable (LookupFinds fs screen e) :=
  inferInstanceAs (Decidable (∀ a ∈ answered screen e, a.1 = true ∧ ∀ q ∈ a.2, (fs.users q.uID).isSome))

variable {lossless : Prop} {c c' : CommentController}

theorem CommentsOnce.same (h : CommentsOnce lossless fs given c) (chosen : c'.chosenPost = c.chosenPost)
    (comments : c'.comments = c.comments) (lookups : c'.lookups = c.lookups) (listeners : c'.listeners = c.listeners) :
    CommentsOnce lossless fs given c' := by
  obtain ⟨issued, tracks, entries, waits, delivered, kept⟩ := h
  have post : postID c' = postID c := by rw [postID, chosen, postID]
  exact ⟨post ▸ issued, by rw [post, listeners]; exact tracks, by rw [comments]; exact entries,
    by rw [lookups]; exact waits, delivered, kept⟩

theorem send_same (c : CommentController) (now : UInt64) (currentUser : Option String) :
    (c.send currentUser now).chosenPost = c.chosenPost ∧ (c.send currentUser now).comments = c.comments ∧
      (c.send currentUser now).lookups = c.lookups ∧ (c.send currentUser now).listeners = c.listeners := by
  unfold CommentController.send
  split
  · split <;> exact ⟨rfl, rfl, rfl, rfl⟩
  · exact ⟨rfl, rfl, rfl, rfl⟩

/-- Every issued comment names its sender, so each change starts a lookup. -/
theorem changes_looked_up (c : CommentController) (currentUser : Option String) {changes : List (String × Dict)}
    (store : WellFormed fs issuers) (issued : ∀ d ∈ changes, d ∈ fs.addingComments (postID c)) :
    (c.commentsChanged currentUser changes).lookups.map (·.dictionaryData) =
      c.lookups.map (·.dictionaryData) ++ changes.map (·.2) := by
  simp only [CommentController.commentsChanged, List.map_append, List.append_cancel_left_eq, List.map_filterMap]
  rw [← List.filterMap_eq_map']
  refine List.filterMap_congr fun d hd => ?_
  obtain ⟨sender, form, nonempty, _⟩ := store.comments _ d (issued d hd)
  simp [form.1, createUser, nonempty]

theorem entry_of_found {q : CommentLookup} {userData : Dict}
    (asked : asString (q.dictionaryData.lookup "UserID") = some q.uID) (found : fs.users q.uID = some userData) :
    entry fs q.dictionaryData = some (Comment.init (User.init userData) q.dictionaryData) := by
  simp [entry, asked, found]

/-- A lookup returns: its comment is shown, or lost. -/
theorem lookup_once {n : Nat} {q : CommentLookup} {userData : Option Dict} (h : CommentsOnce lossless fs given c)
    (found : c.lookups[n]? = some q) (asked : asString (q.dictionaryData.lookup "UserID") = some q.uID)
    (read : ∀ data, userData = some data → fs.users q.uID = some data) (finds : lossless → userData.isSome) :
    CommentsOnce lossless fs given ({ c with lookups := c.lookups.eraseIdx n }.authorFound q userData) := by
  obtain ⟨issued, tracks, entries, waits, delivered, kept⟩ := h
  rename_i taken shown waiting lost
  obtain ⟨d, listed, same⟩ : ∃ d, waiting[n]? = some d ∧ d.2 = q.dictionaryData := by
    have place := congrArg (·[n]?) waits
    simp only [List.getElem?_map, found, Option.map_some] at place
    exact Option.map_eq_some_iff.mp place.symm
  have left : waiting.Perm (d :: waiting.eraseIdx n) := by
    obtain ⟨inside, rfl⟩ := List.getElem?_eq_some_iff.mp listed
    exact (List.getElem_cons_eraseIdx_perm inside).symm
  have waits' : (c.lookups.eraseIdx n).map (·.dictionaryData) = (waiting.eraseIdx n).map (·.2) := by
    rw [← List.eraseIdx_map, ← List.eraseIdx_map, waits]
  cases userData with
  | none =>
    have moved : (shown ++ waiting.eraseIdx n ++ d :: lost).Perm (shown ++ waiting ++ lost) := by
      have middle : (d :: (shown ++ waiting.eraseIdx n)).Perm (shown ++ d :: waiting.eraseIdx n) := List.perm_middle.symm
      exact List.perm_middle.trans ((middle.trans (left.symm.append_left shown)).append_right lost)
    exact ⟨issued, tracks, entries, waits', moved.trans delivered, fun whole => Bool.noConfusion (finds whole)⟩
  | some data =>
    have shows := entry_of_found asked (read data rfl)
    have moved : ((shown ++ [d]) ++ waiting.eraseIdx n ++ lost).Perm (shown ++ waiting ++ lost) := by
      rw [List.append_assoc shown]
      exact (left.symm.append_left shown).append_right lost
    refine ⟨issued, tracks, ?_, waits', moved.trans delivered, kept⟩
    simp only [CommentController.authorFound, List.map_append, entries, List.map_cons, same, shows, List.map_nil]

theorem comments_once {e : CommentEvent} {write : Option (String × ServerWrite)} (store : WellFormed fs issuers)
    (users : ∀ uid data, seen.users uid = some data → fs.users uid = some data) (ok : CommentsOk fs c)
    (h : CommentsOnce lossless fs given c) (finds : lossless → LookupFinds seen (.comments c) (.comments e))
    (outcome : CommentController.Handled currentUser seen c e c' write) : CommentsOnce lossless fs given c' := by
  have asked : ∀ {n : Nat} {q : CommentLookup}, c.lookups[n]? = some q →
      asString (q.dictionaryData.lookup "UserID") = some q.uID := fun found => by
    obtain ⟨_, d, _, same, author⟩ := ok.lookups _ (List.mem_of_getElem? found)
    exact same ▸ author
  cases outcome with
  | edit | written | refused | acknowledge => exact h.same rfl rfl rfl rfl
  | @send now =>
    obtain ⟨chosen, comments, lookups, listeners⟩ := send_same c now currentUser
    exact h.same chosen comments lookups listeners
  | @snapshot l n listener rest delivers =>
    obtain ⟨issued, tracks, entries, waits, delivered, kept⟩ := h
    rename_i taken shown waiting lost
    have tracks' := tracks.deliver delivers
    have looked_up := changes_looked_up { c with listeners := rest } currentUser store
      fun d hd => issued d (tracks'.within.subset (List.mem_append_right _ hd))
    rw [waits, ← List.map_append] at looked_up
    refine ⟨issued, tracks', entries, looked_up, ?_, kept⟩
    rw [← List.append_assoc shown, List.append_assoc _ _ lost]
    refine (List.perm_append_comm.append_left _).trans ?_
    rw [← List.append_assoc]
    exact delivered.append_right _
  | snapshotFails =>
    obtain ⟨issued, tracks, entries, waits, delivered, kept⟩ := h
    exact ⟨issued, tracks.eraseIdx _, entries, waits, delivered, kept⟩
  | @userFound n q found =>
    exact lookup_once h found (asked found) (fun _ same => users _ _ same) fun whole => (finds whole _ rfl).2 q found
  | @userFails n q found =>
    have gone : CommentsOnce lossless fs given
        (CommentController.authorFound { c with lookups := c.lookups.eraseIdx n } q none) :=
      lookup_once h found (asked found) (fun _ none => by cases none)
        fun whole => absurd (finds whole _ rfl).1 Bool.false_ne_true
    exact gone

/-! ### Every screen -/

def Once (lossless : Prop) (fs : Firestore) (refused : List String) (given : List (String × Dict)) : Screen → Prop
  | .profile c => ProfileOnce fs given c ∧ given.Nodup
  | .comments c => CommentsOnce lossless fs given c ∧ (given.filter fun d => d.1 ∉ refused).Nodup
  | _ => True

variable {refused : List String} {screen screen' : Screen}

theorem fresh_once (comments : c.comments = []) (lookups : c.lookups = []) (tracks : Tracks [] (postID c) [] c.listeners) :
    CommentsOnce lossless fs [] c := by
  have no_entries : c.comments.map some = ([] : List (String × Dict)).map fun d => entry fs d.2 := by
    rw [comments]
    rfl
  have no_lookups : c.lookups.map (·.dictionaryData) = ([] : List (String × Dict)).map (·.2) := by
    rw [lookups]
    rfl
  exact ⟨List.forall_mem_nil _, tracks, no_entries, no_lookups, .refl _, fun _ => rfl⟩

theorem opened_once (seen : Firestore) (lossless : Prop) (fs : Firestore) (refused : List String) (currentUser : Option String)
    (opening : Opening) (unread : ∀ postID, seen.addingComments postID = []) :
    Once lossless fs refused [] (Screen.viewDidLoad currentUser seen opening) := by
  cases opening with
  | register | share | main => trivial
  | profile userID =>
    simp only [Screen.viewDidLoad, UserProfileController.viewDidLoad]
    split <;> exact ⟨.waiting rfl rfl rfl rfl, List.nodup_nil⟩
  | comments chosenPost =>
    simp only [Screen.viewDidLoad, CommentController.viewDidLoad]
    split
    · exact ⟨fresh_once rfl rfl (.ended List.nil_subperm), List.nodup_nil⟩
    · rename_i id known
      split
      · exact ⟨fresh_once rfl rfl (.ended List.nil_subperm), List.nodup_nil⟩
      · have post : ∀ listeners, postID { chosenPost, listeners } = id := fun _ => by rw [postID, known]; rfl
        refine ⟨fresh_once rfl rfl (.live (post _).symm ?_), List.nodup_nil⟩
        rw [unread]
        exact .refl _

theorem handled_once {e : ScreenEvent} {write : Option (String × ServerWrite)} (store : WellFormed fs issuers)
    (reads : seen.Reads fs) (unread : ∀ ok, e = .profile (.userLookup ok) → ∀ author, seen.photoPosts author = [])
    (ok : ScreenOk fs screen) (h : Once lossless fs refused given screen) (finds : lossless → LookupFinds seen screen e)
    (outcome : Screen.Handled currentUser seen screen e screen' write) : Once lossless fs refused given screen' := by
  cases outcome with
  | share | main => trivial
  | comments outcome => exact ⟨comments_once store reads.users ok h.1 finds outcome, h.2⟩
  | profile outcome => exact ⟨profile_once store (fun ok same => unread ok (by rw [same])) h.1 outcome, h.2⟩

theorem entry_frozen {data : Dict} {x : Comment} (frozen : SignUps.Frozen fs fs') (h : entry fs data = some x) :
    entry fs' data = some x := by
  obtain ⟨userID, named, h⟩ := Option.bind_eq_some_iff.mp h
  obtain ⟨userData, found, made⟩ := Option.bind_eq_some_iff.mp h
  have still : fs'.users userID = some userData := frozen userID userData found
  simp [entry, named, still, ← Option.some.inj made]

/-- Documents that come to the store change nothing. -/
theorem once_grows (frozen : SignUps.Frozen fs fs') (grows : Grows fs fs') (h : Once lossless fs refused given screen) :
    Once lossless fs' refused given screen := by
  cases screen with
  | register | share | main => trivial
  | profile c =>
    refine ⟨?_, h.2⟩
    cases h.1 with
    | waiting unknown empty unlistened nothing => exact .waiting unknown empty unlistened nothing
    | listening found answered issued tracks posts =>
      exact .listening found answered (fun d hd => grows.posts _ d (issued d hd)) tracks posts
  | comments c =>
    obtain ⟨⟨issued, tracks, entries, waits, delivered, kept⟩, nodup⟩ := h
    rename_i taken shown waiting lost
    refine ⟨⟨fun d hd => grows.comments _ d (issued d hd), tracks, entries.trans (List.map_congr_left fun d hd => ?_), waits,
      delivered, kept⟩, nodup⟩
    have member : entry fs d.2 ∈ c.comments.map some := entries ▸ List.mem_map_of_mem hd
    obtain ⟨x, _, same⟩ := List.mem_map.mp member
    exact same.symm.trans (entry_frozen frozen same.symm).symm

theorem once_refused (documentID : String) (h : Once lossless fs refused given screen) :
    Once lossless fs (documentID :: refused) given screen := by
  cases screen with
  | register | share | main => trivial
  | profile c => exact h
  | comments c =>
    refine ⟨h.1, h.2.sublist (List.monotone_filter_right given fun d => ?_)⟩
    simp

theorem once_notified {w : ServerWrite} (shared : w.Shared) (h : Once lossless fs refused given screen) :
    Once lossless fs refused given (screen.notify fs fs' w) := by
  cases screen with
  | register | share | main => trivial
  | profile c | comments c =>
    cases w with
    | like | follow => exact h
    | _ => cases shared

end

/-- A document comes to the listener of a screen that may be given it. -/
theorem heard_once {s : Local} {lossless : Prop} {place : Nat × Nat} {d : String × Dict} {screen screen' : Screen}
    (h : Once lossless s.issued.fs s.refused (s.givenAt place) screen) (raisable : s.Raisable place d screen)
    (heard : Local.Heard s d screen screen') :
    Once lossless s.issued.fs s.refused (s.givenAt place ++ [d]) screen' := by
  cases heard with
  | feed => trivial
  | @profile c l listener found issued =>
    have nodup := h.2.concat raisable
    rw [List.concat_eq_append] at nodup
    refine ⟨?_, nodup⟩
    cases h.1 with
    | waiting _ _ unlistened =>
      rw [unlistened] at found
      cases found
    | listening known answered old tracks posts =>
      rw [tracks.on (List.mem_of_getElem? found)] at issued
      exact .listening known answered (forall_mem_concat old issued) (tracks.enqueue found d) posts
  | @comments c l listener found issued =>
    obtain ⟨⟨old, tracks, entries, waits, delivered, kept⟩, nodup⟩ := h
    rw [tracks.on (List.mem_of_getElem? found)] at issued
    refine ⟨⟨forall_mem_concat old issued, tracks.enqueue found d, entries, waits, delivered, kept⟩, ?_⟩
    rw [List.filter_append]
    by_cases refused : d.1 ∈ s.refused
    · simpa [refused] using nodup
    · have fresh : d ∉ s.givenAt place := fun again => refused (raisable again)
      rw [List.filter_singleton]
      simp only [refused, not_false_eq_true, decide_true, cond_true]
      rw [← List.concat_eq_append]
      exact nodup.concat fun again => fresh (List.mem_of_mem_filter again)

/-! ### Places -/

def screenAt (s : System) (place : Nat × Nat) : Option Screen := do
  let c ← s.clients[place.1]?
  c.screens[place.2]?

section
variable {s t : System} {i : Nat} {c : Client} {place : Nat × Nat} {screen : Screen}

theorem screenAt_some : screenAt s place = some screen ↔ ∃ c, s.clients[place.1]? = some c ∧ c.screens[place.2]? = some screen :=
  Option.bind_eq_some_iff

theorem screenAt_set (found : s.clients[i]? = some c) (c' : Client) :
    screenAt { s with clients := s.clients.set i c' } place = if place.1 = i then c'.screens[place.2]? else screenAt s place := by
  rw [screenAt, getElem?_set_of found]
  split <;> rfl

theorem screenAt_user (found : s.clients[i]? = some c) (currentUser : Option String) :
    screenAt { s with clients := s.clients.set i { c with currentUser } } place = screenAt s place := by
  rw [screenAt_set found]
  split
  · rename_i own
    simp [screenAt, own, found]
  · rfl

theorem screenAt_put {j : Nat} (found : s.clients[i]? = some c) (shown : c.screens[j]? = some screen) (screen' : Screen) :
    screenAt (s.put i c j screen') place = if place = (i, j) then some screen' else screenAt s place := by
  obtain ⟨k, l⟩ := place
  rw [System.put, screenAt_set found]
  by_cases client : k = i
  · subst client
    by_cases own : l = j
    · simp [own, getElem?_set_of shown]
    · simp [own, getElem?_set_of shown, screenAt, found]
  · simp [client]

theorem screenAt_opened (found : s.clients[i]? = some c) (screen' : Screen) :
    screenAt { s with clients := s.clients.set i { c with screens := c.screens ++ [screen'] } } place =
      if place = (i, c.screens.length) then some screen' else screenAt s place := by
  obtain ⟨k, l⟩ := place
  rw [screenAt_set found]
  by_cases client : k = i
  · subst client
    by_cases own : l = c.screens.length
    · simp [own]
    · simp [own, screenAt, found, getElem?_concat]
  · simp [client]

theorem screenAt_map {fs : Firestore} {issuers : List (String × String)} (f : Screen → Screen) :
    screenAt { s with fs, issuers, clients := s.clients.map fun c => { c with screens := c.screens.map f } } place =
      (screenAt s place).map f := by
  simp only [screenAt, List.getElem?_map]
  cases s.clients[place.1]? with
  | none => rfl
  | some c => simp

/-- Launches, sign-in and sign-up leave the screens, but for those of sign-up. -/
theorem screenAt_session {e : System.Event} (session : e.Session) (stepped : s.step e = some t) :
    screenAt t place = screenAt s place ∨
      ∃ attempts attempts', screenAt s place = some (.register attempts) ∧ screenAt t place = some (.register attempts') := by
  cases e with
  | «open» | screen => exact session.elim
  | launch =>
    cases System.step_ok stepped
    left
    simp only [screenAt, getElem?_concat]
    split
    · rename_i new
      simp [new]
    · rfl
  | signIn i uid =>
    obtain ⟨c, found, stepped⟩ := Option.bind_eq_some_iff.mp stepped
    obtain ⟨_, same⟩ := Option.ite_none_right_eq_some.mp stepped
    obtain rfl := Option.some.inj same
    exact .inl (screenAt_user found _)
  | signOut i =>
    obtain ⟨c, found, same⟩ := Option.bind_eq_some_iff.mp stepped
    obtain rfl := Option.some.inj same
    exact .inl (screenAt_user found _)
  | register i j e =>
    obtain ⟨c, attempts, u, found, registers, _, _, rfl⟩ := SignUps.register_ok stepped
    have screens : screenAt { s with
        accounts := u.accounts
        fs := { s.fs with users := u.users }
        clients := s.clients.set i (System.signedUp { c with screens := c.screens.set j (.register u.attempts) } e) } place =
        screenAt (s.put i c j (.register u.attempts)) place := by
      rw [System.put, screenAt_set found, screenAt, getElem?_set_of found]
      split <;> simp [SignUps.signedUp_screens, screenAt, *]
    rw [screens, screenAt_put found registers]
    split
    · rename_i own
      exact .inr ⟨attempts, u.attempts, by rw [own]; exact screenAt_some.mpr ⟨c, found, registers⟩, rfl⟩
    · exact .inl rfl

end

/-! ### Steps on local documents -/

/-- The read of a comment's author finds the user in what the device reads. -/
def LocalFinds (s : Local) : Local.Event → Prop
  | .program (.screen i j e) cache => ∀ screen ∈ screenAt s.issued (i, j), LookupFinds (s.read cache e) screen e
  | _ => True

instance (s : Local) : ∀ e : Local.Event, Decidable (LocalFinds s e)
  | .program (.screen i j e) cache =>
    inferInstanceAs (Decidable (∀ screen ∈ screenAt s.issued (i, j), LookupFinds (s.read cache e) screen e))
  | .program .launch _ | .program (.signIn _ _) _ | .program (.signOut _) _ | .program (.open _ _) _
  | .program (.register _ _ _) _ | .issue _ _ _ _ | .refuse _ | .raise _ _ _ _ | .follows _ _ _ _ => isTrue trivial

/-- Every screen shows once what it was given, and only screens that were opened were given anything. -/
structure OnceInv (lossless : Prop) (s : Local) : Prop where
  inv : Local.Inv s
  places : ∀ g ∈ s.given, (screenAt s.issued g.1).isSome
  once : ∀ place screen, screenAt s.issued place = some screen →
    Once lossless s.issued.fs s.refused (s.givenAt place) screen

section
variable {lossless : Prop} {s t : Local} {e : Local.Event}

theorem givenAt_raise {place : Nat × Nat} {d : String × Dict} {issued : System} (other : Nat × Nat) :
    Local.givenAt { s with issued, given := s.given ++ [(place, d)] } other =
      if other = place then s.givenAt other ++ [d] else s.givenAt other := by
  simp only [Local.givenAt, List.filter_append, List.map_append]
  by_cases own : other = place
  · simp [own]
  · simp [own, Ne.symm own]

theorem accepted_kept {sender : String} {w : ServerWrite} (accepted : Local.Accepted s sender w t) :
    t.given = s.given ∧ t.refused = s.refused := by
  cases accepted <;> exact ⟨rfl, rfl⟩

theorem places_put {i j : Nat} {c : Client} {screen : Screen} (places : ∀ g ∈ s.given, (screenAt s.issued g.1).isSome)
    (found : s.issued.clients[i]? = some c) (shown : c.screens[j]? = some screen) (screen' : Screen) :
    ∀ g ∈ s.given, (screenAt (s.issued.put i c j screen') g.1).isSome := by
  intro g hg
  rw [screenAt_put found shown]
  split
  · rfl
  · exact places g hg

theorem once_put {i j : Nat} {c : Client} {screen screen' : Screen} (h : OnceInv lossless s)
    (found : s.issued.clients[i]? = some c) (shown : c.screens[j]? = some screen)
    (new : Once lossless s.issued.fs s.refused (s.givenAt (i, j)) screen') :
    ∀ place screen, screenAt (s.issued.put i c j screen') place = some screen →
      Once lossless s.issued.fs s.refused (s.givenAt place) screen := by
  intro place shows at_place
  rw [screenAt_put found shown] at at_place
  split at at_place
  · rename_i own
    rw [own, ← Option.some.inj at_place]
    exact new
  · exact h.once place shows at_place

/-- What the server takes in of likes and follows is nothing to these screens. -/
theorem accepted_once {sender : String} {w : ServerWrite} (inv : Local.Inv t) (h : OnceInv lossless s)
    (accepted : Local.Accepted s sender w t) : OnceInv lossless t := by
  cases accepted with
  | own => exact ⟨inv, h.places, h.once⟩
  | shared shared _ _ written =>
    obtain ⟨fs', _, changed, rfl⟩ := System.write_ok written
    refine ⟨inv, fun g hg => ?_, fun place screen at_place => ?_⟩
    · rw [screenAt_map, Option.isSome_map]
      exact h.places g hg
    · rw [screenAt_map] at at_place
      obtain ⟨before, at_before, rfl⟩ := Option.map_eq_some_iff.mp at_place
      have frozen : SignUps.Frozen s.issued.fs fs' :=
        Local.made_frozen (fun _ _ _ same => by rw [same] at shared; cases shared) changed
      exact once_grows frozen (applied_grows changed) (once_notified shared (h.once place before at_before))

theorem put_once {i j : Nat} {c : Client} {screen screen' : Screen} {e : ScreenEvent} {cache : Cache}
    {write : Option (String × ServerWrite)} (h : OnceInv lossless s)
    (finds : lossless → LocalFinds s (.program (.screen i j e) cache)) (found : s.issued.clients[i]? = some c)
    (shown : c.screens[j]? = some screen)
    (handled : Screen.Handled c.currentUser (s.read cache e) screen e screen' write) :
    OnceInv lossless { s with issued := s.issued.put i c j screen' } := by
  have sees := Local.read_sees h.inv cache e
  have at_place : screenAt s.issued (i, j) = some screen := screenAt_some.mpr ⟨c, found, shown⟩
  have unread : ∀ ok, e = .profile (.userLookup ok) → ∀ author, (s.read cache e).photoPosts author = [] := by
    rintro ok rfl author
    rfl
  have ok := (h.inv.ok.clients c (List.mem_of_getElem? found)).2 screen (List.mem_of_getElem? shown)
  have new : Once lossless s.issued.fs s.refused (s.givenAt (i, j)) screen' :=
    handled_once h.inv.ok.store sees.toReads unread ok (h.once _ screen at_place) (fun whole => finds whole screen at_place)
      handled
  exact ⟨⟨(put_ok h.inv.ok sees found shown handled).1, h.inv.server, h.inv.followed⟩, places_put h.places found shown _,
    once_put h found shown new⟩

/-- Nothing was given at a place where no screen has been opened. -/
theorem unopened {i : Nat} {c : Client} (places : ∀ g ∈ s.given, (screenAt s.issued g.1).isSome)
    (found : s.issued.clients[i]? = some c) : s.givenAt (i, c.screens.length) = [] := by
  simp only [Local.givenAt, List.map_eq_nil_iff, List.filter_eq_nil_iff, decide_eq_true_eq]
  intro g hg own
  obtain ⟨screen, at_place⟩ := Option.isSome_iff_exists.mp (places g hg)
  rw [own] at at_place
  obtain ⟨c', found', shown⟩ := screenAt_some.mp at_place
  obtain rfl := Option.some.inj (found.symm.trans found')
  simp at shown

theorem session_once {e : System.Event} {issued : System} (inv : Local.Inv { t with issued }) (h : OnceInv lossless s)
    (session : e.Session) (ran : s.issued.step e = some issued) (same : issued.fs = s.issued.fs)
    (kept : t.given = s.given ∧ t.refused = s.refused) : OnceInv lossless { t with issued } := by
  refine ⟨inv, fun g hg => ?_, fun place screen at_place => ?_⟩
  · rcases screenAt_session session ran with still | ⟨_, _, _, registers⟩
    · exact still ▸ h.places g (kept.1 ▸ hg)
    · rw [registers]
      rfl
  · rcases screenAt_session session ran with still | ⟨_, _, _, registers⟩
    · have old := h.once place screen (still ▸ at_place)
      simp only [Local.givenAt, same, kept.1, kept.2]
      exact old
    · obtain rfl := Option.some.inj (registers.symm.trans at_place)
      trivial

theorem step_once (h : OnceInv lossless s) (finds : lossless → LocalFinds s e) (stepped : s.step e = some t) :
    OnceInv lossless t := by
  have inv := Local.step_inv h.inv stepped
  cases Local.step_ok stepped with
  | session session accepted ran same =>
    refine session_once inv h session ran same ?_
    rcases accepted with rfl | ⟨_, _, _, accepted⟩
    · exact ⟨rfl, rfl⟩
    · exact accepted_kept accepted
  | @opened i opening cache c found =>
    refine ⟨inv, fun g hg => ?_, fun place screen at_place => ?_⟩
    · rw [screenAt_opened found]
      split
      · rfl
      · exact h.places g hg
    · rw [screenAt_opened found] at at_place
      split at at_place
      · rename_i own
        obtain rfl := Option.some.inj at_place
        have new := opened_once (s.seen cache) lossless s.issued.fs s.refused c.currentUser opening fun _ => rfl
        rw [← unopened h.places found, ← own] at new
        exact new
      · exact h.once place screen at_place
  | silent found shown handled => exact put_once h finds found shown handled
  | wrote found shown handled accepted => exact accepted_once inv (put_once h finds found shown handled) accepted
  | @made i j n documentID c screen sender w fs calls found shown pending own new applied =>
    exact ⟨inv, h.places, fun place screen at_place =>
      once_grows (Local.made_frozen new applied) (applied_grows applied) (h.once place screen at_place)⟩
  | asked => exact ⟨inv, h.places, h.once⟩
  | @refused documentID =>
    exact ⟨inv, h.places, fun place screen at_place => once_refused documentID (h.once place screen at_place)⟩
  | @raised i j l documentID d c screen screen' found shown raisable heard =>
    have new := heard_once (h.once _ screen (screenAt_some.mpr ⟨c, found, shown⟩)) raisable heard
    refine ⟨inv, List.forall_mem_append.mpr ⟨places_put h.places found shown _, ?_⟩, fun place shows at_place => ?_⟩
    · refine List.forall_mem_singleton.mpr ?_
      rw [screenAt_put found shown, if_pos rfl]
      rfl
    · rw [screenAt_put found shown] at at_place
      rw [givenAt_raise]
      split at at_place
      · rename_i own
        rw [if_pos own, own, ← Option.some.inj at_place]
        exact new
      · rename_i other
        rw [if_neg other]
        exact h.once place shows at_place
  | @follows i j l users c main listener found shown =>
    exact ⟨inv, places_put h.places found shown _, once_put h found shown trivial⟩

theorem run_once {events : List Local.Event} (h : run Local.step {} events = some t) :
    OnceInv (Along Local.step LocalFinds {} events) t := by
  have finds : Along Local.step (fun s e => Along Local.step LocalFinds {} events → LocalFinds s e) {} events := by
    by_cases lossless : Along Local.step LocalFinds {} events
    · exact lossless.imp fun s e found _ => found
    · exact along_of_forall fun e _ s whole => (lossless whole).elim
  have initial : OnceInv (Along Local.step LocalFinds {} events) {} :=
    ⟨Local.initial_inv, List.forall_mem_nil _, fun _ _ at_place => by cases at_place⟩
  exact run_keeps_along (fun _ _ _ inv found stepped => step_once inv found stepped) h finds initial

/-! ### What the server has refused -/

/-- The server has none of the documents that it has refused. -/
structure NotRefused (server : Firestore) (refused : List String) : Prop where
  refused : ∀ documentID ∈ server.documentIDs, documentID ∉ refused
  used : ∀ postID, ∀ d ∈ server.addingComments postID, d.1 ∈ server.documentIDs

theorem accepted_notRefused {sender : String} {w : ServerWrite} (accepted : Local.Accepted s sender w t)
    (h : NotRefused s.server s.refused) : NotRefused t.server t.refused := by
  have taken : ∀ {server : Firestore}, Firestore.Applied s.server w server → s.Issued w → NotRefused server s.refused := by
    intro server applied known
    cases applied with
    | photoPost fresh =>
      exact ⟨List.forall_mem_cons.mpr ⟨known.2, h.refused⟩, fun postID d hd => List.mem_cons_of_mem _ (h.used postID d hd)⟩
    | comment fresh =>
      refine ⟨List.forall_mem_cons.mpr ⟨known.2, h.refused⟩, fun postID d hd => ?_⟩
      rcases (comments_mem (.comment fresh) postID d).mp hd with old | ⟨_, rfl⟩
      · exact List.mem_cons_of_mem _ (h.used postID d old)
      · exact List.mem_cons_self
    | user | like | follow => exact ⟨h.refused, h.used⟩
  cases accepted with
  | shared _ applied known | own _ applied known => exact taken applied known

theorem step_notRefused (h : NotRefused s.server s.refused) (stepped : s.step e = some t) :
    NotRefused t.server t.refused := by
  cases Local.step_ok stepped with
  | session _ accepted =>
    rcases accepted with rfl | ⟨_, _, _, accepted⟩
    · exact h
    · have kept := accepted_notRefused accepted h
      exact kept
  | wrote _ _ _ accepted => exact accepted_notRefused accepted h
  | refused missing =>
    exact ⟨fun documentID stored again => (List.mem_cons.mp again).elim (fun same => missing (same ▸ stored))
      (h.refused documentID stored), h.used⟩
  | _ => exact h

theorem run_notRefused {events : List Local.Event} (h : run Local.step {} events = some t) :
    NotRefused t.server t.refused :=
  run_keeps (I := fun s => NotRefused s.server s.refused) (fun _ _ _ => step_notRefused) h
    ⟨List.forall_mem_nil _, fun _ => List.forall_mem_nil _⟩

end

/-- The posts that documents of a profile's user show. -/
def postsOf (now : Timestamp) (documents : String → List (String × Dict)) : Option User → List Post
  | none => []
  | some user => (documents user.userID).map fun d => Post.init now user d.2

/-- Alice's profile shows her post, which the server then refuses. -/
def aliceVisits : List Local.Event :=
  (aliceComments.take 14).flatMap Local.locally ++ .issue 0 2 0 "p" ::
    [System.Event.open 0 (.profile none), .screen 0 3 (.profile (.userLookup true))].flatMap Local.locally ++
    .raise 0 3 0 "p" :: .refuse "p" ::
    [System.Event.screen 0 2 (.share (.saved 0 "p" false)), .screen 0 3 (.profile (.photoSnapshot 0 1 2))].flatMap
      Local.locally

/-- The server takes the first of Alice's two comments and refuses the second. -/
def aliceCommentsTwice : List Local.Event :=
  (aliceComments.take 15 ++ (aliceComments.drop 17).take 4).flatMap Local.locally ++ .raise 0 3 0 "q" ::
    ((aliceComments.drop 21).take 2 ++
      [System.Event.screen 0 3 (.comments (.edit "again")), .screen 0 3 (.comments (.send 0))]).flatMap Local.locally ++
    [.issue 0 3 1 "r", .raise 0 3 0 "r", .refuse "r", .raise 0 3 0 "r"] ++
    [System.Event.screen 0 3 (.comments (.write 1 "r" false)), .screen 0 3 (.comments (.snapshot 0 2)),
     .screen 0 3 (.comments (.userLookup 0 true)), .screen 0 3 (.comments (.userLookup 0 true))].flatMap Local.locally

end Foti.ShownOnce
