import Foti.MainPage.LikeCompletion
import Foti.System.Navigation
import Foti.System.Network
import Foti.System.ScreenRuns
import Foti.System.Traps

/-!
What the program needs of its openings holds of the app by itself: comments are for a post of a feed, which
is stored and has an ID, and profiles are for a user of the store.
-/

namespace Foti.Navigation
open Attribution Entries ScreenRuns SearchUserController Transition

/-! ### Posts with IDs -/

/-- The feed's posts have IDs, and comments are for such a post. -/
def Identified (_ : Firestore) : Screen → Prop
  | .main c => (∀ q ∈ c.likeLookups, q.post.id.isSome) ∧ (∀ p ∈ c.posts, p.id.isSome) ∧
      ∀ call ∈ c.likeCalls, call.closure.post.id.isSome
  | .comments c => (c.chosenPost.bind (·.id)).isSome
  | _ => True

section
variable {fs : Firestore} {currentUser : Option String}

theorem main_identified {c c' : MainController} {e : MainEvent} {w : Option ServerWrite} (h : Identified fs (.main c))
    (outcome : MainController.Handled currentUser fs c e c' w) : Identified fs (.main c') := by
  obtain ⟨lookups, posts, calls⟩ := h
  cases outcome with
  | refreshPosts =>
    obtain ⟨_, _, same⟩ := refresh_same c currentUser fs
    rw [same]
    exact ⟨lookups, List.forall_mem_nil _, calls⟩
  | @userFound n lookup found =>
    obtain ⟨_, _, _, same, _⟩ := MainController.userFound_cases { c with userLookups := c.userLookups.eraseIdx n } lookup
      (fs.users lookup.uID) fs
    rw [same]
    exact ⟨lookups, posts, calls⟩
  | photoSnapshot =>
    cases currentUser with
    | none => exact ⟨lookups, posts, calls⟩
    | some account => exact ⟨List.forall_mem_append.mpr ⟨lookups, List.forall_mem_map.mpr fun _ _ => rfl⟩, posts, calls⟩
  | @likeFound n lookup found =>
    have coming : lookup.post.id.isSome := lookups lookup (List.mem_of_getElem? found)
    refine ⟨forall_mem_eraseIdx lookups, fun p hp => ?_, calls⟩
    rw [MainController.likeFound, List.mem_insertionSort, List.mem_reverse] at hp
    exact forall_mem_concat (P := fun p => p.id.isSome) posts coming p hp
  | likeFails => exact ⟨forall_mem_eraseIdx lookups, posts, calls⟩
  | tap called =>
    obtain ⟨post, _, _, shown, _, _, rfl⟩ := postLiked_ok called
    exact ⟨lookups, posts, forall_mem_concat calls (posts post (List.mem_of_getElem? shown))⟩
  | @moved _ n call _ _ found =>
    have tapped := calls call (List.mem_of_getElem? found)
    exact ⟨lookups, posts, forall_mem_set calls tapped⟩
  | @completed n call whole shown found written completed =>
    have tapped := calls call (List.mem_of_getElem? found)
    obtain ⟨_, rfl⟩ := LikeCompletion.completion_ok completed
    exact ⟨lookups, forall_mem_set posts tapped, forall_mem_set calls tapped⟩
  | @trapped n call _ found =>
    have tapped := calls call (List.mem_of_getElem? found)
    exact ⟨lookups, posts, forall_mem_set calls tapped⟩
  | _ => exact ⟨lookups, posts, calls⟩

theorem comments_chosen {c c' : CommentController} {e : CommentEvent} {write : Option (String × ServerWrite)}
    (outcome : CommentController.Handled currentUser fs c e c' write) : c'.chosenPost = c.chosenPost := by
  cases outcome with
  | send =>
    unfold CommentController.send
    split
    · split <;> rfl
    · rfl
  | @userFound n lookup found => cases fs.users lookup.uID <;> rfl
  | _ => rfl

end

theorem identified_kept : Kept (fun _ _ _ => True) Identified where
  attempts _ := trivial
  users _ _ screen _ identified := by cases screen <;> exact identified
  handled _ _ identified _ outcome := by
    cases outcome with
    | main outcome => exact main_identified identified outcome
    | comments outcome =>
      simp only [Identified, comments_chosen outcome]
      exact identified
    | _ => trivial
  notified {fs w fs' screen} _ _ identified := by
    cases screen with
    | main c =>
      obtain ⟨_, _, same⟩ := MainController.notify_same c fs fs' w
      simp only [Screen.notify, same]
      exact identified
    | comments c => cases w <;> exact identified
    | _ => trivial

/-! ### The program below -/

structure Sound (s : System) : Prop where
  references : References.Inv s
  identified : OnScreens Identified s
  named : ∀ author, ∀ d ∈ s.fs.photoPosts author, d.1 ≠ ""

/-- A post that the event stores has a non-empty ID. -/
def NamesPost (e : System.Event) : Prop :=
  ∀ author documentID data, Network.Carries e (.share author documentID data) → documentID ≠ ""

section
variable {s t : System} {e : System.Event}

theorem direct_names (direct : direct s e) : NamesPost e := by
  intro author documentID data carries
  unfold Network.Carries at carries
  split at carries
  · contradiction
  · rename_i same
    obtain ⟨_, rfl, _⟩ := Network.Op.share.inj same
    exact carries ▸ of_decide_eq_true direct
  all_goals contradiction

theorem comments_opened (chosenPost : Option Post) (fs : Firestore) :
    (CommentController.viewDidLoad chosenPost fs).chosenPost = chosenPost := by
  unfold CommentController.viewDidLoad
  split
  · rfl
  · split <;> rfl

theorem opens_identified (h : Sound s) (fromFeed : References.FromFeed s e) : Opens Identified s e := by
  rintro i opening rfl c found
  cases opening with
  | comments chosenPost =>
    obtain ⟨c', listed, p, shown, rfl⟩ := fromFeed
    obtain ⟨screen, member, drawn⟩ := List.mem_flatMap.mp shown
    have known := h.identified c' (List.mem_of_getElem? listed) screen member
    simp only [Screen.viewDidLoad, Identified, comments_opened]
    cases screen with
    | main main => exact known.2.1 p drawn
    | _ => cases drawn
  | main => cases c.currentUser <;> exact ⟨List.forall_mem_nil _, List.forall_mem_nil _, List.forall_mem_nil _⟩
  | _ => trivial

theorem applied_named {fs fs' : Firestore} {w : ServerWrite} (applied : Firestore.Applied fs w fs')
    (h : ∀ author, ∀ d ∈ fs.photoPosts author, d.1 ≠ "")
    (new : ∀ author documentID data, w = .photoPost author documentID data → documentID ≠ "") :
    ∀ author, ∀ d ∈ fs'.photoPosts author, d.1 ≠ "" := by
  cases applied with
  | @photoPost writer documentID data fresh =>
    intro author d hd
    rcases ((Firestore.Applied.photoPost fresh).photoPosts_mem author d).mp hd with old | ⟨_, rfl⟩
    · exact h author d old
    · exact new writer documentID data rfl
  | _ => exact h

theorem step_named (h : Sound s) (names : NamesPost e) (stepped : s.step e = some t) :
    ∀ author, ∀ d ∈ t.fs.photoPosts author, d.1 ≠ "" := by
  cases System.step_ok stepped with
  | @wrote i j _ c screen screen' sender w _ found shown handled written =>
    have carries := Network.handled_carries handled rfl i j
    obtain ⟨fs', _, applied, rfl⟩ := System.write_ok written
    refine applied_named applied h.named fun author documentID data same => names author documentID data ?_
    rwa [same] at carries
  | _ => exact h.named

theorem step_sound (h : Sound s) (fromFeed : References.FromFeed s e) (names : NamesPost e) (stepped : s.step e = some t) :
    Sound t := by
  obtain ⟨_, frozen⟩ := SignUps.step_inv h.references.signUps stepped
  refine ⟨References.step_inv h.references fromFeed stepped, ?_, step_named h names stepped⟩
  exact step_screens identified_kept h.references.ok frozen (opens_identified h fromFeed) h.identified
    (atScreen_any s e) stepped

end

/-! ### Steps of the app as steps of the program -/

inductive Below (s : Navigation) : Event → System.Event → Prop where
  | program {e : System.Event} (direct : direct s.system e) : Below s (.program e) e
  | pressedComment {i j row : Nat} {p : Post} (drawn : post s.system i j row = some p) :
      Below s (.pressedComment i j row) (.open i (.comments (some p)))
  | didSelectItemAt {n row : Nat} {tab : SearchTab} {user : User} (found : s.searches[n]? = some tab)
      (shown : tab.controller.filteredUsers[row]? = some user) :
      Below s (.didSelectItemAt n row) (.open tab.client (.profile (some user.userID)))

/-- The user as the store has it. -/
def StoredUser (fs : Firestore) (user : User) : Prop := ∃ data, fs.users user.userID = some data ∧ User.init data = user

/-- The search shows users of the store. -/
def Lists (fs : Firestore) (c : SearchUserController) : Prop := ∀ user ∈ c.users ++ c.filteredUsers, StoredUser fs user

structure Inv (s : Navigation) : Prop where
  sound : Sound s.system
  lists : ∀ tab ∈ s.searches, Lists s.system.fs tab.controller

section
variable {lowercased : String → String} {contains : String → String → Bool} {compare : String → String → Ordering}
  {s t : Navigation} {e : Event}

theorem step_below (h : s.step lowercased contains compare e = some t) :
    (t.system = s.system ∧ ∀ e', e ≠ .program e') ∨ ∃ e', Below s e e' ∧ s.system.step e' = some t.system := by
  cases step_ok h with
  | program direct stepped => exact .inr ⟨_, .program direct, stepped⟩
  | pressedComment drawn stepped => exact .inr ⟨_, .pressedComment drawn, stepped⟩
  | didSelectItemAt found shown _ stepped => exact .inr ⟨_, .didSelectItemAt found shown, stepped⟩
  | _ => exact .inl ⟨rfl, by simp⟩

theorem Below.fromFeed {e' : System.Event} (below : Below s e e') : References.FromFeed s.system e' := by
  cases below with
  | program direct =>
    unfold References.FromFeed
    split
    · exact Bool.noConfusion direct
    · trivial
  | pressedComment drawn =>
    obtain ⟨c, found, drawn⟩ := Option.bind_eq_some_iff.mp drawn
    obtain ⟨screen, shown, drawn⟩ := Option.bind_eq_some_iff.mp drawn
    exact ⟨c, found, _, List.mem_flatMap.mpr ⟨screen, List.mem_of_getElem? shown, List.mem_of_getElem? drawn⟩, rfl⟩
  | didSelectItemAt => trivial

theorem Below.names {e' : System.Event} (below : Below s e e') : NamesPost e' := by
  cases below with
  | program direct => exact direct_names direct
  | _ => exact fun _ _ _ carries => carries.elim

theorem storedUser_frozen {fs fs' : Firestore} (frozen : SignUps.Frozen fs fs') {user : User} (h : StoredUser fs user) :
    StoredUser fs' user := h.imp fun data stored => ⟨frozen user.userID data stored.1, stored.2⟩

theorem snapshot_stored {fs : Firestore} {issuers : List (String × String)} (store : WellFormed fs issuers)
    (ids : List String) : ∀ change ∈ snapshot fs ids, StoredUser fs (User.init change.data) := by
  intro change listed
  obtain ⟨uid, _, made⟩ := List.mem_filterMap.mp listed
  obtain ⟨data, found, rfl⟩ := Option.map_eq_some_iff.mp made
  have own : (User.init data).userID = uid := by simp [User.init, store.users uid data found]
  exact ⟨data, by rw [own, found], rfl⟩

theorem textDidChange_lists {fs : Firestore} {c : SearchUserController} (h : Lists fs c) (searchText : String) :
    Lists fs (c.textDidChange lowercased contains searchText) := by
  have users : ∀ user ∈ c.users, StoredUser fs user := fun user hu => h user (List.mem_append_left _ hu)
  refine List.forall_mem_append.mpr ⟨users, fun user hu => users user ?_⟩
  simp only [SearchUserController.textDidChange, SearchUserController.filtered] at hu
  split at hu
  · exact hu
  · exact List.mem_of_mem_filter hu

theorem getUsers_lists {fs : Firestore} {c : SearchUserController} {changes : Option (List ProfilePosts.DocumentChange)}
    (h : Lists fs c) (stored : ∀ l ∈ changes, ∀ change ∈ l, StoredUser fs (User.init change.data))
    (currentUser : Option String) : Lists fs (c.getUsers compare currentUser changes) := by
  have users : ∀ user ∈ (c.getUsers compare currentUser changes).users, StoredUser fs user := by
    intro user hu
    rw [SearchUserController.getUsers, List.mem_insertionSort] at hu
    rcases List.mem_append.mp hu with old | new
    · exact h user (List.mem_append_left _ old)
    · obtain ⟨change, listed, rfl⟩ := List.mem_map.mp (List.mem_of_mem_filter new)
      have listed := List.mem_of_mem_filter listed
      cases changes with
      | none => cases listed
      | some l => exact stored l rfl change listed
  exact List.forall_mem_append.mpr ⟨users, users⟩

theorem step_inv (h : Inv s) (stepped : s.step lowercased contains compare e = some t) : Inv t := by
  have changed : Sound t.system ∧ SignUps.Frozen s.system.fs t.system.fs := by
    rcases step_below stepped with ⟨same, _⟩ | ⟨e', below, ran⟩
    · rw [same]
      exact ⟨h.sound, fun _ _ held => held⟩
    · exact ⟨step_sound h.sound below.fromFeed below.names ran, (SignUps.step_inv h.sound.references.signUps ran).2⟩
  obtain ⟨sound, frozen⟩ := changed
  have lists : ∀ tab ∈ s.searches, Lists t.system.fs tab.controller :=
    fun tab ht user hu => storedUser_frozen frozen (h.lists tab ht user hu)
  refine ⟨sound, ?_⟩
  cases step_ok stepped with
  | search => exact forall_mem_concat lists (List.forall_mem_nil _)
  | textDidChange found => exact forall_mem_set lists (textDidChange_lists (lists _ (List.mem_of_getElem? found)) _)
  | @getUsers _ listed _ found =>
    refine forall_mem_set lists (getUsers_lists (lists _ (List.mem_of_getElem? found)) ?_ _)
    intro changes made
    obtain ⟨ids, _, rfl⟩ := Option.map_eq_some_iff.mp made
    exact snapshot_stored h.sound.references.ok.store ids
  | _ => exact lists

end

/-! ### What holds of the app -/

/-- A like that has succeeded has its row in the feed. -/
def RowInFeed (_ : Firestore) : Screen → ScreenEvent → Prop
  | .main c, .main (.like (.acknowledge n)) => ∀ call ∈ c.likeCalls[n]?,
      call.stage = .written true true ∨ call.stage = .written false true → call.closure.row < c.posts.length
  | _, _ => True

def LikesInFeed (s : Navigation) : Event → Prop
  | .program e => AtScreen RowInFeed s.system e
  | _ => True

section
variable {lowercased : String → String} {contains : String → String → Bool} {compare : String → String → Ordering}
  {s t : Navigation} {e : Event}

theorem initial_inv : Inv {} := by
  have references : References.Inv {} :=
    ⟨initial_ok, SignUps.initial_inv, fun _ _ found => (by cases found), References.initial_resolved⟩
  exact ⟨⟨references, List.forall_mem_nil _, fun _ => List.forall_mem_nil _⟩, List.forall_mem_nil _⟩

theorem run_inv {events : List Event} (h : run (step lowercased contains compare) {} events = some t) : Inv t :=
  run_keeps (fun _ _ _ => step_inv) h initial_inv

theorem stored_named {s : System} (h : Sound s) {id : String} (stored : References.Stored s.fs id) : id ≠ "" := by
  obtain ⟨author, d, hd, rfl⟩ := stored
  exact h.named author d hd

/-- Comments are for a post whose ID is not empty. -/
theorem chosen_named {s : System} (h : Sound s) {i : Nat} {c : Client} (found : s.clients[i]? = some c)
    {x : CommentController} (shown : .comments x ∈ c.screens) : (x.chosenPost.bind (·.id)).getD "" ≠ "" := by
  have identified : (x.chosenPost.bind (·.id)).isSome := h.identified c (List.mem_of_getElem? found) _ shown
  obtain ⟨id, hasID⟩ := Option.isSome_iff_exists.mp identified
  have within : Scope.HasComments (References.existing s) x := (h.references.clients i c found).2 _ shown
  rw [hasID]
  exact stored_named h (within.chosen id hasID)

theorem event_safe_iff {s : System} (h : Sound s) {i : Nat} {c : Client} (found : s.clients[i]? = some c) {screen : Screen}
    (shown : screen ∈ c.screens) (e : ScreenEvent) :
    Traps.SafeEvent c.currentUser screen e ↔ RowInFeed s.fs screen e := by
  cases screen with
  | comments x =>
    cases e with
    | comments e =>
      cases e with
      | send => exact iff_of_true (fun _ _ => chosen_named h found shown) trivial
      | _ => exact Iff.rfl
    | _ => exact Iff.rfl
  | main c =>
    cases e with
    | main e =>
      cases e with
      | like e => cases e <;> exact Iff.rfl
      | _ => exact Iff.rfl
    | _ => exact Iff.rfl
  | _ => exact Iff.rfl

theorem opening_safe (h : Inv s) {e' : System.Event} (below : Below s e e') {i : Nat} {opening : Opening}
    (opens : e' = .open i opening) {c : Client} (found : s.system.clients[i]? = some c) :
    Traps.SafeOpening c.currentUser opening := by
  cases below with
  | program direct =>
    subst opens
    cases opening with
    | profile userID =>
      cases userID with
      | none =>
        simp only [Navigation.direct, currentUser, found, Option.bind_some] at direct
        obtain ⟨uid, signed⟩ := Option.isSome_iff_exists.mp direct
        have named := (h.sound.references.ok.clients c (List.mem_of_getElem? found)).1 uid signed
        simpa [Traps.SafeOpening, signed] using named
      | some userID => exact Bool.noConfusion direct
    | comments => exact Bool.noConfusion direct
    | _ => trivial
  | @pressedComment i j row p drawn =>
    cases opens
    intro same
    obtain ⟨d, listed, drawn⟩ := Option.bind_eq_some_iff.mp drawn
    obtain ⟨screen, shown, drawn⟩ := Option.bind_eq_some_iff.mp drawn
    have within := (h.sound.references.clients i d listed).2 screen (List.mem_of_getElem? shown)
    cases screen with
    | main main => exact stored_named h.sound ((within.posts p (List.mem_of_getElem? drawn)).2 "" same) rfl
    | _ => cases drawn
  | @didSelectItemAt n row tab user listed shown =>
    cases opens
    obtain ⟨data, stored, made⟩ := h.lists tab (List.mem_of_getElem? listed) user
      (List.mem_append_right _ (List.mem_of_getElem? shown))
    have named := Traps.Inv.named ⟨h.sound.references.ok, h.sound.references.signUps⟩ _ data stored
    rw [made] at named
    simpa [Traps.SafeOpening] using named

theorem safe_iff (h : Inv s) {e' : System.Event} (below : Below s e e') : Traps.Safe s.system e' ↔ LikesInFeed s e := by
  have opens : ∀ i opening, e' = .open i opening → Traps.Safe s.system e' := by
    rintro i opening rfl c found
    exact opening_safe h below rfl found
  cases below with
  | program direct =>
    cases e' with
    | screen i j e =>
      refine forall_congr' fun c => forall_congr' fun found => forall_congr' fun screen => forall_congr' fun shown => ?_
      exact event_safe_iff h.sound found (List.mem_of_getElem? shown) e
    | «open» i opening => exact iff_of_true (opens i opening rfl) trivial
    | _ => exact Iff.rfl
  | pressedComment | didSelectItemAt => exact iff_of_true (opens _ _ rfl) trivial

end

/-- The program's steps with their openings in order. -/
structure WellOpened (s : System) (e : System.Event) : Prop where
  fromFeed : References.FromFeed s e
  opening : ∀ i opening, e = .open i opening → ∀ c ∈ s.clients[i]?, Traps.SafeOpening c.currentUser opening

/-- Every run of the app is a run of the program, in which comments are opened from a feed and profiles for
a user. -/
theorem app_refines_program (lowercased : String → String) (contains : String → String → Bool)
    (compare : String → String → Ordering) (events : List Event) (t : Navigation)
    (h : run (step lowercased contains compare) {} events = some t) :
    ∃ programEvents, run System.step {} programEvents = some t.system ∧ Along System.step WellOpened {} programEvents := by
  let Is (s : Navigation) (a : System) : Prop := Inv s ∧ a = s.system
  have refined : ∀ s e t a, Is s a → True → step lowercased contains compare s e = some t →
      ∃ ds b, run System.step a ds = some b ∧ Along System.step WellOpened a ds ∧ Is t b := by
    rintro s e t _ ⟨inv, rfl⟩ _ stepped
    rcases step_below stepped with ⟨same, _⟩ | ⟨e', below, ran⟩
    · exact ⟨[], _, rfl, trivial, step_inv inv stepped, same.symm⟩
    · have wellOpened : WellOpened s.system e' :=
        ⟨below.fromFeed, fun _ _ opens _ found => opening_safe inv below opens found⟩
      exact ⟨[e'], _, run_cons_of ran rfl, ⟨wellOpened, fun _ _ => trivial⟩, step_inv inv stepped, rfl⟩
  obtain ⟨programEvents, _, reached, met, _, rfl⟩ :=
    run_refined_along refined h (along_of_forall fun _ _ _ => trivial) ⟨initial_inv, rfl⟩
  exact ⟨programEvents, reached, met⟩

def aliceNavigates : List Event :=
  (Attribution.aliceComments.take 17).map .program ++
    .pressedComment 0 1 0 :: (References.aliceReplies.drop 18).map .program

theorem app_refines_program_alice :
    ∃ t, run (step asciiLowercased asciiContains compare) {} aliceNavigates = some t ∧
      ∃ programEvents, run System.step {} programEvents = some t.system ∧ Along System.step WellOpened {} programEvents :=
  ⟨_, rfl, app_refines_program asciiLowercased asciiContains compare aliceNavigates _ rfl⟩

/-- In every run of the app no screen traps exactly when each like that succeeds has its row in the feed. -/
theorem app_traps_iff (lowercased : String → String) (contains : String → String → Bool)
    (compare : String → String → Ordering) (events : List Event) (t : Navigation)
    (h : run (step lowercased contains compare) {} events = some t) :
    Always (step lowercased contains compare) (fun s => Traps.Running s.system) {} events ↔
      Along (step lowercased contains compare) LikesInFeed {} events := by
  refine always_iff_along (I := Inv) (fun _ _ _ => step_inv) (fun s e t inv running stepped => ?_) h initial_inv
    (List.forall_mem_nil _)
  rcases step_below stepped with ⟨same, silent⟩ | ⟨e', below, ran⟩
  · rw [same]
    refine iff_of_true running ?_
    cases e with
    | program e => exact (silent e rfl).elim
    | _ => trivial
  · rw [← safe_iff inv below]
    exact Traps.step_running_iff ⟨inv.sound.references.ok, inv.sound.references.signUps⟩ running ran

theorem app_traps_iff_alice :
    ∃ t, run (step asciiLowercased asciiContains compare) {} aliceNavigates = some t ∧
      (Always (step asciiLowercased asciiContains compare) (fun s => Traps.Running s.system) {} aliceNavigates ↔
        Along (step asciiLowercased asciiContains compare) LikesInFeed {} aliceNavigates) :=
  ⟨_, rfl, app_traps_iff asciiLowercased asciiContains compare aliceNavigates _ rfl⟩

end Foti.Navigation
