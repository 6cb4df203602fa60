import Foti.System.NavigationSafety
import Foti.System.ReusedCells
import Foti.System.ShownContent

/-!
The photos of users and posts are those that Storage has located. As long as it gives their URLs, everything
on a screen has its photos, and a reused cell shows nothing of an earlier item.
-/

namespace Foti.DrawnContent
open Attribution Document Entries Reuse ScreenRuns Transition
variable {URL : Type*}

section
variable (url : String → Option URL)

/-- Without an error `downloadURL` answers with a URL, whose string `URL(string:)` takes. -/
def givesURL : System.Event → Bool
  | .register _ _ (.located _ given true) | .screen _ _ (.share (.located _ given true _)) => (given.bind url).isSome
  | _ => true

/-- The URL of the profile photo that an attempt is about to save. -/
def Located (a : SignUpAttempt) : Prop :=
  match a.stage with
  | .saving _ given => (given.bind url).isSome
  | _ => True

def SavesPhoto (_ : Firestore) : Screen → Prop
  | .share c => ∀ a ∈ c.attempts, ∀ uid data, a.stage = .saving uid data → (url data.imageURL).isSome
  | _ => True

def ScreenGives (_ : Firestore) (_ : Screen) : ScreenEvent → Prop
  | .share (.located _ given true _) => (given.bind url).isSome
  | _ => True

structure Photos (s : System) : Prop where
  users : ∀ uid data, s.fs.users uid = some data → (url (User.init data).profilePhotoURL).isSome
  posts : ∀ author, ∀ d ∈ s.fs.photoPosts author, ((asString (d.2.lookup "PostImageURL")).bind url).isSome
  attempts : ∀ p a, SignUps.attempt s p = some a → Located url a
  shares : OnScreens (SavesPhoto url) s

end

section
variable {url : String → Option URL} {s t : System} {e : System.Event}

/-! ### Attempts and shares -/

theorem step_located {s u : SignUp.State} {e : SignUp.Event} (h : ∀ a ∈ s.attempts, Located url a)
    (gives : ∀ n given ok, e = .located n given ok → ok = true → (given.bind url).isSome)
    (stepped : SignUp.step s e = some u) : ∀ a ∈ u.attempts, Located url a := by
  cases SignUp.step_ok stepped with
  | pressed creating =>
    refine forall_mem_concat h ?_
    rw [Located, creating]
    trivial
  | unread => exact h
  | created | refused | saved | saveFails => exact forall_mem_set h trivial
  | @uploaded n a uid ok => cases ok <;> exact forall_mem_set h trivial
  | @located n a uid given ok =>
    cases ok with
    | true => exact forall_mem_set h (gives n given true rfl rfl)
    | false => exact forall_mem_set h trivial

theorem share_saves {fs : Firestore} {currentUser : Option String} {c c' : SharePhotoController} {e : ShareEvent}
    {write : Option (String × ServerWrite)} (h : SavesPhoto url fs (.share c))
    (gives : ScreenGives url fs (.share c) (.share e)) (outcome : SharePhotoController.Handled currentUser c e c' write) :
    SavesPhoto url fs (.share c') := by
  cases outcome with
  | edit => exact h
  | press =>
    refine forall_mem_concat h fun uid data saving => ?_
    dsimp only at saving
    split at saving <;> cases saving
  | uploaded =>
    unfold SharePhotoController.uploaded
    split <;> exact forall_mem_set h (by simp)
  | @located n a given ok now =>
    cases ok with
    | false => exact forall_mem_set h (by simp)
    | true =>
      obtain ⟨stage, attempts, ends⟩ := c.located_cases n a given true currentUser now
      simp only [SavesPhoto, attempts]
      refine forall_mem_set h fun uid data saving => ?_
      rcases ends with rfl | ⟨_, _, rfl, _, _, located⟩
      · cases saving
      · obtain ⟨_, rfl⟩ := ShareStage.saving.inj saving
        subst located
        exact gives
  | saved | saveFails => exact forall_mem_set h (by simp)

theorem saves_kept : Kept (ScreenGives url) (SavesPhoto url) where
  attempts _ := trivial
  users _ _ screen _ h := by cases screen <;> exact h
  handled _ _ h gives outcome := by
    cases outcome with
    | share outcome => exact share_saves h gives outcome
    | _ => trivial
  notified {fs w fs' screen} _ _ h := by cases screen <;> exact h

/-- A post is written by a share with the URL of its photo. -/
theorem handled_photo {fs : Firestore} {currentUser : Option String} {screen screen' : Screen} {e : ScreenEvent}
    {sender author documentID : String} {data : PostData} (h : SavesPhoto url fs screen)
    (handled : Screen.Handled currentUser fs screen e screen' (some (sender, .photoPost author documentID data))) :
    (url data.imageURL).isSome := by
  generalize wrote : some (sender, ServerWrite.photoPost author documentID data) = write at handled
  cases handled with
  | share outcome =>
    cases outcome with
    | saved found saving =>
      cases wrote
      exact h _ (List.mem_of_getElem? found) _ _ saving
    | _ => cases wrote
  | @main c c' e w outcome =>
    obtain ⟨w, rfl, same⟩ := Option.map_eq_some_iff.mp wrote.symm
    obtain ⟨_, _, rfl⟩ := outcome.write_like
    cases same
  | comments outcome => cases outcome <;> cases wrote
  | profile outcome =>
    rcases outcome.write_follow with rfl | ⟨_, _, _, rfl⟩ <;> cases wrote

/-! ### The store -/

theorem addData_photo (data : PostData) (author : String) :
    asString ((data.addData author).lookup "PostImageURL") = some data.imageURL := by
  rw [PostData.addData, dict_lookup_tail _ _ (by decide), dict_lookup_head, asString_string]

theorem init_photo (userName uid : String) {given : Option String} (located : (given.bind url).isSome) :
    (url (User.init (SignUpAttempt.addData userName uid given)).profilePhotoURL).isSome := by
  cases given with
  | none => cases located
  | some photo => simpa [User.init, SignUpAttempt.addData_profilePhotoURL] using located

theorem applied_posts {fs fs' : Firestore} {w : ServerWrite} (applied : Firestore.Applied fs w fs')
    (h : ∀ author, ∀ d ∈ fs.photoPosts author, ((asString (d.2.lookup "PostImageURL")).bind url).isSome)
    (new : ∀ author documentID data, w = .photoPost author documentID data → (url data.imageURL).isSome) :
    ∀ author, ∀ d ∈ fs'.photoPosts author, ((asString (d.2.lookup "PostImageURL")).bind url).isSome := by
  cases applied with
  | @photoPost writer documentID data fresh =>
    intro author d hd
    rcases ((Firestore.Applied.photoPost fresh).photoPosts_mem author d).mp hd with old | ⟨_, rfl⟩
    · exact h author d old
    · rw [addData_photo]
      exact new writer documentID data rfl
  | _ => exact h

theorem register_photos {i j : Nat} {e : SignUp.Event} (h : Photos url s) (gives : givesURL url (.register i j e))
    (stepped : s.step (.register i j e) = some t) :
    (∀ uid data, t.fs.users uid = some data → (url (User.init data).profilePhotoURL).isSome) ∧
      ∀ p a, SignUps.attempt t p = some a → Located url a := by
  obtain ⟨c, attempts, u, found, shown, _, registered, rfl⟩ := SignUps.register_ok stepped
  have listed : ∀ {n a}, attempts[n]? = some a → SignUps.attempt s (i, j, n) = some a := fun ha =>
    SignUps.attempt_eq_some.mpr ⟨c, attempts, found, shown, ha⟩
  constructor
  · intro uid data held
    rcases SignUps.saved_users registered with same | ⟨n, a, uid', given, _, ha, saving, same⟩
    · rw [same] at held
      exact h.users uid data held
    · rw [same] at held
      rcases update_cases held with ⟨rfl, rfl⟩ | ⟨_, old⟩
      · have located := h.attempts _ a (listed ha)
        rw [Located, saving] at located
        exact init_photo a.userName uid located
      · exact h.users uid data old
  · intro p a ha
    have own : ∀ a ∈ u.attempts, Located url a := by
      refine step_located (fun a member => ?_) (fun n given ok is_located ok_true => ?_) registered
      · obtain ⟨n, there⟩ := List.mem_iff_getElem?.mp member
        exact h.attempts _ a (listed there)
      · subst is_located ok_true
        exact gives
    rcases SignUps.registered_attempt found (SignUps.signedUp_screens _ e) rfl ha with ⟨n, _, there⟩ | ⟨_, old⟩
    · exact own a (List.mem_of_getElem? there)
    · exact h.attempts p a old

theorem step_photos (ok : SystemOk s) (frozen : SignUps.Frozen s.fs t.fs) (h : Photos url s) (gives : givesURL url e)
    (stepped : s.step e = some t) : Photos url t := by
  have meets : AtScreen (ScreenGives url) s e := by
    unfold AtScreen
    split
    · intro c _ screen _
      unfold ScreenGives
      split
      · exact gives
      · trivial
    · trivial
  have opens : Opens (SavesPhoto url) s e := by
    rintro i opening rfl c found
    cases opening with
    | share => exact List.forall_mem_nil _
    | _ => trivial
  have shares := step_screens saves_kept ok frozen opens h.shares meets stepped
  have kept : t.fs = s.fs → (∀ p a, SignUps.attempt t p = some a → SignUps.attempt s p = some a) → Photos url t :=
    fun store old => ⟨store ▸ h.users, store ▸ h.posts, fun p a ha => h.attempts p a (old p a ha), shares⟩
  cases System.step_ok stepped with
  | launch => exact kept rfl fun _ _ => SignUps.launched_attempt
  | signIn found | signOut found => exact kept rfl fun _ _ => SignUps.session_attempt found
  | opened found => exact kept rfl fun _ _ => SignUps.opened_attempt found
  | register =>
    obtain ⟨users, attempts⟩ := register_photos h gives stepped
    exact ⟨users, h.posts, attempts, shares⟩
  | silent found _ handled => exact kept rfl fun _ _ => SignUps.put_attempt found handled
  | @wrote i j _ c screen screen' sender w _ found shown handled written =>
    have users := SignUps.write_users handled written
    refine ⟨users ▸ h.users, ?_, fun p a ha => ?_, shares⟩
    · obtain ⟨fs', _, applied, rfl⟩ := System.write_ok written
      have saves := h.shares c (List.mem_of_getElem? found) screen (List.mem_of_getElem? shown)
      refine applied_posts applied h.posts fun author documentID data same => ?_
      subst same
      exact handled_photo saves handled
    · exact h.attempts p a (SignUps.put_attempt found handled (SignUps.write_attempt written ha))

/-! ### The headers of a profile -/

/-- A header has the screen's user or none yet, and the screen gets its user once. -/
def HeadersOwn (_ : Firestore) : Screen → Prop
  | .profile c => (c.userLookup.isSome → c.validUser = none) ∧
      ∀ header ∈ c.headers, header.validUser = none ∨ header.validUser = c.validUser
  | _ => True

theorem profile_own {fs : Firestore} {currentUser : Option String} {c c' : UserProfileController} {e : ProfileEvent}
    {write : Option (String × ServerWrite)} (h : HeadersOwn fs (.profile c))
    (outcome : UserProfileController.Handled currentUser fs c e c' write) : HeadersOwn fs (.profile c') := by
  obtain ⟨once, own⟩ := h
  cases outcome with
  | @userFound uID waits =>
    have unknown := once (by rw [waits]; rfl)
    have unnamed : ∀ header ∈ c.headers, header.validUser = none := fun header hh =>
      (own header hh).elim id fun same => same.trans unknown
    cases found : fs.users uID with
    | none => exact ⟨fun looks => Bool.noConfusion looks, own⟩
    | some data =>
      simp only [UserProfileController.userFound, UserProfileController.getPostFS]
      split <;> exact ⟨fun looks => Bool.noConfusion looks, fun header hh => .inl (unnamed header hh)⟩
  | userFails => exact ⟨fun looks => Bool.noConfusion looks, own⟩
  | photoSnapshot =>
    simp only [UserProfileController.postsAdded]
    split <;> exact ⟨once, own⟩
  | @configure place =>
    obtain ⟨headers, _, same, drawn⟩ := c.configure_cases place currentUser
    rw [same]
    refine ⟨once, fun header hh => ?_⟩
    rcases drawn header hh with old | ⟨shown, _⟩
    · exact own header old
    · exact .inr shown
  | @followRead n r =>
    rcases UserProfileController.followRead_cases { c with followReads := c.followReads.eraseIdx n } r
      (fs.follows r.accountUserID) with same | ⟨header, listed, same⟩
    · rw [same]
      exact ⟨once, own⟩
    · rw [same]
      refine ⟨once, forall_mem_set own ?_⟩
      rw [header.followData_user]
      exact own header listed
  | @completed n tap whole header found listed =>
    refine ⟨once, forall_mem_set own ?_⟩
    rw [(completion_same tap.call whole header).1]
    exact own header (List.mem_of_getElem? listed)
  | photoFails | followReadFails | tap | moved => exact ⟨once, own⟩

theorem own_kept : Kept (fun _ _ _ => True) HeadersOwn where
  attempts _ := trivial
  users _ _ screen _ h := by cases screen <;> exact h
  handled _ _ h _ outcome := by
    cases outcome with
    | profile outcome => exact profile_own h outcome
    | _ => trivial
  notified {fs w fs' screen} _ _ h := by
    cases screen with
    | profile c => cases w <;> exact h
    | _ => trivial

theorem opened_own (fs : Firestore) (currentUser : Option String) (opening : Opening) :
    HeadersOwn fs (Screen.viewDidLoad currentUser fs opening) := by
  cases opening with
  | profile userID =>
    simp only [HeadersOwn, Screen.viewDidLoad, UserProfileController.viewDidLoad]
    split <;> exact ⟨fun _ => rfl, List.forall_mem_nil _⟩
  | _ => trivial

theorem step_own (ok : SystemOk s) (frozen : SignUps.Frozen s.fs t.fs) (h : OnScreens HeadersOwn s)
    (stepped : s.step e = some t) : OnScreens HeadersOwn t := by
  have opens : Opens HeadersOwn s e := fun _ opening _ c _ => opened_own s.fs c.currentUser opening
  exact step_screens own_kept ok frozen opens h (atScreen_any s e) stepped

/-! ### What the cells draw -/

theorem user_photo (photos : Photos url s) {user : User} (h : ShownContent.Current s.fs user) :
    (url user.profilePhotoURL).isSome := by
  obtain ⟨data, found, same⟩ := h
  rw [same]
  exact photos.users _ data found

theorem post_photo (photos : Photos url s) {p : Post} (h : OfDocument s.fs p) : (p.postImageURL.bind url).isSome := by
  obtain ⟨d, hd, ⟨now, same⟩, _⟩ := h
  have photo : p.postImageURL = asString (d.2.lookup "PostImageURL") := congrArg Post.postImageURL same
  rw [photo]
  exact photos.posts _ d hd

theorem post_complete (photos : Photos url s) {p : Post} (user : ShownContent.Current s.fs p.user)
    (h : OfDocument s.fs p) : MainPostCell.Complete url p := ⟨post_photo photos h, user_photo photos user⟩

theorem thumbnail_photo (photos : Photos url s) {p : Post} (h : OfDocument s.fs p) :
    (url (p.postImageURL.getD "")).isSome := by
  have photo := post_photo photos h
  cases found : p.postImageURL with
  | none =>
    rw [found] at photo
    cases photo
  | some imageURL => simpa [found] using photo

end

section
variable (url : String → Option URL)

/-- A reused cell shows the post alone. -/
def CellShows (post : Post) : Prop :=
  ∀ now, ShowsOnly (fun cell (p : Timestamp × Post) => MainPostCell.didSet url p.1 cell (some p.2)) {} (now, post)

/-- Every stored user document and post has a photo whose URL `URL(string:)` takes. -/
def StoredPhotos (fs : Firestore) : Prop :=
  (∀ uid data, fs.users uid = some data → (url (User.init data).profilePhotoURL).isSome) ∧
  ∀ author, ∀ d ∈ fs.photoPosts author, ((asString (d.2.lookup "PostImageURL")).bind url).isSome

/-- The reused cells of a screen and the photo and name of its headers show only the item they were given
last. A header's button stays as it was, and no header is given another user than it had. -/
def DrawsCurrent : Screen → Prop
  | .main c => ∀ p ∈ c.posts, CellShows url p
  | .comments c => ∀ x ∈ c.comments, ShowsOnly (fun cell x => CommentCell.didSet url cell (some x)) {} x
  | .profile c =>
      (∀ p ∈ c.posts, CellShows url p ∧
        ShowsOnly (fun cell post => UserPostPhotoCell.didSet url cell (some post)) {} p) ∧
      (∀ user, c.validUser = some user → ShowsOnly (HeaderLabels.didSet url) {} (some user)) ∧
      ∀ header ∈ c.headers, header.validUser = none ∨ header.validUser = c.validUser
  | .register _ | .share _ => True

/-- The same of an event of the app. -/
def gives : Navigation.Event → Bool
  | .program e => givesURL url e
  | _ => true

end

section
variable {lowercased : String → String} {contains : String → String → Bool} {compare : String → String → Ordering}
  {url : String → Option URL} {s t : Navigation} {e : Navigation.Event}

structure Inv (url : String → Option URL) (s : Navigation) : Prop where
  app : Navigation.Inv s
  photos : Photos url s.system
  current : Scope.HasClients (fun _ => ShownContent.current s.system) s.system
  headers : OnScreens HeadersOwn s.system

theorem below_gives (answers : gives url e) {e' : System.Event} (below : Navigation.Below s e e') : givesURL url e' := by
  cases below with
  | program => exact answers
  | _ => rfl

theorem step_inv (h : Inv url s) (answers : gives url e)
    (stepped : s.step lowercased contains compare e = some t) : Inv url t := by
  have app := Navigation.step_inv h.app stepped
  rcases Navigation.step_below stepped with ⟨same, _⟩ | ⟨e', below, ran⟩
  · exact ⟨app, same ▸ h.photos, same ▸ h.current, same ▸ h.headers⟩
  · have ok := h.app.sound.references.ok
    obtain ⟨_, frozen⟩ := SignUps.step_inv h.app.sound.references.signUps ran
    exact ⟨app, step_photos ok frozen h.photos (below_gives answers below) ran,
      (Scope.step_within ok h.current (ShownContent.current_admits ok frozen) ran).1, step_own ok frozen h.headers ran⟩

theorem initial_inv : Inv url {} := by
  refine ⟨Navigation.initial_inv, ⟨?_, ?_, ?_, List.forall_mem_nil _⟩, fun _ _ found => (by cases found),
    List.forall_mem_nil _⟩
  · exact fun _ _ found => by cases found
  · exact fun _ => List.forall_mem_nil _
  · exact fun _ _ found => by simp [SignUps.attempt] at found

theorem screen_draws (h : Inv url s) {i : Nat} {c : Client} (found : s.system.clients[i]? = some c) {screen : Screen}
    (shown : screen ∈ c.screens) : DrawsCurrent url screen := by
  have holds := (h.app.sound.references.ok.clients c (List.mem_of_getElem? found)).2 screen shown
  have users := (h.current i c found).2 screen shown
  have cell : ∀ {p : Post}, ShownContent.Current s.system.fs p.user → OfDocument s.system.fs p → CellShows url p :=
    fun user stored now => (MainPostCell.overwrites url (post_complete h.photos user stored) now).showsOnly {}
  cases screen with
  | register | share => trivial
  | main m => exact fun p hp => cell (users.posts p hp).1 (holds.posts p hp)
  | comments m => exact fun x _ => (CommentCell.overwrites url x).showsOnly {}
  | profile m =>
    have own := (h.headers c (List.mem_of_getElem? found) _ shown).2
    refine ⟨fun p hp => ⟨cell (users.posts p hp).1 (holds.posts p hp), fun earlier => ?_⟩, fun user drawn => ?_, own⟩
    · exact (UserPostPhotoCell.thumbnail_reused_iff url earlier p).mpr (.inl (thumbnail_photo h.photos (holds.posts p hp)))
    · exact (HeaderLabels.overwrites url (user_photo h.photos (users.user user drawn))).showsOnly {}

theorem row_draws (h : Inv url s) {tab : SearchTab} (searched : tab ∈ s.searches) :
    ∀ user ∈ tab.controller.filteredUsers,
      ShowsOnly (fun cell user => SearchUserCell.didSet url cell (some user)) {} user := by
  intro user drawn earlier
  obtain ⟨data, stored, made⟩ := h.app.lists tab searched user (List.mem_append_right _ drawn)
  refine (SearchUserCell.row_reused_iff url earlier user).mpr (.inl ?_)
  exact user_photo h.photos ⟨data, stored, made.symm⟩

end

end Foti.DrawnContent
