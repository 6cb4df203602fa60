import Foti.System.Attribution
import Foti.System.SignUps

/-!
Where the program traps. Four kinds of events can end it: a profile opened without a user, the comments
of a post opened or sent with an empty post ID, and a like acknowledged after its row has left the feed.
The other traps of the source are never reached.
-/

namespace Foti.Traps
open Document Entries Listening Transition

def Trapped : Screen → Bool
  | .register _ | .share _ => false
  | .main c => c.crashed
  | .comments c => c.crashed
  | .profile c => c.crashed

/-- No screen of any client has trapped. -/
def Running (s : System) : Prop := ∀ c ∈ s.clients, ∀ screen ∈ c.screens, Trapped screen = false

def SafeOpening (currentUser : Option String) : Opening → Prop
  | .profile userID => (userID.or currentUser).getD "" ≠ ""
  | .comments chosenPost => chosenPost.bind (·.id) ≠ some ""
  | _ => True

/-- A comment is sent to a post with an ID, and a like that succeeded has its row in the feed. -/
def SafeEvent (currentUser : Option String) : Screen → ScreenEvent → Prop
  | .comments c, .comments (.send _) =>
      currentUser.isSome → c.txtComment ≠ "" → (c.chosenPost.bind (·.id)).getD "" ≠ ""
  | .main c, .main (.like (.acknowledge n)) => ∀ call ∈ c.likeCalls[n]?,
      call.stage = .written true true ∨ call.stage = .written false true → call.closure.row < c.posts.length
  | _, _ => True

def Safe (s : System) : System.Event → Prop
  | .open i opening => ∀ c ∈ s.clients[i]?, SafeOpening c.currentUser opening
  | .screen i j e => ∀ c ∈ s.clients[i]?, ∀ screen ∈ c.screens[j]?, SafeEvent c.currentUser screen e
  | _ => True

instance (currentUser : Option String) (opening : Opening) : Decidable (SafeOpening currentUser opening) := by
  unfold SafeOpening; split <;> infer_instance

instance (currentUser : Option String) (screen : Screen) (e : ScreenEvent) :
    Decidable (SafeEvent currentUser screen e) := by
  unfold SafeEvent; split <;> infer_instance

instance (s : System) (e : System.Event) : Decidable (Safe s e) := by
  unfold Safe; split <;> infer_instance

/-! ### The screens -/

section
variable {fs : Firestore} {currentUser : Option String}

/-- A user document is never that of the empty uid. -/
def Named (fs : Firestore) : Prop := ∀ uid data, fs.users uid = some data → (User.init data).userID ≠ ""

/-- The acknowledgement of a like traps exactly when it succeeded and its row is out of range. -/
theorem acknowledge_traps_iff {c c' : MainController} {n : Nat} {w : Option ServerWrite} (running : c.crashed = false)
    (h : c.likeStep fs (.acknowledge n) = some (c', w)) :
    c'.crashed = false ↔ SafeEvent currentUser (.main c) (.main (.like (.acknowledge n))) := by
  simp only [MainController.likeStep, Option.bind_eq_bind, Option.bind_eq_some_iff] at h
  obtain ⟨call, found, call', acknowledged, h⟩ := h
  obtain ⟨whole, ok, written, rfl⟩ := Call.acknowledge_same acknowledged
  have safe : SafeEvent currentUser (.main c) (.main (.like (.acknowledge n))) ↔
      (ok = true → call.closure.row < c.posts.length) := by
    simp only [SafeEvent, found, Option.mem_def, Option.some.injEq, forall_eq', written]
    cases whole <;> cases ok <;> simp
  rw [safe]
  cases ok with
  | false =>
    obtain ⟨rfl, rfl⟩ := Prod.mk.inj (Option.some.inj h)
    exact iff_of_true running (by simp)
  | true =>
    simp only [if_true, forall_const] at h ⊢
    unfold LikeCall.completion at h
    by_cases inside : call.closure.row < c.posts.length
    · simp only [inside, if_true] at h
      obtain ⟨rfl, rfl⟩ := Prod.mk.inj (Option.some.inj h)
      exact iff_of_true running inside
    · simp only [inside, if_false] at h
      obtain ⟨rfl, rfl⟩ := Prod.mk.inj (Option.some.inj h)
      exact iff_of_false (by simp) inside

theorem main_traps_iff {c c' : MainController} {e : MainEvent} {w : Option ServerWrite} (named : Named fs)
    (running : c.crashed = false) (h : c.handle currentUser fs e = some (c', w)) :
    c'.crashed = false ↔ SafeEvent currentUser (.main c) (.main e) := by
  obtain ⟨_, outcome⟩ := MainController.handle_ok h
  cases e with
  | like call =>
    cases call with
    | acknowledge n =>
      simp only [MainController.handle, running, Bool.false_eq_true, if_false] at h
      exact acknowledge_traps_iff running h
    | _ =>
      cases outcome with
      | moved => exact iff_of_true running trivial
  | userLookup n ok =>
    refine iff_of_true ?_ trivial
    cases outcome with
    | @userFound n lookup found =>
      cases user : fs.users lookup.uID with
      | none => exact running
      | some data =>
        simp only [MainController.userFound, MainController.getPosts]
        rw [if_neg (named _ data user)]
        exact running
    | userFails => exact running
  | refreshPosts =>
    refine iff_of_true ?_ trivial
    cases outcome
    obtain ⟨_, _, same⟩ := Attribution.refresh_same c currentUser fs
    rw [same]
    exact running
  | photoSnapshot =>
    refine iff_of_true ?_ trivial
    cases outcome
    cases currentUser <;> exact running
  | _ =>
    refine iff_of_true ?_ trivial
    cases outcome <;> exact running

theorem send_traps_iff {c : CommentController} {now : UInt64} (running : c.crashed = false) :
    (c.send currentUser now).crashed = false ↔ SafeEvent currentUser (.comments c) (.comments (.send now)) := by
  unfold SafeEvent CommentController.send btnSendCommentPressed
  cases currentUser with
  | none => simpa using running
  | some sender =>
    by_cases typed : c.txtComment = ""
    · simpa [typed] using running
    · by_cases named : (c.chosenPost.bind (·.id)).getD "" = "" <;> simp [typed, named, running]

theorem comments_traps_iff {c c' : CommentController} {e : CommentEvent} {write : Option (String × ServerWrite)}
    (running : c.crashed = false) (h : c.handle currentUser fs e = some (c', write)) :
    c'.crashed = false ↔ SafeEvent currentUser (.comments c) (.comments e) := by
  have outcome := CommentController.handle_ok h
  cases outcome with
  | send => exact send_traps_iff running
  | @userFound n lookup found =>
    refine iff_of_true ?_ trivial
    cases fs.users lookup.uID <;> exact running
  | _ => exact iff_of_true running trivial

/-- A profile traps only when it is opened. -/
theorem profile_runs {c c' : UserProfileController} {e : ProfileEvent} {write : Option (String × ServerWrite)}
    {issuers : List (String × String)} (store : WellFormed fs issuers) (named : Named fs) (ok : Attribution.ProfileOk fs c)
    (running : c.crashed = false) (h : c.handle currentUser fs e = some (c', write)) : c'.crashed = false := by
  have outcome := UserProfileController.handle_ok h
  cases outcome with
  | @userFound uID waits =>
    cases user : fs.users uID with
    | none => exact running
    | some data =>
      simp only [UserProfileController.userFound, UserProfileController.getPostFS]
      rw [if_neg (named _ data user)]
      exact running
  | @photoSnapshot l n now listener listeners delivered =>
    obtain ⟨found, _⟩ := deliver_ok delivered
    obtain ⟨user, shown, _⟩ := ok.topics listener (List.mem_of_getElem? found)
    simp only [UserProfileController.postsAdded, shown]
    exact running
  | @configure place =>
    obtain ⟨_, _, same, _⟩ := c.configure_cases place currentUser
    rwa [same]
  | @followRead n read found =>
    rcases UserProfileController.followRead_cases { c with followReads := c.followReads.eraseIdx n } read
      (fs.follows read.accountUserID) with same | ⟨header, listed, same⟩
    · rwa [same]
    · have crashed := (ok.headers header listed).1
      rw [same]
      exact (Attribution.followData_ok store.sees header read.validUserID read.accountUserID).2.trans crashed
  | _ => exact running

theorem screen_traps_iff {screen screen' : Screen} {e : ScreenEvent} {write : Option (String × ServerWrite)}
    {issuers : List (String × String)} (store : WellFormed fs issuers) (named : Named fs)
    (ok : Attribution.ScreenOk fs screen) (running : Trapped screen = false)
    (h : screen.handle currentUser fs e = some (screen', write)) :
    Trapped screen' = false ↔ SafeEvent currentUser screen e := by
  unfold Screen.handle at h
  split at h
  · obtain ⟨⟨c', w⟩, _, same⟩ := Option.map_eq_some_iff.mp h
    obtain ⟨rfl, _⟩ := Prod.mk.inj same
    exact iff_of_true rfl trivial
  · obtain ⟨⟨c', w⟩, handled, same⟩ := Option.map_eq_some_iff.mp h
    obtain ⟨rfl, _⟩ := Prod.mk.inj same
    exact main_traps_iff named running handled
  · obtain ⟨⟨c', w⟩, handled, same⟩ := Option.map_eq_some_iff.mp h
    obtain ⟨rfl, _⟩ := Prod.mk.inj same
    exact comments_traps_iff running handled
  · obtain ⟨⟨c', w⟩, handled, same⟩ := Option.map_eq_some_iff.mp h
    obtain ⟨rfl, _⟩ := Prod.mk.inj same
    exact iff_of_true (profile_runs store named ok running handled) trivial
  · cases h

theorem opened_traps_iff (fs : Firestore) (opening : Opening) :
    Trapped (Screen.viewDidLoad currentUser fs opening) = false ↔ SafeOpening currentUser opening := by
  cases opening with
  | register | share => exact iff_of_true rfl trivial
  | main => cases currentUser <;> exact iff_of_true rfl trivial
  | comments chosenPost =>
    simp only [Screen.viewDidLoad, CommentController.viewDidLoad, SafeOpening]
    cases chosen : chosenPost.bind (·.id) with
    | none => simp [Trapped]
    | some postID => by_cases empty : postID = "" <;> simp [Trapped, empty]
  | profile userID =>
    simp only [Screen.viewDidLoad, UserProfileController.viewDidLoad, SafeOpening]
    by_cases empty : (userID.or currentUser).getD "" = ""
    · rw [if_pos empty]
      exact iff_of_false (by simp [Trapped]) fun named => named empty
    · rw [if_neg empty]
      exact iff_of_true rfl empty

theorem notify_trapped (fs fs' : Firestore) (w : ServerWrite) (screen : Screen) :
    Trapped (screen.notify fs fs' w) = Trapped screen := by
  cases screen with
  | register | share => rfl
  | main c =>
    obtain ⟨_, _, same⟩ := MainController.notify_same c fs fs' w
    simp only [Screen.notify, same, Trapped]
  | comments c => cases w <;> rfl
  | profile c => cases w <;> rfl

end

/-! ### The whole program -/

section
variable {s t : System}

structure Inv (s : System) : Prop where
  ok : Attribution.SystemOk s
  signUps : SignUps.Inv s

theorem step_inv {e : System.Event} (h : Inv s) (stepped : s.step e = some t) : Inv t :=
  ⟨Attribution.step_ok h.ok stepped, (SignUps.step_inv h.signUps stepped).1⟩

theorem Inv.named (h : Inv s) : Named s.fs := by
  intro uid data found
  simp only [User.init, h.ok.store.users uid data found, Option.getD_some]
  rintro rfl
  rw [h.signUps.noUser "" fun acc hacc => h.ok.accounts acc hacc] at found
  cases found

/-- A step that changes one screen of one client. -/
theorem set_running_iff {i : Nat} {c c' : Client} (running : Running s) (found : s.clients[i]? = some c) {screen : Screen}
    (changed : ∀ x ∈ c'.screens, x = screen ∨ x ∈ c.screens) (has : screen ∈ c'.screens) :
    Running { s with clients := s.clients.set i c' } ↔ Trapped screen = false := by
  have inside := (List.getElem?_eq_some_iff.mp found).1
  constructor
  · exact fun h => h c' (List.mem_set inside c') screen has
  · intro safe d hd x hx
    rcases List.mem_or_eq_of_mem_set hd with old | rfl
    · exact running d old x hx
    · rcases changed x hx with rfl | old
      · exact safe
      · exact running c (List.mem_of_getElem? found) x old

theorem same_running {i : Nat} {c c' : Client} (running : Running s) (found : s.clients[i]? = some c)
    (changed : ∀ x ∈ c'.screens, Trapped x = false ∨ x ∈ c.screens) :
    Running { s with clients := s.clients.set i c' } := by
  intro d hd x hx
  rcases List.mem_or_eq_of_mem_set hd with old | rfl
  · exact running d old x hx
  · exact (changed x hx).elim id (running c (List.mem_of_getElem? found) x)

theorem write_running_iff {sender : String} {w : ServerWrite} (written : s.write sender w = some t) :
    Running t ↔ Running s := by
  obtain ⟨fs', _, _, rfl⟩ := System.write_ok written
  simp only [Running, List.forall_mem_map, notify_trapped]

theorem screen_step_iff {i j : Nat} {e : ScreenEvent} (inv : Inv s) (running : Running s)
    (h : s.step (.screen i j e) = some t) : Running t ↔ Safe s (.screen i j e) := by
  obtain ⟨c, found, h⟩ := Option.bind_eq_some_iff.mp h
  obtain ⟨screen, shown, h⟩ := Option.bind_eq_some_iff.mp h
  obtain ⟨⟨screen', write⟩, handled, h⟩ := Option.bind_eq_some_iff.mp h
  have member := List.mem_of_getElem? found
  have listed := List.mem_of_getElem? shown
  have own := screen_traps_iff inv.ok.store inv.named ((inv.ok.clients c member).2 screen listed)
    (running c member screen listed) handled
  have put : Running (s.put i c j screen') ↔ Trapped screen' = false := by
    refine set_running_iff running found (fun x hx => (List.mem_or_eq_of_mem_set hx).symm) ?_
    exact List.mem_set (List.getElem?_eq_some_iff.mp shown).1 screen'
  have safe : Safe s (.screen i j e) ↔ SafeEvent c.currentUser screen e := by
    simp only [Safe, found, shown, Option.mem_def, Option.some.injEq, forall_eq']
  rw [safe, ← own, ← put]
  cases write with
  | none =>
    obtain rfl := Option.some.inj h
    rfl
  | some write => exact write_running_iff h

theorem step_running_iff {e : System.Event} (inv : Inv s) (running : Running s) (h : s.step e = some t) :
    Running t ↔ Safe s e := by
  cases System.step_ok h with
  | launch =>
    refine iff_of_true (fun c hc screen hs => ?_) trivial
    rcases List.mem_append.mp hc with old | new
    · exact running c old screen hs
    · obtain rfl := List.mem_singleton.mp new
      cases hs
  | signIn found => exact iff_of_true (same_running running found fun _ hx => .inr hx) trivial
  | signOut found => exact iff_of_true (same_running running found fun _ hx => .inr hx) trivial
  | @opened i opening c found =>
    have safe : Safe s (.open i opening) ↔ SafeOpening c.currentUser opening := by
      simp only [Safe, found, Option.mem_def, Option.some.injEq, forall_eq']
    rw [safe, ← opened_traps_iff s.fs]
    refine set_running_iff running found (fun x hx => ?_) (by simp)
    exact (List.mem_append.mp hx).symm.imp_left List.mem_singleton.mp
  | @register i j e c attempts u found _ _ =>
    have changed : ∀ x ∈ (System.signedUp { c with screens := c.screens.set j (.register u.attempts) } e).screens,
        Trapped x = false ∨ x ∈ c.screens := by
      intro x hx
      rw [SignUps.signedUp_screens] at hx
      rcases List.mem_or_eq_of_mem_set hx with old | rfl
      · exact .inr old
      · exact .inl rfl
    exact iff_of_true (same_running running found changed) trivial
  | silent => exact screen_step_iff inv running h
  | wrote => exact screen_step_iff inv running h

end

/-- In every run of the program no screen traps exactly when each step is safe: profiles are opened for
a user, comments are opened and sent for a post ID, and a like that succeeded finds its row in the feed. -/
theorem runs_without_trap_iff (events : List System.Event) (t : System) (h : run System.step {} events = some t) :
    Always System.step Running {} events ↔ Along System.step Safe {} events := by
  have initial : Inv {} := ⟨Attribution.initial_ok, SignUps.initial_inv⟩
  exact always_iff_along (fun _ _ _ => step_inv) (fun _ _ _ inv running stepped => step_running_iff inv running stepped) h
    initial (List.forall_mem_nil _)

theorem runs_without_trap_iff_alice : ∃ t, run System.step {} Attribution.aliceComments = some t ∧
    (Always System.step Running {} Attribution.aliceComments ↔ Along System.step Safe {} Attribution.aliceComments) :=
  ⟨_, rfl, runs_without_trap_iff Attribution.aliceComments _ rfl⟩

example : Along System.step Safe {} Attribution.aliceComments := by decide

end Foti.Traps
