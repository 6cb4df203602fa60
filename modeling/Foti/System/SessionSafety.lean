import Foti.Library.Transition
import Foti.System.Session

/-!
What holds of a session in every run. The HUD of a call keeps touches from the sheet, so one call is
made at a time, and the account that the sheet has signed in stays signed in while the HUD is left
over it. Tabs that nothing covers belong to the account that is signed in.
-/

namespace Foti
open Entries Transition

/-! ### The forms -/

/-- `left` is about the calls whose success handler has returned early. -/
structure SignInController.Inv (currentUser : Option String) (c : SignInController) : Prop where
  alone : OnlyLast SignInRequest.Hud c.requests
  left : ∀ r ∈ c.requests, ∀ uid, r.stage = .signedIn uid false → currentUser = some uid
  form : c.btnSignInEnabled → c.txtEmail ≠ "" ∧ c.txtPassword ≠ ""
  entered : ∀ r ∈ c.requests, r.emailAddress ≠ "" ∧ r.password ≠ ""

namespace SignInController
variable {currentUser : Option String} {c : SignInController}

theorem free_of_not_blocked (free : ¬ c.Blocked) : ∀ r ∈ c.requests, ¬ r.Hud := fun r hr hud =>
  free (.inr ⟨r, hr, hud⟩)

theorem Inv.changeData (h : Inv currentUser c) (txtEmail txtPassword : String) :
    Inv currentUser (c.changeData txtEmail txtPassword) := ⟨h.alone, h.left, changeData_enabled, h.entered⟩

theorem Inv.pressed (h : Inv currentUser c) (enabled : c.btnSignInEnabled) (free : ¬ c.Blocked) :
    Inv currentUser c.btnSignInPressed where
  alone := .concat (free_of_not_blocked free)
  left := forall_mem_concat h.left fun _ stage => (nomatch stage)
  form := h.form
  entered := forall_mem_concat h.entered (h.form enabled)

theorem Inv.refused {n messages : Nat} {r : SignInRequest} (h : Inv currentUser c) (found : c.requests[n]? = some r) :
    Inv currentUser { c with requests := c.requests.set n { r with stage := .refused }, messages } where
  alone := h.alone.set found False.elim
  left := forall_mem_set h.left fun _ stage => (nomatch stage)
  form := h.form
  entered := forall_mem_set h.entered (h.entered r (List.mem_of_getElem? found))

theorem Inv.accepted {n : Nat} {r : SignInRequest} {keyWindow : Bool} (h : Inv currentUser c)
    (found : c.requests[n]? = some r) (signing : r.stage = .signing) (uid : String) :
    Inv (some uid) { c with requests := c.requests.set n { r with stage := .signedIn uid keyWindow } } := by
  have hud : r.Hud := by simp [SignInRequest.Hud, signing]
  constructor
  case alone => exact h.alone.set found fun _ => hud
  case left =>
    intro r' hr' uid' stage
    rcases h.alone.others found hud r' hr' with rfl | idle
    · cases stage
      rfl
    · exact (idle (by simp [SignInRequest.Hud, stage])).elim
  case form => exact h.form
  case entered => exact forall_mem_set h.entered (h.entered r (List.mem_of_getElem? found))

theorem Inv.of_free (h : Inv currentUser c) (free : ∀ r ∈ c.requests, ¬ r.Hud) (user : Option String) : Inv user c :=
  ⟨h.alone, fun r hr uid stage => (free r hr (by simp [SignInRequest.Hud, stage])).elim, h.form, h.entered⟩

end SignInController

def SignUpAttempt.Filled (a : SignUpAttempt) : Prop := a.emailAddress ≠ "" ∧ a.userName ≠ "" ∧ a.password ≠ ""

def SignUpAttempt.Saved (a : SignUpAttempt) : Prop := ∃ uid url, a.stage = .saved uid url

/-- `form` and `entered` allow for `clearView`, which leaves the button enabled. -/
structure RegisterController.Inv (currentUser : Option String) (c : RegisterController) : Prop where
  alone : OnlyLast SignUpAttempt.Hud c.attempts
  account : ∀ a ∈ c.attempts, a.Hud → ∀ uid, a.account = some uid → currentUser = some uid
  form : c.btnSignUpEnabled → (c.txtEmail ≠ "" ∧ c.txtUserName ≠ "" ∧ c.txtPassword ≠ "") ∨ ∃ a ∈ c.attempts, a.Saved
  entered : ∀ (n : Nat) (a : SignUpAttempt), c.attempts[n]? = some a →
    a.Filled ∨ ∃ (m : Nat) (b : SignUpAttempt), m < n ∧ c.attempts[m]? = some b ∧ b.Saved

namespace RegisterController
variable {currentUser : Option String} {c : RegisterController} {n : Nat} {a a' : SignUpAttempt}

theorem Inv.dataChange (h : Inv currentUser c) (txtEmail txtUserName txtPassword : String) :
    Inv currentUser (c.dataChange txtEmail txtUserName txtPassword) :=
  ⟨h.alone, h.account, fun enabled => .inl (dataChange_enabled enabled), h.entered⟩

theorem Inv.pressed (h : Inv currentUser c) (enabled : c.btnSignUpEnabled) (free : ¬ c.Blocked) :
    Inv currentUser c.btnSignUpPressed where
  alone := .concat fun a ha hud => free (.inr ⟨a, ha, hud⟩)
  account := forall_mem_concat h.account fun _ _ owns => (nomatch owns)
  form := fun _ => (h.form enabled).imp_right fun ⟨a, ha, saved⟩ => ⟨a, List.mem_append_left _ ha, saved⟩
  entered := fun n a found => by
    rcases concat_cases found with ⟨rfl, rfl⟩ | old
    · refine (h.form enabled).imp_right fun ⟨a, ha, saved⟩ => ?_
      obtain ⟨m, hm⟩ := List.mem_iff_getElem?.mp ha
      have inside := (List.getElem?_eq_some_iff.mp hm).1
      exact ⟨m, a, inside, (List.getElem?_append_left inside).trans hm, saved⟩
    · refine (h.entered n a old).imp_right fun ⟨m, b, earlier, hm, saved⟩ => ?_
      have inside := (List.getElem?_eq_some_iff.mp hm).1
      exact ⟨m, b, earlier, (List.getElem?_append_left inside).trans hm, saved⟩

/-- A callback of the attempt that has the HUD over the view. -/
theorem Inv.put {user : Option String} (h : Inv currentUser c) (found : c.attempts[n]? = some a) (hud : a.Hud)
    (fields : a' = { a with stage := a'.stage }) (owner : a'.Hud → ∀ uid, a'.account = some uid → user = some uid) :
    Inv user (c.put n a') := by
  have unsaved : ∀ {m : Nat} {b : SignUpAttempt}, c.attempts[m]? = some b → b.Saved → m ≠ n := by
    rintro m b hb ⟨uid, url, saved⟩ rfl
    obtain rfl := Option.some.inj (found.symm.trans hb)
    simp [SignUpAttempt.Hud, saved] at hud
  have kept : ∀ {m : Nat} {b : SignUpAttempt}, c.attempts[m]? = some b → b.Saved →
      (c.attempts.set n a')[m]? = some b := fun hb saved =>
    (List.getElem?_set_ne (unsaved hb saved).symm).trans hb
  constructor
  case alone => exact h.alone.set found fun _ => hud
  case account =>
    intro b hb hud_b uid owns
    rcases h.alone.others found hud b hb with rfl | idle
    · exact owner hud_b uid owns
    · exact (idle hud_b).elim
  case form =>
    intro enabled
    refine (h.form enabled).imp_right fun ⟨b, hb, saved⟩ => ?_
    obtain ⟨m, hm⟩ := List.mem_iff_getElem?.mp hb
    exact ⟨b, List.mem_of_getElem? (kept hm saved), saved⟩
  case entered =>
    intro m b hb
    have earlier : ∀ {d : SignUpAttempt}, c.attempts[m]? = some d → d.Filled ∨
        ∃ (k : Nat) (b : SignUpAttempt), k < m ∧ (c.attempts.set n a')[k]? = some b ∧ b.Saved := fun hd =>
      (h.entered m _ hd).imp_right fun ⟨k, b, before, hk, saved⟩ => ⟨k, b, before, kept hk saved, saved⟩
    rcases set_cases hb with ⟨rfl, rfl⟩ | ⟨_, old⟩
    · refine (earlier found).imp_left fun filled => ?_
      rw [fields]
      exact filled
    · exact earlier old

theorem Inv.cleared (h : Inv currentUser c) (saved : ∃ a ∈ c.attempts, a.Saved) : Inv currentUser c.clearView :=
  ⟨h.alone, h.account, fun _ => .inr saved, h.entered⟩

end RegisterController

/-! ### The session -/

namespace Session

structure SheetInv (currentUser : Option String) (sheet : SignInSheet) : Prop where
  signIn : sheet.signIn.Inv currentUser
  register : ∀ c, sheet.register = some c → c.Inv currentUser
  apart : ∀ c, sheet.register = some c → ∀ r ∈ sheet.signIn.requests, ¬ r.Hud

structure Inv (s : Session) : Prop where
  known : ∀ uid, s.currentUser = some uid → ∃ r ∈ s.accounts, r.account.uid = uid
  tabs : ∀ tabs, s.tabs = some tabs → tabs.viewControllers = [.main, .search, .add, .profile] ∧ tabs.selected ≠ .add
  uncovered : (∀ sheet, s.presented ≠ some (.signIn sheet)) →
    ∃ uid tabs, s.currentUser = some uid ∧ s.tabs = some tabs ∧ tabs.account = some uid
  sheet : ∀ sheet, s.presented = some (.signIn sheet) → SheetInv s.currentUser sheet

section
variable {s t : Session} {e : Event}

theorem empty_sheet (currentUser : Option String) : SheetInv currentUser {} where
  signIn := ⟨fun _ _ found => (nomatch found), fun _ hr => (nomatch hr), fun enabled => (nomatch enabled),
    fun _ hr => (nomatch hr)⟩
  register := fun _ none => (nomatch none)
  apart := fun _ none => (nomatch none)

theorem empty_register (currentUser : Option String) : RegisterController.Inv currentUser {} :=
  ⟨fun _ _ found => (nomatch found), fun _ ha => (nomatch ha), fun enabled => (nomatch enabled),
    fun _ _ found => (nomatch found)⟩

theorem Inv.put {sheet : SignInSheet} (h : Inv s) (kept : SheetInv s.currentUser sheet) : Inv (s.put sheet) where
  known := h.known
  tabs := h.tabs
  uncovered := fun covered => (covered sheet rfl).elim
  sheet := fun _ shown => by
    cases shown
    exact kept

theorem SheetInv.with_signIn {currentUser : Option String} {sheet : SignInSheet} {signIn : SignInController}
    (h : SheetInv currentUser sheet) (kept : signIn.Inv currentUser)
    (apart : ∀ c, sheet.register = some c → ∀ r ∈ signIn.requests, ¬ r.Hud) :
    SheetInv currentUser { sheet with signIn } := ⟨kept, h.register, apart⟩

theorem SheetInv.with_register {currentUser : Option String} {sheet : SignInSheet} {c : RegisterController}
    (h : SheetInv currentUser sheet) (free : ∀ r ∈ sheet.signIn.requests, ¬ r.Hud) {user : Option String}
    (kept : c.Inv user) : SheetInv user { sheet with register := some c } where
  signIn := h.signIn.of_free free user
  register := fun _ same => by
    cases same
    exact kept
  apart := fun _ _ => free

theorem tabs_created (old : Option MainTabBarController) (currentUser : Option String)
    (placed : ∀ tabs, old = some tabs → tabs.selected ≠ .add) :
    (MainTabBarController.createView old currentUser).viewControllers = [.main, .search, .add, .profile] ∧
      (MainTabBarController.createView old currentUser).selected ≠ .add := by
  refine ⟨rfl, ?_⟩
  cases old with
  | none => simp [MainTabBarController.createView]
  | some tabs => exact placed tabs rfl

theorem Inv.signedIn {uid : String} (h : Inv s) (signed : s.currentUser = some uid) : Inv s.signedIn := by
  unfold Session.signedIn
  split
  · refine ⟨h.known, fun tabs made => ?_, fun _ => ⟨uid, _, signed, rfl, signed⟩, fun _ shown => (nomatch shown)⟩
    cases made
    exact tabs_created s.tabs s.currentUser fun tabs made => (h.tabs tabs made).2
  · exact h

theorem Moves.facts {n : Nat} {a a' : SignUpAttempt} (h : Moves n a e a') :
    ¬ a.Ended ∧ a.Hud ∧ a' = { a with stage := a'.stage } ∧ ∃ uid, a.account = some uid ∧ a'.account = some uid := by
  cases h with
  | @uploaded uid ok stage | @located uid _ ok stage =>
    refine ⟨by simp [SignUpAttempt.Ended, stage], by simp [SignUpAttempt.Hud, stage], rfl, uid,
      by simp [SignUpAttempt.account, stage], ?_⟩
    cases ok <;> rfl
  | @storeFails uid url stage =>
    exact ⟨by simp [SignUpAttempt.Ended, stage], by simp [SignUpAttempt.Hud, stage], rfl, uid,
      by simp [SignUpAttempt.account, stage], rfl⟩

theorem viewDidLoad_inv (known : ∀ uid, s.currentUser = some uid → ∃ r ∈ s.accounts, r.account.uid = uid) :
    Inv s.viewDidLoad := by
  unfold viewDidLoad
  split
  · rename_i none
    refine ⟨known, fun _ made => (nomatch made), fun covered => (covered {} rfl).elim, fun sheet shown => ?_⟩
    cases shown
    exact empty_sheet _
  · rename_i uid signed
    refine ⟨known, fun tabs made => ?_, fun _ => ⟨uid, _, signed, rfl, signed⟩, fun _ shown => (nomatch shown)⟩
    cases made
    exact tabs_created none _ fun _ none => (nomatch none)

theorem step_inv (h : Inv s) (stepped : s.step e = some t) : Inv t := by
  cases step_ok stepped with
  | launch => exact viewDidLoad_inv h.known
  | active => exact ⟨h.known, h.tabs, h.uncovered, h.sheet⟩
  | elsewhere fresh =>
    refine ⟨fun uid signed => ?_, h.tabs, h.uncovered, h.sheet⟩
    obtain ⟨r, hr, same⟩ := h.known uid signed
    exact ⟨r, List.mem_cons_of_mem _ hr, same⟩
  | changeData shown =>
    have kept := h.sheet _ shown
    exact h.put (kept.with_signIn (kept.signIn.changeData _ _) kept.apart)
  | btnSignInPressed shown enabled free top =>
    have kept := h.sheet _ shown
    exact h.put (kept.with_signIn (kept.signIn.pressed enabled free) fun c pushed => (nomatch top.symm.trans pushed))
  | refused shown found signing =>
    have kept := h.sheet _ shown
    exact h.put (kept.with_signIn (kept.signIn.refused found)
      fun c pushed => forall_mem_set (kept.apart c pushed) id)
  | @accepted n uid sheet r shown found signing known =>
    have kept := h.sheet _ shown
    have hud : r.Hud := by simp [SignInRequest.Hud, signing]
    have top : sheet.register = none := by
      refine Option.eq_none_iff_forall_not_mem.mpr fun c pushed => ?_
      exact kept.apart c pushed r (List.mem_of_getElem? found) hud
    refine Inv.signedIn ⟨fun _ signed => ?_, h.tabs, fun covered => (covered _ rfl).elim, fun _ same => ?_⟩ rfl
    · cases signed
      exact ⟨_, known, rfl⟩
    · cases same
      refine ⟨kept.signIn.accepted found signing uid, fun c pushed => ?_, fun c pushed => ?_⟩
      · cases top.symm.trans pushed
      · cases top.symm.trans pushed
  | signInMessageGone shown =>
    have kept := h.sheet _ shown
    exact h.put (kept.with_signIn ⟨kept.signIn.alone, kept.signIn.left, kept.signIn.form, kept.signIn.entered⟩ kept.apart)
  | btnRegisterPressed shown free top =>
    have kept := h.sheet _ shown
    exact h.put (kept.with_register (SignInController.free_of_not_blocked free) (empty_register _))
  | btnHaveAccountPressed shown top free =>
    have kept := h.sheet _ shown
    exact h.put ⟨kept.signIn, fun _ none => (nomatch none), fun _ none => (nomatch none)⟩
  | dataChange shown top =>
    have kept := h.sheet _ shown
    exact h.put (kept.with_register (kept.apart _ top) ((kept.register _ top).dataChange _ _ _))
  | btnSignUpPressed shown top enabled free =>
    have kept := h.sheet _ shown
    exact h.put (kept.with_register (kept.apart _ top) ((kept.register _ top).pressed enabled free))
  | @signUpRefused n sheet c a shown top found creating =>
    have kept := h.sheet _ shown
    have hud : a.Hud := by rw [SignUpAttempt.Hud, creating]; trivial
    exact h.put (kept.with_register (kept.apart _ top) ((kept.register _ top).put found hud rfl fun none => none.elim))
  | @created n uid sheet c a shown top found creating fresh =>
    have kept := h.sheet _ shown
    have hud : a.Hud := by rw [SignUpAttempt.Hud, creating]; trivial
    have going : (c.put n { a with stage := .uploading uid }).Inv (some uid) :=
      (kept.register _ top).put found hud rfl fun _ _ owns => owns
    refine ⟨fun _ signed => ?_, h.tabs, fun covered => (covered _ rfl).elim, fun _ same => ?_⟩
    · cases signed
      exact ⟨_, List.mem_cons_self, rfl⟩
    · cases same
      exact kept.with_register (kept.apart _ top) going
  | moved shown top found moves =>
    have kept := h.sheet _ shown
    obtain ⟨_, hud, fields, uid, before, after⟩ := moves.facts
    have signed := (kept.register _ top).account _ (List.mem_of_getElem? found) hud uid before
    refine h.put (kept.with_register (kept.apart _ top) ((kept.register _ top).put found hud fields fun _ other owns => ?_))
    exact signed.trans (after.symm.trans owns)
  | @stored n uid url sheet c a shown top found saving =>
    have kept := h.sheet _ shown
    have hud : a.Hud := by rw [SignUpAttempt.Hud, saving]; trivial
    have owns : a.account = some uid := by rw [SignUpAttempt.account, saving]
    have signed := (kept.register _ top).account a (List.mem_of_getElem? found) hud uid owns
    have put : (c.put n { a with stage := .saved uid url }).Inv s.currentUser :=
      (kept.register _ top).put found hud rfl fun gone => gone.elim
    have inside := (List.getElem?_eq_some_iff.mp found).1
    have cleared := put.cleared ⟨_, List.mem_set inside _, uid, url, rfl⟩
    exact (h.put (kept.with_register (kept.apart _ top) cleared)).signedIn signed
  | registerMessageGone shown top =>
    have kept := h.sheet _ shown
    have register := kept.register _ top
    exact h.put (kept.with_register (kept.apart _ top)
      ⟨register.alone, register.account, register.form, register.entered⟩)
  | @selected viewController tabs made uncovered selects =>
    obtain ⟨views, _⟩ := h.tabs tabs made
    refine ⟨h.known, fun tabs' made' => ?_, fun covered => ?_, h.sheet⟩
    · cases made'
      refine ⟨views, ?_⟩
      rintro rfl
      rw [MainTabBarController.shouldSelect, views] at selects
      exact absurd selects (by decide)
    · obtain ⟨uid, tabs', signed, made', same⟩ := h.uncovered covered
      cases made.symm.trans made'
      exact ⟨uid, _, signed, rfl, same⟩
  | photosPresented uncovered =>
    refine ⟨h.known, h.tabs, fun _ => h.uncovered fun sheet shown => ?_, fun _ shown => by cases shown⟩
    cases uncovered.symm.trans shown
  | photosClosed open_photos =>
    refine ⟨h.known, h.tabs, fun _ => h.uncovered fun sheet shown => ?_, fun _ shown => by cases shown⟩
    cases open_photos.symm.trans shown
  | stayed => exact h
  | loggedOut uncovered signed =>
    refine ⟨fun _ none => (by cases none), h.tabs, fun covered => (covered _ rfl).elim, fun sheet shown => ?_⟩
    cases shown
    exact empty_sheet _

theorem install_inv : Inv install := viewDidLoad_inv fun _ none => (nomatch none)

theorem reachable_inv {events : List Event} (h : run step install events = some t) : Inv t :=
  run_keeps (fun _ _ _ => step_inv) h install_inv

end

/-- In every run: when the sheet for signing in is not over the tabs, an account is signed in, `Auth` has
it, and the tabs are those made for it. The placeholder tab is never the selected one. -/
theorem tabs_of_signed_in (events : List Event) (t : Session) (h : run step install events = some t)
    (uncovered : ∀ sheet, t.presented ≠ some (.signIn sheet)) :
    ∃ uid tabs, t.currentUser = some uid ∧ (∃ r ∈ t.accounts, r.account.uid = uid) ∧ t.tabs = some tabs ∧
      tabs.account = some uid ∧ tabs.selected ≠ .add := by
  have inv := reachable_inv h
  obtain ⟨uid, tabs, signed, made, own⟩ := inv.uncovered uncovered
  exact ⟨uid, tabs, signed, inv.known uid signed, made, own, (inv.tabs tabs made).2⟩

def alice : Registered := ⟨⟨"alice@foti", "a"⟩, "secret"⟩

/-- Alice signs in, looks at her profile, and signs out; then Bob signs up. -/
def handedOver : List Event :=
  [.elsewhere alice, .changeData "alice@foti" "secret", .btnSignInPressed, .signInAnswered 0 (some "a"),
   .select .profile, .select .add, .photosClosed, .logOut true, .btnRegisterPressed,
   .dataChange "bob@foti" "bob" "hidden", .btnSignUpPressed, .created 0 (some "b"), .uploaded 0 true,
   .located 0 (some "url") true, .stored 0 true]

theorem tabs_of_signed_in_handedOver :
    ∃ t, run step install handedOver = some t ∧
      ∃ uid tabs, t.currentUser = some uid ∧ (∃ r ∈ t.accounts, r.account.uid = uid) ∧ t.tabs = some tabs ∧
        tabs.account = some uid ∧ tabs.selected ≠ .add :=
  ⟨_, rfl, tabs_of_signed_in handedOver _ rfl fun _ shown => (nomatch shown)⟩

end Session
end Foti
