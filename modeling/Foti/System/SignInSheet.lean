import Foti.System.SessionSafety

/-!
The calls made from the sheet for signing in. One is outstanding at a time. A sign-in that ends while no
window is active, and a sign-up that fails after `createUser`, leave their HUD over the sheet; from then
on nothing helps but a new launch.
-/

namespace Foti
open Entries Transition

namespace SignInSheet

def attempts (sheet : SignInSheet) : List SignUpAttempt := (sheet.register.map (·.attempts)).getD []

/-- The calls whose callback is still to come. -/
def outstanding (sheet : SignInSheet) : Nat :=
  sheet.signIn.requests.countP (fun r => r.stage = .signing) + sheet.attempts.countP fun a => ¬ a.Ended

/-- A call has ended and its HUD is still there. -/
def Left (sheet : SignInSheet) : Prop :=
  (∃ r ∈ sheet.signIn.requests, ∃ uid, r.stage = .signedIn uid false) ∨
    ∃ a ∈ sheet.attempts, ∃ uid, a.stage = .abandoned uid

end SignInSheet

namespace Session
open SignInSheet

/-! ### One call at a time -/

section
variable {currentUser : Option String} {sheet : SignInSheet}

theorem hud_of_signing {r : SignInRequest} (h : r.stage = .signing) : r.Hud := by
  rw [SignInRequest.Hud, h]
  trivial

theorem hud_of_signedIn {r : SignInRequest} {uid : String} (h : r.stage = .signedIn uid false) : r.Hud := by
  rw [SignInRequest.Hud, h]
  trivial

theorem hud_of_outstanding {a : SignUpAttempt} (h : ¬ a.Ended) : a.Hud := by
  cases stage : a.stage <;> simp_all [SignUpAttempt.Hud, SignUpAttempt.Ended]

theorem hud_of_abandoned {a : SignUpAttempt} {uid : String} (h : a.stage = .abandoned uid) : a.Hud := by
  rw [SignUpAttempt.Hud, h]
  trivial

theorem SheetInv.attempts (h : SheetInv currentUser sheet) :
    OnlyLast SignUpAttempt.Hud sheet.attempts ∧ ∀ a ∈ sheet.attempts, a.Hud → ∀ r ∈ sheet.signIn.requests, ¬ r.Hud := by
  cases top : sheet.register with
  | none =>
    have none_made : sheet.attempts = [] := by rw [SignInSheet.attempts, top]; rfl
    rw [none_made]
    exact ⟨fun _ _ found => (nomatch found), fun _ ha => (nomatch ha)⟩
  | some c =>
    have same : sheet.attempts = c.attempts := by rw [SignInSheet.attempts, top]; rfl
    rw [same]
    exact ⟨(h.register c top).alone, fun _ _ _ => h.apart c top⟩

theorem SheetInv.outstanding_le (h : SheetInv currentUser sheet) : sheet.outstanding ≤ 1 := by
  obtain ⟨alone, apart⟩ := h.attempts
  have requests : sheet.signIn.requests.countP (fun r => r.stage = .signing) ≤
      sheet.signIn.requests.countP fun r => r.Hud :=
    List.countP_mono_left fun r _ signing => decide_eq_true (hud_of_signing (of_decide_eq_true signing))
  have attempts : sheet.attempts.countP (fun a => ¬ a.Ended) ≤ sheet.attempts.countP fun a => a.Hud :=
    List.countP_mono_left fun a _ going => decide_eq_true (hud_of_outstanding (of_decide_eq_true going))
  have one := h.signIn.alone.countP_le
  have one_attempt := alone.countP_le
  rw [outstanding]
  by_cases busy : ∃ a ∈ sheet.attempts, a.Hud
  · obtain ⟨a, ha, hud⟩ := busy
    have none_signing : sheet.signIn.requests.countP (fun r => r.Hud) = 0 :=
      List.countP_eq_zero.mpr fun r hr => by simpa using apart a ha hud r hr
    omega
  · have none_going : sheet.attempts.countP (fun a => a.Hud) = 0 :=
      List.countP_eq_zero.mpr fun a ha => by simpa using fun hud => busy ⟨a, ha, hud⟩
    omega

theorem SheetInv.outstanding_of_left (h : SheetInv currentUser sheet) (left : sheet.Left) : sheet.outstanding = 0 := by
  obtain ⟨alone, apart⟩ := h.attempts
  rw [outstanding, Nat.add_eq_zero_iff, List.countP_eq_zero, List.countP_eq_zero]
  rcases left with ⟨r, hr, uid, ended⟩ | ⟨a, ha, uid, ended⟩
  · refine ⟨fun q hq => ?_, fun a ha => ?_⟩
    · simp only [decide_eq_true_eq]
      intro signing
      obtain rfl := h.signIn.alone.unique hr hq (hud_of_signedIn ended) (hud_of_signing signing)
      cases ended.symm.trans signing
    · simp only [decide_eq_true_eq]
      intro going
      exact apart a ha (hud_of_outstanding going) r hr (hud_of_signedIn ended)
  · refine ⟨fun q hq => ?_, fun b hb => ?_⟩
    · simp only [decide_eq_true_eq]
      intro signing
      exact apart a ha (hud_of_abandoned ended) q hq (hud_of_signing signing)
    · simp only [decide_eq_true_eq]
      intro going
      obtain rfl := alone.unique ha hb (hud_of_abandoned ended) (hud_of_outstanding going)
      exact going (by rw [SignUpAttempt.Ended, ended]; trivial)

end
/-- In every run: the sheet has at most one call outstanding, and none once a HUD has been left over it.
Every call was made with all fields filled in, except that a sign-up may follow one that was saved. -/
theorem calls_alone (events : List Event) (t : Session) (h : run step install events = some t) (sheet : SignInSheet)
    (shown : t.presented = some (.signIn sheet)) :
    sheet.outstanding ≤ 1 ∧ (sheet.Left → sheet.outstanding = 0) ∧
      (∀ r ∈ sheet.signIn.requests, r.emailAddress ≠ "" ∧ r.password ≠ "") ∧
      ∀ c, sheet.register = some c → ∀ (n : Nat) (a : SignUpAttempt), c.attempts[n]? = some a →
        a.Filled ∨ ∃ (m : Nat) (b : SignUpAttempt), m < n ∧ c.attempts[m]? = some b ∧ b.Saved := by
  have inv := (reachable_inv h).sheet sheet shown
  exact ⟨inv.outstanding_le, inv.outstanding_of_left, inv.signIn.entered, fun c top => (inv.register c top).entered⟩

/-- The answer comes while the app is in the background. -/
def answeredBehind : List Event :=
  [.elsewhere alice, .changeData "alice@foti" "secret", .btnSignInPressed, .active false,
   .signInAnswered 0 (some "a"), .active true]

theorem calls_alone_answeredBehind :
    ∃ s sheet, run step install answeredBehind = some s ∧ s.presented = some (.signIn sheet) ∧
      sheet.outstanding ≤ 1 ∧ (sheet.Left → sheet.outstanding = 0) ∧
      (∀ r ∈ sheet.signIn.requests, r.emailAddress ≠ "" ∧ r.password ≠ "") ∧
      ∀ c, sheet.register = some c → ∀ (n : Nat) (a : SignUpAttempt), c.attempts[n]? = some a →
        a.Filled ∨ ∃ (m : Nat) (b : SignUpAttempt), m < n ∧ c.attempts[m]? = some b ∧ b.Saved :=
  ⟨_, _, rfl, rfl, calls_alone answeredBehind _ rfl _ rfl⟩

/-! ### A HUD that is left -/

def LeftOver (s : Session) : Prop := ∃ sheet, s.presented = some (.signIn sheet) ∧ sheet.Left

section
variable {s t : Session} {e : Event} {sheet : SignInSheet}

theorem Inv.left_signed (h : Inv s) (shown : s.presented = some (.signIn sheet)) (left : sheet.Left) :
    ∃ uid, s.currentUser = some uid := by
  have kept := h.sheet sheet shown
  rcases left with ⟨r, hr, uid, ended⟩ | ⟨a, ha, uid, ended⟩
  · exact ⟨uid, kept.signIn.left r hr uid ended⟩
  · cases top : sheet.register with
    | none =>
      rw [SignInSheet.attempts, top] at ha
      cases ha
    | some c =>
      rw [SignInSheet.attempts, top] at ha
      have owns : a.account = some uid := by rw [SignUpAttempt.account, ended]
      exact ⟨uid, (kept.register c top).account a ha (hud_of_abandoned ended) uid owns⟩

theorem left_with_signIn {signIn : SignInController} (same : signIn.requests = sheet.signIn.requests)
    (left : sheet.Left) : ({ sheet with signIn } : SignInSheet).Left := by
  rw [SignInSheet.Left, same]
  exact left

theorem left_with_register {c c' : RegisterController} (top : sheet.register = some c) (same : c'.attempts = c.attempts)
    (left : sheet.Left) : ({ sheet with register := some c' } : SignInSheet).Left := by
  have kept : ({ sheet with register := some c' } : SignInSheet).attempts = sheet.attempts := by
    rw [SignInSheet.attempts, SignInSheet.attempts, top]
    exact same
  rw [SignInSheet.Left, kept]
  exact left

/-- The left HUD takes the touches of its view. -/
theorem not_free (kept : SheetInv s.currentUser sheet) (left : sheet.Left) :
    (sheet.register = none → sheet.signIn.Blocked) ∧ ∀ c, sheet.register = some c → c.Blocked := by
  constructor
  · intro top
    rcases left with ⟨r, hr, uid, ended⟩ | ⟨a, ha, _⟩
    · exact .inr ⟨r, hr, hud_of_signedIn ended⟩
    · rw [SignInSheet.attempts, top] at ha
      cases ha
  · intro c top
    rcases left with ⟨r, hr, uid, ended⟩ | ⟨a, ha, uid, ended⟩
    · exact (kept.apart c top r hr (hud_of_signedIn ended)).elim
    · rw [SignInSheet.attempts, top] at ha
      exact .inr ⟨a, ha, hud_of_abandoned ended⟩

theorem no_signing (kept : SheetInv s.currentUser sheet) (left : sheet.Left) {n : Nat} {r : SignInRequest}
    (found : sheet.signIn.requests[n]? = some r) : r.stage ≠ .signing := by
  intro signing
  have none_left := kept.outstanding_of_left left
  rw [outstanding, Nat.add_eq_zero_iff, List.countP_eq_zero] at none_left
  exact none_left.1 r (List.mem_of_getElem? found) (by simpa using signing)

theorem no_attempt (kept : SheetInv s.currentUser sheet) (left : sheet.Left) {c : RegisterController} {n : Nat}
    {a : SignUpAttempt} (top : sheet.register = some c) (found : c.attempts[n]? = some a) : a.Ended := by
  have none_left := kept.outstanding_of_left left
  rw [outstanding, Nat.add_eq_zero_iff, List.countP_eq_zero, List.countP_eq_zero] at none_left
  have listed : a ∈ sheet.attempts := by
    rw [SignInSheet.attempts, top]
    exact List.mem_of_getElem? found
  simpa using none_left.2 a listed

theorem leftOver_step (h : Inv s) (left : LeftOver s) (stepped : s.step e = some t) (running : e ≠ .launch) :
    LeftOver t ∧ t.currentUser = s.currentUser := by
  obtain ⟨sheet, shown, left⟩ := left
  have kept := h.sheet sheet shown
  obtain ⟨signIn_blocked, register_blocked⟩ := not_free kept left
  have still : ∀ {sheet' : SignInSheet}, sheet'.Left → LeftOver (s.put sheet') := fun left => ⟨_, rfl, left⟩
  -- A touch would need a view that is not blocked, and a callback a call that is outstanding.
  cases step_ok stepped with
  | launch => exact (running rfl).elim
  | active | elsewhere => exact ⟨⟨sheet, shown, left⟩, rfl⟩
  | stayed => exact ⟨⟨sheet, shown, left⟩, rfl⟩
  | changeData shown' =>
    cases shown.symm.trans shown'
    exact ⟨still (left_with_signIn rfl left), rfl⟩
  | signInMessageGone shown' =>
    cases shown.symm.trans shown'
    exact ⟨still (left_with_signIn rfl left), rfl⟩
  | dataChange shown' top =>
    cases shown.symm.trans shown'
    exact ⟨still (left_with_register top rfl left), rfl⟩
  | registerMessageGone shown' top =>
    cases shown.symm.trans shown'
    exact ⟨still (left_with_register top rfl left), rfl⟩
  | btnSignInPressed shown' enabled free top =>
    cases shown.symm.trans shown'
    exact (free (signIn_blocked top)).elim
  | btnRegisterPressed shown' free top =>
    cases shown.symm.trans shown'
    exact (free (signIn_blocked top)).elim
  | btnHaveAccountPressed shown' top free =>
    cases shown.symm.trans shown'
    exact (free (register_blocked _ top)).elim
  | btnSignUpPressed shown' top enabled free =>
    cases shown.symm.trans shown'
    exact (free (register_blocked _ top)).elim
  | refused shown' found signing =>
    cases shown.symm.trans shown'
    exact (no_signing kept left found signing).elim
  | accepted shown' found signing known =>
    cases shown.symm.trans shown'
    exact (no_signing kept left found signing).elim
  | signUpRefused shown' top found creating | created shown' top found creating fresh =>
    cases shown.symm.trans shown'
    have ended := no_attempt kept left top found
    rw [SignUpAttempt.Ended, creating] at ended
    exact ended.elim
  | stored shown' top found saving =>
    cases shown.symm.trans shown'
    have ended := no_attempt kept left top found
    rw [SignUpAttempt.Ended, saving] at ended
    exact ended.elim
  | moved shown' top found moves =>
    cases shown.symm.trans shown'
    exact (moves.facts.1 (no_attempt kept left top found)).elim
  | selected _ uncovered | photosPresented uncovered | loggedOut uncovered => cases uncovered.symm.trans shown
  | photosClosed shown' => cases shown.symm.trans shown'

end

/-- In every run: once a HUD has been left over the sheet, the account that was signed in stays signed in
under it, whatever happens, until the app is launched anew; and that opens the tabs of this account. -/
theorem left_until_launch (events : List Event) (s : Session) (h : run step install events = some s)
    (left : LeftOver s) : ∃ uid, ∀ more t, run step s more = some t → .launch ∉ more →
      LeftOver t ∧ t.currentUser = some uid ∧ ∃ u, step t .launch = some u ∧ u.presented = none ∧
        ∃ tabs, u.tabs = some tabs ∧ tabs.account = some uid := by
  have inv := reachable_inv h
  obtain ⟨sheet, shown, ended⟩ := left
  obtain ⟨uid, signed⟩ := inv.left_signed shown ended
  refine ⟨uid, fun more t later running => ?_⟩
  have keeps : ∀ s e t, (Inv s ∧ LeftOver s ∧ s.currentUser = some uid) → e ≠ .launch → step s e = some t →
      Inv t ∧ LeftOver t ∧ t.currentUser = some uid := by
    rintro s e t ⟨inv, left, signed⟩ other stepped
    obtain ⟨still, same⟩ := leftOver_step inv left stepped other
    exact ⟨step_inv inv stepped, still, same.trans signed⟩
  have without : Along step (fun _ e => e ≠ .launch) s more :=
    along_of_forall fun e he _ same => running (same ▸ he)
  obtain ⟨_, still, signed⟩ := run_keeps_along keeps later without ⟨inv, ⟨sheet, shown, ended⟩, signed⟩
  refine ⟨still, signed, t.viewDidLoad, rfl, ?_⟩
  simp only [viewDidLoad, signed]
  exact ⟨trivial, _, rfl, rfl⟩

theorem left_until_launch_answeredBehind :
    ∃ s, run step install answeredBehind = some s ∧ ∃ uid, ∀ more t, run step s more = some t → .launch ∉ more →
      LeftOver t ∧ t.currentUser = some uid ∧ ∃ u, step t .launch = some u ∧ u.presented = none ∧
        ∃ tabs, u.tabs = some tabs ∧ tabs.account = some uid :=
  ⟨_, rfl, left_until_launch answeredBehind _ rfl ⟨_, rfl, .inl ⟨_, List.mem_cons_self, "a", rfl⟩⟩⟩

end Session
end Foti
