import Foti.System.SessionSafety

/-!
Who is signed in has entered the password here: the calls of `Auth` take what the fields hold at the tap,
and `Auth` makes or opens only the account of that e-mail and password.
-/

namespace Foti.Session
open Entries Transition SignUp

/-- What a tap hands over to `Auth`. -/
def credentials (s : Session) : Event → Option (String × String)
  | .btnSignInPressed => s.sheet.map fun sheet => (sheet.signIn.txtEmail, sheet.signIn.txtPassword)
  | .btnSignUpPressed => s.sheet.bind fun sheet => sheet.register.map fun c => (c.txtEmail, c.txtPassword)
  | _ => none

/-- At one of these events the e-mail and the password were in the fields of the form whose button was tapped. -/
def Entered (events : List Event) (email password : String) : Prop :=
  ∃ before e s, before ++ [e] <+: events ∧ run step install before = some s ∧ credentials s e = some (email, password)

structure SheetTraced (past : List Event) (sheet : SignInSheet) : Prop where
  signIns : ∀ r ∈ sheet.signIn.requests, Entered past r.emailAddress r.password
  signUps : ∀ c, sheet.register = some c → ∀ a ∈ c.attempts, Entered past a.emailAddress a.password

structure Traced (past : List Event) (s : Session) : Prop where
  reached : run step install past = some s
  distinct : (s.accounts.map (·.account.uid)).Nodup
  sheet : ∀ sheet, s.presented = some (.signIn sheet) → SheetTraced past sheet
  signed : ∀ uid, s.currentUser = some uid → ∃ r ∈ s.accounts, r.account.uid = uid ∧
    Entered past r.account.email r.password

section
variable {past : List Event} {s t : Session} {e : Event} {email password : String} {sheet : SignInSheet}

theorem Entered.later (h : Entered past email password) : Entered (past ++ [e]) email password := by
  obtain ⟨before, e', m, earlier, reached, tapped⟩ := h
  exact ⟨before, e', m, earlier.trans (List.prefix_append _ _), reached, tapped⟩

theorem entered_now (reached : run step install past = some s) (tapped : credentials s e = some (email, password)) :
    Entered (past ++ [e]) email password := ⟨past, e, s, List.prefix_rfl, reached, tapped⟩

theorem SheetTraced.later (h : SheetTraced past sheet) : SheetTraced (past ++ [e]) sheet :=
  ⟨fun r hr => (h.signIns r hr).later, fun c top a ha => (h.signUps c top a ha).later⟩

theorem SheetTraced.with_register {c : RegisterController} (h : SheetTraced past sheet)
    (attempts : ∀ a ∈ c.attempts, Entered past a.emailAddress a.password) :
    SheetTraced past { sheet with register := some c } :=
  ⟨h.signIns, fun _ same => Option.some.inj same ▸ attempts⟩

theorem empty_traced : SheetTraced past {} := ⟨fun _ hr => (nomatch hr), fun _ none => (nomatch none)⟩

/-- A step that leaves the accounts alone and signs nobody in. -/
theorem Traced.kept (h : Traced past s) (stepped : s.step e = some t) (accounts : t.accounts = s.accounts)
    (sheet : ∀ sheet, t.presented = some (.signIn sheet) → SheetTraced (past ++ [e]) sheet)
    (user : ∀ uid, t.currentUser = some uid → s.currentUser = some uid) : Traced (past ++ [e]) t where
  reached := run_concat_of h.reached stepped
  distinct := accounts ▸ h.distinct
  sheet := sheet
  signed := fun uid signed => by
    obtain ⟨r, hr, same, entered⟩ := h.signed uid (user uid signed)
    exact ⟨r, accounts ▸ hr, same, entered.later⟩

theorem Traced.put (h : Traced past s) (stepped : s.step e = some (s.put sheet))
    (traced : SheetTraced (past ++ [e]) sheet) : Traced (past ++ [e]) (s.put sheet) :=
  h.kept stepped rfl (fun _ shown => Presented.signIn.inj (Option.some.inj shown) ▸ traced) fun _ signed => signed

/-- A callback keeps what an attempt was made with. -/
theorem SheetTraced.attempt {c : RegisterController} {n : Nat} {a : SignUpAttempt} (h : SheetTraced past sheet)
    (top : sheet.register = some c) (found : c.attempts[n]? = some a) (stage : SignUpStage) :
    SheetTraced past { sheet with register := some (c.put n { a with stage }) } :=
  h.with_register (forall_mem_set (h.signUps c top) (h.signUps c top a (List.mem_of_getElem? found)))

theorem SheetTraced.answered {n messages : Nat} {r : SignInRequest} {stage : SignInStage} (h : SheetTraced past sheet)
    (found : sheet.signIn.requests[n]? = some r) : SheetTraced past { sheet with signIn := { sheet.signIn with
      requests := sheet.signIn.requests.set n { r with stage }, messages } } :=
  ⟨forall_mem_set h.signIns (h.signIns r (List.mem_of_getElem? found)), h.signUps⟩

/-- A sign-in to an account that was there. -/
theorem Traced.opened {user : Option String} {presented : Option Presented} (h : Traced past s)
    (stepped : s.step e = some ({ s with currentUser := user, presented } : Session).signedIn)
    (sheet : ∀ sheet, presented = some (.signIn sheet) → SheetTraced (past ++ [e]) sheet)
    (signed : ∀ uid, user = some uid → ∃ r ∈ s.accounts, r.account.uid = uid ∧
      Entered (past ++ [e]) r.account.email r.password) :
    Traced (past ++ [e]) ({ s with currentUser := user, presented } : Session).signedIn where
  reached := run_concat_of h.reached stepped
  distinct := by
    rw [signedIn_accounts]
    exact h.distinct
  sheet := fun _ shown => sheet _ (signedIn_sheet shown)
  signed := fun uid same => by
    rw [signedIn_user] at same
    rw [signedIn_accounts]
    exact signed uid same

theorem fresh_distinct {r : Registered} (h : Traced past s) (fresh : s.Fresh r) :
    ((r :: s.accounts).map (·.account.uid)).Nodup := by
  refine List.nodup_cons.mpr ⟨fun used => ?_, h.distinct⟩
  obtain ⟨q, hq, same⟩ := List.mem_map.mp used
  exact (fresh.2 _ (List.mem_map_of_mem hq)).2 same

theorem step_traced (h : Traced past s) (stepped : s.step e = some t) : Traced (past ++ [e]) t := by
  cases step_ok stepped with
  | launch =>
    refine h.kept stepped ?_ (fun sheet shown => ?_) fun uid signed => ?_
    · unfold viewDidLoad
      split <;> rfl
    · unfold viewDidLoad at shown
      split at shown
      · cases shown
        exact empty_traced
      · cases shown
    · unfold viewDidLoad at signed
      split at signed <;> exact signed
  | active => exact h.kept stepped rfl (fun sheet shown => (h.sheet sheet shown).later) fun _ signed => signed
  | elsewhere fresh =>
    refine ⟨run_concat_of h.reached stepped, fresh_distinct h fresh, fun sheet shown => (h.sheet sheet shown).later,
      fun uid signed => ?_⟩
    obtain ⟨r, hr, same, entered⟩ := h.signed uid signed
    exact ⟨r, List.mem_cons_of_mem _ hr, same, entered.later⟩
  | changeData shown | signInMessageGone shown =>
    exact h.put stepped ⟨(h.sheet _ shown).later.signIns, (h.sheet _ shown).later.signUps⟩
  | @btnSignInPressed sheet shown enabled free top =>
    have traced := (h.sheet _ shown).later (e := .btnSignInPressed)
    have tapped : credentials s .btnSignInPressed = some (sheet.signIn.txtEmail, sheet.signIn.txtPassword) := by
      rw [credentials, sheet_eq_some.mpr shown]
      rfl
    exact h.put stepped ⟨forall_mem_concat traced.signIns (entered_now h.reached tapped), traced.signUps⟩
  | refused shown found signing =>
    exact h.put stepped ((h.sheet _ shown).later.answered found)
  | @accepted n uid sheet r shown found signing known =>
    have entered := (h.sheet _ shown).signIns r (List.mem_of_getElem? found)
    refine h.opened stepped (fun _ shown' => ?_) fun _ same => ?_
    · cases shown'
      exact (h.sheet _ shown).later.answered found
    · cases same
      exact ⟨_, known, rfl, entered.later⟩
  | btnRegisterPressed shown free top =>
    exact h.put stepped ((h.sheet _ shown).later.with_register fun _ ha => (nomatch ha))
  | btnHaveAccountPressed shown top free =>
    exact h.put stepped ⟨(h.sheet _ shown).later.signIns, fun _ none => (nomatch none)⟩
  | @dataChange _ _ _ _ c shown top | @registerMessageGone _ c shown top =>
    exact h.put stepped ((h.sheet _ shown).later.with_register ((h.sheet _ shown).later.signUps c top))
  | @btnSignUpPressed sheet c shown top enabled free =>
    have traced := (h.sheet _ shown).later (e := .btnSignUpPressed)
    have tapped : credentials s .btnSignUpPressed = some (c.txtEmail, c.txtPassword) := by
      rw [credentials, sheet_eq_some.mpr shown]
      simp [top]
    exact h.put stepped (traced.with_register
      (forall_mem_concat (traced.signUps _ top) (entered_now h.reached tapped)))
  | signUpRefused shown top found creating =>
    exact h.put stepped ((h.sheet _ shown).later.attempt top found _)
  | @created n uid sheet c a shown top found creating fresh =>
    have entered := (h.sheet _ shown).signUps c top a (List.mem_of_getElem? found)
    refine ⟨run_concat_of h.reached stepped, fresh_distinct h fresh, fun _ shown' => ?_, fun _ signed => ?_⟩
    · cases shown'
      exact (h.sheet _ shown).later.attempt top found _
    · cases signed
      exact ⟨_, List.mem_cons_self, rfl, entered.later⟩
  | moved shown top found moves =>
    obtain ⟨_, _, fields, _⟩ := moves.facts
    rw [fields] at stepped ⊢
    exact h.put stepped ((h.sheet _ shown).later.attempt top found _)
  | @stored n uid url sheet c a shown top found saving =>
    have cleared := (h.sheet _ shown).later (e := .stored n true)
    refine h.kept stepped (signedIn_accounts _) (fun _ shown' => ?_) fun _ signed => ?_
    · cases signedIn_sheet shown'
      have put := cleared.attempt top found (.saved uid url)
      exact cleared.with_register (put.signUps (c.put n { a with stage := .saved uid url }) rfl)
    · rw [signedIn_user] at signed
      exact signed
  | selected | stayed =>
    exact h.kept stepped rfl (fun sheet shown => (h.sheet sheet shown).later) fun _ signed => signed
  | photosPresented | photosClosed =>
    exact h.kept stepped rfl (fun _ shown => (nomatch shown)) fun _ signed => signed
  | loggedOut =>
    refine h.kept stepped rfl (fun _ shown => ?_) fun _ none => (nomatch none)
    cases shown
    exact empty_traced

end

/-- In every run: whoever is signed in has an account whose e-mail and password were in the form at a tap
of its button, on this device, and the uid belongs to no other account. -/
theorem signed_in_by_password (events : List Event) (t : Session) (h : run step install events = some t) (uid : String)
    (signed : t.currentUser = some uid) : ∃ r ∈ t.accounts, r.account.uid = uid ∧
      (∀ q ∈ t.accounts, q.account.uid = uid → q = r) ∧ Entered events r.account.email r.password := by
  have initial : Traced [] install :=
    ⟨rfl, .nil, fun _ shown => by cases shown; exact empty_traced, fun _ none => (nomatch none)⟩
  have traced : Traced ([] ++ events) t := run_history (I := Traced) (fun _ _ _ _ => step_traced) h initial
  obtain ⟨r, hr, same, entered⟩ := traced.signed uid signed
  exact ⟨r, hr, same, fun q hq other => List.inj_on_of_nodup_map traced.distinct hq hr (other.trans same.symm), entered⟩

theorem signed_in_by_password_handedOver :
    ∃ t, run step install handedOver = some t ∧ ∃ r ∈ t.accounts, r.account.uid = "b" ∧
      (∀ q ∈ t.accounts, q.account.uid = "b" → q = r) ∧ Entered handedOver r.account.email r.password :=
  ⟨_, rfl, signed_in_by_password handedOver _ rfl "b" rfl⟩

end Foti.Session
