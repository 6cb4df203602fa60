import Foti.Library.Simulation
import Foti.System.Clients
import Foti.System.SessionSafety

/-!
A session as a client of the whole program: the sheet's calls are the program's sign-ins and sign-up
attempts, so what holds of every run of the program holds behind every session.
-/

namespace Foti.Session
open Entries Transition SignUp

/-- The client has the session's account, and a screen with the attempts of its form. -/
structure Device (d : Session) (c : Client) : Prop where
  user : c.currentUser = d.currentUser
  screens : ∀ sheet r, d.presented = some (.signIn sheet) → sheet.register = some r →
    ∃ j : Nat, c.screens[j]? = some (Screen.register r.attempts)

/-- The session is the first client; the second one makes the accounts that come from elsewhere. -/
structure Represented (d : Session) (s : System) : Prop where
  accounts : s.accounts = d.accounts.map (·.account)
  device : ∃ c, s.clients[0]? = some c ∧ Device d c
  elsewhere : 1 < s.clients.length

/-- The program's run for a step of the session. -/
def Follows (s : System) (d' : Session) : Prop :=
  ∃ events t, run System.step s events = some t ∧ Represented d' t

section
variable {d d' : Session} {s : System} {e : Event} {sheet : SignInSheet} {r r' : RegisterController}

/-- A step that the program does not see. -/
theorem Represented.silent (h : Represented d s) (accounts : d'.accounts = d.accounts)
    (user : d'.currentUser = d.currentUser)
    (register : ∀ sheet' r', d'.presented = some (.signIn sheet') → sheet'.register = some r' →
      ∃ sheet r, d.presented = some (.signIn sheet) ∧ sheet.register = some r ∧ r'.attempts = r.attempts) :
    Follows s d' := by
  obtain ⟨c, found, device⟩ := h.device
  refine ⟨[], s, rfl, accounts ▸ h.accounts, ⟨c, found, device.user.trans user.symm, fun sheet' r' shown' top' => ?_⟩,
    h.elsewhere⟩
  obtain ⟨sheet, r, shown, top, attempts⟩ := register sheet' r' shown' top'
  rw [attempts]
  exact device.screens sheet r shown top

theorem Represented.put_signIn (h : Represented d s) (shown : d.presented = some (.signIn sheet))
    (signIn : SignInController) : Follows s (d.put { sheet with signIn }) := by
  refine h.silent rfl rfl fun _ r' shown' top' => ?_
  cases shown'
  exact ⟨sheet, r', shown, top', rfl⟩

theorem Represented.put_register (h : Represented d s) (shown : d.presented = some (.signIn sheet))
    (top : sheet.register = some r) (same : r'.attempts = r.attempts) : Follows s (d.putRegister sheet r') := by
  refine h.silent rfl rfl fun _ _ shown' top' => ?_
  cases shown'
  cases top'
  exact ⟨sheet, r, shown, top, same⟩

/-- One event at the device. -/
theorem Represented.one {event : System.Event} {t : System} {c : Client} (h : Represented d s)
    (stepped : s.step event = some t) (accounts : t.accounts = d'.accounts.map (·.account))
    (clients : t.clients = s.clients.set 0 c) (device : Device d' c) : Follows s d' := by
  obtain ⟨_, found, _⟩ := h.device
  have inside := (List.getElem?_eq_some_iff.mp found).1
  refine ⟨[event], t, run_cons_of stepped rfl, accounts, ⟨c, ?_, device⟩, ?_⟩
  · rw [clients, List.getElem?_set_self inside]
  · rw [clients, List.length_set]
    exact h.elsewhere

theorem register_step {i j : Nat} {c : Client} {attempts : List SignUpAttempt} {u : SignUp.Event} {t : SignUp.State}
    (found : s.clients[i]? = some c) (screen : c.screens[j]? = some (Screen.register attempts))
    (stepped : SignUp.step ⟨s.accounts, s.fs.users, attempts⟩ u = some t) (named : System.Named u) :
    s.step (.register i j u) = some { s with
      accounts := t.accounts
      fs := { s.fs with users := t.users }
      clients := s.clients.set i (System.signedUp { c with screens := c.screens.set j (.register t.attempts) } u) } := by
  simp [System.step, found, screen, named, stepped]

/-- A tap that makes an attempt, or a callback of one. -/
theorem Represented.attempt (h : Represented d s) (shown : d.presented = some (.signIn sheet))
    (top : sheet.register = some r) (up : SignUp.Event) (named : System.Named up) {users : String → Option Dict}
    {attempts : List SignUpAttempt} (stepped : SignUp.step ⟨d.accounts.map (·.account), s.fs.users, r.attempts⟩ up =
      some ⟨d'.accounts.map (·.account), users, attempts⟩)
    (user : ∀ c : Client, c.currentUser = d.currentUser → (System.signedUp c up).currentUser = d'.currentUser)
    (register : ∀ sheet' q, d'.presented = some (.signIn sheet') → sheet'.register = some q → q.attempts = attempts) :
    Follows s d' := by
  obtain ⟨c, found, device⟩ := h.device
  obtain ⟨j, screen⟩ := device.screens sheet r shown top
  have inside := (List.getElem?_eq_some_iff.mp screen).1
  have unchanged : ∀ c : Client, (System.signedUp c up).screens = c.screens := fun c => by
    unfold System.signedUp
    split <;> rfl
  rw [← h.accounts] at stepped
  refine h.one (register_step found screen stepped named) rfl rfl ⟨user _ device.user, fun sheet' q shown' top' => ⟨j, ?_⟩⟩
  rw [unchanged, register sheet' q shown' top']
  exact List.getElem?_set_self inside

/-- The second client signs up for it. -/
theorem Represented.made_elsewhere {q : Registered} (h : Represented d s) (fresh : d.Fresh q) :
    Follows s { d with accounts := q :: d.accounts } := by
  obtain ⟨c, first, device⟩ := h.device
  obtain ⟨other, second⟩ : ∃ other, s.clients[1]? = some other := ⟨_, List.getElem?_eq_getElem h.elsewhere⟩
  have available := fresh.2
  rw [← h.accounts] at available
  -- Its screen is opened, the button tapped, and the account made.
  let opened : Client := { other with screens := other.screens ++ [.register []] }
  let s₁ : System := { s with clients := s.clients.set 1 opened }
  have open_screen : s.step (.open 1 .register) = some s₁ := by
    simp only [System.step, second, Option.bind_eq_bind, Option.bind_some]
    rfl
  have long : other.screens.length < opened.screens.length := by simp [opened]
  let pressed : SignUpAttempt := ⟨q.account.email, "", q.password, .creating⟩
  let tapped : Client := { opened with screens := opened.screens.set other.screens.length (.register [pressed]) }
  let s₂ : System := { s₁ with clients := s₁.clients.set 1 tapped }
  have second₁ : s₁.clients[1]? = some opened := List.getElem?_set_self h.elsewhere
  have inside : 1 < s₁.clients.length := (List.getElem?_eq_some_iff.mp second₁).1
  have attempt : SignUp.step ⟨s₁.accounts, s₁.fs.users, []⟩ (.press (some q.account.email) (some "") (some q.password)) =
      some ⟨s₁.accounts, s₁.fs.users, [pressed]⟩ := rfl
  have tap := register_step second₁ List.getElem?_concat_length attempt trivial
  have created : SignUp.step ⟨s₂.accounts, s₂.fs.users, [pressed]⟩ (.created 0 (some q.account.uid)) =
      some ⟨q.account :: s.accounts, s.fs.users, [{ pressed with stage := .uploading q.account.uid }]⟩ := by
    simp [SignUp.step, SignUpAttempt.created, SignUp.State.put, pressed, available, s₂, s₁]
  have made := register_step (s := s₂) (List.getElem?_set_self inside) (List.getElem?_set_self long) created fresh.1
  refine ⟨[_, _, _], _, run_cons_of open_screen (run_cons_of tap (run_cons_of made rfl)), ?_,
    ⟨c, ?_, device.user, device.screens⟩, ?_⟩
  · exact congrArg (q.account :: ·) h.accounts
  · simp only [s₂, s₁, List.getElem?_set_ne Nat.one_ne_zero]
    exact first
  · simp only [s₂, s₁, List.length_set]
    exact h.elsewhere

theorem Moves.event {n : Nat} {a a' : SignUpAttempt} {attempts : List SignUpAttempt} (h : Moves n a e a')
    (found : attempts[n]? = some a) (accounts : List Account) (users : String → Option Dict) :
    ∃ up, System.Named up ∧ SignUp.step ⟨accounts, users, attempts⟩ up = some ⟨accounts, users, attempts.set n a'⟩ ∧
      ∀ c, System.signedUp c up = c := by
  cases h with
  | @uploaded uid ok stage =>
    refine ⟨.uploaded n ok, trivial, ?_, fun _ => rfl⟩
    simp [SignUp.step, found, SignUpAttempt.uploaded, stage, SignUp.State.put]
  | @located uid url ok stage =>
    refine ⟨.located n url ok, trivial, ?_, fun _ => rfl⟩
    simp [SignUp.step, found, SignUpAttempt.located, stage, SignUp.State.put]
  | @storeFails uid url stage =>
    refine ⟨.stored n false, trivial, ?_, fun _ => rfl⟩
    simp [SignUp.step, found, SignUpAttempt.stored, stage, SignUp.State.put]

theorem step_follows (h : Represented d s) (stepped : d.step e = some d') : Follows s d' := by
  cases step_ok stepped with
  | launch =>
    refine h.silent ?_ ?_ fun sheet' r' shown' top' => ?_
    · unfold viewDidLoad
      split <;> rfl
    · unfold viewDidLoad
      split <;> rfl
    · unfold viewDidLoad at shown'
      split at shown'
      · cases shown'
        cases top'
      · cases shown'
  | active | stayed | selected =>
    exact h.silent rfl rfl fun sheet r shown top => ⟨sheet, r, shown, top, rfl⟩
  | elsewhere fresh => exact h.made_elsewhere fresh
  | changeData shown | refused shown | signInMessageGone shown | btnSignInPressed shown => exact h.put_signIn shown _
  | @accepted n uid sheet r shown found signing known =>
    obtain ⟨c, first, device⟩ := h.device
    have listed : uid ∈ s.accounts.map (·.uid) := by
      rw [h.accounts, List.map_map]
      exact List.mem_map.mpr ⟨_, known, rfl⟩
    have program : s.step (.signIn 0 uid) =
        some { s with clients := s.clients.set 0 { c with currentUser := some uid } } := by
      simp only [System.step, first, if_pos listed, Option.bind_eq_bind, Option.bind_some]
    refine h.one program ?_ rfl ⟨?_, fun sheet' r' shown' top' => ?_⟩
    · rw [signedIn_accounts]
      exact h.accounts
    · rw [signedIn_user]
    · cases signedIn_sheet shown'
      exact device.screens sheet r' shown top'
  | @btnRegisterPressed sheet shown free top =>
    obtain ⟨c, first, device⟩ := h.device
    have program : s.step (.open 0 .register) = some { s with
        clients := s.clients.set 0 { c with screens := c.screens ++ [Screen.register []] } } := by
      simp only [System.step, first, Option.bind_eq_bind, Option.bind_some]
      rfl
    refine h.one program h.accounts rfl ⟨device.user, fun sheet' r' shown' top' => ?_⟩
    cases shown'
    cases top'
    exact ⟨c.screens.length, List.getElem?_concat_length⟩
  | btnHaveAccountPressed shown top free =>
    refine h.silent rfl rfl fun sheet' r' shown' top' => ?_
    cases shown'
    cases top'
  | dataChange shown top | registerMessageGone shown top => exact h.put_register shown top rfl
  | @btnSignUpPressed sheet r shown top enabled free =>
    refine h.attempt shown top (.press (some r.txtEmail) (some r.txtUserName) (some r.txtPassword)) trivial rfl
      (fun _ user => user) fun sheet' q shown' top' => ?_
    cases shown'
    cases top'
    rfl
  | @signUpRefused n sheet r a shown top found creating =>
    have answered : SignUp.step ⟨d.accounts.map (·.account), s.fs.users, r.attempts⟩ (.created n none) =
        some ⟨d.accounts.map (·.account), s.fs.users, r.attempts.set n { a with stage := .refused }⟩ := by
      simp [SignUp.step, found, SignUpAttempt.created, creating, SignUp.State.put]
    refine h.attempt shown top (.created n none) trivial answered (fun _ user => user) fun sheet' q shown' top' => ?_
    cases shown'
    cases top'
    rfl
  | @created n uid sheet r a shown top found creating fresh =>
    have available := fresh.2
    have answered : SignUp.step ⟨d.accounts.map (·.account), s.fs.users, r.attempts⟩ (.created n (some uid)) =
        some ⟨⟨a.emailAddress, uid⟩ :: d.accounts.map (·.account), s.fs.users,
          r.attempts.set n { a with stage := .uploading uid }⟩ := by
      dsimp only at available
      simp [SignUp.step, found, SignUpAttempt.created, creating, SignUp.State.put, available]
    refine h.attempt shown top (.created n (some uid)) fresh.1 answered (fun _ _ => rfl) fun sheet' q shown' top' => ?_
    cases shown'
    cases top'
    rfl
  | @moved _ n sheet r a a' shown top found moves =>
    obtain ⟨up, named, callback, same⟩ := moves.event found (d.accounts.map (·.account)) s.fs.users
    refine h.attempt shown top up named callback (fun c user => ?_) fun sheet' q shown' top' => ?_
    · rw [same]
      exact user
    · cases shown'
      cases top'
      rfl
  | @stored n uid url sheet r a shown top found saving =>
    have answered : SignUp.step ⟨d.accounts.map (·.account), s.fs.users, r.attempts⟩ (.stored n true) =
        some ⟨(d.putRegister sheet (r.put n { a with stage := .saved uid url }).clearView).signedIn.accounts.map (·.account),
          Function.update s.fs.users uid (some (SignUpAttempt.addData a.userName uid url)),
          r.attempts.set n { a with stage := .saved uid url }⟩ := by
      rw [signedIn_accounts]
      simp [SignUp.step, found, SignUpAttempt.stored, saving, SignUp.State.put, Session.putRegister, Session.put]
    refine h.attempt shown top (.stored n true) trivial answered (fun _ user => ?_) fun sheet' q shown' top' => ?_
    · rw [signedIn_user]
      exact user
    · cases signedIn_sheet shown'
      cases top'
      rfl
  | photosPresented | photosClosed => exact h.silent rfl rfl fun _ _ shown' => by cases shown'
  | loggedOut uncovered signed =>
    obtain ⟨c, first, device⟩ := h.device
    have program : s.step (.signOut 0) = some { s with clients := s.clients.set 0 { c with currentUser := none } } := by
      simp only [System.step, first, Option.bind_eq_bind, Option.bind_some]
      rfl
    refine h.one program h.accounts rfl ⟨rfl, fun sheet' r' shown' top' => ?_⟩
    cases shown'
    cases top'

end

/-- Every run of a session is one of the whole program, in which its account and its sign-up attempts are
those of a client, and the accounts are the same. -/
theorem session_refines_program (events : List Event) (t : Session) (h : run step install events = some t) :
    ∃ program s, run System.step {} program = some s ∧ Represented t s := by
  have started : Represented install { clients := [{}, {}] } :=
    ⟨rfl, ⟨{}, rfl, rfl, fun sheet r shown top => by cases shown; cases top⟩, Nat.one_lt_two⟩
  obtain ⟨program, s, reached, represented⟩ := run_refined (R := Represented) (fun _ _ _ _ => step_follows) h started
  exact ⟨.launch :: .launch :: program, s, run_cons_of rfl (run_cons_of rfl reached), represented⟩

theorem session_refines_program_handedOver :
    ∃ t, run step install handedOver = some t ∧
      ∃ program s, run System.step {} program = some s ∧ Represented t s :=
  ⟨_, rfl, session_refines_program handedOver _ rfl⟩

end Foti.Session
