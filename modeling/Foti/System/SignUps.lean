import Foti.System.Clients

/-!
The sign-up attempts of all clients. An account belongs to one attempt, whose document is written
once, so the user documents that exist never change.
-/

namespace Foti.SignUps
open Entries Transition

/-- A client, a screen of it, and the number of an attempt there. -/
abbrev Place := Nat × Nat × Nat

def attempt (s : System) (p : Place) : Option SignUpAttempt := do
  let c ← s.clients[p.1]?
  match c.screens[p.2.1]? with
  | some (.register attempts) => attempts[p.2.2]?
  | _ => none

theorem attempt_eq_some {s : System} {p : Place} {a : SignUpAttempt} :
    attempt s p = some a ↔ ∃ c attempts, s.clients[p.1]? = some c ∧ c.screens[p.2.1]? = some (.register attempts) ∧
      attempts[p.2.2]? = some a := by
  constructor
  · intro h
    obtain ⟨c, found, h⟩ := Option.bind_eq_some_iff.mp h
    split at h
    · rename_i attempts shown
      exact ⟨c, attempts, found, shown, h⟩
    · cases h
  · rintro ⟨c, attempts, found, shown, listed⟩
    simp [attempt, found, shown, listed]

structure Inv (s : System) : Prop where
  accounted : ∀ p a uid, attempt s p = some a → a.account = some uid → ∃ acc ∈ s.accounts, acc.uid = uid
  unique : ∀ p q a b uid, attempt s p = some a → attempt s q = some b → a.account = some uid → b.account = some uid →
    p = q
  documents : ∀ p a uid, attempt s p = some a → a.account = some uid → s.fs.users uid = a.document
  noUser : ∀ uid, (∀ acc ∈ s.accounts, acc.uid ≠ uid) → s.fs.users uid = none

/-- The user documents that exist stay as they are. -/
def Frozen (fs fs' : Firestore) : Prop := ∀ u data, fs.users u = some data → fs'.users u = some data

/-! ### Steps that leave sign-up alone -/

theorem kept_inv {s t : System} (h : Inv s) (accounts : t.accounts = s.accounts) (users : t.fs.users = s.fs.users)
    (old : ∀ p a, attempt t p = some a → a.account.isSome → attempt s p = some a) : Inv t := by
  have owned : ∀ {p : Place} {a : SignUpAttempt} {uid : String}, attempt t p = some a → a.account = some uid →
      attempt s p = some a := fun found owns => old _ _ found (by rw [owns]; rfl)
  constructor
  case accounted => exact fun p a uid found owns => accounts ▸ h.accounted p a uid (owned found owns) owns
  case unique =>
    exact fun p q a b uid ha hb ownsA ownsB => h.unique p q a b uid (owned ha ownsA) (owned hb ownsB) ownsA ownsB
  case documents => exact fun p a uid found owns => users ▸ h.documents p a uid (owned found owns) owns
  case noUser =>
    rw [accounts, users]
    exact h.noUser

theorem set_attempt {s : System} {i : Nat} {c c' : Client} (found : s.clients[i]? = some c)
    (old : ∀ (j : Nat) attempts, attempts ≠ [] → c'.screens[j]? = some (Screen.register attempts) →
      c.screens[j]? = some (Screen.register attempts)) {p : Place} {a : SignUpAttempt}
    (h : attempt { s with clients := s.clients.set i c' } p = some a) : attempt s p = some a := by
  obtain ⟨d, attempts, listed, shown, ha⟩ := attempt_eq_some.mp h
  have nonempty : attempts ≠ [] := List.ne_nil_of_mem (List.mem_of_getElem? ha)
  rcases set_cases listed with ⟨same, rfl⟩ | ⟨_, listed⟩
  · exact attempt_eq_some.mpr ⟨c, attempts, same ▸ found, old _ attempts nonempty shown, ha⟩
  · exact attempt_eq_some.mpr ⟨d, attempts, listed, shown, ha⟩

theorem opened_empty {currentUser : Option String} {fs : Firestore} {opening : Opening} {attempts : List SignUpAttempt}
    (h : Screen.viewDidLoad currentUser fs opening = .register attempts) : attempts = [] := by
  cases opening <;> simp_all [Screen.viewDidLoad]

theorem handled_other {currentUser : Option String} {fs : Firestore} {screen screen' : Screen} {e : ScreenEvent}
    {write : Option (String × ServerWrite)} (h : Screen.Handled currentUser fs screen e screen' write)
    (attempts : List SignUpAttempt) : screen' ≠ .register attempts := by
  cases h <;> simp

theorem notify_register {fs fs' : Firestore} {w : ServerWrite} {screen : Screen} {attempts : List SignUpAttempt}
    (h : screen.notify fs fs' w = .register attempts) : screen = .register attempts := by
  cases screen <;> simp_all [Screen.notify]

theorem put_attempt {s : System} {i j : Nat} {c : Client} {screen screen' : Screen} {e : ScreenEvent}
    {write : Option (String × ServerWrite)} (found : s.clients[i]? = some c)
    (handled : Screen.Handled c.currentUser s.fs screen e screen' write) {p : Place} {a : SignUpAttempt}
    (h : attempt (s.put i c j screen') p = some a) : attempt s p = some a := by
  refine set_attempt found (fun k attempts _ shown => ?_) h
  rcases set_cases shown with ⟨_, same⟩ | ⟨_, shown⟩
  · exact (handled_other handled attempts same.symm).elim
  · exact shown

/-- No screen but that of sign-up writes a user document. -/
theorem handled_writes {currentUser : Option String} {fs : Firestore} {screen screen' : Screen} {e : ScreenEvent}
    {write : Option (String × ServerWrite)} (h : Screen.Handled currentUser fs screen e screen' write)
    (sender uid userName : String) (url : Option String) : write ≠ some (sender, .user uid userName url) := by
  rintro same
  cases h with
  | share outcome => cases outcome <;> simp at same
  | @main c c' e w outcome =>
    obtain ⟨w', rfl, same⟩ := Option.map_eq_some_iff.mp same
    obtain ⟨_, _, rfl⟩ := outcome.write_like
    simp at same
  | comments outcome => cases outcome <;> simp at same
  | profile outcome =>
    cases outcome with
    | moved _ followed =>
      obtain ⟨_, follow⟩ := followed _ same
      simp at follow
    | _ => simp at same

theorem write_users {currentUser : Option String} {fs : Firestore} {screen screen' : Screen} {e : ScreenEvent}
    {sender : String} {w : ServerWrite} (handled : Screen.Handled currentUser fs screen e screen' (some (sender, w)))
    {s t : System} (written : s.write sender w = some t) : t.fs.users = s.fs.users := by
  obtain ⟨fs', _, applied, rfl⟩ := System.write_ok written
  cases applied with
  | user => exact (handled_writes handled _ _ _ _ rfl).elim
  | _ => rfl

theorem write_attempt {s t : System} {sender : String} {w : ServerWrite} (written : s.write sender w = some t)
    {p : Place} {a : SignUpAttempt} (h : attempt t p = some a) : attempt s p = some a := by
  obtain ⟨fs', _, _, rfl⟩ := System.write_ok written
  obtain ⟨c, attempts, listed, shown, ha⟩ := attempt_eq_some.mp h
  rw [List.getElem?_map] at listed
  obtain ⟨c', listed', rfl⟩ := Option.map_eq_some_iff.mp listed
  rw [List.getElem?_map] at shown
  obtain ⟨screen, shown', same⟩ := Option.map_eq_some_iff.mp shown
  exact attempt_eq_some.mpr ⟨c', attempts, listed', notify_register same ▸ shown', ha⟩

theorem opened_attempt {s : System} {i : Nat} {c : Client} {opening : Opening} (found : s.clients[i]? = some c)
    {p : Place} {a : SignUpAttempt} (h : attempt { s with
      clients := s.clients.set i { c with screens := c.screens ++ [Screen.viewDidLoad c.currentUser s.fs opening] } }
      p = some a) : attempt s p = some a := by
  refine set_attempt found (fun k attempts nonempty shown => ?_) h
  rcases concat_cases shown with ⟨_, same⟩ | shown
  · exact (nonempty (opened_empty same.symm)).elim
  · exact shown

theorem session_attempt {s : System} {i : Nat} {c : Client} {currentUser : Option String}
    (found : s.clients[i]? = some c) {p : Place} {a : SignUpAttempt}
    (h : attempt { s with clients := s.clients.set i { c with currentUser } } p = some a) : attempt s p = some a := by
  refine set_attempt found ?_ h
  exact fun _ _ _ shown => shown

theorem launched_attempt {s : System} {p : Place} {a : SignUpAttempt}
    (h : attempt { s with clients := s.clients ++ [{}] } p = some a) : attempt s p = some a := by
  obtain ⟨c, attempts, listed, shown, ha⟩ := attempt_eq_some.mp h
  rcases concat_cases listed with ⟨_, rfl⟩ | listed
  · simp at shown
  · exact attempt_eq_some.mpr ⟨c, attempts, listed, shown, ha⟩

/-! ### A step of sign-up -/

theorem signedUp_screens (c : Client) (e : SignUp.Event) : (System.signedUp c e).screens = c.screens := by
  unfold System.signedUp
  split <;> rfl

theorem register_ok {s t : System} {i j : Nat} {e : SignUp.Event} (h : s.step (.register i j e) = some t) :
    ∃ c attempts u, s.clients[i]? = some c ∧ c.screens[j]? = some (.register attempts) ∧ System.Named e ∧
      SignUp.step ⟨s.accounts, s.fs.users, attempts⟩ e = some u ∧ t = { s with
        accounts := u.accounts
        fs := { s.fs with users := u.users }
        clients := s.clients.set i (System.signedUp { c with screens := c.screens.set j (.register u.attempts) } e) } := by
  obtain ⟨c, found, h⟩ := Option.bind_eq_some_iff.mp h
  split at h
  · rename_i attempts shown
    obtain ⟨named, h⟩ := Option.ite_none_right_eq_some.mp h
    obtain ⟨u, stepped, same⟩ := Option.bind_eq_some_iff.mp h
    exact ⟨c, attempts, u, found, shown, named, stepped, (Option.some.inj same).symm⟩
  · cases h

theorem saved_users {s u : SignUp.State} {e : SignUp.Event} (h : SignUp.step s e = some u) : u.users = s.users ∨
    ∃ n a uid url, e = .stored n true ∧ s.attempts[n]? = some a ∧ a.stage = .saving uid url ∧
      u.users = Function.update s.users uid (some (SignUpAttempt.addData a.userName uid url)) := by
  cases SignUp.step_ok h with
  | saved found saving => exact .inr ⟨_, _, _, _, rfl, found, saving, rfl⟩
  | _ => exact .inl rfl

/-- A step leaves the store as it is, or applies one write to it. -/
theorem step_store {s t : System} {e : System.Event} (h : s.step e = some t) :
    t.fs = s.fs ∨ ∃ w, Firestore.Applied s.fs w t.fs := by
  cases System.step_ok h with
  | register _ _ registered =>
    rcases saved_users registered with same | ⟨_, a, uid, url, _, _, _, same⟩
    · exact .inl (by rw [same])
    · refine .inr ⟨.user uid a.userName url, ?_⟩
      rw [same]
      exact .user
  | wrote _ _ _ written =>
    obtain ⟨fs', _, applied, rfl⟩ := System.write_ok written
    exact .inr ⟨_, applied⟩
  | _ => exact .inl rfl

/-- After a step of sign-up, an attempt is one of its screen's or an old one of another screen. -/
theorem registered_attempt {s t : System} {i j : Nat} {c c' : Client} {attempts : List SignUpAttempt}
    (found : s.clients[i]? = some c) (screens : c'.screens = c.screens.set j (.register attempts))
    (clients : t.clients = s.clients.set i c') {p : Place} {a : SignUpAttempt} (h : attempt t p = some a) :
    (∃ n, p = (i, j, n) ∧ attempts[n]? = some a) ∨ (∀ n, p ≠ (i, j, n)) ∧ attempt s p = some a := by
  obtain ⟨d, listed, at_place, shown, ha⟩ := attempt_eq_some.mp h
  rw [clients] at at_place
  rcases set_cases at_place with ⟨own, rfl⟩ | ⟨other, at_place⟩
  · rw [screens] at shown
    rcases set_cases shown with ⟨own', same⟩ | ⟨other, shown⟩
    · obtain rfl := Screen.register.inj same
      exact .inl ⟨p.2.2, Prod.ext own (Prod.ext own' rfl), ha⟩
    · exact .inr ⟨fun n same => other (by rw [same]), attempt_eq_some.mpr ⟨c, listed, own ▸ found, shown, ha⟩⟩
  · exact .inr ⟨fun n same => other (by rw [same]), attempt_eq_some.mpr ⟨d, listed, at_place, shown, ha⟩⟩

section Register
variable {s t : System} {p : Place} {a a' : SignUpAttempt} {uid : String}

theorem created_inv (h : Inv s) (after : a'.account = some uid)
    (unsaved : a'.document = none) (available : ∀ acc ∈ s.accounts, acc.uid ≠ uid)
    (accounts : ∃ acc, acc.uid = uid ∧ t.accounts = acc :: s.accounts) (users : t.fs.users = s.fs.users)
    (others : ∀ q b, attempt t q = some b → q = p ∧ b = a' ∨ q ≠ p ∧ attempt s q = some b) : Inv t := by
  obtain ⟨new, named, accounts⟩ := accounts
  have absent : ∀ {q : Place} {b : SignUpAttempt}, attempt s q = some b → b.account ≠ some uid := fun hb owns => by
    obtain ⟨acc, hacc, same⟩ := h.accounted _ _ _ hb owns
    exact available acc hacc same
  constructor
  case accounted =>
    intro q b u hb owns
    rw [accounts]
    rcases others q b hb with ⟨_, rfl⟩ | ⟨_, old⟩
    · obtain rfl := Option.some.inj (after.symm.trans owns)
      exact ⟨new, List.mem_cons_self, named⟩
    · obtain ⟨acc, hacc, same⟩ := h.accounted q b u old owns
      exact ⟨acc, List.mem_cons_of_mem _ hacc, same⟩
  case unique =>
    intro q r b c u hb hc ownsB ownsC
    rcases others q b hb with ⟨hq, rfl⟩ | ⟨_, oldB⟩ <;> rcases others r c hc with ⟨hr, rfl⟩ | ⟨_, oldC⟩
    · exact hq.trans hr.symm
    · obtain rfl := Option.some.inj (after.symm.trans ownsB)
      exact (absent oldC ownsC).elim
    · obtain rfl := Option.some.inj (after.symm.trans ownsC)
      exact (absent oldB ownsB).elim
    · exact h.unique q r b c u oldB oldC ownsB ownsC
  case documents =>
    intro q b u hb owns
    rw [users]
    rcases others q b hb with ⟨_, rfl⟩ | ⟨_, old⟩
    · obtain rfl := Option.some.inj (after.symm.trans owns)
      rw [unsaved]
      exact h.noUser uid available
    · exact h.documents q b u old owns
  case noUser =>
    intro u absent
    rw [users]
    rw [accounts] at absent
    exact h.noUser u fun acc hacc => absent acc (List.mem_cons_of_mem _ hacc)

theorem moved_inv (h : Inv s) (found : attempt s p = some a) (before : a.account = some uid)
    (after : a'.account = some uid) (unsaved : a.document = none) (accounts : t.accounts = s.accounts)
    (users : t.fs.users uid = (if a'.document = none then s.fs.users uid else a'.document) ∧
      ∀ other, other ≠ uid → t.fs.users other = s.fs.users other)
    (others : ∀ q b, attempt t q = some b → q = p ∧ b = a' ∨ q ≠ p ∧ attempt s q = some b) : Inv t := by
  constructor
  case accounted =>
    intro q b u hb owns
    rw [accounts]
    rcases others q b hb with ⟨_, rfl⟩ | ⟨_, old⟩
    · obtain rfl := Option.some.inj (after.symm.trans owns)
      exact h.accounted p a uid found before
    · exact h.accounted q b u old owns
  case unique =>
    intro q r b c u hb hc ownsB ownsC
    rcases others q b hb with ⟨hq, rfl⟩ | ⟨_, oldB⟩ <;> rcases others r c hc with ⟨hr, rfl⟩ | ⟨_, oldC⟩
    · exact hq.trans hr.symm
    · exact hq ▸ h.unique p r a c u found oldC (before.trans (after.symm.trans ownsB)) ownsC
    · exact hr ▸ h.unique q p b a u oldB found ownsB (before.trans (after.symm.trans ownsC))
    · exact h.unique q r b c u oldB oldC ownsB ownsC
  case documents =>
    intro q b u hb owns
    rcases others q b hb with ⟨_, rfl⟩ | ⟨other, old⟩
    · obtain rfl := Option.some.inj (after.symm.trans owns)
      rw [users.1, h.documents p a uid found before, unsaved]
      split
      · rename_i empty
        exact empty.symm
      · rfl
    · have different : u ≠ uid := fun same => other (h.unique q p b a u old found owns (same ▸ before))
      rw [users.2 u different]
      exact h.documents q b u old owns
  case noUser =>
    intro u absent
    rw [accounts] at absent
    obtain ⟨acc, hacc, same⟩ := h.accounted p a uid found before
    have different : u ≠ uid := fun hu => absent acc hacc (same.trans hu.symm)
    rw [users.2 u different]
    exact h.noUser u absent

theorem register_inv {i j : Nat} {e : SignUp.Event} (h : Inv s) (stepped : s.step (.register i j e) = some t) :
    Inv t ∧ Frozen s.fs t.fs := by
  obtain ⟨c, attempts, u, found, shown, _, stepped, same⟩ := register_ok stepped
  have accounts : t.accounts = u.accounts := by rw [same]
  have users : t.fs.users = u.users := by rw [same]
  have registered := fun (q : Place) (b : SignUpAttempt) => registered_attempt (s := s) (t := t) (p := q) (a := b) found
    (signedUp_screens { c with screens := c.screens.set j (.register u.attempts) } e) (by rw [same])
  have listed : ∀ {n : Nat} {a : SignUpAttempt}, attempts[n]? = some a → attempt s (i, j, n) = some a :=
    fun ha => attempt_eq_some.mpr ⟨c, attempts, found, shown, ha⟩
  have put : ∀ {n : Nat} {a' : SignUpAttempt}, u.attempts = attempts.set n a' → ∀ q b, attempt t q = some b →
      q = (i, j, n) ∧ b = a' ∨ q ≠ (i, j, n) ∧ attempt s q = some b := by
    intro n a' set q b hb
    rcases registered q b hb with ⟨m, rfl, hm⟩ | ⟨other, old⟩
    · rw [set] at hm
      rcases set_cases hm with ⟨rfl, rfl⟩ | ⟨other, hm⟩
      · exact .inl ⟨rfl, rfl⟩
      · exact .inr ⟨fun eq => other (Prod.mk.inj (Prod.mk.inj eq).2).2, listed hm⟩
    · exact .inr ⟨other n, old⟩
  cases SignUp.step_effect stepped with
  | same unchanged =>
    subst unchanged
    refine ⟨kept_inv h accounts users fun q b hb _ => ?_, fun v data held => by rw [users]; exact held⟩
    rcases registered q b hb with ⟨m, rfl, hm⟩ | ⟨_, old⟩
    · exact listed hm
    · exact old
  | pressed a unowned pressed =>
    subst pressed
    refine ⟨kept_inv h accounts users fun q b hb owns => ?_, fun v data held => by rw [users]; exact held⟩
    rcases registered q b hb with ⟨m, rfl, hm⟩ | ⟨_, old⟩
    · rcases concat_cases hm with ⟨_, rfl⟩ | hm
      · rw [unowned] at owns
        cases owns
      · exact listed hm
    · exact old
  | created n a a' uid ha before after unsaved _ available created =>
    subst created
    refine ⟨created_inv h after unsaved (fun acc hacc => (available acc hacc).2) ⟨_, rfl, accounts⟩ users (put rfl), ?_⟩
    exact fun v data held => by rw [users]; exact held
  | refused n a a' ha before after refused =>
    subst refused
    refine ⟨kept_inv h accounts users fun q b hb owns => ?_, fun v data held => by rw [users]; exact held⟩
    rcases put rfl q b hb with ⟨_, rfl⟩ | ⟨_, old⟩
    · rw [after] at owns
      cases owns
    · exact old
  | moved n a a' uid ha before after _ unsaved moved written =>
    have kept : t.accounts = s.accounts := by rw [accounts, moved]; rfl
    rw [← users] at written
    refine ⟨moved_inv h (listed ha) before after unsaved kept written (put (by rw [moved]; rfl)), fun v data held => ?_⟩
    -- The account's document is missing until its attempt saves it.
    have different : v ≠ uid := by
      rintro rfl
      rw [h.documents _ a v (listed ha) before, unsaved] at held
      cases held
    rw [written.2 v different]
    exact held

end Register

/-! ### Any step -/

theorem step_inv {s t : System} {e : System.Event} (h : Inv s) (stepped : s.step e = some t) :
    Inv t ∧ Frozen s.fs t.fs := by
  have unregistered : ∀ {t : System}, t.accounts = s.accounts → t.fs.users = s.fs.users →
      (∀ p a, attempt t p = some a → attempt s p = some a) → Inv t ∧ Frozen s.fs t.fs := by
    intro t accounts users old
    exact ⟨kept_inv h accounts users fun p a found _ => old p a found, fun u data held => by rw [users]; exact held⟩
  cases System.step_ok stepped with
  | launch => exact unregistered rfl rfl fun _ _ => launched_attempt
  | signIn found => exact unregistered rfl rfl fun _ _ => session_attempt found
  | signOut found => exact unregistered rfl rfl fun _ _ => session_attempt found
  | opened found => exact unregistered rfl rfl fun _ _ => opened_attempt found
  | register => exact register_inv h stepped
  | silent found _ handled => exact unregistered rfl rfl fun _ _ => put_attempt found handled
  | wrote found _ handled written =>
    have users := write_users handled written
    have attempts := fun {p a} => write_attempt (p := p) (a := a) written
    obtain ⟨fs', _, _, rfl⟩ := System.write_ok written
    exact unregistered rfl users fun _ _ ha => put_attempt found handled (attempts ha)

theorem initial_inv : Inv {} := by
  have none_yet : ∀ {p : Place} {a : SignUpAttempt}, attempt {} p = some a → False := fun {p a} h => by
    simp [attempt] at h
  exact ⟨fun _ _ _ h => (none_yet h).elim, fun _ _ _ _ _ h => (none_yet h).elim, fun _ _ _ h => (none_yet h).elim,
    fun _ _ => rfl⟩

theorem run_inv {events : List System.Event} {t : System} (h : run System.step {} events = some t) : Inv t :=
  run_keeps (fun _ _ _ hs stepped => (step_inv hs stepped).1) h initial_inv

end Foti.SignUps
