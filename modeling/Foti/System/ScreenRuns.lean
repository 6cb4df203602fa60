import Foti.System.Attribution
import Foti.System.SignUps

/-!
From one screen to all of them. A property that a screen has when it is opened, and that its own events
and the writes of every client keep, holds of every screen in every run of the program.

`step_screens` follows all screens, `step_shows` the one at a place.
-/

namespace Foti.ScreenRuns
open Attribution Entries Transition

/-- `P` is kept by what the program does to one screen, as far as the screen's own events meet `C`. -/
structure Kept (C : Firestore → Screen → ScreenEvent → Prop) (P : Firestore → Screen → Prop) : Prop where
  attempts : ∀ {fs attempts attempts'}, P fs (.register attempts) → P fs (.register attempts')
  users : ∀ fs users screen, SignUps.Frozen fs { fs with users } → P fs screen → P { fs with users } screen
  handled : ∀ {fs issuers currentUser screen e screen' write}, WellFormed fs issuers → ScreenOk fs screen →
    P fs screen → C fs screen e → Screen.Handled currentUser fs screen e screen' write → P fs screen'
  notified : ∀ {fs w fs' screen}, fs'.users = fs.users → Firestore.Applied fs w fs' → P fs screen →
    P fs' (screen.notify fs fs' w)

/-- An event at a screen meets `C` there. -/
def AtScreen (C : Firestore → Screen → ScreenEvent → Prop) (s : System) : System.Event → Prop
  | .screen i j e => ∀ c ∈ s.clients[i]?, ∀ screen ∈ c.screens[j]?, C s.fs screen e
  | _ => True

instance (C : Firestore → Screen → ScreenEvent → Prop) [∀ fs screen e, Decidable (C fs screen e)] (s : System) :
    ∀ e : System.Event, Decidable (AtScreen C s e)
  | .screen i j e => inferInstanceAs (Decidable (∀ c ∈ s.clients[i]?, ∀ screen ∈ c.screens[j]?, C s.fs screen e))
  | .launch | .signIn _ _ | .signOut _ | .open _ _ | .register _ _ _ => .isTrue trivial

theorem atScreen_any (s : System) (e : System.Event) : AtScreen (fun _ _ _ => True) s e := by
  unfold AtScreen
  split
  · exact fun _ _ _ _ => trivial
  · trivial

def OnScreens (P : Firestore → Screen → Prop) (s : System) : Prop :=
  ∀ c ∈ s.clients, ∀ screen ∈ c.screens, P s.fs screen

/-- A screen that the event opens has `P`. -/
def Opens (P : Firestore → Screen → Prop) (s : System) (e : System.Event) : Prop :=
  ∀ i opening, e = .open i opening → ∀ c ∈ s.clients[i]?, P s.fs (Screen.viewDidLoad c.currentUser s.fs opening)

variable {C : Firestore → Screen → ScreenEvent → Prop} {P : Firestore → Screen → Prop} {s t : System}

/-! ### All screens -/

theorem put_screens (kept : Kept C P) (ok : SystemOk s) (h : OnScreens P s) {i j : Nat} {e : ScreenEvent} {c : Client}
    {screen screen' : Screen} {write : Option (String × ServerWrite)} (found : s.clients[i]? = some c)
    (shown : c.screens[j]? = some screen) (meets : AtScreen C s (.screen i j e))
    (handled : Screen.Handled c.currentUser s.fs screen e screen' write) : OnScreens P (s.put i c j screen') := by
  have hc := List.mem_of_getElem? found
  have hscreen := List.mem_of_getElem? shown
  have new : P s.fs screen' := kept.handled ok.store ((ok.clients c hc).2 screen hscreen) (h c hc screen hscreen)
    (meets c found screen shown) handled
  exact forall_mem_set h (forall_mem_set (h c hc) new)

theorem register_screens (kept : Kept C P) (h : OnScreens P s) {i j : Nat} {e : SignUp.Event}
    (frozen : SignUps.Frozen s.fs t.fs) (stepped : s.step (.register i j e) = some t) : OnScreens P t := by
  obtain ⟨c, attempts, u, found, registers, _, _, rfl⟩ := SignUps.register_ok stepped
  have old : ∀ c ∈ s.clients, ∀ screen ∈ c.screens, P { s.fs with users := u.users } screen :=
    fun c hc screen hs => kept.users s.fs u.users screen frozen (h c hc screen hs)
  have own := old c (List.mem_of_getElem? found)
  refine forall_mem_set old ?_
  rw [SignUps.signedUp_screens]
  exact forall_mem_set own (kept.attempts (own _ (List.mem_of_getElem? registers)))

theorem step_screens (kept : Kept C P) {e : System.Event} (ok : SystemOk s) (frozen : SignUps.Frozen s.fs t.fs)
    (opens : Opens P s e) (h : OnScreens P s) (meets : AtScreen C s e) (stepped : s.step e = some t) : OnScreens P t := by
  cases System.step_ok stepped with
  | launch => exact forall_mem_concat h (List.forall_mem_nil _)
  | signIn found | signOut found =>
    have own := h _ (List.mem_of_getElem? found)
    exact forall_mem_set h own
  | opened found =>
    exact forall_mem_set h (forall_mem_concat (h _ (List.mem_of_getElem? found)) (opens _ _ rfl _ found))
  | register => exact register_screens kept h frozen stepped
  | silent found shown handled => exact put_screens kept ok h found shown meets handled
  | wrote found shown handled written =>
    have users := SignUps.write_users handled written
    have put := put_screens kept ok h found shown meets handled
    obtain ⟨fs', _, applied, rfl⟩ := System.write_ok written
    intro c hc screen hscreen
    obtain ⟨old, hold, rfl⟩ := List.mem_map.mp hc
    obtain ⟨before, hbefore, rfl⟩ := List.mem_map.mp hscreen
    exact kept.notified users applied (put old hold before hbefore)

/-- What every screen has when it is opened, and what is kept on one screen, holds of all screens in every
run whose events meet the condition. -/
theorem run_screens (kept : Kept C P) (opened : ∀ fs currentUser opening, P fs (Screen.viewDidLoad currentUser fs opening))
    {events : List System.Event} (h : run System.step {} events = some t)
    (meets : Along System.step (AtScreen C) {} events) : OnScreens P t := by
  let Inv (s : System) : Prop := SystemOk s ∧ SignUps.Inv s ∧ OnScreens P s
  have keeps : ∀ s e t, Inv s → AtScreen C s e → s.step e = some t → Inv t := by
    rintro s e t ⟨ok, signUps, screens⟩ meets stepped
    obtain ⟨signUps', frozen⟩ := SignUps.step_inv signUps stepped
    have opens : Opens P s e := fun _ opening _ c _ => opened s.fs c.currentUser opening
    exact ⟨step_ok ok stepped, signUps', step_screens kept ok frozen opens screens meets stepped⟩
  have initial : Inv {} := ⟨initial_ok, SignUps.initial_inv, List.forall_mem_nil _⟩
  exact (run_keeps_along keeps h meets initial).2.2

/-! ### The screen at a place -/

def Shows (i j : Nat) (P : Firestore → Screen → Prop) (s : System) : Prop :=
  ∃ c, s.clients[i]? = some c ∧ ∃ screen, c.screens[j]? = some screen ∧ P s.fs screen

/-- An event at the screen at the place meets `C`. -/
def AtPlace (i j : Nat) (C : Firestore → Screen → ScreenEvent → Prop) (s : System) (e : System.Event) : Prop :=
  ∀ e', e = .screen i j e' → AtScreen C s e

/-- A client changes, and with it the screens of the others only by what the store does to them. -/
theorem Shows.set {i j k : Nat} {c c' : Client} (h : Shows i j P s) (found : s.clients[k]? = some c)
    (clients : t.clients = s.clients.set k c') (others : ∀ screen, P s.fs screen → P t.fs screen)
    (own : ∀ screen, k = i → c.screens[j]? = some screen → P s.fs screen →
      ∃ screen', c'.screens[j]? = some screen' ∧ P t.fs screen') : Shows i j P t := by
  obtain ⟨d, listed, screen, shown, holds⟩ := h
  rw [Shows, clients]
  by_cases same : k = i
  · subst same
    obtain rfl := Option.some.inj (found.symm.trans listed)
    exact ⟨c', List.getElem?_set_self (List.getElem?_eq_some_iff.mp found).1, own screen rfl shown holds⟩
  · exact ⟨d, by rw [List.getElem?_set_ne same, listed], screen, shown, others screen holds⟩

theorem put_shows (kept : Kept C P) (ok : SystemOk s) {i j k l : Nat} {e : ScreenEvent} {c : Client}
    {screen screen' : Screen} {write : Option (String × ServerWrite)} (h : Shows i j P s) (found : s.clients[k]? = some c)
    (shown : c.screens[l]? = some screen) (meets : AtPlace i j C s (.screen k l e))
    (handled : Screen.Handled c.currentUser s.fs screen e screen' write) : Shows i j P (s.put k c l screen') := by
  refine h.set found rfl (fun _ holds => holds) fun before same at_place holds => ?_
  subst same
  by_cases own : l = j
  · subst own
    obtain rfl := Option.some.inj (shown.symm.trans at_place)
    have inside := (List.getElem?_eq_some_iff.mp shown).1
    have screenOk := (ok.clients c (List.mem_of_getElem? found)).2 screen (List.mem_of_getElem? shown)
    refine ⟨screen', List.getElem?_set_self inside, ?_⟩
    exact kept.handled ok.store screenOk holds (meets e rfl c found screen shown) handled
  · exact ⟨before, by rw [List.getElem?_set_ne own, at_place], holds⟩

theorem write_shows (kept : Kept C P) {i j : Nat} {sender : String} {w : ServerWrite} (h : Shows i j P s)
    (users : t.fs.users = s.fs.users) (written : s.write sender w = some t) : Shows i j P t := by
  obtain ⟨fs', _, applied, rfl⟩ := System.write_ok written
  obtain ⟨c, found, screen, shown, holds⟩ := h
  rw [Shows, List.getElem?_map, found]
  refine ⟨_, rfl, screen.notify s.fs fs' w, ?_, kept.notified users applied holds⟩
  rw [List.getElem?_map, shown]
  rfl

theorem register_shows (kept : Kept C P) {i j k l : Nat} {e : SignUp.Event} (frozen : SignUps.Frozen s.fs t.fs)
    (h : Shows i j P s) (stepped : s.step (.register k l e) = some t) : Shows i j P t := by
  obtain ⟨c, attempts, u, found, registers, _, _, rfl⟩ := SignUps.register_ok stepped
  have users := fun screen holds => kept.users s.fs u.users screen frozen holds
  refine h.set found rfl users fun screen _ shown holds => ?_
  rw [SignUps.signedUp_screens]
  by_cases own : l = j
  · subst own
    obtain rfl := Option.some.inj (registers.symm.trans shown)
    have inside := (List.getElem?_eq_some_iff.mp shown).1
    exact ⟨_, List.getElem?_set_self inside, kept.attempts (users _ holds)⟩
  · exact ⟨screen, by rw [List.getElem?_set_ne own, shown], users screen holds⟩

/-- The screen at a place stays there and keeps `P`, as far as the events at that place meet `C`. -/
theorem step_shows (kept : Kept C P) {i j : Nat} {e : System.Event} (ok : SystemOk s) (frozen : SignUps.Frozen s.fs t.fs)
    (h : Shows i j P s) (meets : AtPlace i j C s e) (stepped : s.step e = some t) : Shows i j P t := by
  cases System.step_ok stepped with
  | launch =>
    obtain ⟨c, found, shown⟩ := h
    exact ⟨c, by rw [List.getElem?_append_left (List.getElem?_eq_some_iff.mp found).1, found], shown⟩
  | signIn found | signOut found =>
    exact h.set found rfl (fun _ holds => holds) fun screen _ shown holds => ⟨screen, shown, holds⟩
  | opened found =>
    refine h.set found rfl (fun _ holds => holds) fun screen _ shown holds => ⟨screen, ?_, holds⟩
    rw [List.getElem?_append_left (List.getElem?_eq_some_iff.mp shown).1, shown]
  | register => exact register_shows kept frozen h stepped
  | silent found shown handled => exact put_shows kept ok h found shown meets handled
  | wrote found shown handled written =>
    have users := SignUps.write_users handled written
    exact write_shows kept (put_shows kept ok h found shown meets handled) users written

end Foti.ScreenRuns
