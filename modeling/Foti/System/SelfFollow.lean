import Foti.System.Clients

/-!
Whether an account can come to follow itself. The handler of the profile button looks at the title
alone, and under Edit Profile it follows the user that the header shows, who is the account itself.
-/

namespace Foti.SelfFollow
open Document Entries Transition

/-- No account's `Follows` document contains the account. -/
def NoSelfFollow (fs : Firestore) : Prop := ∀ account, value (fs.follows account) account = none

/-- The header that an event taps, with the account signed in at its client. -/
def tapped (s : System) : System.Event → Option (String × UserProfileHeader)
  | .screen i j (.profile (.tap place)) => do
      let c ← s.clients[i]?
      let accountUserID ← c.currentUser
      match c.screens[j]? with
      | some (.profile profile) => (profile.headers[place]?).map (accountUserID, ·)
      | _ => none
  | _ => none

/-- A header that shows the account itself is tapped under Unfollow only. -/
def OtherTapped (s : System) (e : System.Event) : Prop :=
  ∀ t ∈ tapped s e, t.2.title = some .unfollow ∨ ∀ user ∈ t.2.validUser, user.userID ≠ t.1

instance (s : System) (e : System.Event) : Decidable (OtherTapped s e) :=
  match h : tapped s e with
  | none => .isTrue (by simp [OtherTapped, h])
  | some t => decidable_of_iff (t.2.title = some .unfollow ∨ ∀ user ∈ t.2.validUser, user.userID ≠ t.1)
      (by simp [OtherTapped, h])

/-- The write of a tap deletes a field, or is about another user. -/
def Harmless (tap : FollowTap) : Prop := tap.call.value = none ∨ tap.call.key ≠ tap.accountUserID

def ScreenHarmless : Screen → Prop
  | .profile c => ∀ tap ∈ c.followTaps, Harmless tap
  | _ => True

def WriteHarmless (write : Option (String × ServerWrite)) : Prop :=
  ∀ sender account w, write = some (sender, .follow account w) → w.value = none ∨ w.key ≠ account

structure Inv (s : System) : Prop where
  follows : NoSelfFollow s.fs
  screens : ∀ c ∈ s.clients, ∀ screen ∈ c.screens, ScreenHarmless screen

theorem none_harmless : WriteHarmless none := fun _ _ _ same => by cases same

/-! ### The profile button -/

section Button
variable {currentUser : Option String} {fs : Firestore} {c c' : UserProfileController}
  {write : Option (String × ServerWrite)}

theorem tap_harmless {header : UserProfileHeader} {place : Nat} {accountUserID : String} {call : FollowCall}
    (other : header.title = some .unfollow ∨ ∀ user ∈ header.validUser, user.userID ≠ accountUserID)
    (called : btnProfile_Follow_Edit header place currentUser = some call) : Harmless ⟨accountUserID, call⟩ := by
  obtain ⟨_, _, called⟩ := Option.bind_eq_some_iff.mp called
  obtain ⟨user, shown, called⟩ := Option.bind_eq_some_iff.mp called
  split at called
  · obtain rfl := Option.some.inj called
    exact .inl rfl
  · rename_i title
    obtain rfl := Option.some.inj called
    exact .inr (other.resolve_left title user shown)

theorem userFound_taps (c : UserProfileController) (userData : Option Dict) (fs : Firestore) :
    (c.userFound userData fs).followTaps = c.followTaps := by
  cases userData with
  | none => rfl
  | some userData =>
    simp only [UserProfileController.userFound, UserProfileController.getPostFS]
    split <;> rfl

theorem postsAdded_taps (c : UserProfileController) (changes : List (String × Dict)) (now : Timestamp) :
    (c.postsAdded changes now).followTaps = c.followTaps := by
  unfold UserProfileController.postsAdded
  split <;> rfl

theorem profile_harmless {e : ProfileEvent} (h : ∀ tap ∈ c.followTaps, Harmless tap)
    (other : ∀ place header accountUserID, e = .tap place → c.headers[place]? = some header →
      currentUser = some accountUserID →
      header.title = some .unfollow ∨ ∀ user ∈ header.validUser, user.userID ≠ accountUserID)
    (outcome : UserProfileController.Handled currentUser fs c e c' write) :
    (∀ tap ∈ c'.followTaps, Harmless tap) ∧ WriteHarmless write := by
  cases outcome with
  | userFound => exact ⟨by rwa [userFound_taps], none_harmless⟩
  | photoSnapshot => exact ⟨by rwa [postsAdded_taps], none_harmless⟩
  | @configure place =>
    obtain ⟨_, _, same, _⟩ := c.configure_cases place currentUser
    exact ⟨by rwa [same], none_harmless⟩
  | @followRead n r =>
    refine ⟨?_, none_harmless⟩
    rcases UserProfileController.followRead_cases { c with followReads := c.followReads.eraseIdx n } r
      (fs.follows r.accountUserID) with same | ⟨_, _, same⟩ <;> rwa [same]
  | userFails | photoFails | followReadFails => exact ⟨h, none_harmless⟩
  | tap listed signedIn called =>
    exact ⟨forall_mem_concat h (tap_harmless (other _ _ _ rfl listed signedIn) called), none_harmless⟩
  | moved found followed =>
    have harmless := h _ (List.mem_of_getElem? found)
    refine ⟨forall_mem_set h harmless, ?_⟩
    rintro sender account w rfl
    obtain ⟨whole, same⟩ := followed _ rfl
    cases same
    exact harmless
  | @completed n tap whole header found =>
    have harmless := h tap (List.mem_of_getElem? found)
    exact ⟨forall_mem_set h harmless, none_harmless⟩

end Button

/-! ### The other screens write no `Follows` document -/

section Screens
variable {currentUser : Option String} {fs fs' : Firestore}

theorem screen_harmless {screen screen' : Screen} {e : ScreenEvent} {write : Option (String × ServerWrite)}
    (h : ScreenHarmless screen)
    (other : ∀ c place header accountUserID, screen = .profile c → e = .profile (.tap place) →
      c.headers[place]? = some header → currentUser = some accountUserID →
      header.title = some .unfollow ∨ ∀ user ∈ header.validUser, user.userID ≠ accountUserID)
    (handled : Screen.Handled currentUser fs screen e screen' write) : ScreenHarmless screen' ∧ WriteHarmless write := by
  cases handled with
  | share outcome =>
    refine ⟨trivial, ?_⟩
    rintro sender account w rfl
    cases outcome
  | main outcome =>
    refine ⟨trivial, fun sender account w same => ?_⟩
    obtain ⟨_, rfl, same⟩ := Option.map_eq_some_iff.mp same
    obtain ⟨postID, v, rfl⟩ := outcome.write_like
    cases same
  | comments outcome =>
    refine ⟨trivial, ?_⟩
    rintro sender account w rfl
    cases outcome
  | profile outcome =>
    exact profile_harmless h (fun place header accountUserID tapped => other _ place header accountUserID rfl
      (congrArg ScreenEvent.profile tapped)) outcome

theorem opened_harmless (opening : Opening) : ScreenHarmless (Screen.viewDidLoad currentUser fs opening) := by
  cases opening with
  | profile userID =>
    simp only [ScreenHarmless, Screen.viewDidLoad, UserProfileController.viewDidLoad]
    split <;> exact List.forall_mem_nil _
  | _ => trivial

theorem notify_harmless {screen : Screen} (h : ScreenHarmless screen) (w : ServerWrite) :
    ScreenHarmless (screen.notify fs fs' w) := by
  cases screen with
  | profile c => cases w <;> exact h
  | _ => trivial

theorem written_noSelfFollow {w : ServerWrite} {sender : String} (h : NoSelfFollow fs)
    (harmless : WriteHarmless (some (sender, w))) (applied : Firestore.Applied fs w fs') : NoSelfFollow fs' := by
  cases applied with
  | @follow account w d written =>
    intro other
    show value (Function.update fs.follows account d other) other = none
    by_cases own : other = account
    · subst own
      rw [Function.update_self]
      by_cases same : other = w.key
      · rw [same, apply_value_same written]
        -- Its own field can only be deleted.
        exact (harmless sender other w rfl).resolve_right fun different => different same.symm
      · rw [apply_value_other written same, h other, ite_self]
    · rw [Function.update_of_ne own]
      exact h other
  | _ => exact h

end Screens

/-! ### The whole program -/

theorem write_inv {s t : System} {sender : String} {w : ServerWrite} (h : Inv s)
    (harmless : WriteHarmless (some (sender, w))) (written : s.write sender w = some t) : Inv t := by
  obtain ⟨fs, _, applied, rfl⟩ := System.write_ok written
  refine ⟨written_noSelfFollow h.follows harmless applied, fun c hc screen hs => ?_⟩
  obtain ⟨old, hold, rfl⟩ := List.mem_map.mp hc
  obtain ⟨before, hbefore, rfl⟩ := List.mem_map.mp hs
  exact notify_harmless (h.screens old hold before hbefore) w

theorem put_inv {s : System} {i j : Nat} {c : Client} {screen screen' : Screen} {e : ScreenEvent}
    {write : Option (String × ServerWrite)} (h : Inv s) (other : OtherTapped s (.screen i j e))
    (found : s.clients[i]? = some c) (shown : c.screens[j]? = some screen)
    (handled : Screen.Handled c.currentUser s.fs screen e screen' write) :
    Inv (s.put i c j screen') ∧ WriteHarmless write := by
  have screens := h.screens c (List.mem_of_getElem? found)
  obtain ⟨kept, harmless⟩ := screen_harmless (screens screen (List.mem_of_getElem? shown))
    (fun profile place header accountUserID is_profile is_tap listed signedIn =>
      other (accountUserID, header) (by subst is_profile is_tap; simp [tapped, found, shown, listed, signedIn])) handled
  exact ⟨{ h with screens := forall_mem_set h.screens (forall_mem_set screens kept) }, harmless⟩

theorem step_inv {s t : System} {e : System.Event} (h : Inv s) (other : OtherTapped s e) (stepped : s.step e = some t) :
    Inv t := by
  cases System.step_ok stepped with
  | launch => exact { h with screens := forall_mem_concat h.screens (List.forall_mem_nil _) }
  | @signIn i uid c found =>
    have screens := h.screens c (List.mem_of_getElem? found)
    exact { h with screens := forall_mem_set h.screens screens }
  | @signOut i c found =>
    have screens := h.screens c (List.mem_of_getElem? found)
    exact { h with screens := forall_mem_set h.screens screens }
  | @opened i opening c found =>
    have opened : ScreenHarmless (Screen.viewDidLoad c.currentUser s.fs opening) := opened_harmless opening
    have screens := forall_mem_concat (h.screens c (List.mem_of_getElem? found)) opened
    exact { h with screens := forall_mem_set h.screens screens }
  | @register i j e c attempts u found =>
    have screens : ∀ screen ∈ c.screens.set j (.register u.attempts), ScreenHarmless screen :=
      forall_mem_set (h.screens c (List.mem_of_getElem? found)) trivial
    refine ⟨h.follows, forall_mem_set h.screens ?_⟩
    unfold System.signedUp
    split <;> exact screens
  | silent found shown handled => exact (put_inv h other found shown handled).1
  | wrote found shown handled written =>
    obtain ⟨put, harmless⟩ := put_inv h other found shown handled
    exact write_inv put harmless written

/-- As long as no header that shows the account itself is tapped, except under Unfollow, no `Follows`
document ever contains its own account. -/
theorem no_self_follow (events : List System.Event) (t : System) (h : run System.step {} events = some t)
    (other : Along System.step OtherTapped {} events) : NoSelfFollow t.fs := by
  have initial : Inv {} := ⟨fun _ => rfl, fun _ hc => (List.not_mem_nil hc).elim⟩
  exact (run_keeps_along (fun _ _ _ => step_inv) h other initial).follows

def signUp (i : Nat) (uid : String) : List System.Event :=
  [.launch, .open i .register, .register i 0 (.press (some (uid ++ "@b")) (some uid) (some "secret")),
   .register i 0 (.created 0 (some uid)), .register i 0 (.uploaded 0 true),
   .register i 0 (.located 0 (some "url") true), .register i 0 (.stored 0 true)]

def profileTap (i : Nat) (userID : Option String) : List System.Event :=
  [.open i (.profile userID), .screen i 1 (.profile (.userLookup true)), .screen i 1 (.profile (.configure 0)),
   .screen i 1 (.profile (.tap 0)), .screen i 1 (.profile (.follow (.read 0 true))),
   .screen i 1 (.profile (.follow (.write 0 true))), .screen i 1 (.profile (.follow (.acknowledge 0)))]

def aliceFollowsBob : List System.Event := signUp 0 "alice" ++ signUp 1 "bob" ++ profileTap 0 (some "bob")

theorem no_self_follow_bob : ∃ t, run System.step {} aliceFollowsBob = some t ∧
    value (t.fs.follows "alice") "bob" = some (.int 1) ∧ NoSelfFollow t.fs :=
  ⟨_, rfl, rfl, no_self_follow aliceFollowsBob _ rfl (by decide)⟩

/-- Alice taps Edit Profile on her own profile. -/
def aliceEditsProfile : List System.Event := signUp 0 "alice" ++ profileTap 0 none

theorem self_followed : ∃ t, run System.step {} aliceEditsProfile = some t ∧
    value (t.fs.follows "alice") "alice" = some (.int 1) ∧ ¬ NoSelfFollow t.fs :=
  ⟨_, rfl, rfl, fun none => nomatch none "alice"⟩

end Foti.SelfFollow
