import Foti.System.Scope
import Foti.System.SelfFollow

/-!
Whose data a step of the program can change. A client acts for the accounts that have signed in on it,
also after they have signed out, and for no others.
-/

namespace Foti.Ownership
open Document Entries Transition

def SignedIn (past : List System.Event) (i : Nat) (uid : String) : Prop := ∃ e ∈ past, e.SignsIn i uid

/-- Client `i` may act for the accounts that have signed in on it. -/
def signedIn (past : List System.Event) (i : Nat) : Scope := ⟨SignedIn past i, fun _ => True, fun _ => True⟩

structure Inv (past : List System.Event) (s : System) : Prop where
  ok : Attribution.SystemOk s
  clients : Scope.HasClients (signedIn past) s

theorem signedIn_admits (past : List System.Event) (s : System) (e : System.Event) :
    Scope.Admits (signedIn past) (signedIn (past ++ [e])) s e where
  grows i := ⟨fun _ ⟨e', member, signs⟩ => ⟨e', List.mem_append_left _ member, signs⟩, fun _ h => h, fun _ h => h⟩
  posts _ _ _ _ := trivial
  users _ _ _ _ := trivial
  signsIn i uid signs := ⟨e, by simp, signs⟩
  chosen _ _ _ _ _ := trivial

theorem step_inv {past : List System.Event} {s t : System} {e : System.Event} (h : Inv past s)
    (stepped : s.step e = some t) : Inv (past ++ [e]) t :=
  ⟨Attribution.step_ok h.ok stepped, (Scope.step_within h.ok h.clients (signedIn_admits past s e) stepped).1⟩

theorem run_inv {past : List System.Event} {s : System} (h : run System.step {} past = some s) : Inv past s := by
  have initial : Inv [] {} := ⟨Attribution.initial_ok, fun i c found => by cases found⟩
  have kept := run_history (I := Inv) (fun _ _ _ _ => step_inv) h initial
  rwa [List.nil_append] at kept

/-! ### What belongs to an account -/

def writtenBy (uid : String) (d : String × Dict) : Bool := asString (d.2.lookup "UserID") = some uid

/-- The read of the like call `n` at a screen was answered when the post had no likes document. -/
def ReadMissing (past : List System.Event) (i j n : Nat) (postID : String) : Prop :=
  ∃ before after m, past = before ++ .screen i j (.main (.like (.read n true))) :: after ∧
    run System.step {} before = some m ∧ m.fs.likes postID = none

/-- The step is the write of a like whose read found no document, and it replaces the document that
somebody has made since. -/
def Replaced (past : List System.Event) (s t : System) (e : System.Event) (postID : String) : Prop :=
  (s.fs.likes postID).isSome ∧ ∃ i j n uid v, e = .screen i j (.main (.like (.write n true))) ∧
    ReadMissing past i j n postID ∧ SignedIn past i uid ∧ t.fs.likes postID = some (field uid v)

/-- The account's user document, posts, comments, follows and likes are as they were. -/
structure Untouched (past : List System.Event) (s t : System) (e : System.Event) (uid : String) : Prop where
  user : t.fs.users uid = s.fs.users uid
  posts : t.fs.photoPosts uid = s.fs.photoPosts uid
  comments : ∀ postID,
    (t.fs.addingComments postID).filter (writtenBy uid) = (s.fs.addingComments postID).filter (writtenBy uid)
  follows : t.fs.follows uid = s.fs.follows uid
  likes : ∀ postID, value (t.fs.likes postID) uid = value (s.fs.likes postID) uid ∨ Replaced past s t e postID

/-! ### Likes whose read found no document -/

/-- The calls of a screen that go on to `setData` have read that there is no document. -/
def FirstLikes (past : List System.Event) (i j : Nat) : Screen → Prop
  | .main c => ∀ n call, c.likeCalls[n]? = some call → call.stage = .writing true →
      ReadMissing past i j n call.closure.postID
  | _ => True

def AllFirstLikes (past : List System.Event) (s : System) : Prop :=
  ∀ i c, s.clients[i]? = some c → ∀ j screen, c.screens[j]? = some screen → FirstLikes past i j screen

section FirstLikes
variable {past : List System.Event} {s t : System} {e : System.Event} {i j : Nat}

theorem firstLikes_later {screen : Screen} (h : FirstLikes past i j screen) : FirstLikes (past ++ [e]) i j screen := by
  cases screen with
  | main c =>
    intro n call found whole
    obtain ⟨before, after, m, rfl, reached, missing⟩ := h n call found whole
    exact ⟨before, after ++ [e], m, by simp, reached, missing⟩
  | _ => trivial

theorem firstLikes_notify {fs fs' : Firestore} {w : ServerWrite} {screen : Screen} (h : FirstLikes past i j screen) :
    FirstLikes past i j (screen.notify fs fs' w) := by
  cases screen with
  | main c =>
    obtain ⟨_, _, same⟩ := MainController.notify_same c fs fs' w
    rw [Screen.notify, same]
    exact h
  | _ => trivial

theorem firstLikes_opened (fs : Firestore) (currentUser : Option String) (opening : Opening) :
    FirstLikes past i j (Screen.viewDidLoad currentUser fs opening) := by
  cases opening with
  | main =>
    intro n call found
    cases currentUser <;> cases found
  | _ => trivial

/-- Only the answer of its own read lets a call go on to `setData`. -/
theorem firstLikes_handled {c : Client} {e : ScreenEvent} {screen screen' : Screen}
    {write : Option (String × ServerWrite)} (reached : run System.step {} past = some s) (h : FirstLikes past i j screen)
    (handled : Screen.Handled c.currentUser s.fs screen e screen' write) :
    FirstLikes (past ++ [.screen i j e]) i j screen' := by
  have later := firstLikes_later (e := .screen i j e) h
  cases handled with
  | @main c' c'' e w outcome =>
    intro n call found whole
    have old : c'.likeCalls[n]? = some call → ReadMissing (past ++ [.screen i j (.main e)]) i j n call.closure.postID :=
      fun found => later n call found whole
    cases outcome with
    | refreshPosts =>
      obtain ⟨_, _, same⟩ := Attribution.refresh_same c' c.currentUser s.fs
      rw [same] at found
      exact old found
    | @userFound k lookup =>
      obtain ⟨_, _, _, same, _⟩ := MainController.userFound_cases { c' with userLookups := c'.userLookups.eraseIdx k }
        lookup (s.fs.users lookup.uID) s.fs
      rw [same] at found
      exact old found
    | photoSnapshot =>
      unfold MainController.postsAdded at found
      split at found <;> exact old found
    | tap called =>
      obtain ⟨_, _, _, _, _, _, rfl⟩ := postLiked_ok called
      rcases concat_cases found with ⟨_, rfl⟩ | found
      · cases whole
      · exact old found
    | @moved e k moving stage write listed _ _ chooses =>
      rcases set_cases found with ⟨rfl, rfl⟩ | ⟨_, found⟩
      · obtain ⟨rfl, missing⟩ := chooses true whole
        exact ⟨past, [], s, rfl, reached, by simpa using missing.symm⟩
      · exact old found
    | completed | trapped =>
      rcases set_cases found with ⟨rfl, rfl⟩ | ⟨_, found⟩
      · cases whole
      · exact old found
    | followsSnapshot | followsFails | userFails | photoFails | likeFound | likeFails => exact old found
  | _ => trivial

theorem set_firstLikes (h : AllFirstLikes past s) {c' : Client}
    (own : ∀ j screen, c'.screens[j]? = some screen → FirstLikes (past ++ [e]) i j screen)
    (clients : t.clients = s.clients.set i c') : AllFirstLikes (past ++ [e]) t := by
  intro k d found j screen shown
  rw [clients] at found
  rcases set_cases found with ⟨rfl, rfl⟩ | ⟨_, old⟩
  · exact own j screen shown
  · exact firstLikes_later (h k d old j screen shown)

theorem put_firstLikes {c : Client} {e : ScreenEvent} {screen screen' : Screen} {write : Option (String × ServerWrite)}
    (reached : run System.step {} past = some s) (h : AllFirstLikes past s) (found : s.clients[i]? = some c)
    (shown : c.screens[j]? = some screen) (handled : Screen.Handled c.currentUser s.fs screen e screen' write) :
    AllFirstLikes (past ++ [.screen i j e]) (s.put i c j screen') := by
  refine set_firstLikes h (fun k other at_place => ?_) rfl
  rcases set_cases at_place with ⟨rfl, rfl⟩ | ⟨_, old⟩
  · exact firstLikes_handled reached (h i c found k screen shown) handled
  · exact firstLikes_later (h i c found k other old)

theorem step_firstLikes (reached : run System.step {} past = some s) (h : AllFirstLikes past s)
    (stepped : s.step e = some t) : AllFirstLikes (past ++ [e]) t := by
  cases System.step_ok stepped with
  | launch =>
    intro k d found j screen shown
    rcases concat_cases found with ⟨_, rfl⟩ | old
    · cases shown
    · exact firstLikes_later (h k d old j screen shown)
  | @signIn i _ c found | @signOut i c found =>
    refine set_firstLikes h ?_ rfl
    exact fun j screen shown => firstLikes_later (h i c found j screen shown)
  | @opened i opening c found =>
    refine set_firstLikes h (fun j screen shown => ?_) rfl
    rcases concat_cases shown with ⟨_, rfl⟩ | shown
    · exact firstLikes_opened s.fs c.currentUser opening
    · exact firstLikes_later (h i c found j screen shown)
  | @register i k e c attempts u found =>
    refine set_firstLikes h (fun j screen shown => ?_) rfl
    rw [SignUps.signedUp_screens] at shown
    rcases set_cases shown with ⟨_, rfl⟩ | ⟨_, shown⟩
    · trivial
    · exact firstLikes_later (h i c found j screen shown)
  | silent found shown handled => exact put_firstLikes reached h found shown handled
  | wrote found shown handled written =>
    have put := put_firstLikes reached h found shown handled
    obtain ⟨fs', _, _, rfl⟩ := System.write_ok written
    intro k d listed j screen at_place
    rw [List.getElem?_map] at listed
    obtain ⟨before, old, rfl⟩ := Option.map_eq_some_iff.mp listed
    rw [List.getElem?_map] at at_place
    obtain ⟨other, shown, rfl⟩ := Option.map_eq_some_iff.mp at_place
    exact firstLikes_notify (put k before old j other shown)

theorem run_firstLikes (h : run System.step {} past = some s) : AllFirstLikes past s := by
  have initial : AllFirstLikes [] {} := fun _ _ found => by cases found
  have kept := run_history (I := fun past s => run System.step {} past = some s ∧ AllFirstLikes past s)
    (fun past s e t hs stepped => ⟨run_concat_of hs.1 stepped, step_firstLikes hs.1 hs.2 stepped⟩) h ⟨rfl, initial⟩
  exact kept.2

end FirstLikes

/-! ### Writes -/

/-- A write leaves what belongs to other accounts as it was, the likes apart. -/
theorem applied_untouched {fs fs' : Firestore} {w : ServerWrite} {uid : String} (applied : Firestore.Applied fs w fs')
    (other : uid ≠ w.account) : fs'.users uid = fs.users uid ∧ fs'.photoPosts uid = fs.photoPosts uid ∧
      (∀ postID,
        (fs'.addingComments postID).filter (writtenBy uid) = (fs.addingComments postID).filter (writtenBy uid)) ∧
      fs'.follows uid = fs.follows uid := by
  cases applied with
  | user => exact ⟨Function.update_of_ne other _ _, rfl, fun _ => rfl, rfl⟩
  | photoPost fresh => exact ⟨rfl, Function.update_of_ne other _ _, fun _ => rfl, rfl⟩
  | @comment documentID data fresh =>
    refine ⟨rfl, rfl, fun p => ?_, rfl⟩
    by_cases own : p = data.postID
    · have different : data.userID ≠ uid := Ne.symm other
      have theirs : writtenBy uid (documentID, data.addingValue) = false := by
        simpa [writtenBy, (addingValue_lookup data).2] using different
      subst own
      simp [theirs]
    · simp [own]
  | like => exact ⟨rfl, rfl, fun _ => rfl, rfl⟩
  | follow => exact ⟨rfl, rfl, fun _ => rfl, Function.update_of_ne other _ _⟩

theorem handled_like {currentUser : Option String} {fs : Firestore} {screen screen' : Screen} {e : ScreenEvent}
    {sender postID : String} {v : Write String Value}
    (h : Screen.Handled currentUser fs screen e screen' (some (sender, .like postID v))) :
    ∃ n main call whole, screen = .main main ∧ e = .main (.like (.write n true)) ∧ main.likeCalls[n]? = some call ∧
      call.stage = .writing whole ∧ call.closure.postID = postID ∧ v = call.write whole := by
  generalize wrote : some (sender, ServerWrite.like postID v) = write at h
  cases h with
  | share outcome => cases outcome <;> cases wrote
  | @main c c' e w outcome =>
    obtain ⟨w, rfl, same⟩ := Option.map_eq_some_iff.mp wrote.symm
    obtain ⟨_, rfl⟩ := Prod.mk.inj same
    cases outcome with
    | @moved e k call stage write found _ _ _ writes =>
      obtain ⟨whole, rfl, writing, same⟩ := writes _ rfl
      obtain ⟨rfl, rfl⟩ := ServerWrite.like.inj same
      exact ⟨k, c, call, whole, rfl, rfl, found, writing, rfl, rfl⟩
  | comments outcome => cases outcome <;> cases wrote
  | profile outcome =>
    rcases outcome.write_follow with rfl | ⟨_, _, _, rfl⟩ <;> cases wrote

/-- Likes change by the write of a call at a feed. -/
theorem step_like {s t : System} {e : System.Event} {postID : String} (stepped : s.step e = some t)
    (changed : t.fs.likes postID ≠ s.fs.likes postID) : ∃ i j n c main call whole,
      e = .screen i j (.main (.like (.write n true))) ∧ s.clients[i]? = some c ∧ c.screens[j]? = some (.main main) ∧
      main.likeCalls[n]? = some call ∧ call.stage = .writing whole ∧ call.closure.postID = postID ∧
      (call.write whole).apply (s.fs.likes postID) = some (t.fs.likes postID) := by
  cases System.step_ok stepped with
  | @wrote i j e c screen screen' sender w t found shown handled written =>
    obtain ⟨fs', _, applied, rfl⟩ := System.write_ok written
    cases applied with
    | @like p v d accepted =>
      have same : postID = p := by
        by_contra other
        exact changed (Function.update_of_ne other _ _)
      subst same
      obtain ⟨n, main, call, whole, rfl, rfl, listed, writing, about, rfl⟩ := handled_like handled
      have accepted : (call.write whole).apply (s.fs.likes postID) = some d := accepted
      refine ⟨i, j, n, c, main, call, whole, rfl, found, shown, listed, writing, about, ?_⟩
      simpa only [Function.update_self] using accepted
    | _ => exact (changed rfl).elim
  | _ => exact (changed rfl).elim

/-- The likes of an account change by a call of its own, or they are replaced. -/
theorem step_likes {past : List System.Event} {s t : System} {e : System.Event} {uid : String} (inv : Inv past s)
    (first : AllFirstLikes past s) (stepped : s.step e = some t)
    (other : ∀ i, e.client = some i → ¬ SignedIn past i uid) (postID : String) :
    value (t.fs.likes postID) uid = value (s.fs.likes postID) uid ∨ Replaced past s t e postID := by
  by_cases changed : t.fs.likes postID = s.fs.likes postID
  · exact .inl (by rw [changed])
  · obtain ⟨i, j, n, c, main, call, whole, rfl, found, shown, listed, writing, rfl, accepted⟩ := step_like stepped changed
    have own : SignedIn past i call.key :=
      (((inv.clients i c found).2 _ (List.mem_of_getElem? shown)).calls call (List.mem_of_getElem? listed)).1
    have different : uid ≠ call.key := by
      rintro rfl
      exact other i rfl own
    rw [apply_value_other accepted different]
    cases whole with
    | false => exact .inl rfl
    | true =>
      cases before : s.fs.likes call.closure.postID with
      | none => exact .inl rfl
      | some likes =>
        refine .inr ⟨by rw [before]; rfl, i, j, n, call.key, call.value, rfl, first i c found j _ shown n call listed writing,
          own, ?_⟩
        simpa [Write.apply, Call.write, setData] using accepted.symm

/-- In every run, a step changes nothing that belongs to an account unless a client takes it on which
that account has signed in, but for likes that a first like replaces: one whose read found no document. -/
theorem touched_by_own_client (past : List System.Event) (e : System.Event) (s t : System)
    (h : run System.step {} past = some s) (stepped : s.step e = some t) (uid : String) :
    Untouched past s t e uid ∨ ∃ i, e.client = some i ∧ SignedIn past i uid := by
  by_cases own : ∃ i, e.client = some i ∧ SignedIn past i uid
  · exact .inr own
  · have inv := run_inv h
    have other : ∀ i, e.client = some i → ¬ SignedIn past i uid := fun i client signed => own ⟨i, client, signed⟩
    have likes := step_likes inv (run_firstLikes h) stepped other
    left
    obtain ⟨_, same | ⟨i, w, client, within, applied⟩⟩ :=
      Scope.step_within inv.ok inv.clients (signedIn_admits past s e) stepped
    · exact ⟨by rw [same], by rw [same], fun _ => by rw [same], by rw [same], likes⟩
    · have different : uid ≠ w.account := by
        rintro rfl
        exact other i client within.1
      obtain ⟨user, posts, comments, follows⟩ := applied_untouched applied different
      exact ⟨user, posts, comments, follows, likes⟩

/-- Alice follows Bob, both have a post of Bob's in their feeds and like it, and both reads find no document. -/
def bothLike : List System.Event :=
  SelfFollow.aliceFollowsBob ++
    [.open 1 (.share (some ⟨0, 0⟩)), .screen 1 1 (.share (.edit "hello")), .screen 1 1 (.share (.press "photo")),
     .screen 1 1 (.share (.uploaded 0 true)), .screen 1 1 (.share (.located 0 (some "url") true 1)),
     .screen 1 1 (.share (.saved 0 "p" true)), .open 0 .main, .screen 0 2 (.main (.followsSnapshot 0 0)),
     .screen 0 2 (.main (.userLookup 1 true)), .screen 0 2 (.main (.photoSnapshot 0 1 2)),
     .screen 0 2 (.main (.likeLookup 0 true)), .open 1 .main, .screen 1 2 (.main (.userLookup 0 true)),
     .screen 1 2 (.main (.photoSnapshot 0 1 2)), .screen 1 2 (.main (.likeLookup 0 true)),
     .screen 0 2 (.main (.tap 0)), .screen 1 2 (.main (.tap 0)), .screen 0 2 (.main (.like (.read 0 true))),
     .screen 1 2 (.main (.like (.read 0 true))), .screen 1 2 (.main (.like (.write 0 true)))]

/-- Alice's write then takes Bob's like away. -/
theorem touched_by_own_client_bothLike : ∃ s t, run System.step {} bothLike = some s ∧
    s.step (.screen 0 2 (.main (.like (.write 0 true)))) = some t ∧
    value (s.fs.likes "p") "bob" = some (.int 1) ∧ value (t.fs.likes "p") "bob" = none ∧
    (Untouched bothLike s t (.screen 0 2 (.main (.like (.write 0 true)))) "bob" ∨
      ∃ i, System.Event.client (.screen 0 2 (.main (.like (.write 0 true)))) = some i ∧ SignedIn bothLike i "bob") :=
  ⟨_, _, rfl, rfl, by decide, by decide, touched_by_own_client bothLike _ _ _ rfl rfl "bob"⟩

end Foti.Ownership
