import Foti.System.Answers
import Foti.System.Feeds

/-!
When nobody touches a screen the program comes to rest. What comes back may start something by itself: a
share that succeeds refreshes the feeds of its client, a sign-up opens tabs, a snapshot dequeues headers.
None of these starts again what started it, so all of it ends, in whatever order it comes.
-/

namespace Foti.Rest
open Answers Document Entries FeedComplete Listening Transition

/-- The program, and what callbacks have started and has not run yet. -/
structure Unattended where
  sys : System
  started : List Start := []

inductive Turn where
  | answer (e : System.Event) (more : List Start)
  | run (n : Nat) (more : List Start)

/-- An answer comes, or something runs that was started. Where it cannot run (the screen has trapped) it is gone. -/
def Unattended.step (s : Unattended) : Turn → Option Unattended
  | .answer e more => (s.sys.step e).map fun t => ⟨t, s.started ++ more⟩
  | .run n more => (s.started[n]?).map fun x => ⟨(s.sys.step x.event).getD s.sys, s.started.eraseIdx n ++ more⟩

/-- Nobody touches anything, and a turn starts what its callback starts. -/
def Untouched (s : Unattended) : Turn → Prop
  | .answer e more => Answer s.sys e ∧ Starts s.sys e more
  | .run n more => ∀ x ∈ s.started[n]?, Starts s.sys x.event more

/-! ### Every turn leaves less to wait for -/

section
variable {s t : System}

/-- The sum over all screens of what `f` gives for each, for the account signed in on its client. -/
def total (f : Option String → Screen → Nat) (clients : List Client) : Nat :=
  (clients.map fun c => (c.screens.map (f c.currentUser)).sum).sum

/-- The calls first: a step of one may publish to listeners and start anything. What was started asks
Firestore again, the answers to that may dequeue headers, and the reads of the headers start nothing. -/
def rank (s : Unattended) : Nat ×ₗ Nat ×ₗ Nat ×ₗ Nat :=
  toLex (total (fun _ => callsLeft) s.sys.clients, toLex ((s.started.map Start.asks).sum,
    toLex (total (fun currentUser => loadsLeft currentUser s.sys.fs) s.sys.clients,
      (s.started.map Start.reads).sum + total (fun _ => readsLeft) s.sys.clients)))

theorem rank_lt {s t : Unattended} : rank t < rank s ↔
    total (fun _ => callsLeft) t.sys.clients < total (fun _ => callsLeft) s.sys.clients ∨
      total (fun _ => callsLeft) t.sys.clients = total (fun _ => callsLeft) s.sys.clients ∧
        ((t.started.map Start.asks).sum < (s.started.map Start.asks).sum ∨
          (t.started.map Start.asks).sum = (s.started.map Start.asks).sum ∧
            (total (fun currentUser => loadsLeft currentUser t.sys.fs) t.sys.clients <
                total (fun currentUser => loadsLeft currentUser s.sys.fs) s.sys.clients ∨
              total (fun currentUser => loadsLeft currentUser t.sys.fs) t.sys.clients =
                total (fun currentUser => loadsLeft currentUser s.sys.fs) s.sys.clients ∧
              (t.started.map Start.reads).sum + total (fun _ => readsLeft) t.sys.clients <
                (s.started.map Start.reads).sum + total (fun _ => readsLeft) s.sys.clients)) := by
  simp only [rank, Prod.Lex.toLex_lt_toLex]

theorem total_set (f : Option String → Screen → Nat) {clients : List Client} {i j : Nat} {c : Client} (c' : Client)
    {screen screen' : Screen} (found : clients[i]? = some c) (shown : c.screens[j]? = some screen)
    (screens : c'.screens = c.screens.set j screen') (user : f c'.currentUser = f c.currentUser) :
    total f (clients.set i c') + f c.currentUser screen = total f clients + f c.currentUser screen' := by
  have inner := sum_set (f := f c.currentUser) shown screen'
  have outer := sum_set (f := fun c : Client => (c.screens.map (f c.currentUser)).sum) found c'
  rw [screens, user] at outer
  simp only [total]
  omega

theorem notified_callsLeft (fs fs' : Firestore) (w : ServerWrite) (clients : List Client) :
    total (fun _ => callsLeft) (clients.map fun c => { c with screens := c.screens.map (Screen.notify fs fs' w) }) =
      total (fun _ => callsLeft) clients := by
  simp only [total, List.map_map, Function.comp_def, notify_callsLeft]

theorem total_opened (f : Option String → Screen → Nat) {clients : List Client} {i : Nat} {c : Client}
    (found : clients[i]? = some c) (screen : Screen) :
    total f (clients.set i { c with screens := c.screens ++ [screen] }) = total f clients + f c.currentUser screen := by
  have outer := sum_set (f := fun c : Client => (c.screens.map (f c.currentUser)).sum) found
    { c with screens := c.screens ++ [screen] }
  simp only [List.map_append, List.sum_append, List.map_cons, List.map_nil, List.sum_singleton] at outer
  simp only [total]
  omega

/-- Only a share that succeeds makes a screen ask Firestore again. -/
theorem starts_turns {i j : Nat} {e : ScreenEvent} {more : List Start} (starts : Starts s (.screen i j e) more)
    (unsaved : ∀ n documentID, e ≠ .share (.saved n documentID true)) : (more.map Start.asks).sum = 0 := by
  have none_started (none : more = []) : (more.map Start.asks).sum = 0 := by rw [none]; rfl
  cases e with
  | main | comments => exact none_started starts
  | share e =>
    cases e with
    | saved n documentID ok =>
      cases ok with
      | true => exact (unsaved n documentID rfl).elim
      | false => exact none_started starts
    | _ => exact none_started starts
  | profile e =>
    cases e with
    | photoSnapshot =>
      refine List.sum_eq_zero fun n hn => ?_
      obtain ⟨x, hx, rfl⟩ := List.mem_map.mp hn
      obtain ⟨place, rfl⟩ := starts x hx
      rfl
    | _ => exact none_started starts

theorem answer_lowers_screen {i j : Nat} {e : ScreenEvent} {started more : List Start}
    (answer : Answer s (.screen i j e)) (starts : Starts s (.screen i j e) more)
    (h : s.step (.screen i j e) = some t) : rank ⟨t, started ++ more⟩ < rank ⟨s, started⟩ := by
  obtain ⟨c, screen, screen', write, found, shown, handled, outcome⟩ := Feeds.screen_step_ok h
  obtain ⟨c', found', own, shown', at_screen⟩ := answer
  obtain rfl := Option.some.inj (found.symm.trans found')
  obtain rfl := Option.some.inj (shown.symm.trans shown')
  have calls := total_set (fun _ => callsLeft) { c with screens := c.screens.set j screen' } found shown rfl rfl
  have loads := total_set (fun currentUser => loadsLeft currentUser s.fs) { c with screens := c.screens.set j screen' }
    found shown rfl rfl
  have reads := total_set (fun _ => readsLeft) { c with screens := c.screens.set j screen' } found shown rfl rfl
  rw [rank_lt]
  rcases screen_lowers at_screen handled with lower | ⟨rfl, same, lower⟩
  · -- A write that comes with it is published to the listeners, so the reads may grow here.
    left
    rcases outcome with ⟨_, rfl⟩ | ⟨sender, w, _, written⟩
    · simp only [System.put]
      omega
    · obtain ⟨fs, _, _, rfl⟩ := System.write_ok written
      rw [notified_callsLeft]
      simp only [System.put]
      omega
  · obtain rfl : t = s.put i c j screen' := by
      rcases outcome with ⟨_, same⟩ | ⟨_, _, wrote, _⟩
      · exact same
      · cases wrote
    have turns : (more.map Start.asks).sum = 0 := by
      refine starts_turns starts fun n documentID saved => ?_
      subst saved
      cases Screen.handle_ok handled with
      | share outcome => cases outcome
    right
    simp only [System.put, List.map_append, List.sum_append, turns]
    refine ⟨by omega, .inr ⟨rfl, ?_⟩⟩
    rcases lower with lower | ⟨⟨n, ok, rfl⟩, loaded, lower⟩
    · left
      omega
    · obtain rfl : more = [] := starts
      right
      simp only [List.map_nil, List.sum_nil]
      omega

theorem answer_lowers {e : System.Event} {started more : List Start} (answer : Answer s e) (starts : Starts s e more)
    (h : s.step e = some t) : rank ⟨t, started ++ more⟩ < rank ⟨s, started⟩ := by
  cases e with
  | launch | signIn | signOut | «open» => exact answer.elim
  | screen => exact answer_lowers_screen answer starts h
  | register i j e =>
    obtain ⟨c, attempts, u, found, shown, _, stepped, rfl⟩ := SignUps.register_ok h
    have lower := register_lowers (fun _ _ _ pressed => by rw [pressed] at answer; exact answer) stepped
    have calls := total_set (fun _ => callsLeft)
      (System.signedUp { c with screens := c.screens.set j (.register u.attempts) } e) found shown
      (SignUps.signedUp_screens _ e) rfl
    exact rank_lt.mpr (.inl (by simp only at calls lower ⊢; omega))

/-- A tab that loads has no call outstanding. -/
theorem opened_callsLeft (currentUser : Option String) (fs : Firestore) (opening : Opening) :
    callsLeft (Screen.viewDidLoad currentUser fs opening) = 0 := by
  cases opening with
  | register | share => rfl
  | main => cases currentUser <;> rfl
  | comments chosenPost =>
    simp only [Screen.viewDidLoad, CommentController.viewDidLoad]
    repeat' split
    all_goals rfl
  | profile userID =>
    simp only [Screen.viewDidLoad, UserProfileController.viewDidLoad]
    split <;> rfl

/-- A refresh moves no call. -/
theorem refreshPosts_ok {i j : Nat} (h : s.step (.screen i j (.main .refreshPosts)) = some t) :
    total (fun _ => callsLeft) t.clients = total (fun _ => callsLeft) s.clients := by
  obtain ⟨c, screen, screen', write, found, shown, handled, outcome⟩ := Feeds.screen_step_ok h
  have calls := total_set (fun _ => callsLeft) { c with screens := c.screens.set j screen' } found shown rfl rfl
  cases Screen.handle_ok handled with
  | @main main _ _ _ refreshed =>
    cases refreshed
    obtain ⟨_, _, same⟩ := Attribution.refresh_same main c.currentUser s.fs
    rcases outcome with ⟨_, rfl⟩ | ⟨_, _, wrote, _⟩
    · rw [same] at calls ⊢
      exact Nat.add_right_cancel calls
    · cases wrote

theorem tab_ok {i : Nat} {opening : Opening} (h : s.step (.open i opening) = some t) :
    total (fun _ => callsLeft) t.clients = total (fun _ => callsLeft) s.clients := by
  cases System.step_ok h with
  | @opened _ _ c found => rw [total_opened (fun _ => callsLeft) found, opened_callsLeft, Nat.add_zero]

/-- A header asks for one read at most, and for nothing else. -/
theorem configure_left (c : UserProfileController) (place : Nat) (currentUser user : Option String) (fs : Firestore) :
    callsLeft (.profile (c.configure place currentUser)) = callsLeft (.profile c) ∧
      loadsLeft user fs (.profile (c.configure place currentUser)) = loadsLeft user fs (.profile c) ∧
      readsLeft (.profile (c.configure place currentUser)) ≤ readsLeft (.profile c) + 1 := by
  unfold UserProfileController.configure
  dsimp only
  split
  · exact ⟨rfl, rfl, by simp [readsLeft]⟩
  · exact ⟨rfl, rfl, Nat.le_succ _⟩

theorem header_ok {i j place : Nat} (h : s.step (.screen i j (.profile (.configure place))) = some t) :
    total (fun _ => callsLeft) t.clients = total (fun _ => callsLeft) s.clients ∧
      total (fun currentUser => loadsLeft currentUser t.fs) t.clients =
        total (fun currentUser => loadsLeft currentUser s.fs) s.clients ∧
      total (fun _ => readsLeft) t.clients ≤ total (fun _ => readsLeft) s.clients + 1 := by
  obtain ⟨c, screen, screen', write, found, shown, handled, outcome⟩ := Feeds.screen_step_ok h
  have sums := fun f => total_set f { c with screens := c.screens.set j screen' } found shown rfl rfl
  cases Screen.handle_ok handled with
  | @profile profile _ _ _ configured =>
    cases configured
    obtain ⟨calls, loads, reads⟩ := configure_left profile place c.currentUser c.currentUser s.fs
    rcases outcome with ⟨_, rfl⟩ | ⟨_, _, wrote, _⟩
    · have all := sums fun _ => callsLeft
      have loaded := sums fun currentUser => loadsLeft currentUser s.fs
      have read := sums fun _ => readsLeft
      simp only [System.put]
      omega
    · cases wrote

theorem run_lowers {x : Start} {n : Nat} {started more : List Start} (waits : started[n]? = some x)
    (starts : Starts s x.event more) :
    rank ⟨(s.step x.event).getD s, started.eraseIdx n ++ more⟩ < rank ⟨s, started⟩ := by
  have turns := sum_eraseIdx (f := Start.asks) waits
  have headers := sum_eraseIdx (f := Start.reads) waits
  -- What asks Firestore again is one less of its kind, also when it cannot run any more.
  have asked (turn : x.asks = 1) (more_turns : (more.map Start.asks).sum = 0)
      (calls : ∀ t, s.step x.event = some t →
        total (fun _ => callsLeft) t.clients = total (fun _ => callsLeft) s.clients) :
      rank ⟨(s.step x.event).getD s, started.eraseIdx n ++ more⟩ < rank ⟨s, started⟩ := by
    refine rank_lt.mpr (.inr ⟨?_, .inl ?_⟩)
    · cases stepped : s.step x.event with
      | none => rfl
      | some t => exact calls t stepped
    · simp only [List.map_append, List.sum_append]
      omega
  cases x with
  | refreshPosts i j =>
    obtain rfl : more = [] := starts
    exact asked rfl rfl fun _ => refreshPosts_ok
  | mainTab i =>
    obtain rfl : more = [] := starts
    exact asked rfl rfl fun _ => tab_ok
  | profileTab i =>
    refine asked rfl (List.sum_eq_zero fun m hm => ?_) fun _ => tab_ok
    obtain ⟨y, hy, rfl⟩ := List.mem_map.mp hm
    obtain ⟨place, rfl⟩ := starts y hy
    rfl
  | header i j place =>
    obtain rfl : more = [] := starts
    refine rank_lt.mpr (.inr ?_)
    simp only [Start.event, Start.asks, Start.reads, List.append_nil] at turns headers ⊢
    cases stepped : s.step (.screen i j (.profile (.configure place))) with
    | none => exact ⟨rfl, .inr ⟨by omega, .inr ⟨rfl, by simp only [Option.getD_none]; omega⟩⟩⟩
    | some t =>
      obtain ⟨calls, loads, reads⟩ := header_ok stepped
      exact ⟨calls, .inr ⟨by omega, .inr ⟨loads, by simp only [Option.getD_some]; omega⟩⟩⟩

theorem turn_lowers {s t : Unattended} {e : Turn} (untouched : Untouched s e) (h : s.step e = some t) :
    rank t < rank s := by
  cases e with
  | answer e more =>
    obtain ⟨t, stepped, rfl⟩ := Option.map_eq_some_iff.mp h
    exact answer_lowers untouched.1 untouched.2 stepped
  | run n more =>
    obtain ⟨x, waits, rfl⟩ := Option.map_eq_some_iff.mp h
    exact run_lowers waits (untouched x waits)

end

/-! ### As long as something is outstanding, it can be answered -/

/-- Nothing is outstanding at the screen, or it has trapped. -/
def Resting : Screen → Prop
  | .register attempts => ∀ a ∈ attempts, a.Ended
  | .share c => ∀ a ∈ c.attempts, a.stage = .ended ∨ ∃ validUserID documentID, a.stage = .saved validUserID documentID
  | .main c => c.crashed = true ∨ Quiet c ∧ ∀ call ∈ c.likeCalls, call.Finished
  | .comments c => c.crashed = true ∨
      undelivered c.listeners = [] ∧ c.lookups = [] ∧ ∀ s ∈ c.sends, ∃ ok, s.stage = .finished ok
  | .profile c => c.crashed = true ∨
      c.userLookup = none ∧ undelivered c.photoListeners = [] ∧ c.followReads = [] ∧
        ∀ tap ∈ c.followTaps, tap.call.Finished

def AtRest (s : Unattended) : Prop := s.started = [] ∧ ∀ c ∈ s.sys.clients, ∀ screen ∈ c.screens, Resting screen

section
variable (currentUser : Option String) (fs : Firestore)

/-- A feed that is not quiet can load on. -/
theorem feed_progress {c : MainController} (running : c.crashed = false) (waits : ¬ Quiet c) :
    ∃ e c', Loading e ∧ AtScreen (.main c) (.main e) ∧ c.handle currentUser fs e = some (c', none) := by
  by_cases follows : undelivered c.followsListeners = []
  · by_cases users : c.userLookups = []
    · by_cases photos : undelivered c.photoListeners = []
      · have likes : c.likeLookups ≠ [] := fun likes => waits ⟨follows, users, photos, likes⟩
        obtain ⟨lookup, rest, some_left⟩ := List.exists_cons_of_ne_nil likes
        exact ⟨.likeLookup 0 true, _, trivial, trivial, by
          simp only [MainController.handle, running, some_left]
          rfl⟩
      · obtain ⟨i, n, l, rest, brings, delivered⟩ := can_deliver photos
        exact ⟨.photoSnapshot i n 0, _, trivial, brings, by
          simp only [MainController.handle, running, delivered]
          rfl⟩
    · obtain ⟨lookup, rest, some_left⟩ := List.exists_cons_of_ne_nil users
      exact ⟨.userLookup 0 true, _, trivial, trivial, by
        simp only [MainController.handle, running, some_left]
        rfl⟩
  · obtain ⟨i, l, version, rest, delivered⟩ := can_deliver_version follows
    exact ⟨.followsSnapshot i 0, _, trivial, trivial, by
      simp only [MainController.handle, running, delivered]
      rfl⟩

theorem like_progress {c : MainController} {n : Nat} {call : LikeCall} (found : c.likeCalls[n]? = some call)
    (going : ¬ call.Finished) : ∃ e c', c.likeStep fs e = some (c', none) := by
  cases stage : call.stage with
  | reading =>
    refine ⟨.read n false, ?_⟩
    simp [MainController.likeStep, found, Call.answer, stage]
  | writing whole =>
    refine ⟨.write n false, ?_⟩
    simp [MainController.likeStep, found, stage]
  | written whole ok =>
    refine ⟨.acknowledge n, ?_⟩
    simp only [MainController.likeStep, found, Call.acknowledge, stage, Option.bind_eq_bind, Option.bind_some]
    split
    · split <;> exact ⟨_, rfl⟩
    · exact ⟨_, rfl⟩
  | finished ok => exact (going ⟨ok, stage⟩).elim

theorem main_progress {c : MainController} (waits : ¬ Resting (.main c)) :
    ∃ e c', AtScreen (.main c) (.main e) ∧ c.handle currentUser fs e = some (c', none) := by
  obtain ⟨alive, busy⟩ := not_or.mp waits
  have running : c.crashed = false := Bool.eq_false_of_not_eq_true alive
  by_cases quiet : Quiet c
  · obtain ⟨call, hcall, unfinished⟩ := not_forall₂.mp (not_and.mp busy quiet)
    obtain ⟨n, found⟩ := List.mem_iff_getElem?.mp hcall
    obtain ⟨e, c', stepped⟩ := like_progress fs found unfinished
    exact ⟨.like e, c', trivial, by simpa [MainController.handle, running] using stepped⟩
  · obtain ⟨e, c', _, answer, handled⟩ := feed_progress currentUser fs running quiet
    exact ⟨e, c', answer, handled⟩

theorem comments_progress {c : CommentController} (waits : ¬ Resting (.comments c)) :
    ∃ e c', AtScreen (.comments c) (.comments e) ∧ c.handle currentUser fs e = some (c', none) := by
  obtain ⟨running, busy⟩ := not_or.mp waits
  by_cases pending : undelivered c.listeners = []
  · by_cases lookups : c.lookups = []
    · obtain ⟨s, hs, unfinished⟩ := not_forall₂.mp fun finished => busy ⟨pending, lookups, finished⟩
      obtain ⟨n, found⟩ := List.mem_iff_getElem?.mp hs
      cases stage : s.stage with
      | writing =>
        refine ⟨.write n "" false, ?_⟩
        simp [AtScreen, CommentController.handle, running, found, stage]
      | written ok =>
        refine ⟨.acknowledge n, ?_⟩
        simp [AtScreen, CommentController.handle, running, found, stage]
      | finished ok => exact (unfinished ⟨ok, stage⟩).elim
    · obtain ⟨lookup, rest, some_left⟩ := List.exists_cons_of_ne_nil lookups
      exact ⟨.userLookup 0 true, _, trivial, by
        simp only [CommentController.handle, running, some_left]
        rfl⟩
  · obtain ⟨i, n, l, rest, brings, delivered⟩ := can_deliver pending
    exact ⟨.snapshot i n, _, brings, by
      simp only [CommentController.handle, running, delivered]
      rfl⟩

theorem follow_progress {c : UserProfileController} {n : Nat} {tap : FollowTap} (found : c.followTaps[n]? = some tap)
    (going : ¬ tap.call.Finished) : ∃ e c', c.followStep fs e = some (c', none) := by
  cases stage : tap.call.stage with
  | reading =>
    refine ⟨.read n false, ?_⟩
    simp [UserProfileController.followStep, found, Call.answer, stage]
  | writing whole =>
    refine ⟨.write n false, ?_⟩
    simp [UserProfileController.followStep, found, stage]
  | written whole ok =>
    refine ⟨.acknowledge n, ?_⟩
    simp only [UserProfileController.followStep, found, Call.acknowledge, stage, Option.bind_eq_bind, Option.bind_some]
    split <;> exact ⟨_, rfl⟩
  | finished ok => exact (going ⟨ok, stage⟩).elim

theorem profile_progress {c : UserProfileController} (waits : ¬ Resting (.profile c)) :
    ∃ e c', AtScreen (.profile c) (.profile e) ∧ c.handle currentUser fs e = some (c', none) := by
  obtain ⟨running, busy⟩ := not_or.mp waits
  cases user : c.userLookup with
  | some uID => exact ⟨.userLookup true, _, trivial, by
      simp only [UserProfileController.handle, running, user]
      rfl⟩
  | none =>
    by_cases photos : undelivered c.photoListeners = []
    · by_cases reads : c.followReads = []
      · obtain ⟨tap, htap, unfinished⟩ := not_forall₂.mp fun finished => busy ⟨user, photos, reads, finished⟩
        obtain ⟨n, found⟩ := List.mem_iff_getElem?.mp htap
        obtain ⟨e, c', stepped⟩ := follow_progress fs found unfinished
        exact ⟨.follow e, c', trivial, by simpa [UserProfileController.handle, running] using stepped⟩
      · obtain ⟨read, rest, some_left⟩ := List.exists_cons_of_ne_nil reads
        exact ⟨.followRead 0 true, _, trivial, by
          simp only [UserProfileController.handle, running, some_left]
          rfl⟩
    · obtain ⟨i, n, l, rest, brings, delivered⟩ := can_deliver photos
      exact ⟨.photoSnapshot i n 0, _, brings, by
        simp only [UserProfileController.handle, running, delivered]
        rfl⟩

theorem share_progress {c : SharePhotoController} (waits : ¬ Resting (.share c)) :
    ∃ e c', AtScreen (.share c) (.share e) ∧ c.handle currentUser e = some (c', none) := by
  obtain ⟨a, ha, unfinished⟩ := not_forall₂.mp waits
  obtain ⟨n, found⟩ := List.mem_iff_getElem?.mp ha
  cases stage : a.stage with
  | uploading =>
    refine ⟨.uploaded n false, ?_⟩
    simp [AtScreen, SharePhotoController.handle, found, stage]
  | locating =>
    refine ⟨.located n none false 0, ?_⟩
    simp [AtScreen, SharePhotoController.handle, found, stage]
  | saving validUserID data =>
    refine ⟨.saved n "" false, ?_⟩
    simp [AtScreen, SharePhotoController.handle, found, stage]
  | ended => exact (unfinished (.inl stage)).elim
  | saved validUserID documentID => exact (unfinished (.inr ⟨validUserID, documentID, stage⟩)).elim

theorem register_progress {s : SignUp.State} (waits : ¬ Resting (.register s.attempts)) :
    ∃ e t, (∀ txtEmail txtUserName txtPassword, e ≠ .press txtEmail txtUserName txtPassword) ∧ System.Named e ∧
      SignUp.step s e = some t := by
  obtain ⟨a, ha, unfinished⟩ := not_forall₂.mp waits
  obtain ⟨n, found⟩ := List.mem_iff_getElem?.mp ha
  cases stage : a.stage with
  | creating =>
    refine ⟨.created n none, ?_⟩
    simp [System.Named, SignUp.step, SignUpAttempt.created, found, stage]
  | uploading uid =>
    refine ⟨.uploaded n false, ?_⟩
    simp [System.Named, SignUp.step, SignUpAttempt.uploaded, found, stage]
  | locating uid =>
    refine ⟨.located n none false, ?_⟩
    simp [System.Named, SignUp.step, SignUpAttempt.located, found, stage]
  | saving uid url =>
    refine ⟨.stored n false, ?_⟩
    simp [System.Named, SignUp.step, SignUpAttempt.stored, found, stage]
  | refused | abandoned | saved => exact (unfinished (by simp [SignUpAttempt.Ended, stage])).elim

theorem screen_progress {screen : Screen} (calls : ∀ attempts, screen ≠ .register attempts) (waits : ¬ Resting screen) :
    ∃ e screen', AtScreen screen e ∧ screen.handle currentUser fs e = some (screen', none) := by
  cases screen with
  | register attempts => exact (calls attempts rfl).elim
  | share c =>
    obtain ⟨e, c', answer, handled⟩ := share_progress currentUser waits
    exact ⟨.share e, .share c', answer, by simp [Screen.handle, handled]⟩
  | main c =>
    obtain ⟨e, c', answer, handled⟩ := main_progress currentUser fs waits
    exact ⟨.main e, .main c', answer, by simp [Screen.handle, handled]⟩
  | comments c =>
    obtain ⟨e, c', answer, handled⟩ := comments_progress currentUser fs waits
    exact ⟨.comments e, .comments c', answer, by simp [Screen.handle, handled]⟩
  | profile c =>
    obtain ⟨e, c', answer, handled⟩ := profile_progress currentUser fs waits
    exact ⟨.profile e, .profile c', answer, by simp [Screen.handle, handled]⟩

end

theorem answer_progress {s : System} (waits : ¬ ∀ c ∈ s.clients, ∀ screen ∈ c.screens, Resting screen) :
    ∃ e t, Answer s e ∧ s.step e = some t := by
  obtain ⟨c, hc, waiting⟩ := not_forall₂.mp waits
  obtain ⟨screen, hs, busy⟩ := not_forall₂.mp waiting
  obtain ⟨i, found⟩ := List.mem_iff_getElem?.mp hc
  obtain ⟨j, shown⟩ := List.mem_iff_getElem?.mp hs
  by_cases signUp : ∃ attempts, screen = .register attempts
  · obtain ⟨attempts, rfl⟩ := signUp
    obtain ⟨e, t, answer, named, stepped⟩ := register_progress (s := ⟨s.accounts, s.fs.users, attempts⟩) busy
    refine ⟨.register i j e, ?_⟩
    have answers : Answer s (.register i j e) := by
      cases e with
      | press txtEmail txtUserName txtPassword => exact answer txtEmail txtUserName txtPassword rfl
      | _ => trivial
    simp [answers, System.step, found, shown, named, stepped]
  · obtain ⟨e, screen', answer, handled⟩ := screen_progress c.currentUser s.fs
      (fun attempts same => signUp ⟨attempts, same⟩) busy
    exact ⟨.screen i j e, s.put i c j screen', ⟨c, found, screen, shown, answer⟩, by
      simp [System.step, System.put, found, shown, handled]⟩

theorem progress {s : Unattended} (waits : ¬ AtRest s) : ∃ e t, Untouched s e ∧ s.step e = some t := by
  cases started : s.started with
  | nil =>
    obtain ⟨e, t, answer, stepped⟩ := answer_progress fun resting => waits ⟨started, resting⟩
    obtain ⟨more, starts⟩ := some_start s.sys e
    exact ⟨.answer e more, _, ⟨answer, starts⟩, by rw [Unattended.step, stepped]; rfl⟩
  | cons x rest =>
    obtain ⟨more, starts⟩ := some_start s.sys x.event
    refine ⟨.run 0 more, _, fun y hy => ?_, by rw [Unattended.step, started]; rfl⟩
    rw [started] at hy
    obtain rfl := Option.some.inj hy
    exact starts

/-- From every state, there is no endless sequence of answers and of what their callbacks start, in whatever
order they come; as long as the program is not at rest one more is possible; and so they bring it to rest. -/
theorem untouched_comes_to_rest (s : Unattended) :
    (∀ f : Nat → Unattended, f 0 = s → ∃ n, ¬ Successor Unattended.step Untouched (f (n + 1)) (f n)) ∧
      (¬ AtRest s → ∃ e t, Untouched s e ∧ s.step e = some t) ∧
      ∃ turns t, run Unattended.step s turns = some t ∧ Along Unattended.step Untouched s turns ∧ AtRest t := by
  have ends : WellFounded (Successor Unattended.step Untouched) :=
    successor_wellFounded rank fun _ _ _ => turn_lowers
  refine ⟨fun f _ => not_endless ends f, progress, ?_⟩
  obtain ⟨turns, t, reached, along, _, rest⟩ :=
    comes_to_rest (I := fun _ => True) ends (fun _ _ _ _ _ _ => trivial) (fun _ _ => progress) s trivial
  exact ⟨turns, t, reached, along, rest⟩

end Foti.Rest
