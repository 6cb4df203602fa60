import Foti.System.Rest

/-!
What is shared arrives. A feed that is loading never traps and never gets stuck, so the answers to it bring
every post of its authors.
-/

namespace Foti.Arrival
open Answers FeedComplete Rest Transition

/-- An answer to the feed at a place, and no failure. -/
def FeedAnswer (i j : Nat) (s : System) (e : System.Event) : Prop :=
  Answer s e ∧ ∃ e', e = .screen i j (.main e') ∧ Loading e'

/-- The feed has nothing outstanding and shows every post of its authors. -/
def ShowsAll (account : String) (i j : Nat) (s : System) : Prop :=
  ∃ main, Feeds.feed s i j = some main ∧ Quiet main ∧ ∀ a, Author s.fs account a → ∀ d ∈ s.fs.photoPosts a, Shown main d.1

section
variable {account : String} {fs : Firestore} {c c' : MainController}

theorem loading_silent {currentUser : Option String} {e : MainEvent} {w : Option ServerWrite} (loading : Loading e)
    (outcome : MainController.Handled currentUser fs c e c' w) : w = none := by
  cases outcome with
  | tap | moved | completed | trapped => exact loading.elim
  | _ => rfl

/-- A loading feed whose lookups are of known users does not trap. -/
theorem loading_running {e : MainEvent} {w : Option ServerWrite} (h : Inv account fs c) (users : AuthorsKnown account fs)
    (running : c.crashed = false) (loading : Loading e)
    (outcome : MainController.Handled (some account) fs c e c' w) : c'.crashed = false := by
  cases outcome with
  | refreshPosts =>
    obtain ⟨_, _, same⟩ := Attribution.refresh_same c (some account) fs
    rw [same]
    exact running
  | @userFound n lookup found =>
    obtain ⟨nonempty, data, stored, own⟩ := (h.known users).1 lookup (List.mem_of_getElem? found)
    have named : (User.init data).userID ≠ "" := own ▸ nonempty
    simp only [MainController.userFound, stored, MainController.getPosts, if_neg named]
    exact running
  | tap | moved | completed | trapped => exact loading.elim
  | _ => exact running

theorem loading_runs {events : List Feed.Event} {t : Feed}
    (h : run (Feed.step account) (Feed.viewDidLoad account fs) events = some t) (loads : ∀ e ∈ events, Loads e)
    (known : Along (Feed.step account) (fun s _ => AuthorsKnown account s.fs) (Feed.viewDidLoad account fs) events) :
    t.main.crashed = false := by
  have keeps : ∀ s e s', (Inv account s.fs s.main ∧ s.main.crashed = false) → (Loads e ∧ AuthorsKnown account s.fs) →
      Feed.step account s e = some s' → Inv account s'.fs s'.main ∧ s'.main.crashed = false := by
    intro s e s' hs meets stepped
    refine Feed.step_keeps (I := fun fs c => Inv account fs c ∧ c.crashed = false)
      (H := fun fs _ e => Loading e ∧ AuthorsKnown account fs) (W := fun fs _ => AuthorsKnown account fs)
      (fun _ _ _ _ _ meets => meets.2) (fun fs c e c' w hc meets running outcome => ?_)
      (fun fs c w fs' hc known applied => ?_) hs ?_ stepped
    · exact ⟨handled_inv hc.1 meets.2 meets.1 outcome, loading_running hc.1 meets.2 running meets.1 outcome⟩
    · obtain ⟨_, _, same⟩ := MainController.notify_same c fs fs' w
      refine ⟨written_inv hc.1 known (Firestore.apply_ok applied), ?_⟩
      rw [same]
      exact hc.2
    · cases e with
      | main e => exact meets
      | remote w => exact meets.2
  have initial : Inv account (Feed.viewDidLoad account fs).fs (Feed.viewDidLoad account fs).main ∧
      (Feed.viewDidLoad account fs).main.crashed = false := ⟨initial_inv account fs, rfl⟩
  exact (run_keeps_along (I := fun s : Feed => Inv account s.fs s.main ∧ s.main.crashed = false) keeps h
    (along_and (along_of_forall fun e he _ => loads e he) known) initial).2

end

section
variable {account : String} {i j : Nat} {s t : System}

theorem feedAnswer_store {e : System.Event} (answer : FeedAnswer i j s e) (h : s.step e = some t) : t.fs = s.fs := by
  obtain ⟨_, e', rfl, loading⟩ := answer
  obtain ⟨c, screen, screen', write, found, shown, handled, outcome⟩ := Feeds.screen_step_ok h
  cases Screen.handle_ok handled with
  | main loaded =>
    rw [loading_silent loading loaded] at outcome
    rcases outcome with ⟨_, rfl⟩ | ⟨_, _, wrote, _⟩
    · rfl
    · cases wrote

theorem feedAnswers_store {answers : List System.Event} (h : run System.step s answers = some t)
    (along : Along System.step (FeedAnswer i j) s answers) : t.fs = s.fs :=
  run_keeps_along (I := fun u => u.fs = s.fs)
    (fun _ _ _ same answer stepped => (feedAnswer_store answer stepped).trans same) h along rfl

/-- Nothing is started by it, so it leaves less to wait for. -/
theorem loading_lowers {e : System.Event} (answer : FeedAnswer i j s e) (h : s.step e = some t) :
    rank ⟨t, []⟩ < rank ⟨s, []⟩ := by
  obtain ⟨answered, e', rfl, _⟩ := answer
  have lower : rank ⟨t, [] ++ []⟩ < rank ⟨s, []⟩ := answer_lowers answered rfl h
  exact lower

theorem feed_answered {f : Feed} (projects : Feeds.Projects i j account s f) (running : f.main.crashed = false)
    (waits : ¬ Quiet f.main) : ∃ e t, FeedAnswer i j s e ∧ s.step e = some t := by
  obtain ⟨store, c, found, signed, shown⟩ := projects
  obtain ⟨e, main, loading, answer, handled⟩ := feed_progress (some account) s.fs running waits
  refine ⟨.screen i j (.main e), s.put i c j (.main main), ⟨⟨c, found, _, shown, answer⟩, e, rfl, loading⟩, ?_⟩
  simp [System.step, System.put, found, shown, signed, Screen.handle, handled]

/-- Answers to the feed are events that only load it, so its run goes on by them. -/
theorem answers_load (account : String) {answers : List System.Event} (h : run System.step s answers = some t)
    (along : Along System.step (FeedAnswer i j) s answers) :
    ∀ e ∈ answers, Feeds.Stays i account e ∧ Feeds.LoadsAt i j e := by
  have each : Along System.step (fun _ e => Feeds.Stays i account e ∧ Feeds.LoadsAt i j e) s answers :=
    along.imp fun s e answer => by
      obtain ⟨_, e', rfl, loading⟩ := answer
      exact ⟨trivial, fun _ => loading⟩
  exact forall_of_along h each

end

/-- What has been shared arrives. Take a feed as in `posts_reach_feed`, at any time. Whatever answers come to
it, in whatever order, it shows every post of its account and of everybody followed, or another answer is
possible; and some answers, which change nothing else, get it there. -/
theorem posts_arrive (account : String) (i : Nat) (before after : List System.Event) (s t : System) (c : Client)
    (reached : run System.step {} before = some s) (found : s.clients[i]? = some c)
    (signed : c.currentUser = some account) (user : (s.fs.users account).isSome)
    (h : run System.step s (.open i .main :: after) = some t) (stays : ∀ e ∈ after, Feeds.Stays i account e)
    (loads : ∀ e ∈ after, Feeds.LoadsAt i c.screens.length e) :
    (∀ answers u, run System.step t answers = some u → Along System.step (FeedAnswer i c.screens.length) t answers →
      u.fs = t.fs ∧ (ShowsAll account i c.screens.length u ∨
        ∃ e v, FeedAnswer i c.screens.length u e ∧ u.step e = some v)) ∧
      ∃ answers u, run System.step t answers = some u ∧ Along System.step (FeedAnswer i c.screens.length) t answers ∧
        ShowsAll account i c.screens.length u := by
  have arrives : ∀ answers u, run System.step t answers = some u →
      Along System.step (FeedAnswer i c.screens.length) t answers →
      ShowsAll account i c.screens.length u ∨ ∃ e v, FeedAnswer i c.screens.length u e ∧ u.step e = some v := by
    intro answers u answered along
    have only := answers_load account answered along
    have whole : run System.step s (.open i .main :: (after ++ answers)) = some u := run_append_of h answered
    obtain ⟨events, g, ran, loaded, authors, projects⟩ := Feeds.loading_run reached found signed user whole
      (List.forall_mem_append.mpr ⟨stays, fun e he => (only e he).1⟩)
      (List.forall_mem_append.mpr ⟨loads, fun e he => (only e he).2⟩)
    by_cases quiet : Quiet g.main
    · refine .inl ⟨g.main, projects.feed, quiet, fun a author => ?_⟩
      rw [← projects.store] at author ⊢
      exact (reachable_inv ran loaded authors).shown quiet author
    · exact .inr (feed_answered projects (loading_runs ran loaded authors) quiet)
  have ends : WellFounded (Successor System.step (FeedAnswer i c.screens.length)) :=
    successor_wellFounded (fun u => rank ⟨u, []⟩) fun _ _ _ answer => loading_lowers answer
  let Inv (u : System) : Prop := ∃ answers, run System.step t answers = some u ∧
    Along System.step (FeedAnswer i c.screens.length) t answers
  have keeps : ∀ u e v, Inv u → FeedAnswer i c.screens.length u e → u.step e = some v → Inv v := by
    rintro u e v ⟨answers, answered, along⟩ answer stepped
    exact ⟨answers ++ [e], run_concat_of answered stepped, along_append answered along ⟨answer, fun _ _ => trivial⟩⟩
  have progress : ∀ u, Inv u → ¬ ShowsAll account i c.screens.length u →
      ∃ e v, FeedAnswer i c.screens.length u e ∧ u.step e = some v := by
    rintro u ⟨answers, answered, along⟩ missing
    exact (arrives answers u answered along).resolve_left missing
  refine ⟨fun answers u answered along => ⟨feedAnswers_store answered along, arrives answers u answered along⟩, ?_⟩
  obtain ⟨answers, u, answered, along, _, complete⟩ := comes_to_rest ends keeps progress t ⟨[], rfl, trivial⟩
  exact ⟨answers, u, answered, along, complete⟩

/-- Bob's post has been shared, and Alice's feed has not heard of it. -/
theorem posts_arrive_bob : ∃ s t, run System.step {} SelfFollow.aliceFollowsBob = some s ∧
    run System.step s (.open 0 .main :: Feeds.bobShares.take 9) = some t ∧ ∃ answers u,
      run System.step t answers = some u ∧ Along System.step (FeedAnswer 0 2) t answers ∧ ShowsAll "alice" 0 2 u :=
  ⟨_, _, rfl, rfl, (posts_arrive "alice" 0 SelfFollow.aliceFollowsBob (Feeds.bobShares.take 9) _ _ _ rfl rfl rfl rfl rfl
    (by decide) (by decide)).2⟩

end Foti.Arrival
