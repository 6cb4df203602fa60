import Foti.Library.Simulation
import Foti.MainPage.FeedComplete
import Foti.System.Attribution
import Foti.System.SelfFollow
import Foti.System.SignUps

/-!
The home feeds in the whole program. As long as its account stays signed in, what happens to one screen
and the store is a run of `Feed`, so the results about feeds hold in every run of the program.
-/

namespace Foti.Feeds
open Document Entries FeedComplete Transition

/-- Nobody else signs in on the client, and its account does not sign out. -/
def Stays (i : Nat) (account : String) : System.Event → Prop
  | .signOut k => k ≠ i
  | .signIn k uid | .register k _ (.created _ (some uid)) => k = i → uid = account
  | _ => True

instance (i : Nat) (account : String) (e : System.Event) : Decidable (Stays i account e) := by
  unfold Stays; split <;> infer_instance

/-- The feed is screen `j` of client `i`, on which the account is signed in. -/
structure Projects (i j : Nat) (account : String) (s : System) (f : Feed) : Prop where
  store : f.fs = s.fs
  shown : ∃ c, s.clients[i]? = some c ∧ c.currentUser = some account ∧ c.screens[j]? = some (.main f.main)

def feed (s : System) (i j : Nat) : Option MainController := do
  let c ← s.clients[i]?
  match c.screens[j]? with
  | some (.main main) => some main
  | _ => none

def AtFeed (i j : Nat) (H : MainController → MainEvent → Prop) (s : System) : System.Event → Prop
  | .screen k l (.main e) => k = i ∧ l = j → ∀ main ∈ feed s i j, H main e
  | _ => True

instance (i j : Nat) (H : MainController → MainEvent → Prop) [∀ c e, Decidable (H c e)] (s : System)
    (e : System.Event) : Decidable (AtFeed i j H s e) := by
  unfold AtFeed; split <;> infer_instance

theorem at_feed_any (i j : Nat) (s : System) (e : System.Event) : AtFeed i j (fun _ _ => True) s e := by
  unfold AtFeed
  split
  · exact fun _ _ _ => trivial
  · trivial

def FeedMeets (H : MainController → MainEvent → Prop) (K : Firestore → Prop) : Feed → Feed.Event → Prop :=
  Feed.Meets (fun fs c e => H c e ∧ K fs) fun fs _ => K fs

section
variable {i j : Nat} {account : String} {s t : System} {f : Feed} {H : MainController → MainEvent → Prop}
  {K : Firestore → Prop}

theorem Projects.feed (h : Projects i j account s f) : feed s i j = some f.main := by
  obtain ⟨c, found, _, shown⟩ := h.shown
  simp [Feeds.feed, found, shown]

theorem screen_step_ok {k l : Nat} {e : ScreenEvent} (h : s.step (.screen k l e) = some t) :
    ∃ c screen screen' write, s.clients[k]? = some c ∧ c.screens[l]? = some screen ∧
      screen.handle c.currentUser s.fs e = some (screen', write) ∧
      (write = none ∧ t = s.put k c l screen' ∨ ∃ sender w, write = some (sender, w) ∧
        (s.put k c l screen').write sender w = some t) := by
  obtain ⟨c, found, h⟩ := Option.bind_eq_some_iff.mp h
  obtain ⟨screen, shown, h⟩ := Option.bind_eq_some_iff.mp h
  obtain ⟨⟨screen', write⟩, handled, h⟩ := Option.bind_eq_some_iff.mp h
  refine ⟨c, screen, screen', write, found, shown, handled, ?_⟩
  cases write with
  | none => exact .inl ⟨rfl, (Option.some.inj h).symm⟩
  | some write => exact .inr ⟨write.1, write.2, rfl, h⟩

/-- A write by anyone reaches the feed as one of others. -/
theorem write_projected (h : Projects i j account s f) {sender : String} {w : ServerWrite}
    (written : s.write sender w = some t) : ∃ g, f.write w = some g ∧ Projects i j account t g := by
  obtain ⟨fs, applied, _, rfl⟩ := System.write_ok written
  obtain ⟨c, found, signed, shown⟩ := h.shown
  refine ⟨⟨fs, f.main.notify s.fs fs w⟩, ?_, rfl, { c with screens := c.screens.map (Screen.notify s.fs fs w) }, ?_,
    signed, ?_⟩
  · rw [Feed.write, h.store, applied]
    rfl
  · rw [List.getElem?_map, found]
    rfl
  · rw [List.getElem?_map, shown]
    rfl

theorem put_projected (h : Projects i j account s f) {k l : Nat} {c : Client} (screen : Screen)
    (found : s.clients[k]? = some c) (other : ¬ (k = i ∧ l = j)) : Projects i j account (s.put k c l screen) f := by
  obtain ⟨own, listed, signed, shown⟩ := h.shown
  refine ⟨h.store, ?_⟩
  by_cases same : k = i
  · subst same
    obtain rfl := Option.some.inj (found.symm.trans listed)
    refine ⟨_, List.getElem?_set_self (List.getElem?_eq_some_iff.mp listed).1, signed, ?_⟩
    rwa [List.getElem?_set_ne fun same => other ⟨rfl, same⟩]
  · exact ⟨own, by rw [System.put, List.getElem?_set_ne same, listed], signed, shown⟩

theorem own_projected (h : Projects i j account s f) {c : Client} (found : s.clients[i]? = some c)
    (main : MainController) : Projects i j account (s.put i c j (.main main)) ⟨s.fs, main⟩ := by
  obtain ⟨own, listed, signed, shown⟩ := h.shown
  obtain rfl := Option.some.inj (found.symm.trans listed)
  refine ⟨rfl, _, List.getElem?_set_self (List.getElem?_eq_some_iff.mp found).1, signed, ?_⟩
  exact List.getElem?_set_self (List.getElem?_eq_some_iff.mp shown).1

theorem client_projected (h : Projects i j account s f) {k : Nat} {c c' : Client} (found : s.clients[k]? = some c)
    (clients : t.clients = s.clients.set k c') (store : t.fs = s.fs) (user : k = i → c'.currentUser = some account)
    (kept : ∀ main, c.screens[j]? = some (.main main) → c'.screens[j]? = some (.main main)) :
    Projects i j account t f := by
  obtain ⟨own, listed, signed, shown⟩ := h.shown
  refine ⟨h.store.trans store.symm, ?_⟩
  rw [clients]
  by_cases same : k = i
  · subst same
    obtain rfl := Option.some.inj (found.symm.trans listed)
    exact ⟨c', List.getElem?_set_self (List.getElem?_eq_some_iff.mp listed).1, user rfl, kept _ shown⟩
  · exact ⟨own, by rw [List.getElem?_set_ne same, listed], signed, shown⟩

def Follows (i j : Nat) (account : String) (H : MainController → MainEvent → Prop) (K : Firestore → Prop) (f : Feed)
    (t : System) : Prop :=
  ∃ events g, run (Feed.step account) f events = some g ∧ Along (Feed.step account) (FeedMeets H K) f events ∧
    Projects i j account t g

theorem Follows.still (h : Projects i j account t f) : Follows i j account H K f t := ⟨[], f, rfl, trivial, h⟩

theorem Follows.one {g : Feed} {e : Feed.Event} (h : Projects i j account t g) (stepped : Feed.step account f e = some g)
    (meets : FeedMeets H K f e) : Follows i j account H K f t :=
  ⟨[e], g, run_cons_of stepped rfl, ⟨meets, fun _ _ => trivial⟩, h⟩

theorem register_projected (h : Projects i j account s f) {k l : Nat} {e : SignUp.Event}
    (stays : Stays i account (.register k l e)) (known : K s.fs) (stepped : s.step (.register k l e) = some t) :
    Follows i j account H K f t := by
  obtain ⟨c, attempts, u, found, registers, _, registered, rfl⟩ := SignUps.register_ok stepped
  have kept : ∀ main, c.screens[j]? = some (.main main) →
      (System.signedUp { c with screens := c.screens.set l (.register u.attempts) } e).screens[j]? = some (.main main) := by
    intro main shown
    rw [SignUps.signedUp_screens, List.getElem?_set_ne, shown]
    rintro rfl
    cases registers.symm.trans shown
  have user : k = i → (System.signedUp { c with screens := c.screens.set l (.register u.attempts) } e).currentUser =
      some account := by
    rintro rfl
    obtain ⟨own, listed, signed, _⟩ := h.shown
    obtain rfl := Option.some.inj (found.symm.trans listed)
    unfold System.signedUp
    split
    · exact congrArg some (stays rfl)
    · exact signed
  rcases SignUps.saved_users registered with same | ⟨n, a, uid, url, _, _, _, same⟩
  · exact .still (client_projected h found rfl (by rw [same]) user kept)
  · have written : Feed.step account f (.remote (.user uid a.userName url)) =
        some ⟨{ s.fs with users := u.users }, f.main⟩ := by
      rw [same, ← h.store]
      rfl
    have projected : Projects i j account { s with
        accounts := u.accounts
        fs := { s.fs with users := u.users }
        clients := s.clients.set k (System.signedUp { c with screens := c.screens.set l (.register u.attempts) } e) }
        ⟨{ s.fs with users := u.users }, f.main⟩ :=
      ⟨rfl, (client_projected (t := { s with
        clients := s.clients.set k (System.signedUp { c with screens := c.screens.set l (.register u.attempts) } e) })
        h found rfl rfl user kept).shown⟩
    exact .one projected written (show K f.fs from h.store ▸ known)

theorem screen_projected (h : Projects i j account s f) {k l : Nat} {e : ScreenEvent}
    (meets : AtFeed i j H s (.screen k l e)) (known : K s.fs) (stepped : s.step (.screen k l e) = some t) :
    Follows i j account H K f t := by
  obtain ⟨c, screen, screen', write, found, shown, handled, outcome⟩ := screen_step_ok stepped
  by_cases own : k = i ∧ l = j
  · obtain ⟨rfl, rfl⟩ := own
    obtain ⟨c', listed, signed, main⟩ := h.shown
    obtain rfl := Option.some.inj (found.symm.trans listed)
    obtain rfl := Option.some.inj (shown.symm.trans main)
    cases e with
    | share | comments | profile => cases handled
    | main e =>
      obtain ⟨⟨main', w⟩, ran, same⟩ := Option.map_eq_some_iff.mp handled
      obtain ⟨rfl, rfl⟩ := Prod.mk.inj same
      have projected := own_projected h found main'
      have met : FeedMeets H K f (.main e) := ⟨meets ⟨rfl, rfl⟩ f.main h.feed, h.store ▸ known⟩
      rw [signed] at ran
      rcases outcome with ⟨silent, rfl⟩ | ⟨sender, w', wrote, written⟩
      · obtain rfl := Option.map_eq_none_iff.mp silent
        refine .one projected ?_ met
        simp only [Feed.step, h.store, ran, Option.bind_eq_bind, Option.bind_some]
        rfl
      · obtain ⟨w'', rfl, issued⟩ := Option.map_eq_some_iff.mp wrote
        obtain ⟨_, rfl⟩ := Prod.mk.inj issued
        obtain ⟨g, reached, projected⟩ := write_projected projected written
        refine .one projected ?_ met
        simp only [Feed.step, h.store, ran, Option.bind_eq_bind, Option.bind_some]
        exact reached
  · have projected := put_projected h screen' found own
    rcases outcome with ⟨_, rfl⟩ | ⟨sender, w, _, written⟩
    · exact .still projected
    · obtain ⟨g, reached, projected⟩ := write_projected projected written
      have met : FeedMeets H K f (.remote w) := show K f.fs from h.store ▸ known
      have stepped : Feed.step account f (.remote w) = some g := reached
      exact .one projected stepped met

/-- A step of the program is a step of the feed, or none. -/
theorem step_projected (h : Projects i j account s f) {e : System.Event}
    (meets : Stays i account e ∧ AtFeed i j H s e ∧ K s.fs) (stepped : s.step e = some t) :
    Follows i j account H K f t := by
  obtain ⟨stays, at_feed, known⟩ := meets
  cases e with
  | register k l e => exact register_projected h stays known stepped
  | screen k l e => exact screen_projected h at_feed known stepped
  | launch =>
    obtain rfl := Option.some.inj stepped
    obtain ⟨c, found, rest⟩ := h.shown
    have inside := (List.getElem?_eq_some_iff.mp found).1
    exact .still ⟨h.store, c, by rw [List.getElem?_append_left inside, found], rest⟩
  | signIn k uid =>
    obtain ⟨c, found, stepped⟩ := Option.bind_eq_some_iff.mp stepped
    obtain ⟨_, same⟩ := Option.ite_none_right_eq_some.mp stepped
    obtain rfl := Option.some.inj same
    exact .still (client_projected h found rfl rfl (fun same => congrArg some (stays same)) fun _ shown => shown)
  | signOut k =>
    obtain ⟨c, found, same⟩ := Option.bind_eq_some_iff.mp stepped
    obtain rfl := Option.some.inj same
    exact .still (client_projected h found rfl rfl (fun same => (stays same).elim) fun _ shown => shown)
  | «open» k opening =>
    obtain ⟨c, found, same⟩ := Option.bind_eq_some_iff.mp stepped
    obtain rfl := Option.some.inj same
    refine .still (client_projected h found rfl rfl (fun same => ?_) fun _ shown => ?_)
    · obtain ⟨own, listed, signed, _⟩ := h.shown
      subst same
      exact Option.some.inj (found.symm.trans listed) ▸ signed
    · rw [List.getElem?_append_left (List.getElem?_eq_some_iff.mp shown).1, shown]

theorem shows_opened {seen : Firestore} {c : Client} (found : s.clients[i]? = some c) (signed : c.currentUser = some account) :
    Projects i c.screens.length account { s with
      clients := s.clients.set i { c with screens := c.screens ++ [Screen.viewDidLoad c.currentUser seen .main] } }
      ⟨s.fs, MainController.viewDidLoad (some account) seen⟩ := by
  refine ⟨rfl, _, List.getElem?_set_self (List.getElem?_eq_some_iff.mp found).1, signed, ?_⟩
  rw [List.getElem?_concat_length, Screen.viewDidLoad, signed]

theorem opened_projects {c : Client} (found : s.clients[i]? = some c) (signed : c.currentUser = some account)
    (h : s.step (.open i .main) = some t) :
    Projects i c.screens.length account t (Feed.viewDidLoad account s.fs) := by
  obtain ⟨c', found', same⟩ := Option.bind_eq_some_iff.mp h
  obtain rfl := Option.some.inj (found.symm.trans found')
  obtain rfl := Option.some.inj same
  exact shows_opened found signed

theorem run_projected {events : List System.Event} (h : run System.step s events = some t)
    (start : Projects i j account s f)
    (meets : Along System.step (fun s e => Stays i account e ∧ AtFeed i j H s e ∧ K s.fs) s events) :
    Follows i j account H K f t :=
  run_refined_along (R := Projects i j account) (fun _ _ _ _ related meets stepped => step_projected related meets stepped)
    h meets start

end

/-- A client that opens its feed while it is signed in runs a `Feed` from then on, whatever the other
clients and its own other screens do, until the account changes. -/
theorem program_runs_feeds (account : String) (i : Nat) (s t : System) (c : Client) (events : List System.Event)
    (found : s.clients[i]? = some c) (signed : c.currentUser = some account)
    (h : run System.step s (.open i .main :: events) = some t) (stays : ∀ e ∈ events, Stays i account e) :
    ∃ feedEvents g, run (Feed.step account) (Feed.viewDidLoad account s.fs) feedEvents = some g ∧
      Projects i c.screens.length account t g := by
  obtain ⟨m, opened, h⟩ := run_cons_ok h
  have meets : Along System.step
      (fun s e => Stays i account e ∧ AtFeed i c.screens.length (fun _ _ => True) s e ∧ True) m events :=
    along_of_forall fun e he s => ⟨stays e he, at_feed_any i _ s e, trivial⟩
  obtain ⟨feedEvents, g, reached, _, projects⟩ := run_projected (K := fun _ => True) h
    (opened_projects found signed opened) meets
  exact ⟨feedEvents, g, reached, projects⟩

def aliceShares : List System.Event := (Attribution.aliceComments.drop 8).take 9

theorem program_runs_feeds_alice : ∃ s t c, run System.step {} (Attribution.aliceComments.take 7) = some s ∧
    s.clients[0]? = some c ∧ run System.step s (.open 0 .main :: aliceShares) = some t ∧
      ∃ feedEvents g, run (Feed.step "alice") (Feed.viewDidLoad "alice" s.fs) feedEvents = some g ∧
        Projects 0 c.screens.length "alice" t g :=
  ⟨_, _, _, rfl, rfl, rfl, program_runs_feeds "alice" 0 _ _ _ aliceShares rfl rfl rfl (by decide)⟩

/-! ### What a feed shows in the end -/

theorem authors_known {account : String} {s : System} (ok : Attribution.SystemOk s) (signUps : SignUps.Inv s)
    (user : (s.fs.users account).isSome) : AuthorsKnown account s.fs := by
  have known : ∀ a, (s.fs.users a).isSome → Known s.fs a := by
    intro a stored
    obtain ⟨data, found⟩ := Option.isSome_iff_exists.mp stored
    refine ⟨?_, data, found, by simp [User.init, ok.store.users a data found]⟩
    rintro rfl
    rw [signUps.noUser "" fun acc hacc => ok.accounts acc hacc] at stored
    cases stored
  rintro a (rfl | ⟨data, follows, followed⟩)
  · exact known a user
  · obtain ⟨v, held⟩ := Option.isSome_iff_exists.mp (AList.lookup_isSome.mpr followed)
    exact known a (ok.store.follows account a v (by rw [follows]; exact held)).2

def LoadsAt (i j : Nat) : System.Event → Prop
  | .screen k l (.main e) => k = i ∧ l = j → Loading e
  | _ => True

instance (i j : Nat) (e : System.Event) : Decidable (LoadsAt i j e) := by unfold LoadsAt; split <;> infer_instance

theorem LoadsAt.at_feed {i j : Nat} {e : System.Event} (h : LoadsAt i j e) (s : System) :
    AtFeed i j (fun _ => Loading) s e := by
  unfold AtFeed
  split
  · exact fun own _ _ => h own
  · trivial

theorem loading_run {account : String} {i : Nat} {before after : List System.Event} {s t : System} {c : Client}
    (reached : run System.step {} before = some s) (found : s.clients[i]? = some c)
    (signed : c.currentUser = some account) (user : (s.fs.users account).isSome)
    (h : run System.step s (.open i .main :: after) = some t) (stays : ∀ e ∈ after, Stays i account e)
    (loads : ∀ e ∈ after, LoadsAt i c.screens.length e) :
    ∃ events g, run (Feed.step account) (Feed.viewDidLoad account s.fs) events = some g ∧ (∀ e ∈ events, Loads e) ∧
      Along (Feed.step account) (fun s _ => AuthorsKnown account s.fs) (Feed.viewDidLoad account s.fs) events ∧
      Projects i c.screens.length account t g := by
  let Inv (s : System) : Prop := Attribution.SystemOk s ∧ SignUps.Inv s ∧ (s.fs.users account).isSome
  have keeps : ∀ s e t, Inv s → s.step e = some t → Inv t := by
    rintro s e t ⟨ok, signUps, user⟩ stepped
    obtain ⟨signUps', frozen⟩ := SignUps.step_inv signUps stepped
    obtain ⟨data, stored⟩ := Option.isSome_iff_exists.mp user
    exact ⟨Attribution.step_ok ok stepped, signUps', by rw [frozen account data stored]; rfl⟩
  have ok : Attribution.SystemOk s := run_keeps (fun _ _ _ => Attribution.step_ok) reached Attribution.initial_ok
  obtain ⟨m, opened, h⟩ := run_cons_ok h
  have inv : Inv m := keeps s _ m ⟨ok, SignUps.run_inv reached, user⟩ opened
  have known : Along System.step (fun s _ => AuthorsKnown account s.fs) m after :=
    along_of_keeps keeps (fun _ _ inv => authors_known inv.1 inv.2.1 inv.2.2) inv after
  have own : Along System.step (fun s e => Stays i account e ∧ AtFeed i c.screens.length (fun _ => Loading) s e) m after :=
    along_of_forall fun e he s => ⟨stays e he, (loads e he).at_feed s⟩
  obtain ⟨events, g, ran, met, projects⟩ := run_projected h (opened_projects found signed opened)
    ((along_and own known).imp fun _ _ both => ⟨both.1.1, both.1.2, both.2⟩)
  have loaded : ∀ e ∈ events, Loads e := forall_of_along ran <| met.imp fun s e meets => by
    cases e with
    | main e => exact meets.1
    | remote w => trivial
  have authors : Along (Feed.step account) (fun s _ => AuthorsKnown account s.fs) _ events := met.imp fun s e meets => by
    cases e with
    | main e => exact meets.2
    | remote w => exact meets
  exact ⟨events, g, ran, loaded, authors, projects⟩

/-- A post reaches the feeds of its author's followers: in every run, a feed opened by an account with a
user document shows all posts of that account and of everybody it follows as soon as nothing is
outstanding there, when the feed was only refreshed and loaded and none of its reads has failed. -/
theorem posts_reach_feed (account : String) (i : Nat) (before after : List System.Event) (s t : System) (c : Client)
    (reached : run System.step {} before = some s) (found : s.clients[i]? = some c)
    (signed : c.currentUser = some account) (user : (s.fs.users account).isSome)
    (h : run System.step s (.open i .main :: after) = some t) (stays : ∀ e ∈ after, Stays i account e)
    (loads : ∀ e ∈ after, LoadsAt i c.screens.length e) :
    (feed t i c.screens.length).isSome ∧ ∀ main, feed t i c.screens.length = some main → Quiet main →
      ∀ a, Author t.fs account a → ∀ d ∈ t.fs.photoPosts a, Shown main d.1 := by
  obtain ⟨events, g, ran, loaded, authors, projects⟩ := loading_run reached found signed user h stays loads
  refine ⟨projects.feed ▸ rfl, fun main shown quiet a author => ?_⟩
  obtain rfl := Option.some.inj (projects.feed.symm.trans shown)
  rw [← projects.store] at author ⊢
  exact (reachable_inv ran loaded authors).shown quiet author

/-- Alice has opened her feed when Bob, whom she follows, shares a post. -/
def bobShares : List System.Event :=
  [.screen 0 2 (.main (.userLookup 0 true)), .screen 0 2 (.main (.followsSnapshot 0 0)),
   .screen 0 2 (.main (.userLookup 0 true)), .open 1 (.share (some ⟨0, 0⟩)), .screen 1 1 (.share (.edit "hello")),
   .screen 1 1 (.share (.press "photo")), .screen 1 1 (.share (.uploaded 0 true)),
   .screen 1 1 (.share (.located 0 (some "url") true 1)), .screen 1 1 (.share (.saved 0 "p" true)),
   .screen 0 2 (.main (.photoSnapshot 1 1 2)), .screen 0 2 (.main (.likeLookup 0 true))]

theorem posts_reach_feed_bob : ∃ s t main, run System.step {} SelfFollow.aliceFollowsBob = some s ∧
    run System.step s (.open 0 .main :: bobShares) = some t ∧ feed t 0 2 = some main ∧ Shown main "p" :=
  ⟨_, _, _, rfl, rfl, rfl, (posts_reach_feed "alice" 0 SelfFollow.aliceFollowsBob bobShares _ _ _ rfl rfl rfl rfl rfl
    (by decide) (by decide)).2 _ rfl ⟨rfl, rfl, rfl, rfl⟩ "bob" (.inr ⟨_, rfl, by decide⟩) ("p", _) (.head _)⟩

end Foti.Feeds
