import Foti.MainPage.Unfollow
import Foti.System.Feeds
import Foti.System.LocalRuns

/-! Whose posts a feed can show: besides the account's own, only those of users whose follow was issued for it. -/

namespace Foti.Feeds
open Document Entries Transition Unfollow

/-- The event issues a follow of the user for the account. -/
def Asks (account user : String) (s : Local) : Local.Event → Prop
  | .issue i j n documentID => ∃ c ∈ s.issued.clients[i]?, ∃ screen ∈ c.screens[j]?, ∃ w,
      screen.pending n documentID = some (account, .follow account w) ∧ w.key = user ∧ w.value.isSome
  | _ => False

def Asked (events : List Local.Event) (account user : String) : Prop :=
  ∃ before e after s, events = before ++ e :: after ∧ run Local.step {} before = some s ∧ Asks account user s e

/-- The feed at the place is free of `v`. -/
def Free (i j : Nat) (account v : String) (s : System) : Prop :=
  ∃ f, Projects i j account s f ∧ FreeOf account v f.fs f.main

section
variable {i j : Nat} {account v : String} {s t : System} {seen : Firestore}

theorem opened_free {fs : Firestore} (attributed : fs.Attributed) (other : v ≠ account) (reads : seen.Reads fs)
    (absent : value (fs.follows account) v = none) (unfollowed : value (seen.follows account) v = none) :
    FreeOf account v fs (MainController.viewDidLoad (some account) seen) :=
  have based : Based account fs {} := ⟨attributed, List.forall_mem_nil _, List.forall_mem_nil _⟩
  have nothing : NothingOf v {} := by constructor <;> exact List.forall_mem_nil _
  refreshPosts_free based reads other absent unfollowed nothing

/-- A step of the program that reads the store keeps a feed free of `v` as long as `v` is not followed. -/
theorem follows_free {f : Feed} {H : MainController → MainEvent → Prop} (other : v ≠ account)
    (free : FreeOf account v f.fs f.main) (follows : Follows i j account H (fun fs => value (fs.follows account) v = none) f t)
    (unfollowed : value (t.fs.follows account) v = none) : Free i j account v t := by
  obtain ⟨events, g, ran, met, projects⟩ := follows
  refine ⟨g, projects, ?_⟩
  have kept := run_keeps_along (I := fun f : Feed => value (f.fs.follows account) v = none → FreeOf account v f.fs f.main)
    (fun f e f' free meets stepped still => ?_) ran met fun _ => free
  · exact kept (projects.store ▸ unfollowed)
  · cases e with
    | main e =>
      have silent : Silent account v (.main e) := trivial
      exact step_free other (free meets.2) silent stepped
    | remote w =>
      have silent : Silent account v (.remote w) := by
        intro follows
        obtain ⟨fs', applied, rfl⟩ := Feed.write_ok stepped
        cases Firestore.apply_ok applied with
        | follow written =>
          obtain ⟨rfl, rfl, followed⟩ := follows
          simp only [Function.update_self, apply_value_same written] at still
          exact followed still
        | _ => exact follows.elim
      exact step_free other (free meets) silent stepped

/-- Whatever happens at one screen, the feed is free of `v` if the feed at that screen stays so. -/
theorem free_put (free : Free i j account v s) {k l : Nat} {c : Client} {screen : Screen} (found : s.clients[k]? = some c)
    (shown : c.screens[l]? = some screen) (screen' : Screen)
    (own : ∀ main, c.currentUser = some account → screen = .main main → FreeOf account v s.fs main →
      ∃ main', screen' = .main main' ∧ FreeOf account v s.fs main') : Free i j account v (s.put k c l screen') := by
  obtain ⟨f, projects, free⟩ := free
  by_cases place : k = i ∧ l = j
  · obtain ⟨rfl, rfl⟩ := place
    obtain ⟨c', listed, signed, main⟩ := projects.shown
    obtain rfl := Option.some.inj (found.symm.trans listed)
    rw [projects.store] at free
    obtain ⟨main', rfl, free'⟩ := own f.main signed (Option.some.inj (shown.symm.trans main)) free
    exact ⟨_, own_projected projects found main', free'⟩
  · exact ⟨f, put_projected projects screen' found place, free⟩

theorem put_free (free : Free i j account v s) (other : v ≠ account) (reads : seen.Reads s.fs)
    (unfollowed : value (seen.follows account) v = none) {k l : Nat} {c : Client} {screen screen' : Screen}
    {e : ScreenEvent} {write : Option (String × ServerWrite)} (found : s.clients[k]? = some c)
    (shown : c.screens[l]? = some screen) (handled : Screen.Handled c.currentUser seen screen e screen' write) :
    Free i j account v (s.put k c l screen') := by
  refine free_put free found shown screen' fun main signed same free => ?_
  subst same
  cases handled with
  | @main _ main' _ _ outcome =>
    rw [signed] at outcome
    exact ⟨main', rfl, handled_free free reads unfollowed other outcome⟩

theorem write_free (free : Free i j account v s) {sender : String} {w : ServerWrite} (silent : ¬ Unfollow.Follows account v w)
    (written : s.write sender w = some t) : Free i j account v t := by
  obtain ⟨f, projects, free⟩ := free
  obtain ⟨g, reached, projects'⟩ := write_projected projects written
  obtain ⟨fs', applied, rfl⟩ := Feed.write_ok reached
  exact ⟨_, projects', written_free free silent (Firestore.apply_ok applied)⟩

end

/-! ### Steps on local documents -/

section
variable {i j : Nat} {account v : String} {s t : Local} {e : Local.Event}

theorem accepted_free {sender : String} {w : ServerWrite} (free : Free i j account v s.issued)
    (never : (account, v) ∉ s.followed) (accepted : Local.Accepted s sender w t) : Free i j account v t.issued := by
  cases accepted with
  | shared _ _ known written =>
    refine write_free free (fun follows => never ?_) written
    cases w with
    | follow account' write =>
      obtain ⟨rfl, rfl, followed⟩ := follows
      exact known (Option.isSome_iff_ne_none.mpr followed)
    | _ => exact follows.elim
  | own => exact free

theorem heard_free {d : String × Dict} (free : Free i j account v s.issued) {k l : Nat} {c : Client} {screen screen' : Screen}
    (found : s.issued.clients[k]? = some c) (shown : c.screens[l]? = some screen) (heard : Local.Heard s d screen screen') :
    Free i j account v (s.issued.put k c l screen') := by
  refine free_put free found shown screen' fun main signed same free => ?_
  subst same
  cases heard with
  | @feed main l' listener listening issued =>
    have at_place := List.mem_of_getElem? listening
    have stored := forall_mem_concat (free.base.stored listener at_place) issued
    exact ⟨_, rfl, { free with
      base := { free.base with stored := forall_mem_set free.base.stored stored }
      listeners := forall_mem_set free.listeners (free.listeners listener at_place) }⟩

theorem version_free (free : Free i j account v s.issued) (never : (account, v) ∉ s.followed) {k l n : Nat} {c : Client}
    {main : MainController} {listener : FollowsListener} (found : s.issued.clients[k]? = some c)
    (shown : c.screens[l]? = some (.main main)) (listening : main.followsListeners[n]? = some listener)
    (users : Option (List String)) : Free i j account v (s.issued.put k c l (.main { main with
      followsListeners := main.followsListeners.set n
        { listener with pending := listener.pending ++ [s.version listener.topic users] } })) := by
  refine free_put free found shown _ fun main' signed same free => ?_
  obtain rfl := Screen.main.inj same
  have at_place := List.mem_of_getElem? listening
  have topic := free.base.topics listener at_place
  have unfollowed : value (s.version listener.topic users) v = none := by
    rw [topic]
    by_contra held
    obtain ⟨x, held⟩ := Option.ne_none_iff_exists'.mp held
    exact never (Local.version_value held).2
  have versions := forall_mem_concat (free.versions listener at_place) unfollowed
  exact ⟨_, rfl, { free with
    base := { free.base with topics := forall_mem_set free.base.topics topic }
    versions := forall_mem_set free.versions versions }⟩

def LocalStays (i : Nat) (account : String) : Local.Event → Prop
  | .program e _ => Stays i account e
  | _ => True

instance (i : Nat) (account : String) (e : Local.Event) : Decidable (LocalStays i account e) := by
  unfold LocalStays; split <;> infer_instance

theorem absent_of_never {fs : Firestore} (followed : (value (fs.follows account) v).isSome → (account, v) ∈ s.followed)
    (never : (account, v) ∉ s.followed) : value (fs.follows account) v = none := by
  by_contra held
  exact never (followed (Option.isSome_iff_ne_none.mpr held))

theorem made_free {fs : Firestore} {w : ServerWrite} {issuers : List (String × String)} (free : Free i j account v s.issued)
    (own : w.Shared = false) (applied : Firestore.Applied s.issued.fs w fs) :
    Free i j account v { s.issued with fs, issuers } := by
  obtain ⟨f, projects, free⟩ := free
  rw [projects.store] at free
  refine ⟨⟨fs, f.main⟩, ⟨rfl, projects.shown⟩, { free with
    base := ⟨applied.attributed free.base.attributed, free.base.topics,
      fun l hl d hd => (applied_grows applied).posts l.topic d (free.base.stored l hl d hd)⟩
    unfollowed := ?_ }⟩
  rw [(Local.own_kept own applied).2]
  exact free.unfollowed

/-- No step brings a post of `v` into a feed whose account has not issued a follow of `v`. -/
theorem local_step_free (inv : Local.Inv s) (other : v ≠ account) (free : Free i j account v s.issued)
    (never : (account, v) ∉ s.followed) (stays : LocalStays i account e) (stepped : s.step e = some t) :
    Free i j account v t.issued := by
  have absent := absent_of_never (inv.followed account v) never
  have unread : ∀ cache e, value ((s.read cache e).follows account) v = none :=
    fun cache e => absent_of_never (Local.read_follows inv) never
  cases Local.step_ok stepped with
  | @session e cache t issued _ accepted ran same =>
    obtain ⟨f, projects, free⟩ := free
    have follows := step_projected (K := fun fs => value (fs.follows account) v = none) projects
      ⟨stays, at_feed_any i j s.issued e, absent⟩ ran
    exact follows_free other free follows (same ▸ absent)
  | @opened k opening cache c found =>
    obtain ⟨f, projects, free⟩ := free
    refine ⟨f, client_projected projects found rfl rfl (fun own => ?_) fun _ shown => ?_, free⟩
    · obtain ⟨c', listed, signed, _⟩ := projects.shown
      subst own
      exact Option.some.inj (found.symm.trans listed) ▸ signed
    · rw [List.getElem?_append_left (List.getElem?_eq_some_iff.mp shown).1, shown]
  | @silent k l e cache c screen screen' found shown handled =>
    exact put_free free other (Local.read_sees inv cache e).toReads (unread cache e) found shown handled
  | @wrote k l e cache c screen screen' sender w t found shown handled accepted =>
    have put := put_free free other (Local.read_sees inv cache e).toReads (unread cache e) found shown handled
    exact accepted_free (s := { s with issued := s.issued.put k c l screen' }) put never accepted
  | made _ _ _ own _ applied => exact made_free free own applied
  | asked | refused => exact free
  | raised found shown _ heard => exact heard_free free found shown heard
  | follows found shown listening => exact version_free free never found shown listening _

/-- Only the issue of a follow adds to the follows that were issued. -/
theorem step_followed {user : String} (stepped : s.step e = some t) (added : (account, user) ∈ t.followed) :
    (account, user) ∈ s.followed ∨ Asks account user s e := by
  cases Local.step_ok stepped with
  | session _ accepted =>
    rcases accepted with rfl | ⟨_, _, _, accepted⟩
    · exact .inl added
    · exact .inl (Local.accepted_followed accepted ▸ added)
  | wrote _ _ _ accepted => exact .inl (Local.accepted_followed accepted ▸ added)
  | @asked k l n documentID c screen sender w calls found shown pending =>
    refine (List.mem_append.mp added).symm.imp_right fun new => ?_
    have waits := Local.pending_ok pending
    cases waits with
    | @follow c tap whole =>
      obtain ⟨follows, same⟩ := List.mem_ite_nil_right.mp new
      obtain ⟨rfl, rfl⟩ := Prod.mk.inj (List.mem_singleton.mp same)
      exact ⟨_, found, _, shown, _, pending, rfl, follows⟩
    | _ => cases new
  | _ => exact .inl added

theorem followed_grows {user : String} (stepped : s.step e = some t) (old : (account, user) ∈ s.followed) :
    (account, user) ∈ t.followed := by
  cases Local.step_ok stepped with
  | session _ accepted =>
    rcases accepted with rfl | ⟨_, _, _, accepted⟩
    · exact old
    · exact (Local.accepted_followed accepted).symm ▸ old
  | wrote _ _ _ accepted => exact (Local.accepted_followed accepted).symm ▸ old
  | asked => exact List.mem_append_right _ old
  | _ => exact old

theorem run_asked {events : List Local.Event} (h : run Local.step {} events = some t) {user : String}
    (followed : (account, user) ∈ t.followed) : Asked events account user := by
  let I (past : List Local.Event) (s : Local) : Prop :=
    run Local.step {} past = some s ∧ ((account, user) ∈ s.followed → Asked past account user)
  have keeps : ∀ past s e t, I past s → Local.step s e = some t → I (past ++ [e]) t := by
    rintro past s e t ⟨ran, asked⟩ stepped
    refine ⟨run_concat_of ran stepped, fun added => ?_⟩
    rcases step_followed stepped added with old | asks
    · obtain ⟨before, e', after, m, rfl, reached, asks⟩ := asked old
      exact ⟨before, e', after ++ [e], m, by simp, reached, asks⟩
    · exact ⟨past, e, [], s, rfl, ran, asks⟩
  exact (run_history keeps h ⟨rfl, fun added => (List.not_mem_nil added).elim⟩ : I ([] ++ events) t).2 followed

theorem local_opened_free {cache : Cache} {c : Client} (inv : Local.Inv s) (other : v ≠ account)
    (never : (account, v) ∉ s.followed) (found : s.issued.clients[i]? = some c) (signed : c.currentUser = some account)
    (opened : s.step (.program (.open i .main) cache) = some t) : Free i c.screens.length account v t.issued := by
  obtain ⟨c', found', same⟩ := Option.bind_eq_some_iff.mp opened
  obtain rfl := Option.some.inj (found.symm.trans found')
  obtain rfl := Option.some.inj same
  have attributed : s.issued.fs.Attributed :=
    ⟨inv.ok.store.users, fun author d hd => (inv.ok.store.posts author d hd).1.1⟩
  exact ⟨_, shows_opened found signed, opened_free attributed other (Local.seen_sees inv cache).toReads
    (absent_of_never (inv.followed account v) never) (absent_of_never (Local.seen_follows inv) never)⟩

theorem run_free {j : Nat} {events : List Local.Event} (h : run Local.step s events = some t) (inv : Local.Inv s)
    (other : v ≠ account) (stays : ∀ e ∈ events, LocalStays i account e) (free : Free i j account v s.issued) :
    (account, v) ∉ t.followed → Free i j account v t.issued := by
  have keeps : ∀ s e t, (Local.Inv s ∧ ((account, v) ∉ s.followed → Free i j account v s.issued)) →
      LocalStays i account e → s.step e = some t →
      Local.Inv t ∧ ((account, v) ∉ t.followed → Free i j account v t.issued) := by
    rintro s e t ⟨inv, free⟩ stays stepped
    refine ⟨Local.step_inv inv stepped, fun never => ?_⟩
    have earlier : (account, v) ∉ s.followed := fun added => never (followed_grows stepped added)
    exact local_step_free inv other (free earlier) earlier stays stepped
  exact (run_keeps_along keeps h (along_of_forall fun e he _ => stays e he) ⟨inv, fun _ => free⟩).2

end

/-- In every run in which local documents are shown too, each post in a feed is by the account itself or by
a user whose follow was issued for it, whether or not the server has the follow. -/
theorem feeds_show_followed (account : String) (i : Nat) (cache : Cache) (before after : List Local.Event) (s t : Local)
    (c : Client) (reached : run Local.step {} before = some s) (found : s.issued.clients[i]? = some c)
    (signed : c.currentUser = some account)
    (h : run Local.step s (.program (.open i .main) cache :: after) = some t)
    (stays : ∀ e ∈ after, LocalStays i account e) (main : MainController)
    (shown : feed t.issued i c.screens.length = some main) (v : String) (post : Post) (listed : post ∈ main.posts)
    (author : post.userID = some v) :
    v = account ∨ Asked (before ++ .program (.open i .main) cache :: after) account v := by
  by_contra neither
  obtain ⟨other, unasked⟩ := not_or.mp neither
  have never : (account, v) ∉ t.followed := fun followed => unasked (run_asked (run_append_of reached h) followed)
  have inv := Local.run_inv reached
  have earlier : (account, v) ∉ s.followed := fun added =>
    never (run_keeps (I := fun s => (account, v) ∈ s.followed) (fun _ _ _ old stepped => followed_grows stepped old) h added)
  obtain ⟨m, opened, ran⟩ := run_cons_ok h
  have start := local_opened_free inv other earlier found signed opened
  obtain ⟨f, projects, free⟩ := run_free ran (Local.step_inv inv opened) other stays start never
  obtain rfl := Option.some.inj (projects.feed.symm.trans shown)
  exact free.posts post listed author

/-- The follow waits for the server when Alice opens her feed. -/
def aliceAsks : List Local.Event :=
  (SelfFollow.aliceFollowsBob.take 19).flatMap Local.locally ++ [.issue 0 1 0 ""]

/-- Her feed hears of the follow and shows Bob's post before the server refuses the follow. -/
def bobSharesUnfollowed : List Local.Event :=
  (bobShares.take 9).flatMap Local.locally ++ .raise 0 2 1 "p" :: (bobShares.drop 9).flatMap Local.locally ++
    [.program (.screen 0 1 (.profile (.follow (.write 0 false)))) {}]

theorem feeds_show_followed_bob : ∃ s t main post, run Local.step {} aliceAsks = some s ∧
    run Local.step s (.program (.open 0 .main) { follows := some (some ["bob"]) } :: bobSharesUnfollowed) = some t ∧
    feed t.issued 0 2 = some main ∧ post ∈ main.posts ∧ t.server.follows "alice" = none ∧ ("bob" = "alice" ∨
      Asked (aliceAsks ++ .program (.open 0 .main) { follows := some (some ["bob"]) } :: bobSharesUnfollowed) "alice" "bob") :=
  ⟨_, _, _, _, rfl, rfl, rfl, .head _, rfl, feeds_show_followed "alice" 0 { follows := some (some ["bob"]) } aliceAsks
    bobSharesUnfollowed _ _ _ rfl rfl rfl rfl (by decide) _ rfl "bob" _ (.head _) rfl⟩

end Foti.Feeds
