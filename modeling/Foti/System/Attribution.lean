import Foti.System.Clients
import Foti.System.ScreenInvariants

/-!
The shared store stays well formed in every run of the program, and every screen shows each post and
comment with the user that made it.
-/

namespace Foti.Attribution
open Document Entries Listening Transition MainController

/-! ### Screens -/

def ScreenOk (fs : Firestore) : Screen → Prop
  | .register _ => True
  | .share c => ShareOk c
  | .main c => MainOk fs c
  | .comments c => CommentsOk fs c
  | .profile c => ProfileOk fs c

section Screens
variable {seen fs fs' : Firestore} {issuers : List (String × String)} {currentUser : Option String}

theorem screen_ok {screen screen' : Screen} {e : ScreenEvent} {write : Option (String × ServerWrite)}
    (store : WellFormed fs issuers) (sees : Sees seen fs) (named : ∀ uid, currentUser = some uid → uid ≠ "")
    (h : ScreenOk fs screen) (handled : Screen.Handled currentUser seen screen e screen' write) :
    ScreenOk fs screen' ∧ AllChecked fs write := by
  cases handled with
  | share outcome => exact share_ok h outcome
  | @main c c' e w outcome =>
    refine ⟨main_ok h sees.posts outcome, ?_⟩
    cases w with
    | none => exact none_checked fs
    | some w => exact some_checked (main_checked h outcome _)
  | comments outcome => exact comments_ok store sees named h outcome
  | profile outcome => exact profile_ok store sees h outcome

theorem opened_ok (currentUser : Option String) (opening : Opening)
    (comments : ∀ postID, ∀ d ∈ seen.addingComments postID, d ∈ fs.addingComments postID) :
    ScreenOk fs (Screen.viewDidLoad currentUser seen opening) := by
  cases opening with
  | register => trivial
  | share chosenPhoto => exact ⟨fun _ ha => (List.not_mem_nil ha).elim⟩
  | main =>
    have empty : MainOk fs {} := by constructor <;> exact fun _ h => (List.not_mem_nil h).elim
    cases currentUser with
    | none => exact empty
    | some account => exact { empty with }
  | comments chosenPost =>
    have empty : CommentsOk fs { chosenPost } := by constructor <;> exact fun _ h => (List.not_mem_nil h).elim
    simp only [ScreenOk, Screen.viewDidLoad, CommentController.viewDidLoad]
    split
    · exact empty
    · split
      · exact { empty with }
      · refine { empty with pending := fun l hl d hd => ?_ }
        obtain rfl := List.mem_singleton.mp hl
        exact comments _ d hd
  | profile userID =>
    have empty : ProfileOk fs {} :=
      ⟨fun _ same => (by cases same), fun waits => Bool.noConfusion waits, fun _ h => (List.not_mem_nil h).elim,
        fun _ h => (List.not_mem_nil h).elim, fun _ h => (List.not_mem_nil h).elim,
        fun _ h => (List.not_mem_nil h).elim, fun _ h => (List.not_mem_nil h).elim⟩
    simp only [ScreenOk, Screen.viewDidLoad, UserProfileController.viewDidLoad]
    split
    · exact { empty with }
    · exact { empty with unlistened := fun _ => rfl }

theorem ofDocument_grows (grows : Grows fs fs') {p : Post} (h : OfDocument fs p) : OfDocument fs' p :=
  h.imp fun d hd => ⟨grows.posts _ d hd.1, hd.2⟩

theorem screen_grows (grows : Grows fs fs') {screen : Screen} (h : ScreenOk fs screen) : ScreenOk fs' screen := by
  cases screen with
  | register attempts => trivial
  | share c => exact h
  | main c =>
    exact { h with
      pending := fun l hl d hd => grows.posts _ d (h.pending l hl d hd)
      likes := fun q hq => ofDocument_grows grows (h.likes q hq)
      posts := fun p hp => ofDocument_grows grows (h.posts p hp)
      calls := fun call hcall => (h.calls call hcall).imp_left (ofDocument_grows grows) }
  | comments c =>
    exact { h with
      pending := fun l hl d hd => grows.comments _ d (h.pending l hl d hd)
      lookups := fun q hq => (h.lookups q hq).imp fun postID => .imp fun d hd => ⟨grows.comments _ d hd.1, hd.2⟩
      comments := fun x hx => (h.comments x hx).imp fun postID => .imp fun d hd => ⟨grows.comments _ d hd.1, hd.2⟩ }
  | profile c =>
    exact { h with
      user := fun user shown => grows.users _ (h.user user shown)
      pending := fun l hl d hd => grows.posts _ d (h.pending l hl d hd)
      posts := fun p hp => ofDocument_grows grows (h.posts p hp)
      headers := fun header hh => (h.headers header hh).imp_right fun known user shown => grows.users _ (known user shown)
      taps := fun tap htap => (h.taps tap htap).imp_right (.imp_right (grows.users _)) }

theorem notify_ok {screen : Screen} {w : ServerWrite} (applied : Firestore.Applied fs w fs') (h : ScreenOk fs screen) :
    ScreenOk fs' (screen.notify fs fs' w) := by
  have grown := screen_grows (applied_grows applied) h
  cases screen with
  | register attempts => trivial
  | share c => exact grown
  | main c =>
    cases w with
    | photoPost author documentID data =>
      have stored := (applied.photoPosts_mem author _).mpr (.inr ⟨rfl, rfl⟩)
      refine { grown with users := fun l hl => ?_, pending := ?_ }
      · obtain ⟨m, hm, topic, closure, _⟩ := publish_mem hl
        rw [topic, closure]
        exact grown.users m hm
      · exact publish_pending (P := fun topic d => d ∈ fs'.photoPosts topic) grown.pending stored
    | follow accountUserID write =>
      simp only [ScreenOk, Screen.notify, MainController.notify]
      split
      · exact grown
      · exact { grown with }
    | _ => exact grown
  | comments c =>
    cases w with
    | comment documentID data =>
      have stored := (comments_mem applied data.postID _).mpr (.inr ⟨rfl, rfl⟩)
      exact { grown with
        pending := publish_pending (P := fun topic d => d ∈ fs'.addingComments topic) grown.pending stored }
    | _ => exact grown
  | profile c =>
    cases w with
    | photoPost author documentID data =>
      have stored := (applied.photoPosts_mem author _).mpr (.inr ⟨rfl, rfl⟩)
      refine { grown with
        unlistened := fun waits => ?_
        topics := fun l hl => ?_
        pending := publish_pending (P := fun topic d => d ∈ fs'.photoPosts topic) grown.pending stored }
      · simp only [UserProfileController.notify, grown.unlistened waits]
        rfl
      · obtain ⟨m, hm, topic, _⟩ := publish_mem hl
        exact (grown.topics m hm).imp fun user shown => ⟨shown.1, topic.trans shown.2⟩
    | _ => exact grown

end Screens

/-! ### The whole program -/

def ClientOk (fs : Firestore) (c : Client) : Prop :=
  (∀ uid, c.currentUser = some uid → uid ≠ "") ∧ ∀ screen ∈ c.screens, ScreenOk fs screen

structure SystemOk (s : System) : Prop where
  store : WellFormed s.fs s.issuers
  accounts : ∀ acc ∈ s.accounts, acc.uid ≠ ""
  clients : ∀ c ∈ s.clients, ClientOk s.fs c

theorem document_userID {a : SignUpAttempt} {uid : String} {data : Dict} (account : a.account = some uid)
    (document : a.document = some data) : asString (data.lookup "UserID") = some uid := by
  unfold SignUpAttempt.document at document
  split at document
  · rename_i saved
    simp only [SignUpAttempt.account, saved, Option.some.injEq] at account
    rw [← Option.some.inj document, ← account, SignUpAttempt.addData_userID]
  · cases document

theorem signUp_users {s t : SignUp.State} (h : SignUp.Effect s t) (u : String) :
    t.users u = s.users u ∨ ∃ data, t.users u = some data ∧ asString (data.lookup "UserID") = some u := by
  cases h with
  | same h => exact .inl (by rw [h])
  | pressed a _ h => exact .inl (by rw [h])
  | created n a a' uid _ _ _ _ _ _ h => exact .inl (by rw [h]; rfl)
  | refused n a a' _ _ _ h => exact .inl (by rw [h]; rfl)
  | moved n a a' uid _ _ after _ _ _ users =>
    by_cases own : u = uid
    · subst own
      cases document : a'.document with
      | none =>
        rw [if_pos document] at users
        exact .inl users.1
      | some data =>
        rw [if_neg (by simp [document]), document] at users
        exact .inr ⟨data, users.1, document_userID after document⟩
    · exact .inl (users.2 u own)

theorem signUp_accounts {s t : SignUp.State} {e : SignUp.Event} (h : SignUp.step s e = some t) (named : System.Named e)
    (old : ∀ acc ∈ s.accounts, acc.uid ≠ "") : ∀ acc ∈ t.accounts, acc.uid ≠ "" := by
  cases SignUp.step_ok h with
  | created => exact List.forall_mem_cons.mpr ⟨named, old⟩
  | _ => exact old

theorem clients_grow {fs fs' : Firestore} {clients : List Client} (grows : Grows fs fs')
    (h : ∀ c ∈ clients, ClientOk fs c) : ∀ c ∈ clients, ClientOk fs' c :=
  fun c hc => (h c hc).imp_right fun screens screen hs => screen_grows grows (screens screen hs)

theorem register_ok {s : System} {t : SignUp.State} {i j : Nat} {c : Client} {attempts : List SignUpAttempt}
    {e : SignUp.Event} (h : SystemOk s) (found : s.clients[i]? = some c) (named : System.Named e)
    (stepped : SignUp.step ⟨s.accounts, s.fs.users, attempts⟩ e = some t) :
    SystemOk { s with
      accounts := t.accounts
      fs := { s.fs with users := t.users }
      clients := s.clients.set i (System.signedUp { c with screens := c.screens.set j (.register t.attempts) } e) } := by
  have users := signUp_users (SignUp.step_effect stepped)
  have grows : Grows s.fs { s.fs with users := t.users } := by
    refine ⟨fun u present => ?_, fun _ _ hd => hd, fun _ _ hd => hd⟩
    rcases users u with same | ⟨data, new, _⟩
    · exact (congrArg Option.isSome same).trans present
    · exact congrArg Option.isSome new
  have store : WellFormed { s.fs with users := t.users } s.issuers := by
    refine user_wellFormed h.store grows (fun u data found => ?_) rfl
    rcases users u with same | ⟨data', new, uid⟩
    · exact .inl (same.symm.trans found)
    · exact .inr (Option.some.inj (new.symm.trans found) ▸ uid)
  have clients := clients_grow grows h.clients
  have client := clients c (List.mem_of_getElem? found)
  have screens : ∀ screen ∈ c.screens.set j (.register t.attempts), ScreenOk { s.fs with users := t.users } screen :=
    forall_mem_set client.2 trivial
  refine ⟨store, signUp_accounts stepped named h.accounts, forall_mem_set clients ?_⟩
  unfold System.signedUp
  split
  · exact ⟨fun uid same => Option.some.inj same ▸ named, screens⟩
  · exact ⟨client.1, screens⟩

theorem write_ok {s t : System} {sender : String} {w : ServerWrite} (h : SystemOk s) (checked : Checked s.fs sender w)
    (written : s.write sender w = some t) : SystemOk t := by
  obtain ⟨fs, _, applied, rfl⟩ := System.write_ok written
  refine ⟨written_wellFormed h.store checked applied, h.accounts, fun c hc => ?_⟩
  obtain ⟨old, hold, rfl⟩ := List.mem_map.mp hc
  refine ⟨(h.clients old hold).1, fun screen hscreen => ?_⟩
  obtain ⟨before, hbefore, rfl⟩ := List.mem_map.mp hscreen
  exact notify_ok applied ((h.clients old hold).2 before hbefore)

theorem put_ok {s : System} {i j : Nat} {c : Client} {screen screen' : Screen} {e : ScreenEvent}
    {write : Option (String × ServerWrite)} {seen : Firestore} (h : SystemOk s) (sees : Sees seen s.fs)
    (found : s.clients[i]? = some c) (shown : c.screens[j]? = some screen)
    (handled : Screen.Handled c.currentUser seen screen e screen' write) :
    SystemOk (s.put i c j screen') ∧ AllChecked s.fs write := by
  have client := h.clients c (List.mem_of_getElem? found)
  obtain ⟨kept, checked⟩ := screen_ok h.store sees client.1 (client.2 screen (List.mem_of_getElem? shown)) handled
  exact ⟨⟨h.store, h.accounts, forall_mem_set h.clients ⟨client.1, forall_mem_set client.2 kept⟩⟩, checked⟩

theorem step_ok {s t : System} {e : System.Event} (h : SystemOk s) (stepped : s.step e = some t) : SystemOk t := by
  cases System.step_ok stepped with
  | launch =>
    have fresh : ClientOk s.fs {} := ⟨fun _ same => (by cases same), List.forall_mem_nil _⟩
    exact ⟨h.store, h.accounts, forall_mem_concat h.clients fresh⟩
  | @signIn i uid c found known =>
    obtain ⟨acc, hacc, rfl⟩ := List.mem_map.mp known
    have client := h.clients c (List.mem_of_getElem? found)
    exact ⟨h.store, h.accounts,
      forall_mem_set h.clients ⟨fun uid same => Option.some.inj same ▸ h.accounts acc hacc, client.2⟩⟩
  | @signOut i c found =>
    have client := h.clients c (List.mem_of_getElem? found)
    exact ⟨h.store, h.accounts, forall_mem_set h.clients ⟨fun _ same => (by cases same), client.2⟩⟩
  | @opened i opening c found =>
    have client := h.clients c (List.mem_of_getElem? found)
    have screens := forall_mem_concat client.2 (opened_ok c.currentUser opening fun _ _ hd => hd)
    exact ⟨h.store, h.accounts, forall_mem_set h.clients ⟨client.1, screens⟩⟩
  | register found named effect => exact register_ok h found named effect
  | silent found shown handled => exact (put_ok h h.store.sees found shown handled).1
  | @wrote i j e c screen screen' sender w t found shown handled written =>
    obtain ⟨put, checked⟩ := put_ok h h.store.sees found shown handled
    exact write_ok put (checked sender w rfl) written

theorem initial_ok : SystemOk {} := by
  refine ⟨⟨?_, fun _ => List.forall_mem_nil _, ?_, ?_, fun _ => List.forall_mem_nil _⟩, List.forall_mem_nil _,
    List.forall_mem_nil _⟩
  · exact fun _ _ found => by cases found
  · exact fun _ _ _ held => by cases held
  · exact fun _ _ _ held => by cases held

/-- The post is shown with the account that issued its document. -/
def Shown (issuers : List (String × String)) (p : Post) : Prop :=
  p.userID = some p.user.userID ∧
    ∃ documentID, (documentID, p.user.userID) ∈ issuers ∧ ∀ id, p.id = some id → id = documentID

/-- What a screen shows carries its author, and no cast of a follow has trapped. -/
def Attributed (issuers : List (String × String)) : Screen → Prop
  | .main c => ∀ p ∈ c.posts, Shown issuers p
  | .profile c => (∀ p ∈ c.posts, Shown issuers p) ∧ ∀ header ∈ c.headers, header.crashed = false
  | .comments c => ∀ x ∈ c.comments, x.user.userID = x.userID ∧ ∃ documentID, (documentID, x.userID) ∈ issuers
  | _ => True

theorem shown_of_document {fs : Firestore} {issuers : List (String × String)} (store : WellFormed fs issuers) {p : Post}
    (h : OfDocument fs p) : Shown issuers p := by
  obtain ⟨d, hd, ⟨now, same⟩, ids⟩ := h
  obtain ⟨form, issued⟩ := store.posts _ d hd
  exact ⟨(congrArg Post.userID same).trans form.1, d.1, issued, ids⟩

theorem attributed_of_ok {fs : Firestore} {issuers : List (String × String)} (store : WellFormed fs issuers) {screen : Screen}
    (h : ScreenOk fs screen) : Attributed issuers screen := by
  cases screen with
  | register attempts => trivial
  | share c => trivial
  | main c => exact fun p hp => shown_of_document store (h.posts p hp)
  | profile c => exact ⟨fun p hp => shown_of_document store (h.posts p hp), fun header hh => (h.headers header hh).1⟩
  | comments c =>
    intro x hx
    obtain ⟨postID, d, hd, same, author⟩ := h.comments x hx
    obtain ⟨sender, form, _, issued⟩ := store.comments postID d hd
    have sent := Option.some.inj (form.1.symm.trans author)
    have own : x.userID = sender := by
      rw [same]
      simp [Comment.init, form.1]
    exact ⟨sent.symm.trans own.symm, d.1, own ▸ issued⟩

/-- In every run of the program from an empty store, the store is well formed, and every screen of every
client shows each post and comment with the account that made it. -/
theorem program_attributes (events : List System.Event) (t : System) (h : run System.step {} events = some t) :
    WellFormed t.fs t.issuers ∧ ∀ c ∈ t.clients, ∀ screen ∈ c.screens, Attributed t.issuers screen := by
  have ok := run_keeps (fun _ _ _ => step_ok) h initial_ok
  exact ⟨ok.store, fun c hc screen hs => attributed_of_ok ok.store ((ok.clients c hc).2 screen hs)⟩

def aliceComments : List System.Event :=
  [.launch, .open 0 .register, .register 0 0 (.press (some "a@b") (some "alice") (some "secret")),
   .register 0 0 (.created 0 (some "alice")), .register 0 0 (.uploaded 0 true),
   .register 0 0 (.located 0 (some "url") true), .register 0 0 (.stored 0 true),
   .open 0 .main, .screen 0 1 (.main (.userLookup 0 true)),
   .open 0 (.share (some ⟨0, 0⟩)), .screen 0 2 (.share (.edit "hello")), .screen 0 2 (.share (.press "photo")),
   .screen 0 2 (.share (.uploaded 0 true)), .screen 0 2 (.share (.located 0 (some "url") true 1)),
   .screen 0 2 (.share (.saved 0 "p" true)), .screen 0 1 (.main (.photoSnapshot 0 1 2)),
   .screen 0 1 (.main (.likeLookup 0 true)), .open 0 (.comments (Likes.feedOf "p").head?),
   .screen 0 3 (.comments (.edit "nice")), .screen 0 3 (.comments (.send 0)),
   .screen 0 3 (.comments (.write 0 "q" true)), .screen 0 3 (.comments (.snapshot 0 1)),
   .screen 0 3 (.comments (.userLookup 0 true))]

theorem program_attributes_alice : ∃ t, run System.step {} aliceComments = some t ∧ t.issuers = [("q", "alice"), ("p", "alice")] ∧
    WellFormed t.fs t.issuers ∧ ∀ c ∈ t.clients, ∀ screen ∈ c.screens, Attributed t.issuers screen :=
  ⟨_, rfl, rfl, program_attributes aliceComments _ rfl⟩

end Foti.Attribution
