import Foti.System.LocalRuns

/-!
What the documents of the store refer to. The program writes likes and comments under a post's ID and
users' data under their uids without asking whether these exist. In its runs they have always been issued.
-/

namespace Foti.References
open Document Entries Transition

def Account (s : System) (uid : String) : Prop := uid ∈ s.accounts.map (·.uid)

def Stored (fs : Firestore) (postID : String) : Prop := ∃ author, ∃ d ∈ fs.photoPosts author, d.1 = postID

/-- Every account, post and followed user that a document names exists. -/
structure Resolved (account : String → Prop) (fs : Firestore) : Prop where
  users : ∀ uid, (fs.users uid).isSome → account uid
  posts : ∀ author, fs.photoPosts author ≠ [] → account author
  comments : ∀ postID, ∀ d ∈ fs.addingComments postID,
    Stored fs postID ∧ ∃ uid, asString (d.2.lookup "UserID") = some uid ∧ account uid
  likes : ∀ postID, (fs.likes postID).isSome → Stored fs postID
  likers : ∀ postID uid, (value (fs.likes postID) uid).isSome → account uid
  follows : ∀ uid, (fs.follows uid).isSome → account uid
  followed : ∀ uid user, (value (fs.follows uid) user).isSome → (fs.users user).isSome

def feed : Screen → List Post
  | .main c => c.posts
  | _ => []

/-- The Comment button of a cell opens the comments of the post it shows, one of the client's feed. -/
def FromFeed (s : System) : System.Event → Prop
  | .open i (.comments chosenPost) => ∃ c ∈ s.clients[i]?, ∃ post ∈ c.screens.flatMap feed, chosenPost = some post
  | _ => True

instance (s : System) (e : System.Event) : Decidable (FromFeed s e) := by unfold FromFeed; split <;> infer_instance

/-- The accounts and posts that exist. -/
def existing (s : System) : Scope := ⟨Account s, Stored s.fs, fun _ => True⟩

structure Inv (s : System) : Prop where
  ok : Attribution.SystemOk s
  signUps : SignUps.Inv s
  clients : Scope.HasClients (fun _ => existing s) s
  resolved : Resolved (Account s) s.fs

section
variable {s t : System} {e : System.Event}

theorem signUp_grows {u v : SignUp.State} {e : SignUp.Event} (h : SignUp.step u e = some v) :
    ∀ acc ∈ u.accounts, acc ∈ v.accounts := by
  cases SignUp.step_effect h with
  | same same => exact same ▸ fun _ hacc => hacc
  | pressed _ _ same => exact same ▸ fun _ hacc => hacc
  | created _ _ _ _ _ _ _ _ _ _ same => exact same ▸ fun _ hacc => List.mem_cons_of_mem _ hacc
  | refused _ _ _ _ _ _ same => exact same ▸ fun _ hacc => hacc
  | moved _ _ _ _ _ _ _ _ _ same => exact same ▸ fun _ hacc => hacc

theorem accounts_grow (h : s.step e = some t) : ∀ acc ∈ s.accounts, acc ∈ t.accounts := by
  cases System.step_ok h with
  | register _ _ stepped => exact signUp_grows stepped
  | wrote _ _ _ written =>
    obtain ⟨_, _, _, rfl⟩ := System.write_ok written
    exact fun _ hacc => hacc
  | _ => exact fun _ hacc => hacc

theorem account_grows {uid : String} (grow : ∀ acc ∈ s.accounts, acc ∈ t.accounts) (known : Account s uid) : Account t uid := by
  obtain ⟨acc, hacc, same⟩ := List.mem_map.mp known
  exact List.mem_map.mpr ⟨acc, grow acc hacc, same⟩

/-- Who is signed in has an account. -/
theorem signsIn_account {i : Nat} {uid : String} (h : s.step e = some t) (signs : e.SignsIn i uid) : Account t uid := by
  rcases signs with rfl | ⟨j, n, rfl⟩
  · obtain ⟨c, _, h⟩ := Option.bind_eq_some_iff.mp h
    obtain ⟨known, same⟩ := Option.ite_none_right_eq_some.mp h
    exact Option.some.inj same ▸ known
  · obtain ⟨c, attempts, u, _, _, _, registered, rfl⟩ := SignUps.register_ok h
    obtain ⟨a, _, registered⟩ := Option.bind_eq_some_iff.mp registered
    obtain ⟨a', _, registered⟩ := Option.bind_eq_some_iff.mp registered
    obtain ⟨_, same⟩ := Option.ite_none_right_eq_some.mp registered
    exact Option.some.inj same ▸ List.mem_cons_self

theorem stored_grows {fs fs' : Firestore} (grows : Grows fs fs') {postID : String} (h : Stored fs postID) :
    Stored fs' postID := h.imp fun author => .imp fun d hd => ⟨grows.posts author d hd.1, hd.2⟩

theorem isSome_written {write : Write String Value} {d t : Doc String Value} {P : String → Prop}
    (applied : write.apply d = some t) (h : ∀ key, (value d key).isSome → P key) (own : P write.key) :
    ∀ key, (value t key).isSome → P key := by
  intro key present
  obtain ⟨v, held⟩ := Option.isSome_iff_exists.mp present
  have known : ∀ key v, value d key = some v → P key := fun key v held => h key (by rw [held]; rfl)
  exact written_values (P := fun key _ => P key) applied known (fun _ _ => own) key v held

theorem resolved_grows {account account' : String → Prop} {fs : Firestore} (h : Resolved account fs)
    (accounts : ∀ uid, account uid → account' uid) : Resolved account' fs :=
  { h with
    users := fun uid present => accounts uid (h.users uid present)
    posts := fun author present => accounts author (h.posts author present)
    comments := fun p d hd => (h.comments p d hd).imp_right (.imp fun uid => .imp_right (accounts uid))
    likers := fun p uid present => accounts uid (h.likers p uid present)
    follows := fun uid present => accounts uid (h.follows uid present) }

/-- A write about what exists, made for an account that exists. -/
theorem written_resolved {r : Scope} {fs fs' : Firestore} {w : ServerWrite} (h : Resolved r.account fs)
    (posts : ∀ postID, r.post postID → Stored fs postID) (within : r.HasWrite w)
    (followed : ∀ uid user, (value (fs'.follows uid) user).isSome → (fs'.users user).isSome)
    (applied : Firestore.Applied fs w fs') : Resolved r.account fs' := by
  obtain ⟨own, about⟩ := within
  have grows := applied_grows applied
  cases applied with
  | @user uid =>
    refine { h with followed, users := fun u present => ?_ }
    by_cases written : u = uid
    · exact written ▸ own
    · exact h.users u (by simpa [written] using present)
  | @photoPost author documentID data fresh =>
    refine { h with
      posts := fun a present => ?_
      comments := fun p d hd => (h.comments p d hd).imp_left (stored_grows grows)
      likes := fun p present => stored_grows grows (h.likes p present) }
    by_cases written : a = author
    · exact written ▸ own
    · exact h.posts a (by simpa [written] using present)
  | @comment documentID data fresh =>
    refine { h with comments := fun p d hd => ?_ }
    rcases (comments_mem (.comment fresh) p d).mp hd with before | ⟨rfl, rfl⟩
    · exact h.comments p d before
    · exact ⟨posts data.postID about, data.userID, by rw [(addingValue_lookup data).2, asString_string], own⟩
  | @like postID write d written =>
    refine { h with likes := fun p present => ?_, likers := fun p => ?_ }
    · by_cases same : p = postID
      · exact posts p (same ▸ about)
      · exact h.likes p (by simpa [same] using present)
    · by_cases same : p = postID
      · subst same
        simp only [Function.update_self]
        exact isSome_written written (h.likers p) own
      · simpa [same] using h.likers p
  | @follow account write d written =>
    refine { h with followed, follows := fun u present => ?_ }
    by_cases same : u = account
    · exact same ▸ own
    · exact h.follows u (by simpa [same] using present)

theorem existing_admits (clients : Scope.HasClients (fun _ => existing s) s) (meets : FromFeed s e)
    (signsIn : ∀ i uid, e.SignsIn i uid → Account t uid) (accounts : ∀ uid, Account s uid → Account t uid)
    (grown : ∀ postID, Stored s.fs postID → Stored t.fs postID) :
    Scope.Admits (fun _ => existing s) (fun _ => existing t) s e where
  grows _ := ⟨accounts, grown, fun _ known => known⟩
  posts _ author d hd := ⟨author, d, hd, rfl⟩
  users _ _ _ _ := trivial
  signsIn := signsIn
  chosen i chosenPost opened id hasID := by
    subst opened
    obtain ⟨c, found, post, shown, rfl⟩ := meets
    obtain ⟨screen, member, listed⟩ := List.mem_flatMap.mp shown
    have within := (clients i c found).2 screen member
    cases screen with
    | main main => exact (within.posts post listed).2 id hasID
    | _ => cases listed

theorem step_inv (h : Inv s) (meets : FromFeed s e) (stepped : s.step e = some t) : Inv t := by
  have ok := Attribution.step_ok h.ok stepped
  have signUps := (SignUps.step_inv h.signUps stepped).1
  have accounts : ∀ uid, Account s uid → Account t uid := fun uid => account_grows (accounts_grow stepped)
  have posts : ∀ postID, Stored s.fs postID → Stored t.fs postID := by
    rcases SignUps.step_store stepped with same | ⟨w, applied⟩
    · exact same ▸ fun _ known => known
    · exact fun _ => stored_grows (applied_grows applied)
  have admits := existing_admits h.clients meets (fun _ _ => signsIn_account stepped) accounts posts
  obtain ⟨clients, wrote⟩ := Scope.step_within h.ok h.clients admits stepped
  refine ⟨ok, signUps, clients, resolved_grows ?_ accounts⟩
  rcases wrote with same | ⟨i, w, _, within, applied⟩
  · exact same ▸ h.resolved
  · refine written_resolved (r := existing s) h.resolved (fun _ known => known) within (fun uid user present => ?_) applied
    obtain ⟨v, held⟩ := Option.isSome_iff_exists.mp present
    exact (ok.store.follows uid user v held).2

end

theorem initial_resolved : Resolved (Account {}) {} := by
  constructor
  case posts => exact fun _ absent => (absent rfl).elim
  case comments => exact fun _ => List.forall_mem_nil _
  all_goals
    intros
    contradiction

/-! ### Runs on local documents -/

/-- The Comment button of a cell may open the comments of a post that the server does not have. -/
def LocalFromFeed (s : Local) : Local.Event → Prop
  | .program e _ => FromFeed s.issued e
  | _ => True

instance (s : Local) : ∀ e : Local.Event, Decidable (LocalFromFeed s e)
  | .program e _ => inferInstanceAs (Decidable (FromFeed s.issued e))
  | .issue _ _ _ _ | .refuse _ | .raise _ _ _ _ | .follows _ _ _ _ => isTrue trivial

structure LocalInv (s : Local) : Prop where
  inv : Local.Inv s
  clients : Scope.HasClients (fun _ => existing s.issued) s.issued
  resolved : Resolved (Account s.issued) s.issued.fs

section
variable {s t : Local} {e : Local.Event}

theorem local_accounts (stepped : s.step e = some t) : ∀ acc ∈ s.issued.accounts, acc ∈ t.issued.accounts := by
  cases Local.step_ok stepped with
  | session _ _ ran => exact accounts_grow ran
  | wrote _ _ _ accepted =>
    cases accepted with
    | shared _ _ _ written =>
      obtain ⟨_, _, _, rfl⟩ := System.write_ok written
      exact fun _ hacc => hacc
    | own => exact fun _ hacc => hacc
  | _ => exact fun _ hacc => hacc

/-- Nobody is signed in by an event of a screen other than that of sign-up. -/
theorem local_signsIn {e : System.Event} {cache : Cache} (stepped : s.step (.program e cache) = some t) {i : Nat}
    {uid : String} (signs : e.SignsIn i uid) : Account t.issued uid := by
  cases Local.step_ok stepped with
  | session _ _ ran => exact signsIn_account ran signs
  | _ => rcases signs with same | ⟨_, _, same⟩ <;> cases same

theorem local_step_inv (h : LocalInv s) (meets : LocalFromFeed s e) (stepped : s.step e = some t) : LocalInv t := by
  have inv := Local.step_inv h.inv stepped
  have accounts : ∀ uid, Account s.issued uid → Account t.issued uid := fun uid => account_grows (local_accounts stepped)
  have posts : ∀ postID, Stored s.issued.fs postID → Stored t.issued.fs postID := by
    rcases Local.step_made h.inv stepped with same | ⟨_, _, _, made⟩
    · exact same ▸ fun _ known => known
    · exact fun _ => stored_grows (applied_grows made.applied)
  have admits : Local.Admits (fun _ => existing s.issued) (fun _ => existing t.issued) s e := by
    refine ⟨⟨fun _ => ⟨accounts, posts, fun _ known => known⟩, fun _ author d hd => ⟨author, d, hd, rfl⟩,
      fun _ _ _ _ => trivial⟩, ?_⟩
    rintro e cache rfl
    exact existing_admits h.clients meets (fun _ _ => local_signsIn stepped) accounts posts
  obtain ⟨clients, wrote⟩ := Local.step_within h.inv h.clients admits stepped
  refine ⟨inv, clients, resolved_grows ?_ accounts⟩
  rcases wrote with same | ⟨i, w, within, applied⟩
  · exact same ▸ h.resolved
  · refine written_resolved (r := existing s.issued) h.resolved (fun _ known => known) within (fun uid user present => ?_)
      applied
    obtain ⟨v, held⟩ := Option.isSome_iff_exists.mp present
    exact (inv.ok.store.follows uid user v held).2

end

/-- In every run in which the comments of a post are opened from a feed, which may show local documents, the
documents of the server name accounts that exist and posts and users whose write was issued. -/
theorem names_resolve (events : List Local.Event) (t : Local) (h : run Local.step {} events = some t)
    (opened : Along Local.step LocalFromFeed {} events) :
    Within t.server t.issued.fs ∧ Resolved (Account t.issued) t.issued.fs := by
  have initial : LocalInv {} := ⟨Local.initial_inv, fun _ _ found => (by cases found), initial_resolved⟩
  have inv := run_keeps_along (fun _ _ _ => local_step_inv) h opened initial
  exact ⟨inv.inv.server, inv.resolved⟩

/-- Alice's post as her feed shows it. -/
def hello : Post :=
  { id := some "p", user := ⟨"alice", "alice", "url"⟩, postImageURL := some "url", imageWidth := some 0,
    imageHeight := some 0, userID := some "alice", message := some "hello", postDate := 1 }

def aliceReplies : List System.Event :=
  Attribution.aliceComments.take 17 ++
    [.open 0 (.comments (some hello)), .screen 0 3 (.comments (.edit "nice")), .screen 0 3 (.comments (.send 0)),
     .screen 0 3 (.comments (.write 0 "q" true)), .screen 0 1 (.main (.tap 0)), .screen 0 1 (.main (.like (.read 0 true))),
     .screen 0 1 (.main (.like (.write 0 true)))]

/-- She comments on the post that the server refused, and likes it. -/
def aliceRefusedReplies : List Local.Event := Local.aliceRefused ++ (aliceReplies.drop 17).flatMap Local.locally

theorem names_resolve_aliceRefusedReplies : ∃ t, run Local.step {} aliceRefusedReplies = some t ∧
    t.server.photoPosts "alice" = [] ∧ t.server.addingComments "p" ≠ [] ∧ (t.server.likes "p").isSome ∧
    Within t.server t.issued.fs ∧ Resolved (Account t.issued) t.issued.fs :=
  ⟨_, rfl, rfl, List.cons_ne_nil _ _, rfl, names_resolve aliceRefusedReplies _ rfl (by decide)⟩

end Foti.References
