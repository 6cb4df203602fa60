import Foti.System.LocalRuns

/-!
What the screens show, read back from the network of what was issued: every post and comment is one that
its author made, with the text, the photo and the date it was made with, under the profile that its
author has. The server may not have it yet, or may have refused it.
-/

namespace Foti
open Document Entries Transition

/-! ### Reading back what was written -/

def Profile.user (p : Profile) (uid : String) : User := ⟨p.userName, uid, p.profilePhotoURL⟩

/-- A post of the author as its readers see it, up to its `id` and `liked`. -/
def PostData.post (data : PostData) (author : User) : Post where
  user := author
  postImageURL := some data.imageURL
  imageWidth := some data.photo.width
  imageHeight := some data.photo.height
  userID := some author.userID
  message := some data.message
  postDate := data.date

theorem init_addData_user (p : Profile) (uid : String) :
    User.init (SignUpAttempt.addData p.userName uid (some p.profilePhotoURL)) = p.user uid := by
  simp [User.init, Profile.user, SignUpAttempt.addData, dict_lookup_head, dict_lookup_tail]

theorem init_addData_post (data : PostData) (author : User) (now : Timestamp) :
    Post.init now author (data.addData author.userID) = data.post author := by
  simp [Post.init, PostData.post, PostData.addData, dict_lookup_head, dict_lookup_tail, asDouble]

theorem init_addingValue (data : CommentData) (author : User) :
    Comment.init author data.addingValue = ⟨author, data.message, data.userID⟩ := by
  simp [Comment.init, CommentData.addingValue, dict_lookup_head, dict_lookup_tail]

namespace ShownContent
open Network

def ShowsUser (n : Network) (user : User) : Prop := ∃ p, n.profile user.userID = some p ∧ user = p.user user.userID

def ShowsPost (n : Network) (p : Post) : Prop :=
  ShowsUser n p.user ∧ ∃ d ∈ n.posts p.user.userID, { p with id := none, liked := false } = d.2.post p.user ∧
    ∀ id, p.id = some id → id = d.1

def ShowsComment (n : Network) (x : Comment) : Prop :=
  ShowsUser n x.user ∧ ∃ postID, ∃ d ∈ n.comments postID, x = ⟨x.user, d.2.message, d.2.userID⟩ ∧
    d.2.userID = x.user.userID

/-- The screen shows what is in the network. -/
def Shows (n : Network) : Screen → Prop
  | .register _ | .share _ => True
  | .main c => ∀ p ∈ c.posts, ShowsPost n p
  | .comments c => ∀ x ∈ c.comments, ShowsComment n x
  | .profile c => (∀ p ∈ c.posts, ShowsPost n p) ∧ (∀ user, c.validUser = some user → ShowsUser n user) ∧
      ∀ header ∈ c.headers, ∀ user, header.validUser = some user → ShowsUser n user

/-- The user as its document has it. -/
def Current (fs : Firestore) (user : User) : Prop := ∃ data, fs.users user.userID = some data ∧ user = User.init data

def current (s : System) : Scope := ⟨fun _ => True, fun _ => True, Current s.fs⟩

section
variable {s t : System} {fs : Firestore} {n : Network}

theorem current_admits {e : System.Event} (ok : Attribution.SystemOk s) (frozen : SignUps.Frozen s.fs t.fs) :
    Scope.Admits (fun _ => current s) (fun _ => current t) s e where
  grows _ := ⟨fun _ h => h, fun _ h => h, fun user => .imp fun data => .imp_left (frozen user.userID data)⟩
  posts _ _ _ _ := trivial
  users _ uid data found := by
    refine ⟨data, ?_, rfl⟩
    simp only [User.init, ok.store.users uid data found]
    exact found
  signsIn _ _ _ := trivial
  chosen _ _ _ _ _ := trivial

theorem shows_user (represents : Represents fs n) {user : User} (h : Current fs user) : ShowsUser n user := by
  obtain ⟨data, found, same⟩ := h
  rw [represents.users] at found
  obtain ⟨p, has, rfl⟩ := Option.map_eq_some_iff.mp found
  refine ⟨p, has, ?_⟩
  rw [init_addData_user] at same
  exact same

theorem shows_post (represents : Represents fs n) {p : Post} (user : Current fs p.user)
    (h : Attribution.OfDocument fs p) : ShowsPost n p := by
  obtain ⟨d, hd, ⟨now, same⟩, ids⟩ := h
  rw [represents.posts] at hd
  obtain ⟨⟨id, data⟩, listed, rfl⟩ := List.mem_map.mp hd
  exact ⟨shows_user represents user, (id, data), listed, same.trans (init_addData_post data p.user now), ids⟩

theorem shows_comment (represents : Represents fs n) {x : Comment} (user : Current fs x.user)
    (h : Attribution.OfComment fs x) : ShowsComment n x := by
  obtain ⟨postID, d, hd, same, author⟩ := h
  rw [represents.comments] at hd
  obtain ⟨⟨id, data⟩, listed, rfl⟩ := List.mem_map.mp hd
  rw [init_addingValue] at same
  rw [(addingValue_lookup data).2, asString_string] at author
  exact ⟨shows_user represents user, postID, (id, data), listed, same, Option.some.inj author⟩

end

/-! ### Runs on local documents -/

section
variable {s t : Local}

/-- What was issued represents the network. -/
structure Simulates (s : Local) (n : Network) : Prop where
  inv : Local.Inv s
  represents : Represents s.issued.fs n

theorem step_simulates {e : Local.Event} {n : Network} (h : Simulates s n) (stepped : s.step e = some t) :
    Simulates t n ∨ ∃ o n', Local.Carries e o ∧ Next n o n' ∧ Simulates t n' := by
  have inv := Local.step_inv h.inv stepped
  rcases Local.step_made h.inv stepped with same | ⟨sender, w, carries, made⟩
  · exact .inl ⟨inv, same ▸ h.represents⟩
  · obtain ⟨n', next, represents⟩ := written_next h.represents made.checked made.new made.applied
    exact .inr ⟨opOf w, n', carries, next, inv, represents⟩

theorem local_admits {e : Local.Event} (inv : Local.Inv s) (frozen : SignUps.Frozen s.issued.fs t.issued.fs) :
    Local.Admits (fun _ => current s.issued) (fun _ => current t.issued) s e where
  toSupplies := (current_admits (e := .launch) inv.ok frozen).toSupplies
  program _ _ _ := current_admits inv.ok frozen

theorem run_current {events : List Local.Event} (h : run Local.step {} events = some t) :
    Scope.HasClients (fun _ => current t.issued) t.issued := by
  have kept : ∀ s e t, Local.Inv s ∧ Scope.HasClients (fun _ => current s.issued) s.issued → Local.step s e = some t →
      Local.Inv t ∧ Scope.HasClients (fun _ => current t.issued) t.issued := by
    rintro s e t ⟨inv, clients⟩ stepped
    have admits := local_admits (e := e) inv (Local.step_frozen inv stepped)
    exact ⟨Local.step_inv inv stepped, (Local.step_within inv clients admits stepped).1⟩
  exact (run_keeps kept h ⟨Local.initial_inv, fun _ _ found => by cases found⟩).2

theorem screen_shows {fs : Firestore} {n : Network} {screen : Screen} (represents : Represents fs n)
    (holds : Attribution.ScreenOk fs screen) (users : (⟨fun _ => True, fun _ => True, Current fs⟩ : Scope).HasScreen screen) :
    Shows n screen := by
  cases screen with
  | register attempts => trivial
  | share c => trivial
  | main c => exact fun p hp => shows_post represents (users.posts p hp).1 (holds.posts p hp)
  | comments c => exact fun x hx => shows_comment represents (users.comments x hx) (holds.comments x hx)
  | profile c =>
    refine ⟨fun p hp => shows_post represents (users.posts p hp).1 (holds.posts p hp), ?_, ?_⟩
    · exact fun user shown => shows_user represents (users.user user shown)
    · exact fun header hh user shown => shows_user represents (users.headers header hh user shown)

end

/-- In every run in which local documents are shown too, what was issued and what the server accepted of the
likes and follows make a network, each as one operation. The server has nothing that is not in it, and every
screen of every client shows only what is. -/
theorem screens_show_network (events : List Local.Event) (t : Local) (h : run Local.step {} events = some t) :
    ∃ ops n, Steps Next {} ops n ∧ List.SublistForall₂ (fun o e => Local.Carries e o) ops events ∧
      Represents t.issued.fs n ∧ Within t.server t.issued.fs ∧
        ∀ c ∈ t.issued.clients, ∀ screen ∈ c.screens, Shows n screen := by
  have initial : Simulates {} {} := ⟨Local.initial_inv, initial_represents⟩
  obtain ⟨ops, n, steps, carried, inv, represents⟩ := run_simulated (fun _ _ _ _ => step_simulates) h initial
  refine ⟨ops, n, steps, carried, represents, inv.server, fun c hc screen hs => ?_⟩
  obtain ⟨i, found⟩ := List.mem_iff_getElem?.mp hc
  exact screen_shows represents ((inv.ok.clients c hc).2 screen hs) ((run_current h i c found).2 screen hs)

theorem screens_show_network_alice : ∃ t, run Local.step {} Local.aliceRefused = some t ∧ t.server.photoPosts "alice" = [] ∧
    (∃ c ∈ t.issued.clients, ∃ main, c.screens[1]? = some (.main main) ∧ main.posts.map (·.id) = [some "p"]) ∧
    ∃ ops n, Steps Next {} ops n ∧ List.SublistForall₂ (fun o e => Local.Carries e o) ops Local.aliceRefused ∧
      Represents t.issued.fs n ∧ Within t.server t.issued.fs ∧
        ∀ c ∈ t.issued.clients, ∀ screen ∈ c.screens, Shows n screen :=
  ⟨_, rfl, rfl, ⟨_, .head _, _, rfl, rfl⟩, screens_show_network Local.aliceRefused _ rfl⟩

end ShownContent
end Foti
