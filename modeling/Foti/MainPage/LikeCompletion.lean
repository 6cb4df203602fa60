import Foti.MainPage.Feed

/-!
What the completion of a like does to the feed. It puts the post captured at the tap back at the
row of the tap, so it is right exactly when that row still shows that post; a refresh or a post
inserted meanwhile makes it trap, or overwrite another entry.
-/

namespace Foti.LikeCompletion
open Document Entries Listening Transition MainController

/-- At most the `liked` flag of the tapped post's entry differs. -/
def OnlyTapped (call : LikeCall) (posts posts' : List Post) : Prop :=
  (∃ i p liked, posts[i]? = some p ∧ p.id = some call.closure.postID ∧ posts' = posts.set i { p with liked }) ∨
    ((∀ p ∈ posts, p.id ≠ some call.closure.postID) ∧ posts' = posts)

/-- The same post, up to its `liked` flag. -/
def SamePost (p q : Post) : Prop := { p with liked := q.liked } = q

/-- The row of the tap still shows the tapped post. -/
def RowKept (call : LikeCall) (posts : List Post) : Prop :=
  ∃ p, posts[call.closure.row]? = some p ∧ SamePost p call.closure.post

theorem samePost_of_eq {p q : Post} {a b : Bool} (h : { p with liked := a } = { q with liked := b }) : SamePost p q := by
  cases p
  cases q
  simp only [Post.mk.injEq] at h
  simp only [SamePost, Post.mk.injEq]
  exact ⟨h.1, h.2.1, h.2.2.1, h.2.2.2.1, h.2.2.2.2.1, h.2.2.2.2.2.1, h.2.2.2.2.2.2.1, h.2.2.2.2.2.2.2.1, trivial⟩

theorem SamePost.set_liked {p q : Post} (h : SamePost p q) (b : Bool) : { q with liked := b } = { p with liked := b } := by
  rw [← h]

theorem onlyTapped_ids {call : LikeCall} {posts posts' : List Post} (h : OnlyTapped call posts posts') :
    posts'.map (·.id) = posts.map (·.id) := by
  rcases h with ⟨i, p, liked, found, _, rfl⟩ | ⟨_, rfl⟩
  · exact map_set_same found rfl
  · rfl

theorem completion_ok {call : LikeCall} {posts posts' : List Post} (h : call.completion posts = some posts') :
    call.closure.row < posts.length ∧
      posts' = posts.set call.closure.row { call.closure.post with liked := !call.closure.post.liked } := by
  obtain ⟨inside, same⟩ := Option.ite_none_right_eq_some.mp h
  exact ⟨inside, (Option.some.inj same).symm⟩

theorem completion_iff {call : LikeCall} (tapped : call.closure.post.id = some call.closure.postID)
    (posts : List Post) :
    (∃ posts', call.completion posts = some posts' ∧ OnlyTapped call posts posts') ↔ RowKept call posts := by
  constructor
  · rintro ⟨posts', completed, only⟩
    obtain ⟨inside, rfl⟩ := completion_ok completed
    have set : (posts.set call.closure.row { call.closure.post with liked := !call.closure.post.liked })[call.closure.row]? =
        some { call.closure.post with liked := !call.closure.post.liked } := List.getElem?_set_self inside
    rcases only with ⟨i, p, liked, found, _, same⟩ | ⟨gone, same⟩
    · rw [same] at set
      by_cases row : i = call.closure.row
      · subst row
        rw [List.getElem?_set_self inside] at set
        exact ⟨p, found, samePost_of_eq (Option.some.inj set)⟩
      · rw [List.getElem?_set_ne row] at set
        exact ⟨_, set, samePost_of_eq (a := false) (b := false) rfl⟩
    · rw [same] at set
      exact (gone _ (List.mem_of_getElem? set) tapped).elim
  · rintro ⟨p, found, same⟩
    have inside := (List.getElem?_eq_some_iff.mp found).1
    refine ⟨_, if_pos inside, .inl ⟨call.closure.row, p, !call.closure.post.liked, found, ?_, ?_⟩⟩
    · rw [← tapped, ← same]
    · rw [same.set_liked]

def Captured (c : MainController) : Prop := ∀ call ∈ c.likeCalls, call.closure.post.id = some call.closure.postID

theorem postLiked_captured {posts : List Post} {row : Nat} {currentUser : Option String} {call : LikeCall}
    (h : postLiked posts row currentUser = some call) : call.closure.post.id = some call.closure.postID := by
  obtain ⟨post, postID, _, _, hasID, _, rfl⟩ := postLiked_ok h
  exact hasID

theorem handled_captured {account : String} {fs : Firestore} {c c' : MainController} {e : MainEvent}
    {w : Option ServerWrite} (h : Captured c) (outcome : Handled (some account) fs c e c' w) : Captured c' := by
  have moved : ∀ {n : Nat} {call : LikeCall} {stage : Stage}, c.likeCalls[n]? = some call →
      ∀ d ∈ c.likeCalls.set n { call with stage }, d.closure.post.id = some d.closure.postID :=
    fun {n call stage} found => forall_mem_set h (h call (List.mem_of_getElem? found))
  cases outcome with
  | tap called => exact forall_mem_concat h (postLiked_captured called)
  | moved found => exact moved found
  | completed found => exact moved found
  | trapped found => exact moved found
  | @userFound n lookup found =>
    obtain ⟨_, _, _, same, _⟩ := userFound_cases { c with userLookups := c.userLookups.eraseIdx n } lookup
      (fs.users lookup.uID) fs
    rw [same]
    exact h
  | _ => exact h

theorem written_captured {fs fs' : Firestore} {c : MainController} (h : Captured c) (w : ServerWrite) :
    Captured (c.notify fs fs' w) := by
  obtain ⟨_, _, same⟩ := notify_same c fs fs' w
  rw [same]
  exact h

theorem reachable_captured {account : String} {fs : Firestore} {events : List Feed.Event} {s : Feed}
    (h : run (Feed.step account) (Feed.viewDidLoad account fs) events = some s) : Captured s.main := by
  have keeps : ∀ s e t, Captured s.main → Feed.step account s e = some t → Captured t.main := fun s e t hs stepped =>
    Feed.step_keeps (I := fun _ => Captured) (H := fun _ _ _ => True) (W := fun _ _ => True)
      (fun _ _ _ _ _ _ => trivial) (fun _ _ _ _ _ hc _ _ outcome => handled_captured hc outcome)
      (fun _ _ w _ hc _ _ => written_captured hc w) hs (by cases e <;> trivial) stepped
  have initial : Captured (Feed.viewDidLoad account fs).main := fun _ hcall => (List.not_mem_nil hcall).elim
  exact run_keeps (I := fun s : Feed => Captured s.main) keeps h initial

theorem acknowledge_step (account : String) {s : Feed} {n : Nat} {call : LikeCall} {whole : Bool}
    (running : s.main.crashed = false) (found : s.main.likeCalls[n]? = some call)
    (written : call.stage = .written whole true) :
    ∃ t, Feed.step account s (.main (.like (.acknowledge n))) = some t ∧
      match call.completion s.main.posts with
      | some posts => t.main.crashed = false ∧ t.main.posts = posts
      | none => t.main.crashed = true := by
  have handled : s.main.handle (some account) s.fs (.like (.acknowledge n)) =
      s.main.likeStep s.fs (.acknowledge n) := by
    rw [handle, running]
    rfl
  simp only [Feed.step, handled, likeStep, found, Option.bind_eq_bind, Option.bind_some, Call.acknowledge, written,
    if_true]
  cases call.completion s.main.posts with
  | some posts => exact ⟨_, rfl, running, rfl⟩
  | none => exact ⟨_, rfl, rfl⟩

/-- In every reachable feed, the successful completion of a like traps nothing and keeps to the tapped
post exactly when the row of the tap still shows that post. -/
theorem completion_frames_iff (account : String) (fs : Firestore) (events : List Feed.Event) (s : Feed)
    (h : run (Feed.step account) (Feed.viewDidLoad account fs) events = some s) (running : s.main.crashed = false)
    (n : Nat) (call : LikeCall) (whole : Bool) (found : s.main.likeCalls[n]? = some call)
    (written : call.stage = .written whole true) :
    (∃ t, Feed.step account s (.main (.like (.acknowledge n))) = some t ∧ t.main.crashed = false ∧
      OnlyTapped call s.main.posts t.main.posts) ↔ RowKept call s.main.posts := by
  have tapped := reachable_captured h call (List.mem_of_getElem? found)
  rw [← completion_iff tapped]
  obtain ⟨t, stepped, outcome⟩ := acknowledge_step account running found written
  constructor
  · rintro ⟨t', stepped', alive, only⟩
    obtain rfl := Option.some.inj (stepped.symm.trans stepped')
    cases completed : call.completion s.main.posts with
    | some posts =>
      rw [completed] at outcome
      exact ⟨posts, rfl, outcome.2 ▸ only⟩
    | none =>
      rw [completed] at outcome
      rw [outcome] at alive
      cases alive
  · rintro ⟨posts, completed, only⟩
    rw [completed] at outcome
    exact ⟨t, stepped, outcome.1, outcome.2.symm ▸ only⟩

def aliceShared : Firestore where
  users := fun uid => if uid = "alice" then some (SignUpAttempt.addData uid uid (some "url")) else none
  photoPosts := fun author => if author = "alice" then
    [("p", ({ imageURL := "url", message := "hello", photo := ⟨0, 0⟩, date := 1 } : PostData).addData "alice")] else []
  documentIDs := ["p"]

def tapped : List Feed.Event :=
  [.main (.userLookup 0 true), .main (.photoSnapshot 0 1 0), .main (.likeLookup 0 true), .main (.tap 0),
   .main (.like (.read 0 true)), .main (.like (.write 0 true))]

def aliceSharedTwice : Firestore :=
  { aliceShared with
    photoPosts := fun author => aliceShared.photoPosts author ++ if author = "alice" then
      [("q", ({ imageURL := "url", message := "again", photo := ⟨0, 0⟩, date := 2 } : PostData).addData "alice")] else []
    documentIDs := ["p", "q"] }

/-- She taps the older post, the second of her feed. -/
def olderTapped : List Feed.Event :=
  [.main (.userLookup 0 true), .main (.photoSnapshot 0 2 0), .main (.likeLookup 0 true), .main (.likeLookup 0 true),
   .main (.tap 1), .main (.like (.read 0 true)), .main (.like (.write 0 true))]

theorem completion_frames_iff_olderTapped :
    ∃ s call, run (Feed.step "alice") (Feed.viewDidLoad "alice" aliceSharedTwice) olderTapped = some s ∧
      s.main.likeCalls[0]? = some call ∧ s.main.posts.map (·.id) = [some "q", some "p"] ∧
      ∃ t, Feed.step "alice" s (.main (.like (.acknowledge 0))) = some t ∧ t.main.crashed = false ∧
        OnlyTapped call s.main.posts t.main.posts :=
  ⟨_, _, rfl, rfl, by decide,
    (completion_frames_iff "alice" aliceSharedTwice olderTapped _ rfl rfl 0 _ _ rfl rfl).mpr ⟨_, rfl, rfl⟩⟩

def overtaken : List Feed.Event :=
  tapped ++ [.remote (.photoPost "alice" "q" { imageURL := "url", message := "again", photo := ⟨0, 0⟩, date := 2 }),
    .main (.photoSnapshot 0 1 0), .main (.likeLookup 0 true)]

/-- The completion puts the tapped post over the newer one, which is gone from the feed. -/
theorem overtaken_post_lost :
    ∃ s t call, run (Feed.step "alice") (Feed.viewDidLoad "alice" aliceShared) overtaken = some s ∧
      s.main.likeCalls[0]? = some call ∧ call.stage = .written true true ∧
      Feed.step "alice" s (.main (.like (.acknowledge 0))) = some t ∧
      s.main.posts.map (·.id) = [some "q", some "p"] ∧ t.main.posts.map (·.id) = [some "p", some "p"] ∧
      ¬ OnlyTapped call s.main.posts t.main.posts :=
  ⟨_, _, _, rfl, rfl, rfl, rfl, by decide, by decide, fun only => absurd (onlyTapped_ids only) (by decide)⟩

end Foti.LikeCompletion
