import Foti.MainPage.FeedOrder
import Foti.MainPage.LikeCompletion
import Foti.System.References
import Foti.System.ScreenRuns

/-!
The feeds of the whole program stay sorted, newest first. Only the completion of a like can break the order,
when it puts its post over a row that shows another one.
-/

namespace Foti.NewestFirst
open Attribution Document LikeCompletion ScreenRuns Transition

/-- The like that an event acknowledges, with the feed it finds. -/
def acknowledged : Screen → ScreenEvent → Option (LikeCall × List Post)
  | .main c, .main (.like (.acknowledge n)) => c.likeCalls[n]?.map (·, c.posts)
  | _, _ => none

/-- A like that completes finds its row showing its post. -/
def CompletesInPlace (_ : Firestore) (screen : Screen) (e : ScreenEvent) : Prop :=
  ∀ l ∈ acknowledged screen e, l.1.stage = .written true true ∨ l.1.stage = .written false true → RowKept l.1 l.2

instance (p q : Post) : Decidable (SamePost p q) := inferInstanceAs (Decidable ({ p with liked := q.liked } = q))

instance (call : LikeCall) (posts : List Post) : Decidable (RowKept call posts) :=
  inferInstanceAs (Decidable (∃ p ∈ posts[call.closure.row]?, SamePost p call.closure.post))

instance (fs : Firestore) (screen : Screen) (e : ScreenEvent) : Decidable (CompletesInPlace fs screen e) :=
  inferInstanceAs (Decidable (∀ l ∈ acknowledged screen e,
    l.1.stage = .written true true ∨ l.1.stage = .written false true → RowKept l.1 l.2))

def Sorted (_ : Firestore) : Screen → Prop
  | .main c => c.posts.Pairwise newerFirst
  | _ => True

/-- The order looks only at the dates, which a like does not change. -/
theorem sorted_of_dates {posts posts' : List Post} (sorted : posts.Pairwise newerFirst)
    (same : posts'.map (·.postDate) = posts.map (·.postDate)) : posts'.Pairwise newerFirst := by
  have dates : (posts.map (·.postDate)).Pairwise fun date date' => date' ≤ date := List.pairwise_map.mpr sorted
  rwa [← same, List.pairwise_map] at dates

theorem completion_sorted {call : LikeCall} {posts posts' : List Post} (sorted : posts.Pairwise newerFirst)
    (kept : RowKept call posts) (completed : call.completion posts = some posts') : posts'.Pairwise newerFirst := by
  obtain ⟨_, rfl⟩ := completion_ok completed
  obtain ⟨p, found, same⟩ := kept
  refine sorted_of_dates sorted (Entries.map_set_same found ?_)
  rw [same.set_liked]

theorem main_sorted {fs : Firestore} {currentUser : Option String} {c c' : MainController} {e : MainEvent}
    {w : Option ServerWrite} (sorted : c.posts.Pairwise newerFirst) (meets : CompletesInPlace fs (.main c) (.main e))
    (outcome : MainController.Handled currentUser fs c e c' w) : c'.posts.Pairwise newerFirst := by
  cases outcome with
  | refreshPosts =>
    obtain ⟨_, _, same⟩ := refresh_same c currentUser fs
    rw [same]
    exact .nil
  | @userFound n lookup found =>
    obtain ⟨_, _, _, same, _⟩ := MainController.userFound_cases { c with userLookups := c.userLookups.eraseIdx n } lookup
      (fs.users lookup.uID) fs
    rw [same]
    exact sorted
  | photoSnapshot => cases currentUser <;> exact sorted
  | likeFound => exact List.pairwise_insertionSort newerFirst _
  | @completed n call whole posts found written completed =>
    have kept : RowKept call c.posts :=
      meets (call, c.posts) (by simp [acknowledged, found]) (by cases whole <;> simp [written])
    exact completion_sorted sorted kept completed
  | _ => exact sorted

theorem opened_sorted (fs : Firestore) (currentUser : Option String) (opening : Opening) :
    Sorted fs (Screen.viewDidLoad currentUser fs opening) := by
  cases opening with
  | main => cases currentUser <;> exact List.Pairwise.nil
  | _ => trivial

theorem sorted_kept : Kept CompletesInPlace Sorted where
  attempts _ := trivial
  users _ _ screen _ sorted := by cases screen <;> exact sorted
  handled _ _ sorted meets outcome := by
    cases outcome with
    | main outcome => exact main_sorted sorted meets outcome
    | _ => trivial
  notified {fs w fs' screen} _ _ sorted := by
    cases screen with
    | main c =>
      obtain ⟨_, _, same⟩ := MainController.notify_same c fs fs' w
      simp only [Screen.notify, same]
      exact sorted
    | _ => trivial

/-- In every run in which each like that completes finds its row showing its post, every feed is sorted,
newest first, in every state. -/
theorem feeds_newest_first (events : List System.Event)
    (inPlace : Along System.step (AtScreen CompletesInPlace) {} events) :
    Always System.step (fun s => ∀ c ∈ s.clients, ∀ main, .main main ∈ c.screens → main.posts.Pairwise newerFirst)
      {} events :=
  fun _ _ shorter reached c hc _ hmain =>
    run_screens sorted_kept opened_sorted reached (along_shorter inPlace shorter) c hc _ hmain

/-- Her like of the first post completes, she shares a second one, and likes that too. -/
def aliceLikes : List System.Event :=
  References.aliceReplies ++
    [.screen 0 1 (.main (.like (.acknowledge 0))), .open 0 (.share (some ⟨0, 0⟩)), .screen 0 4 (.share (.edit "again")),
     .screen 0 4 (.share (.press "second")), .screen 0 4 (.share (.uploaded 0 true)),
     .screen 0 4 (.share (.located 0 (some "url") true 2)), .screen 0 4 (.share (.saved 0 "r" true)),
     .screen 0 1 (.main (.photoSnapshot 0 1 3)), .screen 0 1 (.main (.likeLookup 0 true)), .screen 0 1 (.main (.tap 0)),
     .screen 0 1 (.main (.like (.read 1 true))), .screen 0 1 (.main (.like (.write 1 true))),
     .screen 0 1 (.main (.like (.acknowledge 1)))]

theorem feeds_newest_first_aliceLikes :
    (∃ t c main, run System.step {} aliceLikes = some t ∧ t.clients = [c] ∧ c.screens[1]? = some (.main main) ∧
      main.posts.map (fun p => (p.id, p.liked)) = [(some "r", true), (some "p", true)]) ∧
    Always System.step (fun s => ∀ c ∈ s.clients, ∀ main, .main main ∈ c.screens → main.posts.Pairwise newerFirst)
      {} aliceLikes :=
  ⟨⟨_, _, _, rfl, rfl, rfl, rfl⟩, feeds_newest_first aliceLikes (by decide)⟩

end Foti.NewestFirst
