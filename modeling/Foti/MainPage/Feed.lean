import Foti.MainPage.MainController
import Foti.Library.Transition
import Mathlib.Data.List.Perm.Basic

/-! Runs of the home feed over the store: events at the screen, and writes by anyone else. -/

namespace Foti
open Document Listening Transition

/-! ### What an event at the screen can do -/

namespace MainController

/-- The outcomes of `handle`, one constructor for each branch. -/
inductive Handled (currentUser : Option String) (fs : Firestore) (c : MainController) :
    MainEvent → MainController → Option ServerWrite → Prop where
  | refreshPosts : Handled currentUser fs c .refreshPosts (c.refreshPosts currentUser fs) none
  | followsSnapshot {l k : Nat} {listener : FollowsListener} {data : Option Dict} {listeners : List FollowsListener}
      (delivered : deliverVersion c.followsListeners l k = some (listener, data, listeners)) :
      Handled currentUser fs c (.followsSnapshot l k)
        ({ c with followsListeners := listeners }.followed currentUser data) none
  | followsFails {l : Nat} : Handled currentUser fs c (.followsFails l)
      { c with followsListeners := c.followsListeners.eraseIdx l } none
  | userFound {n : Nat} {lookup : UserLookup} (found : c.userLookups[n]? = some lookup) :
      Handled currentUser fs c (.userLookup n true)
        ({ c with userLookups := c.userLookups.eraseIdx n }.userFound lookup (fs.users lookup.uID) fs) none
  | userFails {n : Nat} : Handled currentUser fs c (.userLookup n false)
      { c with userLookups := c.userLookups.eraseIdx n } none
  | photoSnapshot {l n : Nat} {now : Timestamp} {listener : PhotoListener} {listeners : List PhotoListener}
      (delivered : deliver c.photoListeners l n = some (listener, listeners)) :
      Handled currentUser fs c (.photoSnapshot l n now)
        ({ c with photoListeners := listeners }.postsAdded currentUser listener.closure
          (orderedByPostDate (listener.pending.take n)) now) none
  | photoFails {l : Nat} : Handled currentUser fs c (.photoFails l)
      { c with photoListeners := c.photoListeners.eraseIdx l } none
  | likeFound {n : Nat} {lookup : LikeLookup} (found : c.likeLookups[n]? = some lookup) :
      Handled currentUser fs c (.likeLookup n true)
        ({ c with likeLookups := c.likeLookups.eraseIdx n }.likeFound lookup (fs.likes lookup.postID)) none
  | likeFails {n : Nat} : Handled currentUser fs c (.likeLookup n false)
      { c with likeLookups := c.likeLookups.eraseIdx n } none
  | tap {row : Nat} {call : LikeCall} (called : postLiked c.posts row currentUser = some call) :
      Handled currentUser fs c (.tap row) { c with likeCalls := c.likeCalls ++ [call] } none
  | moved {e : CallEvent} {n : Nat} {call : LikeCall} {stage : Stage} {write : Option ServerWrite}
      (found : c.likeCalls[n]? = some call) (unfinished : ¬ call.Finished)
      (liked : ∀ w ∈ write, w = .like call.closure.postID (call.write true) ∨
        w = .like call.closure.postID (call.write false))
      (chooses : ∀ whole, stage = .writing whole →
        e = .read n true ∧ whole = !(fs.likes call.closure.postID).isSome)
      (writes : ∀ w ∈ write, ∃ whole, e = .write n true ∧ call.stage = .writing whole ∧
        w = .like call.closure.postID (call.write whole)) :
      Handled currentUser fs c (.like e) { c with likeCalls := c.likeCalls.set n { call with stage } } write
  | completed {n : Nat} {call : LikeCall} {whole : Bool} {posts : List Post} (found : c.likeCalls[n]? = some call)
      (written : call.stage = .written whole true) (posts_ok : call.completion c.posts = some posts) :
      Handled currentUser fs c (.like (.acknowledge n))
        { c with posts, likeCalls := c.likeCalls.set n { call with stage := .finished true } } none
  | trapped {n : Nat} {call : LikeCall} {whole : Bool} (found : c.likeCalls[n]? = some call)
      (written : call.stage = .written whole true) (trap : call.completion c.posts = none) :
      Handled currentUser fs c (.like (.acknowledge n))
        { c with likeCalls := c.likeCalls.set n { call with stage := .finished true }, crashed := true } none

theorem likeStep_ok {currentUser : Option String} {fs : Firestore} {c c' : MainController} {e : CallEvent}
    {write : Option ServerWrite} (h : c.likeStep fs e = some (c', write)) :
    Handled currentUser fs c (.like e) c' write := by
  cases e with
  | read n ok =>
    simp only [likeStep, Option.bind_eq_bind, Option.bind_eq_some_iff, Option.pure_def, Option.some.injEq,
      Prod.mk.injEq] at h
    obtain ⟨call, found, call', answered, rfl, rfl⟩ := h
    obtain ⟨reading, rfl⟩ := Call.answer_same answered
    exact .moved found (Call.unfinished reading (by simp)) (by simp) (by cases ok <;> simp [eq_comm]) (by simp)
  | write n ok =>
    simp only [likeStep, Option.bind_eq_bind, Option.bind_eq_some_iff] at h
    obtain ⟨call, found, h⟩ := h
    split at h
    · simp only [Option.pure_def, Option.some.injEq, Prod.mk.injEq] at h
      obtain ⟨rfl, rfl⟩ := h
      rename_i whole writing
      have writes : ∀ w ∈ (if ok && ((call.write whole).apply (fs.likes call.closure.postID)).isSome then
          some (ServerWrite.like call.closure.postID (call.write whole)) else none), ok = true ∧
          w = .like call.closure.postID (call.write whole) := by
        intro w hw
        obtain ⟨accepted, same⟩ := Option.ite_none_right_eq_some.mp hw
        exact ⟨(Bool.and_eq_true_iff.mp accepted).1, (Option.some.inj same).symm⟩
      refine .moved found (Call.unfinished writing (by simp)) (fun w hw => ?_) (by simp) fun w hw => ?_
      · obtain ⟨_, rfl⟩ := writes w hw
        cases whole <;> simp
      · obtain ⟨rfl, same⟩ := writes w hw
        exact ⟨whole, rfl, writing, same⟩
    · cases h
  | acknowledge n =>
    simp only [likeStep, Option.bind_eq_bind, Option.bind_eq_some_iff] at h
    obtain ⟨call, found, call', acknowledged, h⟩ := h
    obtain ⟨whole, ok, written, rfl⟩ := Call.acknowledge_same acknowledged
    split at h
    · rename_i finished
      obtain rfl : ok = true := by simpa using finished
      split at h
      · rename_i posts completed
        obtain ⟨rfl, rfl⟩ := Prod.mk.inj (Option.some.inj h)
        exact .completed found written completed
      · rename_i trap
        obtain ⟨rfl, rfl⟩ := Prod.mk.inj (Option.some.inj h)
        exact .trapped found written trap
    · obtain ⟨rfl, rfl⟩ := Prod.mk.inj (Option.some.inj h)
      exact .moved found (Call.unfinished written (by simp)) (by simp) (by simp) (by simp)

theorem handle_ok {currentUser : Option String} {fs : Firestore} {c c' : MainController} {e : MainEvent}
    {write : Option ServerWrite} (h : c.handle currentUser fs e = some (c', write)) :
    c.crashed = false ∧ Handled currentUser fs c e c' write := by
  unfold handle at h
  split at h
  · cases h
  rename_i running
  refine ⟨by simpa using running, ?_⟩
  cases e with
  | refreshPosts =>
    obtain ⟨rfl, rfl⟩ := Prod.mk.inj (Option.some.inj h)
    exact .refreshPosts
  | followsSnapshot l k =>
    simp only [Option.bind_eq_bind, Option.bind_eq_some_iff, Option.pure_def, Option.some.injEq] at h
    obtain ⟨⟨listener, data, listeners⟩, delivered, same⟩ := h
    obtain ⟨rfl, rfl⟩ := Prod.mk.inj same
    exact .followsSnapshot delivered
  | followsFails l =>
    obtain ⟨rfl, rfl⟩ := Prod.mk.inj (Option.some.inj h)
    exact .followsFails
  | userLookup n ok =>
    simp only [Option.bind_eq_bind, Option.bind_eq_some_iff, Option.pure_def, Option.some.injEq,
      Prod.mk.injEq] at h
    obtain ⟨lookup, found, rfl, rfl⟩ := h
    cases ok with
    | true => exact .userFound found
    | false => exact .userFails
  | photoSnapshot l n now =>
    simp only [Option.bind_eq_bind, Option.bind_eq_some_iff, Option.pure_def, Option.some.injEq] at h
    obtain ⟨⟨listener, listeners⟩, delivered, same⟩ := h
    obtain ⟨rfl, rfl⟩ := Prod.mk.inj same
    exact .photoSnapshot delivered
  | photoFails l =>
    obtain ⟨rfl, rfl⟩ := Prod.mk.inj (Option.some.inj h)
    exact .photoFails
  | likeLookup n ok =>
    simp only [Option.bind_eq_bind, Option.bind_eq_some_iff, Option.pure_def, Option.some.injEq,
      Prod.mk.injEq] at h
    obtain ⟨lookup, found, rfl, rfl⟩ := h
    cases ok with
    | true => exact .likeFound found
    | false => exact .likeFails
  | tap row =>
    simp only [Option.bind_eq_bind, Option.bind_eq_some_iff, Option.pure_def, Option.some.injEq,
      Prod.mk.injEq] at h
    obtain ⟨call, called, rfl, rfl⟩ := h
    exact .tap called
  | like e => exact likeStep_ok h

theorem Handled.write_like {currentUser : Option String} {fs : Firestore} {c c' : MainController} {e : MainEvent}
    {w : ServerWrite} (h : Handled currentUser fs c e c' (some w)) : ∃ postID v, w = .like postID v := by
  cases h with
  | moved _ _ liked => exact (liked w rfl).elim (fun h => ⟨_, _, h⟩) (fun h => ⟨_, _, h⟩)

theorem userFound_cases (c : MainController) (lookup : UserLookup) (userData : Option Dict) (fs : Firestore) :
    ∃ validUser crashed listeners,
      c.userFound lookup userData fs = { c with validUser, crashed, photoListeners := c.photoListeners ++ listeners } ∧
      (listeners = [] ∨ ∃ data, userData = some data ∧ (User.init data).userID ≠ "" ∧
        listeners = [⟨(User.init data).userID, User.init data, (fs.photoPosts (User.init data).userID).length,
          fs.photoPosts (User.init data).userID⟩]) := by
  cases userData with
  | none => exact ⟨c.validUser, c.crashed, [], by simp [userFound], .inl rfl⟩
  | some data =>
    by_cases empty : (User.init data).userID = ""
    · exact ⟨_, true, [], by simp only [userFound, getPosts, if_pos empty, List.append_nil]; rfl, .inl rfl⟩
    · exact ⟨_, c.crashed, _, by simp only [userFound, getPosts, if_neg empty]; rfl, .inr ⟨data, rfl, empty, rfl⟩⟩

theorem notify_same (c : MainController) (fs fs' : Firestore) (w : ServerWrite) :
    ∃ followsListeners photoListeners, c.notify fs fs' w = { c with followsListeners, photoListeners } := by
  cases w with
  | photoPost => exact ⟨_, _, rfl⟩
  | follow =>
    rw [notify]
    split <;> exact ⟨_, _, rfl⟩
  | _ => exact ⟨_, _, rfl⟩

theorem likeFound_posts (c : MainController) (lookup : LikeLookup) (likeData : Option Dict) :
    ∃ liked, (c.likeFound lookup likeData).posts.Perm ({ lookup.post with liked } :: c.posts) := by
  refine ⟨decide (asInt (value likeData lookup.validUserID) = some 1), ?_⟩
  refine (List.perm_insertionSort newerFirst _).trans ?_
  exact (List.reverse_perm _).trans (List.perm_append_singleton _ _)

end MainController

/-! ### Runs -/

structure Feed where
  fs : Firestore
  main : MainController

namespace Feed

inductive Event where
  | main (e : MainEvent)
  | remote (w : ServerWrite)

def write (s : Feed) (w : ServerWrite) : Option Feed := do
  let fs ← s.fs.apply w
  return ⟨fs, s.main.notify s.fs fs w⟩

def step (account : String) (s : Feed) : Event → Option Feed
  | .main e => do
      let (main, w) ← s.main.handle (some account) s.fs e
      match w with
      | none => return ⟨s.fs, main⟩
      | some w => Feed.write ⟨s.fs, main⟩ w
  | .remote w => s.write w

def viewDidLoad (account : String) (fs : Firestore) : Feed := ⟨fs, MainController.viewDidLoad (some account) fs⟩

/-- The condition `H` on the events at the screen and `W` on the writes of others. -/
def Meets (H : Firestore → MainController → MainEvent → Prop) (W : Firestore → ServerWrite → Prop) (s : Feed) :
    Event → Prop
  | .main e => H s.fs s.main e
  | .remote w => W s.fs w

theorem write_ok {s t : Feed} {w : ServerWrite} (h : s.write w = some t) :
    ∃ fs, s.fs.apply w = some fs ∧ t = ⟨fs, s.main.notify s.fs fs w⟩ := by
  simp only [write, Option.bind_eq_bind, Option.bind_eq_some_iff, Option.pure_def] at h
  obtain ⟨fs, applied, same⟩ := h
  exact ⟨fs, applied, (Option.some.inj same).symm⟩

/-- An invariant of the feed is kept by a step when the screen's handlers keep it over a fixed store
and every write keeps it. -/
theorem step_keeps {account : String} {I : Firestore → MainController → Prop}
    {H : Firestore → MainController → MainEvent → Prop} {W : Firestore → ServerWrite → Prop}
    (likes : ∀ fs c e postID v, H fs c e → W fs (.like postID v))
    (handled : ∀ fs c e c' w, I fs c → H fs c e → c.crashed = false →
      MainController.Handled (some account) fs c e c' w → I fs c')
    (written : ∀ fs c w fs', I fs c → W fs w → fs.apply w = some fs' → I fs' (c.notify fs fs' w))
    {s t : Feed} {e : Event} (h : I s.fs s.main) (meets : Meets H W s e) (stepped : step account s e = some t) :
    I t.fs t.main := by
  cases e with
  | main e =>
    simp only [step, Option.bind_eq_bind, Option.bind_eq_some_iff] at stepped
    obtain ⟨⟨main, w⟩, ok, stepped⟩ := stepped
    obtain ⟨running, outcome⟩ := MainController.handle_ok ok
    have kept := handled _ _ _ _ _ h meets running outcome
    cases w with
    | none =>
      obtain rfl := Option.some.inj stepped
      exact kept
    | some w =>
      obtain ⟨fs, applied, rfl⟩ := write_ok stepped
      obtain ⟨postID, v, rfl⟩ := outcome.write_like
      exact written _ _ _ _ kept (likes _ _ _ _ _ meets) applied
  | remote w =>
    obtain ⟨fs, applied, rfl⟩ := write_ok stepped
    exact written _ _ _ _ h meets applied

end Feed
end Foti
