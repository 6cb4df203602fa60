import Foti.MainPage.PostLiked
import Foti.Library.Overtaken

/-!
The `Likes` document of one post under the `postLiked` calls of any number of accounts. A call
that found no document replaces the document, also when other accounts have written it meanwhile.
`likes_kept_iff` says exactly in which runs every account keeps its like.
-/

namespace Foti.Likes
open Document Transition

abbrev State := Shared String Value LikeClosure

inductive Event where
  | tap (validUserID : String) (posts : List Post) (row : Nat)
  | call (e : CallEvent)

/-- Only taps on the entry of `postID` concern its document. -/
def step (postID : String) (s : State) : Event → Option State
  | .tap validUserID posts row => do
      let c ← postLiked posts row (some validUserID)
      if c.closure.postID = postID then some (s.start c) else none
  | .call e => s.step e

/-- An account taps only when its earlier calls have finished. -/
def TapsAlone (s : State) : Event → Prop
  | .tap validUserID _ _ => s.Idle validUserID
  | .call _ => True

instance (s : State) (e : Event) : Decidable (TapsAlone s e) := by
  cases e <;> unfold TapsAlone Shared.Idle <;> infer_instance

def Done (s : State) : Prop := ∀ c ∈ s.calls, c.stage = .finished true

instance (s : State) : Decidable (Done s) := by unfold Done; infer_instance

/-- Every account that called has the value of its last call, every other one its starting value. -/
def Kept (first : Doc String Value) (s : State) : Prop :=
  (∀ n c, s.IsLast n c → value s.doc c.key = c.value) ∧
  ∀ validUserID, (∀ c ∈ s.calls, c.key ≠ validUserID) → value s.doc validUserID = value first validUserID

def Event.called : Event → Option CallEvent
  | .tap .. => none
  | .call e => some e

/-- The two values of `addValue`. -/
def LikeValue (v : Option Value) : Prop := v = some (.int 0) ∨ v = some (.int 1)

theorem tap_ok {postID validUserID : String} {posts : List Post} {row : Nat} {s t : State}
    (h : step postID s (.tap validUserID posts row) = some t) :
    ∃ c : LikeCall, c.key = validUserID ∧ c.stage = .reading ∧ LikeValue c.value ∧ t = s.start c := by
  simp only [step, Option.bind_eq_bind, Option.bind_eq_some_iff, Option.ite_none_right_eq_some] at h
  obtain ⟨c, called, _, same⟩ := h
  obtain ⟨post, _, uid, _, _, signedIn, rfl⟩ := postLiked_ok called
  obtain rfl := Option.some.inj signedIn
  refine ⟨_, rfl, rfl, ?_, (Option.some.inj same).symm⟩
  cases post.liked <;> simp [LikeValue]

theorem hosts (postID : String) : Shared.Hosts id Event.called LikeValue (step postID) := by
  intro s e t h
  cases e with
  | tap validUserID posts row =>
    obtain ⟨c, _, reading, value, rfl⟩ := tap_ok h
    exact .inr ⟨c, .inl reading, value, rfl⟩
  | call e => exact h

theorem step_sequential {postID : String} {first : Doc String Value} {s t : State} {e : Event}
    (h : Shared.Sequential first s) (alone : TapsAlone s e) (stepped : step postID s e = some t) :
    Shared.Sequential first t := by
  cases e with
  | tap validUserID posts row =>
    obtain ⟨c, rfl, reading, _, rfl⟩ := tap_ok stepped
    exact Shared.start_sequential h alone (by simp [Call.Applied, reading])
  | call e => exact Shared.step_sequential h stepped

theorem kept_iff_intended {first : Doc String Value} {s : State} (consistent : Shared.Consistent first s)
    (sequential : Shared.Sequential first s) (done : Done s) :
    Kept first s ↔ ∀ key, value s.doc key = intended first s.log key := by
  have applied : ∀ c ∈ s.calls, c.Applied := fun c hc => by simp [Call.Applied, done c hc]
  have called : ∀ n c, s.IsLast n c → intended first s.log c.key = c.value := fun n c last =>
    sequential.latest n c last (applied c (List.mem_of_getElem? last.1))
  constructor
  · rintro ⟨latest, others⟩ key
    by_cases absent : ∀ c ∈ s.calls, c.key ≠ key
    · rw [others key absent, consistent.untouched absent]
    · simp only [not_forall, not_not] at absent
      obtain ⟨c, hc, rfl⟩ := absent
      obtain ⟨n, d, last, same⟩ := Shared.exists_last hc
      rw [← same, latest n d last, called n d last]
  · intro same
    exact ⟨fun n c last => by rw [same, called n c last],
      fun key absent => by rw [same, consistent.untouched absent]⟩

section Runs
variable {postID : String} {first : Doc String Value} {events : List Event} {t : State}

theorem kept_iff_erased (h : run (step postID) (Shared.fresh first) events = some t)
    (alone : Along (step postID) TapsAlone (Shared.fresh first) events) (done : Done t) :
    Kept first t ↔ ∀ validUserID, ¬ Erased first t.log validUserID := by
  have consistent : Shared.Consistent first t :=
    run_keeps (fun _ _ _ hs stepped => Shared.moves_consistent hs ((hosts postID).moves stepped)) h
      (Shared.fresh_consistent first)
  have sequential : Shared.Sequential first t :=
    run_keeps_along (fun _ _ _ hs meets stepped => step_sequential hs meets stepped) h alone
      (Shared.fresh_sequential first)
  rw [kept_iff_intended consistent sequential done]
  exact forall_congr' fun key => replays_value_iff consistent.replays key

theorem run_traced (h : run (step postID) (Shared.fresh first) events = some t) (done : Done t) :
    Shared.Traced first (events.filterMap Event.called) t :=
  (hosts postID).run_traced h (Shared.clean_of_done done) (Shared.fresh_traced first)

/-- Where the document exists at the start, no like is lost. -/
theorem likes_kept_existing (h : run (step postID) (Shared.fresh first) events = some t)
    (alone : Along (step postID) TapsAlone (Shared.fresh first) events) (done : Done t) (existing : first.isSome) :
    Kept first t :=
  (kept_iff_erased h alone done).mpr fun key => (run_traced h done).not_erased existing key

end Runs

/-- In every run without overlapping calls of one account, the likes are kept exactly when no account is
overtaken: the document is missing at the start, and after the account's last write comes the `setData`
of another account whose read was answered before any write. -/
theorem likes_kept_iff (postID : String) (first : Doc String Value) (events : List Event) (t : State)
    (h : run (step postID) (Shared.fresh first) events = some t)
    (alone : Along (step postID) TapsAlone (Shared.fresh first) events) (done : Done t) :
    Kept first t ↔ ∀ validUserID, ¬ Shared.Overtaken first t.subjects (events.filterMap Event.called) validUserID := by
  rw [kept_iff_erased h alone done]
  exact forall_congr' fun key => not_congr ((run_traced h done).erased key)

def feedOf (postID : String) : List Post :=
  [{ id := some postID, user := ⟨"carol", "carol", "url"⟩, postImageURL := some "url", imageWidth := none,
     imageHeight := none, userID := some "carol", message := some "hello", postDate := 1 }]

def race : List Event :=
  [.tap "alice" (feedOf "p") 0, .tap "bob" (feedOf "p") 0, .call (.read 0 true), .call (.read 1 true),
   .call (.write 0 true), .call (.acknowledge 0), .call (.write 1 true), .call (.acknowledge 1)]

theorem likes_kept_iff_race : ∃ t, run (step "p") (Shared.fresh none) race = some t ∧
    (Kept none t ↔ ∀ validUserID, ¬ Shared.Overtaken none t.subjects (race.filterMap Event.called) validUserID) :=
  ⟨_, rfl, likes_kept_iff "p" none race _ rfl (by decide) (by decide)⟩

/-- The second `setData` drops the first account's like, although both calls succeeded. -/
theorem race_loses_like : ∃ t, run (step "p") (Shared.fresh none) race = some t ∧
    Along (step "p") TapsAlone (Shared.fresh none) race ∧ Done t ∧
    value t.doc "alice" = none ∧ value t.doc "bob" = some (.int 1) ∧ ¬ Kept none t := by
  refine ⟨_, rfl, by decide, by decide, by decide, by decide, ?_⟩
  rintro ⟨latest, _⟩
  refine absurd (latest 0 _ ⟨rfl, ?_⟩) (by decide)
  intro m d later found
  match m, later, found with
  | 1, _, found => obtain rfl := Option.some.inj found; decide
  | m + 2, _, found => cases found

end Foti.Likes
