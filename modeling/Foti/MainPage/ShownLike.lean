import Foti.Library.Acknowledged
import Foti.MainPage.LikeTaps

/-!
Taps of Like on one entry that may overlap and whose reads and writes may fail. The writes are
acknowledged in the order in which the store applied them, in whatever order they were issued; then
the shown flag is the last acknowledged value, and it settles on the stored one.
-/

namespace Foti.ShownLike
open Document Entries Transition LikeTaps Acknowledged

/-- The calls whose write the store has applied or refused, and those acknowledged, oldest first. -/
structure State where
  feed : Feed
  applied : List Nat := []
  acknowledged : List Nat := []

namespace State

def queues (s : State) : Feed.Event → Option (List Nat × List Nat)
  | .main (.like (.write n _)) => some (s.applied ++ [n], s.acknowledged)
  | .main (.like (.acknowledge n)) =>
      if s.applied.head? = some n then some (s.applied.tail, s.acknowledged ++ [n]) else none
  | _ => some (s.applied, s.acknowledged)

def step (account : String) (s : State) (e : Feed.Event) : Option State := do
  let (applied, acknowledged) ← s.queues e
  let feed ← Feed.step account s.feed e
  return { feed, applied, acknowledged }

end State

def outcome (calls : List LikeCall) (n : Nat) : Option Value :=
  calls[n]?.bind fun call => if call.Applied then call.value else none

/-- The successful writes of a state, over the value that the entry had at first. -/
def State.writes (s : State) (first : Value) : Writes Value where
  first
  acknowledged := s.acknowledged.filterMap (outcome s.feed.main.likeCalls)
  pending := s.applied.filterMap (outcome s.feed.main.likeCalls)

section Outcome
variable {calls : List LikeCall} {n : Nat} {call : LikeCall} {stage : Stage}

theorem outcome_concat (unapplied : ¬ call.Applied) : outcome (calls ++ [call]) = outcome calls := by
  funext m
  rw [outcome, outcome, getElem?_concat]
  split
  · rename_i last
    rw [last, List.getElem?_eq_none (Nat.le_refl _)]
    exact if_neg unapplied
  · rfl

theorem outcome_set_ne {m : Nat} {d : LikeCall} (other : m ≠ n) : outcome (calls.set n d) m = outcome calls m := by
  rw [outcome, outcome, List.getElem?_set_ne other.symm]

theorem outcome_set_same (found : calls[n]? = some call) (d : LikeCall) :
    outcome (calls.set n d) n = if d.Applied then d.value else none := by
  rw [outcome, List.getElem?_set_self (List.getElem?_eq_some_iff.mp found).1]
  rfl

theorem outcome_moved (found : calls[n]? = some call)
    (same : ({ call with stage } : LikeCall).Applied ↔ call.Applied) :
    outcome (calls.set n { call with stage }) = outcome calls := by
  funext m
  by_cases here : m = n
  · subst here
    rw [outcome_set_same found, outcome, found]
    simp only [same, Option.bind_some]
  · exact outcome_set_ne here

end Outcome

def StageAt (calls : List LikeCall) (n : Nat) (P : Stage → Prop) : Prop :=
  ∃ call, calls[n]? = some call ∧ P call.stage

def Written (stage : Stage) : Prop := ∃ whole ok, stage = .written whole ok

def Done (stage : Stage) : Prop := ∃ ok, stage = .finished ok

section StageAt
variable {calls : List LikeCall} {n m : Nat} {call d : LikeCall} {P : Stage → Prop}

theorem stageAt_ne (h : StageAt calls m P) (found : calls[n]? = some call) (elsewhere : ¬ P call.stage) : m ≠ n := by
  rintro rfl
  obtain ⟨c, there, at_stage⟩ := h
  obtain rfl := Option.some.inj (found.symm.trans there)
  exact elsewhere at_stage

theorem stageAt_set_ne (h : StageAt calls m P) (other : m ≠ n) : StageAt (calls.set n d) m P := by
  obtain ⟨c, there, at_stage⟩ := h
  exact ⟨c, by rw [List.getElem?_set_ne other.symm, there], at_stage⟩

theorem stageAt_set (found : calls[n]? = some call) (at_stage : P d.stage) : StageAt (calls.set n d) n P :=
  ⟨d, List.getElem?_set_self (List.getElem?_eq_some_iff.mp found).1, at_stage⟩

theorem stageAt_concat (h : StageAt calls m P) : StageAt (calls ++ [d]) m P := by
  obtain ⟨c, there, at_stage⟩ := h
  exact ⟨c, by rw [List.getElem?_append_left (List.getElem?_eq_some_iff.mp there).1, there], at_stage⟩

end StageAt

/-- The entry is as `s.writes` says, and the queues hold the calls at their stages. -/
structure Inv (account postID : String) (row : Nat) (entry : Post) (s : State) : Prop where
  shown : ∃ liked, s.feed.main.posts[row]? = some { entry with liked } ∧
    likeValue liked = (s.writes (likeValue entry.liked)).shown
  stored : stored account postID s.feed.fs = (s.writes (likeValue entry.liked)).stored
  calls : ∀ call ∈ s.feed.main.likeCalls, Done call.stage ∨
    ∃ liked, call = entryCall account postID row entry liked call.stage
  applied : ∀ n ∈ s.applied, StageAt s.feed.main.likeCalls n Written
  distinct : s.applied.Nodup
  acknowledged : ∀ n ∈ s.acknowledged, StageAt s.feed.main.likeCalls n Done

section Step
variable {account postID : String} {row : Nat} {entry : Post} {s : State} {n : Nat} {call : LikeCall}

theorem moved_inv (stage : Stage) (h : Inv account postID row entry s) (found : s.feed.main.likeCalls[n]? = some call)
    (apart : n ∉ s.applied) (going : ¬ Done call.stage)
    (unapplied : ({ call with stage } : LikeCall).Applied ↔ call.Applied) :
    Inv account postID row entry { s with feed := moved s.feed n call stage } := by
  have outcome_same := outcome_moved found unapplied
  have writes : State.writes { s with feed := moved s.feed n call stage } = s.writes := by
    funext first
    simp only [State.writes, moved, outcome_same]
  constructor
  case shown => exact writes ▸ h.shown
  case stored => exact writes ▸ h.stored
  case calls =>
    refine forall_mem_set h.calls (.inr ?_)
    obtain ⟨liked, same⟩ := (h.calls call (List.mem_of_getElem? found)).resolve_left going
    exact ⟨liked, by rw [same]; rfl⟩
  case applied =>
    intro m hm
    exact stageAt_set_ne (h.applied m hm) fun same => apart (same ▸ hm)
  case distinct => exact h.distinct
  case acknowledged =>
    intro m hm
    exact stageAt_set_ne (h.acknowledged m hm) (stageAt_ne (h.acknowledged m hm) found going)

theorem tap_inv (h : Inv account postID row entry s) (hasID : entry.id = some postID)
    (called : postLiked s.feed.main.posts row (some account) = some call) :
    Inv account postID row entry { s with
      feed := { s.feed with main := { s.feed.main with likeCalls := s.feed.main.likeCalls ++ [call] } } } := by
  obtain ⟨liked, shown, value⟩ := h.shown
  obtain rfl := entry_call shown hasID called
  have outcome_same : outcome (s.feed.main.likeCalls ++ [entryCall account postID row entry liked .reading]) =
      outcome s.feed.main.likeCalls := outcome_concat id
  constructor
  case shown => exact ⟨liked, shown, by simpa only [State.writes, outcome_same] using value⟩
  case stored => simpa only [State.writes, outcome_same] using h.stored
  case calls => exact forall_mem_concat h.calls (.inr ⟨liked, rfl⟩)
  case applied => exact fun m hm => stageAt_concat (h.applied m hm)
  case distinct => exact h.distinct
  case acknowledged => exact fun m hm => stageAt_concat (h.acknowledged m hm)

theorem frame_inv {feed : Feed} (h : Inv account postID row entry s) (posts : feed.main.posts = s.feed.main.posts)
    (likeCalls : feed.main.likeCalls = s.feed.main.likeCalls) (likes : feed.fs.likes postID = s.feed.fs.likes postID) :
    Inv account postID row entry { s with feed } := by
  have writes : State.writes { s with feed } = s.writes := by
    funext first
    simp only [State.writes, likeCalls]
  constructor
  case shown => exact writes ▸ posts ▸ h.shown
  case stored => exact writes ▸ (stored_congr likes).trans h.stored
  case calls => exact likeCalls ▸ h.calls
  case applied => exact likeCalls ▸ h.applied
  case distinct => exact h.distinct
  case acknowledged => exact likeCalls ▸ h.acknowledged

/-! A refused write passes through the queues unseen. -/

theorem refused_queued (h : Inv account postID row entry s) (written : StageAt s.feed.main.likeCalls n Written)
    (unseen : outcome s.feed.main.likeCalls n = none) (new : n ∉ s.applied) :
    Inv account postID row entry { s with applied := s.applied ++ [n] } := by
  have writes : State.writes { s with applied := s.applied ++ [n] } = s.writes := by
    funext first
    simp [State.writes, unseen]
  exact { h with
    shown := writes ▸ h.shown
    stored := writes ▸ h.stored
    applied := forall_mem_concat h.applied written
    distinct := (List.perm_append_singleton n s.applied).nodup_iff.mpr (List.nodup_cons.mpr ⟨new, h.distinct⟩) }

theorem refused_dropped {rest : List Nat} (h : Inv account postID row entry s) (oldest : s.applied = n :: rest)
    (unseen : outcome s.feed.main.likeCalls n = none) : Inv account postID row entry { s with applied := rest } := by
  have writes : State.writes { s with applied := rest } = s.writes := by
    funext first
    simp [State.writes, oldest, unseen]
  have distinct := h.distinct
  have applied := h.applied
  rw [oldest] at distinct applied
  exact { h with
    shown := writes ▸ h.shown
    stored := writes ▸ h.stored
    applied := (List.forall_mem_cons.mp applied).2
    distinct := (List.nodup_cons.mp distinct).2 }

theorem refused_listed (h : Inv account postID row entry s) (done : StageAt s.feed.main.likeCalls n Done)
    (unseen : outcome s.feed.main.likeCalls n = none) :
    Inv account postID row entry { s with acknowledged := s.acknowledged ++ [n] } := by
  have writes : State.writes { s with acknowledged := s.acknowledged ++ [n] } = s.writes := by
    funext first
    simp [State.writes, unseen]
  exact { h with
    shown := writes ▸ h.shown
    stored := writes ▸ h.stored
    acknowledged := forall_mem_concat h.acknowledged done }

theorem written_inv {whole : Bool} {d : Doc String Value} (h : Inv account postID row entry s)
    (found : s.feed.main.likeCalls[n]? = some call) (writing : call.stage = .writing whole)
    (applied : (call.write whole).apply (s.feed.fs.likes call.closure.postID) = some d) :
    Inv account postID row entry { s with feed := wrote s.feed n call whole d, applied := s.applied ++ [n] } := by
  have unwritten : ¬ Written call.stage := by simp [Written, writing]
  have going : ¬ Done call.stage := by simp [Done, writing]
  -- The call stands in no queue yet, so the outcomes of the queued ones stay.
  have apart : ∀ m ∈ s.applied, m ≠ n := fun m hm => stageAt_ne (h.applied m hm) found unwritten
  have earlier : ∀ m ∈ s.acknowledged, m ≠ n := fun m hm => stageAt_ne (h.acknowledged m hm) found going
  obtain ⟨liked, same⟩ := (h.calls call (List.mem_of_getElem? found)).resolve_left going
  have key : call.key = account ∧ call.value = some (likeValue !liked) ∧ call.closure.postID = postID := by
    rw [same]
    exact ⟨rfl, rfl, rfl⟩
  have seen : outcome (wrote s.feed n call whole d).main.likeCalls n = some (likeValue !liked) := by
    rw [← key.2.1]
    exact (outcome_set_same found _).trans (if_pos rfl)
  have writes : State.writes { s with feed := wrote s.feed n call whole d, applied := s.applied ++ [n] } =
      fun first => (s.writes first).apply (likeValue !liked) := by
    funext first
    have acknowledged : s.acknowledged.filterMap (outcome (wrote s.feed n call whole d).main.likeCalls) =
        s.acknowledged.filterMap (outcome s.feed.main.likeCalls) :=
      List.filterMap_congr fun m hm => outcome_set_ne (earlier m hm)
    have pending : s.applied.filterMap (outcome (wrote s.feed n call whole d).main.likeCalls) =
        s.applied.filterMap (outcome s.feed.main.likeCalls) :=
      List.filterMap_congr fun m hm => outcome_set_ne (apart m hm)
    simp [State.writes, Writes.apply, acknowledged, pending, seen]
  have held : value d account = some (likeValue !liked) := by
    rw [← key.1, ← key.2.1]
    exact apply_value_same applied
  constructor
  case shown =>
    rw [writes, Writes.shown_apply]
    exact h.shown
  case stored =>
    rw [writes, Writes.stored_apply, wrote, key.2.2]
    exact stored_update held
  case calls => exact forall_mem_set h.calls (.inr ⟨liked, by rw [same]; rfl⟩)
  case applied =>
    refine forall_mem_concat (fun m hm => stageAt_set_ne (h.applied m hm) (apart m hm)) ?_
    exact stageAt_set found ⟨whole, true, rfl⟩
  case distinct =>
    have new : n ∉ s.applied := fun hn => apart n hn rfl
    exact (List.perm_append_singleton n s.applied).nodup_iff.mpr (List.nodup_cons.mpr ⟨new, h.distinct⟩)
  case acknowledged => exact fun m hm => stageAt_set_ne (h.acknowledged m hm) (earlier m hm)

theorem completed_inv {whole : Bool} {posts : List Post} {rest : List Nat} (h : Inv account postID row entry s)
    (found : s.feed.main.likeCalls[n]? = some call) (written : call.stage = .written whole true)
    (completed : call.completion s.feed.main.posts = some posts) (oldest : s.applied = n :: rest) :
    Inv account postID row entry
      { feed := { s.feed with main := { s.feed.main with
          posts, likeCalls := s.feed.main.likeCalls.set n { call with stage := .finished true } } }
        applied := rest
        acknowledged := s.acknowledged ++ [n] } := by
  have going : ¬ Done call.stage := by simp [Done, written]
  have distinct := h.distinct
  have in_line := h.applied
  rw [oldest] at distinct in_line
  obtain ⟨apart, distinct⟩ := List.nodup_cons.mp distinct
  obtain ⟨liked, same⟩ := (h.calls call (List.mem_of_getElem? found)).resolve_left going
  have unchanged : outcome (s.feed.main.likeCalls.set n { call with stage := .finished true }) =
      outcome s.feed.main.likeCalls := outcome_moved found (by simp [Call.Applied, written])
  have seen : outcome s.feed.main.likeCalls n = some (likeValue !liked) := by
    have value : call.value = some (likeValue !liked) := by rw [same]; rfl
    simp [outcome, found, Call.Applied, written, value]
  have writes : ∀ first, State.writes
      { feed := { s.feed with main := { s.feed.main with
          posts, likeCalls := s.feed.main.likeCalls.set n { call with stage := .finished true } } }
        applied := rest
        acknowledged := s.acknowledged ++ [n] } first =
      (s.writes first).acknowledge (likeValue !liked) (rest.filterMap (outcome s.feed.main.likeCalls)) := by
    intro first
    simp [State.writes, Writes.acknowledge, unchanged, seen]
  have first_in_line : ∀ first, (s.writes first).pending =
      likeValue (!liked) :: rest.filterMap (outcome s.feed.main.likeCalls) := by
    intro first
    simp [State.writes, oldest, seen]
  obtain ⟨before, shown, _⟩ := h.shown
  obtain ⟨put, shown⟩ := entry_completion account postID entry liked call.stage shown
  rw [same, put] at completed
  obtain rfl := Option.some.inj completed
  constructor
  case shown => exact ⟨!liked, shown, by rw [writes, Writes.shown_acknowledge]⟩
  case stored =>
    rw [writes, Writes.stored_acknowledge (first_in_line _)]
    exact h.stored
  case calls => exact forall_mem_set h.calls (.inl ⟨true, rfl⟩)
  case applied =>
    intro m hm
    exact stageAt_set_ne ((List.forall_mem_cons.mp in_line).2 m hm) fun same => apart (same ▸ hm)
  case distinct => exact distinct
  case acknowledged =>
    refine forall_mem_concat (fun m hm => ?_) (stageAt_set found ⟨true, rfl⟩)
    exact stageAt_set_ne (h.acknowledged m hm) (stageAt_ne (h.acknowledged m hm) found going)

theorem move_inv {applied acknowledged : List Nat} {e : CallEvent} {t : Feed} (h : Inv account postID row entry s)
    (queued : s.queues (.main (.like e)) = some (applied, acknowledged))
    (found : s.feed.main.likeCalls[n]? = some call) (moves : Moves s.feed n call e t) :
    Inv account postID row entry { feed := t, applied, acknowledged } := by
  have waiting : ¬ Written call.stage → n ∉ s.applied := fun unwritten hn =>
    stageAt_ne (h.applied n hn) found unwritten rfl
  cases moves with
  | @read ok reading =>
    obtain ⟨rfl, rfl⟩ := Prod.mk.inj (Option.some.inj queued)
    refine moved_inv _ h found (waiting (by simp [Written, reading])) (by simp [Done, reading]) ?_
    cases ok <;> simp [Call.Applied, reading]
  | @refused ok whole writing refused =>
    obtain ⟨rfl, rfl⟩ := Prod.mk.inj (Option.some.inj queued)
    have apart := waiting (by simp [Written, writing])
    have kept := moved_inv (.written whole false) h found apart (by simp [Done, writing])
      (by simp [Call.Applied, writing])
    refine refused_queued kept (stageAt_set found ⟨whole, false, rfl⟩) ?_ apart
    exact (outcome_set_same found _).trans (if_neg Bool.false_ne_true)
  | written writing applied =>
    obtain ⟨rfl, rfl⟩ := Prod.mk.inj (Option.some.inj queued)
    exact written_inv h found writing applied
  | @failed whole written =>
    obtain ⟨oldest, same⟩ := Option.ite_none_right_eq_some.mp queued
    obtain ⟨rest, line⟩ := List.head?_eq_some_iff.mp oldest
    obtain ⟨rfl, rfl⟩ := Prod.mk.inj (Option.some.inj same)
    have unseen : outcome s.feed.main.likeCalls n = none := by simp [outcome, found, Call.Applied, written]
    have dropped := refused_dropped h line unseen
    have apart : n ∉ rest := (List.nodup_cons.mp (line ▸ h.distinct)).1
    have kept := moved_inv (.finished false) dropped found apart (by simp [Done, written])
      (by simp [Call.Applied, written])
    rw [line]
    refine refused_listed kept (stageAt_set found ⟨false, rfl⟩) ?_
    exact (outcome_set_same found _).trans (if_neg Bool.false_ne_true)
  | completed written posts_ok =>
    obtain ⟨oldest, same⟩ := Option.ite_none_right_eq_some.mp queued
    obtain ⟨rest, line⟩ := List.head?_eq_some_iff.mp oldest
    obtain ⟨rfl, rfl⟩ := Prod.mk.inj (Option.some.inj same)
    rw [line]
    exact completed_inv h found written posts_ok line
  | trapped written trap =>
    obtain ⟨_, shown, _⟩ := h.shown
    have going : ¬ Done call.stage := by simp [Done, written]
    obtain ⟨liked, same⟩ := (h.calls call (List.mem_of_getElem? found)).resolve_left going
    rw [same, (entry_completion account postID entry liked _ shown).1] at trap
    cases trap

theorem step_inv {e : Feed.Event} {t : State} (h : Inv account postID row entry s) (hasID : entry.id = some postID)
    (on : OnEntry postID row e) (stepped : s.step account e = some t) : Inv account postID row entry t := by
  obtain ⟨⟨applied, acknowledged⟩, queued, stepped⟩ := Option.bind_eq_some_iff.mp stepped
  obtain ⟨feed, fed, same⟩ := Option.bind_eq_some_iff.mp stepped
  obtain rfl := Option.some.inj same
  cases entryStep on fed with
  | tap called =>
    obtain ⟨rfl, rfl⟩ := Prod.mk.inj (Option.some.inj queued)
    exact tap_inv h hasID called
  | like found moves => exact move_inv h queued found moves
  | frame untapped uncalled posts likeCalls likes =>
    have unqueued : s.queues e = some (s.applied, s.acknowledged) := by
      unfold State.queues
      split
      · exact (uncalled _ rfl).elim
      · exact (uncalled _ rfl).elim
      · rfl
    obtain ⟨rfl, rfl⟩ := Prod.mk.inj (Option.some.inj (unqueued.symm.trans queued))
    exact frame_inv h posts likeCalls likes

end Step

/-- In every state the shown flag is the value of the last acknowledged write, or the first one. When no
call is outstanding it is the stored value. -/
theorem shown_settles (account postID : String) (row : Nat) (entry : Post) (s : Feed) (events : List Feed.Event)
    (t : State) (found : s.main.posts[row]? = some entry) (hasID : entry.id = some postID)
    (idle : ∀ call ∈ s.main.likeCalls, call.Finished)
    (agrees : stored account postID s.fs = likeValue entry.liked)
    (h : run (State.step account) { feed := s } events = some t) (on : ∀ e ∈ events, OnEntry postID row e) :
    ∃ liked, t.feed.main.posts[row]? = some { entry with liked } ∧
      likeValue liked = (t.acknowledged.filterMap (outcome t.feed.main.likeCalls)).getLast?.getD (likeValue entry.liked) ∧
      ((∀ call ∈ t.feed.main.likeCalls, call.Finished) → stored account postID t.feed.fs = likeValue liked) := by
  have initial : Inv account postID row entry { feed := s } := by
    constructor
    case shown => exact ⟨entry.liked, found, rfl⟩
    case stored => exact agrees
    case calls => exact fun call hcall => .inl (idle call hcall)
    case applied => exact List.forall_mem_nil _
    case distinct => exact List.nodup_nil
    case acknowledged => exact List.forall_mem_nil _
  have inv := run_keeps_along (fun _ _ _ hs on stepped => step_inv hs hasID on stepped) h
    (along_of_forall fun e he _ => on e he) initial
  obtain ⟨liked, shown, value⟩ := inv.shown
  refine ⟨liked, shown, value, fun finished => ?_⟩
  have settled : t.applied = [] := by
    refine List.eq_nil_iff_forall_not_mem.mpr fun n hn => ?_
    obtain ⟨call, there, whole, ok, written⟩ := inv.applied n hn
    exact Call.unfinished written (by simp) (finished call (List.mem_of_getElem? there))
  rw [inv.stored, value]
  exact Writes.stored_of_settled (by simp [State.writes, settled])

/-- Two taps that overlap, with their reads answered in the other order, and a third one that fails. -/
def overlapping : List Feed.Event :=
  [.main (.tap 0), .main (.tap 0), like (.read 1 true), like (.read 0 true), like (.write 1 true), .main (.tap 0),
   like (.acknowledge 1), like (.read 2 true), like (.write 0 true), like (.write 2 false), like (.acknowledge 0),
   like (.acknowledge 2)]

theorem shown_settles_overlapping : ∃ t, run (State.step "alice") { feed := unliked } overlapping = some t ∧
    (∀ call ∈ t.feed.main.likeCalls, call.Finished) ∧
    ∃ liked, t.feed.main.posts[0]? = some { (Likes.feedOf "p")[0] with liked } ∧
      likeValue liked = (t.acknowledged.filterMap (outcome t.feed.main.likeCalls)).getLast?.getD (likeValue false) ∧
      ((∀ call ∈ t.feed.main.likeCalls, call.Finished) → stored "alice" "p" t.feed.fs = likeValue liked) :=
  ⟨_, rfl, by decide, shown_settles "alice" "p" 0 (Likes.feedOf "p")[0] unliked overlapping _ rfl rfl (by decide)
    rfl rfl (by decide)⟩

end Foti.ShownLike
