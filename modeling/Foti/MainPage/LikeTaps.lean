import Foti.MainPage.Feed
import Foti.MainPage.Likes

/-!
Taps of Like on one entry of a feed that stays otherwise as it is. A tap writes the flip of the flag
it sees, and the flag follows only when the write is acknowledged, so a tap counts when it waits for
the earlier ones.
-/

namespace Foti.LikeTaps
open Document Entries Listening Transition MainController

def likeValue (liked : Bool) : Value := .int (if liked then 1 else 0)

/-- The account's value in `Likes/{postID}`. A missing one counts as 0. -/
def stored (account postID : String) (fs : Firestore) : Value := (value (fs.likes postID) account).getD (.int 0)

/-- Every tap is on the row, the feed is neither emptied nor grown, and nobody else writes the document. -/
def OnEntry (postID : String) (row : Nat) : Feed.Event → Prop
  | .main (.tap r) => r = row
  | .main .refreshPosts | .main (.likeLookup _ true) => False
  | .remote (.like p _) => p ≠ postID
  | _ => True

instance (postID : String) (row : Nat) (e : Feed.Event) : Decidable (OnEntry postID row e) :=
  match e with
  | .main (.tap r) => inferInstanceAs (Decidable (r = row))
  | .main .refreshPosts | .main (.likeLookup _ true) => inferInstanceAs (Decidable False)
  | .remote (.like p _) => inferInstanceAs (Decidable (p ≠ postID))
  | .main (.followsSnapshot ..) | .main (.followsFails _) | .main (.userLookup ..) | .main (.photoSnapshot ..)
  | .main (.photoFails _) | .main (.likeLookup _ false) | .main (.like _) | .remote (.user ..)
  | .remote (.photoPost ..) | .remote (.comment ..) | .remote (.follow ..) => inferInstanceAs (Decidable True)

def entryCall (account postID : String) (row : Nat) (entry : Post) (liked : Bool) (stage : Stage) : LikeCall :=
  { key := account, value := some (likeValue !liked), closure := ⟨row, { entry with liked }, postID⟩, stage }

/-! ### What a step does to the entry -/

def moved (s : Feed) (n : Nat) (call : LikeCall) (stage : Stage) : Feed :=
  { s with main := { s.main with likeCalls := s.main.likeCalls.set n { call with stage } } }

def wrote (s : Feed) (n : Nat) (call : LikeCall) (whole : Bool) (d : Doc String Value) : Feed :=
  { moved s n call (.written whole true) with
    fs := { s.fs with likes := Function.update s.fs.likes call.closure.postID d } }

inductive Moves (s : Feed) (n : Nat) (call : LikeCall) : CallEvent → Feed → Prop where
  | read {ok : Bool} (reading : call.stage = .reading) : Moves s n call (.read n ok)
      (moved s n call (if ok then .writing (!(s.fs.likes call.closure.postID).isSome) else .finished false))
  | refused {ok whole : Bool} (writing : call.stage = .writing whole)
      (refused : ok = true → (call.write whole).apply (s.fs.likes call.closure.postID) = none) :
      Moves s n call (.write n ok) (moved s n call (.written whole false))
  | written {whole : Bool} {d : Doc String Value} (writing : call.stage = .writing whole)
      (applied : (call.write whole).apply (s.fs.likes call.closure.postID) = some d) :
      Moves s n call (.write n true) (wrote s n call whole d)
  | failed {whole : Bool} (written : call.stage = .written whole false) :
      Moves s n call (.acknowledge n) (moved s n call (.finished false))
  | completed {whole : Bool} {posts : List Post} (written : call.stage = .written whole true)
      (posts_ok : call.completion s.main.posts = some posts) : Moves s n call (.acknowledge n)
      { s with main := { s.main with posts, likeCalls := s.main.likeCalls.set n { call with stage := .finished true } } }
  | trapped {whole : Bool} (written : call.stage = .written whole true) (trap : call.completion s.main.posts = none) :
      Moves s n call (.acknowledge n)
      { s with main := { s.main with
        crashed := true, likeCalls := s.main.likeCalls.set n { call with stage := .finished true } } }

theorem like_ok {account : String} {s t : Feed} {e : CallEvent} (h : Feed.step account s (.main (.like e)) = some t) :
    ∃ n call, s.main.likeCalls[n]? = some call ∧ Moves s n call e t := by
  obtain ⟨⟨main, w⟩, handled, stepped⟩ := Option.bind_eq_some_iff.mp h
  obtain ⟨_, handled⟩ := Option.ite_none_left_eq_some.mp handled
  cases e with
  | read n ok =>
    obtain ⟨call, found, handled⟩ := Option.bind_eq_some_iff.mp handled
    obtain ⟨call', answered, same⟩ := Option.bind_eq_some_iff.mp handled
    obtain ⟨rfl, rfl⟩ := Prod.mk.inj (Option.some.inj same)
    obtain ⟨reading, rfl⟩ := Call.answer_same answered
    obtain rfl := Option.some.inj stepped
    exact ⟨n, call, found, .read reading⟩
  | write n ok =>
    obtain ⟨call, found, handled⟩ := Option.bind_eq_some_iff.mp handled
    dsimp only at handled
    split at handled
    · rename_i whole writing
      obtain ⟨rfl, rfl⟩ := Prod.mk.inj (Option.some.inj handled)
      refine ⟨n, call, found, ?_⟩
      cases applied : (call.write whole).apply (s.fs.likes call.closure.postID) with
      | none =>
        simp only [applied, Option.isSome_none, Bool.and_false] at stepped
        obtain rfl := Option.some.inj stepped
        exact .refused writing fun _ => applied
      | some d =>
        cases ok with
        | false =>
          simp only [Bool.false_and] at stepped
          obtain rfl := Option.some.inj stepped
          exact .refused writing fun accepted => Bool.noConfusion accepted
        | true =>
          simp only [applied, Option.isSome_some, Bool.and_self, if_true] at stepped
          obtain ⟨fs, stored, rfl⟩ := Feed.write_ok stepped
          obtain ⟨d', applied', same⟩ := Option.bind_eq_some_iff.mp stored
          obtain rfl := Option.some.inj (applied.symm.trans applied')
          obtain rfl := Option.some.inj same
          exact .written writing applied
    · cases handled
  | acknowledge n =>
    obtain ⟨call, found, handled⟩ := Option.bind_eq_some_iff.mp handled
    obtain ⟨call', acknowledged, handled⟩ := Option.bind_eq_some_iff.mp handled
    obtain ⟨whole, ok, written, rfl⟩ := Call.acknowledge_same acknowledged
    refine ⟨n, call, found, ?_⟩
    dsimp only at handled
    split at handled
    · rename_i finished
      obtain rfl : ok = true := by simpa using finished
      split at handled
      · rename_i posts completed
        obtain ⟨rfl, rfl⟩ := Prod.mk.inj (Option.some.inj handled)
        obtain rfl := Option.some.inj stepped
        exact .completed written completed
      · rename_i trap
        obtain ⟨rfl, rfl⟩ := Prod.mk.inj (Option.some.inj handled)
        obtain rfl := Option.some.inj stepped
        exact .trapped written trap
    · rename_i failed
      obtain rfl : ok = false := by simpa using failed
      obtain ⟨rfl, rfl⟩ := Prod.mk.inj (Option.some.inj handled)
      obtain rfl := Option.some.inj stepped
      exact .failed written

theorem moves_unfinished {s t : Feed} {n : Nat} {call : LikeCall} {e : CallEvent} (h : Moves s n call e t) :
    ¬ call.Finished := by
  cases h with
  | read reading => exact Call.unfinished reading (by simp)
  | refused writing | written writing => exact Call.unfinished writing (by simp)
  | failed written | completed written | trapped written => exact Call.unfinished written (by simp)

/-- What an event does to the entry: it taps it, moves a call on, or leaves the posts, the calls and
the document as they are. -/
inductive EntryStep (account postID : String) (row : Nat) (s : Feed) : Feed.Event → Feed → Prop where
  | tap {call : LikeCall} (called : postLiked s.main.posts row (some account) = some call) :
      EntryStep account postID row s (.main (.tap row))
        { s with main := { s.main with likeCalls := s.main.likeCalls ++ [call] } }
  | like {e : CallEvent} {n : Nat} {call : LikeCall} {t : Feed} (found : s.main.likeCalls[n]? = some call)
      (moves : Moves s n call e t) : EntryStep account postID row s (.main (.like e)) t
  | frame {e : Feed.Event} {t : Feed} (untapped : ∀ r, e ≠ .main (.tap r)) (uncalled : ∀ c, e ≠ .main (.like c))
      (posts : t.main.posts = s.main.posts) (likeCalls : t.main.likeCalls = s.main.likeCalls)
      (likes : t.fs.likes postID = s.fs.likes postID) : EntryStep account postID row s e t

theorem written_likes (postID : String) {fs fs' : Firestore} {w : ServerWrite} (applied : Firestore.Applied fs w fs')
    (other : ∀ p v, w = .like p v → p ≠ postID) : fs'.likes postID = fs.likes postID := by
  cases applied with
  | like => exact Function.update_of_ne (other _ _ rfl).symm _ _
  | _ => rfl

theorem entryStep {account postID : String} {row : Nat} {s t : Feed} {e : Feed.Event} (on : OnEntry postID row e)
    (stepped : Feed.step account s e = some t) : EntryStep account postID row s e t := by
  cases e with
  | remote w =>
    obtain ⟨fs, applied, rfl⟩ := Feed.write_ok stepped
    obtain ⟨_, _, same⟩ := notify_same s.main s.fs fs w
    have likes := written_likes postID (Firestore.apply_ok applied) (by rintro p v rfl; exact on)
    exact .frame (by simp) (by simp) (by rw [same]) (by rw [same]) likes
  | main e =>
    obtain ⟨⟨main, w⟩, handled, rest⟩ := Option.bind_eq_some_iff.mp stepped
    obtain ⟨_, outcome⟩ := handle_ok handled
    cases outcome with
    | refreshPosts | likeFound => exact on.elim
    | tap called =>
      obtain rfl := on
      obtain rfl := Option.some.inj rest
      exact .tap called
    | moved | completed | trapped =>
      obtain ⟨n, call, found, moves⟩ := like_ok stepped
      exact .like found moves
    | @userFound n lookup found =>
      obtain rfl := Option.some.inj rest
      obtain ⟨_, _, _, same, _⟩ := userFound_cases { s.main with userLookups := s.main.userLookups.eraseIdx n } lookup
        (s.fs.users lookup.uID) s.fs
      exact .frame (by simp) (by simp) (by rw [same]) (by rw [same]) rfl
    | _ =>
      obtain rfl := Option.some.inj rest
      exact .frame (by simp) (by simp) rfl rfl rfl

theorem entry_call {account postID : String} {row : Nat} {entry : Post} {posts : List Post} {liked : Bool}
    {call : LikeCall} (shown : posts[row]? = some { entry with liked }) (hasID : entry.id = some postID)
    (called : postLiked posts row (some account) = some call) :
    call = entryCall account postID row entry liked .reading := by
  obtain ⟨post, id, uid, shown', hasID', signedIn, rfl⟩ := postLiked_ok called
  obtain rfl := Option.some.inj (shown.symm.trans shown')
  obtain rfl := Option.some.inj (hasID.symm.trans hasID')
  obtain rfl := Option.some.inj signedIn
  cases liked <;> rfl

theorem entry_completion (account postID : String) (entry : Post) (liked : Bool) (stage : Stage) {row : Nat}
    {posts : List Post} {p : Post} (shown : posts[row]? = some p) :
    (entryCall account postID row entry liked stage).completion posts =
        some (posts.set row { entry with liked := !liked }) ∧
      (posts.set row { entry with liked := !liked })[row]? = some { entry with liked := !liked } := by
  have inside := (List.getElem?_eq_some_iff.mp shown).1
  exact ⟨if_pos inside, List.getElem?_set_self inside⟩

/-! ### Taps one after the other -/

def isTap : Feed.Event → Bool
  | .main (.tap _) => true
  | _ => false

def answered : Feed.Event → Option Bool
  | .main (.like (.read _ ok)) | .main (.like (.write _ ok)) => some ok
  | _ => none

def Succeeds (e : Feed.Event) : Prop := ∀ ok ∈ answered e, ok = true

instance (e : Feed.Event) : Decidable (Succeeds e) := inferInstanceAs (Decidable (∀ ok ∈ answered e, ok = true))

def TapsAlone (s : Feed) (e : Feed.Event) : Prop := isTap e = true → ∀ call ∈ s.main.likeCalls, call.Finished

instance (s : Feed) (e : Feed.Event) : Decidable (TapsAlone s e) :=
  inferInstanceAs (Decidable (isTap e = true → ∀ call ∈ s.main.likeCalls, call.Finished))

def taps (events : List Feed.Event) : Nat := events.countP isTap

/-- The document while a call that writes `liked` is under way. -/
def UnderWay (account postID : String) (liked : Bool) (fs : Firestore) : Stage → Prop
  | .reading => stored account postID fs = likeValue !liked
  | .writing whole => stored account postID fs = likeValue (!liked) ∧ (whole = false → (fs.likes postID).isSome)
  | .written _ ok => ok = true ∧ stored account postID fs = likeValue liked
  | .finished _ => False

/-- The taps so far come to the flag `liked`; at most the last one is under way. -/
inductive Alone (account postID : String) (row : Nat) (entry : Post) (liked : Bool) (s : Feed) : Prop where
  | idle (finished : ∀ call ∈ s.main.likeCalls, call.Finished)
      (shown : s.main.posts[row]? = some { entry with liked }) (agrees : stored account postID s.fs = likeValue liked)
  | busy (n : Nat) (stage : Stage) (found : s.main.likeCalls[n]? = some (entryCall account postID row entry (!liked) stage))
      (others : ∀ m call, m ≠ n → s.main.likeCalls[m]? = some call → call.Finished)
      (shown : s.main.posts[row]? = some { entry with liked := !liked }) (underWay : UnderWay account postID liked s.fs stage)

section
variable {account postID : String} {row : Nat} {entry : Post} {liked : Bool} {s t : Feed} {e : Feed.Event}

theorem stored_congr {fs fs' : Firestore} (same : fs'.likes postID = fs.likes postID) :
    stored account postID fs' = stored account postID fs := by
  rw [stored, same, stored]

theorem stored_update {fs : Firestore} {d : Doc String Value} {v : Value} (written : value d account = some v) :
    stored account postID { fs with likes := Function.update fs.likes postID d } = v := by
  simp [stored, written]

theorem UnderWay.congr {fs fs' : Firestore} {stage : Stage} (h : UnderWay account postID liked fs stage)
    (same : fs'.likes postID = fs.likes postID) : UnderWay account postID liked fs' stage := by
  cases stage with
  | finished => exact h
  | _ => simpa only [UnderWay, stored_congr same, same] using h

theorem alone_frame (h : Alone account postID row entry liked s) (posts : t.main.posts = s.main.posts)
    (likeCalls : t.main.likeCalls = s.main.likeCalls) (likes : t.fs.likes postID = s.fs.likes postID) :
    Alone account postID row entry liked t := by
  cases h with
  | idle finished shown agrees =>
    exact .idle (likeCalls ▸ finished) (posts ▸ shown) ((stored_congr likes).trans agrees)
  | busy n stage found others shown underWay =>
    exact .busy n stage (likeCalls ▸ found) (likeCalls ▸ others) (posts ▸ shown) (underWay.congr likes)

theorem alone_tap {call : LikeCall} (h : Alone account postID row entry liked s) (hasID : entry.id = some postID)
    (waits : ∀ call ∈ s.main.likeCalls, call.Finished)
    (called : postLiked s.main.posts row (some account) = some call) :
    Alone account postID row entry (!liked)
      { s with main := { s.main with likeCalls := s.main.likeCalls ++ [call] } } := by
  cases h with
  | idle _ shown agrees =>
    obtain rfl := entry_call shown hasID called
    refine .busy s.main.likeCalls.length .reading (by simp) (fun m d other hd => ?_) (by simpa using shown)
      (by simpa [UnderWay] using agrees)
    rcases concat_cases hd with ⟨rfl, _⟩ | old
    · exact (other rfl).elim
    · exact waits d (List.mem_of_getElem? old)
  | busy n stage found _ _ underWay =>
    obtain ⟨ok, finished⟩ := waits _ (List.mem_of_getElem? found)
    obtain rfl : stage = .finished ok := finished
    exact underWay.elim

theorem alone_moves {n : Nat} {stage : Stage} {event : CallEvent} (succeeds : Succeeds (.main (.like event)))
    (found : s.main.likeCalls[n]? = some (entryCall account postID row entry (!liked) stage))
    (others : ∀ m call, m ≠ n → s.main.likeCalls[m]? = some call → call.Finished)
    (shown : s.main.posts[row]? = some { entry with liked := !liked }) (underWay : UnderWay account postID liked s.fs stage)
    (moves : Moves s n (entryCall account postID row entry (!liked) stage) event t) :
    Alone account postID row entry liked t := by
  have bound := (List.getElem?_eq_some_iff.mp found).1
  have own : ∀ stage, (s.main.likeCalls.set n (entryCall account postID row entry (!liked) stage))[n]? =
      some (entryCall account postID row entry (!liked) stage) := fun stage => List.getElem?_set_self bound
  have rest : ∀ d m call, m ≠ n → (s.main.likeCalls.set n d)[m]? = some call → call.Finished := by
    intro d m call other found
    rw [List.getElem?_set_ne other.symm] at found
    exact others m call other found
  cases moves with
  | read reading =>
    obtain rfl : stage = .reading := reading
    obtain rfl := succeeds _ rfl
    have present : (!(s.fs.likes postID).isSome) = false → (s.fs.likes postID).isSome := by simp
    exact .busy n _ (own _) (rest _) shown ⟨underWay, present⟩
  | @refused ok whole writing refused =>
    obtain rfl : stage = .writing whole := writing
    -- A merge is refused only without a document, and the read has found one.
    have unwritten := refused (succeeds _ rfl)
    cases whole with
    | true => cases unwritten
    | false =>
      obtain ⟨d, applied⟩ := updateData_of_exists (underWay.2 rfl) account (some (likeValue !!liked))
      have unwritten : updateData account (some (likeValue !!liked)) (s.fs.likes postID) = none := unwritten
      rw [applied] at unwritten
      cases unwritten
  | @written whole d writing applied =>
    obtain rfl : stage = .writing whole := writing
    have held : value d account = some (likeValue !!liked) := apply_value_same applied
    rw [Bool.not_not] at held
    exact .busy n _ (own _) (rest _) shown ⟨rfl, stored_update held⟩
  | @failed whole written =>
    obtain rfl : stage = .written whole false := written
    cases underWay.1
  | @completed whole posts written posts_ok =>
    obtain rfl : stage = .written whole true := written
    obtain ⟨completed, put⟩ := entry_completion account postID entry (!liked) (.written whole true) shown
    obtain rfl := Option.some.inj (completed.symm.trans posts_ok)
    rw [Bool.not_not] at put ⊢
    refine .idle (fun d hd => ?_) put underWay.2
    obtain ⟨m, found⟩ := List.mem_iff_getElem?.mp hd
    by_cases same : m = n
    · subst same
      obtain rfl := Option.some.inj ((own _).symm.trans found)
      exact ⟨true, rfl⟩
    · exact rest _ m d same found
  | @trapped whole written trap =>
    rw [(entry_completion account postID entry (!liked) stage shown).1] at trap
    cases trap

theorem alone_step (h : Alone account postID row entry liked s) (hasID : entry.id = some postID)
    (on : OnEntry postID row e) (succeeds : Succeeds e) (alone : TapsAlone s e)
    (stepped : Feed.step account s e = some t) :
    Alone account postID row entry (if isTap e then !liked else liked) t := by
  cases entryStep on stepped with
  | tap called => exact alone_tap h hasID (alone rfl) called
  | frame untapped uncalled posts likeCalls likes =>
    have no_tap : isTap e = false := by
      unfold isTap
      split
      · exact (untapped _ rfl).elim
      · rfl
    rw [no_tap]
    exact alone_frame h posts likeCalls likes
  | @like _ m call _ found moves =>
    have unfinished := moves_unfinished moves
    cases h with
    | idle finished => exact (unfinished (finished call (List.mem_of_getElem? found))).elim
    | busy n stage own others shown underWay =>
      by_cases same : n = m
      · subst same
        obtain rfl := Option.some.inj (own.symm.trans found)
        exact alone_moves succeeds own others shown underWay moves
      · exact (unfinished (others m call (Ne.symm same) found)).elim

end

/-- When every tap waits for the earlier ones and all steps succeed, every tap counts. -/
theorem every_tap_counts (account postID : String) (row : Nat) (entry : Post) (s t : Feed) (events : List Feed.Event)
    (found : s.main.posts[row]? = some entry) (hasID : entry.id = some postID)
    (idle : ∀ call ∈ s.main.likeCalls, call.Finished)
    (agrees : stored account postID s.fs = likeValue entry.liked)
    (h : run (Feed.step account) s events = some t) (on : ∀ e ∈ events, OnEntry postID row e)
    (succeed : ∀ e ∈ events, Succeeds e) (alone : Along (Feed.step account) TapsAlone s events)
    (finished : ∀ call ∈ t.main.likeCalls, call.Finished) :
    stored account postID t.fs = likeValue (not^[taps events] entry.liked) := by
  have meets := along_and (along_and (along_of_forall fun e he _ => on e he) (along_of_forall fun e he _ => succeed e he))
    alone
  have kept : Alone account postID row entry (not^[taps ([] ++ events)] entry.liked) t := by
    refine run_history_along (I := fun past => Alone account postID row entry (not^[taps past] entry.liked))
      (fun past s e m hs meets stepped => ?_) h meets (.idle idle found agrees)
    have next := alone_step hs hasID meets.1.1 meets.1.2 meets.2 stepped
    rw [taps, List.countP_append, List.countP_singleton]
    cases tapped : isTap e with
    | true => simpa [tapped, Function.iterate_succ_apply', taps] using next
    | false => simpa [tapped, taps] using next
  cases kept with
  | idle _ _ agrees => exact agrees
  | busy n stage found _ _ underWay =>
    obtain ⟨ok, done⟩ := finished _ (List.mem_of_getElem? found)
    obtain rfl : stage = .finished ok := done
    exact underWay.elim

def unliked : Feed := ⟨{}, { posts := Likes.feedOf "p" }⟩

def like (e : CallEvent) : Feed.Event := .main (.like e)

def likedThenUnliked : List Feed.Event :=
  [.main (.tap 0), like (.read 0 true), like (.write 0 true), like (.acknowledge 0),
   .main (.tap 0), like (.read 1 true), like (.write 1 true), like (.acknowledge 1)]

theorem every_tap_counts_twice : ∃ t, run (Feed.step "alice") unliked likedThenUnliked = some t ∧
    stored "alice" "p" t.fs = likeValue (not^[taps likedThenUnliked] false) :=
  ⟨_, rfl, every_tap_counts "alice" "p" 0 _ unliked _ likedThenUnliked rfl rfl (by decide) rfl rfl (by decide)
    (by decide) (by decide) (by decide)⟩

/-- The second tap comes before the first one is acknowledged. -/
def doubleTap : List Feed.Event :=
  [.main (.tap 0), .main (.tap 0), like (.read 0 true), like (.read 1 true), like (.write 0 true),
   like (.acknowledge 0), like (.write 1 true), like (.acknowledge 1)]

/-- Both taps see the flag unset, so both write 1 and the second one is lost. -/
theorem second_tap_lost : ∃ t, run (Feed.step "alice") unliked doubleTap = some t ∧
    (∀ e ∈ doubleTap, OnEntry "p" 0 e) ∧ (∀ e ∈ doubleTap, Succeeds e) ∧
    (∀ call ∈ t.main.likeCalls, call.Finished) ∧ stored "alice" "p" unliked.fs = likeValue false ∧
    taps doubleTap = 2 ∧ stored "alice" "p" t.fs = likeValue true ∧
    stored "alice" "p" t.fs ≠ likeValue (not^[taps doubleTap] false) :=
  ⟨_, rfl, by decide, by decide, by decide, rfl, rfl, rfl, by decide⟩

end Foti.LikeTaps
