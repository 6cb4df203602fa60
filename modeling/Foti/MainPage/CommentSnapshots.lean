import Foti.Library.Transition
import Foti.MainPage.CommentController
import Foti.MainPage.Likes
import Foti.UserProfile.ProfilePosts

/-!
The comment list against the collection it shows. `getComments` looks an author up and appends a
comment for every document change, whatever its type, and in the order in which the lookups return.
-/

namespace Foti.CommentSnapshots
open Document Transition ProfilePosts

abbrev Collection := AList fun _ : String => Dict

structure State where
  documents : Collection
  controller : CommentController

inductive Event where
  | snapshot (documentChanges : List DocumentChange)
  | userLookup (n : Nat)
  deriving DecidableEq

def change (documents : Collection) (c : DocumentChange) : Option Collection :=
  match c.type with
  | .added => if c.documentID ∈ documents then none else some (documents.insert c.documentID c.data)
  | .modified => if c.documentID ∈ documents then some (documents.insert c.documentID c.data) else none
  | .removed => if c.documentID ∈ documents then some (documents.erase c.documentID) else none

def Named (data : Dict) : Prop := ∃ userID, asString (data.lookup "UserID") = some userID ∧ userID ≠ ""

instance (data : Dict) : Decidable (Named data) :=
  match h : asString (data.lookup "UserID") with
  | none => isFalse (by rintro ⟨_, found, _⟩; rw [h] at found; cases found)
  | some userID => decidable_of_iff (userID ≠ "")
      ⟨fun nonempty => ⟨userID, h, nonempty⟩,
        fun ⟨_, found, nonempty⟩ => Option.some.inj (h.symm.trans found) ▸ nonempty⟩

/-- The snapshot handler of `getComments`. It does not read the type of a change. -/
def getComments (c : CommentController) (currentUser : Option String) (documentChanges : List DocumentChange) :
    CommentController :=
  c.commentsChanged currentUser (documentChanges.map fun change => (change.documentID, change.data))

variable (fs : Firestore) (currentUser : Option String)

def step (s : State) : Event → Option State
  | .snapshot documentChanges => do
      let documents ← run change s.documents documentChanges
      if ∀ c ∈ documentChanges, Named c.data then
        some ⟨documents, getComments s.controller currentUser documentChanges⟩
      else none
  | .userLookup n => do
      let lookup ← s.controller.lookups[n]?
      if (fs.users lookup.uID).isSome then
        let (controller, _) ← s.controller.handle currentUser fs (.userLookup n true)
        return { s with controller }
      else none

def State.viewDidLoad (chosenPost : Option Post) : State := ⟨∅, CommentController.viewDidLoad chosenPost fs⟩

def Idle (s : State) : Prop := s.controller.lookups = []

instance (s : State) : Decidable (Idle s) := by unfold Idle; infer_instance

def entry (data : Dict) : Option Comment := do
  let userID ← asString (data.lookup "UserID")
  let userData ← fs.users userID
  return Comment.init (User.init userData) data

/-- The list has exactly one entry for each document of the collection, and nothing else. -/
def Mirrors (s : State) : Prop :=
  (s.controller.comments.map some).Perm (s.documents.entries.map fun d => entry fs d.2)

def lookedUp (lookup : CommentLookup) : Option Comment :=
  (fs.users lookup.uID).map fun userData => Comment.init (User.init userData) lookup.dictionaryData

section
variable {fs : Firestore} {currentUser : Option String} {s t : State}

theorem userLookup_ok {n : Nat} (h : step fs currentUser s (.userLookup n) = some t) :
    ∃ lookup x, s.controller.lookups[n]? = some lookup ∧ lookedUp fs lookup = some x ∧
      t = { s with controller := { s.controller with
        lookups := s.controller.lookups.eraseIdx n, comments := s.controller.comments ++ [x] } } := by
  obtain ⟨lookup, found, h⟩ := Option.bind_eq_some_iff.mp h
  obtain ⟨known, h⟩ := Option.ite_none_right_eq_some.mp h
  obtain ⟨userData, hdata⟩ := Option.isSome_iff_exists.mp known
  obtain ⟨⟨controller, w⟩, handled, h⟩ := Option.bind_eq_some_iff.mp h
  obtain rfl := Option.some.inj h
  cases CommentController.handle_ok handled with
  | userFound found' =>
    obtain rfl := Option.some.inj (found.symm.trans found')
    refine ⟨lookup, _, found, by rw [lookedUp, hdata]; rfl, ?_⟩
    simp [CommentController.authorFound, hdata]

theorem snapshot_ok {changes : List DocumentChange} (h : step fs currentUser s (.snapshot changes) = some t) :
    run change s.documents changes = some t.documents ∧ (∀ c ∈ changes, Named c.data) ∧
      t.controller = getComments s.controller currentUser changes := by
  obtain ⟨documents, changed, h⟩ := Option.bind_eq_some_iff.mp h
  obtain ⟨named, h⟩ := Option.ite_none_right_eq_some.mp h
  obtain rfl := Option.some.inj h
  exact ⟨changed, named, rfl⟩

theorem getComments_lookups {c : CommentController} {changes : List DocumentChange}
    (named : ∀ x ∈ changes, Named x.data) :
    (getComments c currentUser changes).lookups.map (lookedUp fs) =
      c.lookups.map (lookedUp fs) ++ changes.map fun x => entry fs x.data := by
  simp only [getComments, CommentController.commentsChanged, List.map_append, List.append_cancel_left_eq,
    List.map_filterMap, List.filterMap_map]
  rw [← List.filterMap_eq_map']
  refine List.filterMap_congr fun x hx => ?_
  obtain ⟨userID, found, nonempty⟩ := named x hx
  simp only [Function.comp, found, Option.bind_eq_bind, Option.bind_some, createUser, if_neg nonempty,
    Option.pure_def, lookedUp, entry, Option.map_eq_bind]

end

/-! ### The list and the collection -/

/-- The collection after `changes` holds at most what they added, and just that when they only added. -/
structure Stored (changes : List DocumentChange) (documents : Collection) : Prop where
  few : documents.keys.length ≤ (changes.filter (·.type = .added)).length
  added : (∀ c ∈ changes, c.type = .added) → (documents.entries.map (·.2)).Perm (changes.map (·.data))

theorem change_stored {past : List DocumentChange} {documents documents' : Collection} {c : DocumentChange}
    (h : Stored past documents) (changed : change documents c = some documents') : Stored (past ++ [c]) documents' := by
  unfold change at changed
  split at changed
  · rename_i added
    obtain ⟨fresh, same⟩ := Option.ite_none_left_eq_some.mp changed
    obtain rfl := Option.some.inj same
    constructor
    case few =>
      have few := h.few
      rw [AList.keys_insert, List.erase_of_not_mem (fun old => fresh (AList.mem_keys.mpr old))]
      simp only [List.length_cons, List.filter_append, List.length_append, List.filter_singleton, added, decide_true]
      exact Nat.succ_le_succ few
    case added =>
      intro all
      have before := h.added fun d hd => all d (List.mem_append_left _ hd)
      rw [AList.entries_insert_of_notMem fresh, List.map_cons, List.map_append]
      exact (before.cons c.data).trans (List.perm_append_singleton _ _).symm
  all_goals
    rename_i other
    obtain ⟨present, same⟩ := Option.ite_none_right_eq_some.mp changed
    obtain rfl := Option.some.inj same
    have kept : ((past ++ [c]).filter (·.type = .added)).length = (past.filter (·.type = .added)).length := by
      simp [other]
    have member := AList.mem_keys.mp present
    -- The document was there, so neither change makes the collection larger.
    refine ⟨kept ▸ Nat.le_trans ?_ h.few, fun all => ?_⟩
    · have positive := List.length_pos_of_mem member
      simp only [AList.keys_insert, AList.keys_erase, List.length_cons, List.length_erase_of_mem member]
      omega
    · have type := all c (List.mem_append_right _ (List.mem_singleton_self c))
      rw [other] at type
      cases type

def Event.changes : Event → List DocumentChange
  | .snapshot documentChanges => documentChanges
  | .userLookup _ => []

def delivered (events : List Event) : List DocumentChange := events.flatMap Event.changes

structure Inv (past : List Event) (s : State) : Prop where
  shown : (s.controller.comments.map some ++ s.controller.lookups.map (lookedUp fs)).Perm
    ((delivered past).map fun c => entry fs c.data)
  stored : Stored (delivered past) s.documents

section
variable {fs : Firestore} {currentUser : Option String} {s t : State}

theorem step_inv {past : List Event} {e : Event} (h : Inv fs past s) (stepped : step fs currentUser s e = some t) :
    Inv fs (past ++ [e]) t := by
  have collected : delivered (past ++ [e]) = delivered past ++ e.changes := by simp [delivered]
  cases e with
  | snapshot changes =>
    obtain ⟨changed, named, controller⟩ := snapshot_ok stepped
    constructor
    case shown =>
      rw [collected, controller, getComments_lookups named, List.map_append, ← List.append_assoc]
      exact h.shown.append_right _
    case stored =>
      rw [collected]
      exact run_history (fun _ _ _ _ => change_stored) changed h.stored
  | userLookup n =>
    obtain ⟨lookup, x, found, completed, rfl⟩ := userLookup_ok stepped
    obtain ⟨inside, rfl⟩ := List.getElem?_eq_some_iff.mp found
    have taken := (List.getElem_cons_eraseIdx_perm inside).map (lookedUp fs)
    rw [List.map_cons, completed] at taken
    constructor
    case shown =>
      rw [collected, Event.changes, List.append_nil, List.map_append, List.map_singleton, List.append_assoc]
      exact (taken.append_left _).trans h.shown
    case stored =>
      rw [collected, Event.changes, List.append_nil]
      exact h.stored

theorem viewDidLoad_inv (chosenPost : Option Post) : Inv fs [] (State.viewDidLoad fs chosenPost) := by
  refine ⟨?_, Nat.le_refl _, fun _ => .refl _⟩
  simp only [State.viewDidLoad, CommentController.viewDidLoad]
  split
  · exact .refl _
  · split <;> exact .refl _

end

/-- In every run from `viewDidLoad`, whatever the snapshots and the order of the lookups: a list without
outstanding lookups mirrors the collection exactly when every change delivered so far has been an
addition. -/
theorem comments_mirror_iff (chosenPost : Option Post) (events : List Event) (t : State)
    (h : run (step fs currentUser) (.viewDidLoad fs chosenPost) events = some t) (idle : Idle t) :
    Mirrors fs t ↔ ∀ c ∈ delivered events, c.type = .added := by
  have inv : Inv fs ([] ++ events) t :=
    run_history (I := Inv fs) (fun _ _ _ _ => step_inv) h (viewDidLoad_inv chosenPost)
  rw [List.nil_append] at inv
  have shown : (t.controller.comments.map some).Perm ((delivered events).map fun c => entry fs c.data) := by
    have shown := inv.shown
    rwa [idle, List.map_nil, List.append_nil] at shown
  constructor
  · intro mirrors
    have counted := shown.symm.trans mirrors
    have few := inv.stored.few
    have same : (delivered events).length = t.documents.keys.length := by
      simpa [AList.keys, List.keys] using counted.length_eq
    have all := Nat.le_antisymm (List.length_filter_le _ (delivered events)) (same ▸ few)
    intro c hc
    simpa using List.length_filter_eq_length_iff.mp all c hc
  · intro added
    have stored := (inv.stored.added added).map (entry fs)
    rw [List.map_map, List.map_map] at stored
    exact shown.trans stored.symm

def written (documentID message : String) : DocumentChange :=
  ⟨.added, documentID, ({ postID := "p", message, date := 0, userID := "alice" } : CommentData).addingValue⟩

def aliceUser : Firestore where
  users := fun uid => if uid = "alice" then some (SignUpAttempt.addData uid uid (some "url")) else none

def twoComments : List Event :=
  [.snapshot [written "c" "hello", written "d" "again"], .userLookup 1, .userLookup 0]

theorem comments_mirror_iff_two :
    ∃ t, run (step aliceUser (some "alice")) (.viewDidLoad aliceUser (Likes.feedOf "p").head?) twoComments = some t ∧
      (Mirrors aliceUser t ↔ ∀ c ∈ delivered twoComments, c.type = .added) :=
  ⟨_, rfl, comments_mirror_iff aliceUser (some "alice") (Likes.feedOf "p").head? twoComments _ rfl rfl⟩

def rejected : List Event :=
  [.snapshot [written "c" "hello"], .userLookup 0, .snapshot [{ written "c" "hello" with type := .removed }],
   .userLookup 0]

/-- The removal shows the comment a second time. -/
theorem rejected_shown_twice :
    ∃ t, run (step aliceUser (some "alice")) (.viewDidLoad aliceUser (Likes.feedOf "p").head?) rejected = some t ∧
      Idle t ∧ t.documents.keys = [] ∧ t.controller.comments.map (·.commentMessage) = ["hello", "hello"] ∧
      ¬ Mirrors aliceUser t := by
  refine ⟨_, rfl, rfl, by decide +kernel, by decide +kernel, fun mirrors => ?_⟩
  exact absurd mirrors.length_eq (by decide +kernel)

/-! ### The order of the list -/

def lookups (places : List Nat) : List Event := places.map .userLookup

section
variable {fs : Firestore} {currentUser : Option String} {s t : State}

theorem lookups_return {places : List Nat} (h : run (step fs currentUser) s (lookups places) = some t) :
    ∃ returned, (returned ++ t.controller.lookups).Perm s.controller.lookups ∧
      t.controller.comments.map some = s.controller.comments.map some ++ returned.map (lookedUp fs) := by
  refine run_map_keeps (I := fun m => ∃ returned, (returned ++ m.controller.lookups).Perm s.controller.lookups ∧
    m.controller.comments.map some = s.controller.comments.map some ++ returned.map (lookedUp fs)) ?_ h
    ⟨[], .refl _, by simp⟩
  rintro n _ m t ⟨returned, perm, comments⟩ stepped
  obtain ⟨lookup, x, found, completed, rfl⟩ := userLookup_ok stepped
  obtain ⟨inside, rfl⟩ := List.getElem?_eq_some_iff.mp found
  refine ⟨returned ++ [m.controller.lookups[n]], ?_, ?_⟩
  · rw [List.append_assoc, List.singleton_append]
    exact ((List.getElem_cons_eraseIdx_perm inside).append_left _).trans perm
  · rw [List.map_append, comments, List.map_append, List.append_assoc, List.map_singleton, List.map_singleton, completed]

theorem exists_places {order : List CommentLookup} (running : s.controller.crashed = false)
    (known : ∀ q ∈ order, (fs.users q.uID).isSome) (perm : order.Perm s.controller.lookups) :
    ∃ places t, run (step fs currentUser) s (lookups places) = some t ∧ Idle t ∧
      t.controller.comments.map some = s.controller.comments.map some ++ order.map (lookedUp fs) := by
  induction order generalizing s with
  | nil => exact ⟨[], s, rfl, perm.nil_eq.symm, by simp⟩
  | cons q rest ih =>
    obtain ⟨n, found⟩ := List.mem_iff_getElem?.mp (perm.subset List.mem_cons_self)
    obtain ⟨userData, present⟩ := Option.isSome_iff_exists.mp (known q List.mem_cons_self)
    obtain ⟨inside, rfl⟩ := List.getElem?_eq_some_iff.mp found
    let m : State := { s with controller := { s.controller with
      lookups := s.controller.lookups.eraseIdx n
      comments := s.controller.comments ++ [Comment.init (User.init userData) s.controller.lookups[n].dictionaryData] } }
    have stepped : step fs currentUser s (.userLookup n) = some m := by
      simp [step, CommentController.handle, CommentController.authorFound, running, found, present, m]
    have left : rest.Perm m.controller.lookups :=
      (perm.trans (List.getElem_cons_eraseIdx_perm inside).symm).cons_inv
    obtain ⟨places, t, ran, idle, comments⟩ :=
      ih (s := m) running (fun q hq => known q (List.mem_cons_of_mem _ hq)) left
    refine ⟨n :: places, t, run_cons_of stepped ran, idle, ?_⟩
    simp [comments, m, lookedUp, present]

theorem can_return_first (running : s.controller.crashed = false)
    (known : ∀ q ∈ s.controller.lookups, (fs.users q.uID).isSome) {q : CommentLookup} (hq : q ∈ s.controller.lookups) :
    ∃ places t later, run (step fs currentUser) s (lookups places) = some t ∧ Idle t ∧
      t.controller.comments.map some = s.controller.comments.map some ++ lookedUp fs q :: later := by
  have perm := (List.perm_cons_erase hq).symm
  obtain ⟨places, t, ran, idle, comments⟩ := exists_places running (fun x hx => known x (perm.subset hx)) perm
  exact ⟨places, t, _, ran, idle, comments⟩

theorem orders_agree_iff (running : s.controller.crashed = false)
    (known : ∀ q ∈ s.controller.lookups, (fs.users q.uID).isSome) :
    (∀ places places' t t', run (step fs currentUser) s (lookups places) = some t →
      run (step fs currentUser) s (lookups places') = some t' → Idle t → Idle t' →
      t.controller.comments = t'.controller.comments) ↔
    ∀ q ∈ s.controller.lookups, ∀ r ∈ s.controller.lookups, lookedUp fs q = lookedUp fs r := by
  constructor
  · intro same q hq r hr
    obtain ⟨places, t, _, ran, idle, comments⟩ := can_return_first running known hq
    obtain ⟨places', t', _, ran', idle', comments'⟩ := can_return_first running known hr
    rw [same places places' t t' ran ran' idle idle', comments'] at comments
    exact (List.cons.inj (List.append_cancel_left comments)).1.symm
  · intro equal places places' t t' ran ran' idle idle'
    obtain ⟨returned, perm, comments⟩ := lookups_return ran
    obtain ⟨returned', perm', comments'⟩ := lookups_return ran'
    rw [idle, List.append_nil] at perm
    rw [idle', List.append_nil] at perm'
    have appended : returned.map (lookedUp fs) = returned'.map (lookedUp fs) := by
      have anyOrder : ∀ xs : List (Option Comment), xs.Pairwise fun _ _ => True :=
        fun _ => List.pairwise_of_forall fun _ _ => trivial
      refine ((perm.trans perm'.symm).map _).eq_of_pairwise (fun x y hx hy _ _ => ?_) (anyOrder _) (anyOrder _)
      obtain ⟨q, hq, rfl⟩ := List.mem_map.mp hx
      obtain ⟨r, hr, rfl⟩ := List.mem_map.mp hy
      exact equal q (perm.subset hq) r (perm'.subset hr)
    rw [appended, ← comments'] at comments
    exact List.map_injective_iff.mpr (Option.some_injective _) comments

end

/-- The list after a snapshot does not depend on the order in which the lookups of its authors return
exactly when the snapshot's comments are all the same. -/
theorem same_list_iff (s t : State) (changes : List DocumentChange) (idle : Idle s)
    (running : s.controller.crashed = false) (loaded : step fs currentUser s (.snapshot changes) = some t)
    (known : ∀ c ∈ changes, (entry fs c.data).isSome) :
    (∀ places places' u u', run (step fs currentUser) t (lookups places) = some u →
      run (step fs currentUser) t (lookups places') = some u' → Idle u → Idle u' →
      u.controller.comments = u'.controller.comments) ↔
    ∀ c ∈ changes, ∀ d ∈ changes, entry fs c.data = entry fs d.data := by
  obtain ⟨_, named, controller⟩ := snapshot_ok loaded
  have outstanding : t.controller.lookups.map (lookedUp fs) = changes.map fun c => entry fs c.data := by
    rw [controller, getComments_lookups named, idle, List.map_nil, List.nil_append]
  have alive : t.controller.crashed = false := by
    rw [controller]
    exact running
  have found : ∀ q ∈ t.controller.lookups, (fs.users q.uID).isSome := by
    intro q hq
    have shown : lookedUp fs q ∈ changes.map fun c => entry fs c.data := outstanding ▸ List.mem_map_of_mem hq
    obtain ⟨c, hc, same⟩ := List.mem_map.mp shown
    have some_entry := known c hc
    rwa [same, lookedUp, Option.isSome_map] at some_entry
  rw [orders_agree_iff alive found]
  have same_entries : (∀ a ∈ t.controller.lookups.map (lookedUp fs), ∀ b ∈ t.controller.lookups.map (lookedUp fs),
      a = b) ↔ ∀ q ∈ t.controller.lookups, ∀ r ∈ t.controller.lookups, lookedUp fs q = lookedUp fs r := by
    simp only [List.forall_mem_map]
  rw [← same_entries, outstanding]
  simp only [List.forall_mem_map]

theorem same_list_iff_two : ∃ t, step aliceUser (some "alice") (.viewDidLoad aliceUser (Likes.feedOf "p").head?)
      (.snapshot [written "c" "hello", written "d" "again"]) = some t ∧
    ((∀ places places' u u', run (step aliceUser (some "alice")) t (lookups places) = some u →
      run (step aliceUser (some "alice")) t (lookups places') = some u' → Idle u → Idle u' →
      u.controller.comments = u'.controller.comments) ↔
    ∀ c ∈ [written "c" "hello", written "d" "again"], ∀ d ∈ [written "c" "hello", written "d" "again"],
      entry aliceUser c.data = entry aliceUser d.data) :=
  ⟨_, rfl, same_list_iff aliceUser (some "alice") (.viewDidLoad aliceUser (Likes.feedOf "p").head?) _ _ rfl rfl rfl
    (by decide +kernel)⟩

theorem order_of_returns : ∃ t u u', step aliceUser (some "alice") (.viewDidLoad aliceUser (Likes.feedOf "p").head?)
      (.snapshot [written "c" "hello", written "d" "again"]) = some t ∧
    run (step aliceUser (some "alice")) t (lookups [0, 0]) = some u ∧ Idle u ∧
    run (step aliceUser (some "alice")) t (lookups [1, 0]) = some u' ∧ Idle u' ∧
    u.controller.comments.map (·.commentMessage) = ["hello", "again"] ∧
    u'.controller.comments.map (·.commentMessage) = ["again", "hello"] ∧
    u.controller.comments ≠ u'.controller.comments := by
  refine ⟨_, _, _, rfl, rfl, rfl, rfl, rfl, by decide +kernel, by decide +kernel, fun same => ?_⟩
  exact absurd (congrArg (List.map (·.commentMessage)) same) (by decide +kernel)

end Foti.CommentSnapshots
