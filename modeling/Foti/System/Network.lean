import Foti.Library.Simulation
import Foti.System.Attribution
import Foti.System.SignUps

/-!
What the program is for: a network of users with profiles, who share posts, comment, like and follow.
The program simulates it. Each write that the store accepts is one operation of the network, which
checks what the program's handlers are to check, and nothing else changes the network.
-/

namespace Foti
open Document Entries Transition

structure Profile where
  userName : String
  profilePhotoURL : String
  deriving DecidableEq

structure Network where
  profile : String → Option Profile := fun _ => none
  posts : String → List (String × PostData) := fun _ => []
  comments : String → List (String × CommentData) := fun _ => []
  likes : String → Set String := fun _ => ∅
  follows : String → Set String := fun _ => ∅
  documentIDs : List String := []

namespace Network

/-- A like or follow made `alone` clears the others, since it replaces their document. -/
inductive Op where
  | signUp (uid : String) (profile : Profile)
  | share (author documentID : String) (data : PostData)
  | comment (documentID : String) (data : CommentData)
  | like (uid postID : String) (likes alone : Bool)
  | follow (uid user : String) (follows alone : Bool)

/-- The operation of a write. -/
def opOf : ServerWrite → Op
  | .user uid userName url => .signUp uid ⟨userName, url.getD ""⟩
  | .photoPost author documentID data => .share author documentID data
  | .comment documentID data => .comment documentID data
  | .like postID w => .like w.key postID (decide (w.value = some (.int 1))) w.whole
  | .follow accountUserID w => .follow accountUserID w.key w.value.isSome w.whole

def mark (set : Set String) (x : String) (on alone : Bool) : Set String :=
  let rest := if alone then ∅ else set
  if on then insert x rest else rest \ {x}

theorem mem_mark {set : Set String} {x y : String} {on alone : Bool} :
    y ∈ mark set x on alone ↔ if y = x then on = true else alone = false ∧ y ∈ set := by
  unfold mark
  by_cases same : y = x
  · cases on <;> simp [same]
  · cases on <;> cases alone <;> simp [same]

/-- An operation with its conditions: a profile is made once, a document ID is given out once, a
message is not blank, and only a user with a profile is followed. -/
inductive Next (n : Network) : Op → Network → Prop where
  | signUp {uid : String} {profile : Profile} (new : n.profile uid = none) :
      Next n (.signUp uid profile) { n with profile := Function.update n.profile uid (some profile) }
  | share {author documentID : String} {data : PostData} (fresh : documentID ∉ n.documentIDs)
      (nonBlank : NonBlank data.message) : Next n (.share author documentID data) { n with
        posts := Function.update n.posts author (n.posts author ++ [(documentID, data)])
        documentIDs := documentID :: n.documentIDs }
  | comment {documentID : String} {data : CommentData} (fresh : documentID ∉ n.documentIDs)
      (named : data.userID ≠ "") (nonempty : data.message ≠ "") : Next n (.comment documentID data) { n with
        comments := Function.update n.comments data.postID (n.comments data.postID ++ [(documentID, data)])
        documentIDs := documentID :: n.documentIDs }
  | like {uid postID : String} {likes alone : Bool} : Next n (.like uid postID likes alone)
      { n with likes := Function.update n.likes postID (mark (n.likes postID) uid likes alone) }
  | follow {uid user : String} {follows alone : Bool} (known : follows = true → (n.profile user).isSome) :
      Next n (.follow uid user follows alone)
        { n with follows := Function.update n.follows uid (mark (n.follows uid) user follows alone) }

/-- The documents of the store are those of the network. -/
structure Represents (fs : Firestore) (n : Network) : Prop where
  users : ∀ uid, fs.users uid = (n.profile uid).map fun p => SignUpAttempt.addData p.userName uid (some p.profilePhotoURL)
  posts : ∀ author, fs.photoPosts author = (n.posts author).map fun d => (d.1, d.2.addData author)
  comments : ∀ postID, fs.addingComments postID = (n.comments postID).map fun d => (d.1, d.2.addingValue)
  likes : ∀ postID uid, uid ∈ n.likes postID ↔ value (fs.likes postID) uid = some (.int 1)
  follows : ∀ uid user, user ∈ n.follows uid ↔ (value (fs.follows uid) user).isSome
  documentIDs : fs.documentIDs = n.documentIDs

theorem initial_represents : Represents {} {} := by
  refine ⟨fun _ => rfl, fun _ => rfl, fun _ => rfl, fun _ _ => ?_, fun _ _ => ?_, rfl⟩
  · exact ⟨fun h => h.elim, fun h => by cases h⟩
  · exact ⟨fun h => h.elim, fun h => by cases h⟩

section
variable {fs fs' : Firestore} {n : Network}

/-- A write of one field marks its key, and clears the other keys when it is whole. -/
theorem mark_written {write : Write String Value} {d t : Doc String Value} {set : Set String} {on : Bool}
    {I : Option Value → Prop} (applied : write.apply d = some t) (out : ¬ I none)
    (represents : ∀ x, x ∈ set ↔ I (value d x)) (own : on = true ↔ I write.value) (x : String) :
    x ∈ mark set write.key on write.whole ↔ I (value t x) := by
  rw [mem_mark]
  by_cases same : x = write.key
  · subst same
    rw [if_pos rfl, apply_value_same applied]
    exact own
  · rw [if_neg same, apply_value_other applied same]
    cases write.whole with
    | true => simpa using out
    | false => simpa using represents x

/-- A checked write that the store accepts is its operation. -/
theorem written_next {sender : String} {w : ServerWrite} (represents : Represents fs n) (checked : Checked fs sender w)
    (new : ∀ uid userName url, w = .user uid userName url → fs.users uid = none) (applied : Firestore.Applied fs w fs') :
    ∃ n', Next n (opOf w) n' ∧ Represents fs' n' := by
  cases applied with
  | @user uid userName url =>
    have unused : n.profile uid = none := by simpa [represents.users] using new uid userName url rfl
    refine ⟨_, .signUp unused, { represents with users := fun u => ?_ }⟩
    by_cases same : u = uid
    · subst same
      simp only [Function.update_self, Option.map_some]
      rfl
    · simpa [same] using represents.users u
  | @photoPost author documentID data fresh =>
    refine ⟨_, .share (represents.documentIDs ▸ fresh) checked.2,
      { represents with posts := fun a => ?_, documentIDs := ?_ }⟩
    · by_cases same : a = author
      · subst same
        simp [represents.posts]
      · simpa [same] using represents.posts a
    · simp [represents.documentIDs]
  | @comment documentID data fresh =>
    obtain ⟨sent, named, nonempty⟩ := checked
    refine ⟨_, .comment (represents.documentIDs ▸ fresh) (sent ▸ named) nonempty,
      { represents with comments := fun p => ?_, documentIDs := ?_ }⟩
    · by_cases same : p = data.postID
      · subst same
        simp [represents.comments]
      · simpa [same] using represents.comments p
    · simp [represents.documentIDs]
  | @like postID write d written =>
    refine ⟨_, .like, { represents with likes := fun p => ?_ }⟩
    by_cases same : p = postID
    · subst same
      simp only [Function.update_self]
      exact mark_written (I := fun v => v = some (.int 1)) written (by simp) (represents.likes p) (by simp)
    · simpa [same] using represents.likes p
  | @follow account write d written =>
    have known : write.value.isSome = true → (n.profile write.key).isSome := by
      intro follows
      rcases checked with deleted | ⟨_, present⟩
      · rw [deleted] at follows
        cases follows
      · simpa [represents.users] using present
    refine ⟨_, .follow known, { represents with follows := fun a => ?_ }⟩
    by_cases same : a = account
    · subst same
      simp only [Function.update_self]
      exact mark_written (I := fun v => v.isSome) written (by simp) (represents.follows a) Iff.rfl
    · simpa [same] using represents.follows a

end

/-! ### Steps and runs of the program -/

/-- The events in which a write of each kind reaches the store. -/
def Carries : System.Event → Op → Prop
  | .register _ _ (.stored _ true), .signUp _ _ => True
  | .screen _ _ (.share (.saved _ documentID true)), .share _ ID _ => ID = documentID
  | .screen _ _ (.comments (.write _ documentID true)), .comment ID _ => ID = documentID
  | .screen _ _ (.main (.like _)), .like _ _ _ _ => True
  | .screen _ _ (.profile (.follow _)), .follow _ _ _ _ => True
  | _, _ => False

theorem handled_carries {currentUser : Option String} {fs : Firestore} {screen screen' : Screen} {e : ScreenEvent}
    {write : Option (String × ServerWrite)} (h : Screen.Handled currentUser fs screen e screen' write) {sender : String}
    {w : ServerWrite} (wrote : write = some (sender, w)) (i j : Nat) : Carries (.screen i j e) (opOf w) := by
  cases h with
  | share outcome =>
    cases outcome <;> cases wrote
    rfl
  | @main c c' e w' outcome =>
    obtain ⟨w', rfl, same⟩ := Option.map_eq_some_iff.mp wrote
    obtain rfl := (Prod.mk.inj same).2
    cases outcome with
    | moved _ _ liked => rcases liked _ rfl with rfl | rfl <;> trivial
  | comments outcome =>
    cases outcome <;> cases wrote
    rfl
  | profile outcome =>
    cases outcome with
    | moved _ followed =>
      obtain ⟨_, same⟩ := followed _ wrote
      obtain ⟨_, rfl⟩ := Prod.mk.inj same
      trivial
    | _ => cases wrote

/-- The store is well formed, its users are written once, and it represents the network. -/
structure Simulates (s : System) (n : Network) : Prop where
  ok : Attribution.SystemOk s
  signUps : SignUps.Inv s
  represents : Represents s.fs n

theorem register_simulates {s t : System} {n : Network} {i j : Nat} {e : SignUp.Event} (represents : Represents s.fs n)
    (signUps : SignUps.Inv s) (stepped : s.step (.register i j e) = some t) : Represents t.fs n ∨
      ∃ o n', Carries (.register i j e) o ∧ Next n o n' ∧ Represents t.fs n' := by
  obtain ⟨c, attempts, u, found, shown, _, registered, rfl⟩ := SignUps.register_ok stepped
  rcases SignUps.saved_users registered with same | ⟨m, a, uid, url, rfl, listed, saving, same⟩
  · exact .inl (by simpa only [same] using represents)
  · have account : a.account = some uid := by simp [SignUpAttempt.account, saving]
    have unsaved : s.fs.users uid = none := by
      rw [signUps.documents (i, j, m) a uid (SignUps.attempt_eq_some.mpr ⟨c, attempts, found, shown, listed⟩) account]
      simp [SignUpAttempt.document, saving]
    have applied : Firestore.Applied s.fs (.user uid a.userName url) { s.fs with users := u.users } := by
      rw [same]
      exact .user
    have checked : Checked s.fs uid (.user uid a.userName url) := trivial
    obtain ⟨n', next, related⟩ := written_next represents checked (fun _ _ _ same => by cases same; exact unsaved) applied
    exact .inr ⟨.signUp uid ⟨a.userName, url.getD ""⟩, n', trivial, next, related⟩

theorem step_simulates {s t : System} {e : System.Event} {n : Network} (h : Simulates s n) (stepped : s.step e = some t) :
    Simulates t n ∨ ∃ o n', Carries e o ∧ Next n o n' ∧ Simulates t n' := by
  have ok := Attribution.step_ok h.ok stepped
  have signUps := (SignUps.step_inv h.signUps stepped).1
  cases System.step_ok stepped with
  | register =>
    rcases register_simulates h.represents h.signUps stepped with same | ⟨o, n', carries, next, related⟩
    · exact .inl ⟨ok, signUps, same⟩
    · exact .inr ⟨o, n', carries, next, ok, signUps, related⟩
  | @wrote i j e c screen screen' sender w t found shown handled written =>
    obtain ⟨_, checked⟩ := Attribution.put_ok h.ok h.ok.store.sees found shown handled
    obtain ⟨fs', _, applied, rfl⟩ := System.write_ok written
    obtain ⟨n', next, related⟩ := written_next h.represents (checked sender w rfl)
      (fun _ _ _ eq => (SignUps.handled_writes handled sender _ _ _ (by rw [eq])).elim) applied
    exact .inr ⟨_, n', handled_carries handled rfl i j, next, ok, signUps, related⟩
  | _ => exact .inl ⟨ok, signUps, h.represents⟩

/-- Every run of the program, with any number of clients and any failures, does operations of the
network and no others: those that its accepted writes carry, each under the network's conditions. -/
theorem program_simulates_network (events : List System.Event) (t : System) (h : run System.step {} events = some t) :
    ∃ ops n, Steps Next {} ops n ∧ List.SublistForall₂ (fun o e => Carries e o) ops events ∧ Represents t.fs n := by
  have initial : Simulates {} {} := ⟨Attribution.initial_ok, SignUps.initial_inv, initial_represents⟩
  obtain ⟨ops, n, steps, carried, related⟩ := run_simulated (fun _ _ _ _ => step_simulates) h initial
  exact ⟨ops, n, steps, carried, related.represents⟩

theorem program_simulates_network_alice : ∃ t, run System.step {} Attribution.aliceComments = some t ∧
    ∃ ops n, Steps Next {} ops n ∧ List.SublistForall₂ (fun o e => Carries e o) ops Attribution.aliceComments ∧
      Represents t.fs n :=
  ⟨_, rfl, program_simulates_network Attribution.aliceComments _ rfl⟩

end Network
end Foti
