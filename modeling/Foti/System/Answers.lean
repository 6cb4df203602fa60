import Foti.Library.Termination
import Foti.MainPage.FeedComplete
import Foti.Register.SignUpForm
import Foti.System.SignUps
import Mathlib.Data.Prod.Lex
import Mathlib.Order.Lattice.Nat

/-!
What comes back without anybody touching a screen: results of the calls, documents that were read,
snapshots, and the failures of all of these. Each one leaves a screen less to wait for.
-/

namespace Foti
open Document Entries FeedComplete Listening

/-! ### What is still to come -/

def SignUpStage.left : SignUpStage → Nat
  | .creating => 4
  | .uploading _ => 3
  | .locating _ => 2
  | .saving _ _ => 1
  | .refused | .abandoned _ | .saved _ _ => 0

def ShareStage.left : ShareStage → Nat
  | .uploading => 3
  | .locating => 2
  | .saving _ _ => 1
  | .ended | .saved _ _ => 0

def SendStage.left : SendStage → Nat
  | .writing => 2
  | .written _ => 1
  | .finished _ => 0

namespace Answers

/-- The steps of the screen's calls that are still to come. -/
def callsLeft : Screen → Nat
  | .register attempts => (attempts.map fun a => a.stage.left).sum
  | .share c => (c.attempts.map fun a => a.stage.left).sum
  | .main c => (c.likeCalls.map fun call => call.stage.left).sum
  | .comments c => (c.sends.map fun s => s.stage.left).sum
  | .profile c => (c.followTaps.map fun tap => tap.call.stage.left).sum

/-- The lookup of a user, and the listener on the posts of the user it finds. -/
def lookupLeft (fs : Firestore) (uID : String) : Nat :=
  1 + (fs.users uID).elim 0 fun data => 1 + 2 * (fs.photoPosts (User.init data).userID).length

def lookupsLeft (fs : Firestore) (lookups : List UserLookup) : Nat := (lookups.map fun q => lookupLeft fs q.uID).sum

/-- A version of a `Follows` document, and the lookups of the users in it. -/
def versionLeft (currentUser : Option String) (fs : Firestore) (data : Option Dict) : Nat :=
  1 + lookupsLeft fs (({} : MainController).followed currentUser data).userLookups

def followsLeft (currentUser : Option String) (fs : Firestore) (l : FollowsListener) : Nat :=
  1 + (l.pending.map (versionLeft currentUser fs)).sum

/-- The answers to the screen's reads that are still to come over the present store. -/
def loadsLeft (currentUser : Option String) (fs : Firestore) : Screen → Nat
  | .register _ | .share _ => 0
  | .main c => (c.followsListeners.map (followsLeft currentUser fs)).sum + lookupsLeft fs c.userLookups +
      left c.photoListeners + c.likeLookups.length
  | .comments c => left c.listeners + c.lookups.length
  | .profile c => c.userLookup.elim 0 (lookupLeft fs) + left c.photoListeners

/-- The answers for the headers of a profile, which a posts snapshot may dequeue and so ask again. -/
def readsLeft : Screen → Nat
  | .profile c => c.followReads.length
  | _ => 0

/-- The event comes from `Auth`, Storage or Firestore, and brings something. -/
def AtScreen : Screen → ScreenEvent → Prop
  | _, .share (.edit _) | _, .share (.press _) | _, .main .refreshPosts | _, .main (.tap _) => False
  | _, .comments (.edit _) | _, .comments (.send _) | _, .profile (.configure _) | _, .profile (.tap _) => False
  | .main c, .main (.followsFails l) => l < c.followsListeners.length
  | .main c, .main (.photoSnapshot l n _) => Brings c.photoListeners l n
  | .main c, .main (.photoFails l) => l < c.photoListeners.length
  | .comments c, .comments (.snapshot l n) => Brings c.listeners l n
  | .comments c, .comments (.snapshotFails l) => l < c.listeners.length
  | .profile c, .profile (.photoSnapshot l n _) => Brings c.photoListeners l n
  | .profile c, .profile (.photoFails l) => l < c.photoListeners.length
  | _, _ => True

/-- Nobody presses a button, opens a screen, or signs in or out. -/
def Answer (s : System) : System.Event → Prop
  | .register _ _ (.press _ _ _) => False
  | .register _ _ _ => True
  | .screen i j e => ∃ c, s.clients[i]? = some c ∧ ∃ screen, c.screens[j]? = some screen ∧ AtScreen screen e
  | .launch | .signIn _ _ | .signOut _ | .open _ _ => False

/-! ### What a callback starts -/

/-- What runs at a client because a callback called for it, and not because of a touch. -/
inductive Start where
  /-- `updateNotification` reaches the feed at place `j`. -/
  | refreshPosts (i j : Nat)
  /-- `createView` has made the tab of the feed or of the own profile, and it loads. -/
  | mainTab (i : Nat)
  | profileTab (i : Nat)
  /-- The layout of the profile at place `j` dequeues a header. -/
  | header (i j place : Nat)
  deriving DecidableEq

def Start.event : Start → System.Event
  | .refreshPosts i j => .screen i j (.main .refreshPosts)
  | .mainTab i => .open i .main
  | .profileTab i => .open i (.profile none)
  | .header i j place => .screen i j (.profile (.configure place))

/-- A refresh or a tab that loads asks Firestore again. -/
def Start.asks : Start → Nat
  | .refreshPosts _ _ | .mainTab _ | .profileTab _ => 1
  | .header _ _ _ => 0

/-- A header that is dequeued asks for one read. -/
def Start.reads : Start → Nat
  | .header _ _ _ => 2
  | .refreshPosts _ _ | .mainTab _ | .profileTab _ => 0

/-- The observers of `updateNotification`: the feeds of the client. -/
def observers (i : Nat) (c : Client) : List Start :=
  (List.range c.screens.length).filterMap fun j =>
    match c.screens[j]? with
    | some (Screen.main _) => some (.refreshPosts i j)
    | _ => none

example : observers 0 { screens := [.main {}, .register [], .main {}] } = [.refreshPosts 0 0, .refreshPosts 0 2] := rfl

/-- The event starts these. A share that succeeds posts the notification, a sign-up that succeeds makes the
tabs, and the layout dequeues any headers after the `reloadData` of a posts snapshot or when a profile opens. -/
def Starts (s : System) : System.Event → List Start → Prop
  | .screen i _ (.share (.saved _ _ true)) => fun more => more = (s.clients[i]?).elim [] (observers i)
  | .register i _ (.stored _ true) => fun more => ∀ x ∈ more, x = .mainTab i ∨ x = .profileTab i
  | .screen i j (.profile (.photoSnapshot _ _ _)) => fun more => ∀ x ∈ more, ∃ place, x = .header i j place
  | .open i (.profile _) => fun more =>
      ∀ x ∈ more, ∃ place, x = .header i ((s.clients[i]?).elim 0 fun c => c.screens.length) place
  | _ => fun more => more = []

theorem some_start (s : System) (e : System.Event) : ∃ more, Starts s e more := by
  unfold Starts
  split
  · exact ⟨_, rfl⟩
  · exact ⟨[], List.forall_mem_nil _⟩
  · exact ⟨[], List.forall_mem_nil _⟩
  · exact ⟨[], List.forall_mem_nil _⟩
  · exact ⟨[], rfl⟩

/-! ### The home feed -/

section
variable {currentUser : Option String} {fs : Firestore}

theorem likeStep_left {c c' : MainController} {e : CallEvent} {write : Option ServerWrite}
    (h : c.likeStep fs e = some (c', write)) : callsLeft (.main c') < callsLeft (.main c) := by
  -- `Handled.moved` forgets how far the call has come, so the step itself is taken apart.
  cases e with
  | read n ok =>
    obtain ⟨call, found, h⟩ := Option.bind_eq_some_iff.mp h
    obtain ⟨call', answered, same⟩ := Option.bind_eq_some_iff.mp h
    obtain ⟨rfl, _⟩ := Prod.mk.inj (Option.some.inj same)
    exact sum_set_lt found (Call.answer_left answered)
  | write n ok =>
    obtain ⟨call, found, h⟩ := Option.bind_eq_some_iff.mp h
    split at h
    · rename_i whole writing
      obtain ⟨rfl, _⟩ := Prod.mk.inj (Option.some.inj h)
      exact sum_set_lt found (by rw [writing]; exact Nat.one_lt_two)
    · cases h
  | acknowledge n =>
    obtain ⟨call, found, h⟩ := Option.bind_eq_some_iff.mp h
    obtain ⟨call', acknowledged, h⟩ := Option.bind_eq_some_iff.mp h
    have lower : callsLeft (.main { c with likeCalls := c.likeCalls.set n call' }) < callsLeft (.main c) :=
      sum_set_lt found (Call.acknowledge_left acknowledged)
    dsimp only at h
    split at h
    · split at h <;> obtain ⟨rfl, _⟩ := Prod.mk.inj (Option.some.inj h) <;> exact lower
    · obtain ⟨rfl, _⟩ := Prod.mk.inj (Option.some.inj h)
      exact lower

/-- What one event does to what is left: a call takes a step, or a read is answered, a header's last. -/
def Lowers (currentUser : Option String) (fs : Firestore) (screen : Screen) (e : ScreenEvent) (screen' : Screen)
    (silent : Prop) : Prop :=
  callsLeft screen' < callsLeft screen ∨ silent ∧ callsLeft screen' = callsLeft screen ∧
    (loadsLeft currentUser fs screen' < loadsLeft currentUser fs screen ∨
      (∃ n ok, e = .profile (.followRead n ok)) ∧ loadsLeft currentUser fs screen' = loadsLeft currentUser fs screen ∧
        readsLeft screen' < readsLeft screen)

theorem lookups_concat (lookups more : List UserLookup) :
    lookupsLeft fs (lookups ++ more) = lookupsLeft fs lookups + lookupsLeft fs more := by
  simp [lookupsLeft]

theorem lookups_eraseIdx (fs : Firestore) {lookups : List UserLookup} {n : Nat} {lookup : UserLookup}
    (found : lookups[n]? = some lookup) :
    lookupsLeft fs (lookups.eraseIdx n) + lookupLeft fs lookup.uID = lookupsLeft fs lookups :=
  sum_eraseIdx (f := fun q : UserLookup => lookupLeft fs q.uID) found

/-- The listener that a found user starts is counted in the lookup. -/
theorem userFound_left (fs : Firestore) (c : MainController) (lookup : UserLookup) :
    ∃ validUser crashed listeners,
      c.userFound lookup (fs.users lookup.uID) fs =
        { c with validUser, crashed, photoListeners := c.photoListeners ++ listeners } ∧
      left (c.photoListeners ++ listeners) < left c.photoListeners + lookupLeft fs lookup.uID := by
  obtain ⟨validUser, crashed, listeners, same, none_added | ⟨data, user, _, added⟩⟩ :=
    MainController.userFound_cases c lookup (fs.users lookup.uID) fs
  · refine ⟨validUser, crashed, listeners, same, ?_⟩
    rw [none_added, List.append_nil, lookupLeft]
    omega
  · refine ⟨validUser, crashed, listeners, same, ?_⟩
    rw [added, left_concat, lookupLeft, user]
    simp only [Option.elim_some]
    omega

/-- A version that is delivered takes the older ones with it, and its lookups are counted in it. -/
theorem followsSnapshot_left {c : MainController} {l k : Nat} {listener : FollowsListener} {data : Option Dict}
    {listeners : List FollowsListener}
    (delivered : deliverVersion c.followsListeners l k = some (listener, data, listeners)) :
    loadsLeft currentUser fs (.main ({ c with followsListeners := listeners }.followed currentUser data)) <
      loadsLeft currentUser fs (.main c) := by
  obtain ⟨found, version, rfl⟩ := deliverVersion_ok delivered
  have sums := sum_set (f := followsLeft currentUser fs) found (listener.after (k + 1))
  have versions := sum_drop (f := versionLeft currentUser fs) version
  have kept : followsLeft currentUser fs (listener.after (k + 1)) =
      1 + ((listener.pending.drop (k + 1)).map (versionLeft currentUser fs)).sum := rfl
  have lookups : lookupsLeft fs (c.followed currentUser data).userLookups =
      lookupsLeft fs c.userLookups + lookupsLeft fs (({} : MainController).followed currentUser data).userLookups :=
    lookups_concat c.userLookups (({} : MainController).followed currentUser data).userLookups
  rw [kept, followsLeft] at sums
  rw [versionLeft] at versions
  show ((c.followsListeners.set l (listener.after (k + 1))).map (followsLeft currentUser fs)).sum +
    lookupsLeft fs (c.followed currentUser data).userLookups + left c.photoListeners + c.likeLookups.length < _
  rw [loadsLeft]
  omega

theorem main_lowers {c c' : MainController} {e : MainEvent} {write : Option ServerWrite}
    (answer : AtScreen (.main c) (.main e)) (h : c.handle currentUser fs e = some (c', write)) :
    Lowers currentUser fs (.main c) (.main e) (.main c') (write = none) := by
  obtain ⟨_, outcome⟩ := MainController.handle_ok h
  obtain ⟨_, h⟩ := Option.ite_none_left_eq_some.mp h
  cases e with
  | refreshPosts | tap => exact answer.elim
  | like e => exact .inl (likeStep_left h)
  | followsSnapshot l k =>
    cases outcome with
    | followsSnapshot delivered => exact .inr ⟨rfl, rfl, .inl (followsSnapshot_left delivered)⟩
  | followsFails l =>
    cases outcome
    have sums := sum_eraseIdx (f := followsLeft currentUser fs) (List.getElem?_eq_getElem answer)
    refine .inr ⟨rfl, rfl, .inl ?_⟩
    rw [followsLeft] at sums
    simp only [loadsLeft]
    omega
  | userLookup n ok =>
    obtain ⟨lookup, found, same⟩ := Option.bind_eq_some_iff.mp h
    obtain ⟨rfl, rfl⟩ := Prod.mk.inj (Option.some.inj same)
    have sums := lookups_eraseIdx fs found
    cases ok with
    | true =>
      obtain ⟨validUser, crashed, listeners, added, lower⟩ :=
        userFound_left fs { c with userLookups := c.userLookups.eraseIdx n } lookup
      rw [if_pos rfl, added]
      refine .inr ⟨rfl, rfl, .inl ?_⟩
      simp only [loadsLeft] at lower ⊢
      omega
    | false =>
      refine .inr ⟨rfl, rfl, .inl ?_⟩
      rw [lookupLeft] at sums
      simp only [Bool.false_eq_true, if_false, loadsLeft]
      omega
  | photoSnapshot l n now =>
    cases outcome with
    | @photoSnapshot l n now listener listeners delivered =>
      have lower := deliver_left answer delivered
      have ordered := (orderedByPostDate_perm (listener.pending.take n)).length_eq
      refine .inr ⟨rfl, by cases currentUser <;> rfl, .inl ?_⟩
      cases currentUser with
      | none =>
        simp only [loadsLeft, MainController.postsAdded]
        omega
      | some account =>
        simp only [loadsLeft, MainController.postsAdded, List.length_append, List.length_map]
        omega
  | photoFails l =>
    cases outcome
    have lower := eraseIdx_left answer
    refine .inr ⟨rfl, rfl, .inl ?_⟩
    simp only [loadsLeft]
    omega
  | likeLookup n ok =>
    obtain ⟨lookup, found, same⟩ := Option.bind_eq_some_iff.mp h
    obtain ⟨rfl, rfl⟩ := Prod.mk.inj (Option.some.inj same)
    have inside := (List.getElem?_eq_some_iff.mp found).1
    have shorter := List.length_eraseIdx_of_lt inside
    refine .inr ⟨rfl, by cases ok <;> rfl, .inl ?_⟩
    cases ok <;> simp only [loadsLeft, MainController.likeFound, if_true, Bool.false_eq_true, if_false] <;> omega

/-! ### The other screens -/

theorem comments_lowers {c c' : CommentController} {e : CommentEvent} {write : Option (String × ServerWrite)}
    (answer : AtScreen (.comments c) (.comments e)) (h : c.handle currentUser fs e = some (c', write)) :
    Lowers currentUser fs (.comments c) (.comments e) (.comments c') (write = none) := by
  have outcome := CommentController.handle_ok h
  cases outcome with
  | edit | send => exact answer.elim
  | written found writing | refused found writing => exact .inl (sum_set_lt found (by rw [writing]; exact Nat.one_lt_two))
  | acknowledge found written => exact .inl (sum_set_lt found (by rw [written]; exact Nat.zero_lt_one))
  | @snapshot l n listener listeners delivered =>
    have lower := deliver_left answer delivered
    refine .inr ⟨rfl, rfl, .inl ?_⟩
    have fewer := List.length_filterMap_le (fun d : String × Dict => do
      let userID ← asString (d.2.lookup "UserID")
      let uID ← createUser userID currentUser
      return ({ uID, dictionaryData := d.2 } : CommentLookup)) (listener.pending.take n)
    simp only [loadsLeft, CommentController.commentsChanged, List.length_append]
    omega
  | snapshotFails =>
    have lower := eraseIdx_left answer
    refine .inr ⟨rfl, rfl, .inl ?_⟩
    simp only [loadsLeft]
    omega
  | @userFound n lookup found =>
    have shorter := List.length_eraseIdx_of_lt (List.getElem?_eq_some_iff.mp found).1
    have inside := (List.getElem?_eq_some_iff.mp found).1
    cases fs.users lookup.uID <;> refine .inr ⟨rfl, rfl, .inl ?_⟩ <;>
      simp only [loadsLeft, CommentController.authorFound] <;> omega
  | @userFails n lookup found =>
    have shorter := List.length_eraseIdx_of_lt (List.getElem?_eq_some_iff.mp found).1
    have inside := (List.getElem?_eq_some_iff.mp found).1
    refine .inr ⟨rfl, rfl, .inl ?_⟩
    simp only [loadsLeft]
    omega

theorem followStep_left {c c' : UserProfileController} {e : CallEvent} {write : Option (String × ServerWrite)}
    (h : c.followStep fs e = some (c', write)) : callsLeft (.profile c') < callsLeft (.profile c) := by
  cases e with
  | read n ok =>
    obtain ⟨tap, found, h⟩ := Option.bind_eq_some_iff.mp h
    obtain ⟨call, answered, same⟩ := Option.bind_eq_some_iff.mp h
    obtain ⟨rfl, _⟩ := Prod.mk.inj (Option.some.inj same)
    exact sum_set_lt found (Call.answer_left answered)
  | write n ok =>
    obtain ⟨tap, found, h⟩ := Option.bind_eq_some_iff.mp h
    split at h
    · rename_i whole writing
      obtain ⟨rfl, _⟩ := Prod.mk.inj (Option.some.inj h)
      exact sum_set_lt found (by rw [writing]; exact Nat.one_lt_two)
    · cases h
  | acknowledge n =>
    obtain ⟨tap, found, h⟩ := Option.bind_eq_some_iff.mp h
    obtain ⟨call, acknowledged, h⟩ := Option.bind_eq_some_iff.mp h
    have lower : callsLeft (.profile { c with followTaps := c.followTaps.set n { tap with call } }) <
        callsLeft (.profile c) :=
      sum_set_lt found (Call.acknowledge_left acknowledged)
    dsimp only at h
    split at h <;> obtain ⟨rfl, _⟩ := Prod.mk.inj (Option.some.inj h) <;> exact lower

/-- The listener that the found user starts is counted in the lookup. -/
theorem profileFound_left {c : UserProfileController} {uID : String} (waits : c.userLookup = some uID) :
    callsLeft (.profile ({ c with userLookup := none }.userFound (fs.users uID) fs)) = callsLeft (.profile c) ∧
      loadsLeft currentUser fs (.profile ({ c with userLookup := none }.userFound (fs.users uID) fs)) <
        loadsLeft currentUser fs (.profile c) := by
  rw [show loadsLeft currentUser fs (.profile c) =
    lookupLeft fs uID + left c.photoListeners by simp [loadsLeft, waits], lookupLeft]
  cases user : fs.users uID with
  | none =>
    refine ⟨rfl, ?_⟩
    simp only [UserProfileController.userFound, loadsLeft, Option.elim_none]
    omega
  | some data =>
    simp only [UserProfileController.userFound, UserProfileController.getPostFS, Option.elim_some]
    split
    · refine ⟨rfl, ?_⟩
      simp only [loadsLeft, Option.elim_none]
      omega
    · refine ⟨rfl, ?_⟩
      simp only [loadsLeft, left_concat, Option.elim_none]
      omega

theorem profile_lowers {c c' : UserProfileController} {e : ProfileEvent} {write : Option (String × ServerWrite)}
    (answer : AtScreen (.profile c) (.profile e)) (h : c.handle currentUser fs e = some (c', write)) :
    Lowers currentUser fs (.profile c) (.profile e) (.profile c') (write = none) := by
  have outcome := UserProfileController.handle_ok h
  obtain ⟨_, h⟩ := Option.ite_none_left_eq_some.mp h
  cases e with
  | configure | tap => exact answer.elim
  | follow e => exact .inl (followStep_left h)
  | userLookup ok =>
    cases outcome with
    | userFound waits => exact .inr ⟨rfl, (profileFound_left waits).imp_right .inl⟩
    | @userFails uID waits =>
      refine .inr ⟨rfl, rfl, .inl ?_⟩
      simp only [loadsLeft, waits, Option.elim_some, Option.elim_none, lookupLeft]
      omega
  | photoSnapshot l n now =>
    cases outcome with
    | photoSnapshot delivered =>
      have lower := deliver_left answer delivered
      cases c.validUser <;> refine .inr ⟨rfl, rfl, .inl ?_⟩ <;>
        simp only [loadsLeft, UserProfileController.postsAdded] <;> omega
  | photoFails l =>
    cases outcome
    have lower := eraseIdx_left answer
    refine .inr ⟨rfl, rfl, .inl ?_⟩
    simp only [loadsLeft]
    omega
  | followRead n ok =>
    obtain ⟨read, found, same⟩ := Option.bind_eq_some_iff.mp h
    obtain ⟨rfl, rfl⟩ := Prod.mk.inj (Option.some.inj same)
    have inside := (List.getElem?_eq_some_iff.mp found).1
    have shorter := List.length_eraseIdx_of_lt inside
    cases ok with
    | true =>
      rw [if_pos rfl]
      cases listed : c.headers[read.place]? <;> refine .inr ⟨rfl, ?_, .inr ⟨⟨n, true, rfl⟩, ?_, ?_⟩⟩ <;>
        simp only [UserProfileController.followRead, listed, callsLeft, loadsLeft, readsLeft]
      all_goals omega
    | false =>
      refine .inr ⟨rfl, rfl, .inr ⟨⟨n, false, rfl⟩, rfl, ?_⟩⟩
      simp only [Bool.false_eq_true, if_false, readsLeft]
      omega

theorem share_lowers {c c' : SharePhotoController} {e : ShareEvent} {write : Option (String × ServerWrite)}
    (answer : AtScreen (.share c) (.share e)) (h : c.handle currentUser e = some (c', write)) :
    callsLeft (.share c') < callsLeft (.share c) := by
  have outcome := SharePhotoController.handle_ok h
  cases outcome with
  | edit | press => exact answer.elim
  | @uploaded n a ok found uploading =>
    cases ok with
    | true => exact sum_set_lt found (by rw [uploading]; exact Nat.lt_succ_self 2)
    | false => exact sum_set_lt found (by rw [uploading]; exact Nat.zero_lt_succ 2)
  | @located n a url ok now found locating =>
    obtain ⟨stage, same, stages⟩ := SharePhotoController.located_cases c n a url ok currentUser now
    rw [callsLeft, same]
    refine sum_set_lt found ?_
    rw [locating]
    rcases stages with rfl | ⟨_, _, rfl, _⟩
    · exact Nat.zero_lt_two
    · exact Nat.one_lt_two
  | saved found saving | saveFails found saving => exact sum_set_lt found (by rw [saving]; exact Nat.zero_lt_one)

theorem screen_lowers {screen screen' : Screen} {e : ScreenEvent} {write : Option (String × ServerWrite)}
    (answer : AtScreen screen e) (h : screen.handle currentUser fs e = some (screen', write)) :
    Lowers currentUser fs screen e screen' (write = none) := by
  unfold Screen.handle at h
  split at h
  · obtain ⟨⟨c', w⟩, handled, same⟩ := Option.map_eq_some_iff.mp h
    obtain ⟨rfl, _⟩ := Prod.mk.inj same
    exact .inl (share_lowers answer handled)
  · obtain ⟨⟨c', w⟩, handled, same⟩ := Option.map_eq_some_iff.mp h
    obtain ⟨rfl, rfl⟩ := Prod.mk.inj same
    exact (main_lowers answer handled).imp_right fun lower => ⟨by rw [lower.1]; rfl, lower.2⟩
  · obtain ⟨⟨c', w⟩, handled, same⟩ := Option.map_eq_some_iff.mp h
    obtain ⟨rfl, rfl⟩ := Prod.mk.inj same
    exact comments_lowers answer handled
  · obtain ⟨⟨c', w⟩, handled, same⟩ := Option.map_eq_some_iff.mp h
    obtain ⟨rfl, rfl⟩ := Prod.mk.inj same
    exact profile_lowers answer handled
  · cases h

end

/-- A write reaches the listeners, and no call takes a step by it. -/
theorem notify_callsLeft (fs fs' : Firestore) (w : ServerWrite) (screen : Screen) :
    callsLeft (screen.notify fs fs' w) = callsLeft screen := by
  cases screen with
  | register | share => rfl
  | main c =>
    obtain ⟨_, _, same⟩ := MainController.notify_same c fs fs' w
    simp only [Screen.notify, same, callsLeft]
  | comments c => cases w <;> rfl
  | profile c => cases w <;> rfl

theorem register_lowers {s t : SignUp.State} {e : SignUp.Event}
    (answer : ∀ txtEmail txtUserName txtPassword, e ≠ .press txtEmail txtUserName txtPassword)
    (h : SignUp.step s e = some t) : callsLeft (.register t.attempts) < callsLeft (.register s.attempts) := by
  have moved : ∀ {n : Nat} {a : SignUpAttempt} {stage : SignUpStage}, s.attempts[n]? = some a →
      stage.left < a.stage.left →
        callsLeft (.register (s.attempts.set n { a with stage })) < callsLeft (.register s.attempts) :=
    fun found lower => sum_set_lt found lower
  cases SignUp.step_ok h with
  | pressed | unread => exact (answer _ _ _ rfl).elim
  | created found creating | refused found creating =>
    refine moved found ?_
    rw [creating]
    simp [SignUpStage.left]
  | @uploaded n a uid ok found uploading =>
    refine moved found ?_
    rw [uploading]
    cases ok <;> simp [SignUpStage.left]
  | @located n a uid url ok found locating =>
    refine moved found ?_
    rw [locating]
    cases ok <;> simp [SignUpStage.left]
  | saved found saving | saveFails found saving =>
    refine moved found ?_
    rw [saving]
    exact Nat.zero_lt_one

end Answers
end Foti
