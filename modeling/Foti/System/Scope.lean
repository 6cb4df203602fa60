import Foti.System.Attribution
import Foti.System.SignUps

/-!
What a screen refers to: the accounts it acts for, the posts it may write about, and the users it
shows. A screen stays within its scope as long as the scope has the account that is signed in, the
posts that are stored and the users that can be read.
-/

namespace Foti
open Document Entries Listening Transition

structure Scope where
  account : String → Prop
  post : String → Prop
  user : User → Prop

/-- The account whose data a write changes. -/
def ServerWrite.account : ServerWrite → String
  | .user uid _ _ => uid
  | .photoPost author _ _ => author
  | .comment _ data => data.userID
  | .like _ w => w.key
  | .follow accountUserID _ => accountUserID

namespace Scope

structure LE (r r' : Scope) : Prop where
  account : ∀ uid, r.account uid → r'.account uid
  post : ∀ id, r.post id → r'.post id
  user : ∀ user, r.user user → r'.user user

theorem LE.refl (r : Scope) : LE r r := ⟨fun _ h => h, fun _ h => h, fun _ h => h⟩

def HasPost (r : Scope) (p : Post) : Prop := r.user p.user ∧ ∀ id, p.id = some id → r.post id

def HasWrite (r : Scope) (w : ServerWrite) : Prop :=
  r.account w.account ∧ match w with
    | .like postID _ => r.post postID
    | .comment _ data => r.post data.postID
    | _ => True

structure HasMain (r : Scope) (c : MainController) : Prop where
  listeners : ∀ l ∈ c.photoListeners, r.user l.closure
  lookups : ∀ q ∈ c.likeLookups, r.HasPost q.post
  posts : ∀ p ∈ c.posts, r.HasPost p
  calls : ∀ call ∈ c.likeCalls, r.account call.key ∧ r.post call.closure.postID ∧ r.HasPost call.closure.post

structure HasComments (r : Scope) (c : CommentController) : Prop where
  chosen : ∀ id, c.chosenPost.bind (·.id) = some id → r.post id
  comments : ∀ x ∈ c.comments, r.user x.user
  sends : ∀ s ∈ c.sends, r.account s.sender ∧ r.post s.data.postID

structure HasProfile (r : Scope) (c : UserProfileController) : Prop where
  user : ∀ user, c.validUser = some user → r.user user
  posts : ∀ p ∈ c.posts, r.HasPost p
  headers : ∀ header ∈ c.headers, ∀ user, header.validUser = some user → r.user user
  taps : ∀ tap ∈ c.followTaps, r.account tap.accountUserID

def HasAttempts (r : Scope) (attempts : List SignUpAttempt) : Prop :=
  ∀ a ∈ attempts, ∀ uid, a.account = some uid → r.account uid

def HasShare (r : Scope) (c : SharePhotoController) : Prop :=
  ∀ a ∈ c.attempts, ∀ uid data, a.stage = .saving uid data → r.account uid

def HasScreen (r : Scope) : Screen → Prop
  | .register attempts => r.HasAttempts attempts
  | .share c => r.HasShare c
  | .main c => r.HasMain c
  | .comments c => r.HasComments c
  | .profile c => r.HasProfile c

section
variable {r r' : Scope} {seen fs : Firestore} {currentUser : Option String}

theorem LE.hasPost (le : LE r r') {p : Post} (h : r.HasPost p) : r'.HasPost p :=
  ⟨le.user _ h.1, fun id same => le.post id (h.2 id same)⟩

theorem LE.hasScreen (le : LE r r') {screen : Screen} (h : r.HasScreen screen) : r'.HasScreen screen := by
  cases screen with
  | register attempts => exact fun a ha uid owns => le.account uid (h a ha uid owns)
  | share c => exact fun a ha uid data saving => le.account uid (h a ha uid data saving)
  | main c =>
    exact ⟨fun l hl => le.user _ (h.listeners l hl), fun q hq => le.hasPost (h.lookups q hq),
      fun p hp => le.hasPost (h.posts p hp), fun call hcall => (h.calls call hcall).imp (le.account _)
        (And.imp (le.post _) le.hasPost)⟩
  | comments c =>
    exact ⟨fun id same => le.post id (h.chosen id same), fun x hx => le.user _ (h.comments x hx),
      fun s hs => (h.sends s hs).imp (le.account _) (le.post _)⟩
  | profile c =>
    exact ⟨fun user same => le.user _ (h.user user same), fun p hp => le.hasPost (h.posts p hp),
      fun header hh user same => le.user _ (h.headers header hh user same), fun tap htap => le.account _ (h.taps tap htap)⟩

/-- What the handlers of a screen take in from outside it. -/
structure Offers (r : Scope) (fs : Firestore) (currentUser : Option String) : Prop where
  account : ∀ uid, currentUser = some uid → r.account uid
  posts : ∀ author, ∀ d ∈ fs.photoPosts author, r.post d.1
  users : ∀ uid data, fs.users uid = some data → r.user (User.init data)

/-! ### The screens -/

theorem share_within {c c' : SharePhotoController} {e : ShareEvent} {write : Option (String × ServerWrite)}
    (offers : Offers r fs currentUser) (h : r.HasShare c) (outcome : SharePhotoController.Handled currentUser c e c' write) :
    r.HasShare c' ∧ ∀ sender w, write = some (sender, w) → r.HasWrite w := by
  cases outcome with
  | edit => exact ⟨h, by simp⟩
  | press =>
    refine ⟨forall_mem_concat h fun uid data saving => ?_, by simp⟩
    dsimp only at saving
    split at saving <;> cases saving
  | uploaded =>
    unfold SharePhotoController.uploaded
    split <;> exact ⟨forall_mem_set h (by simp), by simp⟩
  | @located n a url ok now =>
    obtain ⟨stage, attempts, ends⟩ := SharePhotoController.located_cases c n a url ok currentUser now
    refine ⟨?_, by simp⟩
    unfold HasShare
    rw [attempts]
    refine forall_mem_set h fun uid data saving => ?_
    rcases ends with rfl | ⟨_, _, rfl, signedIn, _, _⟩
    · cases saving
    · obtain ⟨rfl, rfl⟩ := ShareStage.saving.inj saving
      exact offers.account _ signedIn
  | saved found saving =>
    refine ⟨forall_mem_set h (by simp), fun sender w wrote => ?_⟩
    obtain ⟨_, rfl⟩ := Prod.mk.inj (Option.some.inj wrote)
    exact ⟨h _ (List.mem_of_getElem? found) _ _ saving, trivial⟩
  | saveFails => exact ⟨forall_mem_set h (by simp), by simp⟩

theorem main_within {c c' : MainController} {e : MainEvent} {w : Option ServerWrite} (offers : Offers r fs currentUser)
    (sees : Sees seen fs) (ok : Attribution.MainOk fs c) (h : r.HasMain c)
    (outcome : MainController.Handled currentUser seen c e c' w) : r.HasMain c' ∧ ∀ v, w = some v → r.HasWrite v := by
  have moved : ∀ {n : Nat} {call : LikeCall} {stage : Stage}, c.likeCalls[n]? = some call →
      ∀ d ∈ c.likeCalls.set n { call with stage }, r.account d.key ∧ r.post d.closure.postID ∧ r.HasPost d.closure.post :=
    fun {n call stage} found => forall_mem_set h.calls (h.calls call (List.mem_of_getElem? found))
  cases outcome with
  | refreshPosts =>
    obtain ⟨_, _, same⟩ := Attribution.refresh_same c currentUser seen
    rw [same]
    exact ⟨{ h with posts := List.forall_mem_nil _ }, by simp⟩
  | @userFound n lookup found =>
    obtain ⟨_, _, listeners, same, fresh⟩ := MainController.userFound_cases
      { c with userLookups := c.userLookups.eraseIdx n } lookup (seen.users lookup.uID) seen
    rw [same]
    have new : ∀ l ∈ listeners, r.user l.closure := by
      rcases fresh with rfl | ⟨data, found, _, rfl⟩
      · exact List.forall_mem_nil _
      · exact List.forall_mem_singleton.mpr (offers.users _ data (sees.users _ data found))
    exact ⟨{ h with listeners := List.forall_mem_append.mpr ⟨h.listeners, new⟩ }, by simp⟩
  | @photoSnapshot l n now listener listeners delivered =>
    obtain ⟨found, rfl⟩ := deliver_ok delivered
    have listed := List.mem_of_getElem? found
    have kept : r.HasMain { c with photoListeners := c.photoListeners.set l (listener.after n) } :=
      { h with listeners := forall_mem_set h.listeners (h.listeners listener listed) }
    cases currentUser with
    | none => exact ⟨kept, by simp⟩
    | some account =>
      refine ⟨{ kept with lookups := List.forall_mem_append.mpr ⟨h.lookups, fun q hq => ?_⟩ }, by simp⟩
      obtain ⟨d, hd, rfl⟩ := List.mem_map.mp hq
      refine ⟨h.listeners listener listed, fun id same => ?_⟩
      obtain rfl := Option.some.inj same
      exact offers.posts _ d (ok.pending listener listed d (List.mem_of_mem_take (mem_orderedByPostDate.mp hd)))
  | photoFails => exact ⟨{ h with listeners := forall_mem_eraseIdx h.listeners }, by simp⟩
  | @likeFound n lookup found =>
    obtain ⟨liked, inserted⟩ := MainController.likeFound_posts { c with likeLookups := c.likeLookups.eraseIdx n } lookup
      (seen.likes lookup.postID)
    refine ⟨{ h with posts := fun p hp => ?_, lookups := forall_mem_eraseIdx h.lookups }, by simp⟩
    rcases List.mem_cons.mp (inserted.mem_iff.mp hp) with rfl | old
    · exact h.lookups lookup (List.mem_of_getElem? found)
    · exact h.posts p old
  | likeFails => exact ⟨{ h with lookups := forall_mem_eraseIdx h.lookups }, by simp⟩
  | tap called =>
    obtain ⟨post, postID, _, shown, hasID, signedIn, rfl⟩ := postLiked_ok called
    have own := h.posts post (List.mem_of_getElem? shown)
    exact ⟨{ h with calls := forall_mem_concat h.calls ⟨offers.account _ signedIn, own.2 postID hasID, own⟩ }, by simp⟩
  | moved found _ liked =>
    refine ⟨{ h with calls := moved found }, fun v wrote => ?_⟩
    have own := h.calls _ (List.mem_of_getElem? found)
    rcases liked v wrote with rfl | rfl <;> exact ⟨own.1, own.2.1⟩
  | trapped found => exact ⟨{ h with calls := moved found }, by simp⟩
  | @completed n call whole posts found written completed =>
    obtain ⟨_, same⟩ := Option.ite_none_right_eq_some.mp completed
    have captured := (h.calls call (List.mem_of_getElem? found)).2.2
    refine ⟨{ h with calls := moved found, posts := ?_ }, by simp⟩
    rw [← Option.some.inj same]
    exact forall_mem_set h.posts captured
  | followsSnapshot | followsFails | userFails => exact ⟨{ h with }, by simp⟩

theorem send_within {c : CommentController} {now : UInt64} (offers : Offers r fs currentUser) (h : r.HasComments c) :
    r.HasComments (c.send currentUser now) := by
  unfold CommentController.send
  split
  · rename_i sender data pressed
    obtain ⟨_, _, _, about⟩ := btnSendCommentPressed_ok pressed
    split
    · exact { h with }
    · rename_i named
      refine { h with sends := forall_mem_concat h.sends ⟨offers.account sender rfl, ?_⟩ }
      cases chosen : c.chosenPost.bind (·.id) with
      | none => simp [chosen, about] at named
      | some postID =>
        rw [chosen] at about
        exact about ▸ h.chosen postID chosen
  · exact h

theorem comments_within {c c' : CommentController} {e : CommentEvent} {write : Option (String × ServerWrite)}
    (offers : Offers r fs currentUser) (sees : Sees seen fs) (ok : Attribution.CommentsOk fs c) (h : r.HasComments c)
    (outcome : CommentController.Handled currentUser seen c e c' write) :
    r.HasComments c' ∧ ∀ sender w, write = some (sender, w) → r.HasWrite w := by
  cases outcome with
  | edit => exact ⟨{ h with }, by simp⟩
  | send => exact ⟨send_within offers h, by simp⟩
  | written found =>
    have sent := h.sends _ (List.mem_of_getElem? found)
    have own := (ok.sends _ (List.mem_of_getElem? found)).1
    refine ⟨{ h with sends := forall_mem_set h.sends sent }, fun sender w wrote => ?_⟩
    obtain ⟨_, rfl⟩ := Prod.mk.inj (Option.some.inj wrote)
    refine ⟨?_, sent.2⟩
    rw [ServerWrite.account, own]
    exact sent.1
  | refused found =>
    have sent := h.sends _ (List.mem_of_getElem? found)
    exact ⟨{ h with sends := forall_mem_set h.sends sent }, by simp⟩
  | acknowledge found =>
    have sent := h.sends _ (List.mem_of_getElem? found)
    exact ⟨{ h with sends := forall_mem_set h.sends sent }, by simp⟩
  | snapshot => exact ⟨{ h with }, by simp⟩
  | snapshotFails => exact ⟨{ h with }, by simp⟩
  | @userFound n lookup found =>
    refine ⟨?_, by simp⟩
    cases author : seen.users lookup.uID with
    | none => exact { h with }
    | some data =>
      exact { h with comments := forall_mem_concat h.comments (offers.users _ data (sees.users _ data author)) }
  | userFails => exact ⟨{ h with }, by simp⟩

theorem configure_within {c : UserProfileController} (h : r.HasProfile c) (place : Nat) :
    r.HasProfile (c.configure place currentUser) := by
  obtain ⟨headers, _, same, drawn⟩ := c.configure_cases place currentUser
  rw [same]
  refine { h with headers := fun header hh user is => ?_ }
  rcases drawn header hh with old | ⟨shown, _⟩
  · exact h.headers header old user is
  · exact h.user user (shown.symm.trans is)

theorem followRead_within {c : UserProfileController} (h : r.HasProfile c) (read : FollowRead) (data : Option Dict) :
    r.HasProfile (c.followRead read data) := by
  rcases c.followRead_cases read data with same | ⟨header, listed, same⟩
  · rwa [same]
  · rw [same]
    have kept := h.headers header listed
    rw [← header.followData_user read.validUserID data] at kept
    exact { h with headers := forall_mem_set h.headers kept }

theorem userFound_within {c : UserProfileController} {uID : String} (offers : Offers r fs currentUser)
    (sees : Sees seen fs) (h : r.HasProfile c) : r.HasProfile (c.userFound (seen.users uID) seen) := by
  cases found : seen.users uID with
  | none => exact h
  | some data =>
    have user : ∀ user, some (User.init data) = some user → r.user user :=
      fun _ same => Option.some.inj same ▸ offers.users uID data (sees.users uID data found)
    simp only [UserProfileController.userFound, UserProfileController.getPostFS]
    split <;> exact { h with user }

theorem postsAdded_within {c : UserProfileController} {changes : List (String × Dict)} {now : Timestamp}
    (h : r.HasProfile c) : r.HasProfile (c.postsAdded changes now) := by
  unfold UserProfileController.postsAdded
  split
  · exact { h with }
  · rename_i user shown
    refine { h with posts := ?_ }
    rw [ProfilePosts.getPostFS_eq]
    intro p hp
    rcases List.mem_append.mp (List.mem_reverse.mp hp) with old | new
    · exact h.posts p old
    · obtain ⟨change, _, rfl⟩ := List.mem_map.mp new
      exact ⟨h.user user shown, fun id same => by cases same⟩

theorem profile_within {c c' : UserProfileController} {e : ProfileEvent} {write : Option (String × ServerWrite)}
    (offers : Offers r fs currentUser) (sees : Sees seen fs) (h : r.HasProfile c)
    (outcome : UserProfileController.Handled currentUser seen c e c' write) :
    r.HasProfile c' ∧ ∀ sender w, write = some (sender, w) → r.HasWrite w := by
  cases outcome with
  | userFound =>
    have kept : r.HasProfile { c with userLookup := none } := { h with }
    exact ⟨userFound_within offers sees kept, by simp⟩
  | userFails => exact ⟨{ h with }, by simp⟩
  | @photoSnapshot l n now listener photoListeners delivered =>
    have kept : r.HasProfile { c with photoListeners } := { h with }
    exact ⟨postsAdded_within kept, by simp⟩
  | photoFails => exact ⟨{ h with }, by simp⟩
  | configure => exact ⟨configure_within h _, by simp⟩
  | @followRead n read found =>
    have listed : r.HasProfile { c with followReads := c.followReads.eraseIdx n } := { h with }
    exact ⟨followRead_within listed read _, by simp⟩
  | followReadFails => exact ⟨{ h with }, by simp⟩
  | tap _ signedIn _ => exact ⟨{ h with taps := forall_mem_concat h.taps (offers.account _ signedIn) }, by simp⟩
  | moved found followed =>
    have tapped := h.taps _ (List.mem_of_getElem? found)
    refine ⟨{ h with taps := forall_mem_set h.taps tapped }, fun sender w wrote => ?_⟩
    obtain ⟨_, same⟩ := followed _ wrote
    obtain ⟨_, rfl⟩ := Prod.mk.inj same
    exact ⟨tapped, trivial⟩
  | @completed n tap whole header found listed =>
    have tapped := h.taps tap (List.mem_of_getElem? found)
    have kept := h.headers header (List.mem_of_getElem? listed)
    rw [← (Attribution.completion_same tap.call whole header).1] at kept
    exact ⟨{ h with taps := forall_mem_set h.taps tapped, headers := forall_mem_set h.headers kept }, by simp⟩

theorem screen_within {screen screen' : Screen} {e : ScreenEvent} {write : Option (String × ServerWrite)}
    (offers : Offers r fs currentUser) (sees : Sees seen fs) (ok : Attribution.ScreenOk fs screen)
    (h : r.HasScreen screen) (handled : Screen.Handled currentUser seen screen e screen' write) :
    r.HasScreen screen' ∧ ∀ sender w, write = some (sender, w) → r.HasWrite w := by
  cases handled with
  | share outcome => exact share_within offers h outcome
  | @main c c' e w outcome =>
    obtain ⟨kept, wrote⟩ := main_within offers sees ok h outcome
    refine ⟨kept, fun sender v mapped => ?_⟩
    obtain ⟨w', rfl, same⟩ := Option.map_eq_some_iff.mp mapped
    obtain ⟨_, rfl⟩ := Prod.mk.inj same
    exact wrote w' rfl
  | comments outcome => exact comments_within offers sees ok h outcome
  | profile outcome => exact profile_within offers sees h outcome

theorem notify_within {fs' : Firestore} {w : ServerWrite} {screen : Screen} (h : r.HasScreen screen) :
    r.HasScreen (screen.notify fs fs' w) := by
  cases screen with
  | register attempts => exact h
  | share c => exact h
  | main c =>
    cases w with
    | photoPost author documentID data =>
      refine { h with listeners := fun l hl => ?_ }
      obtain ⟨m, hm, _, closure, _⟩ := publish_mem hl
      exact closure ▸ h.listeners m hm
    | follow =>
      simp only [HasScreen, Screen.notify, MainController.notify]
      split
      · exact h
      · exact { h with }
    | _ => exact h
  | comments c =>
    cases w with
    | comment => exact { h with }
    | _ => exact h
  | profile c =>
    cases w with
    | photoPost => exact { h with }
    | _ => exact h

theorem opened_within {opening : Opening} (fs : Firestore) (currentUser : Option String)
    (chosen : ∀ chosenPost, opening = .comments chosenPost → ∀ id, chosenPost.bind (·.id) = some id → r.post id) :
    r.HasScreen (Screen.viewDidLoad currentUser fs opening) := by
  cases opening with
  | register => exact List.forall_mem_nil _
  | share chosenPhoto => exact List.forall_mem_nil _
  | main =>
    have empty : r.HasMain {} := by constructor <;> exact List.forall_mem_nil _
    cases currentUser with
    | none => exact empty
    | some account => exact { empty with }
  | comments chosenPost =>
    have empty : r.HasComments { chosenPost } :=
      ⟨chosen chosenPost rfl, List.forall_mem_nil _, List.forall_mem_nil _⟩
    simp only [HasScreen, Screen.viewDidLoad, CommentController.viewDidLoad]
    split
    · exact empty
    · split <;> exact { empty with }
  | profile userID =>
    have empty : r.HasProfile {} :=
      ⟨fun _ same => by (cases same), List.forall_mem_nil _, List.forall_mem_nil _, List.forall_mem_nil _⟩
    simp only [HasScreen, Screen.viewDidLoad, UserProfileController.viewDidLoad]
    split <;> exact { empty with }

/-- Only the answer of `createUser` gives an attempt an account. -/
theorem attempts_within {s t : SignUp.State} {e : SignUp.Event} (h : r.HasAttempts s.attempts)
    (new : ∀ n uid, e = .created n (some uid) → r.account uid) (stepped : SignUp.step s e = some t) :
    r.HasAttempts t.attempts := by
  have moved : ∀ {n : Nat} {a a' : SignUpAttempt}, s.attempts[n]? = some a → a'.account = a.account →
      r.HasAttempts (s.attempts.set n a') := fun {n a a'} found same =>
    forall_mem_set h fun uid owns => h a (List.mem_of_getElem? found) uid (same.symm.trans owns)
  cases SignUp.step_ok stepped with
  | pressed creating =>
    exact forall_mem_concat h fun uid owns => by simp [SignUpAttempt.account, creating] at owns
  | unread => exact h
  | created => exact forall_mem_set h fun u owns => Option.some.inj owns ▸ new _ _ rfl
  | refused => exact forall_mem_set h fun u owns => by cases owns
  | @uploaded n a uid ok found uploading =>
    refine moved found ?_
    cases ok <;> simp [SignUpAttempt.account, uploading]
  | @located n a uid url ok found locating =>
    refine moved found ?_
    cases ok <;> simp [SignUpAttempt.account, locating]
  | saved found saving | saveFails found saving => exact moved found (by simp [SignUpAttempt.account, saving])

end

/-! ### The whole program -/

end Scope

namespace System

def Event.client : Event → Option Nat
  | .launch => none
  | .signIn i _ | .signOut i | .open i _ | .register i _ _ | .screen i _ _ => some i

/-- The event signs an account in on a client: a sign-in, or the answer of `createUser`. -/
def Event.SignsIn (e : Event) (i : Nat) (uid : String) : Prop :=
  e = .signIn i uid ∨ ∃ j n, e = .register i j (.created n (some uid))

end System

namespace Scope

def HasClient (r : Scope) (c : Client) : Prop :=
  (∀ uid, c.currentUser = some uid → r.account uid) ∧ ∀ screen ∈ c.screens, r.HasScreen screen

/-- Each client is within its own scope. -/
def HasClients (r : Nat → Scope) (s : System) : Prop := ∀ i c, s.clients[i]? = some c → (r i).HasClient c

/-- The scopes have what is in the store. -/
structure Supplies (r r' : Nat → Scope) (fs : Firestore) : Prop where
  grows : ∀ i, LE (r i) (r' i)
  posts : ∀ i author, ∀ d ∈ fs.photoPosts author, (r i).post d.1
  users : ∀ i uid data, fs.users uid = some data → (r i).user (User.init data)

/-- The scopes have what the event brings in. -/
structure Admits (r r' : Nat → Scope) (s : System) (e : System.Event) : Prop extends Supplies r r' s.fs where
  signsIn : ∀ i uid, e.SignsIn i uid → (r' i).account uid
  chosen : ∀ i chosenPost, e = .open i (.comments chosenPost) → ∀ id, chosenPost.bind (·.id) = some id → (r i).post id

section
variable {r r' : Nat → Scope} {s t : System} {e : System.Event}

theorem LE.hasClient {r r' : Scope} (le : LE r r') {c : Client} (h : r.HasClient c) : r'.HasClient c :=
  ⟨fun uid same => le.account uid (h.1 uid same), fun screen hs => le.hasScreen (h.2 screen hs)⟩

theorem set_within (grows : ∀ i, LE (r i) (r' i)) (h : HasClients r s) {i : Nat} {c : Client} (own : (r' i).HasClient c) :
    HasClients r' { s with clients := s.clients.set i c } := by
  intro k d found
  rcases set_cases found with ⟨rfl, rfl⟩ | ⟨_, old⟩
  · exact own
  · exact (grows k).hasClient (h k d old)

theorem signedUp_within {r : Scope} {c : Client} {e : SignUp.Event} (h : r.HasClient c)
    (new : ∀ n uid, e = .created n (some uid) → r.account uid) : r.HasClient (System.signedUp c e) := by
  unfold System.signedUp
  split
  · exact ⟨fun uid same => Option.some.inj same ▸ new _ _ rfl, h.2⟩
  · exact h

theorem register_within {i j : Nat} {e : SignUp.Event} (h : HasClients r s) (grows : ∀ i, LE (r i) (r' i))
    (new : ∀ n uid, e = .created n (some uid) → (r' i).account uid) (stepped : s.step (.register i j e) = some t) :
    HasClients r' t ∧ (t.fs = s.fs ∨ ∃ w, (r i).HasWrite w ∧ Firestore.Applied s.fs w t.fs) := by
  obtain ⟨c, attempts, u, found, shown, _, registered, rfl⟩ := SignUps.register_ok stepped
  have client := h i c found
  have old : (r i).HasAttempts attempts := client.2 _ (List.mem_of_getElem? shown)
  have kept := (grows i).hasClient client
  constructor
  · have attempted : (r' i).HasAttempts u.attempts :=
      attempts_within (fun a ha uid owns => (grows i).account uid (old a ha uid owns)) new registered
    have own : (r' i).HasClient { c with screens := c.screens.set j (.register u.attempts) } :=
      ⟨kept.1, forall_mem_set kept.2 attempted⟩
    exact set_within grows h (signedUp_within own new)
  · rcases SignUps.saved_users registered with same | ⟨n, a, uid, url, rfl, listed, saving, same⟩
    · exact .inl (by rw [same])
    · have owns : a.account = some uid := by simp [SignUpAttempt.account, saving]
      refine .inr ⟨.user uid a.userName url, ⟨old a (List.mem_of_getElem? listed) uid owns, trivial⟩, ?_⟩
      rw [same]
      exact .user

/-- A screen stays within the scope of its client when it reads nothing but what is in the store. -/
theorem put_within {seen : Firestore} {i j : Nat} {e : ScreenEvent} {c : Client} {screen screen' : Screen}
    {write : Option (String × ServerWrite)} (ok : Attribution.SystemOk s) (sees : Sees seen s.fs) (h : HasClients r s)
    (supplies : Supplies r r' s.fs) (found : s.clients[i]? = some c) (shown : c.screens[j]? = some screen)
    (handled : Screen.Handled c.currentUser seen screen e screen' write) :
    HasClients r' (s.put i c j screen') ∧ ∀ sender w, write = some (sender, w) → (r i).HasWrite w := by
  have client := h i c found
  obtain ⟨kept, wrote⟩ := screen_within ⟨client.1, supplies.posts i, supplies.users i⟩ sees
    ((ok.clients c (List.mem_of_getElem? found)).2 screen (List.mem_of_getElem? shown))
    (client.2 screen (List.mem_of_getElem? shown)) handled
  have own := (supplies.grows i).hasClient client
  exact ⟨set_within supplies.grows h ⟨own.1, forall_mem_set own.2 ((supplies.grows i).hasScreen kept)⟩, wrote⟩

theorem written_within {sender : String} {w : ServerWrite} (h : HasClients r s) (written : s.write sender w = some t) :
    HasClients r t := by
  obtain ⟨fs, _, _, rfl⟩ := System.write_ok written
  intro k d listed
  rw [List.getElem?_map] at listed
  obtain ⟨before, at_place, rfl⟩ := Option.map_eq_some_iff.mp listed
  refine ⟨(h k before at_place).1, fun screen hs => ?_⟩
  obtain ⟨shown, hshown, rfl⟩ := List.mem_map.mp hs
  exact notify_within ((h k before at_place).2 shown hshown)

theorem opens_within {seen : Firestore} {i : Nat} {c : Client} {opening : Opening} (h : HasClients r s)
    (grows : ∀ i, LE (r i) (r' i)) (found : s.clients[i]? = some c)
    (chosen : ∀ chosenPost, opening = .comments chosenPost → ∀ id, chosenPost.bind (·.id) = some id → (r i).post id) :
    HasClients r' { s with
      clients := s.clients.set i { c with screens := c.screens ++ [Screen.viewDidLoad c.currentUser seen opening] } } := by
  have own := (grows i).hasClient (h i c found)
  have screen := opened_within seen c.currentUser chosen
  exact set_within grows h ⟨own.1, forall_mem_concat own.2 ((grows i).hasScreen screen)⟩

/-- A step keeps every client within its scope, and what it writes is within the scope of its client. -/
theorem step_within (ok : Attribution.SystemOk s) (h : HasClients r s) (admits : Admits r r' s e)
    (stepped : s.step e = some t) : HasClients r' t ∧
      (t.fs = s.fs ∨ ∃ i w, e.client = some i ∧ (r i).HasWrite w ∧ Firestore.Applied s.fs w t.fs) := by
  have grows := admits.grows
  cases System.step_ok stepped with
  | launch =>
    refine ⟨fun k d found => ?_, .inl rfl⟩
    rcases concat_cases found with ⟨_, rfl⟩ | old
    · exact ⟨fun uid same => (by cases same), List.forall_mem_nil _⟩
    · exact (grows k).hasClient (h k d old)
  | @signIn i uid c found known =>
    have own := (grows i).hasClient (h i c found)
    refine ⟨set_within grows h ⟨fun u same => ?_, own.2⟩, .inl rfl⟩
    exact Option.some.inj same ▸ admits.signsIn i uid (.inl rfl)
  | @signOut i c found =>
    have own := (grows i).hasClient (h i c found)
    exact ⟨set_within grows h ⟨fun u same => (by cases same), own.2⟩, .inl rfl⟩
  | @opened i opening c found =>
    have chosen : ∀ chosenPost, opening = .comments chosenPost → ∀ id, chosenPost.bind (·.id) = some id → (r i).post id :=
      fun chosenPost same => admits.chosen i chosenPost (by rw [same])
    exact ⟨opens_within h grows found chosen, .inl rfl⟩
  | @register i j e =>
    obtain ⟨kept, wrote⟩ := register_within h grows (fun n uid same => admits.signsIn i uid (.inr ⟨j, n, by rw [same]⟩)) stepped
    exact ⟨kept, wrote.imp_right fun ⟨w, within, applied⟩ => ⟨i, w, rfl, within, applied⟩⟩
  | silent found shown handled =>
    exact ⟨(put_within ok ok.store.sees h admits.toSupplies found shown handled).1, .inl rfl⟩
  | @wrote i j e c screen screen' sender w t found shown handled written =>
    obtain ⟨put, wrote⟩ := put_within ok ok.store.sees h admits.toSupplies found shown handled
    obtain ⟨fs', _, applied, same⟩ := System.write_ok written
    refine ⟨written_within put written, .inr ⟨i, w, rfl, wrote sender w rfl, ?_⟩⟩
    rw [same]
    exact applied

end
end Scope
end Foti
