import Foti.System.ScreenRuns

/-!
Nothing shared or sent is lost, and nothing arrives twice: the stored posts are the shares that were saved,
and the stored comments are the sends that were written, each once.
-/

namespace Foti.Conservation
open Document Entries ScreenRuns Transition

variable {α : Type*}

/-- What the write of a handler adds. -/
def written (new : ServerWrite → List α) (write : Option (String × ServerWrite)) : List α :=
  (write.map fun w => new w.2).getD []

/-- The records `f` of a screen and the documents `stored` both grow by what a write of the share or the
comments screen adds. The other screens record nothing. -/
structure Conserved (f : Screen → List α) (stored : Firestore → List α) (new : ServerWrite → List α) : Prop where
  initial : stored {} = []
  opened : ∀ fs currentUser opening, f (Screen.viewDidLoad currentUser fs opening) = []
  register : ∀ attempts, f (.register attempts) = []
  main : ∀ c, f (.main c) = []
  profile : ∀ c, f (.profile c) = []
  like : ∀ postID w, new (.like postID w) = []
  follow : ∀ accountUserID w, new (.follow accountUserID w) = []
  share : ∀ {currentUser c e c' write}, SharePhotoController.Handled currentUser c e c' write →
    (f (.share c')).Perm (written new write ++ f (.share c))
  comments : ∀ {currentUser fs c e c' write}, CommentController.Handled currentUser fs c e c' write →
    (f (.comments c')).Perm (written new write ++ f (.comments c))
  users : ∀ fs users, stored { fs with users } = stored fs
  applied : ∀ {fs w fs'}, Firestore.Applied fs w fs' → (stored fs').Perm (new w ++ stored fs)
  notified : ∀ fs fs' w screen, f (screen.notify fs fs' w) = f screen

/-- What the screens of all clients record. -/
def recorded (f : Screen → List α) (s : System) : List α := s.clients.flatMap fun c => c.screens.flatMap f

section
variable {f : Screen → List α} {stored : Firestore → List α} {new : ServerWrite → List α} {s t : System}

theorem client_recorded {i : Nat} {c c' : Client} (found : s.clients[i]? = some c)
    (same : (c'.screens.flatMap f).Perm (c.screens.flatMap f)) (clients : t.clients = s.clients.set i c') :
    (recorded f t).Perm (recorded f s) := by
  rw [recorded, clients]
  exact flatMap_set_same found same

theorem handled_recorded (conserved : Conserved f stored new) {currentUser : Option String} {fs : Firestore}
    {screen screen' : Screen} {e : ScreenEvent} {write : Option (String × ServerWrite)}
    (handled : Screen.Handled currentUser fs screen e screen' write) :
    (f screen').Perm (written new write ++ f screen) := by
  cases handled with
  | share outcome => exact conserved.share outcome
  | comments outcome => exact conserved.comments outcome
  | @main c c' e w outcome =>
    rw [conserved.main, conserved.main]
    cases w with
    | none => rfl
    | some w =>
      obtain ⟨postID, w, rfl⟩ := outcome.write_like
      exact List.Perm.of_eq (by simp [written, conserved.like])
  | @profile c c' e write outcome =>
    rw [conserved.profile, conserved.profile]
    rcases outcome.write_follow with rfl | ⟨sender, accountUserID, w, rfl⟩
    · rfl
    · exact List.Perm.of_eq (by simp [written, conserved.follow])

theorem put_recorded (conserved : Conserved f stored new) {i j : Nat} {c : Client} {screen screen' : Screen}
    {e : ScreenEvent} {write : Option (String × ServerWrite)} (found : s.clients[i]? = some c)
    (shown : c.screens[j]? = some screen) (handled : Screen.Handled c.currentUser s.fs screen e screen' write) :
    (recorded f (s.put i c j screen')).Perm (written new write ++ recorded f s) :=
  flatMap_set_perm found (flatMap_set_perm shown (handled_recorded conserved handled))

theorem write_recorded (conserved : Conserved f stored new) {sender : String} {w : ServerWrite}
    (written : s.write sender w = some t) :
    recorded f t = recorded f s ∧ (stored t.fs).Perm (new w ++ stored s.fs) := by
  obtain ⟨fs', _, applied, rfl⟩ := System.write_ok written
  refine ⟨?_, conserved.applied applied⟩
  simp only [recorded, List.flatMap_map, conserved.notified]

theorem register_conserved (conserved : Conserved f stored new) {i j : Nat} {e : SignUp.Event}
    (stepped : s.step (.register i j e) = some t) : stored t.fs = stored s.fs ∧ (recorded f t).Perm (recorded f s) := by
  obtain ⟨c, attempts, u, found, shown, _, _, rfl⟩ := SignUps.register_ok stepped
  refine ⟨conserved.users _ _, client_recorded found ?_ rfl⟩
  rw [SignUps.signedUp_screens]
  refine flatMap_set_same shown (List.Perm.of_eq ?_)
  rw [conserved.register, conserved.register]

theorem step_conserved (conserved : Conserved f stored new) {e : System.Event}
    (h : (stored s.fs).Perm (recorded f s)) (stepped : s.step e = some t) : (stored t.fs).Perm (recorded f t) := by
  cases System.step_ok stepped with
  | launch =>
    refine h.trans (List.Perm.of_eq ?_)
    simp [recorded]
  | signIn found | signOut found =>
    refine h.trans (client_recorded found ?_ rfl).symm
    exact List.Perm.refl _
  | opened found =>
    refine h.trans (client_recorded found (List.Perm.of_eq ?_) rfl).symm
    simp [conserved.opened]
  | register =>
    obtain ⟨same, records⟩ := register_conserved conserved stepped
    rw [same]
    exact h.trans records.symm
  | silent found shown handled => exact h.trans (put_recorded conserved found shown handled).symm
  | wrote found shown handled written =>
    obtain ⟨records, grown⟩ := write_recorded conserved written
    rw [records]
    exact (grown.trans (h.append_left _)).trans (put_recorded conserved found shown handled).symm

theorem run_conserved (conserved : Conserved f stored new) {events : List System.Event}
    (h : run System.step {} events = some t) : (stored t.fs).Perm (recorded f t) :=
  run_keeps (I := fun s => (stored s.fs).Perm (recorded f s)) (fun _ _ _ => step_conserved conserved) h
    (List.Perm.of_eq conserved.initial)

end

/-! ### Posts -/

/-- The document of an attempt whose post the store has accepted. -/
def savedPost (author : String) (a : ShareAttempt) : List String :=
  match a.stage with
  | .saved validUserID documentID => if validUserID = author then [documentID] else []
  | _ => []

def savedPosts (author : String) : Screen → List String
  | .share c => c.attempts.flatMap (savedPost author)
  | _ => []

def newPosts (author : String) : ServerWrite → List String
  | .photoPost validUserID documentID _ => if validUserID = author then [documentID] else []
  | _ => []

def storedPosts (author : String) (fs : Firestore) : List String := (fs.photoPosts author).map (·.1)

section
variable {author : String} {currentUser : Option String} {fs fs' : Firestore} {w : ServerWrite}

theorem put_savedPosts {c : SharePhotoController} {n : Nat} {a a' : ShareAttempt} {added : List String}
    (found : c.attempts[n]? = some a) (grows : savedPost author a' = added ++ savedPost author a) :
    ((c.put n a').attempts.flatMap (savedPost author)).Perm (added ++ c.attempts.flatMap (savedPost author)) :=
  flatMap_set_perm found (List.Perm.of_eq grows)

theorem share_savedPosts {c c' : SharePhotoController} {e : ShareEvent} {write : Option (String × ServerWrite)}
    (h : SharePhotoController.Handled currentUser c e c' write) :
    (savedPosts author (.share c')).Perm (written (newPosts author) write ++ savedPosts author (.share c)) := by
  cases h with
  | edit => exact List.Perm.refl _
  | press =>
    refine List.Perm.of_eq ?_
    have none_yet : ∀ photoName, savedPost author ⟨photoName, false, .uploading⟩ = [] ∧
        savedPost author ⟨photoName, false, .ended⟩ = [] := fun _ => ⟨rfl, rfl⟩
    simp only [savedPosts, SharePhotoController.btnSharePressed, List.flatMap_append]
    split <;> simp [none_yet, written]
  | @uploaded n a ok found uploading =>
    have before : savedPost author a = [] := by rw [savedPost, uploading]
    cases ok <;> exact put_savedPosts found before.symm
  | @located n a url ok now found locating =>
    have before : savedPost author a = [] := by rw [savedPost, locating]
    obtain ⟨stage, same, moved⟩ := c.located_cases n a url ok currentUser now
    have after : savedPost author { a with stage, hudDismissed := true } = [] := by
      rcases moved with rfl | ⟨_, _, rfl, _⟩ <;> rfl
    simp only [savedPosts, same]
    exact put_savedPosts found (after.trans before.symm)
  | @saved n a validUserID documentID data found saving =>
    have before : savedPost author a = [] := by rw [savedPost, saving]
    refine put_savedPosts found ?_
    rw [before, List.append_nil]
    rfl
  | @saveFails n a validUserID documentID data found saving =>
    have before : savedPost author a = [] := by rw [savedPost, saving]
    exact put_savedPosts found before.symm

theorem applied_storedPosts (h : Firestore.Applied fs w fs') :
    (storedPosts author fs').Perm (newPosts author w ++ storedPosts author fs) := by
  cases h with
  | @photoPost validUserID documentID data =>
    by_cases same : validUserID = author
    · subst same
      simp only [storedPosts, newPosts, Function.update_self, List.map_append, if_pos]
      exact List.perm_append_comm
    · simp [storedPosts, newPosts, same, Function.update_of_ne (Ne.symm same)]
  | _ => exact List.Perm.refl _

theorem posts_conserved (author : String) : Conserved (savedPosts author) (storedPosts author) (newPosts author) where
  initial := rfl
  opened := fun _ _ opening => by cases opening <;> rfl
  register := fun _ => rfl
  main := fun _ => rfl
  profile := fun _ => rfl
  like := fun _ _ => rfl
  follow := fun _ _ => rfl
  share := share_savedPosts
  comments := fun outcome => by cases outcome <;> exact List.Perm.refl _
  users := fun _ _ => rfl
  applied := applied_storedPosts
  notified := fun _ _ _ screen => by cases screen <;> rfl

end

/-- In every run of the program, the documents of an author's posts are those of the shares that were
saved for the author, at any client, each once. -/
theorem posts_are_shares (author : String) (events : List System.Event) (t : System)
    (h : run System.step {} events = some t) :
    ((t.fs.photoPosts author).map (·.1)).Perm (recorded (savedPosts author) t) :=
  run_conserved (posts_conserved author) h

theorem posts_are_shares_alice : ∃ t, run System.step {} Attribution.aliceComments = some t ∧
    recorded (savedPosts "alice") t = ["p"] ∧
    ((t.fs.photoPosts "alice").map (·.1)).Perm (recorded (savedPosts "alice") t) :=
  ⟨_, rfl, rfl, posts_are_shares "alice" Attribution.aliceComments _ rfl⟩

/-! ### Comments -/

/-- The comment of a send whose write has succeeded, acknowledged or not. -/
def writtenComment (postID : String) (s : CommentSend) : List Dict :=
  match s.stage with
  | .written true | .finished true => if s.data.postID = postID then [s.data.addingValue] else []
  | _ => []

def writtenComments (postID : String) : Screen → List Dict
  | .comments c => c.sends.flatMap (writtenComment postID)
  | _ => []

def newComments (postID : String) : ServerWrite → List Dict
  | .comment _ data => if data.postID = postID then [data.addingValue] else []
  | _ => []

def storedComments (postID : String) (fs : Firestore) : List Dict := (fs.addingComments postID).map (·.2)

section
variable {postID : String} {currentUser : Option String} {fs fs' : Firestore} {w : ServerWrite}

theorem set_writtenComments {sends : List CommentSend} {n : Nat} {s s' : CommentSend} {added : List Dict}
    (found : sends[n]? = some s) (grows : writtenComment postID s' = added ++ writtenComment postID s) :
    ((sends.set n s').flatMap (writtenComment postID)).Perm (added ++ sends.flatMap (writtenComment postID)) :=
  flatMap_set_perm found (List.Perm.of_eq grows)

theorem comments_writtenComments {c c' : CommentController} {e : CommentEvent} {write : Option (String × ServerWrite)}
    (h : CommentController.Handled currentUser fs c e c' write) :
    (writtenComments postID (.comments c')).Perm
      (written (newComments postID) write ++ writtenComments postID (.comments c)) := by
  cases h with
  | edit | snapshot | snapshotFails | userFails => exact List.Perm.refl _
  | @send now =>
    unfold CommentController.send
    split
    · split
      · exact List.Perm.refl _
      · refine List.Perm.of_eq ?_
        simp [writtenComments, writtenComment, written]
    · exact List.Perm.refl _
  | @written n documentID s found writing =>
    have before : writtenComment postID s = [] := by rw [writtenComment, writing]
    refine set_writtenComments found ?_
    rw [before, List.append_nil]
    rfl
  | @refused n documentID s found writing =>
    have before : writtenComment postID s = [] := by rw [writtenComment, writing]
    exact set_writtenComments found before.symm
  | @acknowledge n s ok found answered =>
    refine set_writtenComments found ?_
    cases ok <;> simp only [writtenComment, answered] <;> rfl
  | userFound =>
    unfold CommentController.authorFound
    split <;> exact List.Perm.refl _

theorem applied_storedComments (h : Firestore.Applied fs w fs') :
    (storedComments postID fs').Perm (newComments postID w ++ storedComments postID fs) := by
  cases h with
  | @comment documentID data =>
    by_cases same : data.postID = postID
    · subst same
      simp only [storedComments, newComments, Function.update_self, List.map_append, if_pos]
      exact List.perm_append_comm
    · simp [storedComments, newComments, same, Function.update_of_ne (Ne.symm same)]
  | _ => exact List.Perm.refl _

theorem comments_conserved (postID : String) :
    Conserved (writtenComments postID) (storedComments postID) (newComments postID) where
  initial := rfl
  opened := fun fs _ opening => by
    cases opening with
    | comments chosenPost =>
      simp only [Screen.viewDidLoad, CommentController.viewDidLoad]
      split
      · rfl
      · split <;> rfl
    | _ => rfl
  register := fun _ => rfl
  main := fun _ => rfl
  profile := fun _ => rfl
  like := fun _ _ => rfl
  follow := fun _ _ => rfl
  share := fun outcome => by cases outcome <;> exact List.Perm.refl _
  comments := comments_writtenComments
  users := fun _ _ => rfl
  applied := applied_storedComments
  notified := fun _ _ w screen => by
    cases screen with
    | comments => cases w <;> rfl
    | _ => rfl

end

/-- In every run of the program, the comments stored under a post are those whose writes have succeeded
at the comments screens of all clients, with the data of the tap, each once. -/
theorem comments_are_sends (postID : String) (events : List System.Event) (t : System)
    (h : run System.step {} events = some t) :
    ((t.fs.addingComments postID).map (·.2)).Perm (recorded (writtenComments postID) t) :=
  run_conserved (comments_conserved postID) h

theorem comments_are_sends_alice : ∃ t, run System.step {} Attribution.aliceComments = some t ∧
    (recorded (writtenComments "p") t).length = 1 ∧
    ((t.fs.addingComments "p").map (·.2)).Perm (recorded (writtenComments "p") t) :=
  ⟨_, rfl, rfl, comments_are_sends "p" Attribution.aliceComments _ rfl⟩

end Foti.Conservation
