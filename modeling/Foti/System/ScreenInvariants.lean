import Foti.AddPhoto.SharePhotoController
import Foti.MainPage.CommentController
import Foti.MainPage.Feed
import Foti.System.WellFormed
import Foti.UserProfile.UserProfileController

/-!
Each kind of screen has an invariant over a well-formed store: what its lookups and listeners hold
comes from stored documents, and what it is about to write is checked. Every handler keeps it.
-/

namespace Foti.Attribution
open Document Entries Listening Transition MainController

/-- The post is a stored one of its user's, up to the `liked` flag. -/
def OfDocument (fs : Firestore) (p : Post) : Prop :=
  ∃ d ∈ fs.photoPosts p.user.userID, (∃ now, { p with id := none, liked := false } = Post.init now p.user d.2) ∧
    ∀ id, p.id = some id → id = d.1

def OfComment (fs : Firestore) (x : Comment) : Prop :=
  ∃ postID, ∃ d ∈ fs.addingComments postID, x = Comment.init x.user d.2 ∧
    asString (d.2.lookup "UserID") = some x.user.userID

def UserKnown (fs : Firestore) (user : User) : Prop := (fs.users user.userID).isSome

structure ShareOk (c : SharePhotoController) : Prop where
  saving : ∀ a ∈ c.attempts, ∀ uid data, a.stage = .saving uid data → NonBlank data.message

structure MainOk (fs : Firestore) (c : MainController) : Prop where
  users : ∀ l ∈ c.photoListeners, l.closure.userID = l.topic
  pending : ∀ l ∈ c.photoListeners, ∀ d ∈ l.pending, d ∈ fs.photoPosts l.topic
  likes : ∀ q ∈ c.likeLookups, OfDocument fs q.post
  posts : ∀ p ∈ c.posts, OfDocument fs p
  calls : ∀ call ∈ c.likeCalls, OfDocument fs call.closure.post ∧ Likes.LikeValue call.value

structure CommentsOk (fs : Firestore) (c : CommentController) : Prop where
  pending : ∀ l ∈ c.listeners, ∀ d ∈ l.pending, d ∈ fs.addingComments l.topic
  lookups : ∀ q ∈ c.lookups, ∃ postID, ∃ d ∈ fs.addingComments postID, q.dictionaryData = d.2 ∧
    asString (d.2.lookup "UserID") = some q.uID
  comments : ∀ x ∈ c.comments, OfComment fs x
  sends : ∀ s ∈ c.sends, s.data.userID = s.sender ∧ s.sender ≠ "" ∧ s.data.message ≠ ""

structure ProfileOk (fs : Firestore) (c : UserProfileController) : Prop where
  user : ∀ user, c.validUser = some user → UserKnown fs user
  unlistened : c.userLookup.isSome → c.photoListeners = []
  topics : ∀ l ∈ c.photoListeners, ∃ user, c.validUser = some user ∧ l.topic = user.userID
  pending : ∀ l ∈ c.photoListeners, ∀ d ∈ l.pending, d ∈ fs.photoPosts l.topic
  posts : ∀ p ∈ c.posts, OfDocument fs p
  headers : ∀ header ∈ c.headers, header.crashed = false ∧ ∀ user, header.validUser = some user → UserKnown fs user
  taps : ∀ tap ∈ c.followTaps, tap.call.value = none ∨ tap.call.value = some (.int 1) ∧ (fs.users tap.call.key).isSome

def AllChecked (fs : Firestore) (write : Option (String × ServerWrite)) : Prop :=
  ∀ sender w, write = some (sender, w) → Checked fs sender w

theorem none_checked (fs : Firestore) : AllChecked fs none := fun _ _ h => by cases h

theorem some_checked {fs : Firestore} {sender : String} {w : ServerWrite} (h : Checked fs sender w) :
    AllChecked fs (some (sender, w)) := by
  rintro _ _ same
  cases same
  exact h

theorem ofDocument_liked {fs : Firestore} {p : Post} (h : OfDocument fs p) (liked : Bool) :
    OfDocument fs { p with liked } := h

/-! ### The share screen -/

section Share
variable {fs : Firestore} {c c' : SharePhotoController} {currentUser : Option String}

theorem share_ok {e : ShareEvent} {write : Option (String × ServerWrite)} (h : ShareOk c)
    (outcome : SharePhotoController.Handled currentUser c e c' write) : ShareOk c' ∧ AllChecked fs write := by
  cases outcome with
  | edit => exact ⟨⟨h.saving⟩, none_checked fs⟩
  | press =>
    refine ⟨⟨forall_mem_concat h.saving fun uid data saving => ?_⟩, none_checked fs⟩
    dsimp only at saving
    split at saving <;> cases saving
  | uploaded =>
    unfold SharePhotoController.uploaded
    split <;> exact ⟨⟨forall_mem_set h.saving (by simp)⟩, none_checked fs⟩
  | @located n a url ok now =>
    obtain ⟨stage, attempts, ends⟩ := SharePhotoController.located_cases c n a url ok currentUser now
    refine ⟨⟨attempts ▸ forall_mem_set h.saving fun uid data saving => ?_⟩, none_checked fs⟩
    rcases ends with rfl | ⟨_, _, rfl, _, nonBlank, _⟩
    · cases saving
    · obtain ⟨rfl, rfl⟩ := ShareStage.saving.inj saving
      exact nonBlank
  | saved found saving =>
    exact ⟨⟨forall_mem_set h.saving (by simp)⟩, some_checked ⟨rfl, h.saving _ (List.mem_of_getElem? found) _ _ saving⟩⟩
  | saveFails => exact ⟨⟨forall_mem_set h.saving (by simp)⟩, none_checked fs⟩

end Share

/-! ### The home feed -/

section Main
variable {seen fs : Firestore} {c c' : MainController} {currentUser : Option String}

theorem refresh_same (c : MainController) (currentUser : Option String) (fs : Firestore) :
    ∃ lookups listeners, c.refreshPosts currentUser fs =
      { c with posts := [], userLookups := lookups, followsListeners := listeners } := by
  cases currentUser with
  | none => exact ⟨_, _, rfl⟩
  | some account => exact ⟨_, _, rfl⟩

theorem main_ok {e : MainEvent} {w : Option ServerWrite} (h : MainOk fs c)
    (posts : ∀ author, ∀ d ∈ seen.photoPosts author, d ∈ fs.photoPosts author)
    (outcome : Handled currentUser seen c e c' w) : MainOk fs c' := by
  have moved : ∀ {n : Nat} {call : LikeCall} {stage : Stage}, c.likeCalls[n]? = some call →
      ∀ d ∈ c.likeCalls.set n { call with stage }, OfDocument fs d.closure.post ∧ Likes.LikeValue d.value :=
    fun {n call stage} found => forall_mem_set h.calls (h.calls call (List.mem_of_getElem? found))
  cases outcome with
  | refreshPosts =>
    obtain ⟨_, _, same⟩ := refresh_same c currentUser seen
    rw [same]
    exact { h with posts := fun _ hp => (List.not_mem_nil hp).elim }
  | @userFound n lookup found =>
    obtain ⟨_, _, listeners, same, fresh⟩ := userFound_cases { c with userLookups := c.userLookups.eraseIdx n } lookup
      (seen.users lookup.uID) seen
    rw [same]
    have new : ∀ l ∈ listeners, l.closure.userID = l.topic ∧ ∀ d ∈ l.pending, d ∈ fs.photoPosts l.topic := by
      rcases fresh with rfl | ⟨data, _, _, rfl⟩
      · exact List.forall_mem_nil _
      · exact List.forall_mem_singleton.mpr ⟨rfl, posts _⟩
    exact { h with
      users := List.forall_mem_append.mpr ⟨h.users, fun l hl => (new l hl).1⟩
      pending := List.forall_mem_append.mpr ⟨h.pending, fun l hl => (new l hl).2⟩ }
  | @photoSnapshot l n now listener listeners delivered =>
    obtain ⟨found, rfl⟩ := deliver_ok delivered
    have listed := List.mem_of_getElem? found
    have kept : MainOk fs { c with photoListeners := c.photoListeners.set l (listener.after n) } :=
      { h with
        users := forall_mem_set h.users (h.users listener listed)
        pending := forall_mem_set h.pending fun d hd => h.pending listener listed d (List.mem_of_mem_drop hd) }
    cases currentUser with
    | none => exact kept
    | some account =>
      refine { kept with likes := List.forall_mem_append.mpr ⟨h.likes, fun q hq => ?_⟩ }
      obtain ⟨d, hd, rfl⟩ := List.mem_map.mp hq
      have stored := h.pending listener listed d (List.mem_of_mem_take (mem_orderedByPostDate.mp hd))
      rw [← h.users listener listed] at stored
      exact ⟨d, stored, ⟨now, rfl⟩, fun id same => (Option.some.inj same).symm⟩
  | photoFails => exact { h with users := forall_mem_eraseIdx h.users, pending := forall_mem_eraseIdx h.pending }
  | @likeFound n lookup found =>
    obtain ⟨liked, inserted⟩ := likeFound_posts { c with likeLookups := c.likeLookups.eraseIdx n } lookup
      (seen.likes lookup.postID)
    refine { h with posts := fun p hp => ?_, likes := forall_mem_eraseIdx h.likes }
    rcases List.mem_cons.mp (inserted.mem_iff.mp hp) with rfl | old
    · exact ofDocument_liked (h.likes lookup (List.mem_of_getElem? found)) liked
    · exact h.posts p old
  | likeFails => exact { h with likes := forall_mem_eraseIdx h.likes }
  | tap called =>
    obtain ⟨post, _, _, shown, _, _, rfl⟩ := postLiked_ok called
    refine { h with calls := forall_mem_concat h.calls ⟨h.posts post (List.mem_of_getElem? shown), ?_⟩ }
    cases post.liked <;> simp [Likes.LikeValue]
  | moved found => exact { h with calls := moved found }
  | trapped found => exact { h with calls := moved found }
  | @completed n call whole posts found written completed =>
    obtain ⟨_, same⟩ := Option.ite_none_right_eq_some.mp completed
    have captured := (h.calls call (List.mem_of_getElem? found)).1
    refine { h with calls := moved found, posts := ?_ }
    rw [← Option.some.inj same]
    exact forall_mem_set h.posts (ofDocument_liked captured _)
  | followsSnapshot | followsFails | userFails => exact { h with }

theorem main_checked {e : MainEvent} {w : ServerWrite} (h : MainOk fs c)
    (outcome : Handled currentUser seen c e c' (some w)) (sender : String) : Checked fs sender w := by
  cases outcome with
  | moved found _ liked =>
    have value := (h.calls _ (List.mem_of_getElem? found)).2
    rcases liked w rfl with rfl | rfl <;> exact value

end Main

/-! ### The comments of a post -/

section Comments
variable {seen fs : Firestore} {c c' : CommentController} {currentUser : Option String}

theorem commentsChanged_ok {changes : List (String × Dict)} {postID : String} {issuers : List (String × String)}
    (store : WellFormed fs issuers) (h : CommentsOk fs c) (stored : ∀ d ∈ changes, d ∈ fs.addingComments postID) :
    CommentsOk fs (c.commentsChanged currentUser changes) := by
  refine { h with lookups := List.forall_mem_append.mpr ⟨h.lookups, fun q hq => ?_⟩ }
  obtain ⟨d, hd, made⟩ := List.mem_filterMap.mp hq
  obtain ⟨sender, form, nonempty, _⟩ := store.comments postID d (stored d hd)
  simp only [form.1, Option.bind_eq_bind, Option.bind_some, createUser, if_neg nonempty, Option.pure_def,
    Option.some.injEq] at made
  subst made
  exact ⟨postID, d, stored d hd, rfl, form.1⟩

theorem authorFound_ok {lookup : CommentLookup} {issuers : List (String × String)} (store : WellFormed fs issuers)
    (sees : Sees seen fs) (h : CommentsOk fs c) (stored : ∃ postID, ∃ d ∈ fs.addingComments postID, lookup.dictionaryData = d.2 ∧
      asString (d.2.lookup "UserID") = some lookup.uID) :
    CommentsOk fs (c.authorFound lookup (seen.users lookup.uID)) := by
  cases found : seen.users lookup.uID with
  | none => exact h
  | some data =>
    obtain ⟨postID, d, hd, same, author⟩ := stored
    have uid := store.users _ _ (sees.users _ _ found)
    have shown : OfComment fs (Comment.init (User.init data) lookup.dictionaryData) := by
      refine ⟨postID, d, hd, by rw [same]; rfl, ?_⟩
      rw [author]
      simp [Comment.init, User.init, uid]
    exact { h with comments := forall_mem_concat h.comments shown }

theorem send_ok {now : UInt64} (named : ∀ uid, currentUser = some uid → uid ≠ "") (h : CommentsOk fs c) :
    CommentsOk fs (c.send currentUser now) := by
  unfold CommentController.send
  split
  · rename_i sender data pressed
    obtain ⟨message, nonempty, signedIn, _⟩ := btnSendCommentPressed_ok pressed
    split
    · exact { h with }
    · have checked : data.userID = sender ∧ sender ≠ "" ∧ data.message ≠ "" :=
        ⟨(Option.some.inj signedIn).symm, named sender rfl, message ▸ nonempty⟩
      exact { h with sends := forall_mem_concat h.sends checked }
  · exact h

theorem comments_ok {e : CommentEvent} {write : Option (String × ServerWrite)} {issuers : List (String × String)}
    (store : WellFormed fs issuers) (sees : Sees seen fs) (named : ∀ uid, currentUser = some uid → uid ≠ "")
    (h : CommentsOk fs c) (outcome : CommentController.Handled currentUser seen c e c' write) :
    CommentsOk fs c' ∧ AllChecked fs write := by
  cases outcome with
  | edit => exact ⟨{ h with }, none_checked fs⟩
  | send => exact ⟨send_ok named h, none_checked fs⟩
  | written found =>
    have sent := h.sends _ (List.mem_of_getElem? found)
    exact ⟨{ h with sends := forall_mem_set h.sends sent }, some_checked sent⟩
  | refused found =>
    have sent := h.sends _ (List.mem_of_getElem? found)
    exact ⟨{ h with sends := forall_mem_set h.sends sent }, none_checked fs⟩
  | acknowledge found =>
    have sent := h.sends _ (List.mem_of_getElem? found)
    exact ⟨{ h with sends := forall_mem_set h.sends sent }, none_checked fs⟩
  | @snapshot l n listener listeners delivered =>
    obtain ⟨found, rfl⟩ := deliver_ok delivered
    have pending := h.pending listener (List.mem_of_getElem? found)
    have kept : CommentsOk fs { c with listeners := c.listeners.set l (listener.after n) } :=
      { h with pending := forall_mem_set h.pending fun d hd => pending d (List.mem_of_mem_drop hd) }
    exact ⟨commentsChanged_ok store kept fun d hd => pending d (List.mem_of_mem_take hd), none_checked fs⟩
  | snapshotFails => exact ⟨{ h with pending := forall_mem_eraseIdx h.pending }, none_checked fs⟩
  | @userFound n lookup found =>
    have kept : CommentsOk fs { c with lookups := c.lookups.eraseIdx n } :=
      { h with lookups := forall_mem_eraseIdx h.lookups }
    exact ⟨authorFound_ok store sees kept (h.lookups lookup (List.mem_of_getElem? found)), none_checked fs⟩
  | userFails => exact ⟨{ h with lookups := forall_mem_eraseIdx h.lookups }, none_checked fs⟩

end Comments

/-! ### A profile -/

section Profile
variable {seen fs : Firestore} {c c' : UserProfileController} {currentUser : Option String} {issuers : List (String × String)}

theorem init_known (store : WellFormed fs issuers) {uID : String} {data : Dict} (found : fs.users uID = some data) :
    UserKnown fs (User.init data) := by
  simp [UserKnown, User.init, store.users uID data found, found]

theorem userFound_ok (store : WellFormed fs issuers) (sees : Sees seen fs) (h : ProfileOk fs c)
    (waiting : c.photoListeners = []) (uID : String) :
    ProfileOk fs ({ c with userLookup := none }.userFound (seen.users uID) seen) := by
  cases found : seen.users uID with
  | none => exact { h with unlistened := fun _ => waiting }
  | some data =>
    have known := init_known store (sees.users uID data found)
    have user : ∀ user, some (User.init data) = some user → UserKnown fs user :=
      fun _ same => Option.some.inj same ▸ known
    simp only [UserProfileController.userFound, UserProfileController.getPostFS]
    split
    · refine { h with user, unlistened := fun _ => waiting, topics := fun l hl => ?_ }
      rw [waiting] at hl
      cases hl
    · refine { h with user, unlistened := fun waits => Bool.noConfusion waits, topics := ?_, pending := ?_ }
      · rw [waiting]
        intro l hl
        obtain rfl := List.mem_singleton.mp hl
        exact ⟨_, rfl, rfl⟩
      · rw [waiting]
        intro l hl d hd
        obtain rfl := List.mem_singleton.mp hl
        exact sees.posts _ d hd

theorem profilePosts_ok {changes : List (String × Dict)} {now : Timestamp} {user : User} (h : ProfileOk fs c)
    (shown : c.validUser = some user) (stored : ∀ d ∈ changes, d ∈ fs.photoPosts user.userID) :
    ProfileOk fs (c.postsAdded changes now) := by
  unfold UserProfileController.postsAdded
  split
  · exact { h with }
  · rename_i user' shown'
    obtain rfl := Option.some.inj (shown.symm.trans shown')
    refine { h with posts := ?_ }
    rw [ProfilePosts.getPostFS_eq]
    intro p hp
    rcases List.mem_append.mp (List.mem_reverse.mp hp) with old | new
    · exact h.posts p old
    · obtain ⟨change, added, rfl⟩ := List.mem_map.mp new
      obtain ⟨d, hd, rfl⟩ := List.mem_map.mp (List.mem_filter.mp added).1
      exact ⟨d, stored d hd, ⟨now, rfl⟩, fun id same => by cases same⟩

/-- `data as! Int` succeeds, since the document holds only integers. -/
theorem followData_ok (sees : Sees seen fs) (header : UserProfileHeader) (validUserID account : String) :
    (header.followData validUserID (seen.follows account)).validUser = header.validUser ∧
      (header.followData validUserID (seen.follows account)).crashed = header.crashed := by
  unfold UserProfileHeader.followData
  split
  · exact ⟨rfl, rfl⟩
  · rename_i followDatas found
    split
    · split <;> exact ⟨rfl, rfl⟩
    · rename_i v notInt held
      have one := sees.follows account validUserID v (by rw [found]; exact held)
      exact (notInt 1 one).elim
    · exact ⟨rfl, rfl⟩

theorem completion_same (call : FollowCall) (whole : Bool) (header : UserProfileHeader) :
    (call.completion whole header).validUser = header.validUser ∧
      (call.completion whole header).crashed = header.crashed := by
  unfold FollowCall.completion
  split <;> exact ⟨rfl, rfl⟩

theorem configure_ok (h : ProfileOk fs c) (place : Nat) : ProfileOk fs (c.configure place currentUser) := by
  obtain ⟨headers, _, same, drawn⟩ := c.configure_cases place currentUser
  rw [same]
  refine { h with headers := fun header hh => ?_ }
  rcases drawn header hh with old | ⟨shown, running⟩
  · exact h.headers header old
  · refine ⟨?_, fun user is => h.user user (shown.symm.trans is)⟩
    rcases running with running | ⟨used, hused, crashed⟩
    · exact running
    · exact crashed.trans (h.headers used hused).1

theorem followRead_ok (sees : Sees seen fs) (h : ProfileOk fs c) (r : FollowRead) :
    ProfileOk fs (c.followRead r (seen.follows r.accountUserID)) := by
  rcases c.followRead_cases r (seen.follows r.accountUserID) with same | ⟨header, listed, same⟩
  · rwa [same]
  · rw [same]
    obtain ⟨crashed, known⟩ := h.headers header listed
    obtain ⟨shown, still⟩ := followData_ok sees header r.validUserID r.accountUserID
    exact { h with headers := forall_mem_set h.headers ⟨still.trans crashed, fun user is => known user (shown ▸ is)⟩ }

theorem tap_ok {header : UserProfileHeader} {place : Nat} {call : FollowCall} (h : ProfileOk fs c)
    (known : ∀ user, header.validUser = some user → UserKnown fs user)
    (called : btnProfile_Follow_Edit header place currentUser = some call) (accountUserID : String) :
    ProfileOk fs { c with followTaps := c.followTaps ++ [⟨accountUserID, call⟩] } := by
  obtain ⟨user, shown, key, _, _, value⟩ := btnProfile_Follow_Edit_ok called
  have checked : call.value = none ∨ call.value = some (.int 1) ∧ (fs.users call.key).isSome := by
    rw [key]
    exact value.imp_right fun one => ⟨one, known user shown⟩
  exact { h with taps := forall_mem_concat h.taps checked }

theorem profile_ok {e : ProfileEvent} {write : Option (String × ServerWrite)} (store : WellFormed fs issuers)
    (sees : Sees seen fs) (h : ProfileOk fs c) (outcome : UserProfileController.Handled currentUser seen c e c' write) :
    ProfileOk fs c' ∧ AllChecked fs write := by
  cases outcome with
  | @userFound uID waits =>
    have waiting := h.unlistened (by rw [waits]; rfl)
    exact ⟨userFound_ok store sees h waiting uID, none_checked fs⟩
  | userFails waits =>
    have waiting := h.unlistened (by rw [waits]; rfl)
    exact ⟨{ h with unlistened := fun _ => waiting }, none_checked fs⟩
  | @photoSnapshot l n now listener listeners delivered =>
    obtain ⟨found, rfl⟩ := deliver_ok delivered
    have listed := List.mem_of_getElem? found
    have pending := h.pending listener listed
    obtain ⟨user, shown, topic⟩ := h.topics listener listed
    have kept : ProfileOk fs { c with photoListeners := c.photoListeners.set l (listener.after n) } :=
      { h with
        unlistened := fun waits => by rw [h.unlistened waits] at listed; cases listed
        topics := forall_mem_set h.topics ⟨user, shown, topic⟩
        pending := forall_mem_set h.pending fun d hd => pending d (List.mem_of_mem_drop hd) }
    have stored : ∀ d ∈ orderedByPostDate (listener.pending.take n), d ∈ fs.photoPosts user.userID := fun d hd =>
      topic ▸ pending d (List.mem_of_mem_take (mem_orderedByPostDate.mp hd))
    exact ⟨profilePosts_ok kept shown stored, none_checked fs⟩
  | photoFails =>
    refine ⟨{ h with unlistened := fun waits => ?_
                     topics := forall_mem_eraseIdx h.topics
                     pending := forall_mem_eraseIdx h.pending }, none_checked fs⟩
    rw [h.unlistened waits]
    rfl
  | configure => exact ⟨configure_ok h _, none_checked fs⟩
  | @followRead n r =>
    have kept : ProfileOk fs { c with followReads := c.followReads.eraseIdx n } := { h with }
    exact ⟨followRead_ok sees kept r, none_checked fs⟩
  | followReadFails => exact ⟨{ h with }, none_checked fs⟩
  | tap listed _ called => exact ⟨tap_ok h (h.headers _ (List.mem_of_getElem? listed)).2 called _, none_checked fs⟩
  | moved found followed =>
    have tapped := h.taps _ (List.mem_of_getElem? found)
    refine ⟨{ h with taps := forall_mem_set h.taps tapped }, ?_⟩
    rintro sender w rfl
    obtain ⟨whole, same⟩ := followed _ rfl
    obtain ⟨rfl, rfl⟩ := Prod.mk.inj same
    exact tapped
  | @completed n tap whole header found listed =>
    have tapped := h.taps tap (List.mem_of_getElem? found)
    obtain ⟨crashed, known⟩ := h.headers header (List.mem_of_getElem? listed)
    obtain ⟨shown, same⟩ := completion_same tap.call whole header
    have completed := And.intro (same.trans crashed) fun user is => known user (shown ▸ is)
    exact ⟨{ h with taps := forall_mem_set h.taps tapped, headers := forall_mem_set h.headers completed }, none_checked fs⟩

end Profile

end Foti.Attribution
