import Foti.System.Local
import Foti.System.Network
import Foti.System.Scope

/-!
Every step on local documents keeps what the server has within what was issued, and shows the screens
only what was issued. What a step writes is checked, and within the scope of its client.
-/

namespace Foti
open Document Entries Listening Transition

/-- The server has only what was issued, with the likes and follows. -/
structure Within (server issued : Firestore) : Prop where
  users : ∀ uid data, server.users uid = some data → issued.users uid = some data
  posts : ∀ author, ∀ d ∈ server.photoPosts author, d ∈ issued.photoPosts author
  comments : ∀ postID, ∀ d ∈ server.addingComments postID, d ∈ issued.addingComments postID
  likes : server.likes = issued.likes
  follows : server.follows = issued.follows

/-- The events of launches, sign-in and sign-up. -/
def System.Event.Session : System.Event → Prop
  | .launch | .signIn _ _ | .signOut _ | .register _ _ _ => True
  | .open _ _ | .screen _ _ _ => False

namespace Local

/-! ### The outcomes of a step -/

/-- A screen's listener gets a document that was issued. -/
inductive Heard (s : Local) (d : String × Dict) : Screen → Screen → Prop where
  | feed {c : MainController} {l : Nat} {listener : PhotoListener} (found : c.photoListeners[l]? = some listener)
      (issued : d ∈ s.issued.fs.photoPosts listener.topic) : Heard s d (.main c) (.main { c with
        photoListeners := c.photoListeners.set l { listener with pending := listener.pending ++ [d] } })
  | comments {c : CommentController} {l : Nat} {listener : CommentsListener} (found : c.listeners[l]? = some listener)
      (issued : d ∈ s.issued.fs.addingComments listener.topic) : Heard s d (.comments c) (.comments { c with
        listeners := c.listeners.set l { listener with pending := listener.pending ++ [d] } })
  | profile {c : UserProfileController} {l : Nat} {listener : Listener String Unit (String × Dict)}
      (found : c.photoListeners[l]? = some listener) (issued : d ∈ s.issued.fs.photoPosts listener.topic) :
      Heard s d (.profile c) (.profile { c with
        photoListeners := c.photoListeners.set l { listener with pending := listener.pending ++ [d] } })

/-- The writes that wait for the server. -/
inductive Pending (n : Nat) (documentID : String) : Screen → String → ServerWrite → Prop where
  | user {attempts : List SignUpAttempt} {a : SignUpAttempt} {uid : String} {url : Option String}
      (listed : a ∈ attempts) (saving : a.stage = .saving uid url) :
      Pending n documentID (.register attempts) uid (.user uid a.userName url)
  | photoPost {c : SharePhotoController} {a : ShareAttempt} {author : String} {data : PostData}
      (listed : a ∈ c.attempts) (saving : a.stage = .saving author data) :
      Pending n documentID (.share c) author (.photoPost author documentID data)
  | like {c : MainController} {call : LikeCall} {whole : Bool} (listed : call ∈ c.likeCalls) :
      Pending n documentID (.main c) call.key (.like call.closure.postID (call.write whole))
  | comment {c : CommentController} {send : CommentSend} (listed : send ∈ c.sends) :
      Pending n documentID (.comments c) send.sender (.comment documentID send.data)
  | follow {c : UserProfileController} {tap : FollowTap} {whole : Bool} (listed : tap ∈ c.followTaps) :
      Pending n documentID (.profile c) tap.accountUserID (.follow tap.accountUserID (tap.call.write whole))

inductive Accepted (s : Local) (sender : String) (w : ServerWrite) : Local → Prop where
  | shared {issued : System} {server : Firestore} (shared : w.Shared) (applied : Firestore.Applied s.server w server)
      (known : s.Issued w) (written : s.issued.write sender w = some issued) :
      Accepted s sender w { s with issued, server }
  | own {server : Firestore} (own : w.Shared = false) (applied : Firestore.Applied s.server w server)
      (known : s.Issued w) : Accepted s sender w { s with server }

/-- A step: the program's own ones with what they read, and those of Firestore. -/
inductive Stepped (s : Local) : Event → Local → Prop where
  /-- No screen but that of sign-up takes part. The server may have taken in a user document. -/
  | session {e : System.Event} {cache : Cache} {t : Local} {issued : System} (session : e.Session)
      (accepted : t = s ∨ ∃ sender w, w.Shared = false ∧ Accepted s sender w t) (stepped : s.issued.step e = some issued)
      (same : issued.fs = s.issued.fs) : Stepped s (.program e cache) { t with issued }
  | opened {i : Nat} {opening : Opening} {cache : Cache} {c : Client} (found : s.issued.clients[i]? = some c) :
      Stepped s (.program (.open i opening) cache) { s with issued := { s.issued with
        clients := s.issued.clients.set i
          { c with screens := c.screens ++ [Screen.viewDidLoad c.currentUser (s.seen cache) opening] } } }
  | silent {i j : Nat} {e : ScreenEvent} {cache : Cache} {c : Client} {screen screen' : Screen}
      (found : s.issued.clients[i]? = some c) (shown : c.screens[j]? = some screen)
      (handled : Screen.Handled c.currentUser (s.read cache e) screen e screen' none) :
      Stepped s (.program (.screen i j e) cache) { s with issued := s.issued.put i c j screen' }
  | wrote {i j : Nat} {e : ScreenEvent} {cache : Cache} {c : Client} {screen screen' : Screen} {sender : String}
      {w : ServerWrite} {t : Local} (found : s.issued.clients[i]? = some c) (shown : c.screens[j]? = some screen)
      (handled : Screen.Handled c.currentUser (s.read cache e) screen e screen' (some (sender, w)))
      (accepted : Accepted { s with issued := s.issued.put i c j screen' } sender w t) :
      Stepped s (.program (.screen i j e) cache) t
  | made {i j n : Nat} {documentID : String} {c : Client} {screen : Screen} {sender : String} {w : ServerWrite}
      {fs : Firestore} {calls : List (Nat × Nat × Nat)} (found : s.issued.clients[i]? = some c)
      (shown : c.screens[j]? = some screen) (pending : screen.pending n documentID = some (sender, w))
      (own : w.Shared = false) (new : ∀ uid userName url, w = .user uid userName url → s.issued.fs.users uid = none)
      (applied : Firestore.Applied s.issued.fs w fs) : Stepped s (.issue i j n documentID) { s with
        issued := { s.issued with fs, issuers := w.issued sender ++ s.issued.issuers }
        calls }
  | asked {i j n : Nat} {documentID : String} {c : Client} {screen : Screen} {sender : String} {w : ServerWrite}
      {calls : List (Nat × Nat × Nat)} (found : s.issued.clients[i]? = some c) (shown : c.screens[j]? = some screen)
      (pending : screen.pending n documentID = some (sender, w)) :
      Stepped s (.issue i j n documentID) { s with followed := w.follows ++ s.followed, calls }
  | refused {documentID : String} (missing : documentID ∉ s.server.documentIDs) :
      Stepped s (.refuse documentID) { s with refused := documentID :: s.refused }
  | raised {i j l : Nat} {documentID : String} {d : String × Dict} {c : Client} {screen screen' : Screen}
      (found : s.issued.clients[i]? = some c) (shown : c.screens[j]? = some screen)
      (raisable : s.Raisable (i, j) d screen) (heard : Heard s d screen screen') :
      Stepped s (.raise i j l documentID) { s with
        issued := s.issued.put i c j screen'
        given := s.given ++ [((i, j), d)] }
  | follows {i j l : Nat} {users : Option (List String)} {c : Client} {main : MainController}
      {listener : FollowsListener} (found : s.issued.clients[i]? = some c) (shown : c.screens[j]? = some (.main main))
      (listening : main.followsListeners[l]? = some listener) : Stepped s (.follows i j l users) { s with
        issued := s.issued.put i c j (.main { main with
          followsListeners := main.followsListeners.set l
            { listener with pending := listener.pending ++ [s.version listener.topic users] } }) }

section
variable {s t : Local} {cache : Cache} {sender : String} {w : ServerWrite}

theorem raised_ok {l : Nat} {documentID : String} {d : String × Dict} {screen screen' : Screen}
    (h : s.raised l documentID screen = some (d, screen')) : Heard s d screen screen' := by
  cases screen with
  | register | share => cases h
  | main c =>
    obtain ⟨⟨d', listeners⟩, entered, same⟩ := Option.map_eq_some_iff.mp h
    obtain ⟨rfl, rfl⟩ := Prod.mk.inj same
    obtain ⟨_, found, stored, rfl⟩ := enqueue_ok entered
    exact .feed found (List.mem_of_find?_eq_some stored)
  | comments c =>
    obtain ⟨⟨d', listeners⟩, entered, same⟩ := Option.map_eq_some_iff.mp h
    obtain ⟨rfl, rfl⟩ := Prod.mk.inj same
    obtain ⟨_, found, stored, rfl⟩ := enqueue_ok entered
    exact .comments found (List.mem_of_find?_eq_some stored)
  | profile c =>
    obtain ⟨⟨d', listeners⟩, entered, same⟩ := Option.map_eq_some_iff.mp h
    obtain ⟨rfl, rfl⟩ := Prod.mk.inj same
    obtain ⟨_, found, stored, rfl⟩ := enqueue_ok entered
    exact .profile found (List.mem_of_find?_eq_some stored)

theorem pending_ok {screen : Screen} {n : Nat} {documentID : String}
    (h : screen.pending n documentID = some (sender, w)) : Pending n documentID screen sender w := by
  cases screen with
  | register attempts =>
    obtain ⟨a, listed, h⟩ := Option.bind_eq_some_iff.mp h
    split at h
    · rename_i uid url saving
      obtain ⟨rfl, rfl⟩ := Prod.mk.inj (Option.some.inj h)
      exact .user (List.mem_of_getElem? listed) saving
    · cases h
  | share c =>
    obtain ⟨a, listed, h⟩ := Option.bind_eq_some_iff.mp h
    split at h
    · rename_i author data saving
      obtain ⟨rfl, rfl⟩ := Prod.mk.inj (Option.some.inj h)
      exact .photoPost (List.mem_of_getElem? listed) saving
    · cases h
  | main c =>
    obtain ⟨call, listed, h⟩ := Option.bind_eq_some_iff.mp h
    split at h
    · obtain ⟨rfl, rfl⟩ := Prod.mk.inj (Option.some.inj h)
      exact .like (List.mem_of_getElem? listed)
    · cases h
  | comments c =>
    obtain ⟨send, listed, h⟩ := Option.bind_eq_some_iff.mp h
    obtain ⟨_, same⟩ := Option.ite_none_right_eq_some.mp h
    obtain ⟨rfl, rfl⟩ := Prod.mk.inj (Option.some.inj same)
    exact .comment (List.mem_of_getElem? listed)
  | profile c =>
    obtain ⟨tap, listed, h⟩ := Option.bind_eq_some_iff.mp h
    split at h
    · obtain ⟨rfl, rfl⟩ := Prod.mk.inj (Option.some.inj h)
      exact .follow (List.mem_of_getElem? listed)
    · cases h

theorem accept_ok (h : s.accept sender w = some t) : Accepted s sender w t := by
  obtain ⟨server, applied, h⟩ := Option.bind_eq_some_iff.mp h
  obtain ⟨known, h⟩ := Option.ite_none_right_eq_some.mp h
  split at h
  · rename_i shared
    obtain ⟨issued, written, same⟩ := Option.bind_eq_some_iff.mp h
    obtain rfl := Option.some.inj same
    exact .shared shared (Firestore.apply_ok applied) known written
  · rename_i own
    obtain rfl := Option.some.inj h
    exact .own (by simpa using own) (Firestore.apply_ok applied) known

theorem issue_ok {i j n : Nat} {documentID : String} {c : Client} {screen : Screen} {calls : List (Nat × Nat × Nat)}
    (found : s.issued.clients[i]? = some c) (shown : c.screens[j]? = some screen)
    (pending : screen.pending n documentID = some (sender, w)) (h : s.issue sender w = some t) :
    Stepped s (.issue i j n documentID) { t with calls } := by
  have made : ∀ (own : w.Shared = false) (new : ∀ uid userName url, w = .user uid userName url → s.issued.fs.users uid = none),
      s.make sender w = some t → Stepped s (.issue i j n documentID) { t with calls } := by
    intro own new h
    obtain ⟨fs, applied, same⟩ := Option.bind_eq_some_iff.mp h
    obtain rfl := Option.some.inj same
    exact .made found shown pending own new (Firestore.apply_ok applied)
  cases w with
  | user uid userName url =>
    obtain ⟨new, h⟩ := Option.ite_none_left_eq_some.mp h
    refine made rfl (fun _ _ _ same => ?_) h
    cases same
    simpa using new
  | photoPost | comment => exact made rfl (fun _ _ _ same => by cases same) h
  | like | follow =>
    obtain rfl := Option.some.inj h
    exact .asked found shown pending

/-- The user document of a sign-up was issued before the server has it. -/
theorem stored_ok {i j n : Nat} (h : s.program cache (.register i j (.stored n true)) = some t) :
    Stepped s (.program (.register i j (.stored n true)) cache) t := by
  obtain ⟨c, found, h⟩ := Option.bind_eq_some_iff.mp h
  obtain ⟨screen, shown, h⟩ := Option.bind_eq_some_iff.mp h
  obtain ⟨⟨sender, w⟩, pending, h⟩ := Option.bind_eq_some_iff.mp h
  obtain ⟨u, accepted, h⟩ := Option.bind_eq_some_iff.mp h
  obtain ⟨issued, stepped, same⟩ := Option.bind_eq_some_iff.mp h
  obtain rfl := Option.some.inj same
  obtain ⟨c', attempts, v, found', shown', _, registered, rfl⟩ := SignUps.register_ok stepped
  obtain rfl := Option.some.inj (found.symm.trans found')
  obtain rfl := Option.some.inj (shown.symm.trans shown')
  obtain ⟨a, listed, pending⟩ := Option.bind_eq_some_iff.mp pending
  split at pending
  · rename_i uid url saving
    obtain ⟨rfl, rfl⟩ := Prod.mk.inj (Option.some.inj pending)
    have accepted := accept_ok accepted
    refine .session trivial (.inr ⟨_, _, rfl, accepted⟩) stepped ?_
    rcases SignUps.saved_users registered with same | ⟨m, b, uid', url', stored, listed', saving', same⟩
    · simp only [same]
    · obtain ⟨rfl, _⟩ := SignUp.Event.stored.inj stored
      obtain rfl := Option.some.inj (listed.symm.trans listed')
      obtain ⟨rfl, rfl⟩ := SignUpStage.saving.inj (saving.symm.trans saving')
      have known : s.issued.fs.users uid = some (SignUpAttempt.addData a.userName uid url) := by
        cases accepted with
        | shared shared => cases shared
        | own _ _ known => exact known
      simp only [same]
      rw [← known, Function.update_eq_self]
  · cases pending

theorem program_ok {e : System.Event} (h : s.program cache e = some t) : Stepped s (.program e cache) t := by
  have session : e.Session → s.program cache e = (s.issued.step e).map (fun issued => { s with issued }) →
      (∀ issued, s.issued.step e = some issued → issued.fs = s.issued.fs) → Stepped s (.program e cache) t := by
    intro session other kept
    obtain ⟨issued, stepped, rfl⟩ := Option.map_eq_some_iff.mp (other.symm.trans h)
    exact .session session (.inl rfl) stepped (kept issued stepped)
  cases e with
  | launch | signIn | signOut =>
    refine session trivial rfl fun _ stepped => ?_
    cases System.step_ok stepped
    rfl
  | «open» i opening =>
    obtain ⟨c, found, same⟩ := Option.bind_eq_some_iff.mp h
    obtain rfl := Option.some.inj same
    exact .opened found
  | register i j e =>
    by_cases stored : ∃ n, e = .stored n true
    · obtain ⟨n, rfl⟩ := stored
      exact stored_ok h
    · refine session trivial ?_ fun _ stepped => ?_
      · unfold Local.program
        split <;> simp_all
      · obtain ⟨_, _, u, _, _, _, registered, rfl⟩ := SignUps.register_ok stepped
        rcases SignUps.saved_users registered with same | ⟨n, _, _, _, rfl, _⟩
        · simp only [same]
        · exact (stored ⟨n, rfl⟩).elim
  | screen i j e =>
    obtain ⟨c, found, h⟩ := Option.bind_eq_some_iff.mp h
    obtain ⟨screen, shown, h⟩ := Option.bind_eq_some_iff.mp h
    obtain ⟨⟨screen', write⟩, handled, h⟩ := Option.bind_eq_some_iff.mp h
    cases write with
    | none =>
      obtain rfl := Option.some.inj h
      exact .silent found shown (Screen.handle_ok handled)
    | some write => exact .wrote found shown (Screen.handle_ok handled) (accept_ok h)

theorem step_ok {e : Event} (h : s.step e = some t) : Stepped s e t := by
  cases e with
  | program e cache => exact program_ok h
  | issue i j n documentID =>
    obtain ⟨c, found, h⟩ := Option.bind_eq_some_iff.mp h
    obtain ⟨screen, shown, h⟩ := Option.bind_eq_some_iff.mp h
    obtain ⟨⟨sender, w⟩, pending, h⟩ := Option.bind_eq_some_iff.mp h
    obtain ⟨_, h⟩ := Option.ite_none_left_eq_some.mp h
    obtain ⟨u, issued, rfl⟩ := Option.map_eq_some_iff.mp h
    exact issue_ok found shown pending issued
  | refuse documentID =>
    obtain ⟨missing, same⟩ := Option.ite_none_left_eq_some.mp h
    obtain rfl := Option.some.inj same
    exact .refused missing
  | raise i j l documentID =>
    obtain ⟨c, found, h⟩ := Option.bind_eq_some_iff.mp h
    obtain ⟨screen, shown, h⟩ := Option.bind_eq_some_iff.mp h
    obtain ⟨⟨d, screen'⟩, heard, h⟩ := Option.bind_eq_some_iff.mp h
    obtain ⟨raisable, same⟩ := Option.ite_none_right_eq_some.mp h
    obtain rfl := Option.some.inj same
    exact .raised found shown raisable (raised_ok heard)
  | follows i j l users =>
    obtain ⟨c, found, h⟩ := Option.bind_eq_some_iff.mp h
    split at h
    · rename_i main shown
      obtain ⟨⟨version, listeners⟩, entered, same⟩ := Option.bind_eq_some_iff.mp h
      obtain ⟨listener, listening, versioned, rfl⟩ := enqueue_ok entered
      obtain rfl := Option.some.inj same
      obtain rfl := Option.some.inj versioned
      exact .follows found shown listening
    · cases h

end

/-! ### What the server has -/

section
variable {fs fs' server server' : Firestore} {w : ServerWrite}

theorem own_kept (own : w.Shared = false) (applied : Firestore.Applied fs w fs') :
    fs'.likes = fs.likes ∧ fs'.follows = fs.follows := by
  cases applied with
  | like | follow => cases own
  | _ => exact ⟨rfl, rfl⟩

theorem made_frozen (new : ∀ uid userName url, w = .user uid userName url → fs.users uid = none)
    (applied : Firestore.Applied fs w fs') : SignUps.Frozen fs fs' := by
  cases applied with
  | @user uid userName url =>
    intro u data found
    have other : u ≠ uid := by
      rintro rfl
      cases (new u userName url rfl).symm.trans found
    simpa only [Function.update_of_ne other] using found
  | _ => exact fun _ _ found => found

theorem within_made (h : Within server fs) (own : w.Shared = false)
    (new : ∀ uid userName url, w = .user uid userName url → fs.users uid = none) (applied : Firestore.Applied fs w fs') :
    Within server fs' := by
  have grows := applied_grows applied
  obtain ⟨likes, follows⟩ := own_kept own applied
  exact ⟨fun uid data found => made_frozen new applied uid data (h.users uid data found),
    fun author d hd => grows.posts author d (h.posts author d hd),
    fun postID d hd => grows.comments postID d (h.comments postID d hd), likes ▸ h.likes, follows ▸ h.follows⟩

/-- The server takes in a document that was issued. -/
theorem within_own {s : Local} (h : Within s.server s.issued.fs) (own : w.Shared = false)
    (applied : Firestore.Applied s.server w server') (known : s.Issued w) : Within server' s.issued.fs := by
  cases applied with
  | @user uid userName url =>
    refine { h with users := fun u data found => ?_ }
    rcases update_cases found with ⟨rfl, rfl⟩ | ⟨_, old⟩
    · exact known
    · exact h.users u data old
  | @photoPost author documentID data fresh =>
    refine { h with posts := fun a d hd => ?_ }
    rcases ((Firestore.Applied.photoPost fresh).photoPosts_mem a d).mp hd with old | ⟨rfl, rfl⟩
    · exact h.posts a d old
    · exact known.1
  | @comment documentID data fresh =>
    refine { h with comments := fun p d hd => ?_ }
    rcases (comments_mem (.comment fresh) p d).mp hd with old | ⟨rfl, rfl⟩
    · exact h.comments p d old
    · exact known.1
  | like | follow => cases own

/-- The server's document and the issued one change alike. -/
theorem within_shared (h : Within server fs) (shared : w.Shared) (applied : Firestore.Applied server w server')
    (written : Firestore.Applied fs w fs') : Within server' fs' := by
  cases applied with
  | @like postID w d changed =>
    cases written with
    | like changed' =>
      rw [h.likes] at changed
      obtain rfl := Option.some.inj (changed.symm.trans changed')
      exact { h with likes := congrArg (Function.update · postID d) h.likes }
  | @follow account w d changed =>
    cases written with
    | follow changed' =>
      rw [h.follows] at changed
      obtain rfl := Option.some.inj (changed.symm.trans changed')
      exact { h with follows := congrArg (Function.update · account d) h.follows }
  | _ => cases shared

end

/-! ### What every step keeps -/

structure Inv (s : Local) : Prop where
  ok : Attribution.SystemOk s.issued
  server : Within s.server s.issued.fs
  followed : ∀ account user, (value (s.issued.fs.follows account) user).isSome → (account, user) ∈ s.followed

section
variable {s t : Local} {sender : String} {w : ServerWrite}

theorem accepted_followed (accepted : Accepted s sender w t) : t.followed = s.followed := by
  cases accepted <;> rfl

theorem version_value {account user : String} {users : Option (List String)} {v : Value}
    (h : value (s.version account users) user = some v) : v = .int 1 ∧ (account, user) ∈ s.followed := by
  obtain ⟨fields, versioned, found⟩ := Option.bind_eq_some_iff.mp h
  obtain ⟨users, _, rfl⟩ := Option.map_eq_some_iff.mp versioned
  obtain ⟨u, listed, same⟩ := List.mem_map.mp (dict_lookup_mem found)
  obtain ⟨rfl, rfl⟩ := Prod.mk.inj same
  exact ⟨rfl, of_decide_eq_true (List.mem_filter.mp listed).2⟩

theorem seen_follows (h : Inv s) {cache : Cache} {account user : String}
    (found : (value ((s.seen cache).follows account) user).isSome) : (account, user) ∈ s.followed := by
  obtain ⟨v, held⟩ := Option.isSome_iff_exists.mp found
  unfold seen at held
  dsimp only at held
  split at held
  · exact (version_value held).2
  · exact h.followed account user (by rw [held]; rfl)

theorem read_follows (h : Inv s) {cache : Cache} {e : ScreenEvent} {account user : String}
    (found : (value ((s.read cache e).follows account) user).isSome) : (account, user) ∈ s.followed := by
  unfold Local.read at found
  split at found
  · exact h.followed account user found
  · exact h.followed account user found
  · exact seen_follows h found

theorem seen_sees (h : Inv s) (cache : Cache) : Sees (s.seen cache) s.issued.fs where
  users uid data found := (Option.ite_none_left_eq_some.mp found).2
  posts author := List.forall_mem_nil _
  comments postID := List.forall_mem_nil _
  follows account key v held := by
    unfold seen at held
    dsimp only at held
    split at held
    · exact (version_value held).1
    · exact (h.ok.store.follows account key v held).1

theorem read_sees (h : Inv s) (cache : Cache) (e : ScreenEvent) : Sees (s.read cache e) s.issued.fs := by
  unfold Local.read
  split
  · exact h.ok.store.sees
  · exact h.ok.store.sees
  · exact seen_sees h cache

theorem pending_checked {fs : Firestore} {screen : Screen} {n : Nat} {documentID : String}
    (ok : Attribution.ScreenOk fs screen) (pending : Pending n documentID screen sender w) (own : w.Shared = false) :
    Checked fs sender w := by
  cases pending with
  | user => trivial
  | photoPost listed saving => exact ⟨rfl, ok.saving _ listed _ _ saving⟩
  | comment listed => exact ok.sends _ listed
  | like | follow => cases own

theorem heard_ok {d : String × Dict} {screen screen' : Screen} (ok : Attribution.ScreenOk s.issued.fs screen)
    (heard : Heard s d screen screen') : Attribution.ScreenOk s.issued.fs screen' := by
  cases heard with
  | @feed c l listener found stored =>
    have listed := List.mem_of_getElem? found
    have own := ok.users listener listed
    exact { ok with
      users := forall_mem_set ok.users own
      pending := forall_mem_set ok.pending (forall_mem_concat (ok.pending listener listed) stored) }
  | comments found stored =>
    exact { ok with
      pending := forall_mem_set ok.pending (forall_mem_concat (ok.pending _ (List.mem_of_getElem? found)) stored) }
  | @profile c l listener found stored =>
    have listed := List.mem_of_getElem? found
    have topic := ok.topics listener listed
    exact { ok with
      unlistened := fun waits => by simp [ok.unlistened waits]
      topics := forall_mem_set ok.topics topic
      pending := forall_mem_set ok.pending (forall_mem_concat (ok.pending listener listed) stored) }

theorem accepted_inv {u : Local} (h : Inv u) (checked : Checked u.issued.fs sender w)
    (accepted : Accepted u sender w t) : Inv t := by
  cases accepted with
  | @shared issued server shared applied known written =>
    have ok := Attribution.write_ok h.ok checked written
    obtain ⟨fs', _, changed, rfl⟩ := System.write_ok written
    refine ⟨ok, within_shared h.server shared applied changed, ?_⟩
    cases changed with
    | like => exact h.followed
    | @follow account write d changed =>
      intro other user present
      by_cases same : other = account
      · subst same
        simp only [Function.update_self] at present
        obtain ⟨v, held⟩ := Option.isSome_iff_exists.mp present
        refine written_values (P := fun user _ => (other, user) ∈ u.followed) changed
          (fun user v held => h.followed other user (by rw [held]; rfl)) (fun v follows => ?_) user v held
        exact known (by rw [follows]; rfl)
      · exact h.followed other user (by simpa only [Function.update_of_ne same] using present)
    | _ => cases shared
  | own own applied known => exact ⟨h.ok, within_own (s := u) h.server own applied known, h.followed⟩

theorem set_ok {i j : Nat} {c : Client} {screen : Screen} (ok : Attribution.SystemOk s.issued)
    (found : s.issued.clients[i]? = some c) (new : Attribution.ScreenOk s.issued.fs screen) :
    Attribution.SystemOk (s.issued.put i c j screen) :=
  have client := ok.clients c (List.mem_of_getElem? found)
  ⟨ok.store, ok.accounts, forall_mem_set ok.clients ⟨client.1, forall_mem_set client.2 new⟩⟩

theorem step_inv {e : Event} (h : Inv s) (stepped : s.step e = some t) : Inv t := by
  cases step_ok stepped with
  | @session e cache t issued _ accepted issuedStepped same =>
    have ok := Attribution.step_ok h.ok issuedStepped
    rcases accepted with rfl | ⟨sender, w, own, accepted⟩
    · exact ⟨ok, same ▸ h.server, same ▸ h.followed⟩
    · cases accepted with
      | shared shared => simp [own] at shared
      | own _ applied known =>
        exact ⟨ok, same ▸ within_own (s := s) h.server own applied known, same ▸ h.followed⟩
  | @opened i opening cache c found =>
    have client := h.ok.clients c (List.mem_of_getElem? found)
    have screens := forall_mem_concat client.2
      (Attribution.opened_ok c.currentUser opening (seen_sees h cache).comments)
    exact ⟨⟨h.ok.store, h.ok.accounts, forall_mem_set h.ok.clients ⟨client.1, screens⟩⟩, h.server, h.followed⟩
  | silent found shown handled =>
    exact ⟨(Attribution.put_ok h.ok (read_sees h _ _) found shown handled).1, h.server, h.followed⟩
  | wrote found shown handled accepted =>
    obtain ⟨put, checked⟩ := Attribution.put_ok h.ok (read_sees h _ _) found shown handled
    exact accepted_inv (u := { s with issued := _ }) ⟨put, h.server, h.followed⟩ (checked _ _ rfl) accepted
  | @made i j n documentID c screen sender w fs calls found shown pending own new applied =>
    have client := h.ok.clients c (List.mem_of_getElem? found)
    have checked := pending_checked (client.2 screen (List.mem_of_getElem? shown)) (pending_ok pending) own
    have follows := (own_kept own applied).2
    exact ⟨⟨written_wellFormed h.ok.store checked applied, h.ok.accounts,
      Attribution.clients_grow (applied_grows applied) h.ok.clients⟩, within_made h.server own new applied,
      follows ▸ h.followed⟩
  | asked =>
    exact ⟨h.ok, h.server, fun account user present => List.mem_append_right _ (h.followed account user present)⟩
  | refused => exact ⟨h.ok, h.server, h.followed⟩
  | @raised i j l documentID d c screen screen' found shown _ heard =>
    have client := h.ok.clients c (List.mem_of_getElem? found)
    have ok := heard_ok (client.2 screen (List.mem_of_getElem? shown)) heard
    exact ⟨set_ok h.ok found ok, h.server, h.followed⟩
  | @follows i j l users c main listener found shown =>
    have client := h.ok.clients c (List.mem_of_getElem? found)
    have old := client.2 (.main main) (List.mem_of_getElem? shown)
    refine ⟨set_ok h.ok found ?_, h.server, h.followed⟩
    exact { old with }

theorem initial_inv : Inv {} := by
  refine ⟨Attribution.initial_ok, ?_, fun _ _ present => by cases present⟩
  exact ⟨fun _ _ found => (by cases found), fun _ => List.forall_mem_nil _, fun _ => List.forall_mem_nil _, rfl, rfl⟩

theorem run_inv {events : List Event} (h : run step {} events = some t) : Inv t :=
  run_keeps (fun _ _ _ => step_inv) h initial_inv

/-! ### What a step writes -/

/-- The step makes the write, which its handler has checked. -/
structure Made (fs fs' : Firestore) (sender : String) (w : ServerWrite) : Prop where
  checked : Checked fs sender w
  new : ∀ uid userName url, w = .user uid userName url → fs.users uid = none
  applied : Firestore.Applied fs w fs'

/-- The events with which there is a document, or a like or follow of the server changes. -/
def Carries : Event → Network.Op → Prop
  | .program e _, o => Network.Carries e o
  | .issue _ _ _ _, .signUp _ _ => True
  | .issue _ _ _ documentID, .share _ ID _ => ID = documentID
  | .issue _ _ _ documentID, .comment ID _ => ID = documentID
  | _, _ => False

theorem pending_carries {screen : Screen} {i j n : Nat} {documentID : String}
    (pending : Pending n documentID screen sender w) (own : w.Shared = false) :
    Carries (.issue i j n documentID) (Network.opOf w) := by
  cases pending with
  | user => trivial
  | photoPost | comment => rfl
  | like | follow => cases own

theorem step_made {e : Event} (h : Inv s) (stepped : s.step e = some t) : t.issued.fs = s.issued.fs ∨
    ∃ sender w, Carries e (Network.opOf w) ∧ Made s.issued.fs t.issued.fs sender w := by
  cases step_ok stepped with
  | session _ _ _ same => exact .inl same
  | @wrote i j e cache c screen screen' sender w t found shown handled accepted =>
    obtain ⟨_, checked⟩ := Attribution.put_ok h.ok (read_sees h _ _) found shown handled
    cases accepted with
    | shared _ _ _ written =>
      obtain ⟨fs', _, applied, rfl⟩ := System.write_ok written
      have new : ∀ uid userName url, w = .user uid userName url → s.issued.fs.users uid = none :=
        fun _ _ _ same => (SignUps.handled_writes handled sender _ _ _ (by rw [same])).elim
      exact .inr ⟨sender, w, Network.handled_carries handled rfl i j, checked sender w rfl, new, applied⟩
    | own => exact .inl rfl
  | @made i j n documentID c screen sender w fs calls found shown pending own new applied =>
    have client := h.ok.clients c (List.mem_of_getElem? found)
    have checked := pending_checked (client.2 screen (List.mem_of_getElem? shown)) (pending_ok pending) own
    exact .inr ⟨sender, w, pending_carries (pending_ok pending) own, checked, new, applied⟩
  | _ => exact .inl rfl

theorem step_frozen {e : Event} (h : Inv s) (stepped : s.step e = some t) : SignUps.Frozen s.issued.fs t.issued.fs := by
  rcases step_made h stepped with same | ⟨_, _, _, made⟩
  · exact same ▸ fun _ _ found => found
  · exact made_frozen made.new made.applied

end

/-! ### The scopes of the clients -/

section
variable {r r' : Scope} {s t : Local} {sender : String} {w : ServerWrite}

theorem pending_within {screen : Screen} {n : Nat} {documentID : String} (ok : Attribution.ScreenOk s.issued.fs screen)
    (h : r.HasScreen screen) (pending : Pending n documentID screen sender w) : r.HasWrite w := by
  cases pending with
  | user listed saving => exact ⟨h _ listed _ (by simp [SignUpAttempt.account, ServerWrite.account, saving]), trivial⟩
  | photoPost listed saving => exact ⟨h _ listed _ _ saving, trivial⟩
  | like listed => exact ⟨(h.calls _ listed).1, (h.calls _ listed).2.1⟩
  | comment listed =>
    have own := h.sends _ listed
    rw [← (ok.sends _ listed).1] at own
    exact own
  | follow listed => exact ⟨h.taps _ listed, trivial⟩

theorem heard_within {d : String × Dict} {screen screen' : Screen} (h : r.HasScreen screen)
    (heard : Heard s d screen screen') : r.HasScreen screen' := by
  cases heard with
  | @feed c l listener found =>
    have own := h.listeners listener (List.mem_of_getElem? found)
    exact { h with listeners := forall_mem_set h.listeners own }
  | comments | profile => exact { h with }

end

/-- The scopes have what the event brings in. -/
structure Admits (r r' : Nat → Scope) (s : Local) (e : Event) : Prop extends Scope.Supplies r r' s.issued.fs where
  program : ∀ e' cache, e = .program e' cache → Scope.Admits r r' s.issued e'

section
variable {r r' : Nat → Scope} {s t : Local} {e : Event}

/-- The steps on local documents keep the clients within their scopes like those of the program. -/
theorem step_within (h : Inv s) (clients : Scope.HasClients r s.issued) (admits : Admits r r' s e)
    (stepped : s.step e = some t) : Scope.HasClients r' t.issued ∧ (t.issued.fs = s.issued.fs ∨
      ∃ i w, (r i).HasWrite w ∧ Firestore.Applied s.issued.fs w t.issued.fs) := by
  have grown : Scope.HasClients r' s.issued := fun i c found => Scope.LE.hasClient (admits.grows i) (clients i c found)
  cases step_ok stepped with
  | @session e cache t issued _ accepted issuedStepped same =>
    exact ⟨(Scope.step_within h.ok clients (admits.program e cache rfl) issuedStepped).1, .inl same⟩
  | @opened i opening cache c found =>
    have chosen := (admits.program _ cache rfl).chosen i
    exact ⟨Scope.opens_within clients admits.grows found fun chosenPost same => chosen chosenPost (by rw [same]), .inl rfl⟩
  | silent found shown handled =>
    exact ⟨(Scope.put_within h.ok (read_sees h _ _) clients admits.toSupplies found shown handled).1, .inl rfl⟩
  | @wrote i j e cache c screen screen' sender w t found shown handled accepted =>
    obtain ⟨put, wrote⟩ := Scope.put_within h.ok (read_sees h _ _) clients admits.toSupplies found shown handled
    cases accepted with
    | shared _ _ _ written =>
      obtain ⟨fs', _, applied, same⟩ := System.write_ok written
      refine ⟨Scope.written_within put written, .inr ⟨i, w, wrote sender w rfl, ?_⟩⟩
      rw [same]
      exact applied
    | own => exact ⟨put, .inl rfl⟩
  | @made i j n documentID c screen sender w fs calls found shown pending own new applied =>
    have ok := (h.ok.clients c (List.mem_of_getElem? found)).2 screen (List.mem_of_getElem? shown)
    have within := (clients i c found).2 screen (List.mem_of_getElem? shown)
    exact ⟨grown, .inr ⟨i, w, pending_within ok within (pending_ok pending), applied⟩⟩
  | asked | refused => exact ⟨grown, .inl rfl⟩
  | @raised i j l documentID d c screen screen' found shown _ heard =>
    have client := grown i c found
    have own := heard_within (client.2 screen (List.mem_of_getElem? shown)) heard
    exact ⟨Scope.set_within (fun i => Scope.LE.refl (r' i)) grown ⟨client.1, forall_mem_set client.2 own⟩, .inl rfl⟩
  | @follows i j l users c main listener found shown =>
    have client := grown i c found
    have old := client.2 (.main main) (List.mem_of_getElem? shown)
    refine ⟨Scope.set_within (fun i => Scope.LE.refl (r' i)) grown ⟨client.1, forall_mem_set client.2 ?_⟩, .inl rfl⟩
    exact { old with }

end

/-- An event of the program. Where the server takes in a write, the device has issued it before. -/
def locally (e : System.Event) : List Event :=
  match e with
  | .register i j (.stored n true) => [.issue i j n "", .program e {}]
  | .screen i j (.share (.saved n documentID true)) => [.issue i j n documentID, .program e {}]
  | .screen i j (.comments (.write n documentID true)) => [.issue i j n documentID, .program e {}]
  | .screen i j (.profile (.follow (.write n true))) => [.issue i j n "", .program e {}]
  | _ => [.program e {}]

/-- Alice's feed shows her own post, which the server then refuses. -/
def aliceRefused : List Event :=
  (Attribution.aliceComments.take 14).flatMap locally ++
    [.issue 0 2 0 "p", .raise 0 1 0 "p", .program (.screen 0 1 (.main (.photoSnapshot 0 1 2))) {},
     .program (.screen 0 1 (.main (.likeLookup 0 true))) {}, .program (.screen 0 2 (.share (.saved 0 "p" false))) {}]

end Local
end Foti
