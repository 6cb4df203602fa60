import Foti.MainPage.Feed

/-!
The posts of an unfollowed user after the next `refreshPosts`. The refresh empties the feed but
stops nothing, so the user stays out of it when, at the refresh, no stage of the chain still works
for that user: no listener on its posts, no lookup, no version of the `Follows` document with it.
-/

namespace Foti.Unfollow
open Document Entries Listening Transition MainController

structure NothingOf (v : String) (c : MainController) : Prop where
  versions : ∀ f ∈ c.followsListeners, ∀ d ∈ f.pending, value d v = none
  lookups : ∀ q ∈ c.userLookups, q.uID ≠ v
  listeners : ∀ l ∈ c.photoListeners, l.topic ≠ v
  likes : ∀ q ∈ c.likeLookups, q.post.userID ≠ some v
  calls : ∀ call ∈ c.likeCalls, ¬ call.Finished → call.closure.post.userID ≠ some v

instance (v : String) (c : MainController) : Decidable (NothingOf v c) :=
  decidable_of_iff ((∀ f ∈ c.followsListeners, ∀ d ∈ f.pending, value d v = none) ∧ (∀ q ∈ c.userLookups, q.uID ≠ v) ∧
      (∀ l ∈ c.photoListeners, l.topic ≠ v) ∧ (∀ q ∈ c.likeLookups, q.post.userID ≠ some v) ∧
      ∀ call ∈ c.likeCalls, ¬ call.Finished → call.closure.post.userID ≠ some v)
    ⟨fun h => ⟨h.1, h.2.1, h.2.2.1, h.2.2.2.1, h.2.2.2.2⟩,
      fun h => ⟨h.versions, h.lookups, h.listeners, h.likes, h.calls⟩⟩

def Follows (account v : String) : ServerWrite → Prop
  | .follow accountUserID w => accountUserID = account ∧ w.key = v ∧ w.value ≠ none
  | _ => False

def Silent (account v : String) : Feed.Event → Prop
  | .main _ => True
  | .remote w => ¬ Follows account v w

instance (account v : String) (w : ServerWrite) : Decidable (Follows account v w) :=
  match w with
  | .follow accountUserID w => inferInstanceAs (Decidable (accountUserID = account ∧ w.key = v ∧ w.value ≠ none))
  | .user _ _ _ | .photoPost _ _ _ | .comment _ _ | .like _ _ => isFalse id

instance (account v : String) : DecidablePred (Silent account v) := fun e =>
  match e with
  | .main _ => isTrue trivial
  | .remote w => inferInstanceAs (Decidable (¬ Follows account v w))

structure Based (account : String) (fs : Firestore) (c : MainController) : Prop where
  attributed : fs.Attributed
  topics : ∀ f ∈ c.followsListeners, f.topic = account
  stored : ∀ l ∈ c.photoListeners, ∀ d ∈ l.pending, d ∈ fs.photoPosts l.topic

section
variable {account v : String} {seen fs fs' : Firestore} {c c' : MainController} {e : MainEvent} {w : Option ServerWrite}

theorem handled_based (h : Based account fs c) (reads : seen.Reads fs)
    (outcome : Handled (some account) seen c e c' w) : Based account fs c' := by
  cases outcome with
  | refreshPosts => exact ⟨h.attributed, forall_mem_concat h.topics rfl, h.stored⟩
  | @followsSnapshot l k listener data listeners delivered =>
    obtain ⟨found, _, rfl⟩ := deliverVersion_ok delivered
    have topic := h.topics listener (List.mem_of_getElem? found)
    exact ⟨h.attributed, forall_mem_set h.topics topic, h.stored⟩
  | followsFails => exact ⟨h.attributed, forall_mem_eraseIdx h.topics, h.stored⟩
  | @userFound n lookup found =>
    obtain ⟨_, _, listeners, same, fresh⟩ := userFound_cases { c with userLookups := c.userLookups.eraseIdx n } lookup
      (seen.users lookup.uID) seen
    have stored : ∀ l ∈ listeners, ∀ d ∈ l.pending, d ∈ fs.photoPosts l.topic := by
      rcases fresh with rfl | ⟨data, _, _, rfl⟩
      · exact List.forall_mem_nil _
      · exact List.forall_mem_singleton.mpr (reads.posts _)
    rw [same]
    exact ⟨h.attributed, h.topics, List.forall_mem_append.mpr ⟨h.stored, stored⟩⟩
  | @photoSnapshot l n now listener listeners delivered =>
    obtain ⟨found, rfl⟩ := deliver_ok delivered
    have stored := h.stored listener (List.mem_of_getElem? found)
    exact ⟨h.attributed, h.topics, forall_mem_set h.stored fun d hd => stored d (List.mem_of_mem_drop hd)⟩
  | photoFails => exact ⟨h.attributed, h.topics, forall_mem_eraseIdx h.stored⟩
  | _ => exact ⟨h.attributed, h.topics, h.stored⟩

theorem written_based {w : ServerWrite} (h : Based account fs c) (applied : Firestore.Applied fs w fs') :
    Based account fs' (c.notify fs fs' w) := by
  have attributed := applied.attributed h.attributed
  cases w with
  | photoPost author documentID data =>
    have pending : ∀ l ∈ c.photoListeners, ∀ d ∈ l.pending, d ∈ fs'.photoPosts l.topic := fun l hl d hd =>
      (applied.photoPosts_mem _ d).mpr (.inl (h.stored l hl d hd))
    have posted := (applied.photoPosts_mem author _).mpr (.inr ⟨rfl, rfl⟩)
    exact ⟨attributed, h.topics, publish_pending (P := fun topic d => d ∈ fs'.photoPosts topic) pending posted⟩
  | follow accountUserID w =>
    cases applied with
    | follow =>
      rw [notify]
      split
      · exact ⟨attributed, h.topics, h.stored⟩
      · refine ⟨attributed, fun f hf => ?_, h.stored⟩
        obtain ⟨m, hm, same, _⟩ := publish_mem hf
        exact same.trans (h.topics m hm)
  | _ =>
    cases applied
    exact ⟨attributed, h.topics, h.stored⟩

/-- The screen shows nothing of `v`, works for nothing of `v`, and will hear nothing of `v`. -/
structure FreeOf (account v : String) (fs : Firestore) (c : MainController) : Prop extends NothingOf v c where
  base : Based account fs c
  unfollowed : value (fs.follows account) v = none
  posts : ∀ p ∈ c.posts, p.userID ≠ some v

theorem no_key {d : Option Dict} (h : value d v = none) : ∀ key ∈ (d.map AList.keys).getD [], key ≠ v := by
  rintro key hkey rfl
  cases d with
  | none => cases hkey
  | some data => exact AList.lookup_eq_none.mp h (AList.mem_keys.mpr hkey)

theorem refreshPosts_free (h : Based account fs c) (reads : seen.Reads fs) (other : v ≠ account)
    (absent : value (fs.follows account) v = none) (unfollowed : value (seen.follows account) v = none)
    (nothing : NothingOf v c) : FreeOf account v fs (c.refreshPosts (some account) seen) where
  base := handled_based h reads .refreshPosts
  unfollowed := absent
  posts := List.forall_mem_nil _
  versions := forall_mem_concat nothing.versions (List.forall_mem_singleton.mpr unfollowed)
  lookups := forall_mem_concat nothing.lookups other.symm
  listeners := nothing.listeners
  likes := nothing.likes
  calls := nothing.calls

theorem followed_lookups {data : Option Dict} (h : ∀ q ∈ c.userLookups, q.uID ≠ v) (other : v ≠ account)
    (absent : value data v = none) : ∀ q ∈ (c.followed (some account) data).userLookups, q.uID ≠ v := by
  refine List.forall_mem_append.mpr ⟨h, fun q hq => ?_⟩
  obtain ⟨key, hkey, started⟩ := List.mem_filterMap.mp hq
  obtain ⟨uID, created, rfl⟩ := Option.map_eq_some_iff.mp started
  unfold createUser at created
  split at created
  · exact Option.some.inj created ▸ other.symm
  · exact Option.some.inj created ▸ no_key absent key hkey

theorem userFound_listeners {lookup : UserLookup} (attributed : fs.Attributed) (reads : seen.Reads fs)
    (h : ∀ l ∈ c.photoListeners, l.topic ≠ v) (other : lookup.uID ≠ v) :
    ∀ l ∈ (c.userFound lookup (seen.users lookup.uID) seen).photoListeners, l.topic ≠ v := by
  obtain ⟨_, _, listeners, same, fresh⟩ := userFound_cases c lookup (seen.users lookup.uID) seen
  rw [same]
  refine List.forall_mem_append.mpr ⟨h, ?_⟩
  rcases fresh with rfl | ⟨data, found, _, rfl⟩
  · exact List.forall_mem_nil _
  · have uid : (User.init data).userID = lookup.uID := by simp [User.init, attributed.users _ data (reads.users _ data found)]
    exact List.forall_mem_singleton.mpr (uid ▸ other)

theorem postsAdded_likes {changes : List (String × Dict)} {user : User} {now : Timestamp} {author : String}
    (attributed : fs.Attributed) (h : ∀ q ∈ c.likeLookups, q.post.userID ≠ some v) (other : author ≠ v)
    (stored : ∀ d ∈ changes, d ∈ fs.photoPosts author) :
    ∀ q ∈ (c.postsAdded (some account) user changes now).likeLookups, q.post.userID ≠ some v := by
  refine List.forall_mem_append.mpr ⟨h, fun q hq same => ?_⟩
  obtain ⟨d, hd, rfl⟩ := List.mem_map.mp hq
  have uid := attributed.posts author d (stored d hd)
  exact other (Option.some.inj (uid.symm.trans same))

/-- The screen stays free of `v` when it reads no follow of `v`. -/
theorem handled_free (h : FreeOf account v fs c) (reads : seen.Reads fs) (unfollowed : value (seen.follows account) v = none)
    (other : v ≠ account) (outcome : Handled (some account) seen c e c' w) : FreeOf account v fs c' := by
  have base := handled_based h.base reads outcome
  have moved : ∀ {n : Nat} {call : LikeCall} {stage : Stage}, c.likeCalls[n]? = some call → ¬ call.Finished →
      ∀ d ∈ c.likeCalls.set n { call with stage }, ¬ d.Finished → d.closure.post.userID ≠ some v :=
    fun {n call stage} found unfinished => forall_mem_set h.calls fun _ => h.calls call (List.mem_of_getElem? found) unfinished
  cases outcome with
  | refreshPosts => exact refreshPosts_free h.base reads other h.unfollowed unfollowed h.toNothingOf
  | @followsSnapshot l k listener data listeners delivered =>
    obtain ⟨found, pending, rfl⟩ := deliverVersion_ok delivered
    have versions := h.versions listener (List.mem_of_getElem? found)
    exact { h with
      base
      versions := forall_mem_set h.versions fun d hd => versions d (List.mem_of_mem_drop hd)
      lookups := followed_lookups h.lookups other (versions data (List.mem_of_getElem? pending)) }
  | followsFails => exact { h with base, versions := forall_mem_eraseIdx h.versions }
  | @userFound n lookup found =>
    have erased : ∀ q ∈ c.userLookups.eraseIdx n, q.uID ≠ v := forall_mem_eraseIdx h.lookups
    have listeners := userFound_listeners (c := { c with userLookups := c.userLookups.eraseIdx n }) h.base.attributed
      reads h.listeners (h.lookups lookup (List.mem_of_getElem? found))
    obtain ⟨_, _, _, same, _⟩ := userFound_cases { c with userLookups := c.userLookups.eraseIdx n } lookup
      (seen.users lookup.uID) seen
    rw [same] at base listeners ⊢
    exact { h with base, lookups := erased, listeners }
  | userFails => exact { h with base, lookups := forall_mem_eraseIdx h.lookups }
  | @photoSnapshot l n now listener listeners delivered =>
    obtain ⟨found, rfl⟩ := deliver_ok delivered
    have listed := List.mem_of_getElem? found
    have stored : ∀ d ∈ orderedByPostDate (listener.pending.take n), d ∈ fs.photoPosts listener.topic := fun d hd =>
      h.base.stored listener listed d (List.mem_of_mem_take (mem_orderedByPostDate.mp hd))
    exact { h with
      base
      listeners := forall_mem_set h.listeners (h.listeners listener listed)
      likes := postsAdded_likes h.base.attributed h.likes (h.listeners listener listed) stored }
  | photoFails => exact { h with base, listeners := forall_mem_eraseIdx h.listeners }
  | @likeFound n lookup found =>
    obtain ⟨liked, inserted⟩ := likeFound_posts { c with likeLookups := c.likeLookups.eraseIdx n } lookup
      (seen.likes lookup.postID)
    refine { h with base, posts := fun p hp => ?_, likes := forall_mem_eraseIdx h.likes }
    rcases List.mem_cons.mp (inserted.mem_iff.mp hp) with rfl | old
    · exact h.likes lookup (List.mem_of_getElem? found)
    · exact h.posts p old
  | likeFails => exact { h with base, likes := forall_mem_eraseIdx h.likes }
  | tap called =>
    obtain ⟨post, _, _, shown, _, _, rfl⟩ := postLiked_ok called
    have captured := h.posts post (List.mem_of_getElem? shown)
    exact { h with base, calls := forall_mem_concat h.calls fun _ => captured }
  | moved found unfinished => exact { h with base, calls := moved found unfinished }
  | trapped found written => exact { h with base, calls := moved found (Call.unfinished written (by simp)) }
  | @completed n call whole posts found written completed =>
    -- The completion puts the captured post back, and no unfinished call captured one of `v`.
    have unfinished := Call.unfinished written (by simp)
    have captured := h.calls call (List.mem_of_getElem? found) unfinished
    obtain ⟨_, same⟩ := Option.ite_none_right_eq_some.mp completed
    obtain rfl := Option.some.inj same
    exact { h with base, calls := moved found unfinished, posts := forall_mem_set h.posts captured }

theorem written_unfollowed {w : ServerWrite} (h : value (fs.follows account) v = none) (silent : ¬ Follows account v w)
    (applied : Firestore.Applied fs w fs') : value (fs'.follows account) v = none := by
  cases applied with
  | @follow accountUserID write d written =>
    by_cases own : account = accountUserID
    · subst own
      simp only [Function.update_self]
      by_cases key : write.key = v
      · subst key
        rw [apply_value_same written]
        by_contra stored
        exact silent ⟨rfl, rfl, stored⟩
      · rw [apply_value_other written (Ne.symm key)]
        split
        · rfl
        · exact h
    · simpa only [Function.update_of_ne own] using h
  | _ => exact h

theorem written_free {w : ServerWrite} (h : FreeOf account v fs c) (silent : ¬ Follows account v w)
    (applied : Firestore.Applied fs w fs') : FreeOf account v fs' (c.notify fs fs' w) := by
  have base := written_based h.base applied
  have unfollowed := written_unfollowed h.unfollowed silent applied
  cases w with
  | photoPost author documentID data =>
    refine { h with base, unfollowed, listeners := fun l hl => ?_ }
    obtain ⟨m, hm, topic, _⟩ := publish_mem hl
    exact topic ▸ h.listeners m hm
  | follow accountUserID write =>
    -- Every listener is on the account's own document, whose new version does not contain `v` either.
    have versions := publish_pending (P := fun topic d => topic = account → value d v = none)
      (fun f hf d hd _ => h.versions f hf d hd) (fun own : accountUserID = account => own ▸ unfollowed)
    rw [notify] at base ⊢
    split at base
    · rename_i same
      rw [if_pos same]
      exact { h with base, unfollowed }
    · rename_i changed
      rw [if_neg changed]
      exact { h with base, unfollowed, versions := fun f hf d hd => versions f hf d hd (base.topics f hf) }
  | _ => exact { h with base, unfollowed }

end

/-! ### Runs -/

theorem step_based {account : String} {s t : Feed} {e : Feed.Event} (h : Based account s.fs s.main)
    (stepped : Feed.step account s e = some t) : Based account t.fs t.main :=
  Feed.step_keeps (I := Based account) (H := fun _ _ _ => True) (W := fun _ _ => True) (fun _ _ _ _ _ _ => trivial)
    (fun fs _ _ _ _ hc _ _ outcome => handled_based hc (.refl fs) outcome)
    (fun _ _ _ _ hc _ applied => written_based hc (Firestore.apply_ok applied)) h (by cases e <;> trivial) stepped

theorem silent_meets {account v : String} {s : Feed} {e : Feed.Event} (silent : Silent account v e) :
    Feed.Meets (fun _ _ _ => True) (fun _ w => ¬ Follows account v w) s e := by
  cases e with
  | main => trivial
  | remote => exact silent

theorem step_unfollowed {account v : String} {s t : Feed} {e : Feed.Event} (h : value (s.fs.follows account) v = none)
    (silent : Silent account v e) (stepped : Feed.step account s e = some t) : value (t.fs.follows account) v = none :=
  Feed.step_keeps (I := fun fs _ => value (fs.follows account) v = none) (fun _ _ _ _ _ _ follows => follows)
    (fun _ _ _ _ _ hc _ _ _ => hc)
    (fun _ _ _ _ hc silent applied => written_unfollowed hc silent (Firestore.apply_ok applied)) h
    (silent_meets silent) stepped

theorem step_free {account v : String} (other : v ≠ account) {s t : Feed} {e : Feed.Event}
    (h : FreeOf account v s.fs s.main) (silent : Silent account v e) (stepped : Feed.step account s e = some t) :
    FreeOf account v t.fs t.main :=
  Feed.step_keeps (I := FreeOf account v) (fun _ _ _ _ _ _ follows => follows)
    (fun fs _ _ _ _ hc _ _ outcome => handled_free hc (.refl fs) hc.unfollowed other outcome)
    (fun _ _ _ _ hc silent applied => written_free hc silent (Firestore.apply_ok applied)) h
    (silent_meets silent) stepped

/-- After an unfollow of `v` and a refresh at which nothing outstanding was about `v`, no post of `v`
comes back into the feed until the account follows `v` again. -/
theorem stays_out (account v : String) (other : v ≠ account) (fs : Firestore) (attributed : fs.Attributed)
    (earlier between later : List Feed.Event) (s t : Feed)
    (before : run (Feed.step account) (Feed.viewDidLoad account fs)
      (earlier ++ .remote (.follow account ⟨false, v, none⟩) :: between) = some s)
    (nothing : NothingOf v s.main) (after : run (Feed.step account) s (.main .refreshPosts :: later) = some t)
    (silent : ∀ e ∈ between ++ later, Silent account v e) : ∀ p ∈ t.main.posts, p.userID ≠ some v := by
  have based : Based account s.fs s.main := by
    refine run_keeps (I := fun s : Feed => Based account s.fs s.main) (fun _ _ _ => step_based) before ⟨attributed, ?_, ?_⟩
    · intro f hf
      rw [List.mem_singleton.mp hf]
    · exact fun l hl => (List.not_mem_nil hl).elim
  have unfollowed : value (s.fs.follows account) v = none := by
    obtain ⟨m, _, rest⟩ := run_append_ok before
    obtain ⟨m', unfollow, rest⟩ := run_cons_ok rest
    obtain ⟨fs', applied, rfl⟩ := Feed.write_ok unfollow
    refine run_keeps_along (C := fun _ e => Silent account v e) (fun _ _ _ => step_unfollowed) rest
      (along_of_forall fun e he _ => silent e (List.mem_append_left _ he)) ?_
    cases Firestore.apply_ok applied with
    | follow written =>
      simp only [Function.update_self]
      exact apply_value_same written
  obtain ⟨m, refresh, rest⟩ := run_cons_ok after
  have free : FreeOf account v m.fs m.main := by
    simp only [Feed.step, Option.bind_eq_bind, Option.bind_eq_some_iff] at refresh
    obtain ⟨⟨main, w⟩, handled, same⟩ := refresh
    cases (MainController.handle_ok handled).2 with
    | refreshPosts =>
      obtain rfl := Option.some.inj same
      exact refreshPosts_free based (.refl _) other unfollowed unfollowed nothing
  exact (run_keeps_along (I := fun s : Feed => FreeOf account v s.fs s.main) (C := fun _ e => Silent account v e)
    (fun _ _ _ => step_free other) rest
    (along_of_forall fun e he _ => silent e (List.mem_append_right _ he)) free).posts

def aliceFollowsBob : Firestore where
  users := fun uid => if uid = "alice" ∨ uid = "bob" then some (SignUpAttempt.addData uid uid (some "url")) else none
  follows := fun account => if account = "alice" then some (dict [("bob", .int 1)]) else none

theorem aliceFollowsBob_attributed : aliceFollowsBob.Attributed := by
  refine ⟨fun uid data found => ?_, fun _ _ hd => (List.not_mem_nil hd).elim⟩
  obtain ⟨_, same⟩ := Option.ite_none_right_eq_some.mp found
  rw [← Option.some.inj same, SignUpAttempt.addData_userID]

def bobShares : Feed.Event := .remote (.photoPost "bob" "q" { imageURL := "url", message := "hello", photo := ⟨0, 0⟩, date := 1 })

def aliceShares : Feed.Event :=
  .remote (.photoPost "alice" "p" { imageURL := "url", message := "nice", photo := ⟨0, 0⟩, date := 2 })

/-- She unfollows him before her screen has heard of the follow. Her feed shows her own post. -/
theorem stays_out_unheard :
    ∃ s t, run (Feed.step "alice") (Feed.viewDidLoad "alice" aliceFollowsBob)
        [.main (.userLookup 0 true), .remote (.follow "alice" ⟨false, "bob", none⟩), .main (.followsSnapshot 0 1)] = some s ∧
      run (Feed.step "alice") s [.main .refreshPosts, bobShares, aliceShares, .main (.followsSnapshot 1 0),
        .main (.photoSnapshot 0 1 0), .main (.likeLookup 0 true)] = some t ∧
      t.main.posts.map (·.userID) = [some "alice"] ∧ ∀ p ∈ t.main.posts, p.userID ≠ some "bob" :=
  ⟨_, _, rfl, rfl, by decide, stays_out "alice" "bob" (by decide) aliceFollowsBob aliceFollowsBob_attributed
    [.main (.userLookup 0 true)] [.main (.followsSnapshot 0 1)]
    [bobShares, aliceShares, .main (.followsSnapshot 1 0), .main (.photoSnapshot 0 1 0), .main (.likeLookup 0 true)]
    _ _ rfl (by decide) rfl (by decide)⟩

/-- The listener on Bob's posts outlives the unfollow and the refresh. -/
theorem unfollowed_post_shown :
    ∃ s t, run (Feed.step "alice") (Feed.viewDidLoad "alice" aliceFollowsBob)
        [.main (.followsSnapshot 0 0), .main (.userLookup 0 true), .main (.userLookup 0 true),
          .remote (.follow "alice" ⟨false, "bob", none⟩), .main (.followsSnapshot 0 0)] = some s ∧
      run (Feed.step "alice") s [.main .refreshPosts, bobShares, .main (.photoSnapshot 1 1 0), .main (.likeLookup 0 true)] =
        some t ∧
      value (t.fs.follows "alice") "bob" = none ∧ ∃ p ∈ t.main.posts, p.userID = some "bob" :=
  ⟨_, _, rfl, rfl, by decide, _, List.mem_cons_self, by decide⟩

end Foti.Unfollow
