import Foti.Library.Reuse
import Foti.MainPage.MainPostCell

/-!
A reused `MainPostCell`. Its observer returns before the updates that are left when a photo has no
URL, so the cell keeps what an earlier post put there. `reused_iff` says exactly when it does not.
-/

namespace Foti.MainPostCell
variable {URL : Type*} {url : String → Option URL}

/-- The posts are assigned one after the other, each at its time. -/
abbrev assign (url : String → Option URL) (cell : MainPostCell URL) (posts : List (Timestamp × Post)) : MainPostCell URL :=
  Reuse.assign (fun cell p => cell.didSet url p.1 (some p.2)) cell posts

def HasPhoto (url : String → Option URL) (post : Post) : Prop := (post.postImageURL.bind url).isSome

/-- The observer comes to its end. -/
def Complete (url : String → Option URL) (post : Post) : Prop :=
  HasPhoto url post ∧ (url post.user.profilePhotoURL).isSome

/-! ### One assignment -/

section Assignment
variable {now : Timestamp} {cell : MainPostCell URL} {post : Post}

theorem didSet_without_photo (missing : ¬ HasPhoto url post) :
    cell.didSet url now (some post) = { cell with post := some post } := by
  have none_found : post.postImageURL.bind url = none := by simpa [HasPhoto] using missing
  simp [didSet, none_found]

theorem didSet_incomplete (photo : HasPhoto url post) (incomplete : ¬ Complete url post) :
    cell.didSet url now (some post) = { cell with
      post := some post
      imgPostPhoto := post.postImageURL.bind url
      lblUserName := some post.user.userName } := by
  obtain ⟨imageURL, found⟩ := Option.isSome_iff_exists.mp photo
  have none_found : url post.user.profilePhotoURL = none := by
    simpa using fun present => incomplete ⟨photo, present⟩
  simp [didSet, found, none_found]

theorem didSet_complete (complete : Complete url post) :
    cell.didSet url now (some post) = ({} : MainPostCell URL).didSet url now (some post) ∧
      (cell.didSet url now (some post)).lblPostMessage ≠ [] := by
  obtain ⟨imageURL, image⟩ := Option.isSome_iff_exists.mp complete.1
  obtain ⟨profileImageURL, profile⟩ := Option.isSome_iff_exists.mp complete.2
  simp [didSet, image, profile, attrPostMessage]

theorem didSet_photo (photo : HasPhoto url post) : (cell.didSet url now (some post)).imgPostPhoto.isSome := by
  obtain ⟨imageURL, image⟩ := Option.isSome_iff_exists.mp photo
  cases profile : url post.user.profilePhotoURL <;> simp [didSet, image, profile, attrPostMessage]

theorem didSet_keeps_photo (shown : cell.imgPostPhoto.isSome) :
    (cell.didSet url now (some post)).imgPostPhoto.isSome := by
  by_cases photo : HasPhoto url post
  · exact didSet_photo photo
  · rwa [didSet_without_photo photo]

theorem didSet_keeps_message (shown : cell.lblPostMessage ≠ []) :
    (cell.didSet url now (some post)).lblPostMessage ≠ [] := by
  by_cases complete : Complete url post
  · exact (didSet_complete complete).2
  · by_cases photo : HasPhoto url post
    · rwa [didSet_incomplete photo complete]
    · rwa [didSet_without_photo photo]

end Assignment

/-! ### Any number of assignments -/

section History
variable {posts : List (Timestamp × Post)} {cell : MainPostCell URL}

theorem assign_concat (p : Timestamp × Post) :
    assign url cell (posts ++ [p]) = (assign url cell posts).didSet url p.1 (some p.2) :=
  Reuse.assign_concat cell posts p

theorem assign_without_photo (cell : MainPostCell URL) (missing : ∀ p ∈ posts, ¬ HasPhoto url p.2) :
    ∃ post, assign url cell posts = { cell with post } := by
  induction posts using List.reverseRecOn with
  | nil => exact ⟨cell.post, rfl⟩
  | append_singleton posts p ih =>
    obtain ⟨earlier, last⟩ := List.forall_mem_append.mp missing
    obtain ⟨post, same⟩ := ih earlier
    rw [assign_concat, same, didSet_without_photo (last p (List.mem_singleton_self p))]
    exact ⟨some p.2, rfl⟩

theorem assign_incomplete (cell : MainPostCell URL) (incomplete : ∀ p ∈ posts, ¬ Complete url p.2) :
    ∃ post imgPostPhoto lblUserName, assign url cell posts = { cell with post, imgPostPhoto, lblUserName } := by
  induction posts using List.reverseRecOn with
  | nil => exact ⟨cell.post, cell.imgPostPhoto, cell.lblUserName, rfl⟩
  | append_singleton posts p ih =>
    obtain ⟨earlier, last⟩ := List.forall_mem_append.mp incomplete
    obtain ⟨post, imgPostPhoto, lblUserName, same⟩ := ih earlier
    have here := last p (List.mem_singleton_self p)
    by_cases photo : HasPhoto url p.2
    · rw [assign_concat, same, didSet_incomplete photo here]
      exact ⟨_, _, _, rfl⟩
    · rw [assign_concat, same, didSet_without_photo photo]
      exact ⟨_, _, _, rfl⟩

end History

/-- For every sequence of posts: a reused cell shows what a fresh cell shows for the last one exactly
when the last one sets everything, or no earlier one has set what the last one leaves. -/
theorem reused_iff (url : String → Option URL) (earlier : List (Timestamp × Post)) (now : Timestamp) (post : Post) :
    assign url {} (earlier ++ [(now, post)]) = assign url {} [(now, post)] ↔
      Complete url post ∨ HasPhoto url post ∧ (∀ p ∈ earlier, ¬ Complete url p.2) ∨
        ∀ p ∈ earlier, ¬ HasPhoto url p.2 := by
  rw [assign_concat]
  show _ = ({} : MainPostCell URL).didSet url now (some post) ↔ _
  by_cases complete : Complete url post
  · exact iff_of_true (didSet_complete complete).1 (.inl complete)
  by_cases photo : HasPhoto url post
  · rw [didSet_incomplete photo complete, didSet_incomplete photo complete]
    constructor
    · intro same
      refine .inr (.inl ⟨photo, fun p hp earlier_complete => ?_⟩)
      have message := congrArg MainPostCell.lblPostMessage same
      have shown : (assign url {} earlier).lblPostMessage ≠ [] :=
        Reuse.assign_keeps (P := fun cell : MainPostCell URL => cell.lblPostMessage ≠ []) {} hp
          (fun _ => (didSet_complete earlier_complete).2) fun _ _ => didSet_keeps_message
      exact shown message
    · intro unfinished
      have incomplete : ∀ p ∈ earlier, ¬ Complete url p.2 := by
        rcases unfinished with done | ⟨_, incomplete⟩ | missing
        · exact (complete done).elim
        · exact incomplete
        · exact fun p hp done => missing p hp done.1
      obtain ⟨_, _, _, same⟩ := assign_incomplete {} incomplete
      rw [same]
  · rw [didSet_without_photo photo, didSet_without_photo photo]
    constructor
    · intro same
      refine .inr (.inr fun p hp earlier_photo => ?_)
      have image := congrArg MainPostCell.imgPostPhoto same
      have shown : (assign url {} earlier).imgPostPhoto.isSome :=
        Reuse.assign_keeps (P := fun cell : MainPostCell URL => cell.imgPostPhoto.isSome) {} hp
          (fun _ => didSet_photo earlier_photo) fun _ _ => didSet_keeps_photo
      dsimp only at image
      rw [image] at shown
      cases shown
    · intro unfinished
      have missing := (unfinished.resolve_left complete).resolve_left fun done => photo done.1
      obtain ⟨_, same⟩ := assign_without_photo {} missing
      rw [same]

/-- `URL(string:)` on the strings that occur here. -/
def urlOf (string : String) : Option String := if string = "" then none else some string

def shared (user : User) (message : String) (liked : Bool) : Post :=
  { id := none, user, postImageURL := some (message ++ ".jpg"), imageWidth := none, imageHeight := none,
    userID := some user.userID, message := some message, postDate := 0, liked }

/-- Bob's post is drawn after Alice's, and he has no profile photo. -/
theorem earlier_post_shown :
    let cell := assign urlOf {} [(1000000, shared ⟨"alice", "a", "alice.jpg"⟩ "secret" true),
      (2000000, shared ⟨"bob", "b", ""⟩ "hello" false)]
    cell.imgPostPhoto = some "hello.jpg" ∧ cell.lblUserName = some "bob" ∧
      cell.imgUserProfilePhoto = some "alice.jpg" ∧ ("secret", .plain) ∈ cell.lblPostMessage ∧ cell.btnLike = .selected ∧
      cell ≠ assign urlOf {} [(2000000, shared ⟨"bob", "b", ""⟩ "hello" false)] := by
  refine ⟨rfl, rfl, rfl, by decide, rfl, fun same => ?_⟩
  exact absurd (congrArg MainPostCell.btnLike same) (by decide)

end Foti.MainPostCell
