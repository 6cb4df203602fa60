import Foti.AddPhoto.SharePhotoController
import Foti.Library.Entries
import Foti.Library.Transition

/-!
The objects that share attempts leave in Storage. The photo is uploaded first, and what can still stop
the attempt comes after; nothing ever deletes an object. `uploads_accounted` says what becomes of each.
-/

namespace Foti.Uploads
open Entries Transition

structure PhotoPost where
  validUserID : String
  documentID : String
  data : PostData
  deriving DecidableEq

/-- The share screens opened so far, the names of the objects under `/Posts`, and the posts. -/
structure State where
  screens : List SharePhotoController := []
  objects : List String := []
  photoPosts : List PhotoPost := []
  deriving DecidableEq

inductive Event where
  | «open» (chosenPhoto : Option Photo)
  | share (j : Nat) (currentUser : Option String) (e : ShareEvent)
  deriving DecidableEq

def State.attempt (s : State) (p : Nat × Nat) : Option ShareAttempt := s.screens[p.1]?.bind (·.attempts[p.2]?)

def Event.uploaded : Event → Option (Nat × Nat)
  | .share j _ (.uploaded n true) => some (j, n)
  | _ => none

def uploads (events : List Event) : List (Nat × Nat) := events.filterMap Event.uploaded

/-- A UUID is not used twice, and `downloadURL` gives the URL of the attempt's object. -/
def Given (downloadURL : String → String) (s : State) (c : SharePhotoController) : ShareEvent → Prop
  | .press photoName => ∀ c' ∈ s.screens, ∀ a ∈ c'.attempts, a.photoName ≠ photoName
  | .located n url _ _ => ∀ a ∈ c.attempts[n]?, ∀ u ∈ url, u = downloadURL a.photoName
  | _ => True

instance (downloadURL : String → String) (s : State) (c : SharePhotoController) (e : ShareEvent) :
    Decidable (Given downloadURL s c e) :=
  match e with
  | .press photoName => inferInstanceAs (Decidable (∀ c' ∈ s.screens, ∀ a ∈ c'.attempts, a.photoName ≠ photoName))
  | .located n url _ _ => inferInstanceAs (Decidable (∀ a ∈ c.attempts[n]?, ∀ u ∈ url, u = downloadURL a.photoName))
  | .edit _ | .uploaded _ _ | .saved _ _ _ => isTrue trivial

def stored (c : SharePhotoController) : ShareEvent → List String
  | .uploaded n true => (c.attempts[n]?.map (·.photoName)).toList
  | _ => []

def saved : Option (String × ServerWrite) → List PhotoPost
  | some (_, .photoPost validUserID documentID data) => [⟨validUserID, documentID, data⟩]
  | _ => []

def step (downloadURL : String → String) (s : State) : Event → Option State
  | .open chosenPhoto => some { s with screens := s.screens ++ [{ chosenPhoto }] }
  | .share j currentUser e => do
      let c ← s.screens[j]?
      let (c', write) ← c.handle currentUser e
      if Given downloadURL s c e then
        some ⟨s.screens.set j c', s.objects ++ stored c e, s.photoPosts ++ saved write⟩
      else none

/-! ### What a step does to the attempts -/

/-- An attempt moves on: its upload stores an object, its save a post, and nothing else does. -/
inductive Advance (downloadURL : String → String) (s t : State) (a a' : ShareAttempt) : Prop where
  | uploaded (before : a.stage = .uploading) (after : a'.stage = .locating)
      (objects : t.objects = s.objects ++ [a.photoName]) (photoPosts : t.photoPosts = s.photoPosts)
  | ended (before : a.stage = .uploading ∨ a.stage = .locating ∨ ∃ uid data, a.stage = .saving uid data)
      (after : a'.stage = .ended) (objects : t.objects = s.objects) (photoPosts : t.photoPosts = s.photoPosts)
  | located {uid : String} {data : PostData} (before : a.stage = .locating) (after : a'.stage = .saving uid data)
      (url : data.imageURL = downloadURL a.photoName) (objects : t.objects = s.objects)
      (photoPosts : t.photoPosts = s.photoPosts)
  | saved {uid documentID : String} {data : PostData} (before : a.stage = .saving uid data)
      (after : a'.stage = .saved uid documentID) (objects : t.objects = s.objects)
      (photoPosts : t.photoPosts = s.photoPosts ++ [⟨uid, documentID, data⟩])

inductive Effect (downloadURL : String → String) (s t : State) (e : Event) : Prop where
  | same (attempts : t.attempt = s.attempt) (objects : t.objects = s.objects) (photoPosts : t.photoPosts = s.photoPosts)
      (none : e.uploaded = none)
  | pressed (p : Nat × Nat) (a : ShareAttempt) (free : s.attempt p = none)
      (attempts : t.attempt = Function.update s.attempt p (some a))
      (unused : ∀ q b, s.attempt q = some b → b.photoName ≠ a.photoName)
      (stage : a.stage = .uploading ∨ a.stage = .ended)
      (objects : t.objects = s.objects) (photoPosts : t.photoPosts = s.photoPosts) (none : e.uploaded = none)
  | moved (p : Nat × Nat) (a a' : ShareAttempt) (found : s.attempt p = some a)
      (attempts : t.attempt = Function.update s.attempt p (some a')) (name : a'.photoName = a.photoName)
      (advance : Advance downloadURL s t a a')
      (reported : e.uploaded = if a'.stage = .locating then some p else none)

section
variable {downloadURL : String → String} {s t : State} {j : Nat} {c c' : SharePhotoController} {objects : List String}
  {photoPosts : List PhotoPost}

theorem attempt_of (shown : s.screens[j]? = some c) (n : Nat) : s.attempt (j, n) = c.attempts[n]? := by
  simp [State.attempt, shown]

theorem attempt_same (shown : s.screens[j]? = some c) (same : c'.attempts = c.attempts) :
    (⟨s.screens.set j c', objects, photoPosts⟩ : State).attempt = s.attempt := by
  funext ⟨i, n⟩
  by_cases here : j = i
  · subst here
    have inside := (List.getElem?_eq_some_iff.mp shown).1
    simp only [State.attempt, List.getElem?_set_self inside, shown, Option.bind_some, same]
  · simp [State.attempt, List.getElem?_set_ne here]

theorem attempt_update (shown : s.screens[j]? = some c) {n : Nat} {a : ShareAttempt}
    (changed : ∀ m, c'.attempts[m]? = if m = n then some a else c.attempts[m]?) :
    (⟨s.screens.set j c', objects, photoPosts⟩ : State).attempt = Function.update s.attempt (j, n) (some a) := by
  funext ⟨i, m⟩
  by_cases here : j = i
  · subst here
    have inside := (List.getElem?_eq_some_iff.mp shown).1
    simp only [State.attempt, List.getElem?_set_self inside, Option.bind_some, changed, Function.update_apply,
      Prod.mk.injEq, true_and, shown]
  · simp [State.attempt, List.getElem?_set_ne here, Ne.symm here]

theorem step_effect {e : Event} (h : step downloadURL s e = some t) : Effect downloadURL s t e := by
  cases e with
  | «open» chosenPhoto =>
    obtain rfl := Option.some.inj h
    refine .same ?_ rfl rfl rfl
    funext ⟨i, n⟩
    simp only [State.attempt, List.getElem?_append]
    split
    · rfl
    · rename_i beyond
      have unopened : s.screens[i]? = none := List.getElem?_eq_none (by omega)
      rw [unopened]
      cases i - s.screens.length <;> simp
  | share j currentUser e =>
    obtain ⟨c, shown, h⟩ := Option.bind_eq_some_iff.mp h
    obtain ⟨⟨c', write⟩, handled, h⟩ := Option.bind_eq_some_iff.mp h
    obtain ⟨given, h⟩ := Option.ite_none_right_eq_some.mp h
    obtain rfl := Option.some.inj h
    cases SharePhotoController.handle_ok handled with
    | edit => exact .same (attempt_same shown rfl) (by simp [stored]) (by simp [saved]) rfl
    | @press photoName =>
      refine .pressed (j, c.attempts.length) _ ?_ (attempt_update shown (getElem?_concat c.attempts _)) ?_ ?_
        (by simp [stored]) (by simp [saved]) rfl
      · simp [attempt_of shown]
      · rintro ⟨i, n⟩ b found
        obtain ⟨c', shown', found⟩ := Option.bind_eq_some_iff.mp found
        exact given c' (List.mem_of_getElem? shown') b (List.mem_of_getElem? found)
      · dsimp only
        split
        · exact .inl rfl
        · exact .inr rfl
    | @uploaded n a ok found uploading =>
      cases ok with
      | true =>
        exact .moved (j, n) a { a with stage := .locating } ((attempt_of shown n).trans found)
          (attempt_update shown (getElem?_set_of found)) rfl
          (.uploaded uploading rfl (by simp [stored, found]) (by simp [saved])) rfl
      | false =>
        exact .moved (j, n) a { a with stage := .ended, hudDismissed := true } ((attempt_of shown n).trans found)
          (attempt_update shown (getElem?_set_of found)) rfl
          (.ended (.inl uploading) rfl (by simp [stored]) (by simp [saved])) rfl
    | @located n a url ok now found locating =>
      obtain ⟨stage, attempts, next⟩ := c.located_cases n a url ok currentUser now
      refine .moved (j, n) a { a with stage, hudDismissed := true } ((attempt_of shown n).trans found)
        (attempt_update shown (attempts ▸ getElem?_set_of found)) rfl ?_ ?_
      · rcases next with rfl | ⟨uid, data, rfl, _, _, is_url⟩
        · exact .ended (.inr (.inl locating)) rfl (by simp [stored]) (by simp [saved])
        · exact .located locating rfl (given a found _ is_url) (by simp [stored]) (by simp [saved])
      · rcases next with rfl | ⟨uid, data, rfl, _⟩ <;> rfl
    | @saved n a uid documentID data found saving =>
      exact .moved (j, n) a { a with stage := .saved uid documentID } ((attempt_of shown n).trans found)
        (attempt_update shown (getElem?_set_of found)) rfl (.saved saving rfl (by simp [stored]) rfl) rfl
    | @saveFails n a uid documentID data found saving =>
      exact .moved (j, n) a { a with stage := .ended } ((attempt_of shown n).trans found)
        (attempt_update shown (getElem?_set_of found)) rfl
        (.ended (.inr (.inr ⟨uid, data, saving⟩)) rfl (by simp [stored]) (by simp [saved])) rfl

end

/-! ### What every run keeps -/

def postsOf (downloadURL : String → String) (s : State) (photoName : String) : List PhotoPost :=
  s.photoPosts.filter fun d => d.data.imageURL = downloadURL photoName

def isSaved (a : ShareAttempt) : Bool :=
  match a.stage with
  | .saved _ _ => true
  | _ => false

/-- What an attempt has left behind, given the attempts whose upload has succeeded. -/
structure AttemptOk (downloadURL : String → String) (uploaded : List (Nat × Nat)) (s : State) (p : Nat × Nat)
    (a : ShareAttempt) : Prop where
  object : a.photoName ∈ s.objects ↔ p ∈ uploaded
  waiting : a.stage = .uploading → p ∉ uploaded
  passed : (a.stage = .locating ∨ (∃ uid data, a.stage = .saving uid data) ∨ isSaved a = true) → p ∈ uploaded
  located : ∀ uid data, a.stage = .saving uid data → data.imageURL = downloadURL a.photoName
  posts : (postsOf downloadURL s a.photoName).length = if isSaved a then 1 else 0

structure Inv (downloadURL : String → String) (past : List Event) (s : State) : Prop where
  attempts : ∀ p a, s.attempt p = some a → AttemptOk downloadURL (uploads past) s p a
  distinct : ∀ p q a b, s.attempt p = some a → s.attempt q = some b → a.photoName = b.photoName → p = q
  objects : ∀ name ∈ s.objects, ∃ p a, s.attempt p = some a ∧ a.photoName = name
  photoPosts : ∀ d ∈ s.photoPosts, ∃ p a, s.attempt p = some a ∧ isSaved a = true ∧
    d.data.imageURL = downloadURL a.photoName
  known : ∀ p ∈ uploads past, (s.attempt p).isSome

section
variable {downloadURL : String → String} {s t : State} {past : List Event} {e : Event} {p q : Nat × Nat}
  {a a' b : ShareAttempt}

theorem uploads_snoc (past : List Event) (e : Event) : uploads (past ++ [e]) = uploads past ++ e.uploaded.toList := by
  rw [uploads, List.filterMap_append, List.filterMap_cons]
  cases e.uploaded <;> rfl

theorem AttemptOk.frame {uploaded uploaded' : List (Nat × Nat)} (h : AttemptOk downloadURL uploaded s p a)
    (objects : a.photoName ∈ t.objects ↔ a.photoName ∈ s.objects) (same : p ∈ uploaded' ↔ p ∈ uploaded)
    (posts : postsOf downloadURL t a.photoName = postsOf downloadURL s a.photoName) :
    AttemptOk downloadURL uploaded' t p a where
  object := objects.trans (h.object.trans same.symm)
  waiting := fun uploading found => h.waiting uploading (same.mp found)
  passed := fun later => same.mpr (h.passed later)
  located := h.located
  posts := posts ▸ h.posts

theorem attempt_cases (attempts : t.attempt = Function.update s.attempt p (some a)) (found : t.attempt q = some b) :
    q = p ∧ b = a ∨ q ≠ p ∧ s.attempt q = some b := by
  rw [attempts] at found
  exact Entries.update_cases found

/-- Attempts stay with their names, and the saved ones stay saved. -/
def Kept (s t : State) : Prop :=
  ∀ q b, s.attempt q = some b →
    ∃ b', t.attempt q = some b' ∧ b'.photoName = b.photoName ∧ (isSaved b = true → isSaved b' = true)

theorem Kept.objects (kept : Kept s t) (h : Inv downloadURL past s) :
    ∀ name ∈ s.objects, ∃ q b, t.attempt q = some b ∧ b.photoName = name := by
  intro name hname
  obtain ⟨q, b, found, same⟩ := h.objects name hname
  obtain ⟨b', found', sameName, _⟩ := kept q b found
  exact ⟨q, b', found', sameName.trans same⟩

theorem Kept.photoPosts (kept : Kept s t) (h : Inv downloadURL past s) :
    ∀ d ∈ s.photoPosts, ∃ q b, t.attempt q = some b ∧ isSaved b = true ∧ d.data.imageURL = downloadURL b.photoName := by
  intro d hd
  obtain ⟨q, b, found, saved, url⟩ := h.photoPosts d hd
  obtain ⟨b', found', sameName, still⟩ := kept q b found
  exact ⟨q, b', found', still saved, by rw [url, sameName]⟩

theorem Kept.known (kept : Kept s t) (h : Inv downloadURL past s) : ∀ q ∈ uploads past, (t.attempt q).isSome := by
  intro q reported
  obtain ⟨b, found⟩ := Option.isSome_iff_exists.mp (h.known q reported)
  obtain ⟨b', found', _⟩ := kept q b found
  rw [found']
  rfl

theorem pressed_kept (free : s.attempt p = none) (attempts : t.attempt = Function.update s.attempt p (some a)) :
    Kept s t := by
  intro q b found
  have other : q ≠ p := by
    rintro rfl
    rw [free] at found
    cases found
  exact ⟨b, by rw [attempts, Function.update_of_ne other, found], rfl, id⟩

theorem moved_kept (found : s.attempt p = some a) (attempts : t.attempt = Function.update s.attempt p (some a'))
    (name : a'.photoName = a.photoName) (advance : Advance downloadURL s t a a') : Kept s t := by
  intro q b hb
  by_cases same : q = p
  · subst same
    obtain rfl := Option.some.inj (found.symm.trans hb)
    refine ⟨a', by rw [attempts, Function.update_self], name, fun saved => ?_⟩
    -- A saved attempt does not move.
    cases advance with
    | uploaded before => simp [isSaved, before] at saved
    | ended before => rcases before with before | before | ⟨_, _, before⟩ <;> simp [isSaved, before] at saved
    | located before => simp [isSaved, before] at saved
    | saved before => simp [isSaved, before] at saved
  · exact ⟨b, by rw [attempts, Function.update_of_ne same, hb], rfl, id⟩

theorem pressed_ok (injective : Function.Injective downloadURL) (h : Inv downloadURL past s) (free : s.attempt p = none)
    (unused : ∀ q b, s.attempt q = some b → b.photoName ≠ a.photoName) (stage : a.stage = .uploading ∨ a.stage = .ended) :
    AttemptOk downloadURL (uploads past) s p a := by
  have unreported : p ∉ uploads past := by
    intro reported
    have attempted := h.known p reported
    rw [free] at attempted
    cases attempted
  have absent : a.photoName ∉ s.objects := by
    intro kept
    obtain ⟨q, b, found, same⟩ := h.objects a.photoName kept
    exact unused q b found same
  have unposted : postsOf downloadURL s a.photoName = [] := by
    refine List.filter_eq_nil_iff.mpr fun d hd same => ?_
    obtain ⟨q, b, found, _, url⟩ := h.photoPosts d hd
    exact unused q b found (injective (url.symm.trans (by simpa using same)))
  constructor
  case object => exact iff_of_false absent unreported
  case waiting => exact fun _ => unreported
  case passed => rcases stage with stage | stage <;> simp [stage, isSaved]
  case located => rcases stage with stage | stage <;> simp [stage]
  case posts => rcases stage with stage | stage <;> simp [unposted, stage, isSaved]

theorem pressed_inv (injective : Function.Injective downloadURL) (h : Inv downloadURL past s) (free : s.attempt p = none)
    (attempts : t.attempt = Function.update s.attempt p (some a))
    (unused : ∀ q b, s.attempt q = some b → b.photoName ≠ a.photoName) (stage : a.stage = .uploading ∨ a.stage = .ended)
    (objects : t.objects = s.objects) (photoPosts : t.photoPosts = s.photoPosts) : Inv downloadURL past t := by
  have kept := pressed_kept free attempts
  have unchanged : ∀ q b, AttemptOk downloadURL (uploads past) s q b → AttemptOk downloadURL (uploads past) t q b :=
    fun q b ok => ok.frame (by rw [objects]) .rfl (by rw [postsOf, postsOf, photoPosts])
  constructor
  case attempts =>
    intro q b found
    rcases attempt_cases attempts found with ⟨rfl, rfl⟩ | ⟨_, old⟩
    · exact unchanged q b (pressed_ok injective h free unused stage)
    · exact unchanged q b (h.attempts q b old)
  case distinct =>
    intro q r b c hb hc same
    rcases attempt_cases attempts hb with ⟨rfl, rfl⟩ | ⟨_, oldB⟩ <;>
      rcases attempt_cases attempts hc with ⟨rfl, rfl⟩ | ⟨_, oldC⟩
    · rfl
    · exact (unused r c oldC same.symm).elim
    · exact (unused q b oldB same).elim
    · exact h.distinct q r b c oldB oldC same
  case objects => exact objects ▸ kept.objects h
  case photoPosts => exact photoPosts ▸ kept.photoPosts h
  case known => exact kept.known h

theorem advance_own (h : AttemptOk downloadURL (uploads past) s p a) (name : a'.photoName = a.photoName)
    (advance : Advance downloadURL s t a a') (reported : e.uploaded = if a'.stage = .locating then some p else none) :
    AttemptOk downloadURL (uploads (past ++ [e])) t p a' := by
  have object := h.object
  have unposted : isSaved a = false → postsOf downloadURL s a.photoName = [] := fun unsaved =>
    List.length_eq_zero_iff.mp (by rw [h.posts, unsaved]; rfl)
  have same_posts : t.photoPosts = s.photoPosts → postsOf downloadURL t a'.photoName = postsOf downloadURL s a.photoName := by
    intro same
    rw [postsOf, postsOf, same, name]
  rw [uploads_snoc, reported]
  cases advance with
  | uploaded before after objects photoPosts =>
    rw [if_pos after]
    constructor
    case object => simp [name, objects]
    case waiting => simp [after]
    case passed => simp
    case located => simp [after]
    case posts => simp [same_posts photoPosts, unposted (by simp [isSaved, before]), isSaved, after]
  | ended before after objects photoPosts =>
    have unsaved : isSaved a = false := by
      rcases before with before | before | ⟨uid, data, before⟩ <;> simp [isSaved, before]
    constructor
    case object => simpa [name, objects, after] using object
    case waiting => simp [after]
    case passed => simp [after, isSaved]
    case located => simp [after]
    case posts => simp [same_posts photoPosts, unposted unsaved, isSaved, after]
  | @located uid data before after url objects photoPosts =>
    have passed := h.passed (.inl before)
    constructor
    case object => simpa [name, objects, after] using object
    case waiting => simp [after]
    case passed => simpa [after] using passed
    case located =>
      intro uid' data' saving
      obtain ⟨rfl, rfl⟩ := ShareStage.saving.inj (after.symm.trans saving)
      rw [url, name]
    case posts => simp [same_posts photoPosts, unposted (by simp [isSaved, before]), isSaved, after]
  | @saved uid documentID data before after objects photoPosts =>
    have passed := h.passed (.inr (.inl ⟨uid, data, before⟩))
    have none_before := unposted (by simp [isSaved, before])
    rw [postsOf] at none_before
    constructor
    case object => simpa [name, objects, after] using object
    case waiting => simp [after]
    case passed => simpa [after, isSaved] using passed
    case located => simp [after]
    case posts =>
      have url := h.located uid data before
      simp [name, postsOf, photoPosts, List.filter_append, none_before, url, isSaved, after]

theorem advance_other (injective : Function.Injective downloadURL) (h : AttemptOk downloadURL (uploads past) s p a)
    (other : AttemptOk downloadURL (uploads past) s q b) (apart : q ≠ p) (names : b.photoName ≠ a.photoName)
    (advance : Advance downloadURL s t a a') (reported : e.uploaded = if a'.stage = .locating then some p else none) :
    AttemptOk downloadURL (uploads (past ++ [e])) t q b := by
  have same : q ∈ uploads (past ++ [e]) ↔ q ∈ uploads past := by
    rw [uploads_snoc, reported]
    split <;> simp [apart]
  have same_posts : t.photoPosts = s.photoPosts → postsOf downloadURL t b.photoName = postsOf downloadURL s b.photoName := by
    intro same
    rw [postsOf, postsOf, same]
  cases advance with
  | uploaded before after objects photoPosts =>
    exact other.frame (by simp [objects, names]) same (same_posts photoPosts)
  | ended before after objects photoPosts => exact other.frame (by rw [objects]) same (same_posts photoPosts)
  | located before after url objects photoPosts => exact other.frame (by rw [objects]) same (same_posts photoPosts)
  | @saved uid documentID data before after objects photoPosts =>
    -- The new post has the URL of the saved attempt, and different names have different URLs.
    have url : data.imageURL ≠ downloadURL b.photoName := by
      rw [h.located uid data before]
      exact fun same => names (injective same).symm
    exact other.frame (by rw [objects]) same (by simp [postsOf, photoPosts, List.filter_append, url])

theorem moved_inv (injective : Function.Injective downloadURL) (h : Inv downloadURL past s) (found : s.attempt p = some a)
    (attempts : t.attempt = Function.update s.attempt p (some a')) (name : a'.photoName = a.photoName)
    (advance : Advance downloadURL s t a a') (reported : e.uploaded = if a'.stage = .locating then some p else none) :
    Inv downloadURL (past ++ [e]) t := by
  have own := h.attempts p a found
  have here : t.attempt p = some a' := by rw [attempts, Function.update_self]
  have back : ∀ {q b}, t.attempt q = some b → ∃ b₀, s.attempt q = some b₀ ∧ b₀.photoName = b.photoName := by
    intro q b hb
    rcases attempt_cases attempts hb with ⟨rfl, rfl⟩ | ⟨_, old⟩
    · exact ⟨a, found, name.symm⟩
    · exact ⟨b, old, rfl⟩
  have kept := moved_kept found attempts name advance
  constructor
  case attempts =>
    intro q b hb
    rcases attempt_cases attempts hb with ⟨rfl, rfl⟩ | ⟨apart, old⟩
    · exact advance_own own name advance reported
    · exact advance_other injective own (h.attempts q b old) apart
        (fun same => apart (h.distinct q p b a old found same)) advance reported
  case distinct =>
    intro q r b c hb hc same
    obtain ⟨b₀, oldB, nameB⟩ := back hb
    obtain ⟨c₀, oldC, nameC⟩ := back hc
    exact h.distinct q r b₀ c₀ oldB oldC (nameB.trans (same.trans nameC.symm))
  case objects =>
    have old := kept.objects h
    cases advance with
    | uploaded before after objects => exact objects ▸ forall_mem_concat old ⟨p, a', here, name⟩
    | ended before after objects => exact objects ▸ old
    | located before after url objects => exact objects ▸ old
    | saved before after objects => exact objects ▸ old
  case photoPosts =>
    have old := kept.photoPosts h
    cases advance with
    | uploaded before after objects photoPosts => exact photoPosts ▸ old
    | ended before after objects photoPosts => exact photoPosts ▸ old
    | located before after url objects photoPosts => exact photoPosts ▸ old
    | @saved uid documentID data before after objects photoPosts =>
      refine photoPosts ▸ forall_mem_concat old ⟨p, a', here, by simp [isSaved, after], ?_⟩
      rw [name]
      exact own.located uid data before
  case known =>
    intro q reportedQ
    rw [uploads_snoc, reported] at reportedQ
    rcases List.mem_append.mp reportedQ with old | new
    · exact kept.known h q old
    · split at new
      · obtain rfl := List.mem_singleton.mp new
        rw [here]
        rfl
      · cases new

theorem step_inv (injective : Function.Injective downloadURL) (h : Inv downloadURL past s)
    (stepped : step downloadURL s e = some t) : Inv downloadURL (past ++ [e]) t := by
  cases step_effect stepped with
  | same attempts objects photoPosts unreported =>
    have same : uploads (past ++ [e]) = uploads past := by simp [uploads_snoc, unreported]
    constructor
    case attempts =>
      intro p a found
      rw [attempts] at found
      exact (h.attempts p a found).frame (by rw [objects]) (by rw [same]) (by rw [postsOf, postsOf, photoPosts])
    case distinct => exact attempts ▸ h.distinct
    case objects => exact objects ▸ attempts ▸ h.objects
    case photoPosts => exact photoPosts ▸ attempts ▸ h.photoPosts
    case known => exact same ▸ attempts ▸ h.known
  | pressed p a free attempts unused stage objects photoPosts unreported =>
    have pressed := pressed_inv injective h free attempts unused stage objects photoPosts
    have same : uploads (past ++ [e]) = uploads past := by simp [uploads_snoc, unreported]
    exact ⟨same ▸ pressed.attempts, pressed.distinct, pressed.objects, pressed.photoPosts, same ▸ pressed.known⟩
  | moved p a a' found attempts name advance reported =>
    exact moved_inv injective h found attempts name advance reported

theorem fresh_inv : Inv downloadURL [] {} := by
  have none_yet : ∀ p, ({} : State).attempt p = none := fun p => by simp [State.attempt]
  constructor
  case attempts => exact fun p a found => by simp [none_yet] at found
  case distinct => exact fun p _ a _ found => by simp [none_yet] at found
  case objects => exact List.forall_mem_nil _
  case photoPosts => exact List.forall_mem_nil _
  case known => exact List.forall_mem_nil _

end

def Quiet (s : State) : Prop := ∀ c ∈ s.screens, ∀ a ∈ c.attempts, a.stage = .ended ∨ isSaved a = true

instance (s : State) : Decidable (Quiet s) := by unfold Quiet; infer_instance

/-- An object whose attempt ended after the upload stays behind. When no attempt is in flight, every
object is that of exactly one attempt, which either saved the one post with the object's URL, or ended
without saving, and then no post has it. An attempt has left an object exactly when its upload
succeeded, and every post has the URL of an object. -/
theorem uploads_accounted (downloadURL : String → String) (injective : Function.Injective downloadURL)
    (events : List Event) (t : State) (h : run (step downloadURL) {} events = some t) (quiet : Quiet t) :
    (∀ name ∈ t.objects, ∃ p a, t.attempt p = some a ∧ a.photoName = name ∧
      (∀ q b, t.attempt q = some b → b.photoName = name → q = p) ∧
      (isSaved a = true ∧ (postsOf downloadURL t name).length = 1 ∨
        a.stage = .ended ∧ postsOf downloadURL t name = [])) ∧
    (∀ p a, t.attempt p = some a → (a.photoName ∈ t.objects ↔ p ∈ uploads events)) ∧
    ∀ d ∈ t.photoPosts, ∃ name ∈ t.objects, d.data.imageURL = downloadURL name := by
  have inv : Inv downloadURL ([] ++ events) t :=
    run_history (fun _ _ _ _ hs stepped => step_inv injective hs stepped) h fresh_inv
  refine ⟨?_, fun p a found => (inv.attempts p a found).object, ?_⟩
  · intro name hname
    obtain ⟨p, a, found, rfl⟩ := inv.objects name hname
    obtain ⟨c, shown, listed⟩ := Option.bind_eq_some_iff.mp found
    have posts := (inv.attempts p a found).posts
    refine ⟨p, a, found, rfl, fun q b hb same => inv.distinct q p b a hb found same, ?_⟩
    rcases quiet c (List.mem_of_getElem? shown) a (List.mem_of_getElem? listed) with ended | saved
    · have unsaved : isSaved a = false := by simp [isSaved, ended]
      rw [unsaved] at posts
      exact .inr ⟨ended, List.length_eq_zero_iff.mp posts⟩
    · rw [if_pos saved] at posts
      exact .inl ⟨saved, posts⟩
  · intro d hd
    obtain ⟨p, a, found, saved, url⟩ := inv.photoPosts d hd
    have ok := inv.attempts p a found
    exact ⟨a.photoName, ok.object.mpr (ok.passed (.inr (.inr saved))), url⟩

def pathURL (photoName : String) : String := "/Posts/" ++ photoName

theorem pathURL_injective : Function.Injective pathURL := fun _ _ same => (String.append_right_inj _).mp same

def saveFails : List Event :=
  [.open (some ⟨0, 0⟩), .share 0 none (.edit "hello"), .share 0 none (.press "photo"), .share 0 none (.uploaded 0 true),
   .share 0 (some "alice") (.located 0 (some "/Posts/photo") true 1), .share 0 (some "alice") (.saved 0 "p" false)]

theorem uploads_accounted_saveFails : ∃ t, run (step pathURL) {} saveFails = some t ∧ Quiet t ∧
    ∀ p a, t.attempt p = some a → (a.photoName ∈ t.objects ↔ p ∈ uploads saveFails) :=
  ⟨_, rfl, by decide, (uploads_accounted pathURL pathURL_injective saveFails _ rfl (by decide)).2.1⟩

/-- The object stays in Storage, and no post has its URL. -/
theorem upload_orphaned : ∃ t, run (step pathURL) {} saveFails = some t ∧ Quiet t ∧ t.objects = ["photo"] ∧
    t.photoPosts = [] ∧ ¬ ∀ name ∈ t.objects, (postsOf pathURL t name).length = 1 :=
  ⟨_, rfl, by decide, rfl, rfl, by decide⟩

end Foti.Uploads
