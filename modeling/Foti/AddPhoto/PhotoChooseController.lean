import Foti.Library.Entries
import Foti.Library.Transition

/-!
`PhotoChooseController`: thumbnails of the library, and a header with the chosen photo in a higher
quality. Each redraw of the header asks for its photo anew, and no request is ever cancelled.
-/

namespace Foti
open Entries Transition
variable {α π : Type*}

/-- A rendition of an asset. Images are compared by their data. -/
structure UIImage (α π : Type*) where
  asset : α
  data : π
  deriving DecidableEq

/-- A `requestImage` with the header that its callback writes; it may answer more than once. -/
structure PhotoRequest (α : Type*) where
  chosenAsset : α
  header : Nat
  deriving DecidableEq

inductive ThumbnailStage where
  | requested
  | assetAppended
  | photoAppended
  | finished
  deriving DecidableEq

/-- `fetched` are the assets still to be enumerated, each with what its thumbnail request yields.
`selectionDrawn` says that a header was drawn since the last selection, `headers` has the image of each. -/
structure PhotoChooseController (α π : Type*) where
  fetched : List (α × Option π)
  stage : ThumbnailStage := .requested
  assets : List α := []
  photos : List (UIImage α π) := []
  chosenPhoto : Option (UIImage α π) := none
  scheduledReloads : Nat := 0
  selectionDrawn : Bool := true
  headers : List (Option (UIImage α π)) := []
  header : Option Nat := none
  requests : List (PhotoRequest α) := []
  deriving DecidableEq

inductive PhotoEvent (π : Type*) where
  | thumbnail
  | reload
  | select (row : Nat)
  | redraw (place : Nat)
  | answer (n : Nat) (photo : Option π)
  deriving DecidableEq

namespace PhotoChooseController

/-- One step of the enumeration of `getPhotos`, which runs beside the main queue. -/
def getPhotos (c : PhotoChooseController α π) : Option (PhotoChooseController α π) :=
  match c.fetched, c.stage with
  | (asset, some _) :: _, .requested => some { c with assets := c.assets ++ [asset], stage := .assetAppended }
  | (_, none) :: _, .requested => some { c with stage := .finished }
  | (asset, some data) :: _, .assetAppended => some { c with photos := c.photos ++ [⟨asset, data⟩], stage := .photoAppended }
  | (asset, some data) :: _, .photoAppended =>
      some { c with chosenPhoto := c.chosenPhoto.or (some ⟨asset, data⟩), stage := .finished }
  | _ :: rest, .finished =>
      some { c with
        fetched := rest
        stage := .requested
        scheduledReloads := if rest.isEmpty then c.scheduledReloads + 1 else c.scheduledReloads }
  | _, _ => none

def didSelectItemAt (c : PhotoChooseController α π) (row : Nat) : Option (PhotoChooseController α π) :=
  c.photos[row]?.map fun photo => { c with chosenPhoto := some photo, selectionDrawn := false }

/-- The header at `place` is dequeued, used or fresh, and shows `chosenPhoto`. -/
def dequeue (c : PhotoChooseController α π) (place : Nat) : PhotoChooseController α π :=
  let place := min place c.headers.length
  { c with
    selectionDrawn := true
    header := some place
    headers := if place < c.headers.length then c.headers.set place c.chosenPhoto else c.headers ++ [c.chosenPhoto] }

/-- `viewForSupplementaryElementOfKind`. `none` is the trap of an index out of range. -/
def redraw [DecidableEq π] (c : PhotoChooseController α π) (place : Nat) : Option (PhotoChooseController α π) :=
  let index := c.chosenPhoto.bind fun chosenPhoto => c.photos.findIdx? fun photo => photo.data = chosenPhoto.data
  match index with
  | none => some (c.dequeue place)
  | some index => c.assets[index]?.map fun chosenAsset =>
      { c.dequeue place with requests := c.requests ++ [⟨chosenAsset, min place c.headers.length⟩] }

/-- The callback of the header's `requestImage`. -/
def answer (c : PhotoChooseController α π) (r : PhotoRequest α) (photo : Option π) : PhotoChooseController α π :=
  { c with headers := c.headers.set r.header (photo.map (⟨r.chosenAsset, ·⟩)) }

/-- The photo that Next gives to `SharePhotoController`. -/
def btnNextPressed (c : PhotoChooseController α π) : Option (UIImage α π) :=
  c.header.bind fun place => (c.headers[place]?).join

def step [DecidableEq π] (c : PhotoChooseController α π) : PhotoEvent π → Option (PhotoChooseController α π)
  | .thumbnail => c.getPhotos
  | .reload =>
      if c.scheduledReloads = 0 then none
      else some { c with scheduledReloads := c.scheduledReloads - 1 }
  | .select row => c.didSelectItemAt row
  | .redraw place => c.redraw place
  | .answer n photo => c.requests[n]?.map fun r => c.answer r photo

/-- Requests write into existing headers, and before a photo is chosen there is nothing to show. -/
structure Inv (c : PhotoChooseController α π) : Prop where
  targets : ∀ r ∈ c.requests, r.header < c.headers.length
  unchosen : c.chosenPhoto = none → c.requests = [] ∧ ∀ image ∈ c.headers, image = none

section
variable {c t : PhotoChooseController α π}

theorem dequeue_shows (c : PhotoChooseController α π) (place : Nat) : (c.dequeue place).btnNextPressed = c.chosenPhoto := by
  simp only [dequeue, btnNextPressed, Option.bind_some]
  split
  · rename_i used
    simp [used]
  · rename_i fresh
    have last : min place c.headers.length = c.headers.length := by omega
    simp [last]

theorem dequeue_inv (h : Inv c) (place : Nat) : Inv (c.dequeue place) := by
  have longer : c.headers.length ≤ (c.dequeue place).headers.length := by
    simp only [dequeue]
    split <;> simp
  constructor
  case targets => exact fun r hr => Nat.lt_of_lt_of_le (h.targets r hr) longer
  case unchosen =>
    intro unchosen
    obtain ⟨none_asked, empty⟩ := h.unchosen unchosen
    refine ⟨none_asked, ?_⟩
    simp only [dequeue]
    split
    · exact forall_mem_set empty unchosen
    · exact forall_mem_concat empty unchosen

theorem getPhotos_same (h : c.getPhotos = some t) :
    t.headers = c.headers ∧ t.header = c.header ∧ t.requests = c.requests ∧ t.selectionDrawn = c.selectionDrawn ∧
      (t.chosenPhoto = c.chosenPhoto ∨ c.chosenPhoto = none ∧ t.chosenPhoto.isSome) := by
  unfold getPhotos at h
  split at h <;> cases h
  all_goals first
    | exact ⟨rfl, rfl, rfl, rfl, .inl rfl⟩
    | refine ⟨rfl, rfl, rfl, rfl, ?_⟩
  cases chosen : c.chosenPhoto with
  | none => exact .inr ⟨rfl, rfl⟩
  | some photo => exact .inl rfl

theorem redraw_ok [DecidableEq π] {place : Nat} (h : c.redraw place = some t) :
    ∃ asked, t = { c.dequeue place with requests := c.requests ++ asked } ∧
      (∀ r ∈ asked, r.header = min place c.headers.length) ∧ (c.chosenPhoto = none → asked = []) := by
  unfold redraw at h
  dsimp only at h
  split at h
  · obtain rfl := Option.some.inj h
    exact ⟨[], by simp [dequeue], List.forall_mem_nil _, fun _ => rfl⟩
  · rename_i index found
    obtain ⟨chosenAsset, _, rfl⟩ := Option.map_eq_some_iff.mp h
    refine ⟨_, rfl, List.forall_mem_singleton.mpr rfl, fun unchosen => ?_⟩
    rw [unchosen] at found
    cases found

theorem redraw_inv [DecidableEq π] {place : Nat} (h : Inv c) (redrawn : c.redraw place = some t) : Inv t := by
  obtain ⟨asked, rfl, places, none_asked⟩ := redraw_ok redrawn
  have drawn := dequeue_inv h place
  constructor
  case targets =>
    refine List.forall_mem_append.mpr ⟨drawn.targets, fun r hr => ?_⟩
    rw [places r hr]
    simp only [dequeue]
    split
    · rwa [List.length_set]
    · simp only [List.length_append, List.length_singleton]
      omega
  case unchosen =>
    intro unchosen
    have before := drawn.unchosen unchosen
    exact ⟨by rw [show c.requests = [] from before.1, none_asked unchosen]; rfl, before.2⟩

theorem step_inv [DecidableEq π] {e : PhotoEvent π} (h : Inv c) (stepped : c.step e = some t) : Inv t := by
  cases e with
  | thumbnail =>
    obtain ⟨headers, _, requests, _, chosen⟩ := getPhotos_same stepped
    refine ⟨by rw [headers, requests]; exact h.targets, fun unchosen => ?_⟩
    rcases chosen with same | ⟨_, chosen⟩
    · rw [headers, requests]
      exact h.unchosen (same.symm.trans unchosen)
    · rw [unchosen] at chosen
      cases chosen
  | reload =>
    obtain ⟨_, same⟩ := Option.ite_none_left_eq_some.mp stepped
    obtain rfl := Option.some.inj same
    exact ⟨h.targets, h.unchosen⟩
  | select row =>
    obtain ⟨photo, _, rfl⟩ := Option.map_eq_some_iff.mp stepped
    exact ⟨h.targets, fun unchosen => (by cases unchosen)⟩
  | redraw place => exact redraw_inv h stepped
  | answer n photo =>
    obtain ⟨r, asked, rfl⟩ := Option.map_eq_some_iff.mp stepped
    constructor
    case targets => simpa [answer] using h.targets
    case unchosen =>
      intro unchosen
      -- Nothing is asked for before a photo is chosen.
      rw [(h.unchosen unchosen).1] at asked
      cases asked

theorem answer_shows {r : PhotoRequest α} (photo : Option π) (target : r.header < c.headers.length) :
    (c.answer r photo).btnNextPressed =
      if c.header = some r.header then photo.map (⟨r.chosenAsset, ·⟩) else c.btnNextPressed := by
  simp only [answer, btnNextPressed]
  cases shown : c.header with
  | none => simp
  | some place =>
    by_cases same : place = r.header
    · subst same
      simp [target]
    · simp [same, List.getElem?_set_ne (Ne.symm same)]

end

end PhotoChooseController
end Foti
