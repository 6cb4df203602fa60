import Foti.AddPhoto.Thumbnails

/-!
The photo that Next gives. A redraw of the header sends a request for the first photo that equals the
chosen one, and no later redraw or selection stops its answer. `selection_given_iff` says exactly in
which runs Next never gives a photo other than the one selected last.
-/

namespace Foti.PhotoChooseController
open Entries Transition
variable {α π : Type*}

/-- Once the header is redrawn, Next gives no rendition of an asset other than the chosen one. -/
def GivesChosen (c : PhotoChooseController α π) : Prop :=
  c.selectionDrawn = true → ∀ image ∈ c.btnNextPressed, ∀ chosen ∈ c.chosenPhoto, image.asset = chosen.asset

/-- The photo of the row selected last, and before any selection the first one. -/
def latestSelection (fetched : List (α × Option π)) (events : List (PhotoEvent π)) : Option (UIImage α π) :=
  (loadedPhotos fetched)[(selectedRow events).getD 0]?

/-- The first asset whose thumbnail equals the photo. -/
def firstLike [DecidableEq π] (fetched : List (α × Option π)) (photo : UIImage α π) : Option α :=
  ((loadedPhotos fetched).find? fun thumbnail => thumbnail.data = photo.data).map (·.asset)

/-- The request `n` is that of a redraw of `header` for the selection `asked`. -/
def Sent [DecidableEq π] (fetched : List (α × Option π)) (events : List (PhotoEvent π)) (n : Nat)
    (asked : UIImage α π) (header : Nat) : Prop :=
  ∃ before place after c, events = before ++ .redraw place :: after ∧ run step { fetched } before = some c ∧
    c.requests.length = n ∧ c.chosenPhoto.isSome ∧ latestSelection fetched before = some asked ∧
    header = min place c.headers.length

/-- When an answer to the request `n` comes after `before` into the header that Next reads, and that one was
redrawn for the latest selection, then the first asset whose thumbnail equals the selection at the redraw
that sent the request is the asset of the latest selection. -/
def OnTime [DecidableEq π] (fetched : List (α × Option π)) (before : List (PhotoEvent π)) (n : Nat) : Prop :=
  ∀ c asked header latest, run step { fetched } before = some c → c.selectionDrawn = true → c.header = some header →
    Sent fetched before n asked header → latestSelection fetched before = some latest →
    firstLike fetched asked = some latest.asset

/-- An answer into the header that Next reads, once it is redrawn, is one to a request for the chosen asset. -/
def AnswersChosen (c : PhotoChooseController α π) : PhotoEvent π → Prop
  | .answer n (some _) => c.selectionDrawn = true → ∀ r ∈ c.requests[n]?, c.header = some r.header →
      ∀ chosen ∈ c.chosenPhoto, r.chosenAsset = chosen.asset
  | _ => True

section
variable {fetched : List (α × Option π)} {events : List (PhotoEvent π)} {c t : PhotoChooseController α π}

theorem next_mem {image : UIImage α π} (h : image ∈ c.btnNextPressed) : some image ∈ c.headers := by
  obtain ⟨place, _, found⟩ := Option.bind_eq_some_iff.mp h
  exact List.mem_of_getElem? (Option.join_eq_some_iff.mp found)

theorem step_gives_iff [DecidableEq π] {e : PhotoEvent π} (h : Inv c) (gives : GivesChosen c)
    (stepped : c.step e = some t) : GivesChosen t ↔ AnswersChosen c e := by
  cases e with
  | thumbnail =>
    obtain ⟨headers, header, _, selectionDrawn, chosen⟩ := getPhotos_same stepped
    have next : t.btnNextPressed = c.btnNextPressed := by simp only [btnNextPressed, headers, header]
    refine iff_of_true ?_ trivial
    intro drawn image shown chosen' is_chosen
    rw [selectionDrawn] at drawn
    rw [next] at shown
    rcases chosen with same | ⟨unchosen, _⟩
    · exact gives drawn image shown chosen' (same ▸ is_chosen)
    · have empty := (h.unchosen unchosen).2 _ (next_mem shown)
      cases empty
  | reload =>
    obtain ⟨_, same⟩ := Option.ite_none_left_eq_some.mp stepped
    obtain rfl := Option.some.inj same
    exact iff_of_true gives trivial
  | select row =>
    obtain ⟨photo, _, rfl⟩ := Option.map_eq_some_iff.mp stepped
    exact iff_of_true (fun drawn => Bool.noConfusion drawn) trivial
  | redraw place =>
    obtain ⟨asked, rfl, _⟩ := redraw_ok stepped
    refine iff_of_true ?_ trivial
    intro _ image shown chosen is_chosen
    have shows : image ∈ c.chosenPhoto := dequeue_shows c place ▸ shown
    rw [Option.mem_unique shows is_chosen]
  | answer n photo =>
    obtain ⟨r, asked, rfl⟩ := Option.map_eq_some_iff.mp stepped
    have shows := answer_shows photo (h.targets r (List.mem_of_getElem? asked))
    cases photo with
    | none =>
      refine iff_of_true (fun drawn image shown => ?_) trivial
      rw [shows] at shown
      split at shown
      · cases shown
      · exact gives drawn image shown
    | some data =>
      constructor
      · intro after drawn r' asked' shown chosen is_chosen
        obtain rfl := Option.mem_unique asked asked'
        rw [if_pos shown] at shows
        exact after drawn _ shows chosen is_chosen
      · intro onTime drawn image shown chosen is_chosen
        rw [shows] at shown
        split at shown
        · rename_i into_header
          obtain rfl := Option.some.inj shown
          exact onTime drawn r asked into_header chosen is_chosen
        · exact gives drawn image shown chosen is_chosen

/-! ### The requests that were sent -/

theorem Lists.photos_initial {past : List (α × Option π)} {stage : ThumbnailStage} (h : Lists fetched past c stage) :
    c.photos <+: loadedPhotos fetched := by
  have done : ∀ {first rest : List (α × Option π)}, fetched = first ++ rest → c.photos = loadedPhotos first →
      c.photos <+: loadedPhotos fetched := fun split photos => by
    rw [split, photos]
    unfold loadedPhotos
    rw [List.filterMap_append]
    exact List.prefix_append _ _
  cases h with
  | requested split photos => exact done split photos
  | assetAppended _ _ _ _ split photos => exact done split photos
  | photoAppended asset data rest left split photos =>
    refine @done (past ++ [(asset, some data)]) rest (by simp [split, left]) ?_
    rw [photos, loadedPhotos_concat]
    rfl
  | finished item rest left split photos =>
    exact @done (past ++ [item]) rest (by simp [split, left]) photos

theorem offered_initial (c : PhotoChooseController α π) : offered c <+: c.photos := by
  unfold offered
  split
  · exact List.dropLast_prefix c.photos
  · exact List.prefix_rfl

theorem prefix_found {xs ys : List (UIImage α π)} {i : Nat} {photo : UIImage α π} (h : xs <+: ys)
    (found : xs[i]? = some photo) : ys[i]? = some photo := by
  obtain ⟨more, rfl⟩ := h
  rw [List.getElem?_append_left (List.getElem?_eq_some_iff.mp found).1, found]

/-- The chosen photo is one of the thumbnails, and the latest selection. -/
theorem Enumerated.chosen {photo : UIImage α π} (h : Enumerated fetched events c) (chosen : c.chosenPhoto = some photo) :
    photo ∈ c.photos ∧ latestSelection fetched events = some photo := by
  obtain ⟨past, lists⟩ := h.lists
  have found : c.photos[(selectedRow events).getD 0]? = some photo := by
    cases row : selectedRow events with
    | some row' => exact (h.selected row' row).2.symm.trans chosen
    | none =>
      have first := (h.unselected row).symm.trans chosen
      rw [List.head?_eq_getElem?] at first
      exact prefix_found (offered_initial c) first
  exact ⟨List.mem_of_getElem? found, prefix_found lists.photos_initial found⟩

section
variable [DecidableEq π]

/-- A redraw asks for the first asset whose thumbnail equals the chosen photo. -/
theorem redraw_sends {photo : UIImage α π} {place : Nat} (h : Enumerated fetched events c)
    (chosen : c.chosenPhoto = some photo) (redrawn : c.redraw place = some t) :
    ∃ asset, firstLike fetched photo = some asset ∧
      t.requests = c.requests ++ [⟨asset, min place c.headers.length⟩] := by
  obtain ⟨past, lists⟩ := h.lists
  obtain ⟨more, whole⟩ := lists.photos_initial
  unfold redraw at redrawn
  rw [chosen, Option.bind_some] at redrawn
  dsimp only at redrawn
  split at redrawn
  · rename_i absent
    have different := List.findIdx?_eq_none_iff.mp absent photo (h.chosen chosen).1
    simp at different
  · rename_i index found
    obtain ⟨inside, equal, first⟩ := List.findIdx?_eq_some_iff_getElem.mp found
    obtain ⟨asset, at_index, rfl⟩ := Option.map_eq_some_iff.mp redrawn
    rw [lists.aligned.asset index _ (List.getElem?_eq_getElem inside)] at at_index
    obtain rfl := Option.some.inj at_index
    have like : c.photos.find? (fun thumbnail => thumbnail.data = photo.data) = some c.photos[index] :=
      List.find?_eq_some_iff_getElem.mpr ⟨equal, index, inside, rfl, fun j less => by simpa using first j less⟩
    exact ⟨_, by rw [firstLike, ← whole, List.find?_append, like]; rfl, rfl⟩

theorem sent_snoc {e : PhotoEvent π} {n header : Nat} {asked : UIImage α π} :
    Sent fetched (events ++ [e]) n asked header ↔ Sent fetched events n asked header ∨
      ∃ place c, e = .redraw place ∧ run step { fetched } events = some c ∧ c.requests.length = n ∧
        c.chosenPhoto.isSome ∧ latestSelection fetched events = some asked ∧ header = min place c.headers.length := by
  constructor
  · rintro ⟨before, place, after, c, split, sent⟩
    rcases List.eq_nil_or_concat' after with rfl | ⟨after, last, rfl⟩
    · obtain ⟨rfl, same⟩ := List.append_inj' split rfl
      exact .inr ⟨place, c, List.singleton_inj.mp same, sent⟩
    · rw [← List.cons_append, ← List.append_assoc] at split
      obtain ⟨rfl, _⟩ := List.append_inj' split rfl
      exact .inl ⟨before, place, after, c, rfl, sent⟩
  · rintro (⟨before, place, after, c, rfl, sent⟩ | ⟨place, c, rfl, sent⟩)
    · exact ⟨before, place, after ++ [e], c, by simp, sent⟩
    · exact ⟨events, place, [], c, by simp, sent⟩

/-- The requests are those that were sent, each for the first photo like the selection at its redraw. -/
structure Requested (fetched : List (α × Option π)) (events : List (PhotoEvent π)) (c : PhotoChooseController α π) : Prop where
  reached : run step { fetched } events = some c
  sent : ∀ n r, c.requests[n]? = some r → ∃ asked, Sent fetched events n asked r.header
  asks : ∀ n asked header, Sent fetched events n asked header →
    ∃ r, c.requests[n]? = some r ∧ r.header = header ∧ firstLike fetched asked = some r.chosenAsset

theorem requested_aside {e : PhotoEvent π} (h : Requested fetched events c) (stepped : c.step e = some t)
    (same : t.requests = c.requests) (silent : ∀ place, e = .redraw place → c.chosenPhoto = none) :
    Requested fetched (events ++ [e]) t := by
  have only : ∀ {n asked header}, Sent fetched (events ++ [e]) n asked header ↔ Sent fetched events n asked header := by
    intro n asked header
    rw [sent_snoc, or_iff_left]
    rintro ⟨place, c', redrawn, reached, _, chosen, _⟩
    obtain rfl := Option.some.inj (h.reached.symm.trans reached)
    rw [silent place redrawn] at chosen
    cases chosen
  refine ⟨run_concat_of h.reached stepped, fun n r found => ?_, fun n asked header sent => ?_⟩
  · obtain ⟨asked, sent⟩ := h.sent n r (same ▸ found)
    exact ⟨asked, only.mpr sent⟩
  · rw [same]
    exact h.asks n asked header (only.mp sent)

theorem requested_redraw {photo : UIImage α π} {place : Nat} (h : Requested fetched events c)
    (enumerated : Enumerated fetched events c) (chosen : c.chosenPhoto = some photo)
    (redrawn : c.redraw place = some t) : Requested fetched (events ++ [.redraw place]) t := by
  obtain ⟨asset, like, requests⟩ := redraw_sends enumerated chosen redrawn
  have latest := (enumerated.chosen chosen).2
  refine ⟨run_concat_of h.reached redrawn, fun n r found => ?_, fun n asked header sent => ?_⟩
  · rw [requests] at found
    rcases concat_cases found with ⟨rfl, rfl⟩ | old
    · exact ⟨photo, sent_snoc.mpr (.inr ⟨place, c, rfl, h.reached, rfl, by rw [chosen]; rfl, latest, rfl⟩)⟩
    · obtain ⟨asked, sent⟩ := h.sent n r old
      exact ⟨asked, sent_snoc.mpr (.inl sent)⟩
  · rw [requests]
    rcases sent_snoc.mp sent with old | ⟨place', c', same, reached, rfl, _, is_latest, rfl⟩
    · obtain ⟨r, found, into, asks⟩ := h.asks n asked header old
      exact ⟨r, by rw [List.getElem?_append_left (List.getElem?_eq_some_iff.mp found).1, found], into, asks⟩
    · obtain rfl := Option.some.inj (h.reached.symm.trans reached)
      obtain rfl := PhotoEvent.redraw.inj same
      obtain rfl := Option.some.inj (latest.symm.trans is_latest)
      exact ⟨_, List.getElem?_concat_length, rfl, like⟩

theorem requested_step {e : PhotoEvent π} (h : Requested fetched events c) (enumerated : Enumerated fetched events c)
    (stepped : c.step e = some t) : Requested fetched (events ++ [e]) t := by
  cases e with
  | thumbnail =>
    obtain ⟨_, _, requests, _⟩ := getPhotos_same stepped
    exact requested_aside h stepped requests (by simp)
  | reload =>
    obtain ⟨_, same⟩ := Option.ite_none_left_eq_some.mp stepped
    obtain rfl := Option.some.inj same
    exact requested_aside h stepped rfl (by simp)
  | select row =>
    obtain ⟨photo, _, rfl⟩ := Option.map_eq_some_iff.mp stepped
    exact requested_aside h stepped rfl (by simp)
  | answer n photo =>
    obtain ⟨r, _, rfl⟩ := Option.map_eq_some_iff.mp stepped
    exact requested_aside h stepped rfl (by simp)
  | redraw place =>
    cases chosen : c.chosenPhoto with
    | some photo => exact requested_redraw h enumerated chosen stepped
    | none =>
      obtain ⟨asked, rfl, _, none_asked⟩ := redraw_ok stepped
      exact requested_aside h stepped (by simp [none_asked chosen]) fun _ _ => chosen

/-- What an answer writes, said of the state and said of the events. -/
theorem onTime_iff {n : Nat} {data : π} (h : Requested fetched events c) (enumerated : Enumerated fetched events c)
    (inv : Inv c) : AnswersChosen c (.answer n (some data)) ↔ OnTime fetched events n := by
  constructor
  · intro answers c' asked header latest reached drawn shown sent is_latest
    obtain rfl := Option.some.inj (h.reached.symm.trans reached)
    obtain ⟨r, found, rfl, asks⟩ := h.asks n asked header sent
    cases chosen : c.chosenPhoto with
    | none =>
      rw [(inv.unchosen chosen).1] at found
      cases found
    | some photo =>
      obtain rfl := Option.some.inj ((enumerated.chosen chosen).2.symm.trans is_latest)
      rw [asks, answers drawn r found shown photo chosen]
  · intro onTime drawn r found shown photo chosen
    obtain ⟨asked, sent⟩ := h.sent n r found
    obtain ⟨r', found', _, asks⟩ := h.asks n asked r.header sent
    obtain rfl := Option.some.inj (found.symm.trans found')
    have latest := (enumerated.chosen chosen).2
    exact Option.some.inj (asks.symm.trans (onTime c asked r.header photo h.reached drawn shown sent latest))

theorem run_requested (h : run step { fetched } events = some t) :
    Requested fetched events t ∧ Enumerated fetched events t ∧ Inv t := by
  have fresh : Requested fetched [] ({ fetched } : PhotoChooseController α π) :=
    ⟨rfl, fun n r found => (by cases found), fun n asked header ⟨before, _, _, _, split, _⟩ => (by simp at split)⟩
  have requested : Requested fetched events t := run_history (I := Requested fetched)
    (fun past s e t hs stepped => requested_step hs (run_enumerated hs.reached) stepped) h fresh
  refine ⟨requested, run_enumerated h, run_keeps (fun _ _ _ => step_inv) h ?_⟩
  exact ⟨List.forall_mem_nil _, fun _ => ⟨rfl, List.forall_mem_nil _⟩⟩

end

end

/-- In every run, for any assets, thumbnails, taps, redraws and order of answers: Next always gives the
photo selected last exactly when every answer with a photo is on time. -/
theorem selection_given_iff [DecidableEq π] (fetched : List (α × Option π)) (events : List (PhotoEvent π))
    (t : PhotoChooseController α π) (h : run step { fetched } events = some t) :
    Always step GivesChosen { fetched } events ↔
      ∀ before n data after, events = before ++ .answer n (some data) :: after → OnTime fetched before n := by
  have fresh : Inv ({ fetched } : PhotoChooseController α π) :=
    ⟨List.forall_mem_nil _, fun _ => ⟨rfl, List.forall_mem_nil _⟩⟩
  have gives : GivesChosen ({ fetched } : PhotoChooseController α π) := fun _ _ shown => (by cases shown)
  rw [always_iff_along (fun _ _ _ => step_inv) (fun _ _ _ => step_gives_iff) h fresh gives, along_iff_split h]
  constructor
  · intro answers before n data after split
    obtain ⟨c, reached, _⟩ := run_append_ok (split ▸ h)
    obtain ⟨requested, enumerated, inv⟩ := run_requested reached
    exact (onTime_iff requested enumerated inv).mp (answers before _ after c split reached)
  · intro onTime before e after c split reached
    obtain ⟨requested, enumerated, inv⟩ := run_requested reached
    match e, split with
    | .answer n (some data), split => exact (onTime_iff requested enumerated inv).mpr (onTime before n data after split)
    | .answer _ none, _ | .thumbnail, _ | .reload, _ | .select _, _ | .redraw _, _ => trivial

def twoLoaded : List (PhotoEvent Nat) := List.replicate 8 .thumbnail ++ [.reload, .redraw 0]

/-- The second photo is selected, and the requests answer in their order. -/
def inOrder : List (PhotoEvent Nat) := twoLoaded ++ [.answer 0 (some 11), .select 1, .redraw 0, .answer 1 (some 22)]

theorem selection_given_iff_two : ∃ t : PhotoChooseController String Nat,
    run step { fetched := [("p", some 1), ("q", some 2)] } inOrder = some t ∧
    (Always step GivesChosen { fetched := [("p", some 1), ("q", some 2)] } inOrder ↔
      ∀ before n data after, inOrder = before ++ .answer n (some data) :: after →
        OnTime [("p", some 1), ("q", some 2)] before n) :=
  ⟨_, rfl, selection_given_iff [("p", some 1), ("q", some 2)] inOrder _ rfl⟩

/-- The second photo is selected, and the first one's request answers last. -/
def lateAnswer : List (PhotoEvent Nat) := twoLoaded ++ [.select 1, .redraw 0, .answer 1 (some 22), .answer 0 (some 11)]

theorem earlier_selection_given : ∃ t : PhotoChooseController String Nat,
    run step { fetched := [("p", some 1), ("q", some 2)] } lateAnswer = some t ∧ t.selectionDrawn = true ∧
    t.chosenPhoto = some ⟨"q", 2⟩ ∧ t.btnNextPressed = some ⟨"p", 11⟩ ∧ ¬ GivesChosen t := by
  refine ⟨_, rfl, rfl, rfl, rfl, fun gives => ?_⟩
  exact absurd (gives rfl ⟨"p", 11⟩ rfl ⟨"q", 2⟩ rfl) (by decide)

end Foti.PhotoChooseController
