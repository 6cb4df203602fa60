import Foti.AddPhoto.PhotoChooseController

/-!
The two lists that `getPhotos` grows beside the main queue. Between its two appends there is one asset
more than photos, and never the other way round.
-/

namespace Foti.PhotoChooseController
open Entries Transition
variable {α π : Type*}

/-- The photos that the requests yield, in fetch order. -/
def loadedPhotos (fetched : List (α × Option π)) : List (UIImage α π) :=
  fetched.filterMap fun item => item.2.map (⟨item.1, ·⟩)

/-- Every photo has its asset at its place. -/
structure Aligned (c : PhotoChooseController α π) : Prop where
  longer : c.photos.length ≤ c.assets.length
  asset : ∀ (i : Nat) (photo : UIImage α π), c.photos[i]? = some photo → c.assets[i]? = some photo.asset

/-- The row that the user selected last. -/
def selectedRow (events : List (PhotoEvent π)) : Option Nat :=
  (events.filterMap fun
    | .select row => some row
    | _ => none).getLast?

def reloads (events : List (PhotoEvent π)) : Nat :=
  (events.filter fun
    | .reload => true
    | _ => false).length

/-- The photos whose callback has come to its choice of `chosenPhoto`. -/
def offered (c : PhotoChooseController α π) : List (UIImage α π) :=
  if c.stage = .photoAppended then c.photos.dropLast else c.photos

/-- The lists while `fetched` is enumerated: `past` is done, and the stage says how far the next item is. -/
inductive Lists (fetched past : List (α × Option π)) (c : PhotoChooseController α π) : ThumbnailStage → Prop where
  | requested (split : fetched = past ++ c.fetched) (photos : c.photos = loadedPhotos past)
      (assets : c.assets = c.photos.map (·.asset)) : Lists fetched past c .requested
  | assetAppended (asset : α) (data : π) (rest : List (α × Option π)) (left : c.fetched = (asset, some data) :: rest)
      (split : fetched = past ++ c.fetched) (photos : c.photos = loadedPhotos past)
      (assets : c.assets = c.photos.map (·.asset) ++ [asset]) : Lists fetched past c .assetAppended
  | photoAppended (asset : α) (data : π) (rest : List (α × Option π)) (left : c.fetched = (asset, some data) :: rest)
      (split : fetched = past ++ c.fetched) (photos : c.photos = loadedPhotos past ++ [⟨asset, data⟩])
      (assets : c.assets = c.photos.map (·.asset)) : Lists fetched past c .photoAppended
  | finished (item : α × Option π) (rest : List (α × Option π)) (left : c.fetched = item :: rest)
      (split : fetched = past ++ c.fetched) (photos : c.photos = loadedPhotos (past ++ [item]))
      (assets : c.assets = c.photos.map (·.asset)) : Lists fetched past c .finished

section
variable {fetched past : List (α × Option π)} {c t : PhotoChooseController α π} {stage : ThumbnailStage}

theorem loadedPhotos_concat (past : List (α × Option π)) (item : α × Option π) :
    loadedPhotos (past ++ [item]) = loadedPhotos past ++ (item.2.map (⟨item.1, ·⟩)).toList := by
  unfold loadedPhotos
  rw [List.filterMap_append, List.filterMap_cons]
  cases item.2 <;> rfl

theorem Lists.assets_eq (h : Lists fetched past c stage) : ∃ more, c.assets = c.photos.map (·.asset) ++ more := by
  cases h with
  | assetAppended asset _ _ _ _ _ assets => exact ⟨[asset], assets⟩
  | requested _ _ assets => exact ⟨[], by rw [assets, List.append_nil]⟩
  | photoAppended _ _ _ _ _ _ assets => exact ⟨[], by rw [assets, List.append_nil]⟩
  | finished _ _ _ _ _ assets => exact ⟨[], by rw [assets, List.append_nil]⟩

theorem Lists.split (h : Lists fetched past c stage) : fetched = past ++ c.fetched := by
  cases h with
  | requested split => exact split
  | assetAppended _ _ _ _ split => exact split
  | photoAppended _ _ _ _ split => exact split
  | finished _ _ _ split => exact split

theorem Lists.ended (h : Lists fetched past c stage) (ended : c.fetched = []) :
    stage = .requested ∧ c.photos = loadedPhotos fetched ∧ c.assets = c.photos.map (·.asset) := by
  cases h with
  | requested split photos assets =>
    rw [ended, List.append_nil] at split
    rw [split]
    exact ⟨rfl, photos, assets⟩
  | assetAppended _ _ _ left => cases ended.symm.trans left
  | photoAppended _ _ _ left => cases ended.symm.trans left
  | finished _ _ left => cases ended.symm.trans left

theorem Lists.aligned (h : Lists fetched past c stage) : Aligned c := by
  obtain ⟨more, assets⟩ := h.assets_eq
  constructor
  case longer =>
    rw [assets, List.length_append, List.length_map]
    exact Nat.le_add_right _ _
  case asset =>
    intro i photo found
    have inside : i < (c.photos.map (·.asset)).length := by
      rw [List.length_map]
      exact (List.getElem?_eq_some_iff.mp found).1
    rw [assets, List.getElem?_append_left inside, List.getElem?_map, found]
    rfl

/-- The index that the header finds is in range. -/
theorem Aligned.redraw_isSome [DecidableEq π] (h : Aligned c) (place : Nat) : (c.redraw place).isSome := by
  unfold redraw
  dsimp only
  split
  · rfl
  · rename_i index found
    obtain ⟨chosenPhoto, _, found⟩ := Option.bind_eq_some_iff.mp found
    obtain ⟨inside, _⟩ := List.findIdx?_eq_some_iff_getElem.mp found
    rw [Option.isSome_map, h.asset index _ (List.getElem?_eq_getElem inside)]
    rfl

/-! ### The enumeration -/

/-- The steps of `getPhotos` on an item. -/
inductive Thumbnail (c : PhotoChooseController α π) : PhotoChooseController α π → Prop where
  | skip {asset : α} {rest : List (α × Option π)} (left : c.fetched = (asset, none) :: rest)
      (stage : c.stage = .requested) : Thumbnail c { c with stage := .finished }
  | appendAsset {asset : α} {data : π} {rest : List (α × Option π)} (left : c.fetched = (asset, some data) :: rest)
      (stage : c.stage = .requested) : Thumbnail c { c with assets := c.assets ++ [asset], stage := .assetAppended }
  | appendPhoto {asset : α} {data : π} {rest : List (α × Option π)} (left : c.fetched = (asset, some data) :: rest)
      (stage : c.stage = .assetAppended) :
      Thumbnail c { c with photos := c.photos ++ [⟨asset, data⟩], stage := .photoAppended }
  | choose {asset : α} {data : π} {rest : List (α × Option π)} (left : c.fetched = (asset, some data) :: rest)
      (stage : c.stage = .photoAppended) :
      Thumbnail c { c with chosenPhoto := c.chosenPhoto.or (some ⟨asset, data⟩), stage := .finished }
  | finish {item : α × Option π} {rest : List (α × Option π)} (left : c.fetched = item :: rest)
      (stage : c.stage = .finished) : Thumbnail c { c with
        fetched := rest
        stage := .requested
        scheduledReloads := if rest.isEmpty then c.scheduledReloads + 1 else c.scheduledReloads }

theorem getPhotos_ok (h : c.getPhotos = some t) : Thumbnail c t := by
  unfold getPhotos at h
  split at h
  · rename_i asset data rest left stage
    obtain rfl := Option.some.inj h
    exact .appendAsset left stage
  · rename_i asset rest left stage
    obtain rfl := Option.some.inj h
    exact .skip left stage
  · rename_i asset data rest left stage
    obtain rfl := Option.some.inj h
    exact .appendPhoto left stage
  · rename_i asset data rest left stage
    obtain rfl := Option.some.inj h
    exact .choose left stage
  · rename_i item rest left stage
    obtain rfl := Option.some.inj h
    exact .finish left stage
  · cases h

theorem Lists.moves (h : Lists fetched past c c.stage) (left : c.fetched ≠ []) : c.getPhotos.isSome := by
  unfold getPhotos
  generalize c.stage = stage at h
  cases h with
  | requested =>
    cases items : c.fetched with
    | nil => exact (left items).elim
    | cons item rest =>
      obtain ⟨asset, image⟩ := item
      cases image <;> rfl
  | assetAppended asset data rest items =>
    rw [items]
    rfl
  | photoAppended asset data rest items =>
    rw [items]
    rfl
  | finished item rest items =>
    obtain ⟨asset, image⟩ := item
    rw [items]
    cases image <;> rfl

theorem lists_step (h : Lists fetched past c c.stage) (moved : Thumbnail c t) :
    ∃ past, Lists fetched past t t.stage := by
  cases moved with
  | @skip asset rest left stage =>
    rw [stage] at h
    cases h with
    | requested split photos assets =>
      refine ⟨past, .finished (asset, none) rest left split ?_ assets⟩
      rw [loadedPhotos_concat]
      exact photos.trans (List.append_nil _).symm
  | @appendAsset asset data rest left stage =>
    rw [stage] at h
    cases h with
    | requested split photos assets =>
      exact ⟨past, .assetAppended asset data rest left split photos (congrArg (· ++ [asset]) assets)⟩
  | @appendPhoto asset data rest left stage =>
    rw [stage] at h
    cases h with
    | assetAppended asset' data' rest' left' split photos assets =>
      obtain ⟨same, _⟩ := List.cons.inj (left.symm.trans left')
      obtain ⟨rfl, _⟩ := Prod.mk.inj same
      refine ⟨past, .photoAppended asset data rest left split (congrArg (· ++ [⟨asset, data⟩]) photos) ?_⟩
      rw [List.map_append]
      exact assets
  | @choose asset data rest left stage =>
    rw [stage] at h
    cases h with
    | photoAppended asset' data' rest' left' split photos assets =>
      obtain ⟨same, _⟩ := List.cons.inj (left.symm.trans left')
      obtain ⟨rfl, image⟩ := Prod.mk.inj same
      obtain rfl := Option.some.inj image
      refine ⟨past, .finished (asset, some data) rest left split ?_ assets⟩
      rw [loadedPhotos_concat]
      exact photos
  | @finish item rest left stage =>
    rw [stage] at h
    cases h with
    | finished item' rest' left' split photos assets =>
      obtain ⟨rfl, rfl⟩ := List.cons.inj (left.symm.trans left')
      refine ⟨past ++ [item], .requested ?_ photos assets⟩
      rw [split, left, List.append_assoc]
      rfl

/-- A bound on the steps that are left. -/
def stepsLeft (c : PhotoChooseController α π) : Nat :=
  4 * c.fetched.length - match c.stage with
    | .requested => 0
    | .assetAppended => 1
    | .photoAppended => 2
    | .finished => 3

theorem Thumbnail.fewer (moved : Thumbnail c t) : stepsLeft t < stepsLeft c := by
  cases moved with
  | skip left stage =>
    simp only [stepsLeft, stage, left, List.length_cons]
    omega
  | appendAsset left stage =>
    simp only [stepsLeft, stage, left, List.length_cons]
    omega
  | appendPhoto left stage =>
    simp only [stepsLeft, stage, left, List.length_cons]
    omega
  | choose left stage =>
    simp only [stepsLeft, stage, left, List.length_cons]
    omega
  | finish left stage =>
    simp only [stepsLeft, stage, left, List.length_cons]
    omega

/-- Left to itself, the enumeration comes to its end. -/
theorem Lists.ends [DecidableEq π] (h : Lists fetched past c c.stage) :
    ∃ n t, run step c (List.replicate n .thumbnail) = some t ∧ t.fetched = [] := by
  induction left : stepsLeft c using Nat.strongRecOn generalizing c past with
  | _ k ih =>
    by_cases ended : c.fetched = []
    · exact ⟨0, c, rfl, ended⟩
    · obtain ⟨m, first⟩ := Option.isSome_iff_exists.mp (h.moves ended)
      have moved := getPhotos_ok first
      obtain ⟨past, lists⟩ := lists_step h moved
      obtain ⟨n, t, later, done⟩ := ih (stepsLeft m) (left ▸ moved.fewer) lists rfl
      exact ⟨n + 1, t, run_cons_of first later, done⟩

/-! ### Beside the main queue -/

theorem Lists.same (h : Lists fetched past c stage) (left : t.fetched = c.fetched) (photos : t.photos = c.photos)
    (assets : t.assets = c.assets) : Lists fetched past t stage := by
  cases h with
  | requested split loaded made => exact .requested (left ▸ split) (photos.trans loaded) (assets.trans (photos ▸ made))
  | assetAppended asset data rest items split loaded made =>
    exact .assetAppended asset data rest (left.trans items) (left ▸ split) (photos.trans loaded)
      (assets.trans (photos ▸ made))
  | photoAppended asset data rest items split loaded made =>
    exact .photoAppended asset data rest (left.trans items) (left ▸ split) (photos.trans loaded)
      (assets.trans (photos ▸ made))
  | finished item rest items split loaded made =>
    exact .finished item rest (left.trans items) (left ▸ split) (photos.trans loaded) (assets.trans (photos ▸ made))

theorem selectedRow_concat (events : List (PhotoEvent π)) (e : PhotoEvent π) :
    selectedRow (events ++ [e]) = match e with
      | .select row => some row
      | _ => selectedRow events := by
  unfold selectedRow
  rw [List.filterMap_append]
  cases e with
  | select row => exact List.getLast?_concat
  | thumbnail => exact congrArg List.getLast? (List.append_nil _)
  | reload => exact congrArg List.getLast? (List.append_nil _)
  | redraw _ => exact congrArg List.getLast? (List.append_nil _)
  | answer _ _ => exact congrArg List.getLast? (List.append_nil _)

theorem reloads_concat (events : List (PhotoEvent π)) (e : PhotoEvent π) :
    reloads (events ++ [e]) = match e with
      | .reload => reloads events + 1
      | _ => reloads events := by
  unfold reloads
  rw [List.filter_append, List.length_append]
  cases e <;> rfl

/-- A run so far: `events` led to `c`. -/
structure Enumerated (fetched : List (α × Option π)) (events : List (PhotoEvent π)) (c : PhotoChooseController α π) :
    Prop where
  lists : ∃ past, Lists fetched past c c.stage
  selected : ∀ row, selectedRow events = some row → row < c.photos.length ∧ c.chosenPhoto = c.photos[row]?
  unselected : selectedRow events = none → c.chosenPhoto = (offered c).head?
  reload_once : c.scheduledReloads + reloads events = if fetched ≠ [] ∧ c.fetched = [] then 1 else 0

theorem offered_eq (h : c.stage ≠ .photoAppended) : offered c = c.photos :=
  if_neg h

theorem Thumbnail.photos_grow (moved : Thumbnail c t) : ∃ more, t.photos = c.photos ++ more := by
  cases moved with
  | appendPhoto => exact ⟨_, rfl⟩
  | skip => exact ⟨[], (List.append_nil _).symm⟩
  | appendAsset => exact ⟨[], (List.append_nil _).symm⟩
  | choose => exact ⟨[], (List.append_nil _).symm⟩
  | finish => exact ⟨[], (List.append_nil _).symm⟩

theorem Thumbnail.keeps_chosen {photo : UIImage α π} (moved : Thumbnail c t) (chosen : c.chosenPhoto = some photo) :
    t.chosenPhoto = some photo := by
  cases moved with
  | choose =>
    show c.chosenPhoto.or _ = some photo
    rw [chosen]
    rfl
  | skip => exact chosen
  | appendAsset => exact chosen
  | appendPhoto => exact chosen
  | finish => exact chosen

theorem Thumbnail.offers (moved : Thumbnail c t) (lists : Lists fetched past c c.stage)
    (chosen : c.chosenPhoto = (offered c).head?) : t.chosenPhoto = (offered t).head? := by
  cases moved with
  | skip _ stage =>
    rw [offered_eq (by rw [stage]; decide)] at chosen
    exact chosen
  | appendAsset _ stage =>
    rw [offered_eq (by rw [stage]; decide)] at chosen
    exact chosen
  | @appendPhoto asset data _ _ stage =>
    rw [offered_eq (by rw [stage]; decide)] at chosen
    show c.chosenPhoto = (c.photos ++ [UIImage.mk asset data]).dropLast.head?
    rw [List.dropLast_concat]
    exact chosen
  | @choose asset data rest left stage =>
    rw [offered, if_pos stage] at chosen
    rw [stage] at lists
    show c.chosenPhoto.or (some ⟨asset, data⟩) = c.photos.head?
    cases lists with
    | photoAppended asset' data' rest' left' _ photos =>
      obtain ⟨same, _⟩ := List.cons.inj (left.symm.trans left')
      obtain ⟨rfl, image⟩ := Prod.mk.inj same
      obtain rfl := Option.some.inj image
      rw [chosen, photos, List.dropLast_concat, List.head?_append]
      rfl
  | finish _ stage =>
    rw [offered_eq (by rw [stage]; decide)] at chosen
    exact chosen

/-- The reload is scheduled by the step that leaves nothing to enumerate. -/
theorem Thumbnail.schedules (moved : Thumbnail c t) :
    c.fetched ≠ [] ∧ t.scheduledReloads = if t.fetched = [] then c.scheduledReloads + 1 else c.scheduledReloads := by
  have more {item : α × Option π} {rest : List (α × Option π)} (left : c.fetched = item :: rest) :
      c.fetched ≠ [] := by
    rw [left]
    exact List.cons_ne_nil item rest
  cases moved with
  | skip left => exact ⟨more left, (if_neg (more left)).symm⟩
  | appendAsset left => exact ⟨more left, (if_neg (more left)).symm⟩
  | appendPhoto left => exact ⟨more left, (if_neg (more left)).symm⟩
  | choose left => exact ⟨more left, (if_neg (more left)).symm⟩
  | @finish item rest left =>
    refine ⟨more left, ?_⟩
    cases rest <;> rfl

theorem enumerated_thumbnail {events : List (PhotoEvent π)} (h : Enumerated fetched events c)
    (moved : Thumbnail c t) : Enumerated fetched (events ++ [.thumbnail]) t := by
  obtain ⟨past, lists⟩ := h.lists
  obtain ⟨more, photos⟩ := moved.photos_grow
  have selected := selectedRow_concat events .thumbnail
  constructor
  case lists => exact lists_step lists moved
  case selected =>
    intro row at_row
    obtain ⟨inside, chosen⟩ := h.selected row (selected.symm.trans at_row)
    have inside' : row < t.photos.length := by
      rw [photos, List.length_append]
      omega
    refine ⟨inside', ?_⟩
    rw [photos, List.getElem?_append_left inside]
    rw [List.getElem?_eq_getElem inside] at chosen ⊢
    exact moved.keeps_chosen chosen
  case unselected =>
    intro none_selected
    exact moved.offers lists (h.unselected (selected.symm.trans none_selected))
  case reload_once =>
    obtain ⟨left, scheduled⟩ := moved.schedules
    have before := h.reload_once
    rw [if_neg fun both : _ ∧ _ => left both.2] at before
    have nonempty : fetched ≠ [] := by
      rw [lists.split]
      exact List.append_ne_nil_of_right_ne_nil _ left
    have count : reloads (events ++ [.thumbnail]) = reloads events := reloads_concat events .thumbnail
    rw [scheduled, count]
    by_cases ended : t.fetched = []
    · rw [if_pos ended, if_pos (And.intro nonempty ended)]
      omega
    · rw [if_neg ended, if_neg fun both : _ ∧ _ => ended both.2]
      exact before

/-- A step on the main queue that neither selects nor reloads. -/
theorem enumerated_aside {events : List (PhotoEvent π)} {e : PhotoEvent π} (h : Enumerated fetched events c)
    (left : t.fetched = c.fetched) (stage : t.stage = c.stage) (photos : t.photos = c.photos)
    (assets : t.assets = c.assets) (chosen : t.chosenPhoto = c.chosenPhoto)
    (scheduled : t.scheduledReloads = c.scheduledReloads)
    (selected : selectedRow (events ++ [e]) = selectedRow events) (count : reloads (events ++ [e]) = reloads events) :
    Enumerated fetched (events ++ [e]) t := by
  have same : offered t = offered c := by
    unfold offered
    rw [stage, photos]
  constructor
  case lists =>
    obtain ⟨past, lists⟩ := h.lists
    exact ⟨past, stage.symm ▸ lists.same left photos assets⟩
  case selected =>
    rw [selected, photos, chosen]
    exact h.selected
  case unselected =>
    rw [selected, chosen, same]
    exact h.unselected
  case reload_once =>
    rw [count, scheduled, left]
    exact h.reload_once

theorem enumerated_step [DecidableEq π] {events : List (PhotoEvent π)} {e : PhotoEvent π}
    (h : Enumerated fetched events c) (stepped : c.step e = some t) : Enumerated fetched (events ++ [e]) t := by
  cases e with
  | thumbnail => exact enumerated_thumbnail h (getPhotos_ok stepped)
  | redraw place =>
    obtain ⟨asked, rfl, _⟩ := redraw_ok stepped
    exact enumerated_aside h rfl rfl rfl rfl rfl rfl (selectedRow_concat _ _) (reloads_concat _ _)
  | answer n photo =>
    obtain ⟨r, _, rfl⟩ := Option.map_eq_some_iff.mp stepped
    exact enumerated_aside h rfl rfl rfl rfl rfl rfl (selectedRow_concat _ _) (reloads_concat _ _)
  | select row =>
    obtain ⟨photo, found, rfl⟩ := Option.map_eq_some_iff.mp stepped
    have selected : selectedRow (events ++ [.select row]) = some row := selectedRow_concat _ _
    have count : reloads (events ++ [.select row]) = reloads events := reloads_concat _ _
    constructor
    case lists =>
      obtain ⟨past, lists⟩ := h.lists
      exact ⟨past, lists.same rfl rfl rfl⟩
    case selected =>
      intro row' at_row
      obtain rfl := Option.some.inj (selected.symm.trans at_row)
      exact ⟨(List.getElem?_eq_some_iff.mp found).1, found.symm⟩
    case unselected =>
      intro none_selected
      cases selected.symm.trans none_selected
    case reload_once =>
      rw [count]
      exact h.reload_once
  | reload =>
    obtain ⟨pending, same⟩ := Option.ite_none_left_eq_some.mp stepped
    obtain rfl := Option.some.inj same
    have selected : selectedRow (events ++ [.reload]) = selectedRow events := selectedRow_concat _ _
    have count : reloads (events ++ [.reload]) = reloads events + 1 := reloads_concat _ _
    constructor
    case lists =>
      obtain ⟨past, lists⟩ := h.lists
      exact ⟨past, lists.same rfl rfl rfl⟩
    case selected =>
      rw [selected]
      exact h.selected
    case unselected =>
      rw [selected]
      exact h.unselected
    case reload_once =>
      rw [← h.reload_once, count]
      show c.scheduledReloads - 1 + _ = _
      omega

theorem run_enumerated [DecidableEq π] {events : List (PhotoEvent π)} (h : run step { fetched } events = some t) :
    Enumerated fetched events t := by
  have fresh : Enumerated fetched [] ({ fetched } : PhotoChooseController α π) := by
    refine ⟨⟨[], .requested rfl rfl rfl⟩, fun _ at_row => (by cases at_row), fun _ => rfl, ?_⟩
    exact (if_neg fun both => both.1 both.2).symm
  exact run_history (fun _ _ _ _ => enumerated_step) h fresh

end

/-- At every point of every run, for any fetch result and any requests without an image. The test and the
assignment of `chosenPhoto` can be one step: with one photo loaded, only that photo can be selected between them. -/
theorem thumbnails_aligned [DecidableEq π] (fetched : List (α × Option π)) (events : List (PhotoEvent π))
    (t : PhotoChooseController α π) (h : run step { fetched } events = some t) :
    Aligned t ∧ (∀ place, (t.redraw place).isSome) ∧
      t.scheduledReloads + reloads events = (if fetched ≠ [] ∧ t.fetched = [] then 1 else 0) ∧
      (∃ n ended, run step t (List.replicate n .thumbnail) = some ended ∧ ended.fetched = []) ∧
      (t.fetched = [] → t.photos = loadedPhotos fetched ∧ t.assets = (loadedPhotos fetched).map (·.asset) ∧
        t.chosenPhoto = (loadedPhotos fetched)[(selectedRow events).getD 0]?) := by
  have reached := run_enumerated h
  obtain ⟨past, lists⟩ := reached.lists
  have aligned := lists.aligned
  refine ⟨aligned, aligned.redraw_isSome, reached.reload_once, lists.ends, fun ended => ?_⟩
  obtain ⟨stage, photos, assets⟩ := lists.ended ended
  refine ⟨photos, photos ▸ assets, ?_⟩
  rw [← photos]
  cases row : selectedRow events with
  | none =>
    have chosen := reached.unselected row
    rw [offered_eq (by rw [stage]; decide), List.head?_eq_getElem?] at chosen
    exact chosen
  | some row' => exact (reached.selected row' row).2

def secondSelected : List (PhotoEvent Nat) :=
  List.replicate 10 .thumbnail ++ [.reload, .redraw 0, .select 1, .redraw 0]

/-- The second request has no image, and the user takes the last photo. -/
theorem thumbnails_aligned_second_row : ∃ t : PhotoChooseController String Nat,
    run step { fetched := [("p", some 1), ("x", none), ("q", some 2)] } secondSelected = some t ∧ t.fetched = [] ∧
    t.chosenPhoto = some ⟨"q", 2⟩ ∧ Aligned t :=
  ⟨_, rfl, rfl, rfl, (thumbnails_aligned [("p", some 1), ("x", none), ("q", some 2)] secondSelected _ rfl).1⟩

end Foti.PhotoChooseController
