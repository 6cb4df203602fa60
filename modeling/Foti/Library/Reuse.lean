import Mathlib.Data.List.Induction

/-!
A view that is reused for one item after another. The observer of an item sets some parts of the view, and
may leave a part as an earlier item has set it.
-/

namespace Reuse
variable {ν ι π : Type*} {didSet : ν → ι → ν}

/-- The items are assigned one after the other. -/
def assign (didSet : ν → ι → ν) (view : ν) (items : List ι) : ν := items.foldl didSet view

/-- The observer leaves nothing of what the view was before. -/
def Overwrites (didSet : ν → ι → ν) (item : ι) : Prop := ∀ view view', didSet view item = didSet view' item

/-- Whatever the view was used for before, it shows the item as a fresh one does. -/
def ShowsOnly (didSet : ν → ι → ν) (fresh : ν) (item : ι) : Prop :=
  ∀ earlier, assign didSet fresh (earlier ++ [item]) = assign didSet fresh [item]

theorem assign_concat (view : ν) (items : List ι) (item : ι) :
    assign didSet view (items ++ [item]) = didSet (assign didSet view items) item := by
  rw [assign, List.foldl_append]
  rfl

/-- What one of the items puts there stays when every other one keeps it. -/
theorem assign_keeps {P : ν → Prop} {items : List ι} {item : ι} (view : ν) (member : item ∈ items)
    (puts : ∀ view, P (didSet view item)) (keeps : ∀ view other, P view → P (didSet view other)) :
    P (assign didSet view items) := by
  induction items using List.reverseRecOn with
  | nil => cases member
  | append_singleton items last ih =>
    rw [assign_concat]
    rcases List.mem_append.mp member with earlier | here
    · exact keeps _ _ (ih earlier)
    · obtain rfl := List.mem_singleton.mp here
      exact puts _

theorem Overwrites.showsOnly {item : ι} (h : Overwrites didSet item) (fresh : ν) : ShowsOnly didSet fresh item := by
  intro earlier
  rw [assign_concat]
  exact h _ _

section Part
variable {part : ν → Option π} {sets : ι → Option π}

/-- A part shows the last item that sets it. -/
theorem assign_part (observes : ∀ view item, part (didSet view item) = (sets item).or (part view)) (view : ν)
    (items : List ι) : part (assign didSet view items) = (items.reverse.findSome? sets).or (part view) := by
  induction items using List.reverseRecOn with
  | nil => rfl
  | append_singleton items item ih =>
    rw [assign_concat, observes, ih, List.reverse_append, List.reverse_singleton, List.singleton_append,
      List.findSome?_cons]
    cases sets item <;> rfl

/-- Where the observer sets all of the view but one part, a reused view differs from a fresh one exactly when
the item leaves that part and an earlier one has set it. -/
theorem part_reused_iff (part : ν → Option π) (sets : ι → Option π)
    (observes : ∀ view item, part (didSet view item) = (sets item).or (part view))
    (determined : ∀ view view' item, part (didSet view item) = part (didSet view' item) →
      didSet view item = didSet view' item)
    (fresh : ν) (empty : part fresh = none) (earlier : List ι) (item : ι) :
    assign didSet fresh (earlier ++ [item]) = assign didSet fresh [item] ↔
      (sets item).isSome ∨ ∀ p ∈ earlier, sets p = none := by
  rw [assign_concat]
  show _ = didSet fresh item ↔ _
  have before : part (assign didSet fresh earlier) = earlier.reverse.findSome? sets := by
    rw [assign_part observes, empty, Option.or_none]
  constructor
  · intro same
    have parts := congrArg part same
    rw [observes, observes, before, empty, Option.or_none] at parts
    cases set : sets item with
    | some => exact .inl rfl
    | none =>
      rw [set, Option.none_or, List.findSome?_eq_none_iff] at parts
      exact .inr fun p hp => parts p (List.mem_reverse.mpr hp)
  · intro either
    refine determined _ _ _ ?_
    rw [observes, observes, before, empty]
    rcases either with set | unset
    · obtain ⟨x, found⟩ := Option.isSome_iff_exists.mp set
      rw [found, Option.some_or, Option.some_or]
    · rw [List.findSome?_eq_none_iff.mpr fun p hp => unset p (List.mem_reverse.mp hp)]

end Part
end Reuse
