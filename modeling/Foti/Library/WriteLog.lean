import Mathlib.Data.List.Induction
import Foti.Library.Document

/-!
The log of one-field writes applied to a document. `intended` is what the log says a field holds:
the value of the last write about it. A whole write keeps only its own field, so a document can
fall behind its log; `Erased` says which fields did, and `replays_value_iff` that these are all.
-/

namespace Document
variable {κ ν : Type*} [DecidableEq κ]

/-- A write of one field. `whole` replaces the document; otherwise the write merges. -/
structure Write (κ ν : Type*) where
  whole : Bool
  key : κ
  value : Option ν

def Write.apply (w : Write κ ν) (d : Doc κ ν) : Option (Doc κ ν) :=
  if w.whole then some (setData (field w.key w.value) d) else updateData w.key w.value d

theorem apply_value_same {w : Write κ ν} {d t : Doc κ ν} (h : w.apply d = some t) :
    value t w.key = w.value := by
  unfold Write.apply at h
  split at h
  · obtain rfl := Option.some.inj h
    simp [setData]
  · exact updateData_value_same h

theorem apply_value_other {w : Write κ ν} {d t : Doc κ ν} {key : κ} (h : w.apply d = some t)
    (different : key ≠ w.key) : value t key = if w.whole then none else value d key := by
  unfold Write.apply at h
  split at h
  · rename_i whole
    obtain rfl := Option.some.inj h
    simp [setData, whole, field_lookup_other w.value different]
  · rename_i merging
    rw [if_neg merging]
    exact updateData_value_other h different

/-- `d` results from `start` by the writes of the log, each of which succeeded. -/
inductive Replays (start : Doc κ ν) : List (Write κ ν) → Doc κ ν → Prop where
  | nil : Replays start [] start
  | snoc {log : List (Write κ ν)} {d t : Doc κ ν} {w : Write κ ν} :
      Replays start log d → w.apply d = some t → Replays start (log ++ [w]) t

/-- The value of the last write about `key`, or the starting value if there is none. -/
def intended (start : Doc κ ν) (log : List (Write κ ν)) (key : κ) : Option ν :=
  log.foldl (fun v w => if w.key = key then w.value else v) (value start key)

@[simp] theorem intended_nil (start : Doc κ ν) (key : κ) : intended start [] key = value start key := rfl

@[simp] theorem intended_snoc (start : Doc κ ν) (log : List (Write κ ν)) (w : Write κ ν) (key : κ) :
    intended start (log ++ [w]) key = if w.key = key then w.value else intended start log key := by
  simp [intended]

theorem intended_untouched {start : Doc κ ν} {log : List (Write κ ν)} {key : κ}
    (untouched : ∀ w ∈ log, w.key ≠ key) : intended start log key = value start key := by
  induction log using List.reverseRecOn with
  | nil => rfl
  | append_singleton log w ih =>
    rw [intended_snoc, if_neg (untouched w (by simp))]
    exact ih fun v hv => untouched v (by simp [hv])

theorem intended_last {start : Doc κ ν} {before after : List (Write κ ν)} {w : Write κ ν}
    (last : ∀ v ∈ after, v.key ≠ w.key) :
    intended start (before ++ w :: after) w.key = w.value := by
  induction after using List.reverseRecOn with
  | nil => simp
  | append_singleton after v ih =>
    rw [← List.cons_append, ← List.append_assoc, intended_snoc, if_neg (last v (by simp))]
    exact ih fun u hu => last u (by simp [hu])

theorem exists_last_write {log : List (Write κ ν)} {key : κ} (written : ∃ w ∈ log, w.key = key) :
    ∃ before w after, log = before ++ w :: after ∧ w.key = key ∧ ∀ v ∈ after, v.key ≠ key := by
  induction log using List.reverseRecOn with
  | nil => simp at written
  | append_singleton log w ih =>
    by_cases same : w.key = key
    · exact ⟨log, w, [], rfl, same, by simp⟩
    · obtain ⟨v, hv, sameV⟩ := written
      have earlier : v ∈ log := by
        rcases List.mem_append.mp hv with hv | hv
        · exact hv
        · exact (same (List.mem_singleton.mp hv ▸ sameV)).elim
      obtain ⟨before, u, after, rfl, sameU, last⟩ := ih ⟨v, earlier, sameV⟩
      refine ⟨before, u, after ++ [w], by simp, sameU, ?_⟩
      intro x hx
      rcases List.mem_append.mp hx with hx | hx
      · exact last x hx
      · exact List.mem_singleton.mp hx ▸ same

/-- A whole write about another key came after the last write about `key`, which then had a value. -/
def Erased (start : Doc κ ν) (log : List (Write κ ν)) (key : κ) : Prop :=
  ∃ before w after, log = before ++ w :: after ∧ w.whole = true ∧ w.key ≠ key ∧
    (∀ v ∈ after, v.key ≠ key) ∧ (intended start before key).isSome

theorem not_erased_nil {start : Doc κ ν} {key : κ} : ¬ Erased start [] key := by
  rintro ⟨before, w, after, empty, _⟩
  simp at empty

theorem erased_snoc {start : Doc κ ν} {log : List (Write κ ν)} {w : Write κ ν} {key : κ} :
    Erased start (log ++ [w]) key ↔
      w.key ≠ key ∧ (Erased start log key ∨ w.whole = true ∧ (intended start log key).isSome) := by
  constructor
  · rintro ⟨before, v, after, split, whole, other, last, held⟩
    rcases List.eq_nil_or_concat after with rfl | ⟨after, u, rfl⟩
    · obtain ⟨rfl, same⟩ := List.append_inj' split rfl
      obtain rfl := List.singleton_inj.mp same
      exact ⟨other, .inr ⟨whole, held⟩⟩
    · rw [List.concat_eq_append, ← List.cons_append, ← List.append_assoc] at split
      obtain ⟨rfl, same⟩ := List.append_inj' split rfl
      obtain rfl := List.singleton_inj.mp same
      exact ⟨last w (by simp), .inl ⟨before, v, after, rfl, whole, other,
        fun x hx => last x (by simp [hx]), held⟩⟩
  · rintro ⟨other, ⟨before, v, after, rfl, whole, different, last, held⟩ | ⟨whole, held⟩⟩
    · refine ⟨before, v, after ++ [w], by simp, whole, different, ?_, held⟩
      intro x hx
      rcases List.mem_append.mp hx with hx | hx
      · exact last x hx
      · obtain rfl := List.mem_singleton.mp hx
        exact other
    · exact ⟨log, w, [], rfl, whole, other, by simp, held⟩

theorem erased_intended {start : Doc κ ν} {log : List (Write κ ν)} {key : κ}
    (erased : Erased start log key) : (intended start log key).isSome := by
  induction log using List.reverseRecOn with
  | nil => exact (not_erased_nil erased).elim
  | append_singleton log w ih =>
    obtain ⟨other, erased | ⟨_, held⟩⟩ := erased_snoc.mp erased
    · simpa [other] using ih erased
    · simpa [other] using held

/-- A field holds what the log intends, or it was erased and is gone. -/
theorem replays_value {start d : Doc κ ν} {log : List (Write κ ν)} (h : Replays start log d) (key : κ) :
    (Erased start log key → value d key = none) ∧
    (¬ Erased start log key → value d key = intended start log key) := by
  induction h with
  | nil => exact ⟨fun erased => (not_erased_nil erased).elim, fun _ => rfl⟩
  | @snoc log d t w _ applied ih =>
    rw [erased_snoc, intended_snoc]
    by_cases same : w.key = key
    · subst same
      simp [apply_value_same applied]
    · rw [apply_value_other applied (Ne.symm same), if_neg same]
      cases whole : w.whole with
      | true =>
        refine ⟨fun _ => rfl, fun kept => ?_⟩
        cases held : intended start log key with
        | none => rfl
        | some x => exact (kept ⟨same, .inr ⟨rfl, by rw [held]; rfl⟩⟩).elim
      | false => simpa [same, whole] using ih

/-- A field holds what the log intends exactly when no whole write erased it. -/
theorem replays_value_iff {start d : Doc κ ν} {log : List (Write κ ν)} (h : Replays start log d)
    (key : κ) : value d key = intended start log key ↔ ¬ Erased start log key := by
  constructor
  · intro same erased
    have held := erased_intended erased
    rw [← same, (replays_value h key).1 erased] at held
    cases held
  · exact (replays_value h key).2

theorem replays_mem_iff {start d : Doc κ ν} {log : List (Write κ ν)} (h : Replays start log d)
    (key : κ) : (value d key).isSome = (intended start log key).isSome ↔ ¬ Erased start log key := by
  constructor
  · intro same erased
    rw [(replays_value h key).1 erased, erased_intended erased] at same
    cases same
  · intro kept
    rw [(replays_value h key).2 kept]

end Document
