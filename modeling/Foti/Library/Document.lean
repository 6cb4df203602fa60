import Mathlib.Data.List.AList

/-!
Documents of a store: a partial map from field names to values, or nothing when the document does
not exist. A whole write replaces the document; a merging write changes one field of a document
that exists and fails on one that does not.
-/

namespace Document
variable {κ ν : Type*}

abbrev Fields (κ ν : Type*) := AList fun _ : κ => ν

/-- `none` is a document that does not exist. -/
abbrev Doc (κ ν : Type*) := Option (Fields κ ν)

variable [DecidableEq κ]

/-- The value of a field; a missing document has no field. -/
def value (d : Doc κ ν) (key : κ) : Option ν := d.bind fun fields => fields.lookup key

def setData (fields : Fields κ ν) (_ : Doc κ ν) : Doc κ ν := some fields

/-- A merging write of one field; `none` deletes the field. -/
def updateData (key : κ) (v : Option ν) : Doc κ ν → Option (Doc κ ν)
  | none => none
  | some fields => some (some (match v with
      | some x => fields.insert key x
      | none => fields.erase key))

/-- The document of one field, or of none. -/
def field (key : κ) (v : Option ν) : Fields κ ν :=
  match v with
  | some x => AList.singleton key x
  | none => ∅

@[simp] theorem value_none (key : κ) : value (none : Doc κ ν) key = none := rfl

@[simp] theorem value_some (fields : Fields κ ν) (key : κ) :
    value (some fields) key = fields.lookup key := rfl

@[simp] theorem field_lookup_same (key : κ) (v : Option ν) : (field key v).lookup key = v := by
  cases v with
  | none => simp [field]
  | some x => exact AList.lookup_insert ∅

theorem field_lookup_other {key other : κ} (v : Option ν) (different : other ≠ key) :
    (field key v).lookup other = none := by
  cases v with
  | none => simp [field]
  | some x => exact AList.lookup_insert_ne (s := ∅) different

theorem updateData_value_same {key : κ} {v : Option ν} {d t : Doc κ ν}
    (h : updateData key v d = some t) : value t key = v := by
  cases d with
  | none => cases h
  | some fields =>
    obtain rfl := Option.some.inj h
    cases v <;> simp

theorem updateData_value_other {key other : κ} {v : Option ν} {d t : Doc κ ν}
    (h : updateData key v d = some t) (different : other ≠ key) :
    value t other = value d other := by
  cases d with
  | none => cases h
  | some fields =>
    obtain rfl := Option.some.inj h
    cases v with
    | none => simp [AList.lookup_erase_ne different]
    | some x => simp [AList.lookup_insert_ne different]

theorem updateData_exists {key : κ} {v : Option ν} {d t : Doc κ ν}
    (h : updateData key v d = some t) : d.isSome ∧ t.isSome := by
  cases d with
  | none => cases h
  | some fields =>
    obtain rfl := Option.some.inj h
    exact ⟨rfl, rfl⟩

theorem updateData_of_exists {d : Doc κ ν} (present : d.isSome) (key : κ) (v : Option ν) :
    ∃ t, updateData key v d = some t := by
  cases d with
  | none => cases present
  | some fields => exact ⟨_, rfl⟩

end Document
