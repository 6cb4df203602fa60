import Foti.Library.Document

/-! Field values, and the casts `data[key] as? T` with which the program reads a document's data. -/

namespace Foti
open Document

/-- Microseconds since 1970, the precision that the store keeps. -/
abbrev Timestamp := Int

/-- A double is carried as its bit pattern; no modelled function computes with one. -/
inductive Value where
  | string (s : String)
  | int (n : Int)
  | double (bits : UInt64)
  | timestamp (t : Timestamp)
  deriving DecidableEq, Repr

/-- `[String : Any]` -/
abbrev Dict := Fields String Value

def asString : Option Value → Option String
  | some (.string s) => some s
  | _ => none

def asInt : Option Value → Option Int
  | some (.int n) => some n
  | _ => none

def asDouble : Option Value → Option UInt64
  | some (.double x) => some x
  | _ => none

def asTimestamp : Option Value → Option Timestamp
  | some (.timestamp t) => some t
  | _ => none

@[simp] theorem asString_string (s : String) : asString (some (.string s)) = some s := rfl

@[simp] theorem asTimestamp_timestamp (t : Timestamp) : asTimestamp (some (.timestamp t)) = some t := rfl

/-- A dictionary literal; a Swift literal has distinct keys. -/
def dict (entries : List (String × Value)) : Dict :=
  entries.foldr (fun e fields => fields.insert e.1 e.2) ∅

theorem dict_lookup_head (key : String) (v : Value) (rest : List (String × Value)) :
    (dict ((key, v) :: rest)).lookup key = some v := by
  simp [dict]

theorem dict_lookup_tail {key other : String} (v : Value) (rest : List (String × Value))
    (different : key ≠ other) : (dict ((other, v) :: rest)).lookup key = (dict rest).lookup key := by
  simp [dict, AList.lookup_insert_ne different]

theorem dict_lookup_mem {entries : List (String × Value)} {key : String} {v : Value}
    (found : (dict entries).lookup key = some v) : (key, v) ∈ entries := by
  induction entries with
  | nil => cases found
  | cons entry rest ih =>
    obtain ⟨other, w⟩ := entry
    by_cases same : key = other
    · subst same
      obtain rfl := Option.some.inj ((dict_lookup_head key w rest).symm.trans found)
      exact List.mem_cons_self
    · exact List.mem_cons_of_mem _ (ih ((dict_lookup_tail w rest same).symm.trans found))

end Foti
