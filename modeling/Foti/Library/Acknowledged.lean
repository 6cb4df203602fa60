import Mathlib.Data.List.Basic

/-!
The writes of one writer to one value, each acknowledged in the order in which they were applied. What
the writer shows follows the acknowledgements, and it is the stored value when none is missing.
-/

namespace Acknowledged
variable {ν : Type*}

/-- The writes applied to `first`, oldest first: those acknowledged, and those that are not yet. -/
structure Writes (ν : Type*) where
  first : ν
  acknowledged : List ν
  pending : List ν

namespace Writes

def shown (w : Writes ν) : ν := w.acknowledged.getLast?.getD w.first

def stored (w : Writes ν) : ν := (w.acknowledged ++ w.pending).getLast?.getD w.first

def apply (w : Writes ν) (v : ν) : Writes ν := { w with pending := w.pending ++ [v] }

def acknowledge (w : Writes ν) (v : ν) (rest : List ν) : Writes ν :=
  { w with acknowledged := w.acknowledged ++ [v], pending := rest }

@[simp] theorem shown_apply (w : Writes ν) (v : ν) : (w.apply v).shown = w.shown := rfl

@[simp] theorem stored_apply (w : Writes ν) (v : ν) : (w.apply v).stored = v := by
  simp [stored, apply, ← List.append_assoc]

@[simp] theorem shown_acknowledge (w : Writes ν) (v : ν) (rest : List ν) : (w.acknowledge v rest).shown = v := by
  simp [shown, acknowledge]

theorem stored_acknowledge {w : Writes ν} {v : ν} {rest : List ν} (oldest : w.pending = v :: rest) :
    (w.acknowledge v rest).stored = w.stored := by
  simp [stored, acknowledge, oldest]

theorem stored_of_settled {w : Writes ν} (settled : w.pending = []) : w.stored = w.shown := by
  rw [stored, settled, List.append_nil, shown]

end Writes
end Acknowledged
