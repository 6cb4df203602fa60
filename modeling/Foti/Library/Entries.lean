import Mathlib.Algebra.GroupWithZero.Nat
import Mathlib.Data.List.Basic
import Mathlib.Data.List.Perm.Basic
import Mathlib.Data.List.Perm.Subperm

/-! Lists and maps whose entries are set, erased or added one at a time. -/

namespace Entries
variable {α β : Type*} {xs : List α} {n : Nat} {x y : α}

theorem forall_mem_set {P : α → Prop} (h : ∀ x ∈ xs, P x) (new : P y) : ∀ x ∈ xs.set n y, P x := by
  intro x hx
  obtain old | same := List.mem_or_eq_of_mem_set hx
  · exact h x old
  · exact same ▸ new

theorem forall_mem_concat {P : α → Prop} (h : ∀ x ∈ xs, P x) (new : P y) : ∀ x ∈ xs ++ [y], P x :=
  List.forall_mem_append.mpr ⟨h, List.forall_mem_singleton.mpr new⟩

theorem forall_mem_eraseIdx {P : α → Prop} (h : ∀ x ∈ xs, P x) : ∀ x ∈ xs.eraseIdx n, P x :=
  fun x hx => h x (List.mem_of_mem_eraseIdx hx)

theorem getElem?_set_of (found : xs[n]? = some x) (m : Nat) : (xs.set n y)[m]? = if m = n then some y else xs[m]? := by
  have inside := (List.getElem?_eq_some_iff.mp found).1
  by_cases same : m = n
  · subst same
    rw [List.getElem?_set_self inside, if_pos rfl]
  · rw [List.getElem?_set_ne (Ne.symm same), if_neg same]

theorem getElem?_concat (xs : List α) (y : α) (m : Nat) :
    (xs ++ [y])[m]? = if m = xs.length then some y else xs[m]? := by
  by_cases last : m = xs.length
  · rw [last, List.getElem?_concat_length, if_pos rfl]
  · rw [if_neg last, List.getElem?_append]
    split
    · rfl
    · rw [List.getElem?_eq_none (by simp; omega), List.getElem?_eq_none (by omega)]

theorem set_cases {m : Nat} (found : (xs.set n y)[m]? = some x) : m = n ∧ x = y ∨ m ≠ n ∧ xs[m]? = some x := by
  rw [List.getElem?_set] at found
  split at found
  · rename_i same
    obtain ⟨_, new⟩ := Option.ite_none_right_eq_some.mp found
    exact .inl ⟨same.symm, (Option.some.inj new).symm⟩
  · rename_i other
    exact .inr ⟨Ne.symm other, found⟩

theorem concat_cases {m : Nat} (found : (xs ++ [y])[m]? = some x) : m = xs.length ∧ x = y ∨ xs[m]? = some x := by
  rw [getElem?_concat] at found
  split at found
  · rename_i last
    exact .inl ⟨last, (Option.some.inj found).symm⟩
  · exact .inr found

theorem update_cases [DecidableEq α] {f : α → Option β} {i j : α} {a b : β}
    (found : Function.update f i (some a) j = some b) : j = i ∧ b = a ∨ j ≠ i ∧ f j = some b := by
  by_cases same : j = i
  · subst same
    rw [Function.update_self] at found
    exact .inl ⟨rfl, (Option.some.inj found).symm⟩
  · rw [Function.update_of_ne same] at found
    exact .inr ⟨same, found⟩

theorem eq_or_mem_eraseIdx (found : xs[n]? = some x) (hy : y ∈ xs) : y = x ∨ y ∈ xs.eraseIdx n := by
  obtain ⟨inside, rfl⟩ := List.getElem?_eq_some_iff.mp found
  have perm := List.getElem_cons_eraseIdx_perm inside
  exact List.mem_cons.mp (perm.mem_iff.mpr hy)

theorem eq_or_mem_set (z : α) (found : xs[n]? = some x) (hy : y ∈ xs) : y = x ∨ y ∈ xs.set n z := by
  obtain ⟨i, hi⟩ := List.mem_iff_getElem?.mp hy
  by_cases same : n = i
  · subst same
    exact .inl (Option.some.inj (hi.symm.trans found))
  · have kept : (xs.set n z)[i]? = some y := by rw [List.getElem?_set_ne same, hi]
    exact .inr (List.mem_of_getElem? kept)

theorem map_set_same {f : α → β} (found : xs[n]? = some x) (same : f y = f x) : (xs.set n y).map f = xs.map f := by
  induction xs generalizing n with
  | nil => rfl
  | cons z rest ih =>
    cases n with
    | zero =>
      obtain rfl := Option.some.inj found
      rw [List.set_cons_zero, List.map_cons, List.map_cons, same]
    | succ n => rw [List.set_cons_succ, List.map_cons, List.map_cons, ih found]

/-- One entry changes, and what all entries give grows by what that one gives more. -/
theorem flatMap_set_perm {f : α → List β} {added : List β} (found : xs[n]? = some x) (grows : (f y).Perm (added ++ f x)) :
    ((xs.set n y).flatMap f).Perm (added ++ xs.flatMap f) := by
  induction xs generalizing n with
  | nil => cases found
  | cons z rest ih =>
    cases n with
    | zero =>
      obtain rfl := Option.some.inj found
      simp only [List.set_cons_zero, List.flatMap_cons, ← List.append_assoc]
      exact grows.append_right _
    | succ n =>
      simp only [List.set_cons_succ, List.flatMap_cons]
      exact ((ih found).append_left (f z)).trans (List.perm_append_comm_assoc _ _ _)

theorem flatMap_set_same {f : α → List β} (found : xs[n]? = some x) (same : (f y).Perm (f x)) :
    ((xs.set n y).flatMap f).Perm (xs.flatMap f) := by
  rw [← List.nil_append (xs.flatMap f)]
  exact flatMap_set_perm found same

theorem sum_set {f : α → Nat} (found : xs[n]? = some x) (y : α) :
    ((xs.set n y).map f).sum + f x = (xs.map f).sum + f y := by
  obtain ⟨inside, rfl⟩ := List.getElem?_eq_some_iff.mp found
  have old := ((List.getElem_cons_eraseIdx_perm inside).map f).sum_nat
  have new := ((List.set_perm_cons_eraseIdx inside y).map f).sum_nat
  rw [List.map_cons, List.sum_cons] at old new
  omega

theorem sum_set_lt {f : α → Nat} (found : xs[n]? = some x) (lower : f y < f x) :
    ((xs.set n y).map f).sum < (xs.map f).sum := by
  have sums := sum_set (f := f) found y
  omega

theorem sum_eraseIdx {f : α → Nat} (found : xs[n]? = some x) : ((xs.eraseIdx n).map f).sum + f x = (xs.map f).sum := by
  obtain ⟨inside, rfl⟩ := List.getElem?_eq_some_iff.mp found
  have old := ((List.getElem_cons_eraseIdx_perm inside).map f).sum_nat
  rw [List.map_cons, List.sum_cons] at old
  omega

theorem sum_drop {f : α → Nat} (found : xs[n]? = some x) : ((xs.drop (n + 1)).map f).sum + f x ≤ (xs.map f).sum := by
  obtain ⟨inside, rfl⟩ := List.getElem?_eq_some_iff.mp found
  have parts := congrArg (fun ys => (List.map f ys).sum) (List.take_append_drop n xs)
  simp only [List.drop_eq_getElem_cons inside, List.map_append, List.map_cons, List.sum_append, List.sum_cons] at parts
  omega

theorem subperm_map (f : α → β) {ys : List α} (h : xs.Subperm ys) : (xs.map f).Subperm (ys.map f) := by
  obtain ⟨zs, same, within⟩ := h
  exact ⟨zs.map f, same.map f, within.map f⟩

theorem getLast?_of_drop (h : (xs.drop n).getLast? = some x) : xs.getLast? = some x := by
  rw [List.getLast?_drop] at h
  split at h
  · cases h
  · exact h

theorem getLast?_of_drop_nil (found : xs[n]? = some x) (last : xs.drop (n + 1) = []) : xs.getLast? = some x := by
  have inside := (List.getElem?_eq_some_iff.mp found).1
  have short := List.drop_eq_nil_iff.mp last
  have place : xs.length - 1 = n := by omega
  rw [List.getLast?_eq_getElem?, place, found]

/-! ### Lists in which only the last entry may be busy -/

def OnlyLast (busy : α → Prop) (xs : List α) : Prop := ∀ n x, xs[n]? = some x → busy x → n + 1 = xs.length

section
variable {busy : α → Prop}

theorem OnlyLast.concat (idle : ∀ x ∈ xs, ¬ busy x) : OnlyLast busy (xs ++ [y]) := by
  intro m x found busy_x
  rcases concat_cases found with ⟨rfl, _⟩ | old
  · simp
  · exact (idle x (List.mem_of_getElem? old) busy_x).elim

theorem OnlyLast.set (h : OnlyLast busy xs) (found : xs[n]? = some x) (still : busy y → busy x) :
    OnlyLast busy (xs.set n y) := by
  intro m z hz busy_z
  rw [List.length_set]
  rcases set_cases hz with ⟨rfl, rfl⟩ | ⟨_, hz⟩
  · exact h m x found (still busy_z)
  · exact h m z hz busy_z

theorem OnlyLast.others (h : OnlyLast busy xs) (found : xs[n]? = some x) (busy_x : busy x) :
    ∀ z ∈ xs.set n y, z = y ∨ ¬ busy z := by
  intro z hz
  obtain ⟨m, hm⟩ := List.mem_iff_getElem?.mp hz
  rcases set_cases hm with ⟨_, rfl⟩ | ⟨other, old⟩
  · exact .inl rfl
  · refine .inr fun busy_z => other ?_
    have last := h n x found busy_x
    have also_last := h m z old busy_z
    omega

theorem OnlyLast.unique (h : OnlyLast busy xs) (hx : x ∈ xs) (hy : y ∈ xs) (busy_x : busy x) (busy_y : busy y) :
    x = y := by
  obtain ⟨m, hm⟩ := List.mem_iff_getElem?.mp hx
  obtain ⟨n, hn⟩ := List.mem_iff_getElem?.mp hy
  have last := h m x hm busy_x
  have also_last := h n y hn busy_y
  obtain rfl : m = n := by omega
  exact Option.some.inj (hm.symm.trans hn)

theorem OnlyLast.countP_le [DecidablePred busy] (h : OnlyLast busy xs) : xs.countP busy ≤ 1 := by
  rcases List.eq_nil_or_concat' xs with rfl | ⟨before, last, rfl⟩
  · exact Nat.zero_le 1
  · have idle : before.countP busy = 0 := by
      refine List.countP_eq_zero.mpr fun x hx busy_x => ?_
      obtain ⟨n, found⟩ := List.mem_iff_getElem?.mp hx
      have inside := (List.getElem?_eq_some_iff.mp found).1
      have place := h n x (by rw [List.getElem?_append_left inside, found]) (by simpa using busy_x)
      rw [List.length_append, List.length_singleton] at place
      omega
    rw [List.countP_append, idle, Nat.zero_add]
    exact List.countP_le_length

end

end Entries
