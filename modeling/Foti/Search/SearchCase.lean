import Foti.Search.SearchUserController

/-!
The search and the case of letters. `textDidChange` lowers the text of the search bar and not the names, which
sign-up stores as they were typed.
-/

namespace Foti.SearchUserController

section
variable (lowercased : String → String) (contains : String → String → Bool)

/-- Some part of the name is `searchText` up to case. -/
def ContainsIgnoringCase (userName searchText : String) : Prop :=
  ∃ part, contains userName part ∧ lowercased part = lowercased searchText

/-- That part can be chosen without capitals. -/
def ContainsWithoutCapitals (userName searchText : String) : Prop :=
  ∃ part, contains userName part ∧ lowercased part = lowercased searchText ∧ lowercased part = part

open scoped Classical in
/-- The search of `searchText` ignores case and finds every user by any part of the name. -/
structure IgnoresCase (c : SearchUserController) (searchText : String) : Prop where
  exact_list : (c.textDidChange lowercased contains searchText).filteredUsers =
    c.users.filter fun user => searchText.isEmpty ∨ ContainsIgnoringCase lowercased contains user.userName searchText
  as_written : ∀ user ∈ c.users, contains user.userName searchText →
    user ∈ (c.textDidChange lowercased contains searchText).filteredUsers

/-- Each user to be found has an occurrence of the text without capitals. -/
def NoCapitals (c : SearchUserController) (searchText : String) : Prop :=
  searchText.isEmpty ∨ ∀ user ∈ c.users, ContainsIgnoringCase lowercased contains user.userName searchText →
    ContainsWithoutCapitals lowercased contains user.userName searchText

end

section
variable {lowercased : String → String} {contains : String → String → Bool} {c : SearchUserController}
  {userName searchText : String}

theorem containsWithoutCapitals_iff (idem : ∀ s, lowercased (lowercased s) = lowercased s) :
    ContainsWithoutCapitals lowercased contains userName searchText ↔ contains userName (lowercased searchText) := by
  constructor
  · rintro ⟨part, found, same, lower⟩
    have part_eq : part = lowercased searchText := lower.symm.trans same
    exact part_eq ▸ found
  · intro found
    exact ⟨lowercased searchText, found, idem searchText, idem searchText⟩

theorem ContainsWithoutCapitals.ignoring (h : ContainsWithoutCapitals lowercased contains userName searchText) :
    ContainsIgnoringCase lowercased contains userName searchText := by
  obtain ⟨part, found, same, _⟩ := h
  exact ⟨part, found, same⟩

theorem filtered_of_isEmpty (empty : searchText.isEmpty) :
    (c.textDidChange lowercased contains searchText).filteredUsers = c.users :=
  if_pos empty

theorem mem_filtered_iff (idem : ∀ s, lowercased (lowercased s) = lowercased s) (typed : ¬ searchText.isEmpty)
    {user : User} :
    user ∈ (c.textDidChange lowercased contains searchText).filteredUsers ↔
      user ∈ c.users ∧ ContainsWithoutCapitals lowercased contains user.userName searchText := by
  have shown : (c.textDidChange lowercased contains searchText).filteredUsers =
      c.users.filter fun user => contains user.userName (lowercased searchText) := if_neg typed
  rw [shown, List.mem_filter, containsWithoutCapitals_iff idem]

end

/-- For any library functions on strings, any loaded users and any text. -/
theorem search_ignores_case_iff (lowercased : String → String) (contains : String → String → Bool)
    (idem : ∀ s, lowercased (lowercased s) = lowercased s) (c : SearchUserController) (searchText : String) :
    IgnoresCase lowercased contains c searchText ↔ NoCapitals lowercased contains c searchText := by
  classical
  by_cases empty : searchText.isEmpty
  · refine iff_of_true ⟨?_, fun user huser _ => ?_⟩ (.inl empty)
    · rw [filtered_of_isEmpty empty]
      exact (List.filter_eq_self.mpr fun _ _ => decide_eq_true (.inl empty)).symm
    · rw [filtered_of_isEmpty empty]
      exact huser
  · constructor
    · intro finds
      refine .inr fun user huser found => ?_
      have listed : user ∈ (c.textDidChange lowercased contains searchText).filteredUsers := by
        rw [finds.exact_list]
        exact List.mem_filter.mpr ⟨huser, decide_eq_true (.inr found)⟩
      exact ((mem_filtered_iff idem empty).mp listed).2
    · intro meets
      have none_missed := meets.resolve_left empty
      constructor
      case exact_list =>
        refine (if_neg empty).trans (List.filter_congr fun user huser => ?_)
        rw [Bool.eq_iff_iff, ← containsWithoutCapitals_iff idem, decide_eq_true_iff]
        exact ⟨fun found => .inr found.ignoring, fun either => none_missed user huser (either.resolve_left empty)⟩
      case as_written =>
        intro user huser found
        exact (mem_filtered_iff idem empty).mpr ⟨huser, none_missed user huser ⟨searchText, found, rfl⟩⟩

theorem toLower_idem (ch : Char) : ch.toLower.toLower = ch.toLower := by
  unfold Char.toLower
  split
  · rename_i upper
    refine dif_neg fun both => ?_
    have first : 65 ≤ ch.val.toNat := UInt32.le_iff_toNat_le.mp upper.1
    have last : ch.val.toNat ≤ 90 := UInt32.le_iff_toNat_le.mp upper.2
    have lowered : (ch.val.toNat + 32) % 2 ^ 32 ≤ 90 := UInt32.le_iff_toNat_le.mp both.2
    omega
  · rfl

theorem asciiLowercased_idem (s : String) : asciiLowercased (asciiLowercased s) = asciiLowercased s := by
  unfold asciiLowercased
  rw [String.toList_ofList, List.map_map]
  exact congrArg String.ofList (List.map_congr_left fun ch _ => toLower_idem ch)

def oneLoaded (userName : String) : SearchUserController :=
  { users := loaded none (some [signedUp userName]), loading := false }

theorem search_ignores_case_iff_bob :
    IgnoresCase asciiLowercased asciiContains (oneLoaded "bob") "B" ↔
      NoCapitals asciiLowercased asciiContains (oneLoaded "bob") "B" :=
  search_ignores_case_iff asciiLowercased asciiContains asciiLowercased_idem (oneLoaded "bob") "B"

/-- Typing the whole name does not find it. -/
theorem capital_not_found :
    (oneLoaded "Alice").users.map (·.userName) = ["Alice"] ∧
      ((oneLoaded "Alice").textDidChange asciiLowercased asciiContains "Alice").filteredUsers = [] ∧
      ¬ IgnoresCase asciiLowercased asciiContains (oneLoaded "Alice") "Alice" := by
  refine ⟨rfl, by decide +kernel, fun finds => ?_⟩
  have listed := finds.as_written _ List.mem_cons_self (by decide +kernel)
  exact absurd listed (by decide +kernel)

end Foti.SearchUserController
