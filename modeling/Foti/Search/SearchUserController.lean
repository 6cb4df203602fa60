import Foti.Library.Transition
import Foti.Model
import Foti.Register.RegisterController
import Foti.UserProfile.ProfilePosts
import Mathlib.Data.List.Sort

/-!
`SearchUserController`: the users that match the text of the search bar. The text may change before
the users are loaded, and the load shows all of them. `search_sound_iff` says when that is right.
-/

namespace Foti
open Transition ProfilePosts

/-- `loading` is the outstanding `getDocuments` of `getUsers`. -/
structure SearchUserController where
  searchText : String := ""
  users : List User := []
  filteredUsers : List User := []
  loading : Bool := true
  deriving DecidableEq

/-- A load without a snapshot has failed. -/
inductive SearchEvent where
  | textDidChange (searchText : String)
  | getUsers (querySnapshot : Option (List DocumentChange))
  deriving DecidableEq

namespace SearchUserController

section
-- The library's functions on strings; what follows holds for any of them.
variable (lowercased : String → String) (contains : String → String → Bool) (compare : String → String → Ordering)

def filtered (users : List User) (searchText : String) : List User :=
  if searchText.isEmpty then users else users.filter fun user => contains user.userName (lowercased searchText)

def textDidChange (c : SearchUserController) (searchText : String) : SearchUserController :=
  { c with searchText, filteredUsers := filtered lowercased contains c.users searchText }

/-- The users that a snapshot adds, without the signed-in account. -/
def loaded (currentUser : Option String) (querySnapshot : Option (List DocumentChange)) : List User :=
  (((querySnapshot.getD []).filter (·.type = .added)).map fun change => User.init change.data).filter
    fun user => some user.userID ≠ currentUser

/-- Of the two, `k2` does not have to come before `k1`. -/
def InOrder (k1 k2 : User) : Prop := compare k2.userName k1.userName ≠ .lt

instance : DecidableRel (InOrder compare) := fun k1 k2 =>
  inferInstanceAs (Decidable (compare k2.userName k1.userName ≠ .lt))

/-- The completion of `getUsers`. After an error it sorts and shows what there is. -/
def getUsers (c : SearchUserController) (currentUser : Option String)
    (querySnapshot : Option (List DocumentChange)) : SearchUserController :=
  let users := (c.users ++ loaded currentUser querySnapshot).insertionSort (InOrder compare)
  { c with users, filteredUsers := users, loading := false }

def step (currentUser : Option String) (c : SearchUserController) : SearchEvent → Option SearchUserController
  | .textDidChange searchText => some (c.textDidChange lowercased contains searchText)
  | .getUsers querySnapshot => if c.loading then some (c.getUsers compare currentUser querySnapshot) else none

/-- The screen shows the users that match the text; they are sorted, and the account is not among them. -/
structure Sound (currentUser : Option String) (c : SearchUserController) : Prop where
  shown : c.filteredUsers = filtered lowercased contains c.users c.searchText
  sorted : c.users.Pairwise (InOrder compare)
  others : ∀ user ∈ c.users, some user.userID ≠ currentUser

/-- When the users are loaded, the search bar is empty or they all match its text. -/
def AllMatch (currentUser : Option String) (c : SearchUserController) : SearchEvent → Prop
  | .textDidChange _ => True
  | .getUsers querySnapshot => c.searchText.isEmpty ∨ ∀ user ∈ c.users ++ loaded currentUser querySnapshot,
      contains user.userName (lowercased c.searchText)

end

section
variable {lowercased : String → String} {contains : String → String → Bool} {compare : String → String → Ordering}
  {currentUser : Option String} {c t : SearchUserController}

theorem filtered_eq_self_iff {users : List User} {searchText : String} :
    users = filtered lowercased contains users searchText ↔
      searchText.isEmpty ∨ ∀ user ∈ users, contains user.userName (lowercased searchText) := by
  unfold filtered
  split
  · rename_i empty
    exact ⟨fun _ => .inl empty, fun _ => rfl⟩
  · rename_i typed
    rw [eq_comm, List.filter_eq_self]
    exact ⟨.inr, fun either => either.resolve_left typed⟩

theorem loaded_others (querySnapshot : Option (List DocumentChange)) :
    ∀ user ∈ loaded currentUser querySnapshot, some user.userID ≠ currentUser := by
  intro user huser
  simpa using (List.mem_filter.mp huser).2

theorem inOrder_iff [Std.TransCmp compare] {k1 k2 : User} :
    InOrder compare k1 k2 ↔ (compare k1.userName k2.userName).isLE := by
  have swapped : compare k1.userName k2.userName = (compare k2.userName k1.userName).swap := Std.OrientedCmp.eq_swap
  rw [InOrder, swapped]
  cases compare k2.userName k1.userName <;> simp

instance [Std.TransCmp compare] : Std.Total (InOrder compare) := by
  refine ⟨fun k1 k2 => ?_⟩
  have swapped : compare k1.userName k2.userName = (compare k2.userName k1.userName).swap := Std.OrientedCmp.eq_swap
  rw [inOrder_iff, inOrder_iff, swapped]
  cases compare k2.userName k1.userName <;> simp

instance [Std.TransCmp compare] : IsTrans User (InOrder compare) := by
  refine ⟨fun k1 k2 k3 first second => ?_⟩
  rw [inOrder_iff] at first second ⊢
  exact Std.TransCmp.isLE_trans first second

theorem getUsers_users (compare : String → String → Ordering) [Std.TransCmp compare] (querySnapshot : Option (List DocumentChange))
    (others : ∀ user ∈ c.users, some user.userID ≠ currentUser) :
    (c.getUsers compare currentUser querySnapshot).users.Pairwise (InOrder compare) ∧
      ∀ user ∈ (c.getUsers compare currentUser querySnapshot).users, some user.userID ≠ currentUser := by
  refine ⟨List.pairwise_insertionSort (InOrder compare) _, fun user huser => ?_⟩
  rcases List.mem_append.mp ((List.mem_insertionSort (InOrder compare)).mp huser) with old | new
  · exact others user old
  · exact loaded_others querySnapshot user new

theorem getUsers_shown (querySnapshot : Option (List DocumentChange)) :
    (c.getUsers compare currentUser querySnapshot).filteredUsers =
        filtered lowercased contains (c.getUsers compare currentUser querySnapshot).users c.searchText ↔
      AllMatch lowercased contains currentUser c (.getUsers querySnapshot) := by
  refine filtered_eq_self_iff.trans (or_congr .rfl ?_)
  exact forall_congr' fun user => imp_congr (List.mem_insertionSort (InOrder compare)) .rfl

theorem step_sound_iff [Std.TransCmp compare] {e : SearchEvent} (sound : Sound lowercased contains compare currentUser c)
    (stepped : c.step lowercased contains compare currentUser e = some t) :
    Sound lowercased contains compare currentUser t ↔ AllMatch lowercased contains currentUser c e := by
  cases e with
  | textDidChange searchText =>
    obtain rfl := Option.some.inj stepped
    exact ⟨fun _ => trivial, fun _ => ⟨rfl, sound.sorted, sound.others⟩⟩
  | getUsers querySnapshot =>
    obtain ⟨_, same⟩ := Option.ite_none_right_eq_some.mp stepped
    obtain rfl := Option.some.inj same
    obtain ⟨sorted, others⟩ := getUsers_users compare querySnapshot sound.others
    exact ⟨fun after => (getUsers_shown querySnapshot).mp after.shown,
      fun meets => ⟨(getUsers_shown querySnapshot).mpr meets, sorted, others⟩⟩

end

/-- In every run from a fresh screen, with any string functions and any order of the text changes and
the load: all states reached are sound exactly when the text is empty or matches every user at the load. -/
theorem search_sound_iff (lowercased : String → String) (contains : String → String → Bool)
    (compare : String → String → Ordering) [Std.TransCmp compare] (currentUser : Option String)
    (events : List SearchEvent) (t : SearchUserController)
    (h : run (step lowercased contains compare currentUser) {} events = some t) :
    Always (step lowercased contains compare currentUser) (Sound lowercased contains compare currentUser) {} events ↔
      Along (step lowercased contains compare currentUser) (AllMatch lowercased contains currentUser) {} events := by
  have fresh : Sound lowercased contains compare currentUser {} :=
    ⟨rfl, List.Pairwise.nil, fun _ huser => (List.not_mem_nil huser).elim⟩
  exact always_iff_along (I := fun _ => True) (fun _ _ _ _ _ => trivial)
    (fun _ _ _ _ sound stepped => step_sound_iff sound stepped) h trivial fresh

/-- On ASCII text. -/
def asciiLowercased (s : String) : String := String.ofList (s.toList.map Char.toLower)

def asciiContains (s other : String) : Bool := s.toList.tails.any fun rest => other.toList.isPrefixOf rest

def signedUp (userName : String) : DocumentChange :=
  ⟨.added, userName, SignUpAttempt.addData userName userName (some "url")⟩

def loadedFirst : List SearchEvent := [.getUsers (some [signedUp "carol", signedUp "alice", signedUp "bob"]), .textDidChange "B"]

theorem search_sound_iff_loadedFirst :
    ∃ t, run (step asciiLowercased asciiContains compare (some "alice")) {} loadedFirst = some t ∧
      (Always (step asciiLowercased asciiContains compare (some "alice"))
          (Sound asciiLowercased asciiContains compare (some "alice")) {} loadedFirst ↔
        Along (step asciiLowercased asciiContains compare (some "alice"))
          (AllMatch asciiLowercased asciiContains (some "alice")) {} loadedFirst) :=
  ⟨_, rfl, search_sound_iff asciiLowercased asciiContains compare (some "alice") loadedFirst _ rfl⟩

def typedFirst : List SearchEvent := [.textDidChange "b", .getUsers (some [signedUp "carol", signedUp "alice", signedUp "bob"])]

theorem typed_text_ignored :
    ∃ t, run (step asciiLowercased asciiContains compare (some "alice")) {} typedFirst = some t ∧
      t.searchText = "b" ∧ t.filteredUsers.map (·.userName) = ["bob", "carol"] ∧
      (filtered asciiLowercased asciiContains t.users t.searchText).map (·.userName) = ["bob"] ∧
      ¬ Sound asciiLowercased asciiContains compare (some "alice") t := by
  refine ⟨_, rfl, rfl, by decide +kernel, by decide +kernel, fun sound => ?_⟩
  exact absurd (congrArg (List.map (·.userName)) sound.shown) (by decide +kernel)

end SearchUserController
end Foti
