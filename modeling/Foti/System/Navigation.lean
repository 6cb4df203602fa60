import Foti.Search.SearchUserController
import Foti.System.References

/-!
The app as its screens open one another. The comments of a post are opened from a feed, the profile of
another user from a row of the search, and the screens of the tabs by somebody who is signed in.
-/

namespace Foti

/-- A search screen of a client. -/
structure SearchTab where
  client : Nat
  controller : SearchUserController

/-- A profile that was opened from a row of the search: its client, its place there, the user of the row. -/
structure Selected where
  client : Nat
  place : Nat
  user : User

structure Navigation where
  system : System := {}
  searches : List SearchTab := []
  selected : List Selected := []

namespace Navigation

/-- `program` stands for all that opens no screen from another one. -/
inductive Event where
  | program (e : System.Event)
  | pressedComment (i j row : Nat)
  | search (i : Nat)
  | textDidChange (n : Nat) (searchText : String)
  | getUsers (n : Nat) (documentIDs : Option (List String))
  | didSelectItemAt (n row : Nat)

def currentUser (s : System) (i : Nat) : Option String := s.clients[i]?.bind (·.currentUser)

/-- The post of a cell, which the feed draws again whenever it changes. -/
def post (s : System) (i j row : Nat) : Option Post := do
  let c ← s.clients[i]?
  let screen ← c.screens[j]?
  (References.feed screen)[row]?

/-- An answer of `getDocuments` has documents of the collection `Users`, each once. From the cache, which
answers without an error when the server cannot be reached, some may be missing. -/
def Answer (fs : Firestore) (documentIDs : List String) : Prop :=
  documentIDs.Nodup ∧ ∀ uid ∈ documentIDs, (fs.users uid).isSome

instance (fs : Firestore) (documentIDs : List String) : Decidable (Answer fs documentIDs) := by
  unfold Answer; infer_instance

def snapshot (fs : Firestore) (documentIDs : List String) : List ProfilePosts.DocumentChange :=
  documentIDs.filterMap fun uid => (fs.users uid).map (⟨.added, uid, ·⟩)

/-- The tabs are there for who is signed in, and `document()` gives a document a non-empty ID. -/
def direct (s : System) : System.Event → Bool
  | .open _ (.comments _) | .open _ (.profile (some _)) => false
  | .open i .main | .open i (.profile none) => (currentUser s i).isSome
  | .screen _ _ (.share (.saved _ documentID true)) | .screen _ _ (.comments (.write _ documentID true)) =>
      documentID ≠ ""
  | _ => true

section
-- The library's functions on strings, as in the search.
variable (lowercased : String → String) (contains : String → String → Bool) (compare : String → String → Ordering)

def step (s : Navigation) : Event → Option Navigation
  | .program e =>
      if direct s.system e then (s.system.step e).map fun system => { s with system } else none
  | .pressedComment i j row => do
      let post ← post s.system i j row
      let system ← s.system.step (.open i (.comments (some post)))
      return { s with system }
  | .search i =>
      if (currentUser s.system i).isSome then some { s with searches := s.searches ++ [⟨i, {}⟩] } else none
  | .textDidChange n searchText => do
      let tab ← s.searches[n]?
      let controller := tab.controller.textDidChange lowercased contains searchText
      return { s with searches := s.searches.set n { tab with controller } }
  | .getUsers n listed => do
      let tab ← s.searches[n]?
      if tab.controller.loading ∧ ∀ ids ∈ listed, Answer s.system.fs ids then
        let controller := tab.controller.getUsers compare (currentUser s.system tab.client)
          (listed.map (snapshot s.system.fs))
        some { s with searches := s.searches.set n { tab with controller } }
      else none
  | .didSelectItemAt n row => do
      let tab ← s.searches[n]?
      let user ← tab.controller.filteredUsers[row]?
      let c ← s.system.clients[tab.client]?
      let system ← s.system.step (.open tab.client (.profile (some user.userID)))
      return { s with system, selected := ⟨tab.client, c.screens.length, user⟩ :: s.selected }

/-- The outcomes of `step`, one constructor for each branch. -/
inductive Stepped (s : Navigation) : Event → Navigation → Prop where
  | program {e : System.Event} {system : System} (direct : direct s.system e) (stepped : s.system.step e = some system) :
      Stepped s (.program e) { s with system }
  | pressedComment {i j row : Nat} {p : Post} {system : System} (drawn : post s.system i j row = some p)
      (stepped : s.system.step (.open i (.comments (some p))) = some system) :
      Stepped s (.pressedComment i j row) { s with system }
  | search {i : Nat} : Stepped s (.search i) { s with searches := s.searches ++ [⟨i, {}⟩] }
  | textDidChange {n : Nat} {searchText : String} {tab : SearchTab} (found : s.searches[n]? = some tab) :
      Stepped s (.textDidChange n searchText) { s with searches := s.searches.set n { tab with
        controller := tab.controller.textDidChange lowercased contains searchText } }
  | getUsers {n : Nat} {listed : Option (List String)} {tab : SearchTab} (found : s.searches[n]? = some tab)
      (loading : tab.controller.loading = true) (answers : ∀ ids ∈ listed, Answer s.system.fs ids) :
      Stepped s (.getUsers n listed) { s with searches := s.searches.set n { tab with
        controller := tab.controller.getUsers compare (currentUser s.system tab.client)
          (listed.map (snapshot s.system.fs)) } }
  | didSelectItemAt {n row : Nat} {tab : SearchTab} {user : User} {c : Client} {system : System}
      (found : s.searches[n]? = some tab) (shown : tab.controller.filteredUsers[row]? = some user)
      (client : s.system.clients[tab.client]? = some c)
      (stepped : s.system.step (.open tab.client (.profile (some user.userID))) = some system) :
      Stepped s (.didSelectItemAt n row)
        { s with system, selected := ⟨tab.client, c.screens.length, user⟩ :: s.selected }

variable {lowercased contains compare}

theorem step_ok {s t : Navigation} {e : Event} (h : s.step lowercased contains compare e = some t) :
    Stepped lowercased contains compare s e t := by
  cases e with
  | program e =>
    obtain ⟨direct, h⟩ := Option.ite_none_right_eq_some.mp h
    obtain ⟨system, stepped, rfl⟩ := Option.map_eq_some_iff.mp h
    exact .program direct stepped
  | pressedComment i j row =>
    obtain ⟨p, drawn, h⟩ := Option.bind_eq_some_iff.mp h
    obtain ⟨system, stepped, same⟩ := Option.bind_eq_some_iff.mp h
    obtain rfl := Option.some.inj same
    exact .pressedComment drawn stepped
  | search i =>
    obtain ⟨_, same⟩ := Option.ite_none_right_eq_some.mp h
    obtain rfl := Option.some.inj same
    exact .search
  | textDidChange n searchText =>
    obtain ⟨tab, found, same⟩ := Option.bind_eq_some_iff.mp h
    obtain rfl := Option.some.inj same
    exact .textDidChange found
  | getUsers n listed =>
    obtain ⟨tab, found, h⟩ := Option.bind_eq_some_iff.mp h
    obtain ⟨⟨loading, answers⟩, same⟩ := Option.ite_none_right_eq_some.mp h
    obtain rfl := Option.some.inj same
    exact .getUsers found loading answers
  | didSelectItemAt n row =>
    obtain ⟨tab, found, h⟩ := Option.bind_eq_some_iff.mp h
    obtain ⟨user, shown, h⟩ := Option.bind_eq_some_iff.mp h
    obtain ⟨c, client, h⟩ := Option.bind_eq_some_iff.mp h
    obtain ⟨system, stepped, same⟩ := Option.bind_eq_some_iff.mp h
    obtain rfl := Option.some.inj same
    exact .didSelectItemAt found shown client stepped

end

end Navigation
end Foti
