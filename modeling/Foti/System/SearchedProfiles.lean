import Foti.System.NavigationSafety
import Foti.System.SelfFollow

/-!
From the search to a profile. A search lists the users of the store, and the profile that its row opens is
about that user and nobody else: what it shows, and whom its button follows.
-/

namespace Foti.Navigation
open Attribution Entries Listening ScreenRuns SearchUserController Transition

/-! ### A profile that was opened for a user -/

/-- `answered` says that the reads of the profile's user succeed. -/
structure ProfileOf (answered : Prop) (user : User) (p : UserProfileController) : Prop where
  shown : p.validUser = none ∨ p.validUser = some user
  waits : ∀ uID, p.userLookup = some uID → uID = user.userID
  found : answered → p.userLookup = none → p.validUser = some user
  posts : ∀ q ∈ p.posts, q.user = user
  headers : ∀ header ∈ p.headers, ∀ u, header.validUser = some u → u = user
  taps : ∀ tap ∈ p.followTaps, tap.call.key = user.userID

/-- The read of a profile's user does not fail. -/
def Answers : Screen → ScreenEvent → Prop
  | .profile _, .profile (.userLookup ok) => ok = true
  | _, _ => True

def ShowsUser (answered : Prop) (user : User) (fs : Firestore) : Screen → Prop
  | .profile p => StoredUser fs user ∧ ProfileOf answered user p
  | _ => False

section
variable {fs : Firestore} {currentUser : Option String} {answered : Prop} {user : User} {p p' : UserProfileController}

theorem userFound_of (stored : StoredUser fs user) (h : ProfileOf answered user p) :
    ProfileOf answered user ({ p with userLookup := none }.userFound (fs.users user.userID) fs) := by
  obtain ⟨data, listed, rfl⟩ := stored
  simp only [UserProfileController.userFound, listed, UserProfileController.getPostFS]
  split <;> exact { h with shown := .inr rfl, waits := fun _ same => (by cases same), found := fun _ _ => rfl }

theorem postsAdded_of (h : ProfileOf answered user p) (changes : List (String × Dict)) (now : Timestamp) :
    ProfileOf answered user (p.postsAdded changes now) := by
  unfold UserProfileController.postsAdded
  split
  · exact { h with }
  · rename_i u shown
    have own : u = user := by simpa [shown] using h.shown
    refine { h with posts := fun q hq => ?_ }
    rw [ProfilePosts.getPostFS_eq] at hq
    rcases List.mem_append.mp (List.mem_reverse.mp hq) with old | new
    · exact h.posts q old
    · obtain ⟨change, _, rfl⟩ := List.mem_map.mp new
      exact own

theorem configure_of (h : ProfileOf answered user p) (place : Nat) :
    ProfileOf answered user (p.configure place currentUser) := by
  obtain ⟨headers, _, same, drawn⟩ := p.configure_cases place currentUser
  rw [same]
  refine { h with headers := fun header hh u is => ?_ }
  rcases drawn header hh with old | ⟨shown, _⟩
  · exact h.headers header old u is
  · simpa [← shown, is] using h.shown

theorem handled_of {e : ProfileEvent} {write : Option (String × ServerWrite)} (stored : StoredUser fs user)
    (h : ProfileOf answered user p) (answers : answered → Answers (.profile p) (.profile e))
    (outcome : UserProfileController.Handled currentUser fs p e p' write) : ProfileOf answered user p' := by
  cases outcome with
  | userFound waits =>
    obtain rfl := h.waits _ waits
    exact userFound_of stored h
  | userFails waits =>
    exact { h with waits := fun _ same => (by cases same), found := fun yes => (Bool.noConfusion (answers yes)) }
  | @photoSnapshot _ _ _ _ photoListeners =>
    have kept : ProfileOf answered user { p with photoListeners } := { h with }
    exact postsAdded_of kept _ _
  | configure => exact configure_of h _
  | @followRead n r found =>
    have kept : ProfileOf answered user { p with followReads := p.followReads.eraseIdx n } := { h with }
    rcases UserProfileController.followRead_cases { p with followReads := p.followReads.eraseIdx n } r
      (fs.follows r.accountUserID) with same | ⟨header, listed, same⟩
    · rwa [same]
    · rw [same]
      refine { kept with headers := forall_mem_set kept.headers fun u is => ?_ }
      exact kept.headers header listed u (header.followData_user .. ▸ is)
  | @tap place header account call listed signedIn called =>
    obtain ⟨u, drawn, key, _⟩ := btnProfile_Follow_Edit_ok called
    have own := h.headers header (List.mem_of_getElem? listed) u drawn
    exact { h with taps := forall_mem_concat h.taps (key.trans (congrArg User.userID own)) }
  | @moved _ n tap stage write found =>
    have tapped := h.taps tap (List.mem_of_getElem? found)
    exact { h with taps := forall_mem_set h.taps tapped }
  | @completed n tap whole header found listed =>
    have tapped := h.taps tap (List.mem_of_getElem? found)
    have drawn := h.headers header (List.mem_of_getElem? listed)
    have same := (completion_same tap.call whole header).1
    exact { h with
      taps := forall_mem_set h.taps tapped
      headers := forall_mem_set h.headers fun u is => drawn u (same ▸ is) }
  | photoFails | followReadFails => exact { h with }

theorem shown_kept (answered : Prop) (user : User) :
    Kept (fun _ screen e => answered → Answers screen e) (ShowsUser answered user) where
  attempts h := h.elim
  users fs users screen frozen h := by
    cases screen with
    | profile p => exact ⟨storedUser_frozen frozen h.1, h.2⟩
    | _ => exact h.elim
  handled _ _ h answers outcome := by
    cases outcome with
    | profile outcome => exact ⟨h.1, handled_of h.1 h.2 answers outcome⟩
    | _ => exact h.elim
  notified {fs w fs' screen} users _ h := by
    cases screen with
    | profile p =>
      have stored : StoredUser fs' user := h.1.imp fun _ => .imp_left fun held => by rw [users, held]
      cases w with
      | photoPost => exact ⟨stored, { h.2 with }⟩
      | _ => exact ⟨stored, h.2⟩
    | _ => exact h.elim

theorem opened_of (stored : StoredUser fs user) (named : user.userID ≠ "") :
    ShowsUser answered user fs (Screen.viewDidLoad currentUser fs (.profile (some user.userID))) := by
  have waiting : UserProfileController.viewDidLoad (some user.userID) currentUser = { userLookup := some user.userID } :=
    if_neg named
  rw [Screen.viewDidLoad, waiting]
  exact ⟨stored, .inl rfl, fun _ same => (Option.some.inj same).symm, fun _ waits => (by cases waits),
    List.forall_mem_nil _, List.forall_mem_nil _, List.forall_mem_nil _⟩

end

/-! ### Every run -/

def ProfileAnswers (s : Navigation) : Event → Prop
  | .program e => AtScreen (fun _ => Answers) s.system e
  | _ => True

/-- Each profile opened from the search is about the user of its row. -/
def Opened (answered : Prop) (s : Navigation) : Prop :=
  ∀ x ∈ s.selected, Shows x.client x.place (ShowsUser answered x.user) s.system

section
variable {lowercased : String → String} {contains : String → String → Bool} {compare : String → String → Ordering}
  {s t : Navigation} {e : Event} {answered : Prop}

theorem below_shows (inv : Inv s) {x : Selected} (h : Shows x.client x.place (ShowsUser answered x.user) s.system)
    {e' : System.Event} (below : Below s e e') (answers : answered → ProfileAnswers s e)
    (ran : s.system.step e' = some t.system) : Shows x.client x.place (ShowsUser answered x.user) t.system := by
  have signUps := inv.sound.references.signUps
  refine step_shows (shown_kept answered x.user) inv.sound.references.ok (SignUps.step_inv signUps ran).2 h ?_ ran
  rintro e'' rfl
  cases below with
  | program => exact fun c found screen shown yes => answers yes c found screen shown

theorem selected_shows (inv : Inv s) {tab : SearchTab} {n row : Nat} {user : User} {c : Client}
    (found : s.searches[n]? = some tab) (shown : tab.controller.filteredUsers[row]? = some user)
    (client : s.system.clients[tab.client]? = some c)
    (ran : s.system.step (.open tab.client (.profile (some user.userID))) = some t.system) :
    Shows tab.client c.screens.length (ShowsUser answered user) t.system := by
  obtain ⟨c', client', same⟩ := Option.bind_eq_some_iff.mp ran
  obtain rfl := Option.some.inj (client.symm.trans client')
  have stored := inv.lists tab (List.mem_of_getElem? found) user (List.mem_append_right _ (List.mem_of_getElem? shown))
  obtain ⟨data, listed, made⟩ := stored
  have named := Traps.Inv.named ⟨inv.sound.references.ok, inv.sound.references.signUps⟩ _ data listed
  rw [made] at named
  rw [← Option.some.inj same]
  refine ⟨_, List.getElem?_set_self (List.getElem?_eq_some_iff.mp client).1, _, List.getElem?_concat_length, ?_⟩
  exact opened_of ⟨data, listed, made⟩ named

theorem step_opened (inv : Inv s) (h : Opened answered s) (answers : answered → ProfileAnswers s e)
    (stepped : s.step lowercased contains compare e = some t) : Opened answered t := by
  cases step_ok stepped with
  | program direct ran =>
    exact fun x hx => below_shows (t := { s with system := _ }) inv (h x hx) (.program direct) answers ran
  | pressedComment drawn ran =>
    exact fun x hx => below_shows (t := { s with system := _ }) inv (h x hx) (.pressedComment drawn) answers ran
  | didSelectItemAt found shown client ran =>
    refine List.forall_mem_cons.mpr ⟨?_, fun x hx => ?_⟩
    · exact selected_shows (t := { s with system := _ }) inv found shown client ran
    · exact below_shows (t := { s with system := _ }) inv (h x hx) (.didSelectItemAt found shown) answers ran
  | _ => exact h

end

/-- In every run of the app: the profile that a row of the search opens shows no user but that of the row, none
but this user's posts, and a tap of its button follows this user. It shows the user as soon as it has been
read, if no read of a profile's user has failed. -/
theorem search_opens_profile (lowercased : String → String) (contains : String → String → Bool)
    (compare : String → String → Ordering) (events : List Event) (t : Navigation)
    (h : run (step lowercased contains compare) {} events = some t) : ∀ x ∈ t.selected,
      ∃ c p, t.system.clients[x.client]? = some c ∧ c.screens[x.place]? = some (.profile p) ∧
        StoredUser t.system.fs x.user ∧
        ProfileOf (Along (step lowercased contains compare) ProfileAnswers {} events) x.user p := by
  let answered := Along (step lowercased contains compare) ProfileAnswers {} events
  have answers : Along (step lowercased contains compare) (fun s e => answered → ProfileAnswers s e) {} events := by
    by_cases yes : answered
    · exact yes.imp fun _ _ meets _ => meets
    · exact along_of_forall fun _ _ _ yes' => (yes yes').elim
  have keeps : ∀ s e t, Inv s ∧ Opened answered s → (answered → ProfileAnswers s e) →
      step lowercased contains compare s e = some t → Inv t ∧ Opened answered t :=
    fun s e t inv meets stepped => ⟨step_inv inv.1 stepped, step_opened inv.1 inv.2 meets stepped⟩
  have opened := (run_keeps_along keeps h answers ⟨initial_inv, List.forall_mem_nil _⟩).2
  intro x hx
  obtain ⟨c, found, screen, shown, holds⟩ := opened x hx
  cases screen with
  | profile p => exact ⟨c, p, found, shown, holds⟩
  | _ => exact holds.elim

/-- Alice picks Bob in her search, and follows him on his profile. -/
def aliceFindsBob : List Event :=
  (SelfFollow.signUp 0 "alice" ++ SelfFollow.signUp 1 "bob").map .program ++
    [.search 0, .getUsers 0 (some ["alice", "bob"]), .didSelectItemAt 0 0,
     .program (.screen 0 1 (.profile (.userLookup true))), .program (.screen 0 1 (.profile (.configure 0))),
     .program (.screen 0 1 (.profile (.tap 0)))]

theorem search_opens_profile_bob : ∃ t c p u, run (step asciiLowercased asciiContains compare) {} aliceFindsBob = some t ∧
    t.system.clients[0]? = some c ∧ c.screens[1]? = some (.profile p) ∧ p.validUser = some u ∧ u.userID = "bob" ∧
    ∃ c p, t.system.clients[0]? = some c ∧ c.screens[1]? = some (.profile p) ∧ StoredUser t.system.fs u ∧
      ProfileOf (Along (step asciiLowercased asciiContains compare) ProfileAnswers {} aliceFindsBob) u p :=
  ⟨_, _, _, _, rfl, rfl, rfl, rfl, rfl,
    search_opens_profile asciiLowercased asciiContains compare aliceFindsBob _ rfl ⟨0, 1, _⟩ (.head _)⟩

/-! ### The list of the search -/

theorem loaded_ids {fs : Firestore} {issuers : List (String × String)} (store : WellFormed fs issuers)
    (currentUser : Option String) {ids : List String} (stored : ∀ uid ∈ ids, (fs.users uid).isSome) :
    (loaded currentUser (some (snapshot fs ids))).map (·.userID) = ids.filter fun uid => some uid ≠ currentUser := by
  induction ids with
  | nil => rfl
  | cons uid rest ih =>
    obtain ⟨first, later⟩ := List.forall_mem_cons.mp stored
    obtain ⟨data, found⟩ := Option.isSome_iff_exists.mp first
    have own : (User.init data).userID = uid := by simp [User.init, store.users uid data found]
    have rest := ih later
    simp only [loaded, snapshot, Option.getD_some, List.filterMap_cons, found, Option.map_some] at rest ⊢
    by_cases signed : some uid = currentUser
    · simpa [own, signed] using rest
    · simpa [own, signed] using rest

/-- A search that has not loaded its users has none. -/
def Unloaded (s : Navigation) : Prop := ∀ tab ∈ s.searches, tab.controller.loading = true → tab.controller.users = []

/-- The search is of client `i`, has loaded and has the users `us`. -/
def Loaded (n i : Nat) (us : List User) (s : Navigation) : Prop :=
  ∃ tab, s.searches[n]? = some tab ∧ tab.client = i ∧ tab.controller.loading = false ∧ tab.controller.users = us

section
variable {lowercased : String → String} {contains : String → String → Bool} {compare : String → String → Ordering}
  {s t : Navigation} {e : Event}

theorem step_unloaded (h : Unloaded s) (stepped : s.step lowercased contains compare e = some t) : Unloaded t := by
  cases step_ok stepped with
  | search => exact forall_mem_concat h fun _ => rfl
  | textDidChange found =>
    have own := h _ (List.mem_of_getElem? found)
    exact forall_mem_set h own
  | getUsers found => exact forall_mem_set h fun loading => Bool.noConfusion loading
  | _ => exact h

theorem step_loaded {n i : Nat} {us : List User} (h : Loaded n i us s)
    (stepped : s.step lowercased contains compare e = some t) : Loaded n i us t := by
  obtain ⟨tab, listed, client, loaded, users⟩ := h
  cases step_ok stepped with
  | search =>
    have inside := (List.getElem?_eq_some_iff.mp listed).1
    exact ⟨tab, by rw [List.getElem?_append_left inside, listed], client, loaded, users⟩
  | @textDidChange k searchText other found =>
    rw [Loaded]
    by_cases same : n = k
    · subst same
      obtain rfl := Option.some.inj (listed.symm.trans found)
      exact ⟨_, List.getElem?_set_self (List.getElem?_eq_some_iff.mp listed).1, client, loaded, users⟩
    · exact ⟨tab, by rw [List.getElem?_set_ne (Ne.symm same), listed], client, loaded, users⟩
  | @getUsers k _ other found loading =>
    have different : k ≠ n := by
      rintro rfl
      obtain rfl := Option.some.inj (listed.symm.trans found)
      rw [loaded] at loading
      cases loading
    exact ⟨tab, by rw [List.getElem?_set_ne different, listed], client, loaded, users⟩
  | _ => exact ⟨tab, listed, client, loaded, users⟩

/-- A load takes over the answer but the account. -/
theorem getUsers_loaded {n : Nat} {ids : List String} (inv : Inv s) (unloaded : Unloaded s)
    (stepped : s.step lowercased contains compare (.getUsers n (some ids)) = some t) :
    Answer s.system.fs ids ∧ ∃ i us, Loaded n i us t ∧
      (us.map (·.userID)).Perm (ids.filter fun uid => some uid ≠ currentUser s.system i) := by
  cases step_ok stepped with
  | @getUsers _ _ tab found loading answers =>
    obtain ⟨distinct, stored⟩ := answers ids rfl
    have inside := (List.getElem?_eq_some_iff.mp found).1
    have empty := unloaded tab (List.mem_of_getElem? found) loading
    have sorted := List.perm_insertionSort (InOrder compare)
      (tab.controller.users ++ loaded (currentUser s.system tab.client) (some (snapshot s.system.fs ids)))
    refine ⟨⟨distinct, stored⟩, tab.client, _, ⟨_, List.getElem?_set_self inside, rfl, rfl, rfl⟩, (sorted.map _).trans ?_⟩
    rw [empty, List.nil_append, loaded_ids inv.sound.references.ok.store _ stored]

end

/-- In every run of the app: once a search has loaded, its list is each user of the answer other than the
account, once, as the store has it, and stays so. -/
theorem search_lists_users (lowercased : String → String) (contains : String → String → Bool)
    (compare : String → String → Ordering) (before after : List Event) (n : Nat) (ids : List String) (s t : Navigation)
    (reached : run (step lowercased contains compare) {} before = some s)
    (h : run (step lowercased contains compare) s (.getUsers n (some ids) :: after) = some t) :
    ∃ tab, t.searches[n]? = some tab ∧ (tab.controller.users.map (·.userID)).Nodup ∧
      (∀ uid, uid ∈ tab.controller.users.map (·.userID) ↔ uid ∈ ids ∧ some uid ≠ currentUser s.system tab.client) ∧
      (∀ uid ∈ ids, (s.system.fs.users uid).isSome) ∧ ∀ user ∈ tab.controller.users, StoredUser t.system.fs user := by
  have inv := run_inv reached
  have unloaded : Unloaded s := run_keeps (fun _ _ _ => step_unloaded) reached (List.forall_mem_nil _)
  obtain ⟨m, loads, h⟩ := run_cons_ok h
  obtain ⟨answer, i, us, loaded, listed⟩ := getUsers_loaded inv unloaded loads
  obtain ⟨tab, found, rfl, _, rfl⟩ : Loaded n i us t := run_keeps (fun _ _ _ => step_loaded) h loaded
  have lists := (run_keeps (fun _ _ _ => step_inv) h (step_inv inv loads)).lists tab (List.mem_of_getElem? found)
  refine ⟨tab, found, listed.nodup_iff.mpr (answer.1.filter _), fun uid => ?_, answer.2,
    fun user hu => lists user (List.mem_append_left _ hu)⟩
  rw [listed.mem_iff, List.mem_filter]
  simp

theorem search_lists_users_bob :
    ∃ s t, run (step asciiLowercased asciiContains compare) {} (aliceFindsBob.take 15) = some s ∧
      run (step asciiLowercased asciiContains compare) s (aliceFindsBob.drop 15) = some t ∧
      ∃ tab, t.searches[0]? = some tab ∧ (tab.controller.users.map (·.userID)).Nodup ∧
        (∀ uid, uid ∈ tab.controller.users.map (·.userID) ↔
          uid ∈ ["alice", "bob"] ∧ some uid ≠ currentUser s.system tab.client) ∧
        (∀ uid ∈ ["alice", "bob"], (s.system.fs.users uid).isSome) ∧
        ∀ user ∈ tab.controller.users, StoredUser t.system.fs user :=
  ⟨_, _, rfl, rfl, search_lists_users asciiLowercased asciiContains compare (aliceFindsBob.take 15)
    (aliceFindsBob.drop 16) 0 ["alice", "bob"] _ _ rfl rfl⟩

end Foti.Navigation
