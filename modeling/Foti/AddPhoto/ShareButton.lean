import Foti.AddPhoto.SharePhotoController
import Foti.Library.Entries
import Foti.Library.Transition

/-!
The Share button over any number of attempts. A press disables it, and of the places where an attempt
can end only a failed upload enables it again; `comes_back_iff` says in which runs that is enough.
-/

namespace Foti.ShareButton
open Entries Transition

/-- An event at the screen, with the account signed in at that moment. -/
def step (c : SharePhotoController) (e : Option String × ShareEvent) : Option SharePhotoController :=
  (c.handle e.1 e.2).map Prod.fst

def inFlight : ShareStage → Bool
  | .uploading | .locating | .saving .. => true
  | .ended | .saved .. => false

def Alone (attempts : List ShareAttempt) : Prop :=
  ∀ (m n : Nat) (a b : ShareAttempt), attempts[m]? = some a → attempts[n]? = some b →
    inFlight a.stage = true → inFlight b.stage = true → m = n

structure ComesBack (c : SharePhotoController) : Prop where
  disabled : c.isEnabled = false ↔ (∃ a ∈ c.attempts, inFlight a.stage = true) ∨ c.dismissed = true
  alone : Alone c.attempts
  huds : ∀ a ∈ c.attempts, a.stage = .ended → a.hudDismissed = true

/-- There is a photo, and what follows the upload succeeds. -/
def Succeeds (c : SharePhotoController) : Option String × ShareEvent → Prop
  | (_, .press _) => c.chosenPhoto.isSome
  | (currentUser, .located _ url ok _) => ok = true ∧ url.isSome ∧ NonBlank c.txtMessage ∧ currentUser.isSome
  | (_, .saved _ _ ok) => ok = true
  | (_, .edit _) | (_, .uploaded ..) => True

/-- What holds in every run: two attempts never overlap, and one in flight has a photo. -/
structure Inv (c : SharePhotoController) : Prop where
  alone : Alone c.attempts
  idle : c.isEnabled = true ∨ c.dismissed = true → ∀ a ∈ c.attempts, inFlight a.stage = false
  photo : ∀ a ∈ c.attempts, inFlight a.stage = true → c.chosenPhoto.isSome

/-! ### The attempts after a step -/

section Attempts
variable {attempts : List ShareAttempt} {n : Nat} {a a' : ShareAttempt}

theorem alone_set (alone : Alone attempts) (found : attempts[n]? = some a) (flying : inFlight a.stage = true) :
    Alone (attempts.set n a') := by
  intro m k b c hb hc flyingB flyingC
  rcases set_cases hb with ⟨rfl, rfl⟩ | ⟨_, oldB⟩ <;> rcases set_cases hc with ⟨rfl, rfl⟩ | ⟨_, oldC⟩
  · rfl
  · exact alone _ _ _ _ found oldC flying flyingC
  · exact alone _ _ _ _ oldB found flyingB flying
  · exact alone _ _ _ _ oldB oldC flyingB flyingC

theorem rest_idle (alone : Alone attempts) (found : attempts[n]? = some a) (flying : inFlight a.stage = true)
    {b : ShareAttempt} (hb : b ∈ attempts.set n a') : b = a' ∨ b ∈ attempts ∧ inFlight b.stage = false := by
  obtain ⟨m, there⟩ := List.mem_iff_getElem?.mp hb
  rcases set_cases there with ⟨_, rfl⟩ | ⟨other, old⟩
  · exact .inl rfl
  · refine .inr ⟨List.mem_of_getElem? old, ?_⟩
    by_contra both
    exact other (alone _ _ _ _ old found (by simpa using both) flying)

theorem alone_concat (idle : ∀ b ∈ attempts, inFlight b.stage = false) : Alone (attempts ++ [a']) := by
  have last : ∀ {m b}, (attempts ++ [a'])[m]? = some b → inFlight b.stage = true → m = attempts.length := by
    intro m b hb flying
    rcases concat_cases hb with ⟨place, _⟩ | old
    · exact place
    · rw [idle b (List.mem_of_getElem? old)] at flying
      cases flying
  exact fun m k b c hb hc flyingB flyingC => (last hb flyingB).trans (last hc flyingC).symm

/-- When one attempt has changed and no other one is in flight, only that one matters. -/
theorem comesBack_iff {t : SharePhotoController} (alone : Alone t.attempts) (member : a' ∈ t.attempts)
    (others : ∀ b ∈ t.attempts, b = a' ∨ inFlight b.stage = false ∧ (b.stage = .ended → b.hudDismissed = true)) :
    ComesBack t ↔ (t.isEnabled = false ↔ inFlight a'.stage = true ∨ t.dismissed = true) ∧
      (a'.stage = .ended → a'.hudDismissed = true) := by
  have own : (∃ b ∈ t.attempts, inFlight b.stage = true) ↔ inFlight a'.stage = true := by
    refine ⟨?_, fun flying => ⟨a', member, flying⟩⟩
    rintro ⟨b, hb, flying⟩
    rcases others b hb with rfl | ⟨idle, _⟩
    · exact flying
    · rw [idle] at flying
      cases flying
  constructor
  · intro back
    have disabled := back.disabled
    rw [own] at disabled
    exact ⟨disabled, back.huds a' member⟩
  · rintro ⟨disabled, hud⟩
    refine ⟨by rw [own]; exact disabled, alone, fun b hb ended => ?_⟩
    rcases others b hb with rfl | ⟨_, dismissed⟩
    · exact hud ended
    · exact dismissed ended

end Attempts

/-! ### One step -/

section Step
variable {c t : SharePhotoController} {n : Nat} {a a' : ShareAttempt}

theorem busy (h : Inv c) (found : c.attempts[n]? = some a) (flying : inFlight a.stage = true) :
    c.isEnabled = false ∧ c.dismissed = false := by
  have member := List.mem_of_getElem? found
  constructor
  · by_contra enabled
    have idle := h.idle (.inl (by simpa using enabled)) a member
    rw [idle] at flying
    cases flying
  · by_contra dismissed
    have idle := h.idle (.inr (by simpa using dismissed)) a member
    rw [idle] at flying
    cases flying

theorem moved_inv (h : Inv c) (found : c.attempts[n]? = some a) (flying : inFlight a.stage = true)
    (attempts : t.attempts = c.attempts.set n a') (photo : t.chosenPhoto = c.chosenPhoto)
    (stays : inFlight a'.stage = true → t.isEnabled = false ∧ t.dismissed = false) : Inv t := by
  have rest : ∀ b ∈ t.attempts, b = a' ∨ b ∈ c.attempts ∧ inFlight b.stage = false := fun b hb =>
    rest_idle h.alone found flying (attempts ▸ hb)
  refine ⟨attempts ▸ alone_set h.alone found flying, fun done b hb => ?_, fun b _ _ => ?_⟩
  · rcases rest b hb with rfl | ⟨_, idle⟩
    · by_contra both
      obtain ⟨disabled, shown⟩ := stays (by simpa using both)
      rw [disabled, shown] at done
      simp at done
    · exact idle
  · rw [photo]
    exact h.photo a (List.mem_of_getElem? found) flying

theorem moved_iff (back : ComesBack c) (found : c.attempts[n]? = some a) (flying : inFlight a.stage = true)
    (attempts : t.attempts = c.attempts.set n a') :
    ComesBack t ↔ (t.isEnabled = false ↔ inFlight a'.stage = true ∨ t.dismissed = true) ∧
      (a'.stage = .ended → a'.hudDismissed = true) := by
  have inside := (List.getElem?_eq_some_iff.mp found).1
  have member : a' ∈ t.attempts := attempts ▸ List.mem_set inside a'
  refine comesBack_iff (attempts ▸ alone_set back.alone found flying) member fun b hb => ?_
  rcases rest_idle back.alone found flying (attempts ▸ hb) with same | ⟨old, idle⟩
  · exact .inl same
  · exact .inr ⟨idle, back.huds b old⟩

theorem located_same (c : SharePhotoController) (n : Nat) (a : ShareAttempt) (url : Option String) (ok : Bool)
    (currentUser : Option String) (now : Timestamp) :
    (c.located n a url ok currentUser now).dismissed = c.dismissed ∧
      (c.located n a url ok currentUser now).chosenPhoto = c.chosenPhoto ∧
      (c.isEnabled = false → (c.located n a url ok currentUser now).isEnabled = false) := by
  unfold SharePhotoController.located
  split
  · split <;> exact ⟨rfl, rfl, id⟩
  · exact ⟨rfl, rfl, fun _ => rfl⟩

theorem located_stage (c : SharePhotoController) (n : Nat) (a : ShareAttempt) (url : Option String) (ok : Bool)
    (currentUser : Option String) (now : Timestamp) (photo : c.chosenPhoto.isSome) :
    ∃ stage, (c.located n a url ok currentUser now).attempts = c.attempts.set n { a with stage, hudDismissed := true } ∧
      (inFlight stage = true ↔ ok = true ∧ url.isSome ∧ NonBlank c.txtMessage ∧ currentUser.isSome) := by
  unfold SharePhotoController.located
  cases ok with
  | false => exact ⟨.ended, rfl, by simp [inFlight]⟩
  | true =>
    cases url with
    | none => exact ⟨.ended, rfl, by simp [inFlight]⟩
    | some url =>
      have passes := savePostFS_isSome c.chosenPhoto c.txtMessage currentUser url now
      simp only [if_true, Option.bind_some]
      cases saved : savePostFS c.chosenPhoto (some c.txtMessage) currentUser url now with
      | none =>
        rw [saved] at passes
        refine ⟨.ended, rfl, iff_of_false (by simp [inFlight]) fun all => ?_⟩
        cases passes.mpr ⟨photo, all.2.2⟩
      | some save =>
        rw [saved] at passes
        exact ⟨.saving save.1 save.2, rfl, iff_of_true rfl ⟨trivial, rfl, (passes.mp rfl).2⟩⟩

theorem step_inv {e : Option String × ShareEvent} (h : Inv c) (stepped : step c e = some t) : Inv t := by
  obtain ⟨currentUser, e⟩ := e
  obtain ⟨⟨_, write⟩, handled, rfl⟩ := Option.map_eq_some_iff.mp stepped
  cases SharePhotoController.handle_ok handled with
  | edit => exact ⟨h.alone, h.idle, h.photo⟩
  | press enabled shown =>
    have idle := h.idle (.inl enabled)
    refine ⟨alone_concat idle, ?_, ?_⟩
    · rintro (enabled' | dismissed)
      · cases enabled'
      · exact absurd (shown.symm.trans dismissed) Bool.false_ne_true
    · refine forall_mem_concat (fun b hb flying => ?_) ?_
      · rw [idle b hb] at flying
        cases flying
      · intro flying
        show c.chosenPhoto.isSome
        by_contra missing
        simp [missing, inFlight] at flying
  | @uploaded n a ok found uploading =>
    have flying : inFlight a.stage = true := by rw [uploading]; rfl
    obtain ⟨disabled, shown⟩ := busy h found flying
    cases ok with
    | true => exact moved_inv h found flying rfl rfl fun _ => ⟨disabled, shown⟩
    | false =>
      exact moved_inv h found flying rfl rfl
        fun flying => Bool.noConfusion flying
  | @located n a url ok now found locating =>
    have flying : inFlight a.stage = true := by rw [locating]; rfl
    obtain ⟨disabled, shown⟩ := busy h found flying
    have photo := h.photo a (List.mem_of_getElem? found) flying
    obtain ⟨stage, attempts, _⟩ := located_stage c n a url ok currentUser now photo
    obtain ⟨dismissed, chosen, stays⟩ := located_same c n a url ok currentUser now
    exact moved_inv h found flying attempts chosen fun _ => ⟨stays disabled, dismissed.trans shown⟩
  | @saved n a uid documentID data found saving =>
    have flying : inFlight a.stage = true := by rw [saving]; rfl
    exact moved_inv h found flying rfl rfl
      fun flying => Bool.noConfusion flying
  | @saveFails n a uid documentID data found saving =>
    have flying : inFlight a.stage = true := by rw [saving]; rfl
    exact moved_inv h found flying rfl rfl fun flying => Bool.noConfusion flying

theorem step_comes_back_iff {e : Option String × ShareEvent} (h : Inv c) (back : ComesBack c)
    (stepped : step c e = some t) : ComesBack t ↔ Succeeds c e := by
  obtain ⟨currentUser, e⟩ := e
  obtain ⟨⟨_, write⟩, handled, rfl⟩ := Option.map_eq_some_iff.mp stepped
  cases SharePhotoController.handle_ok handled with
  | edit => exact iff_of_true ⟨back.disabled, back.alone, back.huds⟩ trivial
  | @press photoName enabled shown =>
    have idle := h.idle (.inl enabled)
    let a' : ShareAttempt := { photoName, stage := if c.chosenPhoto.isSome then .uploading else .ended }
    have others : ∀ b ∈ c.attempts ++ [a'],
        b = a' ∨ inFlight b.stage = false ∧ (b.stage = .ended → b.hudDismissed = true) :=
      forall_mem_concat (fun b hb => .inr ⟨idle b hb, back.huds b hb⟩) (.inl rfl)
    have newest : a' ∈ c.attempts ++ [a'] := List.mem_append_right _ List.mem_cons_self
    rw [comesBack_iff (t := c.btnSharePressed photoName) (alone_concat idle) newest others]
    cases photo : c.chosenPhoto <;> simp [SharePhotoController.btnSharePressed, Succeeds, a', photo, inFlight, shown]
  | @uploaded n a ok found uploading =>
    have flying : inFlight a.stage = true := by rw [uploading]; rfl
    obtain ⟨disabled, shown⟩ := busy h found flying
    refine iff_of_true ?_ trivial
    cases ok with
    | true =>
      rw [moved_iff back found flying rfl]
      simp [SharePhotoController.uploaded, SharePhotoController.put, inFlight, disabled]
    | false =>
      rw [moved_iff back found flying rfl]
      simp [SharePhotoController.uploaded, SharePhotoController.put, inFlight, shown]
  | @located n a url ok now found locating =>
    have flying : inFlight a.stage = true := by rw [locating]; rfl
    obtain ⟨disabled, shown⟩ := busy h found flying
    have photo := h.photo a (List.mem_of_getElem? found) flying
    obtain ⟨stage, attempts, passes⟩ := located_stage c n a url ok currentUser now photo
    obtain ⟨dismissed, _, stays⟩ := located_same c n a url ok currentUser now
    rw [moved_iff back found flying attempts, dismissed, shown, stays disabled]
    simpa [Succeeds] using passes
  | @saved n a uid documentID data found saving =>
    have flying : inFlight a.stage = true := by rw [saving]; rfl
    obtain ⟨disabled, _⟩ := busy h found flying
    refine iff_of_true ?_ rfl
    rw [moved_iff back found flying rfl]
    simp [SharePhotoController.put, disabled]
  | @saveFails n a uid documentID data found saving =>
    have flying : inFlight a.stage = true := by rw [saving]; rfl
    obtain ⟨_, shown⟩ := busy h found flying
    refine iff_of_false (fun back' => ?_) Bool.false_ne_true
    rw [moved_iff back found flying rfl] at back'
    simp [SharePhotoController.put, shown, inFlight] at back'

end Step

/-- In every run, for any attempts, texts and outcomes: the screen always comes back exactly when there is
a photo and no attempt fails after its upload. -/
theorem comes_back_iff (chosenPhoto : Option Photo) (events : List (Option String × ShareEvent))
    (t : SharePhotoController) (h : run step { chosenPhoto } events = some t) :
    Always step ComesBack { chosenPhoto } events ↔ Along step Succeeds { chosenPhoto } events := by
  have alone : Alone ([] : List ShareAttempt) := fun m _ _ _ found => (by cases found)
  have fresh : Inv { chosenPhoto } :=
    ⟨alone, fun _ _ ha => (List.not_mem_nil ha).elim, fun _ ha => (List.not_mem_nil ha).elim⟩
  have back : ComesBack { chosenPhoto } := ⟨by simp, alone, fun _ ha => (List.not_mem_nil ha).elim⟩
  exact always_iff_along (fun _ _ _ => step_inv) (fun _ _ _ => step_comes_back_iff) h fresh back

/-- The upload fails, and the second attempt succeeds. -/
def repeated : List (Option String × ShareEvent) :=
  [(some "alice", .edit "hello"), (some "alice", .press "p"), (some "alice", .uploaded 0 false),
   (some "alice", .press "q"), (some "alice", .uploaded 1 true), (some "alice", .located 1 (some "url") true 1),
   (some "alice", .saved 1 "d" true)]

theorem comes_back_iff_repeated : ∃ t, run step { chosenPhoto := some ⟨0, 0⟩ } repeated = some t ∧
    (Always step ComesBack { chosenPhoto := some ⟨0, 0⟩ } repeated ↔
      Along step Succeeds { chosenPhoto := some ⟨0, 0⟩ } repeated) :=
  ⟨_, rfl, comes_back_iff (some ⟨0, 0⟩) repeated _ rfl⟩

/-- The message is blank when the URL arrives. -/
def blank : List (Option String × ShareEvent) :=
  [(some "alice", .edit " "), (some "alice", .press "p"), (some "alice", .uploaded 0 true),
   (some "alice", .located 0 (some "url") true 1)]

theorem button_stays_disabled : ∃ t, run step { chosenPhoto := some ⟨0, 0⟩ } blank = some t ∧
    t.attempts.map (·.stage) = [.ended] ∧ t.isEnabled = false ∧ t.dismissed = false ∧ ¬ ComesBack t := by
  refine ⟨_, rfl, rfl, rfl, rfl, fun back => ?_⟩
  rcases back.disabled.mp rfl with ⟨a, ha, flying⟩ | dismissed
  · obtain rfl := List.mem_singleton.mp ha
    cases flying
  · cases dismissed

end Foti.ShareButton
