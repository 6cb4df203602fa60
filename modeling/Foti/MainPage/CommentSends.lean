import Foti.Library.Entries
import Foti.Library.Transition
import Foti.MainPage.CommentController

/-!
The text field over the sends of one screen. A tap leaves the text in the field, and the callback of each
successful write clears whatever is there then. `sends_keep_typing` says in which runs that is harmless.
-/

namespace Foti
open Entries Transition

/-- The screen with a count of the edits of its field, and the count at the tap of each send. -/
structure CommentSends where
  screen : CommentController
  edits : Nat := 0
  taps : List Nat := []

inductive SendsEvent where
  | screen (currentUser : Option String) (fs : Firestore) (e : CommentEvent)
  | notify (write : ServerWrite)

namespace CommentSends

def opened (chosenPost : Option Post) (fs : Firestore) : CommentSends :=
  { screen := .viewDidLoad chosenPost fs }

def follow (c : CommentSends) (e : CommentEvent) (screen : CommentController) : CommentSends where
  screen := screen
  edits := match e with
    | .edit _ => c.edits + 1
    | _ => c.edits
  taps := if c.screen.sends.length < screen.sends.length then c.taps ++ [c.edits] else c.taps

def step (c : CommentSends) : SendsEvent → Option CommentSends
  | .screen currentUser fs e => (c.screen.handle currentUser fs e).map fun outcome => c.follow e outcome.1
  | .notify write => some { c with screen := c.screen.notify write }

def outcome : SendStage → Option Bool
  | .writing => none
  | .written ok | .finished ok => some ok

def firstSend (c : CommentSends) (tap : Nat) : Option CommentSend :=
  c.screen.sends[c.taps.idxOf tap]?

def IsStored (c : CommentSends) (tap n : Nat) : Prop :=
  c.taps[n]? = some tap ∧ ∃ s, c.screen.sends[n]? = some s ∧ outcome s.stage = some true

/-- A text whose first send has not failed is stored at most once. -/
def StoredOnce (c : CommentSends) : Prop :=
  ∀ (tap : Nat) (first : CommentSend), c.firstSend tap = some first → outcome first.stage ≠ some false →
    ∀ m n, c.IsStored tap m → c.IsStored tap n → m = n

def EditedSince (c : CommentSends) (n : Nat) : Prop :=
  ∃ tap ∈ c.taps[n]?, tap < c.edits

/-- The acknowledgement of a send leaves a text that was entered after its tap. -/
def KeepsTyping (c : CommentSends) : SendsEvent → Prop
  | .screen currentUser fs (.acknowledge n) => c.EditedSince n → ∀ t,
      c.step (.screen currentUser fs (.acknowledge n)) = some t → t.screen.txtComment = c.screen.txtComment
  | _ => True

/-- A text is sent again only after its first send has failed, and a successful write is acknowledged before
the field is edited again, or while it is empty. -/
def Unhurried (c : CommentSends) : SendsEvent → Prop
  | .screen currentUser _ (.send _) => c.screen.txtComment ≠ "" → currentUser.isSome →
      ∀ first ∈ c.firstSend c.edits, outcome first.stage = some false
  | .screen _ _ (.acknowledge n) => ∀ s ∈ c.screen.sends[n]?, outcome s.stage = some true →
      c.EditedSince n → c.screen.txtComment = ""
  | _ => True

instance (c : CommentSends) (n : Nat) : Decidable (c.EditedSince n) :=
  inferInstanceAs (Decidable (∃ tap ∈ c.taps[n]?, tap < c.edits))

instance (c : CommentSends) : ∀ e, Decidable (Unhurried c e)
  | .screen currentUser _ (.send _) => inferInstanceAs (Decidable (c.screen.txtComment ≠ "" → currentUser.isSome →
      ∀ first ∈ c.firstSend c.edits, outcome first.stage = some false))
  | .screen _ _ (.acknowledge n) => inferInstanceAs (Decidable (∀ s ∈ c.screen.sends[n]?,
      outcome s.stage = some true → c.EditedSince n → c.screen.txtComment = ""))
  | .screen _ _ (.edit _) | .screen _ _ (.write ..) | .screen _ _ (.snapshot ..) | .screen _ _ (.snapshotFails _)
  | .screen _ _ (.userLookup ..) | .notify _ => .isTrue trivial

structure Inv (c : CommentSends) : Prop where
  count : c.taps.length = c.screen.sends.length
  again : ∀ (n tap : Nat) (first : CommentSend), c.taps[n]? = some tap → c.taps.idxOf tap < n →
    c.firstSend tap = some first → outcome first.stage = some false

section
variable {c t : CommentSends} {currentUser : Option String} {fs : Firestore} {e : CommentEvent}
  {screen : CommentController} {write : Option (String × ServerWrite)}

structure Later (before after : List CommentSend) : Prop where
  length : after.length = before.length
  kept : ∀ (n : Nat) (s' : CommentSend), after[n]? = some s' →
    ∃ s, before[n]? = some s ∧ (outcome s.stage = some false → outcome s'.stage = some false)

theorem Later.refl (sends : List CommentSend) : Later sends sends :=
  ⟨rfl, fun _ s' found => ⟨s', found, id⟩⟩

theorem later_set {sends : List CommentSend} {n : Nat} {s s' : CommentSend} (found : sends[n]? = some s)
    (stays : outcome s.stage = some false → outcome s'.stage = some false) : Later sends (sends.set n s') := by
  refine ⟨List.length_set, fun m b hb => ?_⟩
  rcases set_cases hb with ⟨rfl, rfl⟩ | ⟨_, old⟩
  · exact ⟨s, found, stays⟩
  · exact ⟨b, old, id⟩

theorem send_sends (c : CommentController) (currentUser : Option String) (now : UInt64) :
    (c.send currentUser now).sends = c.sends ∨
      c.txtComment ≠ "" ∧ currentUser.isSome ∧ ∃ s, (c.send currentUser now).sends = c.sends ++ [s] := by
  unfold CommentController.send
  split
  · rename_i sender data signed_in prepared
    split
    · exact .inl rfl
    · exact .inr ⟨(btnSendCommentPressed_ok prepared).2.1, rfl, _, rfl⟩
  · exact .inl rfl

theorem handled_sends {c : CommentController} (h : CommentController.Handled currentUser fs c e screen write) :
    Later c.sends screen.sends ∨ c.txtComment ≠ "" ∧ currentUser.isSome ∧ (∃ now, e = .send now) ∧
      ∃ s, screen.sends = c.sends ++ [s] := by
  cases h with
  | @send now =>
    rcases send_sends c currentUser now with same | ⟨typed, signed_in, added⟩
    · exact .inl (same ▸ Later.refl c.sends)
    · exact .inr ⟨typed, signed_in, ⟨now, rfl⟩, added⟩
  | written found writing => exact .inl (later_set found fun failed => (by rw [writing] at failed; cases failed))
  | refused found writing => exact .inl (later_set found fun _ => rfl)
  | acknowledge found written => exact .inl (later_set found fun failed => (by rw [written] at failed; exact failed))
  | edit => exact .inl (Later.refl c.sends)
  | snapshot => exact .inl (Later.refl c.sends)
  | snapshotFails => exact .inl (Later.refl c.sends)
  | userFound =>
    refine .inl ?_
    unfold CommentController.authorFound
    split <;> exact Later.refl c.sends
  | userFails => exact .inl (Later.refl c.sends)

theorem inv_later (h : Inv c) (taps : t.taps = c.taps) (sends : Later c.screen.sends t.screen.sends) : Inv t := by
  constructor
  case count => rw [taps, sends.length, h.count]
  case again =>
    intro n tap first there earlier found
    rw [taps] at there earlier
    rw [firstSend, taps] at found
    obtain ⟨old, was_first, stays⟩ := sends.kept _ _ found
    exact stays (h.again n tap old there earlier was_first)

theorem inv_concat {s : CommentSend} (h : Inv c)
    (failed : ∀ first ∈ c.firstSend c.edits, outcome first.stage = some false) (taps : t.taps = c.taps ++ [c.edits])
    (sends : t.screen.sends = c.screen.sends ++ [s]) : Inv t := by
  constructor
  case count => rw [taps, sends, List.length_append, List.length_append, h.count]; rfl
  case again =>
    intro n tap first there earlier found
    rw [taps] at there earlier
    rw [firstSend, taps, sends] at found
    have inside : n < c.taps.length + 1 := by
      have := (List.getElem?_eq_some_iff.mp there).1
      rwa [List.length_append] at this
    -- An index smaller than `n` lies in the old list.
    have seen : tap ∈ c.taps := by
      by_contra unseen
      rw [List.idxOf_append_of_notMem unseen] at earlier
      omega
    rw [List.idxOf_append_of_mem seen] at earlier found
    have old : c.firstSend tap = some first := by
      rw [List.getElem?_append_left (h.count ▸ List.idxOf_lt_length_of_mem seen)] at found
      exact found
    rcases concat_cases there with ⟨_, rfl⟩ | before
    · exact failed first old
    · exact h.again n tap first before earlier old

theorem step_inv {e : SendsEvent} (h : Inv c) (unhurried : Unhurried c e) (stepped : c.step e = some t) : Inv t := by
  cases e with
  | notify write =>
    obtain rfl := Option.some.inj stepped
    exact inv_later h rfl (by cases write <;> exact Later.refl _)
  | screen currentUser fs e =>
    obtain ⟨⟨screen, write⟩, handled, rfl⟩ := Option.map_eq_some_iff.mp stepped
    rcases handled_sends (CommentController.handle_ok handled) with
      later | ⟨typed, signed_in, ⟨now, rfl⟩, s, added⟩
    · exact inv_later h (if_neg (by rw [later.length]; exact Nat.lt_irrefl _)) later
    · refine inv_concat h (unhurried typed signed_in) (if_pos ?_) added
      rw [added, List.length_append]
      exact Nat.lt_succ_self _

theorem Inv.stored_once (h : Inv c) : StoredOnce c := by
  have is_first : ∀ {tap first n}, c.firstSend tap = some first → outcome first.stage ≠ some false →
      c.IsStored tap n → n = c.taps.idxOf tap := by
    intro tap first n found not_failed stored
    obtain ⟨inside, same⟩ := List.getElem?_eq_some_iff.mp stored.1
    have least : c.taps.idxOf tap ≤ n := by
      by_contra later
      have differs := List.not_of_lt_findIdx (Nat.lt_of_not_le later)
      rw [same, beq_self_eq_true] at differs
      cases differs
    by_contra other
    exact not_failed (h.again n tap first stored.1 (by omega) found)
  intro tap first found not_failed m n hm hn
  exact (is_first found not_failed hm).trans (is_first found not_failed hn).symm

theorem keeps_typing_of_unhurried {e : SendsEvent} (h : Unhurried c e) : KeepsTyping c e := by
  unfold KeepsTyping
  split
  · rename_i currentUser fs n
    intro edited t stepped
    obtain ⟨⟨screen, write⟩, handled, rfl⟩ := Option.map_eq_some_iff.mp stepped
    cases CommentController.handle_ok handled with
    | @acknowledge _ s ok found written =>
      cases ok with
      | true =>
        have empty := h s found (by rw [written]; rfl) edited
        exact empty.symm
      | false => rfl
  · trivial

end

/-- In every run whose taps and acknowledgements come in this way, no acknowledgement erases a text that was
typed after its tap, and no text is stored twice. -/
theorem sends_keep_typing (chosenPost : Option Post) (fs : Firestore) (events : List SendsEvent)
    (meets : Along step Unhurried (opened chosenPost fs) events) :
    Along step KeepsTyping (opened chosenPost fs) events ∧
      Always step StoredOnce (opened chosenPost fs) events := by
  have no_sends : (CommentController.viewDidLoad chosenPost fs).sends = [] := by
    unfold CommentController.viewDidLoad
    split
    · rfl
    · dsimp only
      split <;> rfl
  have initial : Inv (opened chosenPost fs) := by
    refine ⟨(congrArg List.length no_sends).symm, fun n tap first there => ?_⟩
    cases there
  constructor
  · exact meets.imp fun _ _ => keeps_typing_of_unhurried
  · exact always_of_along (fun _ _ _ => step_inv) (fun _ => Inv.stored_once) meets initial

def atScreen (es : List CommentEvent) : List SendsEvent := es.map (.screen (some "bob") {})

def chosen : Post := { Post.init 0 (User.init ∅) ∅ with id := some "p" }

def repeated : List SendsEvent :=
  atScreen [.edit "hi", .send 1, .write 0 "c1" false, .acknowledge 0, .send 2, .edit "hi!", .write 1 "c2" true,
    .edit "", .acknowledge 1]

theorem sends_keep_typing_repeated :
    (∃ t, run step (opened (some chosen) {}) repeated = some t ∧ t.taps = [1, 1]) ∧
      Along step KeepsTyping (opened (some chosen) {}) repeated ∧
      Always step StoredOnce (opened (some chosen) {}) repeated :=
  ⟨⟨_, rfl, rfl⟩, sends_keep_typing (some chosen) {} repeated (by decide)⟩

def tappedTwice : List SendsEvent := atScreen [.edit "hi", .send 1, .send 2, .write 0 "c1" true, .write 1 "c2" true]

/-- A text entered while the write of another one is under way. -/
def typedOn : List SendsEvent := atScreen [.edit "hi", .send 1, .write 0 "c1" true, .edit "and"]

theorem sent_twice_and_erased :
    (∃ t, run step (opened (some chosen) {}) tappedTwice = some t ∧ ¬ StoredOnce t) ∧
      ∃ s, run step (opened (some chosen) {}) typedOn = some s ∧ s.screen.txtComment = "and" ∧
        ¬ KeepsTyping s (.screen (some "bob") {} (.acknowledge 0)) := by
  constructor
  · refine ⟨_, rfl, fun once => ?_⟩
    have same := once 1 _ rfl (by decide) 0 1 ⟨rfl, _, rfl, rfl⟩ ⟨rfl, _, rfl, rfl⟩
    cases same
  · refine ⟨_, rfl, rfl, fun keeps => ?_⟩
    exact absurd (keeps ⟨1, rfl, by decide⟩ _ rfl) (by decide)

end CommentSends
end Foti
