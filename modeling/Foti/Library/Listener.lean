import Foti.Library.Entries
import Mathlib.Data.List.Nodup

/-!
Snapshot listeners on the topics of a store. What is published on a topic is pending at each
listener that is on it, until a snapshot delivers it. A query's snapshot delivers the oldest
entries; a document's snapshot delivers one version and skips the older ones.
-/

namespace Listening
open Entries
variable {κ ρ α : Type*}

/-- A live listener. Its first snapshot delivers at least the `initial` entries that existed. -/
structure Listener (κ ρ α : Type*) where
  topic : κ
  closure : ρ
  initial : Nat
  pending : List α
  deriving DecidableEq, Repr

def publish [DecidableEq κ] (topic : κ) (a : α) (ls : List (Listener κ ρ α)) : List (Listener κ ρ α) :=
  ls.map fun l => if l.topic = topic then { l with pending := l.pending ++ [a] } else l

def Listener.after (l : Listener κ ρ α) (n : Nat) : Listener κ ρ α :=
  { l with initial := 0, pending := l.pending.drop n }

/-- The next snapshot of a query's listener, with its first `n` pending entries. -/
def deliver (ls : List (Listener κ ρ α)) (i n : Nat) : Option (Listener κ ρ α × List (Listener κ ρ α)) :=
  ls[i]?.bind fun l => if l.initial ≤ n then some (l, ls.set i (l.after n)) else none

/-- The next snapshot of a document's listener, with version `k` of its pending ones. -/
def deliverVersion (ls : List (Listener κ ρ α)) (i k : Nat) :
    Option (Listener κ ρ α × α × List (Listener κ ρ α)) :=
  ls[i]?.bind fun l => l.pending[k]?.map fun version => (l, version, ls.set i (l.after (k + 1)))

/-- Listener `i` has one more entry, which depends on its topic. -/
def enqueue (ls : List (Listener κ ρ α)) (i : Nat) (entry : κ → Option α) : Option (α × List (Listener κ ρ α)) :=
  ls[i]?.bind fun l => (entry l.topic).map fun a => (a, ls.set i { l with pending := l.pending ++ [a] })

def undelivered (ls : List (Listener κ ρ α)) : List α := ls.flatMap fun l => l.pending

theorem deliver_ok {ls rest : List (Listener κ ρ α)} {i n : Nat} {l : Listener κ ρ α}
    (h : deliver ls i n = some (l, rest)) :
    ls[i]? = some l ∧ rest = ls.set i (l.after n) := by
  simp only [deliver, Option.bind_eq_some_iff, Option.ite_none_right_eq_some, Option.some.injEq,
    Prod.mk.injEq] at h
  obtain ⟨l', found, _, rfl, rfl⟩ := h
  exact ⟨found, rfl⟩

theorem deliverVersion_ok {ls rest : List (Listener κ ρ α)} {i k : Nat} {l : Listener κ ρ α} {version : α}
    (h : deliverVersion ls i k = some (l, version, rest)) :
    ls[i]? = some l ∧ l.pending[k]? = some version ∧ rest = ls.set i (l.after (k + 1)) := by
  simp only [deliverVersion, Option.bind_eq_some_iff, Option.map_eq_some_iff, Prod.mk.injEq] at h
  obtain ⟨l', found, version', pending, rfl, rfl, rfl⟩ := h
  exact ⟨found, pending, rfl⟩

theorem enqueue_ok {ls rest : List (Listener κ ρ α)} {i : Nat} {entry : κ → Option α} {a : α}
    (h : enqueue ls i entry = some (a, rest)) :
    ∃ l, ls[i]? = some l ∧ entry l.topic = some a ∧ rest = ls.set i { l with pending := l.pending ++ [a] } := by
  obtain ⟨l, found, h⟩ := Option.bind_eq_some_iff.mp h
  obtain ⟨a', entered, same⟩ := Option.map_eq_some_iff.mp h
  obtain ⟨rfl, rfl⟩ := Prod.mk.inj same
  exact ⟨l, found, entered, rfl⟩

theorem mem_undelivered {ls : List (Listener κ ρ α)} {a : α} :
    a ∈ undelivered ls ↔ ∃ l ∈ ls, a ∈ l.pending := List.mem_flatMap

theorem undelivered_cons (l : Listener κ ρ α) (ls : List (Listener κ ρ α)) :
    undelivered (l :: ls) = l.pending ++ undelivered ls := List.flatMap_cons

theorem undelivered_concat (ls : List (Listener κ ρ α)) (l : Listener κ ρ α) :
    undelivered (ls ++ [l]) = undelivered ls ++ l.pending := by
  simp [undelivered, List.flatMap_append]

section Publish
variable [DecidableEq κ] {topic : κ} {a : α} {ls : List (Listener κ ρ α)}

theorem publish_mem {l : Listener κ ρ α} (h : l ∈ publish topic a ls) :
    ∃ m ∈ ls, l.topic = m.topic ∧ l.closure = m.closure ∧
      (l.pending = m.pending ∨ m.topic = topic ∧ l.pending = m.pending ++ [a]) := by
  obtain ⟨m, hm, rfl⟩ := List.mem_map.mp h
  refine ⟨m, hm, ?_⟩
  split
  · rename_i on
    exact ⟨rfl, rfl, .inr ⟨on, rfl⟩⟩
  · exact ⟨rfl, rfl, .inl rfl⟩

theorem publish_pending {P : κ → α → Prop} (h : ∀ l ∈ ls, ∀ b ∈ l.pending, P l.topic b) (new : P topic a) :
    ∀ l ∈ publish topic a ls, ∀ b ∈ l.pending, P l.topic b := by
  intro l hl b hb
  obtain ⟨m, hm, same, _, kept | ⟨on, added⟩⟩ := publish_mem hl
  · exact same ▸ h m hm b (kept ▸ hb)
  · rcases List.mem_append.mp (added ▸ hb) with old | fresh
    · exact same ▸ h m hm b old
    · rw [List.mem_singleton.mp fresh, same, on]
      exact new

/-- A listener stays, with what it had pending, and has `a` pending when it is on the topic. -/
theorem publish_keeps (topic : κ) (a : α) {m : Listener κ ρ α} (hm : m ∈ ls) :
    ∃ l ∈ publish topic a ls, l.topic = m.topic ∧ (∀ b ∈ m.pending, b ∈ l.pending) ∧
      (m.topic = topic → a ∈ l.pending) := by
  refine ⟨_, List.mem_map.mpr ⟨m, hm, rfl⟩, ?_⟩
  split
  · exact ⟨rfl, fun b hb => List.mem_append_left _ hb, fun _ => by simp⟩
  · rename_i off
    exact ⟨rfl, fun b hb => hb, fun on => (off on).elim⟩

theorem publish_topics (topic : κ) (a : α) (ls : List (Listener κ ρ α)) :
    (publish topic a ls).map (·.topic) = ls.map (·.topic) := by
  simp only [publish, List.map_map]
  refine List.map_congr_left fun l _ => ?_
  simp only [Function.comp]
  split <;> rfl

theorem publish_cons (l : Listener κ ρ α) : publish topic a (l :: ls) =
    (if l.topic = topic then { l with pending := l.pending ++ [a] } else l) :: publish topic a ls := rfl

theorem publish_off (off : ∀ l ∈ ls, l.topic ≠ topic) : publish topic a ls = ls := by
  refine (List.map_congr_left fun l hl => ?_).trans (List.map_id ls)
  exact if_neg (off l hl)

theorem publish_undelivered (topic : κ) (a : α) (single : (ls.map (·.topic)).Nodup) :
    (undelivered (publish topic a ls)).Perm (undelivered ls) ∨
      (undelivered (publish topic a ls)).Perm (a :: undelivered ls) := by
  induction ls with
  | nil => exact .inl (.refl _)
  | cons l rest ih =>
    simp only [List.map_cons, List.nodup_cons, List.mem_map, not_exists, not_and] at single
    rw [publish_cons]
    by_cases on : l.topic = topic
    · have others : publish topic a rest = rest :=
        publish_off fun m hm same => single.1 m hm (same.trans on.symm)
      rw [if_pos on, others]
      right
      simp only [undelivered, List.flatMap_cons, List.append_assoc, List.singleton_append]
      exact List.perm_middle
    · rw [if_neg on]
      rcases ih single.2 with same | added
      · exact .inl (same.append_left l.pending)
      · exact .inr ((added.append_left l.pending).trans List.perm_middle)

/-- What is published becomes pending once at each listener on its topic, and nothing else does. -/
theorem publish_countP (p : α → Bool) (topic : κ) (a : α) (ls : List (Listener κ ρ α)) :
    (undelivered (publish topic a ls)).countP p =
      (undelivered ls).countP p + if p a then (ls.map (·.topic)).count topic else 0 := by
  induction ls with
  | nil => simp [publish, undelivered]
  | cons l rest ih =>
    rw [publish_cons, undelivered_cons, undelivered_cons, List.countP_append, List.countP_append, ih, List.map_cons,
      List.count_cons]
    by_cases on : l.topic = topic
    · cases counted : p a
      · simp [on, counted]
      · simp only [on, if_true, List.countP_append, List.countP_singleton, counted, beq_self_eq_true]
        omega
    · simp [on, Nat.add_assoc]

end Publish

theorem after_topics {ls : List (Listener κ ρ α)} {i n : Nat} {l : Listener κ ρ α} (found : ls[i]? = some l) :
    (ls.set i (l.after n)).map (·.topic) = ls.map (·.topic) := map_set_same found rfl

theorem undelivered_set {ls : List (Listener κ ρ α)} {i n : Nat} {l : Listener κ ρ α}
    (found : ls[i]? = some l) :
    (undelivered ls).Perm (l.pending.take n ++ undelivered (ls.set i (l.after n))) := by
  induction ls generalizing i with
  | nil => cases found
  | cons m rest ih =>
    cases i with
    | zero =>
      obtain rfl := Option.some.inj found
      simp only [List.set_cons_zero, undelivered_cons, Listener.after, ← List.append_assoc, List.take_append_drop]
      exact .refl _
    | succ i =>
      simp only [List.set_cons_succ, undelivered_cons]
      exact ((ih found).append_left m.pending).trans (List.perm_append_comm_assoc _ _ _)

theorem undelivered_eraseIdx (ls : List (Listener κ ρ α)) (i : Nat) :
    (undelivered (ls.eraseIdx i)).Sublist (undelivered ls) := by
  induction ls generalizing i with
  | nil => exact .refl _
  | cons l rest ih =>
    cases i with
    | zero => exact List.sublist_append_right _ _
    | succ i => exact (ih i).append_left l.pending

/-! ### What is left to deliver -/

/-- The end of each listener, and for each pending entry its delivery and what that starts. -/
def left (ls : List (Listener κ ρ α)) : Nat := (ls.map fun l => 1 + 2 * l.pending.length).sum

/-- The snapshot of a listener brings something. -/
def Brings (ls : List (Listener κ ρ α)) (i n : Nat) : Prop := ∃ l, ls[i]? = some l ∧ l.pending.take n ≠ []

theorem left_concat (ls : List (Listener κ ρ α)) (l : Listener κ ρ α) :
    left (ls ++ [l]) = left ls + (1 + 2 * l.pending.length) := by
  simp [left]

theorem deliver_left {ls rest : List (Listener κ ρ α)} {i n : Nat} {l : Listener κ ρ α} (brings : Brings ls i n)
    (delivered : deliver ls i n = some (l, rest)) : left rest + (l.pending.take n).length < left ls := by
  obtain ⟨found, rfl⟩ := deliver_ok delivered
  obtain ⟨m, listed, some_taken⟩ := brings
  obtain rfl := Option.some.inj (found.symm.trans listed)
  have taken := List.length_pos_iff.mpr some_taken
  have parts := congrArg List.length (List.take_append_drop n l.pending)
  have sums := sum_set (f := fun l : Listener κ ρ α => 1 + 2 * l.pending.length) found (l.after n)
  rw [List.length_append] at parts
  simp only [left, Listener.after] at sums ⊢
  omega

theorem eraseIdx_left {ls : List (Listener κ ρ α)} {i : Nat} (inside : i < ls.length) :
    left (ls.eraseIdx i) < left ls := by
  have sums := sum_eraseIdx (f := fun l : Listener κ ρ α => 1 + 2 * l.pending.length) (List.getElem?_eq_getElem inside)
  simp only [left] at sums ⊢
  omega

/-- As long as something is undelivered, a snapshot can bring some of it. -/
theorem can_deliver {ls : List (Listener κ ρ α)} (waits : undelivered ls ≠ []) :
    ∃ i n l rest, Brings ls i n ∧ deliver ls i n = some (l, rest) := by
  obtain ⟨a, ha⟩ := List.exists_mem_of_ne_nil _ waits
  obtain ⟨l, hl, pending⟩ := mem_undelivered.mp ha
  obtain ⟨i, found⟩ := List.mem_iff_getElem?.mp hl
  have all : l.pending.take (l.initial + l.pending.length) = l.pending := List.take_of_length_le (Nat.le_add_left _ _)
  refine ⟨i, l.initial + l.pending.length, l, ls.set i (l.after (l.initial + l.pending.length)), ⟨l, found, ?_⟩, ?_⟩
  · rw [all]
    exact List.ne_nil_of_mem pending
  · simp [deliver, found]

theorem can_deliver_version {ls : List (Listener κ ρ α)} (waits : undelivered ls ≠ []) :
    ∃ i l version rest, deliverVersion ls i 0 = some (l, version, rest) := by
  obtain ⟨a, ha⟩ := List.exists_mem_of_ne_nil _ waits
  obtain ⟨l, hl, pending⟩ := mem_undelivered.mp ha
  obtain ⟨i, found⟩ := List.mem_iff_getElem?.mp hl
  obtain ⟨version, versions, first⟩ := List.exists_cons_of_ne_nil (List.ne_nil_of_mem pending)
  exact ⟨i, l, version, ls.set i (l.after 1), by simp [deliverVersion, found, first]⟩

/-! ### A single listener -/

/-- `taken` are the entries that the topic's one listener has delivered. As long as it is live, what it was
given has been delivered or is pending. -/
inductive Tracks (given : List α) (topic : κ) (taken : List α) : List (Listener κ ρ α) → Prop where
  | live {l : Listener κ ρ α} (on : l.topic = topic) (all : (taken ++ l.pending).Perm given) :
      Tracks given topic taken [l]
  | ended (within : taken.Subperm given) : Tracks given topic taken []

section Tracks
variable {given taken : List α} {topic : κ} {ls : List (Listener κ ρ α)}

theorem Tracks.within (h : Tracks given topic taken ls) : taken.Subperm given := by
  cases h with
  | live on all => exact (List.sublist_append_left taken _).subperm.trans all.subperm
  | ended within => exact within

theorem Tracks.caught_up (h : Tracks given topic taken ls) (idle : ∃ l ∈ ls, l.pending = []) : taken.Perm given := by
  obtain ⟨m, hm, none_pending⟩ := idle
  cases h with
  | live on all =>
    obtain rfl := List.mem_singleton.mp hm
    rwa [none_pending, List.append_nil] at all
  | ended => cases hm

theorem Tracks.on (h : Tracks given topic taken ls) {l : Listener κ ρ α} (hl : l ∈ ls) : l.topic = topic := by
  cases h with
  | live on => exact List.mem_singleton.mp hl ▸ on
  | ended => cases hl

theorem Tracks.deliver {rest : List (Listener κ ρ α)} {l : Listener κ ρ α} {i n : Nat}
    (h : Tracks given topic taken ls) (delivered : deliver ls i n = some (l, rest)) :
    Tracks given topic (taken ++ l.pending.take n) rest := by
  obtain ⟨found, rfl⟩ := deliver_ok delivered
  cases h with
  | live on all =>
    rw [List.getElem?_singleton] at found
    obtain ⟨rfl, same⟩ := Option.ite_none_right_eq_some.mp found
    obtain rfl := Option.some.inj same
    refine .live on ?_
    rwa [Listener.after, List.append_assoc, List.take_append_drop]
  | ended => cases found

theorem Tracks.eraseIdx (h : Tracks given topic taken ls) (i : Nat) : Tracks given topic taken (ls.eraseIdx i) := by
  have within := h.within
  cases h with
  | live on all =>
    cases i with
    | zero => exact .ended within
    | succ i => exact .live on all
  | ended => exact .ended within

theorem Tracks.enqueue {n : Nat} {l : Listener κ ρ α} (h : Tracks given topic taken ls) (found : ls[n]? = some l) (a : α) :
    Tracks (given ++ [a]) topic taken (ls.set n { l with pending := l.pending ++ [a] }) := by
  cases h with
  | live on all =>
    rw [List.getElem?_singleton] at found
    obtain ⟨rfl, same⟩ := Option.ite_none_right_eq_some.mp found
    obtain rfl := Option.some.inj same
    refine .live on ?_
    rw [← List.append_assoc]
    exact all.append_right [a]
  | ended => cases found

end Tracks

end Listening
