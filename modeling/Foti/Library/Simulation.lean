import Foti.Library.Transition
import Mathlib.Data.List.Forall2

/-!
Simulation of a partial step function by an abstract system. Each step does one operation of the
abstract system, or nothing that the relation between the two sees.
-/

namespace Transition
variable {σ ε α ο : Type*}

/-- The operations lead from one abstract state to another. -/
inductive Steps (Next : α → ο → α → Prop) : α → List ο → α → Prop where
  | nil {a : α} : Steps Next a [] a
  | cons {a b c : α} {o : ο} {os : List ο} : Next a o b → Steps Next b os c → Steps Next a (o :: os) c

section
variable {step : σ → ε → Option σ} {Next : α → ο → α → Prop}

theorem Steps.keeps {I : α → Prop} (keeps : ∀ a o b, I a → Next a o b → I b) {a b : α} {os : List ο}
    (h : Steps Next a os b) (initial : I a) : I b := by
  induction h with
  | nil => exact initial
  | cons next _ ih => exact ih (keeps _ _ _ initial next)

/-- A simulation of every step is one of every run, whose operations are those of some of its events. -/
theorem run_simulated {R : σ → α → Prop} {Carries : ε → ο → Prop}
    (simulated : ∀ s e t a, R s a → step s e = some t → R t a ∨ ∃ o b, Carries e o ∧ Next a o b ∧ R t b)
    {s t : σ} {es : List ε} {a : α} (h : run step s es = some t) (start : R s a) :
    ∃ os b, Steps Next a os b ∧ List.SublistForall₂ (fun o e => Carries e o) os es ∧ R t b := by
  induction es generalizing s a with
  | nil =>
    obtain rfl := Option.some.inj h
    exact ⟨[], a, .nil, .nil, start⟩
  | cons e rest ih =>
    obtain ⟨m, first, h⟩ := run_cons_ok h
    rcases simulated s e m a start first with same | ⟨o, b, carries, next, related⟩
    · obtain ⟨os, b, steps, carried, related⟩ := ih h same
      exact ⟨os, b, steps, .cons_right carried, related⟩
    · obtain ⟨os, c, steps, carried, related⟩ := ih h related
      exact ⟨o :: os, c, .cons next steps, .cons carries carried, related⟩

/-- Where the abstract system is a partial step function too, a step may take several of its steps. What the
events meet, these steps meet in their own way. -/
theorem run_refined_along {τ δ : Type*} {stepB : τ → δ → Option τ} {R : σ → τ → Prop} {C : σ → ε → Prop}
    {D : τ → δ → Prop}
    (refined : ∀ s e t a, R s a → C s e → step s e = some t →
      ∃ ds b, run stepB a ds = some b ∧ Along stepB D a ds ∧ R t b)
    {s t : σ} {es : List ε} {a : τ} (h : run step s es = some t) (meets : Along step C s es) (start : R s a) :
    ∃ ds b, run stepB a ds = some b ∧ Along stepB D a ds ∧ R t b := by
  induction es generalizing s a with
  | nil =>
    obtain rfl := Option.some.inj h
    exact ⟨[], a, rfl, trivial, start⟩
  | cons e rest ih =>
    obtain ⟨m, first, h⟩ := run_cons_ok h
    obtain ⟨ds, b, reached, met, related⟩ := refined s e m a start meets.1 first
    obtain ⟨ds', c, later, met', related⟩ := ih h (meets.2 m first) related
    exact ⟨ds ++ ds', c, run_append_of reached later, along_append reached met met', related⟩

theorem run_refined {τ δ : Type*} {stepB : τ → δ → Option τ} {R : σ → τ → Prop}
    (refined : ∀ s e t a, R s a → step s e = some t → ∃ ds b, run stepB a ds = some b ∧ R t b)
    {s t : σ} {es : List ε} {a : τ} (h : run step s es = some t) (start : R s a) :
    ∃ ds b, run stepB a ds = some b ∧ R t b := by
  obtain ⟨ds, b, reached, _, related⟩ := run_refined_along (D := fun _ _ => True) (fun s e t a related _ stepped => by
    obtain ⟨ds, b, reached, related⟩ := refined s e t a related stepped
    exact ⟨ds, b, reached, along_of_forall fun _ _ _ => trivial, related⟩) h (along_of_forall fun _ _ _ => trivial) start
  exact ⟨ds, b, reached, related⟩

end
end Transition
