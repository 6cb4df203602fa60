import Foti.Library.Transition
import Mathlib.Order.WellFounded

/-!
Steps that come to an end. Where each step of a kind lowers a rank no run of such steps is endless, and
where one is possible in every state that is not at rest they lead to rest from any state.
-/

namespace Transition
variable {σ ε : Type*} {step : σ → ε → Option σ} {C : σ → ε → Prop}

/-- `t` comes after `s` by a step that meets `C`. -/
def Successor (step : σ → ε → Option σ) (C : σ → ε → Prop) (t s : σ) : Prop := ∃ e, C s e ∧ step s e = some t

theorem successor_wellFounded {β : Type*} [Preorder β] [WellFoundedLT β] (rank : σ → β)
    (lowers : ∀ s e t, C s e → step s e = some t → rank t < rank s) : WellFounded (Successor step C) := by
  refine Subrelation.wf (fun {t s} next => ?_) (InvImage.wf rank wellFounded_lt)
  obtain ⟨e, meets, stepped⟩ := next
  exact lowers s e t meets stepped

theorem not_endless (ends : WellFounded (Successor step C)) (f : Nat → σ) : ∃ n, ¬ Successor step C (f (n + 1)) (f n) := by
  have : IsWellFounded σ (Successor step C) := ⟨ends⟩
  exact WellFounded.not_rel_apply_succ f

/-- As long as a state is not at rest a step is possible, so steps of the kind lead to rest. -/
theorem comes_to_rest {I AtRest : σ → Prop} (ends : WellFounded (Successor step C))
    (keeps : ∀ s e t, I s → C s e → step s e = some t → I t)
    (progress : ∀ s, I s → ¬ AtRest s → ∃ e t, C s e ∧ step s e = some t) (s : σ) (initial : I s) :
    ∃ es t, run step s es = some t ∧ Along step C s es ∧ I t ∧ AtRest t := by
  induction s using ends.induction with
  | _ s ih =>
    by_cases rest : AtRest s
    · exact ⟨[], s, rfl, trivial, initial, rest⟩
    · obtain ⟨e, m, meets, stepped⟩ := progress s initial rest
      obtain ⟨es, t, reached, along, kept, rest⟩ := ih m ⟨e, meets, stepped⟩ (keeps s e m initial meets stepped)
      refine ⟨e :: es, t, run_cons_of stepped reached, ⟨meets, fun m' stepped' => ?_⟩, kept, rest⟩
      obtain rfl := Option.some.inj (stepped.symm.trans stepped')
      exact along

end Transition
