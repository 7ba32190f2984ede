import Mathlib.Logic.Function.Basic

/-!
# Refinement of a service

A service takes a state to another with each request it answers; request and answer are the label
of the step. One service refines another when each of its steps is a step of the other with the
same label, between states that represent one another (`Refines`). Then each of its traces is a
trace of the other (`Refines.trace`): whoever sees only requests and answers cannot tell them apart.
-/

set_option autoImplicit false

namespace KlteCommon.Computation

variable {S T L : Type}

/-- Steps one after the other, with their labels. -/
inductive Trace (step : S → L → S → Prop) : S → List L → S → Prop
  | nil (s : S) : Trace step s [] s
  | cons {s s₁ s' : S} {l : L} {ls : List L} (h : step s l s₁) (hrest : Trace step s₁ ls s') :
      Trace step s (l :: ls) s'

/-- Every step of the one is a step of the other, from states in relation to states in relation. -/
def Refines (R : T → S → Prop) (concrete : S → L → S → Prop) (abstract : T → L → T → Prop) : Prop :=
  ∀ x s l s', R x s → concrete s l s' → ∃ x', abstract x l x' ∧ R x' s'

variable {step : S → L → S → Prop} {abstract : T → L → T → Prop} {R : T → S → Prop}

/-- What every step keeps, a trace keeps. -/
theorem Trace.invariant {I : S → Prop} (hstep : ∀ s l s', I s → step s l s' → I s') {s s' : S}
    {ls : List L} (h : Trace step s ls s') (hs : I s) : I s' := by
  induction h with
  | nil s => exact hs
  | cons hl _ ih => exact ih (hstep _ _ _ hs hl)

/-- **A refinement step by step is a refinement of whole traces.** -/
theorem Refines.trace (hR : Refines R step abstract) {x : T} {s s' : S} {ls : List L}
    (h : Trace step s ls s') (hx : R x s) : ∃ x', Trace abstract x ls x' ∧ R x' s' := by
  induction h generalizing x with
  | nil s => exact ⟨x, .nil x, hx⟩
  | cons hl _ ih =>
    obtain ⟨x₁, hstep, hx₁⟩ := hR _ _ _ _ hx hl
    obtain ⟨x', htrace, hx'⟩ := ih hx₁
    exact ⟨x', .cons hstep htrace, hx'⟩

end KlteCommon.Computation
