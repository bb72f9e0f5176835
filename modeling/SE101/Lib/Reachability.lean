import Mathlib.Logic.Relation

set_option relaxedAutoImplicit false
set_option autoImplicit false

/-!
# Reachable states

A transition system is a set of initial states and a step relation; a state is reachable if a
run from an initial state ends in it. What holds initially and is preserved by every step holds
of every reachable state.

## Main definitions

* `Reachability.Reachable` — the reachable states of a system.

## Main results

* `Reachability.Reachable.invariant` — the rule for invariants.
* `Reachability.Reachable.map` — what a system does is seen in a system that it is mapped to.
* `Reachability.Reachable.mono` — a system with fewer steps reaches fewer states.
-/

namespace Reachability

variable {σ τ : Type*} {init : σ → Prop} {step step' : σ → σ → Prop} {s s' : σ}

/-- A run from an initial state ends in `s`. -/
def Reachable (init : σ → Prop) (step : σ → σ → Prop) (s : σ) : Prop :=
  ∃ s₀, init s₀ ∧ Relation.ReflTransGen step s₀ s

/-- Initial states are reachable. -/
lemma Reachable.of_init (h : init s) : Reachable init step s := ⟨s, h, .refl⟩

/-- What follows a reachable state is reachable. -/
lemma Reachable.tail (h : Reachable init step s) (hs : step s s') : Reachable init step s' := by
  obtain ⟨s₀, h₀, hrun⟩ := h
  exact ⟨s₀, h₀, hrun.tail hs⟩

/-- A run continues a run. -/
lemma Reachable.trans (h : Reachable init step s) (hs : Relation.ReflTransGen step s s') :
    Reachable init step s' := by
  obtain ⟨s₀, h₀, hrun⟩ := h
  exact ⟨s₀, h₀, hrun.trans hs⟩

/-- **Invariants.** A property of the initial states that every step from a reachable state
preserves is a property of all reachable states. -/
theorem Reachable.invariant {P : σ → Prop} (hinit : ∀ s, init s → P s)
    (hstep : ∀ s s', Reachable init step s → P s → step s s' → P s')
    (h : Reachable init step s) : P s := by
  obtain ⟨s₀, h₀, hrun⟩ := h
  induction hrun with
  | refl => exact hinit s₀ h₀
  | tail hrun hs ih => exact hstep _ _ ⟨s₀, h₀, hrun⟩ ih hs

/-- **Projections.** What a system does is seen in a system that it is mapped to. -/
lemma Reachable.map {init' : τ → Prop} {step' : τ → τ → Prop} (f : σ → τ)
    (hinit : ∀ s, init s → init' (f s)) (hstep : ∀ s s', step s s' → step' (f s) (f s'))
    (h : Reachable init step s) : Reachable init' step' (f s) := by
  obtain ⟨s₀, h₀, hrun⟩ := h
  exact ⟨f s₀, hinit s₀ h₀, hrun.lift f hstep⟩

/-- More steps reach more states. -/
lemma Reachable.mono (hsub : ∀ s s', step s s' → step' s s') (h : Reachable init step s) :
    Reachable init step' s :=
  h.map id (fun _ => id) hsub

end Reachability
