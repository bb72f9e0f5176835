import Mathlib.Data.Nat.Notation
import Mathlib.Data.Option.Basic

set_option relaxedAutoImplicit false
set_option autoImplicit false

/-!
# Simulation of bounded runs

An interpreter runs a step function for a bounded number of steps, as long as the status of the
last step says that it should go on. A specification is such an interpreter whose step may be
undefined. If every defined step of the specification is matched by a step of the machine, with
the same status, then so is every run of the specification that stays defined.

## Main definitions

* `Simulation.run` — the loop on a step function.
* `Simulation.runPart` — the loop on a step function that may be undefined.
* `Simulation.Forward` — a relation under which a machine follows a specification.

## Main results

* `Simulation.Forward.run` — the machine follows every run of the specification.
-/

namespace Simulation

variable {σ τ ε : Type*} [DecidableEq ε]

/-- The loop on a step function: at most `k` steps, each of them only if the last status is `go`.
The result has the number of steps, the last status and the last state. -/
def run (go : ε) (step : τ → ε × τ) : ℕ → ℕ → ε → τ → ℕ × ε × τ
  | 0, n, e, t => (n, e, t)
  | k + 1, n, e, t =>
    if e = go then run go step k (n + 1) (step t).1 (step t).2 else (n, e, t)

/-- The loop on a step function that may be undefined; so is then the run. -/
def runPart (go : ε) (step : σ → Option (ε × σ)) : ℕ → ℕ → ε → σ → Option (ℕ × ε × σ)
  | 0, n, e, s => some (n, e, s)
  | k + 1, n, e, s =>
    if e = go then (step s).bind fun r => runPart go step k (n + 1) r.1 r.2 else some (n, e, s)

/-- A machine follows a specification: from related states that go on, a defined step of the
specification is a step of the machine to the same status and a related state. What is related
may depend on the status. -/
def Forward (go : ε) (src : σ → Option (ε × σ)) (tgt : τ → ε × τ) (R : ε → σ → τ → Prop) : Prop :=
  ∀ s t e s', R go s t → src s = some (e, s') → (tgt t).1 = e ∧ R e s' (tgt t).2

variable {go : ε} {src : σ → Option (ε × σ)} {tgt : τ → ε × τ} {R : ε → σ → τ → Prop}

/-- **Simulation of runs.** A machine that follows the steps of a specification follows its
runs: the same number of steps, the same status, and related states.

**Proof sketch.** Induct on the bound. A run that has stopped is at its end in both. Otherwise
the step is defined because the run is, and the induction hypothesis is for the states behind
it. -/
theorem Forward.run (h : Forward go src tgt R) (k : ℕ) : ∀ (n : ℕ) (e : ε) (s : σ) (t : τ),
    R e s t → ∀ r, runPart go src k n e s = some r →
    ∃ t', Simulation.run go tgt k n e t = (r.1, r.2.1, t') ∧ R r.2.1 r.2.2 t' := by
  induction k with
  | zero =>
    intro n e s t hR r hr
    obtain rfl := Option.some.inj hr
    exact ⟨t, rfl, hR⟩
  | succ k ih =>
    intro n e s t hR r hr
    by_cases he : e = go
    · subst he
      simp only [runPart, if_true, Option.bind_eq_some_iff] at hr
      obtain ⟨⟨e', s'⟩, hstep, hrest⟩ := hr
      obtain ⟨hstat, hR'⟩ := h s t e' s' hR hstep
      obtain ⟨t', hrun, hend⟩ := ih (n + 1) e' s' (tgt t).2 hR' r hrest
      refine ⟨t', ?_, hend⟩
      rw [Simulation.run, if_pos rfl, hstat]
      exact hrun
    · rw [runPart, if_neg he] at hr
      obtain rfl := Option.some.inj hr
      refine ⟨t, ?_, hR⟩
      rw [Simulation.run, if_neg he]

end Simulation
