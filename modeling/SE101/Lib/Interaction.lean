import Mathlib.Data.List.Basic

set_option relaxedAutoImplicit false
set_option autoImplicit false

/-!
# Programs over an interface

A program calls the functions of an interface, and what it calls next depends on what it has been
given so far. Two implementations of an interface cannot be told apart if the program is given the
same results by both.

An implementation that is told in advance how its calls will turn out is seen to be as good as one
that finds out as it goes along from the end of a run: what it has to be told for the rest of a run
says what it has to be told before.

## Main definitions

* `Interaction.run` — the results that a program is given, and the state that it leaves.

## Main results

* `Interaction.exists_run_eq` — the rule for implementations that are told in advance.
-/

namespace Interaction

variable {κ ρ σ τ ω : Type*}

/-- A program makes at most `n` calls. It sees the results, the last one first, and may stop. -/
def run (call : κ → σ → ρ × σ) (program : List ρ → Option κ) :
    ℕ → List ρ → σ → List ρ × σ
  | 0, results, s => (results, s)
  | n + 1, results, s =>
    match program results with
    | none => (results, s)
    | some c => run call program n ((call c s).1 :: results) (call c s).2

/-- **Being told in advance.** If for every call, and whatever is told for the time after it,
something can be told before it that makes the two implementations agree, then they agree on every
run of every program. -/
theorem exists_run_eq {call : κ → σ → ρ × σ} {call' : κ → τ → ρ × τ} (abstr : σ → ω → τ) (last : ω)
    (hcall : ∀ c s w', ∃ w, call' c (abstr s w) = ((call c s).1, abstr (call c s).2 w'))
    (program : List ρ → Option κ) (n : ℕ) (results : List ρ) (s : σ) :
    ∃ w, run call' program n results (abstr s w) =
      ((run call program n results s).1, abstr (run call program n results s).2 last) := by
  induction n generalizing results s with
  | zero => exact ⟨last, rfl⟩
  | succ n ih =>
    simp only [run]
    cases hprog : program results with
    | none => exact ⟨last, rfl⟩
    | some c =>
      obtain ⟨w', hrun⟩ := ih ((call c s).1 :: results) (call c s).2
      obtain ⟨w, hw⟩ := hcall c s w'
      refine ⟨w, ?_⟩
      dsimp only
      rw [hw]
      exact hrun

end Interaction
