import Mathlib.Data.List.Basic

set_option relaxedAutoImplicit false
set_option autoImplicit false

/-!
# Lifecycles

A resource is opened, used and closed, in this order and once. The history of a resource is what
has happened to it, the last event first.

## Main definitions

* `Lifecycle.Event`, `Lifecycle.Phase` — what happens to a resource, and the state it is in.
* `Lifecycle.step`, `Lifecycle.after` — the phase after an event, and after a history.

## Main results

* `Lifecycle.count_opens`, `Lifecycle.count_closes` — how often a resource was opened and closed.
* `Lifecycle.eq_nil_of_closes` — nothing happens to a resource after it was closed.
-/

namespace Lifecycle

/-- What happens to a resource. -/
inductive Event
  | opens
  | uses
  | closes
  deriving DecidableEq

/-- The state of a resource. -/
inductive Phase
  /-- It has not been opened. -/
  | idle
  /-- It is open. -/
  | live
  /-- It has been closed. -/
  | done
  deriving DecidableEq

/-- The phase after an event, or `none` if the event must not happen. -/
def step : Phase → Event → Option Phase
  | .idle, .opens => some .live
  | .live, .uses => some .live
  | .live, .closes => some .done
  | _, _ => none

/-- The phase after a history, or `none` if something happened that must not. -/
def after (p : Phase) : List Event → Option Phase
  | [] => some p
  | e :: es => (after p es).bind (step · e)

variable {p q : Phase} {e : Event} {es es' : List Event}

/-- The phase before the last event. -/
lemma after_cons : after p (e :: es) = some q ↔ ∃ r, after p es = some r ∧ step r e = some q :=
  Option.bind_eq_some_iff

/-- A resource stays open while it is used. -/
lemma after_uses (h : after p es = some .live) (hes : ∀ e ∈ es', e = .uses) :
    after p (es' ++ es) = some .live := by
  induction es' with
  | nil => exact h
  | cons e es' ih =>
    obtain ⟨he, hrest⟩ := List.forall_mem_cons.1 hes
    exact after_cons.2 ⟨.live, ih hrest, he ▸ rfl⟩

/-- **Closing.** A resource was closed once if it is closed now, and otherwise not at all. -/
theorem count_closes (hp : p ≠ .done) (h : after p es = some q) :
    es.count .closes = if q = .done then 1 else 0 := by
  induction es generalizing q with
  | nil =>
    cases h
    rw [if_neg hp]
    rfl
  | cons e es ih =>
    obtain ⟨r, hr, hstep⟩ := after_cons.1 h
    have hcount := ih hr
    cases r <;> cases e <;> cases hstep <;> simpa using hcount

/-- **Opening.** A resource was opened once, unless it still has not been. -/
theorem count_opens (h : after .idle es = some q) :
    es.count .opens = if q = .idle then 0 else 1 := by
  induction es generalizing q with
  | nil =>
    cases h
    rfl
  | cons e es ih =>
    obtain ⟨r, hr, hstep⟩ := after_cons.1 h
    have hcount := ih hr
    cases r <;> cases e <;> cases hstep <;> simpa using hcount

/-- A resource that has just been closed is closed. -/
lemma eq_done_of_closes (h : after p (.closes :: es) = some q) : q = .done := by
  obtain ⟨r, -, hstep⟩ := after_cons.1 h
  cases r <;> cases hstep
  rfl

/-- **After closing.** Nothing happens to a resource after it was closed. -/
theorem eq_nil_of_closes (h : after p (es' ++ .closes :: es) = some q) : es' = [] := by
  induction es' generalizing q with
  | nil => rfl
  | cons e es' ih =>
    exfalso
    obtain ⟨r, hr, hstep⟩ := after_cons.1 h
    obtain rfl := ih hr
    rw [eq_done_of_closes hr] at hstep
    cases e <;> cases hstep

end Lifecycle
