import Mathlib.Data.Finset.Card
import Mathlib.Data.Finset.Erase

set_option relaxedAutoImplicit false
set_option autoImplicit false

/-!
# Semaphores

A semaphore has a number of free permits. A thread takes one before it enters a section of its
program and gives it back when it leaves, so that the free permits and the threads that are inside
are together as many as there were at the beginning. With one permit, at most one thread is inside.

## Main definitions

* `Semaphore.Guards` — the free permits and the threads inside add up.

## Main results

* `Semaphore.Guards.enter`, `Semaphore.Guards.leave` — taking a permit and giving it back.
* `Semaphore.Guards.mutex` — with one permit, at most one thread is inside.
-/

namespace Semaphore

variable {ι : Type*} {value total : ℕ} {inside inside' : ι → Prop} {i j : ι}

/-- The threads that are inside hold the permits that are not free. -/
def Guards (value total : ℕ) (inside : ι → Prop) : Prop :=
  ∃ s : Finset ι, (∀ i, i ∈ s ↔ inside i) ∧ value + s.card = total

/-- Nobody is inside at the beginning. -/
lemma guards_of_none (h : ∀ i, ¬ inside i) : Guards total total inside :=
  ⟨∅, fun i => by simp [h i], by simp⟩

/-- The same threads are inside. -/
lemma Guards.congr (h : Guards value total inside) (hiff : ∀ i, inside' i ↔ inside i) :
    Guards value total inside' := by
  obtain ⟨s, hs, hsum⟩ := h
  exact ⟨s, fun i => (hs i).trans (hiff i).symm, hsum⟩

/-- **Taking a permit**, if there is a free one. -/
theorem Guards.enter (h : Guards (value + 1) total inside) (hi : ¬ inside i)
    (hiff : ∀ j, inside' j ↔ j = i ∨ inside j) : Guards value total inside' := by
  classical
  obtain ⟨s, hs, hsum⟩ := h
  have hnot : i ∉ s := fun hmem => hi ((hs i).1 hmem)
  refine ⟨insert i s, fun j => ?_, ?_⟩
  · rw [Finset.mem_insert, hs, hiff]
  · rw [Finset.card_insert_of_notMem hnot]
    omega

/-- **Giving it back.** -/
theorem Guards.leave (h : Guards value total inside) (hi : inside i)
    (hiff : ∀ j, inside' j ↔ j ≠ i ∧ inside j) : Guards (value + 1) total inside' := by
  classical
  obtain ⟨s, hs, hsum⟩ := h
  have hmem : i ∈ s := (hs i).2 hi
  refine ⟨s.erase i, fun j => ?_, ?_⟩
  · rw [Finset.mem_erase, hs, hiff]
  · have hpos := Finset.card_pos.2 ⟨i, hmem⟩
    rw [Finset.card_erase_of_mem hmem]
    omega

/-- **Mutual exclusion.** -/
theorem Guards.mutex (h : Guards value 1 inside) (hi : inside i) (hj : inside j) : i = j := by
  obtain ⟨s, hs, hsum⟩ := h
  exact Finset.card_le_one.1 (by omega) i ((hs i).2 hi) j ((hs j).2 hj)

/-- A free permit of only one means that nobody is inside. -/
lemma Guards.none_inside (h : Guards (value + 1) 1 inside) (i : ι) : ¬ inside i := by
  obtain ⟨s, hs, hsum⟩ := h
  intro hi
  have hpos := Finset.card_pos.2 ⟨i, (hs i).2 hi⟩
  omega

end Semaphore
