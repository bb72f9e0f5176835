import Mathlib.Algebra.Order.Group.Nat
import Mathlib.Logic.Function.Basic

set_option relaxedAutoImplicit false
set_option autoImplicit false

/-!
# Stores of objects

What the client of an allocator may rely on: objects that are named by addresses, each with a
number of cells. A cell of a new object is undefined until it is written; resizing an object
keeps its cells as far as there is room for them, under a name that may be new. A memory shows a
store if every defined cell is in its place behind the address of its object. The rules say for
each operation what a memory has to do so that it goes on showing the store.

## Main definitions

* `ObjectStore.Store`, `ObjectStore.Op` — the objects, and what is done with them.
* `ObjectStore.Store.apply`, `ObjectStore.Store.run` — the effect of operations.
* `ObjectStore.Shows` — the cells of the objects are in a memory.

## Main results

* `ObjectStore.Shows.alloc`, `Shows.resize`, `Shows.free`, `Shows.write` — the rules.
* `ObjectStore.Store.run_append` — operations one after the other.
-/

namespace ObjectStore

variable {α : Type*}

/-- The cells of the objects. -/
abbrev Store (α : Type*) := ℕ → Option (List (Option α))

/-- The operations on objects. -/
inductive Op (α : Type*)
  /-- A new object `p` with `n` cells. -/
  | alloc (p n : ℕ)
  /-- The object `p` becomes the object `q` with `n` cells. -/
  | resize (p q n : ℕ)
  /-- The object `p` is given up. -/
  | free (p : ℕ)
  /-- Cell `i` of the object `p` is set. -/
  | write (p i : ℕ) (v : α)

/-- Cells that have been given another number. -/
def resized (n : ℕ) (cells : List (Option α)) : List (Option α) :=
  (List.range n).map fun i => (cells[i]?).join

/-- The cells that are still defined. -/
lemma getElem?_resized {n i : ℕ} {cells : List (Option α)} {v : α} :
    (resized n cells)[i]? = some (some v) ↔ i < n ∧ cells[i]? = some (some v) := by
  by_cases hi : i < n
  · simp [resized, hi, Option.join_eq_some_iff]
  · simp [resized, hi]

/-- The number of cells. -/
@[simp] lemma length_resized (n : ℕ) (cells : List (Option α)) : (resized n cells).length = n := by
  simp [resized]

namespace Store

/-- No objects. -/
def empty : Store α := fun _ => none

/-- The store after an operation, if it is possible: objects that are used exist, and new names
are not in use. -/
def apply (s : Store α) : Op α → Option (Store α)
  | .alloc p n =>
    if (s p).isNone then some (Function.update s p (some (List.replicate n none))) else none
  | .resize p q n => (s p).bind fun cells =>
    if (Function.update s p none q).isNone then
      some (Function.update (Function.update s p none) q (some (resized n cells)))
    else none
  | .free p => (s p).map fun _ => Function.update s p none
  | .write p i v => (s p).bind fun cells =>
    if i < cells.length then some (Function.update s p (some (cells.set i (some v)))) else none

/-- The store after a number of operations, if all of them are possible. -/
def run (s : Store α) : List (Op α) → Option (Store α)
  | [] => some s
  | op :: ops => (s.apply op).bind fun s => run s ops

/-- Operations one after the other. -/
lemma run_append (s : Store α) (ops ops' : List (Op α)) :
    s.run (ops ++ ops') = (s.run ops).bind fun s => s.run ops' := by
  induction ops generalizing s with
  | nil => rfl
  | cons op ops ih =>
    rw [List.cons_append, run, run, Option.bind_assoc]
    simp only [ih]

end Store

/-! ## Memories -/

/-- Every cell that has been set is in its place. -/
def Shows (mem : ℕ → α) (s : Store α) : Prop :=
  ∀ p cells, s p = some cells → ∀ i v, cells[i]? = some (some v) → mem (p + i) = v

/-- Objects do not overlap. -/
def Apart (s : Store α) : Prop :=
  ∀ p cells, s p = some cells → ∀ q cells', s q = some cells' → p ≠ q →
    p + cells.length ≤ q ∨ q + cells'.length ≤ p

/-- Two memories agree on the cells of the objects other than `p`. -/
def AgreeBut (s : Store α) (p : ℕ) (mem mem' : ℕ → α) : Prop :=
  ∀ q cells, s q = some cells → q ≠ p → ∀ i < cells.length, mem' (q + i) = mem (q + i)

variable {mem mem' : ℕ → α} {s s' : Store α} {p q n i : ℕ} {cells : List (Option α)} {v : α}

/-- Any memory shows the store without objects. -/
lemma shows_empty (mem : ℕ → α) : Shows mem (Store.empty : Store α) := by
  intro p cells h
  cases h

/-- Giving the object `p` other cells, or a first time some, while the others are kept. -/
lemma Shows.update (h : Shows mem s) (hagree : AgreeBut s p mem mem')
    (hnew : ∀ i v, cells[i]? = some (some v) → mem' (p + i) = v) :
    Shows mem' (Function.update s p (some cells)) := by
  intro q cells' hq i v hi
  by_cases hqp : q = p
  · subst hqp
    rw [Function.update_self] at hq
    obtain rfl := Option.some.inj hq
    exact hnew i v hi
  · rw [Function.update_of_ne hqp] at hq
    obtain ⟨hlt, -⟩ := List.getElem?_eq_some_iff.1 hi
    rw [hagree q cells' hq hqp i hlt]
    exact h q cells' hq i v hi

/-- Giving the object `p` up while the others are kept. -/
lemma Shows.remove (h : Shows mem s) (hagree : AgreeBut s p mem mem') :
    Shows mem' (Function.update s p none) := by
  intro q cells hq i v hi
  by_cases hqp : q = p
  · subst hqp
    rw [Function.update_self] at hq
    cases hq
  · rw [Function.update_of_ne hqp] at hq
    obtain ⟨hlt, -⟩ := List.getElem?_eq_some_iff.1 hi
    rw [hagree q cells hq hqp i hlt]
    exact h q cells hq i v hi

/-- **Allocation.** The memory keeps the objects. -/
theorem Shows.alloc (h : Shows mem s) (hfresh : s p = none) (hagree : AgreeBut s p mem mem') :
    ∃ s', s.apply (.alloc p n) = some s' ∧ Shows mem' s' ∧
      s' = Function.update s p (some (List.replicate n none)) := by
  refine ⟨_, ?_, h.update hagree fun i v hi => ?_, rfl⟩
  · rw [Store.apply, hfresh, if_pos (by rfl)]
  · have hnone := List.eq_of_mem_replicate (List.mem_of_getElem? hi)
    cases hnone

/-- **Resizing.** The memory keeps the other objects, and the cells of this one that there is
still room for. -/
theorem Shows.resize (h : Shows mem s) (hp : s p = some cells) (hfresh : q ≠ p → s q = none)
    (hagree : AgreeBut s p mem mem')
    (hcopy : ∀ i, i < n → i < cells.length → mem' (q + i) = mem (p + i)) :
    ∃ s', s.apply (.resize p q n) = some s' ∧ Shows mem' s' ∧
      s' = Function.update (Function.update s p none) q (some (resized n cells)) := by
  have hq : Function.update s p none q = none := by
    by_cases hqp : q = p
    · rw [hqp, Function.update_self]
    · rw [Function.update_of_ne hqp, hfresh hqp]
  have hgone : Shows mem' (Function.update s p none) := h.remove hagree
  refine ⟨_, ?_, hgone.update (fun _ _ _ _ _ _ => rfl) fun i v hi => ?_, rfl⟩
  · rw [Store.apply, hp, Option.bind_some, hq, if_pos (by rfl)]
  · obtain ⟨hin, hi⟩ := getElem?_resized.1 hi
    obtain ⟨hlt, -⟩ := List.getElem?_eq_some_iff.1 hi
    rw [hcopy i hin hlt]
    exact h p cells hp i v hi

/-- **Giving up.** The memory keeps the other objects. -/
theorem Shows.free (h : Shows mem s) (hp : s p = some cells) (hagree : AgreeBut s p mem mem') :
    ∃ s', s.apply (.free p) = some s' ∧ Shows mem' s' ∧ s' = Function.update s p none :=
  ⟨_, by rw [Store.apply, hp, Option.map_some], h.remove hagree, rfl⟩

/-- **Writing.** The memory sets the byte at the place of the cell. -/
theorem Shows.write (h : Shows mem s) (hapart : Apart s) (hp : s p = some cells)
    (hi : i < cells.length) :
    ∃ s', s.apply (.write p i v) = some s' ∧ Shows (Function.update mem (p + i) v) s' ∧
      s' = Function.update s p (some (cells.set i (some v))) := by
  refine ⟨_, ?_, h.update (fun q cells' hq hqp j hj => ?_) fun j w hj => ?_, rfl⟩
  · rw [Store.apply, hp, Option.bind_some, if_pos hi]
  · have := hapart p cells hp q cells' hq hqp.symm
    exact Function.update_of_ne (by omega) _ _
  · by_cases hji : j = i
    · subst hji
      rw [List.getElem?_set_self hi] at hj
      rw [Function.update_self]
      exact Option.some.inj (Option.some.inj hj)
    · rw [List.getElem?_set_ne (Ne.symm hji)] at hj
      rw [Function.update_of_ne (by omega)]
      exact h p cells hp j w hj

end ObjectStore
