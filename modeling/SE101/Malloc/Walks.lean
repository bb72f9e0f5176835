import SE101.Malloc.Check

set_option relaxedAutoImplicit false
set_option autoImplicit false

/-!
# Walks

The addresses that the loops of the package go through: along a free list up to `NULL`, and along
the blocks up to the epilogue. They are determined by the memory alone, also in a heap that
realises no layout.

## Main definitions

* `Malloc.Heap.Nodes` — the nodes of a list.
* `Malloc.Heap.Blocks` — the blocks.

## Main results

* `Malloc.Heap.Nodes.unique`, `Blocks.unique` — there is at most one such walk.
* `Malloc.ListsOf.nodes`, `WellFormed.blocks` — the walks in a heap that realises a layout.
-/

namespace Malloc

open LittleEndian LinkedList Heap

namespace Heap

variable (h : Heap)

/-- `for (; bp != NULL; bp = NEXT_FBLKP(bp))` goes through these nodes. -/
def Nodes : ℕ → List ℕ → Prop
  | bp, [] => bp = 0
  | bp, x :: xs => x = bp ∧ bp ≠ 0 ∧ Nodes (h.nextFblkp bp) xs

/-- `for (; GET_SIZE(HDRP(bp)) > 0; bp = NEXT_BLKP(bp))` goes through these blocks. -/
def Blocks : ℕ → List ℕ → Prop
  | bp, [] => h.getSize (hdrp bp) = 0
  | bp, x :: xs => x = bp ∧ 0 < h.getSize (hdrp bp) ∧ Blocks (h.nextBlkp bp) xs

instance : ∀ bp xs, Decidable (h.Nodes bp xs)
  | bp, [] => inferInstanceAs (Decidable (bp = 0))
  | bp, x :: xs =>
    have := instDecidableNodes (h.nextFblkp bp) xs
    inferInstanceAs (Decidable (x = bp ∧ bp ≠ 0 ∧ h.Nodes (h.nextFblkp bp) xs))

instance : ∀ bp xs, Decidable (h.Blocks bp xs)
  | bp, [] => inferInstanceAs (Decidable (h.getSize (hdrp bp) = 0))
  | bp, x :: xs =>
    have := instDecidableBlocks (h.nextBlkp bp) xs
    inferInstanceAs (Decidable (x = bp ∧ 0 < h.getSize (hdrp bp) ∧ h.Blocks (h.nextBlkp bp) xs))

variable {h} {bp x : ℕ} {xs ys : List ℕ}

/-- The nodes of a list are determined. -/
lemma Nodes.unique (hx : h.Nodes bp xs) (hy : h.Nodes bp ys) : xs = ys := by
  induction xs generalizing bp ys with
  | nil =>
    cases ys with
    | nil => rfl
    | cons y ys => exact absurd hx hy.2.1
  | cons x xs ih =>
    obtain ⟨rfl, hne, hx⟩ := hx
    cases ys with
    | nil => exact absurd hy hne
    | cons y ys =>
      obtain ⟨rfl, -, hy⟩ := hy
      rw [ih hx hy]

/-- The blocks are determined. -/
lemma Blocks.unique (hx : h.Blocks bp xs) (hy : h.Blocks bp ys) : xs = ys := by
  induction xs generalizing bp ys with
  | nil =>
    cases ys with
    | nil => rfl
    | cons y ys =>
      have hpos := hy.2.1
      have hzero : h.getSize (hdrp bp) = 0 := hx
      omega
  | cons x xs ih =>
    obtain ⟨rfl, hpos, hx⟩ := hx
    cases ys with
    | nil =>
      have hzero : h.getSize (hdrp x) = 0 := hy
      omega
    | cons y ys =>
      obtain ⟨rfl, -, hy⟩ := hy
      rw [ih hx hy]

/-- The walk from a node on. -/
lemma Nodes.of_append (hx : h.Nodes bp (xs ++ x :: ys)) : h.Nodes x (x :: ys) := by
  induction xs generalizing bp with
  | nil =>
    obtain ⟨rfl, hne, hy⟩ := hx
    exact ⟨rfl, hne, hy⟩
  | cons y xs ih => exact ih hx.2.2

/-- A walk that ends goes through no node twice. -/
lemma Nodes.nodup (hx : h.Nodes bp xs) : xs.Nodup := by
  induction xs generalizing bp with
  | nil => exact List.nodup_nil
  | cons x xs ih =>
    refine List.nodup_cons.2 ⟨fun hmem => ?_, ih hx.2.2⟩
    -- from the second occurrence on the walk would be as long as from the first one
    obtain ⟨ys, zs, rfl⟩ := List.append_of_mem hmem
    obtain rfl := hx.1
    have heq := hx.unique hx.2.2.of_append
    have hlen := congrArg List.length heq
    simp at hlen
    omega

/-- A linked list is walked through. -/
lemma nodes_of_linked {q : ℕ} (hl : Linked 8 h.mem q xs 0) (hne : ∀ x ∈ xs, x ≠ 0) :
    h.Nodes (xs.headD 0) xs := by
  induction xs generalizing q with
  | nil => rfl
  | cons x xs ih =>
    obtain ⟨-, hs, hl⟩ := hl
    have hnext : h.nextFblkp x = xs.headD 0 := hs
    refine ⟨rfl, hne x List.mem_cons_self, ?_⟩
    rw [List.headD_cons, hnext]
    exact ih hl fun y hy => hne y (List.mem_cons_of_mem x hy)

end Heap

variable {h : Heap} {bs fs ys : List Block} {L : ℕ → List ℕ} {i : ℕ}

/-- The lists of a heap are walked through. -/
lemma ListsOf.nodes (hl : ListsOf h fs L) (hp : Placed fs) (hi : i < listNum) :
    h.Nodes (h.freeListp i) (L i) := by
  rw [hl.head i hi]
  exact nodes_of_linked (hl.linked i hi) (hl.pos hp hi)

/-- The blocks of a layout are walked through. -/
lemma WellFormed.blocks (w : WellFormed h bs) : ∀ {bp : ℕ} {ys : List Block}, ys ⊆ bs →
    Spans bp ys h.memBrk → h.Blocks bp (ys.map Block.addr) := by
  intro bp ys
  induction ys generalizing bp with
  | nil =>
    intro _ hsp
    obtain rfl : bp = h.memBrk := hsp
    exact w.window_end.epilogue.1
  | cons b ys ih =>
    intro hsub hsp
    obtain ⟨rfl, hsp⟩ := hsp
    have t := w.tagged b (hsub List.mem_cons_self)
    have hmin := b.min
    refine ⟨rfl, by rw [t.getSize]; omega, ?_⟩
    rw [t.nextBlkp]
    exact ih (fun c hc => hsub (List.mem_cons_of_mem b hc)) hsp

end Malloc
