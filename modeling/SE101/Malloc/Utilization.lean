import Mathlib.Order.Interval.Finset.Nat
import SE101.Malloc.Break
import SE101.Malloc.Replay

set_option relaxedAutoImplicit false
set_option autoImplicit false

/-!
# The utilization of `mm.c`

`eval_mm_util` divides the high water mark of what a trace demands by the size of the heap. On
`mm.c` its numerator is the greatest demand before or after any request, and the payloads of a
demand are disjoint parts of a heap that never shrinks, so that the ratio is at most 1 and no
`int` overflows.

## Main definitions

* `Malloc.demand` — the total size of the payloads that are live after some requests.
* `Malloc.Accounts` — the invariant of an evaluation.

## Main results

* `Malloc.sum_le_of_apart` — disjoint intervals inside an interval.
* `Malloc.Accounts.step` — one request.
* `Malloc.evalMmUtil_mm` — the result of `eval_mm_util`.
-/

namespace Malloc

open LittleEndian Heap

/-! ## Disjoint intervals -/

/-- Disjoint intervals inside an interval are together not longer. -/
lemma sum_le_of_apart {lo hi : ℕ} {l : List (ℕ × ℕ)}
    (hin : ∀ r ∈ l, lo ≤ r.1 ∧ r.1 + r.2 ≤ hi)
    (hap : l.Pairwise fun r r' => r.1 + r.2 ≤ r'.1 ∨ r'.1 + r'.2 ≤ r.1) :
    (l.map Prod.snd).sum ≤ hi - lo := by
  -- the points of the intervals form a set with as many elements
  have hset : ∃ s : Finset ℕ, s.card = (l.map Prod.snd).sum ∧
      ∀ x, x ∈ s ↔ ∃ r ∈ l, r.1 ≤ x ∧ x < r.1 + r.2 := by
    clear hin
    induction l with
    | nil => exact ⟨∅, by simp⟩
    | cons r l ih =>
      obtain ⟨hhead, htail⟩ := List.pairwise_cons.1 hap
      obtain ⟨s, hcard, hmem⟩ := ih htail
      have hdisj : Disjoint (Finset.Ico r.1 (r.1 + r.2)) s := by
        refine Finset.disjoint_left.2 fun x hx hs => ?_
        obtain ⟨r', hr', hx'⟩ := (hmem x).1 hs
        have := hhead r' hr'
        have := Finset.mem_Ico.1 hx
        omega
      refine ⟨Finset.Ico r.1 (r.1 + r.2) ∪ s, ?_, fun x => ?_⟩
      · rw [Finset.card_union_of_disjoint hdisj, hcard, Nat.card_Ico, List.map_cons, List.sum_cons]
        omega
      · simp [hmem]
  obtain ⟨s, hcard, hmem⟩ := hset
  have hsub : s ⊆ Finset.Ico lo hi := by
    intro x hx
    obtain ⟨r, hr, hx⟩ := (hmem x).1 hx
    have := hin r hr
    exact Finset.mem_Ico.2 (by omega)
  have hle := Finset.card_le_card hsub
  rwa [hcard, Nat.card_Ico] at hle

/-- The live payloads fit into the heap together. -/
lemma Held.sum_le {w : World} {bs : List Block} (hw : Held w bs) :
    (w.live.map Prod.snd).sum ≤ w.heap.memBrk - w.heap.memStartBrk :=
  sum_le_of_apart (fun r hr => (hw.payloadsApart.1 r hr).2) hw.payloadsApart.2

/-! ## Demand -/

/-- The size of the payload of each index after a request. -/
def TraceOp.sizes (op : TraceOp) (sizes : ℤ → ℕ) : ℤ → ℕ :=
  match op.type with
  | .alloc | .realloc => Function.update sizes op.index op.size.toNat
  | .free => sizes

/-- The size of the payload of each index after a number of requests. -/
def sizesAfter (sizes : ℤ → ℕ) (ops : List TraceOp) : ℤ → ℕ :=
  ops.foldl (fun sizes op => op.sizes sizes) sizes

/-- The total size of the payloads that are live after some requests. -/
def demand (live : List ℤ) (sizes : ℤ → ℕ) (ops : List TraceOp) : ℕ :=
  ((liveAfter live ops).map (sizesAfter sizes ops)).sum

/-- Some requests of a trace that has a first one. -/
lemma exists_prefix_cons {op : TraceOp} {ops : List TraceOp} {P : List TraceOp → Prop} :
    (∃ pre, pre <+: op :: ops ∧ P pre) ↔ P [] ∨ ∃ pre, pre <+: ops ∧ P (op :: pre) := by
  simp only [List.prefix_cons_iff]
  constructor
  · rintro ⟨pre, rfl | ⟨pre, rfl, hpre⟩, hp⟩
    · exact .inl hp
    · exact .inr ⟨pre, hpre, hp⟩
  · rintro (hp | ⟨pre, hpre, hp⟩)
    · exact ⟨[], .inl rfl, hp⟩
    · exact ⟨op :: pre, .inr ⟨pre, rfl, hpre⟩, hp⟩

/-! ## The invariant -/

section Accounts

variable {u : Util Heap} {live : List ℤ} {i size : ℤ}

/-- The pointers of the driver are live, and its sums are those of their sizes. -/
structure Accounts (u : Util Heap) (live : List ℤ) : Prop where
  nodup : live.Nodup
  held : ∃ bs, Held ⟨u.heap, live.map fun i => (u.blocks i, u.blockSizes i)⟩ bs
  size : ∀ i ∈ live, u.blockSizes i < 2 ^ 31
  total : u.totalSize = (live.map u.blockSizes).sum
  total_le : u.totalSize ≤ u.maxTotalSize
  max_le : u.maxTotalSize ≤ (u.heap.memBrk - u.heap.memStartBrk : ℕ)

/-- The demand fits into the simulated heap. -/
lemma Accounts.total_bounds (hu : Accounts u live) : 0 ≤ u.totalSize ∧
    u.totalSize ≤ (u.heap.memBrk - u.heap.memStartBrk : ℕ) ∧
    u.heap.memBrk - u.heap.memStartBrk ≤ maxHeap := by
  obtain ⟨bs, hw⟩ := hu.held
  have := hw.wellFormed.arena.brkLe
  have := hw.wellFormed.arena.maxAddr
  have := hu.total_le
  have := hu.max_le
  have := hu.total
  dsimp only at *
  omega

/-- What a request does to an evaluation: the driver stops as the package returned `NULL`, or the
invariant holds again, with the sizes that the request leaves and a maximum that takes the new
demand into account. -/
def Billed (u : Util Heap) (live : List ℤ) (sizes : ℤ → ℕ) (r : Except Stop (Util Heap)) : Prop :=
  r = .error .abort ∨ ∃ u', r = .ok u' ∧ Accounts u' live ∧ u'.blockSizes = sizes ∧
    u'.maxTotalSize = max u'.totalSize u.maxTotalSize

/-- A payload has been handed out, and the total changes by the given amount.

**Proof sketch.** The new total is that of the live payloads, which are disjoint parts of the
heap. So it is an `int`, and the maximum, old or new, does not exceed the heap, which has not
become smaller. -/
lemma Accounts.handOut {live₀ : List ℤ} {h : Heap} {bs : List Block} {p : ℕ} {v : ℤ}
    (hu : Accounts u live₀) (hbrk : BrkLe u.heap h) (hnd : live.Nodup) (hi : i ∉ live)
    (hsize : ∀ j ∈ live, u.blockSizes j < 2 ^ 31) (hpos : 0 < size) (hlt : size < 2 ^ 31)
    (hw : Held ⟨h, (p, size.toNat) :: live.map fun i => (u.blocks i, u.blockSizes i)⟩ bs)
    (hv : u.totalSize + v = size + (live.map u.blockSizes).sum) :
    ∃ u', (u.remember h i p size).grow v = .ok u' ∧ Accounts u' (i :: live) ∧
      u'.blockSizes = Function.update u.blockSizes i size.toNat ∧
      u'.maxTotalSize = max u'.totalSize u.maxTotalSize := by
  have hsum := hw.sum_le
  have hstart := hbrk.start
  have hle := hbrk.le
  have hmax := hu.max_le
  have harena := hw.wellFormed.arena.brkLe
  have hlimit := hw.wellFormed.arena.maxAddr
  have hheap : maxHeap < 2 ^ 31 := by decide
  simp only [List.map_cons, List.sum_cons, List.map_map] at hsum
  have hsnd : (Prod.snd ∘ fun j => (u.blocks j, u.blockSizes j)) = u.blockSizes := rfl
  rw [hsnd] at hsum
  dsimp only at harena hlimit
  have hint : intOf (u.totalSize + v) = .ok (u.totalSize + v) := if_pos (by omega)
  have hupdate : (i :: live).map (Function.update u.blockSizes i size.toNat) =
      size.toNat :: live.map u.blockSizes := by
    rw [List.map_cons, Function.update_self]
    refine congrArg _ (List.map_congr_left fun j hj => Function.update_of_ne ?_ _ _)
    exact fun heq => hi (heq ▸ hj)
  refine ⟨⟨h, Function.update u.blocks i p, Function.update u.blockSizes i size.toNat,
    u.totalSize + v, max (u.totalSize + v) u.maxTotalSize⟩, ?_, ⟨List.nodup_cons.2 ⟨hi, hnd⟩,
    ⟨bs, ?_⟩, fun j hj => ?_, ?_, le_max_left _ _, ?_⟩, rfl, rfl⟩
  · simp only [Util.grow, Util.remember, sizeT_eq hpos.le hlt, hint]
  · rw [map_update_pair hi]
    exact hw
  · rcases List.mem_cons.1 hj with rfl | hj
    · simp only [Function.update_self]
      omega
    · have hne : j ≠ i := fun heq => hi (heq ▸ hj)
      simp only [Function.update_of_ne hne]
      exact hsize j hj
  · dsimp only
    rw [hupdate, hv, List.sum_cons]
    omega
  · dsimp only
    omega

/-! ## Requests -/

/-- **`eval_mm_util` on `mm_malloc`.** -/
lemma Accounts.alloc (hindex : -2 ^ 31 ≤ i ∧ i < 2 ^ 31)
    (hint : -2 ^ 31 ≤ size ∧ size < 2 ^ 31) (hu : Accounts u live) (hi : i ∉ live)
    (hpos : 0 < size) (hord : Malloc.Ordinary size.toNat) :
    Billed u (i :: live) (Function.update u.blockSizes i size.toNat)
      (mmPackage.utilStep ⟨.alloc, i, size, hindex, hint⟩ u) := by
  obtain ⟨bs, hw⟩ := hu.held
  obtain ⟨p, h, hr, hheld⟩ := hw.malloc_ordinary hord (by omega)
  rw [Package.utilStep]
  simp only [sizeT_eq hpos.le hint.2, mmPackage_malloc, hr]
  by_cases hp : p = 0
  · rw [if_pos hp]
    exact .inl rfl
  rw [if_neg hp]
  obtain ⟨bs', hw'⟩ := hheld hp
  refine .inr (hu.handOut (.mmMalloc hord hr) hu.nodup hi hu.size hpos hint.2 hw' ?_)
  rw [hu.total]
  omega

/-- **`eval_mm_util` on `mm_realloc`.** -/
lemma Accounts.realloc (hindex : -2 ^ 31 ≤ i ∧ i < 2 ^ 31)
    (hint : -2 ^ 31 ≤ size ∧ size < 2 ^ 31) (hu : Accounts u live) (hi : i ∈ live)
    (hpos : 0 < size) (hord : Malloc.Ordinary size.toNat) :
    Billed u live (Function.update u.blockSizes i size.toNat)
      (mmPackage.utilStep ⟨.realloc, i, size, hindex, hint⟩ u) := by
  obtain ⟨bs, hw⟩ := hu.held
  have hmem : (u.blocks i, u.blockSizes i) ∈ live.map fun i => (u.blocks i, u.blockSizes i) :=
    List.mem_map_of_mem hi
  obtain ⟨q, h, hr, hheld⟩ := hw.realloc_ordinary hmem (by omega) (by omega) hord
  have hold := hu.size i hi
  rw [Package.utilStep]
  simp only [sizeT_eq hpos.le hint.2, mmPackage_realloc, hr, toInt32_of_lt hold]
  by_cases hq : q = 0
  · rw [if_pos hq]
    exact .inl rfl
  rw [if_neg hq]
  obtain ⟨bs', hw'⟩ := hheld hq
  have hdiff : intOf (size - u.blockSizes i) = .ok (size - u.blockSizes i) := if_pos (by omega)
  have hperm := map_erase_perm (fun i => (u.blocks i, u.blockSizes i)) hi
  have hsum := ((List.perm_cons_erase hi).map u.blockSizes).sum_eq
  rw [List.map_cons, List.sum_cons] at hsum
  obtain ⟨u', hgrow, hacc, hsizes, hmax⟩ := hu.handOut (.mmRealloc hord hr) (hu.nodup.erase i)
    hu.nodup.not_mem_erase (fun j hj => hu.size j (List.mem_of_mem_erase hj)) hpos hint.2
    (hw'.perm (hperm.cons _)) (v := size - u.blockSizes i) (by rw [hu.total]; omega)
  simp only [hdiff]
  have hback : (i :: live.erase i).Perm live := (List.perm_cons_erase hi).symm
  obtain ⟨bs'', hw''⟩ := hacc.held
  refine .inr ⟨u', hgrow, ⟨hu.nodup, ⟨bs'', hw''.perm (hback.map _)⟩,
    fun j hj => hacc.size j (hback.mem_iff.2 hj), ?_, hacc.total_le, hacc.max_le⟩, hsizes, hmax⟩
  rw [hacc.total, (hback.map u'.blockSizes).sum_eq]

/-- **`eval_mm_util` on `mm_free`.** -/
lemma Accounts.free (hindex : -2 ^ 31 ≤ i ∧ i < 2 ^ 31)
    (hint : -2 ^ 31 ≤ size ∧ size < 2 ^ 31) (hu : Accounts u live) (hi : i ∈ live) :
    Billed u (live.erase i) u.blockSizes
      (mmPackage.utilStep ⟨.free, i, size, hindex, hint⟩ u) := by
  obtain ⟨bs, hw⟩ := hu.held
  have hmem : (u.blocks i, u.blockSizes i) ∈ live.map fun i => (u.blocks i, u.blockSizes i) :=
    List.mem_map_of_mem hi
  obtain ⟨bs', hw'⟩ := hw.free hmem
  have hold := hu.size i hi
  have hsum := ((List.perm_cons_erase hi).map u.blockSizes).sum_eq
  rw [List.map_cons, List.sum_cons] at hsum
  have htotal := hu.total
  have hle := hu.total_le
  obtain ⟨-, hfit, hheap⟩ := hu.total_bounds
  have hlimit : maxHeap < 2 ^ 31 := by decide
  have hint : intOf (u.totalSize - u.blockSizes i) = .ok (u.totalSize - u.blockSizes i) :=
    if_pos (by omega)
  have hsame := sameArena_mmFree u.heap (u.blocks i)
  rw [Package.utilStep]
  simp only [toInt32_of_lt hold, hint, mmPackage_free]
  refine .inr ⟨_, rfl, ⟨hu.nodup.erase i,
    ⟨bs', hw'.perm (map_erase_perm (fun i => (u.blocks i, u.blockSizes i)) hi)⟩,
    fun j hj => hu.size j (List.mem_of_mem_erase hj), ?_, ?_, ?_⟩, rfl, ?_⟩
  · dsimp only
    omega
  · dsimp only
    omega
  · dsimp only
    rw [hsame.memBrk, hsame.memStartBrk]
    exact hu.max_le
  · dsimp only
    omega

/-- **One request.** -/
theorem Accounts.step {op : TraceOp} (hu : Accounts u live) (hok : op.Ok live)
    (hord : op.Ordinary) :
    Billed u (op.after live) (op.sizes u.blockSizes) (mmPackage.utilStep op u) := by
  obtain ⟨type, i, size, hindex, hint⟩ := op
  cases type with
  | alloc =>
    obtain ⟨hpos, ho⟩ := hord (by simp)
    exact hu.alloc hindex hint hok hpos ho
  | realloc =>
    obtain ⟨hpos, ho⟩ := hord (by simp)
    exact hu.realloc hindex hint hok hpos ho
  | free => exact hu.free hindex hint hok

/-! ## Traces -/

/-- The requests of a trace: the maximum at the end is the greatest of the maximum before and of
all demands. -/
lemma Accounts.utilOps {ops : List TraceOp} : ∀ {live : List ℤ} {u : Util Heap},
    Accounts u live → TraceOk live ops → (∀ op ∈ ops, op.Ordinary) →
    mmPackage.utilOps ops u = .error .abort ∨ ∃ u', mmPackage.utilOps ops u = .ok u' ∧
      Accounts u' (liveAfter live ops) ∧
      IsGreatest {t : ℤ | t = u.maxTotalSize ∨
        ∃ pre, pre <+: ops ∧ t = demand live u.blockSizes pre} u'.maxTotalSize := by
  induction ops with
  | nil =>
    intro live u hu _ _
    refine .inr ⟨u, rfl, hu, .inl rfl, ?_⟩
    rintro t (rfl | ⟨pre, hpre, rfl⟩)
    · exact le_rfl
    · rw [List.prefix_nil.1 hpre]
      exact hu.total ▸ hu.total_le
  | cons op ops ih =>
    intro live u hu hok hord
    rw [Package.utilOps]
    rcases hu.step hok.1 (hord op List.mem_cons_self) with hnull | ⟨u₁, hstep, hu₁, hsizes, hmax⟩
    · rw [hnull]
      exact .inl rfl
    rw [hstep]
    rcases ih hu₁ hok.2 fun o ho => hord o (List.mem_cons_of_mem _ ho) with
      hnull | ⟨u', hrun, hu', hmem, hub⟩
    · exact .inl hnull
    refine .inr ⟨u', hrun, hu', ?_, ?_⟩
    · have htotal : u₁.totalSize = demand live u.blockSizes [op] := by
        rw [hu₁.total, hsizes]
        rfl
      rcases hmem with hmem | ⟨pre, hpre, hmem⟩
      · rw [hmax] at hmem
        rcases max_choice u₁.totalSize u.maxTotalSize with heq | heq
        · exact .inr ⟨[op], by simp, by rw [hmem, heq, htotal]⟩
        · exact .inl (by rw [hmem, heq])
      · rw [hsizes] at hmem
        exact .inr (exists_prefix_cons.2 (.inr ⟨pre, hpre, hmem⟩))
    · have hle : u.maxTotalSize ≤ u'.maxTotalSize :=
        (hmax ▸ le_max_right _ _ : u.maxTotalSize ≤ u₁.maxTotalSize).trans (hub (.inl rfl))
      rintro t (rfl | hex)
      · exact hle
      · rcases exists_prefix_cons.1 hex with rfl | ⟨pre, hpre, rfl⟩
        · refine le_trans ?_ hle
          exact hu.total ▸ hu.total_le
        · refine hub (.inr ⟨pre, hpre, ?_⟩)
          rw [hsizes]
          rfl

/-- **`eval_mm_util` on `mm.c`**, for every trace that allocates indices that are not live,
resizes and frees indices that are, and requests ordinary sizes: unless a call returns `NULL`,
which is reported, the numerator is the greatest demand before or after any request, the
denominator is not 0, and the ratio is at most 1. No `int` overflows and every call returns. -/
theorem evalMmUtil_mm {ops : List TraceOp} {h : Heap} {blocks sizes : ℤ → ℕ}
    (hfresh : Fresh { h with memBrk := h.memStartBrk }) (hops : TraceOk [] ops)
    (hord : ∀ op ∈ ops, op.Ordinary) :
    evalMmUtil mmPackage ops h blocks sizes = .error .abort ∨
      ∃ hwm heapsize, evalMmUtil mmPackage ops h blocks sizes = .ok (hwm, heapsize) ∧
        IsGreatest {t : ℤ | ∃ pre, pre <+: ops ∧ t = demand [] sizes pre} hwm ∧
        0 < heapsize ∧ hwm ≤ heapsize ∧ heapsize ≤ maxHeap := by
  obtain ⟨h₀, hinit, wf, -⟩ := mmInit_spec hfresh
  have hstart : Accounts ⟨h₀, blocks, sizes, 0, 0⟩ [] :=
    ⟨List.nodup_nil, ⟨_, wf, by simp, by simp⟩, by simp, by simp, le_rfl, Int.natCast_nonneg _⟩
  rw [evalMmUtil, mmPackage_resetBrk, mmPackage_init, hinit]
  rcases hstart.utilOps hops hord with hnull | ⟨u, hrun, hu, hmem, hub⟩
  · exact .inl (by dsimp only; rw [hnull])
  refine .inr ⟨u.maxTotalSize, u.heap.memBrk - u.heap.memStartBrk, ?_, ⟨?_, ?_⟩, ?_, hu.max_le,
    hu.total_bounds.2.2⟩
  · dsimp only
    rw [hrun]
    dsimp only
    rw [mmPackage_heapSize]
  · -- the maximum starts with 0, which is the demand before the first request
    rcases hmem with hzero | hpre
    · exact ⟨[], List.nil_prefix, hzero⟩
    · exact hpre
  · exact fun t ht => hub (.inr ht)
  · obtain ⟨bs, hw⟩ := hu.held
    have hlo := hw.wellFormed.spans.le
    dsimp only at hlo
    omega

end Accounts

/-- A payload is resized while another one is live, and one of them is freed. -/
def freeTrace : List TraceOp :=
  [.ofUnsigned .alloc 0 24, .ofUnsigned .alloc 1 24, .ofUnsigned .realloc 0 200,
    .ofUnsigned .free 1 0]

set_option maxRecDepth 20000 in
/-- Both payloads are counted in the high water mark. -/
theorem evalMmUtil_mm_free : ∃ hwm heapsize,
    evalMmUtil mmPackage freeTrace startHeap (fun _ => 0) (fun _ => 0) = .ok (hwm, heapsize) ∧
      hwm = 224 ∧ 0 < heapsize := by
  have hrun : (evalMmUtil mmPackage freeTrace startHeap (fun _ => 0) fun _ => 0).toOption.map
      Prod.fst = some 224 := by decide +kernel
  have hord : Ordinary 24 ∧ Ordinary 200 := by unfold Ordinary; decide
  have hord' : ∀ op ∈ freeTrace, op.Ordinary := by
    intro op hop
    simp only [freeTrace, List.mem_cons, List.not_mem_nil, or_false] at hop
    rcases hop with rfl | rfl | rfl | rfl
    · exact fun _ => ⟨by decide, hord.1⟩
    · exact fun _ => ⟨by decide, hord.1⟩
    · exact fun _ => ⟨by decide, hord.2⟩
    · exact fun hne => absurd rfl hne
  have hok : TraceOk [] freeTrace := by
    simp [freeTrace, TraceOk, TraceOp.Ok, TraceOp.ofUnsigned, TraceOp.after, toInt32]
  have hfresh : Fresh { startHeap with memBrk := startHeap.memStartBrk } := fresh_startHeap
  rcases evalMmUtil_mm hfresh hok hord' with hnull | ⟨hwm, heapsize, hres, -, hpos, -⟩
  · rw [hnull] at hrun
    cases hrun
  · rw [hres] at hrun
    exact ⟨hwm, heapsize, hres, Option.some.inj hrun, hpos⟩

end Malloc
