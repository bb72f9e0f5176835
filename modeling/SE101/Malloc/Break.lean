import SE101.Malloc.Fit
import SE101.Malloc.Realloc
import SE101.Malloc.Sizes

set_option relaxedAutoImplicit false
set_option autoImplicit false

/-!
# The break only grows

No call for an ordinary size shrinks the heap or moves its start, on any heap: the break is changed
by `mem_sbrk` only, which does not take a negative number.

## Main definitions

* `Malloc.Heap.BrkLe` — the same start, and a break that is not lower.

## Main results

* `Malloc.Heap.BrkLe.extendHeap`, `BrkLe.mmMalloc`, `BrkLe.mmRealloc` — the functions that may grow
  the heap.
* `Malloc.sameArena_mmFree` — `mm_free` does not.
-/

namespace Malloc

open LittleEndian Heap

variable {h h₁ h₂ : Heap} {q : ℕ}

/-- The two heaps have the same start, and the break of the second is not lower. -/
structure Heap.BrkLe (h h' : Heap) : Prop where
  start : h'.memStartBrk = h.memStartBrk
  le : h.memBrk ≤ h'.memBrk

namespace Heap.BrkLe

lemma of_sameArena (hs : SameArena h h₁) : BrkLe h h₁ := ⟨hs.memStartBrk, hs.memBrk.ge⟩

lemma refl (h : Heap) : BrkLe h h := ⟨rfl, le_rfl⟩

lemma trans (k : BrkLe h h₁) (k' : BrkLe h₁ h₂) : BrkLe h h₂ :=
  ⟨k'.start.trans k.start, k.le.trans k'.le⟩

/-! ## Growing -/

lemma memSbrk {incr : ℤ} (hr : h.memSbrk incr = some (q, h₁)) : BrkLe h h₁ := by
  unfold Heap.memSbrk at hr
  split_ifs at hr with hc
  cases hr
  exact ⟨rfl, by dsimp only; omega⟩

lemma extendHeap {words : ℕ} (hr : h.extendHeap words = some (q, h₁)) : BrkLe h h₁ := by
  unfold Heap.extendHeap at hr
  dsimp only at hr
  split at hr
  · cases hr
  · next bp h₂ hs =>
    have hc := congrArg Prod.snd (Option.some.inj hr)
    dsimp only at hc
    refine (memSbrk hs).trans (of_sameArena ?_)
    rw [← hc]
    exact ((((sameArena_putTags ..).trans (sameArena_putaddr _ _)).trans
      (sameArena_putaddr _ _)).trans (sameArena_put _ _)).trans (sameArena_coalesce _ _)

lemma mallocFit {size asize : ℕ} (hsize : size ≠ 4092)
    (hr : h.mallocFit size asize = some (q, h₁)) : BrkLe h h₁ := by
  unfold Heap.mallocFit at hr
  obtain ⟨bp, -, hr⟩ := Option.bind_eq_some_iff.1 hr
  by_cases hbp : bp ≠ 0
  · rw [if_pos hbp] at hr
    cases hr
    exact of_sameArena (sameArena_place _ _ _)
  rw [if_neg hbp] at hr
  dsimp only at hr
  cases hx : h.extendHeap (max asize chunksize / wsize) with
  | none =>
    rw [hx] at hr
    cases hr
    exact refl h
  | some r =>
    obtain ⟨bp, h₂⟩ := r
    rw [hx] at hr
    have hgrow := extendHeap hx
    dsimp only at hr
    rw [if_neg hsize] at hr
    cases hr
    exact hgrow.trans (of_sameArena (sameArena_place _ _ _))

/-- **`mm_malloc`.** -/
theorem mmMalloc {size : ℕ} (ho : Ordinary size) (hr : h.mmMalloc size = some (q, h₁)) :
    BrkLe h h₁ := by
  obtain ⟨h16, h64, h112, h448, h4092, h4095, h8190⟩ := ho
  unfold Heap.mmMalloc at hr
  rw [if_neg h4095, if_neg h8190] at hr
  by_cases h0 : size = 0
  · rw [if_pos h0] at hr
    cases hr
    exact refl h
  · rw [if_neg h0] at hr
    dsimp only at hr
    rw [if_neg (by omega), if_neg (by omega)] at hr
    exact mallocFit h4092 hr

end Heap.BrkLe

/-- **`mm_free`** keeps the break. -/
theorem sameArena_mmFree (h : Heap) (ptr : ℕ) : SameArena h (h.mmFree ptr) := by
  simp only [mmFree]
  split_ifs
  · exact sameArena_putc _ _
  · exact sameArena_putc _ _
  · exact (((sameArena_putTags ..).trans (sameArena_putaddr _ _)).trans
      (sameArena_putaddr _ _)).trans (sameArena_coalesce _ _)

/-- Cutting off the end of a block keeps the break. -/
lemma sameArena_reallocSplit (h : Heap) (ptr csize asize : ℕ) :
    SameArena h (h.reallocSplit ptr csize asize) := by
  simp only [reallocSplit]
  split_ifs
  · exact (sameArena_putTags ..).trans (sameArena_putRest _ _ _)
  · exact ((sameArena_putTags ..).trans (sameArena_removeBlock _ _)).trans (sameArena_putRest _ _ _)

/-- Growing into the free block behind keeps the break. -/
lemma sameArena_reallocTake (h : Heap) (ptr totSize asize : ℕ) :
    SameArena h (h.reallocTake ptr totSize asize).2 := by
  simp only [reallocTake]
  split_ifs
  · exact (sameArena_removeBlock _ _).trans (sameArena_putTags ..)
  · exact (((((sameArena_removeBlock _ _).trans (sameArena_putTags ..)).trans
      (sameArena_putTags ..)).trans (sameArena_putaddr _ _)).trans (sameArena_putaddr _ _)).trans
      (sameArena_insertBlock _ _)

namespace Heap.BrkLe

/-- Both outcomes of a part of `mm_realloc` that may return. -/
def Outcome (h : Heap) : Except (ℕ × Heap) Heap → Prop
  | .error r => BrkLe h r.2
  | .ok h₁ => BrkLe h h₁

lemma extendIf (hle : BrkLe h h₁) (cond : Prop) [Decidable cond]
    {f : Heap → Except (ℕ × Heap) Heap} (hf : ∀ h₂, BrkLe h h₂ → Outcome h (f h₂)) :
    Outcome h (h₁.extendIf cond >>= f) := by
  rw [Heap.extendIf]
  split_ifs
  · cases hx : h₁.extendHeap (chunksize / wsize) with
    | none => exact hle
    | some r => exact hf _ (hle.trans (extendHeap hx))
  · exact hf _ hle

lemma reallocInto (hle : BrkLe h h₁) (ptr csize asize : ℕ) :
    Outcome h (h₁.reallocInto ptr csize asize) := by
  have htake {h₂ : Heap} (hle : BrkLe h h₂) (totSize : ℕ) :
      Outcome h (.error (h₂.reallocTake ptr totSize asize)) :=
    hle.trans (of_sameArena (sameArena_reallocTake _ _ _ _))
  rw [Heap.reallocInto]
  dsimp only
  by_cases hal : h₁.getAlloc (hdrp (h₁.nextBlkp ptr)) = 0
  swap
  · rw [if_neg hal]
    exact hle
  rw [if_pos hal]
  by_cases hfit : csize + h₁.getSize (hdrp (h₁.nextBlkp ptr)) ≥ asize
  · rw [if_pos hfit]
    exact htake hle _
  rw [if_neg hfit]
  by_cases hend : h₁.AtEnd (h₁.nextBlkp ptr)
  swap
  · rw [if_neg hend]
    exact hle
  rw [if_pos hend, Heap.extendIf, if_pos trivial]
  cases hx : h₁.extendHeap (chunksize / wsize) with
  | none => exact hle
  | some r =>
    have hle₂ := hle.trans (extendHeap hx)
    change Outcome h (if csize + h₁.getSize (hdrp (h₁.nextBlkp ptr)) + chunksize ≥ asize then _
      else _)
    by_cases hfit' : csize + h₁.getSize (hdrp (h₁.nextBlkp ptr)) + chunksize ≥ asize
    · rw [if_pos hfit']
      exact htake hle₂ _
    · rw [if_neg hfit']
      exact hle₂

lemma reallocGrow (h : Heap) (ptr csize asize : ℕ) :
    Outcome h (h.reallocGrow ptr csize asize) := by
  refine extendIf (refl h) _ fun h₁ hle₁ => ?_
  refine extendIf hle₁ _ fun h₂ hle₂ => ?_
  exact extendIf hle₂ _ fun h₃ hle₃ => reallocInto hle₃ ptr csize asize

lemma reallocMove {ptr csize size : ℕ} (ho : Ordinary size)
    (hr : h.reallocMove ptr csize size = some (q, h₁)) :
    BrkLe h h₁ := by
  rw [reallocMove_eq] at hr
  obtain ⟨r, hm, hr⟩ := Option.map_eq_some_iff.1 hr
  have hle := mmMalloc ho hm
  split_ifs at hr
  · cases hr
    exact hle
  · cases hr
    refine hle.trans (of_sameArena (SameArena.trans ?_ (sameArena_mmFree _ _)))
    unfold Heap.copyPayload
    split_ifs
    · exact ⟨rfl, rfl, rfl, rfl⟩
    · exact .refl _

/-- **`mm_realloc`.** -/
theorem mmRealloc {ptr size : ℕ} (ho : Ordinary size)
    (hr : h.mmRealloc ptr size = some (q, h₁)) : BrkLe h h₁ := by
  unfold Heap.mmRealloc at hr
  dsimp only at hr
  split_ifs at hr
  · cases hr
    exact of_sameArena (sameArena_mmFree _ _)
  · exact mmMalloc ho hr
  · cases hr
    exact refl h
  · cases hr
    exact of_sameArena (sameArena_reallocSplit _ _ _ _)
  · have hgrow := reallocGrow h ptr (h.getSize (hdrp ptr)) (adjust size)
    split at hr
    · next r hg =>
      rw [hg] at hgrow
      cases hr
      exact hgrow
    · next h₂ hg =>
      rw [hg] at hgrow
      exact BrkLe.trans hgrow (reallocMove ho hr)

end Heap.BrkLe

end Malloc
