import SE101.Malloc.Fit

set_option relaxedAutoImplicit false
set_option autoImplicit false

/-!
# When `mm_malloc` ends

The scan of `find_first_fit` goes on at the epilogue, whose size is zero, and never leaves it.
So it ends exactly if some free block is large enough, and a request that is passed to it does
not fall back to growing the heap.

## Main results

* `Malloc.findFirstFit_ends_iff` — when the scan ends.
* `Malloc.mmMalloc_ends_iff` — when a request ends, in all well-formed heaps.
-/

namespace Malloc

open LittleEndian Heap

variable {h : Heap} {b : Block} {bs : List Block} {asize : ℕ}

/-- The scan finds a free block that is large enough if there is one.

**Proof sketch.** Induction on the blocks from where the scan stands; at each of them it stops or
goes on to the next one. -/
lemma findFirstFit_of_mem (w : WellFormed h bs) (hb : b.alloc = false) (hle : asize ≤ b.size) :
    ∀ {bp fuel : ℕ} {ys : List Block}, ys ⊆ bs → Spans bp ys h.memBrk → b ∈ ys →
      ys.length ≤ fuel → ∃ r, h.findFirstFit asize fuel bp = some r := by
  intro bp fuel ys
  induction ys generalizing bp fuel with
  | nil => exact fun _ _ hb => absurd hb List.not_mem_nil
  | cons c ys ih =>
    intro hsub hsp hmem hfuel
    obtain ⟨fuel, rfl⟩ : ∃ k, fuel = k + 1 := ⟨fuel - 1, by simp at hfuel; omega⟩
    obtain ⟨rfl, hsp⟩ := hsp
    have hc : c ∈ bs := hsub List.mem_cons_self
    have t := w.tagged c hc
    rw [findFirstFit, if_pos (w.placed.pos c hc).ne', t.getAlloc, t.getSize, t.nextBlkp]
    by_cases hfit : c.alloc.toNat = 0 ∧ asize ≤ c.size
    · exact ⟨c.addr, if_pos hfit⟩
    · rw [if_neg hfit]
      refine ih (fun d hd => hsub (List.mem_cons_of_mem c hd)) hsp ?_ (by simpa using hfuel)
      rcases List.mem_cons.1 hmem with rfl | hmem
      · exact absurd ⟨by simp [hb], hle⟩ hfit
      · exact hmem

/-- The scan starts at the prologue and goes on at the first block. -/
lemma findFirstFit_listp (w : WellFormed h bs) (asize fuel : ℕ) :
    h.findFirstFit asize (fuel + 1) h.heapListp =
      h.findFirstFit asize fuel (h.memStartBrk + 16) := by
  have hlistp := w.arena.listp
  rw [findFirstFit, if_pos (by omega), if_neg (by simp [w.prologue.2]), w.nextBlkp_listp]

/-- **The scan of `find_first_fit` ends exactly if some free block is large enough.** -/
lemma findFirstFit_ends_iff (w : WellFormed h bs) (asize : ℕ) :
    (∃ fuel r, h.findFirstFit asize fuel h.heapListp = some r) ↔
      ∃ b ∈ bs, b.alloc = false ∧ asize ≤ b.size := by
  constructor
  · rintro ⟨fuel, r, hr⟩
    obtain ⟨b, hb, hfree, -, hle⟩ := findFirstFit_spec w hr
    exact ⟨b, hb, hfree, hle⟩
  · rintro ⟨b, hb, hfree, hle⟩
    obtain ⟨r, hr⟩ := findFirstFit_of_mem w hfree hle (List.Subset.refl bs) w.spans hb le_rfl
    exact ⟨bs.length + 1, r, (findFirstFit_listp w asize bs.length).trans hr⟩

/-- The steps that a loop of the model may take are enough for the scan. -/
lemma findFirstFit_maxHeap (w : WellFormed h bs)
    (hfit : ∃ b ∈ bs, b.alloc = false ∧ asize ≤ b.size) :
    ∃ r, h.findFirstFit asize maxHeap h.heapListp = some r := by
  obtain ⟨b, hb, hfree, hle⟩ := hfit
  obtain ⟨k, hk⟩ : ∃ k, maxHeap = k + 1 := ⟨maxHeap - 1, rfl⟩
  have hlen := w.length_lt
  have hk' : bs.length ≤ k := by omega
  obtain ⟨r, hr⟩ := findFirstFit_of_mem w hfree hle (List.Subset.refl bs) w.spans hb hk'
  exact ⟨r, by rw [hk, findFirstFit_listp w, hr]⟩

/-- The general path always ends. -/
lemma mallocFit_returns (w : WellFormed h bs) (n asize : ℕ) :
    ∃ r, h.mallocFit n asize = some r := by
  obtain ⟨bp, hfit, -⟩ := findFit_spec w asize
  rw [mallocFit, hfit, Option.bind_some]
  by_cases hbp : bp ≠ 0
  · exact ⟨_, if_pos hbp⟩
  · rw [if_neg hbp]
    dsimp only
    cases h.extendHeap (max asize chunksize / wsize) with
    | none => exact ⟨_, rfl⟩
    | some r =>
      dsimp only
      by_cases hn : n = 4092
      · exact ⟨_, if_pos hn⟩
      · exact ⟨_, if_neg hn⟩

/-- A request ends unless it is passed to `find_first_fit` in vain. -/
lemma mmMalloc_returns_iff (w : WellFormed h bs) (n : ℕ) :
    (∃ r, h.mmMalloc n = some r) ↔
      ¬ ((n = 16 ∨ n = 64) ∧ (h.firstSize = 16 + overhead ∨ h.firstSize = 64 + overhead) ∧
        ∀ b ∈ bs, b.alloc = false → b.size < adjust n) := by
  by_cases h4095 : n = 4095
  · exact ⟨fun _ => by omega, fun _ => ⟨_, if_pos h4095⟩⟩
  by_cases h8190 : n = 8190
  · exact ⟨fun _ => by omega, fun _ => ⟨_, (if_neg h4095).trans (if_pos h8190)⟩⟩
  by_cases h0 : n = 0
  · exact ⟨fun _ => by omega, fun _ =>
      ⟨_, (if_neg h4095).trans ((if_neg h8190).trans (if_pos h0))⟩⟩
  rw [mmMalloc, if_neg h4095, if_neg h8190, if_neg h0]
  dsimp only
  by_cases hsmall : (h.firstSize = 16 + overhead ∨ h.firstSize = 64 + overhead) ∧
      (n = 16 ∨ n = 64)
  · rw [if_pos hsmall]
    by_cases hfit : ∃ b ∈ bs, b.alloc = false ∧ adjust n ≤ b.size
    · obtain ⟨r, hr⟩ := findFirstFit_maxHeap w hfit
      obtain ⟨b, hb, -, hbr, -⟩ := findFirstFit_spec w hr
      have hpos : r ≠ 0 := hbr ▸ (w.placed.pos b hb).ne'
      obtain ⟨c, hc, hcf, hle⟩ := hfit
      refine ⟨fun _ hno => ?_, fun _ => ⟨_, by rw [hr, Option.bind_some, if_pos hpos]⟩⟩
      have := hno.2.2 c hc hcf
      omega
    · have hnone : h.findFirstFit (adjust n) maxHeap h.heapListp = none := by
        rw [Option.eq_none_iff_forall_ne_some]
        exact fun r hr => hfit ((findFirstFit_ends_iff w _).1 ⟨_, r, hr⟩)
      rw [hnone, Option.bind_none]
      constructor
      · rintro ⟨r, hr⟩
        simp at hr
      · intro hno
        refine absurd ⟨hsmall.2, hsmall.1, ?_⟩ hno
        intro b hb hfree
        by_contra hge
        exact hfit ⟨b, hb, hfree, not_lt.1 hge⟩
  · rw [if_neg hsmall]
    refine ⟨fun _ hno => hsmall ⟨hno.2.1, hno.1⟩, fun _ => ?_⟩
    split_ifs
    · exact ⟨_, rfl⟩
    · exact mallocFit_returns w n _
    · exact mallocFit_returns w n _

end Malloc
