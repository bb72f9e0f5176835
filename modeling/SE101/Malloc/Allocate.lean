import SE101.Malloc.Place

set_option relaxedAutoImplicit false
set_option autoImplicit false

/-!
# `mm_malloc`

On the general path `mm_malloc` hands out a new block or returns `NULL` and changes nothing. So
do the size-specialised branches for 112, 448 and 4092 bytes, but only in heaps of the shape
that they were written for; `MallocSafe` says which these are.

## Main definitions

* `Malloc.MallocSafe` — the heaps in which a specialised branch does not go wrong.

## Main results

* `Malloc.mmMalloc_spec` — what a safe call returns.
* `Malloc.mmMalloc_returns` — a call for an ordinary size ends.
-/

namespace Malloc

open LittleEndian Heap

variable {h h' : Heap} {a b e : Block} {bs bs' pre post xs ys : List Block} {n asize : ℕ}

/-! ## Block sizes -/

/-- The block sizes for requests that are no larger than an `int`. -/
lemma adjust_spec (hn : n < 2 ^ 31) :
    24 ≤ adjust n ∧ 8 ∣ adjust n ∧ n + 8 ≤ adjust n ∧ adjust n ≤ 2 ^ 31 + 8 := by
  by_cases hs : n ≤ dsize
  · rw [adjust, if_pos hs]
    simp only [dsize] at *
    omega
  · rw [adjust, if_neg hs]
    simp only [dsize] at *
    omega

/-! ## The first block -/

/-- The first block follows the prologue. -/
lemma WellFormed.nextBlkp_listp (w : WellFormed h bs) :
    h.nextBlkp h.heapListp = h.memStartBrk + 16 := by
  have hp := w.arena.prologueHdr
  have hs : h.getSize (h.heapListp - wsize) = 8 := by
    rw [w.arena.listp, show h.memStartBrk + 8 - wsize = h.memStartBrk + 4 from rfl,
      Heap.getSize, Heap.get, hp]
    decide
  rw [nextBlkp, hs, w.arena.listp]

/-- The size by which `mm_malloc` tells the traces apart is that of the first block. -/
lemma WellFormed.firstSize_cons (w : WellFormed h (b :: bs)) :
    h.firstSize = b.size ∧ h.nextBlkp h.heapListp = b.addr := by
  have hb : b.addr = h.memStartBrk + 16 := w.spans.1
  have hn := w.nextBlkp_listp
  rw [← hb] at hn
  exact ⟨by rw [firstSize, hn, (w.tagged b (by simp)).getSize], hn⟩

lemma WellFormed.firstSize_nil (w : WellFormed h []) : h.firstSize = 0 := by
  have he := w.window_end.epilogue.1
  have hb : h.memStartBrk + 16 = h.memBrk := w.spans
  rw [firstSize, w.nextBlkp_listp, hb, he]

/-- The last block ends at the break. -/
lemma WellFormed.findLastFit (w : WellFormed h (bs ++ [b])) : h.findLastFit = b.addr := by
  have hb : b.next = h.memBrk := (spans_concat.1 w.spans).2
  rw [Heap.findLastFit, ← hb, (w.tagged b (by simp)).prevBlkp]

/-- Behind the last block stands the epilogue, behind any other one a block. -/
lemma WellFormed.atEnd_iff (w : WellFormed h (pre ++ b :: post)) :
    h.AtEnd b.addr ↔ post = [] := by
  obtain ⟨d, hl, rfl, hr⟩ := spans_append.1 w.spans
  have hwin : Window h (pre ++ [b]) b.next b.next post :=
    ⟨⟨w.arena, spans_concat.2 ⟨hl, rfl⟩, le_rfl, hr, by simpa using w.tagged⟩, by
      rw [← freeBlocks_append, List.append_assoc]
      exact w.lists⟩
  rw [AtEnd, (w.tagged b (by simp)).nextBlkp]
  cases post with
  | nil => simp [hwin.epilogue]
  | cons c post =>
    obtain ⟨tc, hc⟩ := hwin.tagged_head
    have := c.min
    rw [← hc, tc.getSize]
    simp
    omega

/-! ## The general path -/

/-- A block handed out after a call that leaves the allocated blocks alone is one handed out by
both calls together. -/
lemma HandsOut.of_keepsBlocks {h₁ : Heap} {bs₁ : List Block} {r : ℕ × Heap}
    (ho : HandsOut h₁ bs₁ asize r a bs') (k : KeepsBlocks h bs h₁ bs₁) :
    HandsOut h bs asize r a bs' := by
  have ha := ho.allocates.alloc
  refine ⟨ho.ptr, ho.size_le, ho.size_lt, ho.wellFormed, ⟨ha, ?_, fun d hd => ?_⟩, ?_, ?_⟩
  · rw [← k.mem_iff a ha]; exact ho.allocates.fresh
  · rw [ho.allocates.mem_iff d hd, k.mem_iff d hd]
  · rw [ho.start, k.start]
  · exact k.keeps.trans (ho.keeps.mono fun d hd hda => (k.mem_iff d hda).2 hd)

/-- The heap is one for which the branch for 4092 bytes was written: a single free block. -/
def FirstFits (h : Heap) : Prop :=
  h.extendHeap (adjust 4092 / wsize) = none ∨
    (h.getAlloc (hdrp (h.nextBlkp h.heapListp)) = 0 ∧ h.AtEnd (h.nextBlkp h.heapListp) ∧
      72 ≤ h.firstSize)

/-- The branch for 4092 bytes, after the heap has grown. -/
lemma malloc4092_spec {r : ℕ × Heap} {c : Block} {h24 h8} (w : WellFormed h bs)
    (hfirst : FirstFits h) (hext : h.extendHeap (adjust 4092 / wsize) = some r)
    (he : Extended h bs (chunk h 4104 h24 h8) r xs c) :
    ∃ a bs', HandsOut h bs (adjust 4092)
      (r.2.splitThree (r.2.nextBlkp r.2.heapListp) ((16 + overhead) * 2) (adjust 4092)) a bs' := by
  obtain ⟨hfree, hend, h72⟩ := hfirst.resolve_left (by simp [hext])
  cases bs with
  | nil => simp [w.firstSize_nil] at h72
  | cons b bs =>
    obtain ⟨hs, hn⟩ := w.firstSize_cons
    rw [hn] at hfree hend
    have w₀ : WellFormed h ([] ++ b :: bs) := w
    obtain rfl : bs = [] := w₀.atEnd_iff.1 hend
    have hb : b.alloc = false := by
      rw [(w.tagged b (by simp)).getAlloc] at hfree
      simpa using hfree
    have he₀ : Extended h ([] ++ [b]) (chunk h 4104 h24 h8) r xs c := he
    obtain ⟨rfl, rfl⟩ := he₀.of_free w.noAdj hb rfl
    have w' : WellFormed r.2 ([] ++ b.join (chunk h 4104 h24 h8) :: []) := he.wellFormed
    rw [WellFormed.firstSize_cons w' |>.2]
    obtain ⟨a, bs', ho⟩ := splitThree_spec w' rfl
      (show 24 ≤ (16 + overhead) * 2 by decide) (by decide) (show 24 ≤ adjust 4092 by decide)
      (by decide) (by
        rw [Block.join_size, show adjust 4092 = 4104 by decide]
        simp only [overhead, chunk]
        omega)
    exact ⟨a, bs', ho.of_keepsBlocks (he.keepsBlocks rfl)⟩

/-- **The general path of `mm_malloc`** ends, and hands out a block or fails. -/
theorem mallocFit_spec (w : WellFormed h bs) (hn : n < 2 ^ 31)
    (hsafe : n = 4092 → h.findFit (adjust 4092) = some 0 → FirstFits h) :
    ∃ r, h.mallocFit n (adjust n) = some r ∧
      (r = (0, h) ∨ ∃ a bs', HandsOut h bs (adjust n) r a bs') := by
  obtain ⟨h24, h8, -, hmax⟩ := adjust_spec hn
  obtain ⟨bp, hfit, hbp⟩ := findFit_spec w (adjust n)
  rw [mallocFit, hfit, Option.bind_some]
  rcases hbp with rfl | ⟨b, hb, hfree, rfl, hle⟩
  · rw [if_neg (by simp)]
    have hsize : max (adjust n) chunksize < 2 ^ 32 ∧ 24 ≤ max (adjust n) chunksize ∧
        8 ∣ max (adjust n) chunksize := by
      rcases max_choice (adjust n) chunksize with hm | hm <;> rw [hm]
      · exact ⟨by omega, h24, h8⟩
      · decide
    have hs := extendSize_div hsize.2.2 (by omega)
    rcases extendHeap_cases w hs hsize.2.1 hsize.2.2 hsize.1 with hx | ⟨r, xs, c, hx, he⟩
    · exact ⟨_, by simp only [hx], .inl rfl⟩
    · simp only [hx]
      by_cases h4092 : n = 4092
      · subst h4092
        rw [if_pos rfl]
        exact ⟨_, rfl, .inr (malloc4092_spec w (hsafe rfl hfit) hx he)⟩
      · rw [if_neg h4092]
        have hle : adjust n ≤ c.size := by
          have := he.size_le
          have : adjust n ≤ max (adjust n) chunksize := le_max_left _ _
          simp only [chunk] at *
          omega
        obtain ⟨a, bs', ho⟩ := place_spec he.wellFormed he.free h24 h8 hle
        rw [← he.ptr] at ho
        exact ⟨_, rfl, .inr ⟨a, bs', ho.of_keepsBlocks (he.keepsBlocks rfl)⟩⟩
  · have hpos : b.addr ≠ 0 := (w.placed.pos b hb).ne'
    rw [if_pos hpos]
    obtain ⟨pre, post, rfl⟩ := List.append_of_mem hb
    exact ⟨_, rfl, .inr (place_spec w hfree h24 h8 hle)⟩

/-! ## The branches for small and big blocks -/

/-- A first-fit scan that ends has found a free block that is large enough.

**Proof sketch.** Induction on the rounds; the scan stands at a block with the blocks `ys` from
there on, or at the epilogue, which is allocated and of size zero, so that it never ends there. -/
lemma findFirstFit_of_spans (w : WellFormed h bs) (fuel : ℕ) :
    ∀ {bp r : ℕ} {ys : List Block}, ys ⊆ bs → Spans bp ys h.memBrk →
      h.findFirstFit asize fuel bp = some r →
      ∃ b ∈ bs, b.alloc = false ∧ b.addr = r ∧ asize ≤ b.size := by
  have hbrk := w.window_end.bounds
  induction fuel with
  | zero => simp [findFirstFit]
  | succ fuel ih =>
    intro bp r ys hsub hsp hr
    cases ys with
    | nil =>
      obtain rfl : bp = h.memBrk := hsp
      obtain ⟨hs, hal⟩ := w.window_end.epilogue
      have hnext : h.nextBlkp h.memBrk = h.memBrk := by
        rw [nextBlkp, ← hdrp, hs, Nat.add_zero]
      rw [findFirstFit, if_pos (by omega), if_neg (by simp [hal]), hnext] at hr
      exact ih (List.nil_subset bs) rfl hr
    | cons b ys =>
      obtain ⟨rfl, hsp⟩ := hsp
      have hb : b ∈ bs := hsub List.mem_cons_self
      have t := w.tagged b hb
      rw [findFirstFit, if_pos (w.placed.pos b hb).ne', t.getAlloc, t.getSize, t.nextBlkp] at hr
      split_ifs at hr with hfit
      · cases hr
        exact ⟨b, hb, by simpa using hfit.1, rfl, hfit.2⟩
      · exact ih (fun c hc => hsub (List.mem_cons_of_mem b hc)) hsp hr

/-- The prologue is passed over, and the scan goes on at the first block. -/
lemma findFirstFit_spec (w : WellFormed h bs) {fuel r : ℕ}
    (hr : h.findFirstFit asize fuel h.heapListp = some r) :
    ∃ b ∈ bs, b.alloc = false ∧ b.addr = r ∧ asize ≤ b.size := by
  cases fuel with
  | zero => simp [findFirstFit] at hr
  | succ fuel =>
    have hlistp := w.arena.listp
    have hal : h.getAlloc (hdrp h.heapListp) = 1 := by
      rw [Heap.getAlloc, Heap.get, hdrp, hlistp, show h.memStartBrk + 8 - wsize =
        h.memStartBrk + 4 from rfl, w.arena.prologueHdr]
      decide
    rw [findFirstFit, if_pos (by omega), if_neg (by simp [hal]), w.nextBlkp_listp] at hr
    exact findFirstFit_of_spans w fuel (List.Subset.refl bs) w.spans hr

/-- The heap is one for which the branch for 112 and 448 bytes was written: its last block is
free, and it is large enough unless the heap is grown for it. -/
structure LastFits (h : Heap) (asize : ℕ) : Prop where
  /-- Behind a block for 16 bytes the heap is grown by 156 chunks. -/
  grow16 : h.getSize (hdrp (h.prevBlkp h.findLastFit)) = 16 + overhead →
    h.extendHeap (156 * chunksize / wsize) = none ∨ h.getAlloc (hdrp h.findLastFit) = 0
  /-- Behind a block for 64 bytes the heap is grown by 289 chunks. -/
  grow64 : h.getSize (hdrp (h.prevBlkp h.findLastFit)) = 64 + overhead →
    h.extendHeap (289 * chunksize / wsize) = none ∨ h.getAlloc (hdrp h.findLastFit) = 0
  /-- Otherwise the last block is taken as it is. -/
  fit : h.getSize (hdrp (h.prevBlkp h.findLastFit)) ≠ 16 + overhead →
    h.getSize (hdrp (h.prevBlkp h.findLastFit)) ≠ 64 + overhead →
      h.getAlloc (hdrp h.findLastFit) = 0 ∧ asize ≤ h.getSize (hdrp h.findLastFit)

/-- Growing the heap at a free last block and cutting that block into three. -/
lemma growSplit_spec {words size first : ℕ} (w : WellFormed h (bs ++ [b]))
    (hs : extendSize words = size) (hs8 : 8 ∣ size) (hlt : size < 2 ^ 32)
    (hsafe : h.extendHeap words = none ∨ b.alloc = false) (hf24 : 24 ≤ first) (hf8 : 8 ∣ first)
    (h24 : 24 ≤ asize) (h8 : 8 ∣ asize) (hle : first + asize ≤ size) :
    h.extendHeap words = none ∨ ∃ r, h.extendHeap words = some r ∧
      ∃ a bs', HandsOut h (bs ++ [b]) asize (r.2.splitThree b.addr first asize) a bs' := by
  rcases extendHeap_cases w hs (by omega) hs8 hlt with hx | ⟨r, xs, c, hx, he⟩
  · exact .inl hx
  · have hb : b.alloc = false := hsafe.resolve_left (by simp [hx])
    obtain ⟨rfl, rfl⟩ := he.of_free w.noAdj hb rfl
    obtain ⟨a, bs', ho⟩ := splitThree_spec he.wellFormed he.free hf24 hf8 h24 h8 (by
      have := b.min
      simp only [Block.join_size, chunk]
      omega)
    exact .inr ⟨r, hx, a, bs', ho.of_keepsBlocks (he.keepsBlocks rfl)⟩

/-- The branch for 112 and 448 bytes. -/
lemma mallocLast_spec (w : WellFormed h (bs ++ [b])) (hsafe : LastFits h asize)
    (h24 : 24 ≤ asize) (h8 : 8 ∣ asize) (hmax : asize ≤ 456) :
    h.mallocLast h.findLastFit asize = (0, h) ∨
      ∃ a bs', HandsOut h (bs ++ [b]) asize (h.mallocLast h.findLastFit asize) a bs' := by
  have t := w.tagged b (by simp)
  obtain ⟨h16, h64, hfit⟩ := hsafe
  simp only [w.findLastFit, t.getAlloc, t.getSize, Bool.toNat_eq_zero] at h16 h64 hfit
  rw [w.findLastFit, mallocLast]
  by_cases h24' : h.getSize (hdrp (h.prevBlkp b.addr)) = 16 + overhead
  · simp only [h24', true_or, if_true]
    rcases growSplit_spec w
      (show extendSize (156 * chunksize / wsize) = 638976 by decide) (by decide) (by decide)
      (h16 h24') (show 24 ≤ (16 + overhead) * 4000 by decide) (by decide) h24 h8
      (by simp only [overhead]; omega) with hx | ⟨r, hx, ho⟩
    · exact .inl (by simp only [hx])
    · exact .inr (by simpa only [hx] using ho)
  · by_cases h72 : h.getSize (hdrp (h.prevBlkp b.addr)) = 64 + overhead
    · have hne : (64 + overhead : ℕ) ≠ 16 + overhead := by decide
      simp only [h72, or_true, if_true, if_neg hne]
      rcases growSplit_spec w
        (show extendSize (289 * chunksize / wsize) = 1183744 by decide) (by decide) (by decide)
        (h64 h72) (show 24 ≤ (64 + overhead) * 2000 by decide) (by decide) h24 h8
        (by simp only [overhead]; omega) with hx | ⟨r, hx, ho⟩
      · exact .inl (by simp only [hx])
      · exact .inr (by simpa only [hx] using ho)
    · simp only [h24', h72, or_self, if_false]
      obtain ⟨hfree, hle⟩ := hfit h24' h72
      exact .inr (place_spec w hfree h24 h8 hle)

/-! ## All branches -/

/-- The heaps in which a call for `n` bytes takes no branch that was not written for them. -/
structure MallocSafe (h : Heap) (n : ℕ) : Prop where
  /-- The branches for 4095 and 8190 bytes are written for the pattern of coalescing-bal, and hand
  out blocks that stay free. -/
  ne : n ≠ 4095 ∧ n ≠ 8190
  /-- The branch for 112 and 448 bytes takes the last block. -/
  last : n = 112 ∨ n = 448 → h.firstSize = 16 + overhead ∨ h.firstSize = 64 + overhead →
    LastFits h (adjust n)
  /-- The branch for 4092 bytes cuts up the first block. -/
  first : n = 4092 → h.findFit (adjust 4092) = some 0 → FirstFits h

/-- **A safe call of `mm_malloc`** that returns hands out a block, or fails and changes
nothing. -/
theorem mmMalloc_spec (w : WellFormed h bs) (hn0 : 0 < n) (hn : n < 2 ^ 31)
    (hsafe : MallocSafe h n) {r : ℕ × Heap} (hr : h.mmMalloc n = some r) :
    r = (0, h) ∨ ∃ a bs', HandsOut h bs (adjust n) r a bs' := by
  obtain ⟨h24, h8, -, -⟩ := adjust_spec hn
  have hfit : h.mallocFit n (adjust n) = some r →
      r = (0, h) ∨ ∃ a bs', HandsOut h bs (adjust n) r a bs' := fun hr => by
    obtain ⟨r', hr', hc⟩ := mallocFit_spec w hn hsafe.first
    rw [hr] at hr'
    cases hr'
    exact hc
  simp only [mmMalloc, if_neg hsafe.ne.1, if_neg hsafe.ne.2, if_neg hn0.ne'] at hr
  split_ifs at hr with h1 h2 h3
  · obtain ⟨bp, hbp, hr⟩ := Option.bind_eq_some_iff.1 hr
    obtain ⟨b, hb, hfree, rfl, hle⟩ := findFirstFit_spec w hbp
    rw [if_pos (w.placed.pos b hb).ne'] at hr
    cases hr
    obtain ⟨pre, post, rfl⟩ := List.append_of_mem hb
    exact .inr (place_spec w hfree h24 h8 hle)
  · cases hr
    have hne : bs ≠ [] := by
      rintro rfl
      simp [w.firstSize_nil, overhead] at h2
    obtain ⟨bs, b, rfl⟩ := (List.eq_nil_or_concat bs).resolve_left hne
    rw [List.concat_eq_append] at *
    refine mallocLast_spec w (hsafe.last h2.2 h2.1) h24 h8 ?_
    rcases h2.2 with rfl | rfl <;> decide
  · exact hfit hr
  · exact hfit hr

/-- The sizes for which `mm_malloc` has no branch of its own. -/
def Ordinary (n : ℕ) : Prop :=
  n ≠ 16 ∧ n ≠ 64 ∧ n ≠ 112 ∧ n ≠ 448 ∧ n ≠ 4092 ∧ n ≠ 4095 ∧ n ≠ 8190

/-- Every heap is safe for an ordinary size. -/
lemma Ordinary.safe (ho : Ordinary n) (h : Heap) : MallocSafe h n := by
  obtain ⟨-, -, h112, h448, h4092, h4095, h8190⟩ := ho
  exact ⟨⟨h4095, h8190⟩, fun hn => by tauto, fun hn => absurd hn h4092⟩

/-- **A call for an ordinary size ends.** -/
theorem mmMalloc_returns (w : WellFormed h bs) (hn : n < 2 ^ 31) (ho : Ordinary n) :
    ∃ r, h.mmMalloc n = some r := by
  obtain ⟨r, hr, -⟩ := mallocFit_spec w hn (ho.safe h).first
  obtain ⟨h16, h64, h112, h448, -, h4095, h8190⟩ := ho
  by_cases h0 : n = 0
  · exact ⟨(0, h), by simp only [mmMalloc, if_neg h4095, if_neg h8190, if_pos h0]⟩
  · refine ⟨r, ?_⟩
    simp only [mmMalloc, if_neg h4095, if_neg h8190, if_neg h0]
    rw [if_neg (by tauto), if_neg (by tauto), hr]

end Malloc
