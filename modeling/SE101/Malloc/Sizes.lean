import SE101.Malloc.Termination

set_option relaxedAutoImplicit false
set_option autoImplicit false

/-!
# Large requests

For requests below `2³¹` nothing wraps. For larger ones the adjusted size may wrap at `2⁶⁴`, and
`extend_heap` passes it to a parameter of type `int` and writes it into words of 32 bits: what is
asked of `mem_sbrk` is the size modulo `2³²`. No block of the heap is as large as such a request,
so that the call is right exactly if it returns `NULL`, and that happens only if the size modulo
`2³²` does not fit either.

## Main definitions

* `Malloc.Sized` — the call returns `NULL` and changes no block, or returns a large enough block.

## Main results

* `Malloc.extendHeap_eq` — `extend_heap` for sizes of any width.
* `Malloc.sized_iff_of_le` — when a request from `2³¹` on is served rightly.
-/

namespace Malloc

open LittleEndian Heap

variable {h h' : Heap} {p b : Block} {bs xs : List Block} {n size s : ℕ}

/-! ## `extend_heap` for sizes of any width -/

/-- Conversion to `int` keeps the low 32 bits only. -/
lemma toInt32_mod (v : ℕ) : toInt32 (v % 2 ^ 32) = toInt32 v := by
  rw [toInt32, toInt32]
  congr 1
  apply BitVec.eq_of_toNat_eq
  simp

/-- The heap from which `extend_heap` calls `coalesce`, when it was asked for `size` bytes and
has got `s` bytes. -/
def reached (h : Heap) (size s : ℕ) : Heap :=
  let h₁ := (({ h with memBrk := h.memBrk + s } : Heap).putTags h.memBrk size 0).clearLinks h.memBrk
  h₁.put (hdrp (h₁.nextBlkp h.memBrk)) (pack 0 1)

/-- `extend_heap` asks for the size modulo `2³²`. -/
lemma extendHeap_eq (w : WellFormed h bs) (h8 : 8 ∣ size) (hlt : size < 2 ^ 64) :
    h.extendHeap (size / wsize) =
      if h.memBrk + size % 2 ^ 32 ≤ h.memMaxAddr then
        some ((reached h size (size % 2 ^ 32)).coalesce h.memBrk)
      else none := by
  have hb := w.window_end.bounds
  have hM := w.arena.maxAddr
  simp only [maxHeap] at hM
  rw [extendHeap, ← extendSize, extendSize_div h8 hlt, ← toInt32_mod,
    memSbrk_eq (by omega) (Nat.mod_lt _ (by decide))]
  by_cases hroom : h.memBrk + size % 2 ^ 32 ≤ h.memMaxAddr
  · rw [if_pos hroom, if_pos hroom]
    rfl
  · rw [if_neg hroom, if_neg hroom]

/-- The tags that are written have the size modulo `2³²`. -/
lemma putTags_wide (h : Heap) (bp : ℕ) (h8 : 8 ∣ size) :
    h.putTags bp size 0 = (h.put (bp - 4) size).put (bp + size % 2 ^ 32 - 8) size := by
  have hp : pack size 0 = size := Nat.or_zero size
  have hs : (h.put (bp - 4) size).getSize (bp - 4) = size % 2 ^ 32 := by
    rw [Heap.getSize, Heap.get, put_mem, load_store_self]
    norm_num
    omega
  rw [putTags, hp, hdrp, wsize, ftrp, hdrp, wsize, hs, dsize]

/-- What is written when at least eight bytes have been got: the header, the epilogue, and bytes
between them. -/
lemma reached_spec (h : Heap) (h8 : 8 ∣ size) (hs : s = size % 2 ^ 32) (hs8 : 8 ≤ s)
    (hbrk : 4 ≤ h.memBrk) :
    (∀ x, x < h.memBrk - 4 → (reached h size s).mem x = h.mem x) ∧
      (reached h size s).getSize (hdrp h.memBrk) = s ∧
      load (reached h size s).mem (h.memBrk + s - 4) 4 = pack 0 1 ∧
      (reached h size s).freeListp = h.freeListp := by
  set h₁ := (({ h with memBrk := h.memBrk + s } : Heap).putTags h.memBrk size 0).clearLinks
    h.memBrk with hh₁
  have hmem : h₁.mem = store (store (store (store h.mem (h.memBrk - 4) 4 size)
      (h.memBrk + s - 8) 4 size) h.memBrk 8 0) (h.memBrk + 8) 8 0 := by
    rw [hh₁, putTags_wide _ _ h8, ← hs]
    rfl
  have hsize : h₁.getSize (hdrp h.memBrk) = s := by
    rw [Heap.getSize, Heap.get, hdrp, wsize, hmem, load_store_of_disjoint (by omega),
      load_store_of_disjoint (by omega), load_store_of_disjoint (by omega), load_store_self]
    norm_num
    omega
  have hr : reached h size s = h₁.put (h.memBrk + s - 4) (pack 0 1) := by
    rw [reached, ← hh₁, nextBlkp, ← hdrp, hsize, hdrp, wsize]
  rw [hr]
  refine ⟨fun x hx => ?_, ?_, load_store_same (by decide), ?_⟩
  · rw [put_mem, hmem, store_apply_of_notMem (by omega), store_apply_of_notMem (by omega),
      store_apply_of_notMem (by omega), store_apply_of_notMem (by omega),
      store_apply_of_notMem (by omega)]
  · rw [getSize_put_of_disjoint _ (by rw [hdrp, wsize]; omega), hsize]
  · rw [put_freeListp, hh₁, clearLinks, putaddr_freeListp, putaddr_freeListp, putTags_freeListp]

lemma sameArena_reached (h : Heap) (size s : ℕ) :
    SameArena { h with memBrk := h.memBrk + s } (reached h size s) :=
  (((sameArena_putTags ..).trans (sameArena_putaddr _ _)).trans (sameArena_putaddr _ _)).trans
    (sameArena_put _ _)

lemma sameArena_coalesce (h : Heap) (bp : ℕ) : SameArena h (h.coalesce bp).2 := by
  simp only [coalesce]
  split_ifs
  · exact sameArena_insertBlock _ _
  · exact ((sameArena_removeBlock _ _).trans (sameArena_putTags ..)).trans
      (sameArena_insertBlock _ _)
  · exact (((sameArena_removeBlock _ _).trans (sameArena_put _ _)).trans
      (sameArena_put _ _)).trans (sameArena_insertBlock _ _)
  · exact ((((sameArena_removeBlock _ _).trans (sameArena_removeBlock _ _)).trans
      (sameArena_put _ _)).trans (sameArena_put _ _)).trans (sameArena_insertBlock _ _)

/-- The block that `extend_heap` returns is not `NULL` when at least eight bytes have been got.

**Proof sketch.** The new bytes are a hole in front of the epilogue. `coalesce` returns their
address, or that of a free block in front of them, whose footer none of its writes touches. -/
lemma coalesce_reached_ne_zero (w : WellFormed h bs) (h8 : 8 ∣ size) (hs : s = size % 2 ^ 32)
    (hs8 : 8 ≤ s) (hroom : h.memBrk + s ≤ h.memMaxAddr) :
    ((reached h size s).coalesce h.memBrk).1 ≠ 0 := by
  have hb := w.window_end.bounds
  obtain ⟨hm, hsize, hepi, hf⟩ := reached_spec h h8 hs hs8 (by omega)
  have win : Window (reached h size s) bs h.memBrk (h.memBrk + s) [] :=
    w.window_grown (by omega) hroom (sameArena_reached h size s) hf hm hepi
  set g := reached h size s with hg
  have hnext : g.nextBlkp h.memBrk = h.memBrk + s := by rw [nextBlkp, ← hdrp, hsize]
  have hnal : g.getAlloc (hdrp (g.nextBlkp h.memBrk)) ≠ 0 := by simp [hnext, win.epilogue]
  rcases win.prev_cases with ⟨hprev, -⟩ | ⟨hprev, xs, p, rfl, hp⟩
  · rw [coalesce]
    dsimp only
    rw [if_pos ⟨hprev, hnal⟩]
    exact (by omega : h.memBrk ≠ 0)
  · obtain ⟨tp, hpn⟩ := win.tagged_last
    have hpp := p.addr_add_le
    have hpos : p.addr ≠ 0 := (w.placed.pos p (by simp)).ne'
    have hprev₀ : g.prevBlkp h.memBrk = p.addr := by rw [← hpn, tp.prevBlkp]
    set g₁ := g.removeBlock p.addr with hg₁
    have hm₁ : ∀ x, p.addr + 16 ≤ x → x < h.memBrk + s - 4 → g₁.mem x = g.mem x :=
      fun x h₁ h₂ => win.removeLeft_mem hp (.inl ⟨by omega, h₂⟩) (.inr h₁)
    have hfoot : g₁.prevBlkp h.memBrk = p.addr := by
      rw [← hprev₀, prevBlkp, prevBlkp, Heap.getSize, Heap.getSize, Heap.get, Heap.get, dsize,
        load_congr fun i hi => hm₁ (h.memBrk - 8 + i) (by omega) (by omega)]
    have hhead : g₁.ftrp h.memBrk = h.memBrk + s - 8 := by
      rw [ftrp, dsize, ← hsize, Heap.getSize, Heap.getSize, Heap.get, Heap.get, hdrp, wsize,
        load_congr fun i hi => hm₁ (h.memBrk - 4 + i) (by omega) (by omega)]
    have hfoot' (v : ℕ) : (g₁.put (h.memBrk + s - 8) v).prevBlkp h.memBrk = p.addr := by
      rw [prevBlkp_put_of_disjoint _ (by omega), hfoot]
    rw [coalesce]
    dsimp only
    rw [if_neg (by tauto), if_neg (by tauto), if_pos ⟨hprev, hnal⟩, hprev₀, ← hg₁, hhead, hfoot',
      prevBlkp_put_of_disjoint _ (by rw [hdrp, wsize]; omega), hfoot']
    exact hpos

/-- When nothing has been got, an empty block takes the place of the old epilogue, and it is
returned. -/
lemma coalesce_reached_zero (h : Heap) (h8 : 8 ∣ size) (hs : size % 2 ^ 32 = 0)
    (hbrk : 8 ≤ h.memBrk) : ((reached h size 0).coalesce h.memBrk).1 = h.memBrk := by
  set bp := h.memBrk with hbp
  set h₁ := (({ h with memBrk := bp + 0 } : Heap).putTags bp size 0).clearLinks bp with hh₁
  have hmem : h₁.mem = store (store (store (store h.mem (bp - 4) 4 size)
      (bp - 8) 4 size) bp 8 0) (bp + 8) 8 0 := by
    rw [hh₁, putTags_wide _ _ h8, hs]
    rfl
  have hsize : h₁.getSize (hdrp bp) = 0 := by
    rw [Heap.getSize, Heap.get, hdrp, wsize, hmem, load_store_of_disjoint (by omega),
      load_store_of_disjoint (by omega), load_store_of_disjoint (by omega), load_store_self]
    norm_num
    omega
  have hr : reached h size 0 = h₁.put (bp - 4) (pack 0 1) := by
    rw [reached, ← hbp, ← hh₁, nextBlkp, ← hdrp, hsize, hdrp, wsize, Nat.add_zero]
  set g := reached h size 0 with hg
  -- the words in front of the break are an empty footer and an empty allocated header
  have h4 : g.get (bp - 4) = pack 0 1 := by
    rw [hr, Heap.get, put_mem, load_store_same (by decide)]
  have h8' : g.get (bp - 8) = 0 := by
    rw [hr, Heap.get, put_mem, load_store_of_disjoint (by omega), hmem,
      load_store_of_disjoint (by omega), load_store_of_disjoint (by omega), load_store_self]
    exact hs
  have hpred : g.prevFblkp bp = 0 := by
    rw [hr, prevFblkp, getaddr, put_mem, Malloc.pred, load_store_of_disjoint (by omega), hmem,
      load_store_of_disjoint (by omega), load_store_same (by decide)]
  have hsucc : g.nextFblkp bp = 0 := by
    rw [hr, nextFblkp, getaddr, put_mem, succ, dsize, load_store_of_disjoint (by omega), hmem,
      load_store_same (by decide)]
  set g₁ := g.removeBlock bp with hg₁
  have hkeep (x : ℕ) (hx : x + 4 ≤ bp) : g₁.get x = g.get x := by
    rw [hg₁, removeBlock, if_neg (by omega), hpred, hsucc]
    dsimp only
    rw [if_pos ⟨rfl, rfl⟩, Heap.get, putaddr_mem, putaddr_mem, setFreeListp_mem, Malloc.pred, succ,
      dsize, load_store_of_disjoint (by omega), load_store_of_disjoint (by omega), Heap.get]
  have hprev : g.prevBlkp bp = bp := by
    rw [prevBlkp, dsize, Heap.getSize, h8', Nat.zero_div, Nat.zero_mul, Nat.sub_zero]
  have hfoot : g.ftrp bp = bp - 8 := by
    rw [ftrp, hdrp, wsize, Heap.getSize, h4, dsize]
    rfl
  have hnext : g.nextBlkp bp = bp := by
    rw [nextBlkp, wsize, Heap.getSize, h4]
    rfl
  have hprev₁ : g₁.prevBlkp bp = bp := by
    rw [prevBlkp, dsize, Heap.getSize, hkeep _ (by omega), h8', Nat.zero_div, Nat.zero_mul,
      Nat.sub_zero]
  have hfoot₁ : g₁.ftrp bp = bp - 8 := by
    rw [ftrp, hdrp, wsize, Heap.getSize, hkeep _ (by omega), h4, dsize]
    rfl
  have hsize₁ : g.getSize (hdrp bp) + g₁.getSize (hdrp bp) = 0 := by
    rw [hdrp, wsize, Heap.getSize, Heap.getSize, hkeep _ (by omega), h4]
    decide
  have hprev₂ : (g₁.put (bp - 8) (pack 0 0)).prevBlkp bp = bp := by
    rw [prevBlkp, dsize, Heap.getSize, Heap.get, put_mem, load_store_same (by decide)]
    rfl
  rw [coalesce]
  dsimp only
  rw [hprev, hfoot, hnext, ← hg₁, hprev₁, hfoot₁, hsize₁, hprev₂,
    prevBlkp_put_of_disjoint _ (by rw [hdrp, wsize]; omega), hprev₂,
    show g.getAlloc (bp - 8) = 0 by rw [Heap.getAlloc, h8'],
    show g.getAlloc (hdrp bp) = 1 by rw [Heap.getAlloc, hdrp, wsize, h4]; decide,
    if_neg (by simp), if_neg (by simp), if_pos (by simp)]

/-! ## Requests -/

/-- A request for `n` bytes returns `NULL` and leaves the bytes of the heap and the free lists
alone, or it returns a pointer whose block lies inside the heap and has at least `n + 8` bytes. -/
def Sized (h : Heap) (n : ℕ) : Prop :=
  ∃ q h', h.mmMalloc n = some (q, h') ∧
    ((q = 0 ∧ h'.freeListp = h.freeListp ∧
        ∀ x, h.memStartBrk ≤ x → x < h.memBrk → h'.mem x = h.mem x) ∨
      (q ≠ 0 ∧ h'.memStartBrk ≤ hdrp q ∧ hdrp q + h'.getSize (hdrp q) ≤ h'.memBrk ∧
        n + 8 ≤ h'.getSize (hdrp q)))

/-- A pointer that is returned is judged by its header. -/
lemma sized_iff_of_ne_zero {q : ℕ} (hr : h.mmMalloc n = some (q, h')) (hq : q ≠ 0) :
    Sized h n ↔ h'.memStartBrk ≤ hdrp q ∧ hdrp q + h'.getSize (hdrp q) ≤ h'.memBrk ∧
      n + 8 ≤ h'.getSize (hdrp q) := by
  constructor
  · rintro ⟨q', h'', hr', hcase⟩
    rw [hr] at hr'
    cases hr'
    rcases hcase with ⟨h0, -⟩ | ⟨-, hin⟩
    · exact absurd h0 hq
    · exact hin
  · exact fun hin => ⟨q, h', hr, .inr ⟨hq, hin⟩⟩

/-- A request that returns `NULL` and the heap as it was is served rightly. -/
lemma sized_of_null (hr : h.mmMalloc n = some (0, h)) : Sized h n :=
  ⟨0, h, hr, .inl ⟨rfl, rfl, fun _ _ _ => rfl⟩⟩

/-- A safe request that ends is served rightly when it is below `2³¹`. -/
lemma sized_of_lt (w : WellFormed h bs) (hn : n < 2 ^ 31) (hsafe : MallocSafe h n)
    (hends : ¬ ((n = 16 ∨ n = 64) ∧
      (h.firstSize = 16 + overhead ∨ h.firstSize = 64 + overhead) ∧
      ∀ b ∈ bs, b.alloc = false → b.size < adjust n)) : Sized h n := by
  obtain ⟨⟨q, h'⟩, hr⟩ := (mmMalloc_returns_iff w n).2 hends
  rcases Nat.eq_zero_or_pos n with rfl | hn0
  · have h0 : h.mmMalloc 0 = some (0, h) := rfl
    exact sized_of_null h0
  rcases mmMalloc_spec w hn0 hn hsafe hr with h0 | ⟨a, bs', ho⟩
  · cases h0
    exact sized_of_null hr
  · obtain rfl : q = a.addr := ho.ptr
    have wf : WellFormed h' bs' := ho.wellFormed
    have hab : a ∈ bs' := (ho.allocates.mem_iff a ho.allocates.alloc).2 (.inl rfl)
    have hb := wf.spans.bounds hab
    have hsize := (adjust_spec hn).2.2.1
    have hle := ho.size_le
    refine ⟨a.addr, h', hr, .inr ⟨(wf.placed.pos a hab).ne', ?_, ?_, ?_⟩⟩
    · rw [hdrp, wsize]
      omega
    · rw [(wf.tagged a hab).getSize, hdrp, wsize]
      unfold Block.next at hb
      omega
    · rw [(wf.tagged a hab).getSize]
      omega

/-- No block of the heap is large enough for a request from `2³¹` on. -/
lemma not_sized_of_le {q : ℕ} (w : WellFormed h bs) (hn : 2 ^ 31 ≤ n)
    (hstart : h'.memStartBrk = h.memStartBrk) (hbrk : h'.memBrk ≤ h.memMaxAddr) (hq : q ≠ 0)
    (hr : h.mmMalloc n = some (q, h')) : ¬ Sized h n := by
  rw [sized_iff_of_ne_zero hr hq]
  rintro ⟨h1, h2, h3⟩
  have hM := w.arena.maxAddr
  simp only [maxHeap] at hM
  omega

/-- The adjusted size is a multiple of eight and a value of type `size_t`. -/
lemma adjust_wide (n : ℕ) : 8 ∣ adjust n ∧ adjust n < 2 ^ 64 := by
  unfold adjust dsize
  split_ifs
  · decide
  · omega

/-- **Requests from `2³¹` on** are served rightly exactly if no free block is as large as the
adjusted size, which may have wrapped, and what is asked of `mem_sbrk`, the larger one of that size
and a chunk modulo `2³²`, does not fit. -/
lemma sized_iff_of_le (w : WellFormed h bs) (hn : 2 ^ 31 ≤ n) (hn64 : n < 2 ^ 64) :
    Sized h n ↔ (∀ b ∈ bs, b.alloc = false → b.size < adjust n) ∧
      h.memMaxAddr < h.memBrk + max (adjust n) chunksize % 2 ^ 32 := by
  have hb := w.window_end.bounds
  have hbrk := w.arena.brkLe
  obtain ⟨h8, hlt⟩ := adjust_wide n
  have hcall : h.mmMalloc n = h.mallocFit n (adjust n) := by
    rw [mmMalloc, if_neg (by omega), if_neg (by omega), if_neg (by omega)]
    dsimp only
    rw [if_neg (by omega), if_neg (by omega)]
  -- all free blocks are in the classes that are searched
  have hclass (c : Block) (hc : c ∈ bs) (hle : adjust n ≤ c.size) :
      getBlockIndex (toInt32 (adjust n)) ≤ getBlockIndex c.size := by
    have := w.placed.size_lt c hc
    rw [toInt32_of_lt (by omega)]
    exact getBlockIndex_mono (by exact_mod_cast hle)
  obtain ⟨r, hr, hcase⟩ := findFit_classes w (adjust n)
  have hmax : 8 ∣ max (adjust n) chunksize ∧ max (adjust n) chunksize < 2 ^ 64 := by
    rcases max_choice (adjust n) chunksize with hm | hm <;> rw [hm]
    · exact ⟨h8, hlt⟩
    · decide
  have hext := extendHeap_eq w hmax.1 hmax.2
  rcases hcase with ⟨rfl, hno⟩ | ⟨b, hbb, hfree, rfl, hle, -⟩
  · have hfull : ∀ c ∈ bs, c.alloc = false → c.size < adjust n := by
      intro c hc hcf
      by_contra hge
      exact hge (hno c hc hcf (hclass c hc (not_lt.1 hge)))
    set size := max (adjust n) chunksize with hsize
    by_cases hroom : h.memBrk + size % 2 ^ 32 ≤ h.memMaxAddr
    · rw [if_pos hroom] at hext
      set r₁ := (reached h size (size % 2 ^ 32)).coalesce h.memBrk with hr₁
      have hres : h.mmMalloc n = some (r₁.1, r₁.2.place r₁.1 (adjust n)) :=
        hcall.trans (mallocFit_of_grown hr hext (by omega))
      have harena : SameArena { h with memBrk := h.memBrk + size % 2 ^ 32 }
          (r₁.2.place r₁.1 (adjust n)) :=
        ((sameArena_reached h size (size % 2 ^ 32)).trans (sameArena_coalesce _ _)).trans
          (sameArena_place ..)
      have hne : r₁.1 ≠ 0 := by
        rcases Nat.lt_or_ge (size % 2 ^ 32) 8 with h7 | h7
        · have h0 : size % 2 ^ 32 = 0 := by omega
          rw [hr₁, h0, coalesce_reached_zero h hmax.1 h0 (by omega)]
          omega
        · exact coalesce_reached_ne_zero w hmax.1 rfl h7 hroom
      refine iff_of_false (not_sized_of_le w hn harena.memStartBrk ?_ hne hres) ?_
      · rw [harena.memBrk]
        exact hroom
      · rintro ⟨-, hlt⟩
        omega
    · rw [if_neg hroom] at hext
      exact iff_of_true (sized_of_null (hcall.trans (mallocFit_of_full hr hext)))
        ⟨hfull, not_le.1 hroom⟩
  · have hne : b.addr ≠ 0 := (w.placed.pos b hbb).ne'
    have hres : h.mmMalloc n = some (b.addr, h.place b.addr (adjust n)) := by
      rw [hcall, mallocFit, hr, Option.bind_some, if_pos hne]
    have harena := sameArena_place h b.addr (adjust n)
    refine iff_of_false (not_sized_of_le w hn harena.memStartBrk ?_ hne hres) ?_
    · rw [harena.memBrk]
      exact hbrk
    · rintro ⟨hno, -⟩
      have := hno b hbb hfree
      omega

end Malloc
