import SE101.Malloc.Coalesce

set_option relaxedAutoImplicit false
set_option autoImplicit false

/-!
# Growing the heap

`extend_heap` moves the break and turns the new bytes, together with the old epilogue, into a
free block that it coalesces; when the simulated heap is used up it fails and changes nothing.
`mm_init` writes prologue and epilogue into an empty heap and extends it once.

## Main definitions

* `Malloc.Extended` — what a successful `extend_heap` has brought about.
* `Malloc.KeepsBlocks` — a call has left the allocated blocks alone.
* `Malloc.Fresh` — the state that `mem_init` leaves.

## Main results

* `Malloc.extendHeap_of_lt`, `Malloc.extendHeap_spec` — failure and success of `extend_heap`.
* `Malloc.mmInit_spec` — the heap that `mm_init` leaves.
-/

namespace Malloc

open LittleEndian Heap

variable {h h' : Heap} {b e : Block} {bs xs ys : List Block} {x words : ℕ}

/-- The size by which `extend_heap` grows the heap: an even number of words. -/
def extendSize (words : ℕ) : ℕ :=
  (if words % 2 ≠ 0 then (words + 1) * wsize else words * wsize) % 2 ^ 64

/-- `mem_sbrk` fails exactly when the simulated heap is used up. -/
lemma memSbrk_eq {size : ℕ} (hmax : h.memMaxAddr < h.memBrk + 2 ^ 31) (hlt : size < 2 ^ 32) :
    h.memSbrk (toInt32 size) =
      if h.memBrk + size ≤ h.memMaxAddr then
        some (h.memBrk, { h with memBrk := h.memBrk + size })
      else none := by
  by_cases hs : size < 2 ^ 31
  · rw [memSbrk, toInt32_of_lt hs]
    by_cases hb : h.memBrk + size ≤ h.memMaxAddr
    · rw [if_neg (by omega), if_pos hb]
      rfl
    · rw [if_pos (by omega), if_neg hb]
  · -- such a size is negative as an `int`
    have hneg : toInt32 size < 0 := by
      rw [toInt32, BitVec.toInt_eq_toNat_cond, BitVec.toNat_ofNat, Nat.mod_eq_of_lt hlt,
        if_neg (by omega)]
      omega
    rw [memSbrk, if_pos (.inl hneg), if_neg (by omega)]

/-- The heap from which `extend_heap` calls `coalesce`: the block `e` behind the old break is
tagged, its pointers are clear, and the new epilogue stands behind it. -/
def grown (h : Heap) (e : Block) : Heap :=
  let h := { h with memBrk := e.next }
  let h := (h.putTags e.addr e.size 0).clearLinks e.addr
  h.put (hdrp (h.nextBlkp e.addr)) (pack 0 1)

/-- The heap from which `extend_heap` calls `coalesce`, with all addresses computed. -/
lemma grown_eq (ha : 4 ≤ e.addr) (hlt : e.size < 2 ^ 31) (hfree : e.alloc = false) :
    ∃ h₁ : Heap, Tagged h₁.mem e ∧ (∀ x, ¬ e.Meta x → h₁.mem x = h.mem x) ∧
      h₁.freeListp = h.freeListp ∧ SameArena { h with memBrk := e.next } h₁ ∧
      grown h e = (h₁.clearLinks e.addr).put (e.next - 4) (pack 0 1) := by
  set h₀ : Heap := { h with memBrk := e.next } with hh₀
  have t := tagged_putTags (b := e) h₀ ha hlt
  refine ⟨_, t, fun x hx => putTags_apply_of_notMeta h₀ ha hlt hx, putTags_freeListp ..,
    sameArena_putTags .., ?_⟩
  have hn := (t.clearLinks ha).nextBlkp
  rw [hfree, Bool.toNat_false] at hn
  simp only [grown, ← hh₀]
  rw [hn, hdrp, wsize, hfree, Bool.toNat_false]

/-- The memory from which `extend_heap` calls `coalesce`. -/
lemma grown_spec (ha : 4 ≤ e.addr) (hlt : e.size < 2 ^ 31) (hfree : e.alloc = false) :
    Tagged (grown h e).mem e ∧ load (grown h e).mem (e.next - 4) 4 = pack 0 1 ∧
      (∀ x, x < e.addr - 4 ∨ e.next ≤ x → (grown h e).mem x = h.mem x) ∧
      (grown h e).freeListp = h.freeListp ∧
      SameArena { h with memBrk := e.next } (grown h e) := by
  have he := e.addr_add_le
  obtain ⟨h₁, t, hm, hf, hA, hg⟩ := grown_eq (h := h) ha hlt hfree
  have m (x : ℕ) (hx : x < e.next - 4 ∨ e.next ≤ x) :
      (grown h e).mem x = (h₁.clearLinks e.addr).mem x := by
    rw [hg, put_mem, store_apply_of_notMem (by omega)]
  refine ⟨(t.clearLinks ha).congr ha fun x hx => m x (by unfold Block.Meta at hx; omega), ?_,
    fun x hx => ?_, ?_, ?_⟩
  · rw [hg, put_mem]
    exact load_store_same (by decide)
  · rw [m x (by omega), clearLinks_apply_of_notMem _ (by omega)]
    exact hm x (by unfold Block.Meta; omega)
  · rw [hg, put_freeListp, clearLinks, putaddr_freeListp, putaddr_freeListp, hf]
  · rw [hg]
    exact ((hA.trans (sameArena_putaddr _ _)).trans (sameArena_putaddr _ _)).trans
      (sameArena_put _ _)

/-- The bytes between the old break and the new footer are cleared or left alone. -/
lemma grown_mem (ha : 4 ≤ e.addr) (hlt : e.size < 2 ^ 24) (hfree : e.alloc = false)
    (hx : e.addr - 1 ≤ x) (hx' : x < e.next - 8) (h0 : h.mem x = 0) : (grown h e).mem x = 0 := by
  have he := e.addr_add_le
  have hlt' : e.size < 2 ^ 31 := by omega
  rcases Nat.lt_or_ge x e.addr with hxa | hxa
  · -- the last byte of the header
    have hh := (grown_spec (h := h) ha hlt' hfree).1.header
    have htag : e.tag = e.size := by rw [Block.tag, hfree]; exact Nat.or_zero _
    obtain rfl : x = e.addr - 4 + 3 := by omega
    have hb := load_div_mod (m := (grown h e).mem) (a := e.addr - 4) (show 3 < 4 by decide)
    rw [hh, htag, Nat.div_eq_of_lt (by norm_num; omega)] at hb
    exact BitVec.eq_of_toNat_eq hb.symm
  · obtain ⟨h₁, -, hm, -, -, hg⟩ := grown_eq (h := h) ha hlt' hfree
    rw [hg, put_mem, store_apply_of_notMem (by omega)]
    rcases Nat.lt_or_ge x (e.addr + 16) with h16 | h16
    · exact clearLinks_apply_of_mem h₁ hxa h16
    · rw [clearLinks_apply_of_notMem _ (by omega), hm x (by unfold Block.Meta; omega), h0]

/-- The heap has grown by the free block `e`, which has become part of the free block `c` at its
end. -/
structure Extended (h : Heap) (bs : List Block) (e : Block) (r : ℕ × Heap) (xs : List Block)
    (c : Block) : Prop where
  layout : joinFree (bs ++ [e]) = xs ++ [c]
  ptr : r.1 = c.addr
  free : c.alloc = false
  addr_le : c.addr ≤ e.addr
  next_eq : c.next = e.next
  wellFormed : WellFormed r.2 (xs ++ [c])
  brk : SameArena { h with memBrk := e.next } r.2
  keeps : KeepsPayloads bs h r.2

/-- The size of the last block of a heap that has grown. -/
lemma Extended.size_le {r : ℕ × Heap} {c : Block} (he : Extended h bs e r xs c) :
    e.size ≤ c.size := by
  have h1 := he.addr_le
  have h2 := he.next_eq
  simp only [Block.next] at h2
  omega

/-- The call has left the allocated blocks and their payloads alone. -/
structure KeepsBlocks (h : Heap) (bs : List Block) (h' : Heap) (bs' : List Block) : Prop where
  wellFormed : WellFormed h' bs'
  start : h'.memStartBrk = h.memStartBrk
  mem_iff : ∀ c : Block, c.alloc = true → (c ∈ bs' ↔ c ∈ bs)
  keeps : KeepsPayloads bs h h'

lemma KeepsBlocks.refl (w : WellFormed h bs) : KeepsBlocks h bs h bs :=
  ⟨w, rfl, fun _ _ => Iff.rfl, .refl bs h⟩

lemma KeepsBlocks.trans {h₁ h₂ : Heap} (k : KeepsBlocks h bs h₁ xs)
    (k' : KeepsBlocks h₁ xs h₂ ys) : KeepsBlocks h bs h₂ ys :=
  ⟨k'.wellFormed, k'.start.trans k.start,
    fun c hc => (k'.mem_iff c hc).trans (k.mem_iff c hc),
    k.keeps.trans (k'.keeps.mono fun c hc ha => (k.mem_iff c ha).2 hc)⟩

/-- Growing leaves the allocated blocks alone. -/
lemma Extended.keepsBlocks {r : ℕ × Heap} {c : Block} (he : Extended h bs e r xs c)
    (hfree : e.alloc = false) : KeepsBlocks h bs r.2 (xs ++ [c]) := by
  refine ⟨he.wellFormed, he.brk.memStartBrk, fun d hd => ?_, he.keeps⟩
  have hne : d ≠ e := by rintro rfl; simp [hfree] at hd
  rw [← he.layout, mem_joinFree_iff hd]
  simp [hne]

/-- `extend_heap` fails when the simulated heap is used up. -/
lemma extendHeap_of_lt (w : WellFormed h bs) (he : e.addr = h.memBrk)
    (hs : extendSize words = e.size) (hlt : e.size < 2 ^ 32) (hmax : h.memMaxAddr < e.next) :
    h.extendHeap words = none := by
  have hb := w.window_end.bounds
  have := w.arena.maxAddr
  simp only [maxHeap] at this
  rw [extendHeap, ← extendSize, hs, memSbrk_eq (by omega) hlt, if_neg (by
    simp only [Block.next] at hmax; omega)]

/-- When the break has moved and the epilogue stands in front of it, the bytes behind the old
break are a hole. -/
lemma WellFormed.window_grown (w : WellFormed h bs) {brk : ℕ} (hle : h.memBrk ≤ brk)
    (hmax : brk ≤ h.memMaxAddr) (ha : SameArena { h with memBrk := brk } h')
    (hf : h'.freeListp = h.freeListp) (hm : ∀ x, x < h.memBrk - 4 → h'.mem x = h.mem x)
    (hepi : load h'.mem (brk - 4) 4 = pack 0 1) : Window h' bs h.memBrk brk [] := by
  have hb := w.window_end.bounds
  refine ⟨⟨⟨?_, ?_, ?_, ?_, ?_, ?_, ?_, ?_⟩, ?_, hle, ?_, fun c hc => ?_⟩, ?_⟩
  · rw [ha.memStartBrk]; exact w.arena.aligned
  · rw [ha.memStartBrk]; exact w.arena.limit
  · rw [ha.memStartBrk, ha.memMaxAddr]; exact w.arena.maxAddr
  · rw [ha.memBrk, ha.memMaxAddr]; exact hmax
  · rw [ha.heapListp, ha.memStartBrk]; exact w.arena.listp
  · rw [ha.memStartBrk, ← w.arena.prologueHdr]
    exact load_congr fun i hi => hm _ (by simp only; omega)
  · rw [ha.memStartBrk, ← w.arena.prologueFtr]
    exact load_congr fun i hi => hm _ (by simp only; omega)
  · rw [ha.memBrk]; exact hepi
  · rw [ha.memStartBrk]; exact w.spans
  · rw [ha.memBrk]; rfl
  · rw [List.append_nil] at hc
    have hcb := w.spans.bounds hc
    have := c.addr_add_le
    exact (w.tagged c hc).congr (by omega) fun x hx => hm x (by
      unfold Block.Meta at hx; omega)
  · rw [freeBlocks_nil, List.append_nil]
    refine w.lists.congr hf fun c hc k hk => hm _ ?_
    have hcb := w.spans.bounds (mem_freeBlocks.1 hc).1
    have := c.addr_add_le
    omega

/-- `extend_heap` calls `coalesce` when the new block is a hole at the end of the heap. -/
lemma extendHeap_grown (w : WellFormed h bs) (he : e.addr = h.memBrk) (hfree : e.alloc = false)
    (hs : extendSize words = e.size) (hmax : e.next ≤ h.memMaxAddr) :
    h.extendHeap words = some ((grown h e).coalesce e.addr) ∧ Tagged (grown h e).mem e ∧
      Window (grown h e) bs e.addr e.next [] ∧
      (∀ x, x < h.memBrk - 4 → (grown h e).mem x = h.mem x) ∧
      SameArena { h with memBrk := e.next } (grown h e) := by
  have hb := w.window_end.bounds
  have hM := w.arena.maxAddr
  have h24 := e.addr_add_le
  have hnext : e.next = h.memBrk + e.size := by rw [Block.next, he]
  simp only [maxHeap] at hM
  obtain ⟨t, hepi, hm, hf, ha⟩ :=
    grown_spec (h := h) (e := e) (by omega) (by omega) hfree
  have hlow : ∀ x, x < h.memBrk - 4 → (grown h e).mem x = h.mem x := fun x hx => hm x (by omega)
  refine ⟨?_, t, ?_, hlow, ha⟩
  · rw [extendHeap, ← extendSize, hs, memSbrk_eq (by omega) (by omega), if_pos (by omega)]
    simp only [grown, ← he, hnext]
  · rw [he]
    exact w.window_grown (by omega) hmax ha hf hlow hepi

/-- **`extend_heap` appends a free block to the layout.** -/
theorem extendHeap_spec (w : WellFormed h bs) (he : e.addr = h.memBrk) (hfree : e.alloc = false)
    (hs : extendSize words = e.size) (hmax : e.next ≤ h.memMaxAddr) :
    ∃ r xs c, h.extendHeap words = some r ∧ Extended h bs e r xs c := by
  have h24 := e.addr_add_le
  obtain ⟨hcall, t, win, hm, ha⟩ := extendHeap_grown w he hfree hs hmax
  obtain ⟨xs, c, ys, hc⟩ := coalesce_spec win t hfree w.noAdj List.isChain_nil
  -- nothing can stand behind the block that reaches the break
  have hys : ys = [] := by
    have hsp := hc.wellFormed.spans
    obtain ⟨d, -, -, hy⟩ := spans_append.1 hsp
    rw [hc.arena.memBrk, ha.memBrk] at hy
    have := hc.next_le
    cases ys with
    | nil => rfl
    | cons y ys =>
      have := hy.1
      have := hy.2.le
      have := y.addr_add_le
      simp only at *
      omega
  subst hys
  have hcn : c.next = e.next := by
    obtain ⟨d, -, -, hy⟩ := spans_append.1 hc.wellFormed.spans
    rw [hc.arena.memBrk, ha.memBrk] at hy
    exact hy
  refine ⟨_, xs, c, hcall, hc.layout, hc.ptr, hc.free, hc.addr_le, hcn, hc.wellFormed,
    ha.trans hc.arena, ?_⟩
  intro d hd hda x hx
  rw [hc.keeps d (by simpa using hd) hda x hx]
  have hdb := w.spans.bounds hd
  unfold Block.Payload at hx
  exact hm x (by omega)

/-- Coalescing at the end of the heap writes headers of the last two blocks, the last footer and
pointers of free blocks only. -/
lemma coalesce_end_mem {g : Heap} (win : Window g bs e.addr e.next []) (t : Tagged g.mem e)
    (hx : x < e.next - 8) (hoff : OffLinks (freeBlocks bs) x)
    (hlast : ∀ p ∈ bs.getLast?, x < p.addr - 4 ∨ p.addr ≤ x)
    (he : (x < e.addr ∨ e.addr + 16 ≤ x) ∨ ∃ p ∈ bs.getLast?, p.alloc = false) :
    (g.coalesce e.addr).2.mem x = g.mem x := by
  have h24 := e.addr_add_le
  have hnext : g.getAlloc (hdrp e.next) ≠ 0 := by simp [win.epilogue]
  have hoff' {c : Block} (hc : x < c.addr ∨ c.addr + 16 ≤ x) {F : List Block} (hF : F ⊆ bs) :
      OffLinks (freeBlocks F ++ c :: freeBlocks []) x := by
    intro f hf
    simp only [freeBlocks_nil, List.mem_append, List.mem_singleton, mem_freeBlocks] at hf
    rcases hf with ⟨hf, hff⟩ | rfl
    · exact hoff f (mem_freeBlocks.2 ⟨hF hf, hff⟩)
    · exact hc
  rcases win.prev_cases with ⟨hprev, hal⟩ | ⟨hprev, xs, p, rfl, hp⟩
  · have hex : x < e.addr ∨ e.addr + 16 ≤ x := he.resolve_right (by
      rintro ⟨p, hp, hpf⟩
      simp [hal p hp] at hpf)
    rw [coalesce_alone_eq t hprev hnext]
    exact insertBlock_mem win.lists (win.placed_free le_rfl le_rfl) t.getSize
      (hoff' (c := e) hex (List.Subset.refl bs))
  · obtain ⟨-, hpe⟩ := win.tagged_last
    have hpp := p.addr_add_le
    have hpx : x < p.addr ∨ p.addr + 16 ≤ x := hoff p (mem_freeBlocks.2 ⟨by simp, hp⟩)
    have hlast := hlast p (by simp)
    have hjn : (p.join e).next = e.next := by
      rw [Block.next, Block.join_addr, Block.join_size, ← Nat.add_assoc, ← Block.next, hpe,
        ← Block.next]
    have w1 := win.removeLeft hp
    obtain ⟨w2, t2, -⟩ := w1.putFooterHeader (b := p.join e) le_rfl hjn.le rfl rfl rfl
    simp only [Block.join_addr, Block.join_size, hjn] at w2 t2
    have hsub := hoff' (c := p.join e) hpx (List.subset_append_left xs [p])
    have hins := insertBlock_mem (b := p.join e) w2.lists (w2.placed_free le_rfl hjn.le)
      t2.getSize hsub
    rw [coalesce_prev_eq win t hprev hp hnext]
    refine hins.trans ?_
    rw [put_mem, store_apply_of_notMem (by omega), put_mem, store_apply_of_notMem (by omega)]
    exact removeBlock_mem (win.lists_last hp) (win.drop_last.placed_free le_rfl (by omega))
      (hoff' (c := p) hpx (List.subset_append_left xs [p]))

/-- What `extend_heap` leaves alone: below the old break, all bytes but the pointers of the free
blocks and the header of the last block. -/
lemma extendHeap_mem (w : WellFormed h bs) (he : e.addr = h.memBrk) (hfree : e.alloc = false)
    (hs : extendSize words = e.size) (hmax : e.next ≤ h.memMaxAddr) {r : ℕ × Heap}
    (hr : h.extendHeap words = some r) (hx : x < h.memBrk - 4) (hoff : OffLinks (freeBlocks bs) x)
    (hlast : ∀ p ∈ bs.getLast?, x < p.addr - 4 ∨ p.addr ≤ x) : r.2.mem x = h.mem x := by
  have h24 := e.addr_add_le
  obtain ⟨hcall, t, win, hm, -⟩ := extendHeap_grown w he hfree hs hmax
  rw [Option.some.inj (hr.symm.trans hcall),
    coalesce_end_mem win t (by omega) hoff hlast (.inl (.inl (by omega))), hm x hx]

/-- Bytes that are zero at the old break or behind it stay zero, but for the pointers of a last
block of its own. -/
lemma extendHeap_mem_zero (w : WellFormed h bs) (he : e.addr = h.memBrk) (hfree : e.alloc = false)
    (hs : extendSize words = e.size) (hlt : e.size < 2 ^ 24) (hmax : e.next ≤ h.memMaxAddr)
    {r : ℕ × Heap} (hr : h.extendHeap words = some r) (hx : h.memBrk - 1 ≤ x)
    (hx' : x < e.next - 8) (hlast : h.memBrk + 16 ≤ x ∨ ∃ p ∈ bs.getLast?, p.alloc = false)
    (h0 : h.mem x = 0) : r.2.mem x = 0 := by
  have h24 := e.addr_add_le
  have hb := w.window_end.bounds
  have hbs (p : Block) (hp : p ∈ bs) : p.addr + 24 ≤ h.memBrk :=
    le_trans p.addr_add_le (w.spans.bounds hp).2
  obtain ⟨hcall, t, win, -, -⟩ := extendHeap_grown w he hfree hs hmax
  rw [Option.some.inj (hr.symm.trans hcall), coalesce_end_mem win t hx' (fun f hf => ?_)
    (fun p hp => ?_) (hlast.imp (fun h => .inr (by omega)) id)]
  · exact grown_mem (by omega) hlt hfree (by omega) hx' h0
  · have := hbs f (mem_freeBlocks.1 hf).1
    omega
  · have := hbs p (List.mem_of_getLast? hp)
    omega

/-- The block that a heap grows by. -/
def chunk (h : Heap) (size : ℕ) (h24 : 24 ≤ size) (h8 : 8 ∣ size) : Block :=
  ⟨h.memBrk, size, false, h24, h8⟩

/-- `extend_heap` fails or appends a free block. -/
lemma extendHeap_cases (w : WellFormed h bs) {size : ℕ} (hs : extendSize words = size)
    (h24 : 24 ≤ size) (h8 : 8 ∣ size) (hlt : size < 2 ^ 32) :
    h.extendHeap words = none ∨
      ∃ r xs c, h.extendHeap words = some r ∧ Extended h bs (chunk h size h24 h8) r xs c := by
  rcases Nat.lt_or_ge h.memMaxAddr (chunk h size h24 h8).next with hmax | hmax
  · exact .inl (extendHeap_of_lt w rfl hs hlt hmax)
  · exact .inr (extendHeap_spec w rfl rfl hs hmax)

/-- A multiple of eight bytes is an even number of words. -/
lemma extendSize_div {size : ℕ} (h8 : 8 ∣ size) (hlt : size < 2 ^ 64) :
    extendSize (size / wsize) = size := by
  rw [extendSize, if_neg (by simp only [wsize]; omega)]
  simp only [wsize]
  omega

/-- Behind a free block the heap grows by making that block larger. -/
lemma Extended.of_free {r : ℕ × Heap} {c : Block} (he : Extended h (bs ++ [b]) e r xs c)
    (hn : NoAdj (bs ++ [b])) (hb : b.alloc = false) (hfree : e.alloc = false) :
    xs = bs ∧ c = b.join e := by
  have hl := he.layout
  have hn' : NoAdj (bs ++ [b.join e]) := List.isChain_append.2
    ⟨(List.isChain_append.1 hn).1, List.isChain_singleton _,
      fun p hp q hq => .inl (hn.last_alloc hb p hp)⟩
  rw [List.append_assoc, List.singleton_append, joinFree_join hb hfree,
    joinFree_of_noAdj hn'] at hl
  obtain ⟨h1, h2⟩ := List.append_inj' hl rfl
  exact ⟨h1.symm, (List.singleton_inj.1 h2).symm⟩

/-- Behind an allocated block the heap grows by a free block of its own. -/
lemma Extended.of_alloc {r : ℕ × Heap} {c : Block} (he : Extended h (bs ++ [b]) e r xs c)
    (hn : NoAdj (bs ++ [b])) (hb : b.alloc = true) : xs = bs ++ [b] ∧ c = e := by
  have hl := he.layout
  have hn' : NoAdj (bs ++ [b] ++ [e]) := List.isChain_append.2
    ⟨hn, List.isChain_singleton _, fun p hp q hq => .inl (by simp at hp; simp [← hp, hb])⟩
  rw [joinFree_of_noAdj hn'] at hl
  obtain ⟨h1, h2⟩ := List.append_inj' hl rfl
  exact ⟨h1.symm, (List.singleton_inj.1 h2).symm⟩

/-! ## `mm_init` -/

/-- The state that `mem_init` leaves: the heap is empty. -/
structure Fresh (h : Heap) : Prop where
  aligned : 8 ∣ h.memStartBrk
  limit : h.memStartBrk + maxHeap ≤ 2 ^ 63
  maxAddr : h.memMaxAddr = h.memStartBrk + maxHeap
  brk : h.memBrk = h.memStartBrk

/-- An empty heap at an arbitrary address. -/
def startHeap : Heap where
  mem := fun _ => 0
  heapListp := 0
  freeListp := fun _ => 0
  memStartBrk := 4096
  memBrk := 4096
  memMaxAddr := 4096 + maxHeap

lemma fresh_startHeap : Fresh startHeap := ⟨by decide, by decide, rfl, rfl⟩

/-- The heap from which `mm_init` calls `extend_heap`. -/
def bare (h : Heap) : Heap :=
  { h with memBrk := h.memStartBrk + 16 }.initWords h.memStartBrk

lemma bare_memStartBrk (h : Heap) : (bare h).memStartBrk = h.memStartBrk := by
  simp only [bare, initWords, Heap.put]

lemma bare_memBrk (h : Heap) : (bare h).memBrk = h.memStartBrk + 16 := by
  simp only [bare, initWords, Heap.put]

lemma bare_memMaxAddr (h : Heap) : (bare h).memMaxAddr = h.memMaxAddr := by
  simp only [bare, initWords, Heap.put]

/-- A heap without blocks is well formed. -/
lemma wellFormed_bare (hf : Fresh h) : WellFormed (bare h) [] := by
  have hmax := hf.maxAddr
  have h1 : load (bare h).mem (h.memStartBrk + 4) 4 = pack dsize 1 := by
    simp only [bare, initWords, wsize, Heap.put]
    rw [load_store_of_disjoint (by omega), load_store_of_disjoint (by omega),
      load_store_same (by decide)]
  have h2 : load (bare h).mem (h.memStartBrk + 8) 4 = pack dsize 1 := by
    simp only [bare, initWords, wsize, Heap.put]
    rw [load_store_of_disjoint (by omega), load_store_same (by decide)]
  have h3 : load (bare h).mem (h.memStartBrk + 16 - 4) 4 = pack 0 1 := by
    simp only [bare, initWords, wsize, Heap.put]
    exact load_store_same (by decide)
  refine ⟨⟨hf.aligned, hf.limit, hf.maxAddr, ?_, rfl, h1, h2, h3⟩, rfl, ?_, ?_,
    List.isChain_nil⟩
  · change h.memStartBrk + 16 ≤ h.memMaxAddr
    simp only [maxHeap] at hmax
    omega
  · simp
  · refine ⟨fun _ => [], fun i _ => rfl, fun i _ => trivial, fun i _ => .nil, ?_⟩
    simp

/-- The first free block. -/
def firstBlock (start : ℕ) : Block := ⟨start + 16, 4096, false, by decide, by decide⟩

lemma mmInit_of_memSbrk {p : ℕ} (hs : h.memSbrk (4 * wsize) = some (p, h')) :
    h.mmInit = ((h'.initWords p).extendHeap (chunksize / wsize)).map (·.2) := by
  unfold mmInit
  rw [hs]

/-- **`mm_init` succeeds in an empty heap and leaves one free block.** -/
theorem mmInit_spec (hf : Fresh h) :
    ∃ h', h.mmInit = some h' ∧ WellFormed h' [firstBlock h.memStartBrk] ∧
      h'.memStartBrk = h.memStartBrk := by
  have hmax := hf.maxAddr
  have hbrk := hf.brk
  simp only [maxHeap] at hmax
  have w := wellFormed_bare hf
  obtain ⟨r, xs, c, hr, he⟩ := extendHeap_spec w
    (show (firstBlock h.memStartBrk).addr = (bare h).memBrk from (bare_memBrk h).symm) rfl
    (show extendSize (chunksize / wsize) = 4096 by decide) (by
      rw [bare_memMaxAddr]
      change h.memStartBrk + 16 + 4096 ≤ h.memMaxAddr
      omega)
  refine ⟨r.2, ?_, ?_, by rw [he.brk.memStartBrk]; exact bare_memStartBrk h⟩
  · have hs : h.memSbrk (4 * wsize) =
        some (h.memStartBrk, { h with memBrk := h.memStartBrk + 16 }) := by
      have hn : ((h.memStartBrk : ℤ) + 4 * (4 : ℕ)).toNat = h.memStartBrk + 16 := by omega
      rw [memSbrk, wsize, if_neg (by omega), hbrk, hn]
    rw [mmInit_of_memSbrk hs, ← bare, hr, Option.map_some]
  · have := he.wellFormed
    rw [← he.layout] at this
    exact this

end Malloc
