import SE101.Malloc.Runs

set_option relaxedAutoImplicit false
set_option autoImplicit false

/-!
# What the package promises its clients

Payloads are aligned, inside the heap and apart; the heap is well formed and passes its own
check; `mm_free` frees; `mm_realloc` keeps the bytes of a block or leaves everything as it is.
The first and the third of these hold only as long as no size-specialised branch is taken in a
heap of another shape, and no byte is taken for a marker.

## Main definitions

* `Malloc.PayloadsApart` — where the live payloads have to lie.
* `Malloc.PointsTo`, `Malloc.FreesBlock` — the block of a pointer, and what `mm_free` has to do.

## Main results

* `Malloc.payloadsApart_of_safe` — the payloads along runs of safe calls.
* `Malloc.wellFormed_of_plain` — the heap along runs of plain calls.
* `Malloc.freesBlock_iff` — when `mm_free` frees.
* `Malloc.mmRealloc_resizes` — what `mm_realloc` returns.
-/

namespace Malloc

open LittleEndian Heap

variable {w w' : World} {bs pre post : List Block} {b c : Block} {h : Heap} {n p m : ℕ}

/-! ## Payloads -/

/-- Calls for ordinary sizes lead from `mm_init` to worlds of plain runs. -/
lemma reachable_mallocs {ns : List ℕ} (hns : ∀ n ∈ ns, 0 < n ∧ n ≤ maxHeap ∧ Ordinary n)
    (hw : startWorld.calls (ns.map .malloc) = some w) : ReachableIf Plain w := by
  refine ReachableIf.calls (fun c hc w => ?_) (.of_init initial_startWorld) hw
  obtain ⟨n, hn, rfl⟩ := List.mem_map.1 hc
  exact hns n hn

set_option maxRecDepth 20000 in
/-- A heap that is filled by a small and a big block. -/
lemma exists_filled : ∃ w bs, startWorld.calls ([8, 4064].map .malloc) = some w ∧
    ReachableIf Plain w ∧ Held w bs := by
  have hrun : (startWorld.calls ([8, 4064].map .malloc)).isSome := by decide +kernel
  obtain ⟨w, hw⟩ := Option.isSome_iff_exists.1 hrun
  have hreach := reachable_mallocs (fun n hn => by
    simp only [List.mem_cons, List.not_mem_nil, or_false] at hn
    rcases hn with rfl | rfl
    · exact ⟨by decide, by decide, by unfold Ordinary; decide⟩
    · exact ⟨by decide, by decide, by unfold Ordinary; decide⟩) hw
  obtain ⟨bs, hheld⟩ := hreach.safe.held
  exact ⟨w, bs, hw, hreach, hheld⟩

/-- The live payloads are aligned, inside the heap and pairwise disjoint. -/
def PayloadsApart (w : World) : Prop :=
  (∀ r ∈ w.live, 8 ∣ r.1 ∧ w.heap.memStartBrk ≤ r.1 ∧ r.1 + r.2 ≤ w.heap.memBrk) ∧
    w.live.Pairwise fun r r' => r.1 + r.2 ≤ r'.1 ∨ r'.1 + r'.2 ≤ r.1

/-- The invariant puts the payloads apart. -/
lemma Held.payloadsApart (hw : Held w bs) : PayloadsApart w := by
  have hal := hw.wellFormed.arena.aligned
  constructor
  · intro r hr
    obtain ⟨b, hb, -, hbr, hsize⟩ := hw.block r hr
    have := hw.wellFormed.spans.bounds hb
    have h8 := hw.wellFormed.spans.aligned (by omega) hb
    rw [← hbr]
    unfold Block.next at this
    exact ⟨h8, by omega, by omega⟩
  · refine hw.distinct.imp_of_mem fun {r r'} hr hr' hne => ?_
    obtain ⟨b, hb, -, hbr, hsize⟩ := hw.block r hr
    obtain ⟨c, hc, -, hcr, hsize'⟩ := hw.block r' hr'
    have hbc : b ≠ c := by rintro rfl; exact hne (hbr.symm.trans hcr)
    have := hw.wellFormed.apart hb hc hbc
    unfold Block.next at this
    omega

/-- **Payloads do not overlap** along runs whose calls take no size-specialised branch in a heap
for which it was not written. -/
theorem payloadsApart_of_safe (h : ReachableIf Safe w) : PayloadsApart w := by
  obtain ⟨bs, hw⟩ := h.held
  exact hw.payloadsApart

set_option maxRecDepth 20000 in
/-- Two payloads of very different sizes. -/
theorem payloadsApart_of_safe_mallocs :
    ∃ w, w.live = [(4136, 4064), (4112, 8)] ∧ PayloadsApart w := by
  have hrun : (startWorld.calls ([8, 4064].map .malloc)).map (·.live) =
      some [(4136, 4064), (4112, 8)] := by decide +kernel
  obtain ⟨w, bs, hw, hreach, -⟩ := exists_filled
  rw [hw] at hrun
  exact ⟨w, Option.some_inj.1 hrun, payloadsApart_of_safe hreach.safe⟩

/-- Requests with the sizes of the driver. -/
def IntSized (_ : World) : Call → Prop
  | .malloc n => 0 < n ∧ n < 2 ^ 31
  | .realloc _ _ n => 0 < n ∧ n < 2 ^ 31
  | .free _ _ => True
  | .write _ _ => True

set_option maxRecDepth 20000 in
/-- A call for 4095 bytes hands out the first block without allocating it, and the next call
hands it out again. -/
theorem not_payloadsApart : ∃ w, ReachableIf IntSized w ∧ ¬ PayloadsApart w := by
  have hrun : (startWorld.calls [.malloc 4095, .malloc 8]).map (·.live) =
      some [(4112, 8), (4112, 4095)] := by decide +kernel
  obtain ⟨w, hw, hlive⟩ := Option.map_eq_some_iff.1 hrun
  refine ⟨w, ReachableIf.calls (fun c hc w => ?_) (.of_init initial_startWorld) hw, fun h => ?_⟩
  · simp only [List.mem_cons, List.not_mem_nil, or_false] at hc
    rcases hc with rfl | rfl
    · exact ⟨by decide, by decide⟩
    · exact ⟨by decide, by decide⟩
  · have := h.2
    rw [hlive] at this
    exact absurd (List.rel_of_pairwise_cons this (List.mem_singleton_self _)) (by decide)

/-! ## Well-formedness -/

/-- **The heap stays well formed and passes `mm_check`** along runs of calls for ordinary sizes
in which no byte is taken for a marker, and every such call ends. -/
theorem wellFormed_of_plain (h : ReachableIf Plain w) :
    (∃ bs, WellFormed w.heap bs) ∧ w.heap.mmCheck maxHeap = some 0 ∧
      ∀ c, w.Allowed c → Plain w c → ∃ w', w.call c = some w' := by
  obtain ⟨bs, hw⟩ := h.safe.held
  exact ⟨⟨bs, hw.wellFormed⟩, mmCheck_eq_zero hw.wellFormed, fun c ha hc => hw.returns ha hc⟩

set_option maxRecDepth 20000 in
/-- A heap with two allocated blocks passes `mm_check`. -/
theorem wellFormed_of_plain_mallocs :
    ∃ w : World, w.live = [(4144, 24), (4112, 24)] ∧ w.heap.mmCheck maxHeap = some 0 := by
  have hrun : (startWorld.calls ([24, 24].map .malloc)).map (·.live) =
      some [(4144, 24), (4112, 24)] := by decide +kernel
  obtain ⟨w, hw, hlive⟩ := Option.map_eq_some_iff.1 hrun
  refine ⟨w, hlive, (wellFormed_of_plain (reachable_mallocs (fun n hn => ?_) hw)).2.1⟩
  obtain rfl : n = 24 := by simpa using hn
  exact ⟨by decide, by decide, by unfold Ordinary; decide⟩

/-! ## Freeing -/

/-- The pointer `p` has the block `b`: it is the address of the block, or it points into the block
and has a marker behind it, as a second call for 4095 bytes hands it out. -/
def PointsTo (h : Heap) (p : ℕ) (b : Block) : Prop :=
  p = b.addr ∨ (8 ∣ p ∧ b.addr ≤ p ∧ p < b.next ∧ ¬ Unmarked h p)

/-- What `mm_free` has to do for the pointer `p` with the block `b`, whether or not `b` is marked
as allocated: in the layout with free neighbours joined, the block has become part of exactly one
free block, and the payloads of the other allocated blocks are unchanged. -/
structure FreesBlock (h : Heap) (pre : List Block) (b : Block) (post : List Block) (p : ℕ) :
    Prop where
  wellFormed : WellFormed (h.mmFree p) (joinFree (pre ++ b.freed :: post))
  inside : ∃! c, c ∈ joinFree (pre ++ b.freed :: post) ∧ c.alloc = false ∧ c.addr ≤ b.addr ∧
    b.next ≤ c.next
  keeps : KeepsPayloads (pre ++ post) h (h.mmFree p)

/-- Two blocks of a layout that share a byte are equal. -/
lemma WellFormed.eq_of_overlap (w : WellFormed h bs) (hb : b ∈ bs) (hc : c ∈ bs)
    (h1 : b.addr < c.next) (h2 : c.addr < b.next) : b = c := by
  by_contra hne
  have := w.apart hb hc hne
  omega

/-- The pointers to a block are aligned. -/
lemma PointsTo.aligned (hp : PointsTo h p b) (w : WellFormed h bs) (hb : b ∈ bs) : 8 ∣ p := by
  rcases hp with rfl | ⟨h8, -⟩
  · have := w.arena.aligned
    exact w.spans.aligned (by omega) hb
  · exact h8

/-- A block is not freed when a byte is taken for a marker: the layout stays as it is. -/
lemma not_freesBlock_of_marked (w : WellFormed h (pre ++ b :: post)) (ha : b.alloc = true)
    (h8 : 8 ∣ p) (hun : ¬ Unmarked h p) : ¬ FreesBlock h pre b post p := by
  intro hf
  obtain ⟨x, hx⟩ := exists_clears_iff.2 hun
  obtain ⟨-, w'⟩ := mmFree_of_clears w h8 hx
  obtain ⟨c, ⟨hc, hcf, h1, h2⟩, -⟩ := hf.inside
  rw [hf.wellFormed.unique w'] at hc
  have := b.addr_add_le
  have := c.addr_add_le
  obtain rfl := w.eq_of_overlap (by simp : b ∈ pre ++ b :: post) hc (by omega) (by omega)
  rw [ha] at hcf
  cases hcf

/-- An allocated block is freed when no byte is taken for a marker. -/
lemma freesBlock_of_unmarked (w : WellFormed h (pre ++ b :: post)) (ha : b.alloc = true)
    (hun : Unmarked h b.addr) : FreesBlock h pre b post b.addr := by
  obtain ⟨xs, c, ys, hf⟩ := mmFree_spec w ha hun
  have hb := b.addr_add_le
  refine ⟨hf.layout ▸ hf.wellFormed, ⟨c, ?_, ?_⟩, hf.keeps⟩
  · rw [hf.layout]
    exact ⟨by simp, hf.free, hf.addr_le, hf.next_le⟩
  · rintro d ⟨hd, -, h1, h2⟩
    have := hf.addr_le
    have := hf.next_le
    rw [hf.layout] at hd
    exact hf.wellFormed.eq_of_overlap hd (by simp) (by omega) (by omega)

/-- The layout after freeing a block that is free already is the layout before. -/
lemma WellFormed.joinFree_freed (w : WellFormed h (pre ++ b :: post)) (hb : b.alloc = false) :
    joinFree (pre ++ b.freed :: post) = pre ++ b :: post := by
  have hf : b.freed = b := by
    ext <;> simp [hb]
  rw [hf, joinFree_of_noAdj w.noAdj]

/-- A block that is free already stays in its free block when a byte that is no byte of an
allocated payload is cleared, and only then. -/
lemma freesBlock_iff_of_free (w : WellFormed h (pre ++ b :: post)) (hb : b.alloc = false)
    (h8 : 8 ∣ p) {x : ℕ} (hx : Clears h p x) : FreesBlock h pre b post p ↔
      ∀ c ∈ pre ++ post, c.alloc = true → ¬ c.Payload x := by
  obtain ⟨hfree, w'⟩ := mmFree_of_clears w h8 hx
  have hj := w.joinFree_freed hb
  constructor
  · intro hf c hc hca hpx
    have := hf.keeps c hc hca x hpx
    rw [hfree, putc_mem, Function.update_self, hx.1] at this
    exact absurd this (by decide)
  · intro hno
    have h24 := b.addr_add_le
    refine ⟨hj ▸ w', ⟨b, ⟨hj ▸ by simp, hb, le_rfl, le_rfl⟩, ?_⟩, fun c hc hca y hy => ?_⟩
    · rintro d ⟨hd, -, h1, h2⟩
      rw [hj] at hd
      exact w.eq_of_overlap hd (by simp) (by omega) (by omega)
    · rw [hfree, putc_mem, Function.update_of_ne]
      rintro rfl
      exact hno c hc hca hy

/-- A byte behind the break belongs to no block. -/
lemma WellFormed.putc_of_le (w : WellFormed h bs) {x : ℕ} (hx : h.memBrk ≤ x) (v : BitVec 8) :
    WellFormed (h.putc x v) bs := by
  have hb := w.window_end.bounds
  have hkeep {y : ℕ} (hy : y < h.memBrk) : (h.putc x v).mem y = h.mem y :=
    Function.update_of_ne (by omega) _ _
  refine w.congr (sameArena_putc x v) rfl (fun y hy => hkeep (by omega))
    (fun b hbs y hy => hkeep ?_) fun b hbs _ k hk => hkeep ?_
  · have := w.spans.bounds hbs
    have := b.addr_add_le
    unfold Block.Meta at hy
    omega
  · have := w.spans.bounds hbs
    have := b.addr_add_le
    omega

/-- **`mm_realloc` resizes a block or leaves everything as it is.** For an ordinary size and an
inner `mm_free` that takes no byte for a marker, a block that is returned is large enough and
has the old bytes, and the other payloads are unchanged; if `NULL` is returned, then the block
and all payloads are unchanged. -/
theorem mmRealloc_resizes (w : WellFormed h bs) (hb : b ∈ bs) (ha : b.alloc = true)
    (hm : m + 8 ≤ b.size) (hn0 : 0 < n) (hn : n ≤ maxHeap) (ho : Ordinary n)
    (hun : ∀ h₂, h.reallocFrees b.addr n = some h₂ → Unmarked h₂ b.addr) :
    ∃ q h', h.mmRealloc b.addr n = some (q, h') ∧
      (q ≠ 0 → h'.getAlloc (hdrp q) = 1 ∧ n + 8 ≤ h'.getSize (hdrp q) ∧
        (∀ k < min m n, h'.mem (q + k) = h.mem (b.addr + k)) ∧
        ∀ c ∈ bs, c.alloc = true → c ≠ b → ∀ x, c.Payload x → h'.mem x = h.mem x) ∧
      (q = 0 → h'.getAlloc (hdrp b.addr) = 1 ∧ h'.getSize (hdrp b.addr) = b.size ∧
        ∀ c ∈ bs, c.alloc = true → ∀ x, c.Payload x → h'.mem x = h.mem x) := by
  have hn31 : n < 2 ^ 31 := lt_of_le_of_lt hn (by decide)
  obtain ⟨⟨q, h'⟩, hr⟩ := mmRealloc_returns w hb ha hn0 hn31 ho
  refine ⟨q, h', hr, ?_⟩
  rcases mmRealloc_spec w hb ha hn0 hn31 (fun h₁ _ => ho.safe h₁) hr with
    ⟨h0, bs', k⟩ | ⟨a, bs', hres, hcopy⟩
  · obtain rfl : q = 0 := h0
    have t := k.wellFormed.tagged b ((k.mem_iff b ha).2 hb)
    refine ⟨fun h => absurd rfl h, fun _ => ⟨?_, t.getSize, k.keeps⟩⟩
    rw [t.getAlloc, ha, Bool.toNat_true]
  · obtain rfl : q = a.addr := hres.ptr
    have t := hres.wellFormed.tagged a hres.mem
    have hpos := hres.wellFormed.placed.pos a hres.mem
    refine ⟨fun _ => ⟨?_, ?_, fun k hk => ?_, (hcopy hun).keeps⟩, fun h => absurd h hpos.ne'⟩
    · rw [t.getAlloc, hres.alloc, Bool.toNat_true]
    · rw [t.getSize]
      exact hres.size_le
    · obtain ⟨hkm, hkn⟩ := lt_min_iff.1 hk
      exact (hcopy hun).data k hkn (by omega)

set_option maxRecDepth 20000 in
/-- A block that has to be moved, because an allocated block stands behind it. -/
theorem mmRealloc_resizes_moved : ∃ (h : Heap) (q : ℕ) (h' : Heap),
    h.mmRealloc 4112 100 = some (q, h') ∧ q ≠ 0 ∧
    100 + 8 ≤ h'.getSize (hdrp q) ∧ ∀ k < 24, h'.mem (q + k) = h.mem (4112 + k) := by
  have hrun : (startWorld.calls [.malloc 24, .malloc 24]).map (fun w => (w.live,
      (w.heap.reallocFrees 4112 100).all fun h => h.mem 8207 ≠ marker && h.mem 12303 ≠ marker,
      (w.heap.mmRealloc 4112 100).map (·.1))) =
      some ([(4144, 24), (4112, 24)], true, some 4176) := by decide +kernel
  obtain ⟨w, hw, heq⟩ := Option.map_eq_some_iff.1 hrun
  obtain ⟨hlive, heq⟩ := Prod.mk.inj heq
  obtain ⟨hfrees, hq⟩ := Prod.mk.inj heq
  have hord : Ordinary 24 ∧ Ordinary 100 := by unfold Ordinary; decide
  have hns : ∀ n ∈ [24, 24], 0 < n ∧ n ≤ maxHeap ∧ Ordinary n := by
    intro n hn
    obtain rfl : n = 24 := by simpa using hn
    exact ⟨by decide, by decide, hord.1⟩
  obtain ⟨bs, hw⟩ := (reachable_mallocs hns hw).safe.held
  obtain ⟨b, hb, ha, hbp, hbm⟩ := hw.block (4112, 24) (by rw [hlive]; simp)
  dsimp only at hbp hbm
  obtain ⟨q, h', hr, hne, -⟩ := mmRealloc_resizes hw.wellFormed hb ha hbm (by decide) (by decide)
    hord.2 fun h₂ h => by
      rw [hbp] at h ⊢
      rw [h, Option.all_some, Bool.and_eq_true, decide_eq_true_iff, decide_eq_true_iff] at hfrees
      exact hfrees
  rw [hbp] at hr hne
  rw [hr] at hq
  obtain rfl : q = 4176 := Option.some_inj.1 hq
  obtain ⟨-, h1, h2, -⟩ := hne (by decide)
  exact ⟨w.heap, 4176, h', hr, by decide, h1, h2⟩

end Malloc
