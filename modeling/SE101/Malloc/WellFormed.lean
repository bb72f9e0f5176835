import SE101.Malloc.FreeLists

set_option relaxedAutoImplicit false
set_option autoImplicit false

/-!
# Well-formed heaps

A heap realises a block layout when its blocks tile the bytes between prologue and epilogue, the
header and footer of each hold its tag, and the free lists hold exactly its free blocks. In the
middle of an operation a part of the heap is a hole, in which nothing is known: blocks are taken
out of the layout at its edges, tags are written inside of it, and blocks are put back.

## Main definitions

* `Malloc.Tagged` — header and footer of a block are in memory.
* `Malloc.Arena` — the simulated break, the prologue and the epilogue.
* `Malloc.WellFormed` — the heap realises a layout without free neighbours.
* `Malloc.Hole`, `Malloc.Window` — the heap realises the blocks on both sides of a hole, without
  and with the free lists.

## Main results

* `Malloc.WellFormed.window`, `Malloc.Window.wellFormed` — opening and closing a hole.
* `Malloc.Window.dropRight`, `dropLeft`, `removeRight`, `removeLeft` — taking the block next to a
  hole out.
* `Malloc.Window.addAlloc`, `Malloc.Window.addFree` — putting a block at the left end of a hole.
* `Malloc.Window.hole_agree` — writing inside a hole.
-/

namespace Malloc

open LittleEndian Heap

/-! ## Tags -/

/-- The word in the header and in the footer of a block. -/
def Block.tag (b : Block) : ℕ := pack b.size b.alloc.toNat

/-- Header and footer of `b` are in memory. -/
structure Tagged (m : Memory) (b : Block) : Prop where
  /-- The header. -/
  header : load m (b.addr - 4) 4 = b.tag
  /-- The footer. -/
  footer : load m (b.next - 8) 4 = b.tag

variable {h h' : Heap} {m m' : Memory} {b : Block} {bs pre post : List Block} {lo hi x : ℕ}

/-- Packing a multiple of eight with a bit is addition. -/
lemma pack_eq {size : ℕ} (hs : 8 ∣ size) (a : Bool) : pack size a.toNat = size + a.toNat := by
  obtain ⟨k, rfl⟩ := hs
  have ha : a.toNat < 2 ^ 3 := lt_of_le_of_lt (Bool.toNat_le a) (by decide)
  exact (Nat.two_pow_add_eq_or_of_lt ha k).symm

lemma Block.tag_eq (b : Block) : b.tag = b.size + b.alloc.toNat := pack_eq b.dvd b.alloc

/-- The size in a tag. -/
@[simp] lemma Block.tag_size (b : Block) : b.tag / 8 * 8 = b.size := by
  have := b.dvd
  have := Bool.toNat_le b.alloc
  rw [b.tag_eq]
  omega

/-- The allocated bit in a tag. -/
@[simp] lemma Block.tag_alloc (b : Block) : b.tag % 2 = b.alloc.toNat := by
  have := b.dvd
  have := Bool.toNat_le b.alloc
  rw [b.tag_eq]
  omega

namespace Tagged

lemma getSize (ht : Tagged h.mem b) : h.getSize (hdrp b.addr) = b.size := by
  rw [Heap.getSize, Heap.get, hdrp, wsize, ht.header, b.tag_size]

lemma getAlloc (ht : Tagged h.mem b) : h.getAlloc (hdrp b.addr) = b.alloc.toNat := by
  rw [Heap.getAlloc, Heap.get, hdrp, wsize, ht.header, b.tag_alloc]

lemma getSize_footer (ht : Tagged h.mem b) : h.getSize (b.next - 8) = b.size := by
  rw [Heap.getSize, Heap.get, ht.footer, b.tag_size]

lemma getAlloc_footer (ht : Tagged h.mem b) : h.getAlloc (b.next - 8) = b.alloc.toNat := by
  rw [Heap.getAlloc, Heap.get, ht.footer, b.tag_alloc]

lemma ftrp (ht : Tagged h.mem b) : h.ftrp b.addr = b.next - 8 := by
  rw [Heap.ftrp, ht.getSize, dsize, Block.next]

lemma nextBlkp (ht : Tagged h.mem b) : h.nextBlkp b.addr = b.next := by
  rw [Heap.nextBlkp, ← hdrp, ht.getSize, Block.next]

/-- The block in front of the address behind `b` is `b`. -/
lemma prevBlkp (ht : Tagged h.mem b) : h.prevBlkp b.next = b.addr := by
  rw [Heap.prevBlkp, dsize, ht.getSize_footer, Block.next]
  omega

/-- Tags depend only on the bytes of header and footer. -/
lemma congr (ht : Tagged m b) (ha : 4 ≤ b.addr) (hm : ∀ x, b.Meta x → m' x = m x) :
    Tagged m' b := by
  have hb := b.addr_add_le
  refine ⟨?_, ?_⟩
  · rw [← ht.header]
    exact load_congr fun i hi => hm _ (.inl ⟨by omega, by omega⟩)
  · rw [← ht.footer]
    exact load_congr fun i hi => hm _ (.inr ⟨by omega, by omega⟩)

end Tagged

/-! ## The arena -/

/-- The simulated heap is an aligned region of `MAX_HEAP` bytes, of which the part in use starts
with the prologue and ends with the epilogue. -/
structure Arena (h : Heap) : Prop where
  aligned : 8 ∣ h.memStartBrk
  limit : h.memStartBrk + maxHeap ≤ 2 ^ 63
  maxAddr : h.memMaxAddr = h.memStartBrk + maxHeap
  brkLe : h.memBrk ≤ h.memMaxAddr
  listp : h.heapListp = h.memStartBrk + 8
  prologueHdr : load h.mem (h.memStartBrk + 4) 4 = pack dsize 1
  prologueFtr : load h.mem (h.memStartBrk + 8) 4 = pack dsize 1
  epilogue : load h.mem (h.memBrk - 4) 4 = pack 0 1

/-- An arena depends only on the prologue and the epilogue. -/
lemma Arena.congr (ha : Arena h) (hs : SameArena h h') (hbrk : h.memStartBrk + 16 ≤ h.memBrk)
    (hm : ∀ x, (h.memStartBrk + 4 ≤ x ∧ x < h.memStartBrk + 12) ∨
      (h.memBrk - 4 ≤ x ∧ x < h.memBrk) → h'.mem x = h.mem x) : Arena h' where
  aligned := hs.memStartBrk ▸ ha.aligned
  limit := hs.memStartBrk ▸ ha.limit
  maxAddr := by rw [hs.memMaxAddr, hs.memStartBrk, ha.maxAddr]
  brkLe := by rw [hs.memBrk, hs.memMaxAddr]; exact ha.brkLe
  listp := by rw [hs.heapListp, hs.memStartBrk, ha.listp]
  prologueHdr := by
    rw [hs.memStartBrk, ← ha.prologueHdr]
    exact load_congr fun i hi => hm _ (.inl ⟨by omega, by omega⟩)
  prologueFtr := by
    rw [hs.memStartBrk, ← ha.prologueFtr]
    exact load_congr fun i hi => hm _ (.inl ⟨by omega, by omega⟩)
  epilogue := by
    rw [hs.memBrk, ← ha.epilogue]
    exact load_congr fun i hi => hm _ (.inr ⟨by omega, by omega⟩)

/-! ## Well-formed heaps and holes -/

/-- The heap realises the layout `bs`, and no two free blocks are neighbours. -/
structure WellFormed (h : Heap) (bs : List Block) : Prop where
  arena : Arena h
  /-- The blocks tile the bytes from the prologue to the epilogue. -/
  spans : Spans (h.memStartBrk + 16) bs h.memBrk
  tagged : ∀ b ∈ bs, Tagged h.mem b
  lists : FreeLists h (freeBlocks bs)
  noAdj : NoAdj bs

/-- The heap has the blocks `pre` up to `lo` and the blocks `post` from `hi` on. Between them is
a hole, the bytes from `lo - 4` to `hi - 4`. -/
structure Hole (h : Heap) (pre : List Block) (lo hi : ℕ) (post : List Block) : Prop where
  arena : Arena h
  left : Spans (h.memStartBrk + 16) pre lo
  le : lo ≤ hi
  right : Spans hi post h.memBrk
  tagged : ∀ b ∈ pre ++ post, Tagged h.mem b

/-- The heap has the blocks on both sides of a hole, and its lists hold the free ones. -/
structure Window (h : Heap) (pre : List Block) (lo hi : ℕ) (post : List Block) : Prop
    extends Hole h pre lo hi post where
  lists : FreeLists h (freeBlocks pre ++ freeBlocks post)

/-- The bytes of the hole and of the allocated payloads, which are no pointers of the lists. -/
def Inert (pre : List Block) (lo hi : ℕ) (post : List Block) (x : ℕ) : Prop :=
  (lo - 4 ≤ x ∧ x < hi - 4) ∨ ∃ b ∈ pre ++ post, b.alloc = true ∧ b.Payload x

/-- A hole of size zero in front of a block. -/
lemma WellFormed.window (w : WellFormed h (pre ++ b :: post)) :
    Window h pre b.addr b.addr (b :: post) := by
  obtain ⟨d, hl, rfl, hr⟩ := spans_append.1 w.spans
  exact ⟨⟨w.arena, hl, le_rfl, ⟨rfl, hr⟩, w.tagged⟩, freeBlocks_append ▸ w.lists⟩

/-- A hole of size zero at the end of the heap. -/
lemma WellFormed.window_end (w : WellFormed h bs) : Window h bs h.memBrk h.memBrk [] :=
  ⟨⟨w.arena, w.spans, le_rfl, rfl, by simpa using w.tagged⟩, by simpa using w.lists⟩

/-- A closed hole. -/
lemma Window.wellFormed (w : Window h pre lo lo post) (hn : NoAdj (pre ++ post)) :
    WellFormed h (pre ++ post) :=
  ⟨w.arena, spans_append.2 ⟨lo, w.left, w.right⟩, w.tagged, freeBlocks_append ▸ w.lists, hn⟩

namespace Hole

/-! ### Bounds -/

/-- The blocks lie inside the heap. -/
lemma bounds (w : Hole h pre lo hi post) :
    h.memStartBrk + 16 ≤ lo ∧ lo ≤ hi ∧ hi ≤ h.memBrk ∧
      h.memBrk ≤ h.memStartBrk + 20971520 ∧ h.memStartBrk + 20971520 ≤ 2 ^ 63 := by
  have h1 := w.arena.limit
  have h2 := w.arena.maxAddr
  have h3 := w.arena.brkLe
  simp only [maxHeap] at h1 h2
  exact ⟨w.left.le, w.le, w.right.le, by omega, by omega⟩

/-- The blocks in front of the hole and behind it. -/
lemma mem_bounds (w : Hole h pre lo hi post) (hb : b ∈ pre ++ post) :
    h.memStartBrk + 16 ≤ b.addr ∧ b.next ≤ h.memBrk ∧ (b.next ≤ lo ∨ hi ≤ b.addr) := by
  have := w.bounds
  rcases List.mem_append.1 hb with hb | hb
  · have := w.left.bounds hb
    omega
  · have := w.right.bounds hb
    omega

/-- The blocks on both sides and one more in the hole can be nodes. -/
lemma placed_insert (w : Hole h pre lo hi post) (hlo : lo ≤ b.addr) (hhi : b.next ≤ hi) :
    Placed (pre ++ b :: post) := by
  have hw := w.bounds
  have hall : ∀ c ∈ pre ++ b :: post, h.memStartBrk + 16 ≤ c.addr ∧ c.next ≤ h.memBrk := by
    intro c hc
    simp only [List.mem_append, List.mem_cons] at hc
    rcases hc with hc | rfl | hc
    · have := w.left.bounds hc
      omega
    · omega
    · have := w.right.bounds hc
      omega
  refine ⟨?_, fun c hc => ?_, fun c hc => ?_, fun c hc => ?_⟩
  · refine List.pairwise_append.2 ⟨w.left.sorted, .cons (fun c hc => ?_) w.right.sorted,
      fun c hc d hd => ?_⟩
    · exact hhi.trans (w.right.bounds hc).1
    · have h1 := (w.left.bounds hc).2
      rcases List.mem_cons.1 hd with rfl | hd
      · exact h1.trans hlo
      · exact h1.trans (w.le.trans (w.right.bounds hd).1)
  all_goals
    have := hall c hc
    simp only [Block.next] at *
    omega

/-- The free blocks on both sides and one more in the hole can be nodes. -/
lemma placed_free (w : Hole h pre lo hi post) (hlo : lo ≤ b.addr) (hhi : b.next ≤ hi) :
    Placed (freeBlocks pre ++ b :: freeBlocks post) :=
  (w.placed_insert hlo hhi).sublist
    (freeBlocks_sublist.append (freeBlocks_sublist.cons_cons b))

/-- The blocks on both sides are in order. -/
lemma sorted (w : Hole h pre lo hi post) :
    (pre ++ post).Pairwise fun b b' => b.next ≤ b'.addr :=
  List.pairwise_append.2 ⟨w.left.sorted, w.right.sorted, fun _ hc _ hd =>
    (w.left.bounds hc).2.trans (w.le.trans (w.right.bounds hd).1)⟩

/-- The bytes of the hole outside of `b` and of the allocated payloads are no pointers of the
free blocks and of `b`. -/
lemma offLinks (w : Hole h pre lo hi post) (hlo : lo ≤ b.addr) (hhi : b.next ≤ hi)
    (hx : Inert pre lo hi post x) (hxb : x < b.addr ∨ b.addr + 16 ≤ x) :
    OffLinks (freeBlocks pre ++ b :: freeBlocks post) x := by
  intro f hf
  have hb24 := b.addr_add_le
  have hf24 := f.addr_add_le
  have hw := w.bounds
  simp only [List.mem_append, List.mem_cons, mem_freeBlocks] at hf
  rcases eq_or_ne f b with rfl | hne
  · exact hxb
  have hf' : f ∈ pre ++ post ∧ f.alloc = false := by simp; tauto
  have hfb := w.mem_bounds hf'.1
  rcases hx with hx | ⟨c, hc, hca, hx⟩
  · omega
  · have hcf : c ≠ f := by rintro rfl; simp [hca] at hf'
    have := apart_of_sorted w.sorted hc hf'.1 hcf
    unfold Block.Payload at hx
    omega

/-- The bytes of tags, prologue and epilogue are no pointers of the free blocks and of `b`. -/
lemma fixed_offLinks (w : Hole h pre lo hi post) (hlo : lo ≤ b.addr) (hhi : b.next ≤ hi)
    (hx : x < h.memStartBrk + 16 ∨ h.memBrk - 4 ≤ x ∨ ∃ c ∈ pre ++ post, c.Meta x) :
    OffLinks (freeBlocks pre ++ b :: freeBlocks post) x := by
  intro f hf
  have hb24 := b.addr_add_le
  have hf24 := f.addr_add_le
  have hw := w.bounds
  have hf' : f = b ∨ f ∈ pre ++ post := by
    simp only [List.mem_append, List.mem_cons, mem_freeBlocks] at hf ⊢
    tauto
  have hfb : h.memStartBrk + 16 ≤ f.addr ∧ f.next ≤ h.memBrk := by
    rcases hf' with rfl | hf'
    · omega
    · have := w.mem_bounds hf'
      omega
  rcases hx with hx | hx | ⟨c, hc, hx⟩
  · omega
  · omega
  · have hcb := w.mem_bounds hc
    have hc24 := c.addr_add_le
    unfold Block.Meta at hx
    rcases hf' with rfl | hf'
    · omega
    rcases eq_or_ne c f with rfl | hne
    · omega
    · have := apart_of_sorted w.sorted hc hf' hne
      omega

/-! ### Changing the memory -/

/-- A heap with the same prologue, epilogue and tags. -/
lemma congr (w : Hole h pre lo hi post) (hs : SameArena h h')
    (hm : ∀ x, x < h.memStartBrk + 16 - 4 ∨ h.memBrk - 4 ≤ x ∨ (∃ c ∈ pre ++ post, c.Meta x) →
      h'.mem x = h.mem x) : Hole h' pre lo hi post where
  arena := by
    have := w.bounds
    refine w.arena.congr hs (by omega) fun x hx => hm x ?_
    omega
  left := hs.memStartBrk ▸ w.left
  le := w.le
  right := hs.memBrk ▸ w.right
  tagged c hc := (w.tagged c hc).congr (by have := w.mem_bounds hc; omega) fun x hx =>
    hm x (.inr (.inr ⟨c, hc, hx⟩))

/-- A heap that differs in the hole only. -/
lemma hole_agree (w : Hole h pre lo hi post) (hs : SameArena h h')
    (hm : ∀ x, x < lo - 4 ∨ hi - 4 ≤ x → h'.mem x = h.mem x) : Hole h' pre lo hi post := by
  have hw := w.bounds
  refine w.congr hs fun x hx => hm x ?_
  rcases hx with hx | hx | ⟨c, hc, hx⟩
  · omega
  · omega
  · have := w.mem_bounds hc
    have := c.addr_add_le
    unfold Block.Meta at hx
    omega

/-- A block whose tags are at the left end of the hole is a block in front of it. -/
lemma add (w : Hole h pre b.addr hi post) (hb : Tagged h.mem b) (hle : b.next ≤ hi) :
    Hole h (pre ++ [b]) b.next hi post where
  arena := w.arena
  left := spans_concat.2 ⟨w.left, rfl⟩
  le := hle
  right := w.right
  tagged c hc := by
    simp only [List.mem_append, List.mem_singleton] at hc
    rcases hc with (hc | rfl) | hc
    · exact w.tagged c (by simp [hc])
    · exact hb
    · exact w.tagged c (by simp [hc])

/-- A block behind the hole becomes part of it. -/
lemma drop (w : Hole h pre lo hi (b :: post)) : Hole h pre lo b.next post := by
  obtain ⟨rfl, hr⟩ := w.right
  have := b.addr_add_le
  have := w.le
  exact ⟨w.arena, w.left, by omega, hr, fun c hc => w.tagged c (by simp at hc ⊢; tauto)⟩

/-- A block in front of the hole becomes part of it. -/
lemma drop_last (w : Hole h (pre ++ [b]) lo hi post) : Hole h pre b.addr hi post := by
  obtain ⟨hl, rfl⟩ := spans_concat.1 w.left
  have := b.addr_add_le
  have := w.le
  exact ⟨w.arena, hl, by omega, w.right, fun c hc => w.tagged c (by simp at hc ⊢; tauto)⟩

/-! ### Free lists -/

/-- Removing a block in the hole from its list. -/
lemma remove (w : Hole h pre lo hi post) (hlo : lo ≤ b.addr) (hhi : b.next ≤ hi)
    (hl : FreeLists h (freeBlocks pre ++ b :: freeBlocks post))
    (hs : h.getSize (hdrp b.addr) = b.size) : Window (h.removeBlock b.addr) pre lo hi post := by
  have hp := w.placed_free hlo hhi
  refine ⟨w.congr (sameArena_removeBlock h b.addr) fun x hx => ?_,
    freeLists_removeBlock hl hp hs⟩
  exact removeBlock_mem hl hp (w.fixed_offLinks hlo hhi (hx.imp_left fun hx => by omega))

/-- What removing a block in the hole from its list leaves alone. -/
lemma remove_mem (w : Hole h pre lo hi post) (hlo : lo ≤ b.addr) (hhi : b.next ≤ hi)
    (hl : FreeLists h (freeBlocks pre ++ b :: freeBlocks post))
    (hx : Inert pre lo hi post x) (hxb : x < b.addr ∨ b.addr + 16 ≤ x) :
    (h.removeBlock b.addr).mem x = h.mem x :=
  removeBlock_mem hl (w.placed_free hlo hhi) (w.offLinks hlo hhi hx hxb)

/-! ### Neighbours -/

/-- The block behind the hole. -/
lemma tagged_head (w : Hole h pre lo hi (b :: post)) : Tagged h.mem b ∧ b.addr = hi :=
  ⟨w.tagged b (by simp), w.right.1⟩

/-- The block in front of the hole. -/
lemma tagged_last (w : Hole h (pre ++ [b]) lo hi post) : Tagged h.mem b ∧ b.next = lo :=
  ⟨w.tagged b (by simp), (spans_concat.1 w.left).2⟩

/-- Behind a hole at the end of the heap stands the epilogue. -/
lemma epilogue (w : Hole h pre lo hi []) :
    h.getSize (hdrp hi) = 0 ∧ h.getAlloc (hdrp hi) = 1 := by
  have hr : hi = h.memBrk := w.right
  have he := w.arena.epilogue
  rw [← hr] at he
  simp only [Heap.getSize, Heap.getAlloc, Heap.get, hdrp, wsize, he]
  decide

/-- In front of a hole at the start of the heap stands the prologue. -/
lemma prologue (w : Hole h [] lo hi post) :
    h.prevBlkp lo = lo - 8 ∧ h.ftrp (lo - 8) = lo - 8 ∧ h.getAlloc (lo - 8) = 1 := by
  have hl : h.memStartBrk + 16 = lo := w.left
  have h1 := w.arena.prologueHdr
  have h2 := w.arena.prologueFtr
  rw [show h.memStartBrk + 4 = lo - 8 - 4 by omega] at h1
  rw [show h.memStartBrk + 8 = lo - 8 by omega] at h2
  simp only [Heap.prevBlkp, Heap.ftrp, Heap.getSize, Heap.getAlloc, Heap.get, hdrp, wsize, dsize,
    h1, h2] at *
  refine ⟨?_, ?_, by decide⟩
  · rw [show pack 8 1 / 8 * 8 = 8 by decide]
  · rw [show pack 8 1 / 8 * 8 = 8 by decide]
    omega

end Hole

namespace Window

/-- A heap that differs in the hole only. -/
lemma hole_agree (w : Window h pre lo hi post) (hs : SameArena h h')
    (hf : h'.freeListp = h.freeListp)
    (hm : ∀ x, x < lo - 4 ∨ hi - 4 ≤ x → h'.mem x = h.mem x) : Window h' pre lo hi post := by
  have hw := w.bounds
  refine ⟨w.toHole.hole_agree hs hm, w.lists.congr hf fun c hc k hk => hm _ ?_⟩
  rw [← freeBlocks_append, mem_freeBlocks] at hc
  have := w.mem_bounds hc.1
  have := c.addr_add_le
  omega

/-- Writing a word inside the hole. -/
lemma put (w : Window h pre lo hi post) {p v : ℕ} (h1 : lo - 4 ≤ p) (h2 : p + 4 ≤ hi - 4) :
    Window (h.put p v) pre lo hi post :=
  w.hole_agree (sameArena_put p v) rfl fun x hx => store_apply_of_notMem (by omega)

/-- Writing an address inside the hole. -/
lemma putaddr (w : Window h pre lo hi post) {p v : ℕ} (h1 : lo - 4 ≤ p) (h2 : p + 8 ≤ hi - 4) :
    Window (h.putaddr p v) pre lo hi post :=
  w.hole_agree (sameArena_putaddr p v) rfl fun x hx => store_apply_of_notMem (by omega)

/-! ### Taking blocks out -/

/-- An allocated block behind the hole becomes part of it. -/
lemma dropRight (w : Window h pre lo hi (b :: post)) (hb : b.alloc = true) :
    Window h pre lo b.next post :=
  ⟨w.drop, by simpa only [freeBlocks_cons_of_alloc hb] using w.lists⟩

/-- An allocated block in front of the hole becomes part of it. -/
lemma dropLeft (w : Window h (pre ++ [b]) lo hi post) (hb : b.alloc = true) :
    Window h pre b.addr hi post :=
  ⟨w.drop_last, by simpa [freeBlocks_cons_of_alloc hb] using w.lists⟩

/-- A free block behind the hole becomes part of it once it is removed from its list. -/
lemma removeRight (w : Window h pre lo hi (b :: post)) (hb : b.alloc = false) :
    Window (h.removeBlock b.addr) pre lo b.next post := by
  obtain ⟨ht, rfl⟩ := w.tagged_head
  exact w.drop.remove w.le le_rfl (freeBlocks_cons_of_free hb ▸ w.lists) ht.getSize

/-- What taking out the free block behind the hole leaves alone. -/
lemma removeRight_mem (w : Window h pre lo hi (b :: post)) (hb : b.alloc = false)
    (hx : Inert pre lo b.next post x) (hxb : x < b.addr ∨ b.addr + 16 ≤ x) :
    (h.removeBlock b.addr).mem x = h.mem x := by
  obtain ⟨-, rfl⟩ := w.tagged_head
  exact w.drop.remove_mem w.le le_rfl (freeBlocks_cons_of_free hb ▸ w.lists) hx hxb

/-- The lists with the free block in front of the hole set apart. -/
lemma lists_last (w : Window h (pre ++ [b]) lo hi post) (hb : b.alloc = false) :
    FreeLists h (freeBlocks pre ++ b :: freeBlocks post) := by
  simpa [freeBlocks_cons_of_free hb] using w.lists

/-- A free block in front of the hole becomes part of it once it is removed from its list. -/
lemma removeLeft (w : Window h (pre ++ [b]) lo hi post) (hb : b.alloc = false) :
    Window (h.removeBlock b.addr) pre b.addr hi post := by
  obtain ⟨ht, rfl⟩ := w.tagged_last
  exact w.drop_last.remove le_rfl w.le (w.lists_last hb) ht.getSize

/-- What taking out the free block in front of the hole leaves alone. -/
lemma removeLeft_mem (w : Window h (pre ++ [b]) lo hi post) (hb : b.alloc = false)
    (hx : Inert pre b.addr hi post x) (hxb : x < b.addr ∨ b.addr + 16 ≤ x) :
    (h.removeBlock b.addr).mem x = h.mem x := by
  obtain ⟨-, rfl⟩ := w.tagged_last
  exact w.drop_last.remove_mem le_rfl w.le (w.lists_last hb) hx hxb

/-! ### Putting blocks in -/

/-- An allocated block at the left end of the hole. -/
lemma addAlloc (w : Window h pre b.addr hi post) (hb : b.alloc = true) (ht : Tagged h.mem b)
    (hle : b.next ≤ hi) : Window h (pre ++ [b]) b.next hi post :=
  ⟨w.add ht hle, by simpa [freeBlocks_cons_of_alloc hb] using w.lists⟩

/-- What inserting a block of the hole into its list leaves alone. -/
lemma insert_mem (w : Window h pre lo hi post) (hlo : lo ≤ b.addr) (hhi : b.next ≤ hi)
    (hs : h.getSize (hdrp b.addr) = b.size) (hx : Inert pre lo hi post x)
    (hxb : x < b.addr ∨ b.addr + 16 ≤ x) : (h.insertBlock b.addr).mem x = h.mem x :=
  insertBlock_mem w.lists (w.placed_free hlo hhi) hs (w.offLinks hlo hhi hx hxb)

/-- A free block at the left end of the hole once it is inserted into its list. -/
lemma addFree (w : Window h pre b.addr hi post) (hb : b.alloc = false) (ht : Tagged h.mem b)
    (hle : b.next ≤ hi) : Window (h.insertBlock b.addr) (pre ++ [b]) b.next hi post := by
  have hp := w.placed_free le_rfl hle
  have hs := sameArena_insertBlock h b.addr
  have hh : Hole h (pre ++ [b]) b.next hi post := w.add ht hle
  refine ⟨hh.congr hs fun x hx => ?_, ?_⟩
  · refine insertBlock_mem w.lists hp ht.getSize ?_
    rcases hx with hx | hx | ⟨c, hc, hx⟩
    · exact w.fixed_offLinks le_rfl hle (.inl (by omega))
    · exact w.fixed_offLinks le_rfl hle (.inr (.inl hx))
    · simp only [List.append_assoc, List.mem_append, List.singleton_append, List.mem_cons] at hc
      rcases hc with hc | rfl | hc
      · exact w.fixed_offLinks le_rfl hle (.inr (.inr ⟨c, by simp [hc], hx⟩))
      · have := c.addr_add_le
        have := w.bounds
        unfold Block.Meta at hx
        exact w.offLinks le_rfl hle (.inl (by omega)) (by omega)
      · exact w.fixed_offLinks le_rfl hle (.inr (.inr ⟨c, by simp [hc], hx⟩))
  · have := freeLists_insertBlock w.lists hp ht.getSize
    simpa [freeBlocks_cons_of_free hb] using this

end Window

end Malloc
