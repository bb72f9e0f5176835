import SE101.Malloc.Client
import SE101.Malloc.Place

set_option relaxedAutoImplicit false
set_option autoImplicit false

/-!
# `mm_free`

`mm_free` first looks at two bytes at a fixed distance behind its argument, wherever they are:
if one of them is the byte that the branches of `mm_malloc` for 4095 and 8190 bytes write, it is
cleared and nothing is freed. Otherwise the block is freed and joined with its free neighbours.
Clearing such a byte does no harm to the layout, because it can only be the highest byte of a
word or of a pointer, and no tag and no address is that large.

## Main definitions

* `Malloc.Unmarked`, `Malloc.Clears` — what `mm_free` finds at the two bytes.
* `Malloc.Freed` — the block has been freed and joined with its neighbours.

## Main results

* `Malloc.WellFormed.congr`, `WellFormed.agree_payload` — what a layout depends on.
* `Malloc.WellFormed.unique` — a heap has one layout.
* `Malloc.mmFree_spec` — the heap that `mm_free` leaves when it frees an allocated block.
* `Malloc.not_wellFormed_mmFree` — what it leaves of the lists when the block is free already.
-/

namespace Malloc

open LittleEndian LinkedList Heap

variable {h h' : Heap} {b c : Block} {bs cs pre post xs ys : List Block} {x p : ℕ}

/-! ## What a layout depends on -/

/-- A layout depends only on the list heads, on the words of prologue and epilogue, on the tags,
and on the pointers of the free blocks. -/
lemma WellFormed.congr (w : WellFormed h bs) (hs : SameArena h h')
    (hf : h'.freeListp = h.freeListp)
    (hfix : ∀ x, (h.memStartBrk + 4 ≤ x ∧ x < h.memStartBrk + 12) ∨
      (h.memBrk - 4 ≤ x ∧ x < h.memBrk) → h'.mem x = h.mem x)
    (htag : ∀ b ∈ bs, ∀ x, b.Meta x → h'.mem x = h.mem x)
    (hlink : ∀ b ∈ bs, b.alloc = false → ∀ k < 16, h'.mem (b.addr + k) = h.mem (b.addr + k)) :
    WellFormed h' bs where
  arena := w.arena.congr hs w.spans.le hfix
  spans := hs.memStartBrk ▸ hs.memBrk ▸ w.spans
  tagged b hb := (w.tagged b hb).congr
    (by have := w.window_end.bounds; have := w.spans.bounds hb; omega) (htag b hb)
  lists := w.lists.congr hf fun b hb =>
    hlink b (mem_freeBlocks.1 hb).1 (mem_freeBlocks.1 hb).2
  noAdj := w.noAdj

/-- Two different blocks of a layout are apart. -/
lemma WellFormed.apart (w : WellFormed h bs) (hb : b ∈ bs) (hc : c ∈ bs) (hne : b ≠ c) :
    b.next ≤ c.addr ∨ c.next ≤ b.addr :=
  apart_of_sorted w.spans.sorted hb hc hne

/-- Writing into an allocated payload keeps the layout. -/
lemma WellFormed.agree_payload (w : WellFormed h bs) (hb : b ∈ bs) (ha : b.alloc = true)
    (hs : SameArena h h') (hf : h'.freeListp = h.freeListp)
    (hm : ∀ x, ¬ b.Payload x → h'.mem x = h.mem x) : WellFormed h' bs := by
  have hbb := w.spans.bounds hb
  have hb24 := b.addr_add_le
  refine w.congr hs hf (fun x hx => hm x ?_) (fun c hc x hx => hm x ?_)
    (fun c hc hcf k hk => hm _ ?_)
  · unfold Block.Payload
    omega
  · have hc24 := c.addr_add_le
    unfold Block.Meta at hx
    unfold Block.Payload
    rcases eq_or_ne b c with rfl | hne
    · omega
    · have := w.apart hb hc hne
      omega
  · have hc24 := c.addr_add_le
    have hne : b ≠ c := by rintro rfl; simp [ha] at hcf
    have := w.apart hb hc hne
    unfold Block.Payload
    omega

/-- The header at an address determines the block there. -/
lemma Tagged.eq_of_addr_eq {m : Memory} (hb : Tagged m b) (hc : Tagged m c)
    (ha : b.addr = c.addr) : b = c := by
  have ht : b.tag = c.tag := by rw [← hb.header, ← hc.header, ha]
  have hsize : b.size = c.size := by rw [← b.tag_size, ← c.tag_size, ht]
  have halloc : b.alloc.toNat = c.alloc.toNat := by rw [← b.tag_alloc, ← c.tag_alloc, ht]
  ext
  · exact ha
  · exact hsize
  · rw [← Bool.ofNat_toNat b.alloc, halloc, Bool.ofNat_toNat]

/-- Rows of tagged blocks between the same ends are equal. -/
lemma spans_unique {m : Memory} {a e : ℕ} (hbs : Spans a bs e) (hcs : Spans a cs e)
    (tb : ∀ b ∈ bs, Tagged m b) (tc : ∀ c ∈ cs, Tagged m c) : bs = cs := by
  induction bs generalizing a cs with
  | nil =>
    cases cs with
    | nil => rfl
    | cons c cs =>
      obtain ⟨rfl, hcs⟩ := hcs
      have hae : c.addr = e := hbs
      have := hcs.le
      have := c.addr_add_le
      omega
  | cons b bs ih =>
    obtain ⟨rfl, hbs⟩ := hbs
    cases cs with
    | nil =>
      have hae : b.addr = e := hcs
      have := hbs.le
      have := b.addr_add_le
      omega
    | cons c cs =>
      obtain ⟨hcb, hcs⟩ := hcs
      obtain rfl := (tb b (by simp)).eq_of_addr_eq (tc c (by simp)) hcb.symm
      rw [ih hbs hcs (fun d hd => tb d (by simp [hd])) fun d hd => tc d (by simp [hd])]

/-- **A heap has one layout.** -/
lemma WellFormed.unique (w : WellFormed h bs) (w' : WellFormed h cs) : bs = cs :=
  spans_unique w.spans w'.spans w.tagged w'.tagged

/-! ## The marker -/

/-- The highest byte of a small number is not the marker. -/
lemma last_ne_marker {m : Memory} {a n : ℕ} (h : load m a (n + 1) < 255 * 256 ^ n) :
    m (a + n) ≠ marker := by
  intro he
  have := toNat_last_le h
  rw [he] at this
  exact absurd this (by decide)

/-- The pointers of a list are nodes, or null. -/
lemma ListsOf.load_lt {fs : List Block} {L : ℕ → List ℕ} (hl : ListsOf h fs L) {k : ℕ}
    (hk : 0 < k) (hlt : ∀ f ∈ fs, f.addr < k) (hb : b ∈ fs) :
    load h.mem b.addr 8 < k ∧ load h.mem (b.addr + 8) 8 < k := by
  have hi := getBlockIndex_lt (b.size : ℤ)
  obtain ⟨ys, zs, he⟩ := List.append_of_mem
    ((hl.mem_iff _ hi b.addr).2 ⟨b, hb, rfl, rfl⟩)
  have hnode : ∀ y ∈ L (getBlockIndex b.size), y < k := fun y hy => by
    obtain ⟨c, hc, rfl, -⟩ := hl.exists_block hi hy
    exact hlt c hc
  obtain ⟨h1, h2⟩ := (he ▸ hl.linked _ hi :
    Linked 8 h.mem 0 (ys ++ b.addr :: zs) 0).load_eq
  rw [h1, h2]
  constructor
  · rcases Nat.eq_zero_or_pos (ys.getLastD 0) with h0 | h0
    · omega
    · exact hnode _ (by rw [he]; exact List.mem_append_left _ (getLastD_zero_mem h0.ne'))
  · rcases Nat.eq_zero_or_pos (zs.headD 0) with h0 | h0
    · omega
    · exact hnode _ (by
        rw [he]
        exact List.mem_append_right _ (List.mem_cons_of_mem _ (headD_zero_mem h0.ne')))

/-- The byte of a tag that may be taken for a marker is not one. -/
lemma Tagged.ne_marker (ht : Tagged h.mem b) (h8 : 8 ∣ b.addr) (hpos : 4 ≤ b.addr)
    (hlt : b.size < 2 ^ 31) (hx : b.Meta x) (hx7 : x % 8 = 7) : h.mem x ≠ marker := by
  have hdvd := b.dvd
  have hb24 := b.addr_add_le
  have htag : b.tag < 255 * 256 ^ 3 := by
    have := Bool.toNat_le b.alloc
    rw [b.tag_eq]
    norm_num
    omega
  unfold Block.Meta Block.next at hx
  have hn : (b.addr + b.size) % 8 = 0 := by omega
  rcases hx with hx | hx
  · obtain rfl : x = b.addr - 4 + 3 := by omega
    exact last_ne_marker (by rw [ht.header]; exact htag)
  · -- the highest byte of a footer is at an address of another remainder
    omega

/-- Clearing what looks like a marker keeps the layout. -/
lemma WellFormed.putc_marker (w : WellFormed h bs) (hx7 : x % 8 = 7) (hx : h.mem x = marker)
    (v : Byte) : WellFormed (h.putc x v) bs := by
  have hbounds := w.window_end.bounds
  have hal := w.arena.aligned
  have hkeep : ∀ y, h.mem y ≠ marker ∨ y % 8 ≠ 7 → (h.putc x v).mem y = h.mem y := fun y hy => by
    rw [putc_mem, Function.update_of_ne]
    rintro rfl
    rcases hy with hy | hy
    · exact hy hx
    · exact hy hx7
  have hbrk : 8 ∣ h.memBrk := w.spans.aligned_end (by omega)
  refine w.congr (sameArena_putc x v) rfl (fun y hy => hkeep y ?_) (fun b hb y hy => hkeep y ?_)
    (fun b hb hf k hk => hkeep _ ?_)
  · by_cases hy7 : y % 8 = 7
    · left
      rcases hy with hy | hy
      · obtain rfl : y = h.memStartBrk + 4 + 3 := by omega
        exact last_ne_marker (by rw [w.arena.prologueHdr]; decide)
      · obtain rfl : y = h.memBrk - 4 + 3 := by omega
        exact last_ne_marker (by rw [w.arena.epilogue]; decide)
    · exact .inr hy7
  · have hbb := w.spans.bounds hb
    by_cases hy7 : y % 8 = 7
    · exact .inl ((w.tagged b hb).ne_marker (w.spans.aligned (by omega) hb) (by omega)
        (w.placed.size_lt b hb) hy hy7)
    · exact .inr hy7
  · obtain ⟨L, hl⟩ := w.lists
    have hbb := w.spans.aligned (by omega) hb
    obtain ⟨h1, h2⟩ := hl.load_lt (b := b) (k := 2 ^ 63) (by decide) (fun f hf => by
      have := w.spans.bounds (mem_freeBlocks.1 hf).1
      have := f.addr_add_le
      omega) (mem_freeBlocks.2 ⟨hb, hf⟩)
    by_cases hk7 : k % 8 = 7
    · left
      obtain rfl | rfl : k = 7 ∨ k = 15 := by omega
      · exact last_ne_marker (lt_of_lt_of_le h1 (by norm_num))
      · exact last_ne_marker (a := b.addr + 8) (lt_of_lt_of_le h2 (by norm_num))
    · right
      omega

/-! ## Freeing -/

/-- The heap realises the layout in which the block `b` has been freed and joined with its free
neighbours, and the other payloads are as before. -/
structure Freed (h : Heap) (pre : List Block) (b : Block) (post : List Block) (h' : Heap)
    (xs : List Block) (c : Block) (ys : List Block) : Prop where
  layout : joinFree (pre ++ b.freed :: post) = xs ++ c :: ys
  free : c.alloc = false
  addr_le : c.addr ≤ b.addr
  next_le : b.next ≤ c.next
  wellFormed : WellFormed h' (xs ++ c :: ys)
  arena : SameArena h h'
  keeps : KeepsPayloads (pre ++ post) h h'

/-- The other allocated blocks stay. -/
lemma Freed.mem_iff {d : Block} (hf : Freed h pre b post h' xs c ys) (hd : d.alloc = true) :
    d ∈ xs ++ c :: ys ↔ d ∈ pre ++ post := by
  have hne : d ≠ b.freed := by rintro rfl; simp at hd
  rw [← hf.layout, mem_joinFree_iff hd]
  simp [hne]

/-- The bytes at which `mm_free` looks are no markers. -/
def Unmarked (h : Heap) (ptr : ℕ) : Prop :=
  h.mem (ptr + 4095) ≠ marker ∧ h.mem (ptr + 8191) ≠ marker

/-- The byte `x` is taken for a marker, and `mm_free` clears it. -/
def Clears (h : Heap) (ptr x : ℕ) : Prop :=
  h.mem x = marker ∧ (x = ptr + 4095 ∨ (x = ptr + 8191 ∧ h.mem (ptr + 4095) ≠ marker))

/-- A byte is cleared unless both are no markers. -/
lemma exists_clears_iff : (∃ x, Clears h p x) ↔ ¬ Unmarked h p := by
  constructor
  · rintro ⟨x, hx, rfl | ⟨rfl, -⟩⟩ hun
    · exact hun.1 hx
    · exact hun.2 hx
  · intro hun
    by_cases h1 : h.mem (p + 4095) = marker
    · exact ⟨_, h1, .inl rfl⟩
    · exact ⟨p + 8191, by_contra fun h2 => hun ⟨h1, h2⟩, .inr ⟨rfl, h1⟩⟩

/-- At most one byte is cleared. -/
lemma Clears.unique {y : ℕ} (hx : Clears h p x) (hy : Clears h p y) : x = y := by
  obtain ⟨hx, rfl | ⟨rfl, hx'⟩⟩ := hx <;> obtain ⟨hy, rfl | ⟨rfl, hy'⟩⟩ := hy
  · rfl
  · exact absurd hx hy'
  · exact absurd hy hx'
  · rfl

/-- A byte that is taken for a marker is cleared, and that is all. -/
lemma mmFree_of_clears (w : WellFormed h bs) (h8 : 8 ∣ p) (hx : Clears h p x) :
    h.mmFree p = h.putc x 0 ∧ WellFormed (h.mmFree p) bs := by
  obtain ⟨hm, hxp⟩ := hx
  have hfree : h.mmFree p = h.putc x 0 := by
    rcases hxp with rfl | ⟨rfl, h1⟩
    · exact if_pos hm
    · exact (if_neg h1).trans (if_pos hm)
  refine ⟨hfree, hfree ▸ w.putc_marker ?_ hm 0⟩
  rcases hxp with rfl | ⟨rfl, -⟩ <;> omega

/-- The blocks stay as they are when a byte is taken for a marker. -/
lemma mmFree_of_marked (w : WellFormed h bs) (hb : b ∈ bs) (hun : ¬ Unmarked h b.addr) :
    SameArena h (h.mmFree b.addr) ∧ WellFormed (h.mmFree b.addr) bs := by
  have h8 : 8 ∣ b.addr := w.spans.aligned (by have := w.arena.aligned; omega) hb
  obtain ⟨x, hx⟩ := exists_clears_iff.2 hun
  obtain ⟨hfree, w'⟩ := mmFree_of_clears w h8 hx
  exact ⟨hfree ▸ sameArena_putc _ _, w'⟩

/-- **`mm_free` frees an allocated block**, unless it takes a byte for a marker. -/
theorem mmFree_spec (w : WellFormed h (pre ++ b :: post)) (ha : b.alloc = true)
    (hun : Unmarked h b.addr) :
    ∃ xs c ys, Freed h pre b post (h.mmFree b.addr) xs c ys := by
  have hpre : NoAdj pre := (List.isChain_append.1 w.noAdj).1
  have hpost : NoAdj post := (List.isChain_append.1 w.noAdj).2.1.of_cons
  have w1 : Window h pre b.addr b.next post := w.window.dropRight ha
  obtain ⟨w2, t2, k2, -⟩ := w1.putTags (b := b.freed) le_rfl le_rfl
  simp only [Block.freed_addr, Block.freed_size, Block.freed_alloc, Bool.toNat_false] at w2 t2 k2
  set h2 := h.putTags b.addr b.size 0 with hh2
  obtain ⟨w3, t3, k3⟩ := w2.clearLinks (b := b.freed) le_rfl le_rfl t2
  rw [Block.freed_addr] at w3 t3 k3
  obtain ⟨xs, c, ys, hc⟩ := coalesce_spec (b := b.freed) w3 t3 rfl hpre hpost
  have hfree : h.mmFree b.addr = ((h2.clearLinks b.addr).coalesce b.addr).2 := by
    rw [mmFree, if_neg hun.1, if_neg hun.2, (w.tagged b (by simp)).getSize]
  refine ⟨xs, c, ys, hc.layout, hc.free, hc.addr_le, hc.next_le, ?_, ?_, ?_⟩
  · rw [hfree]
    exact hc.wellFormed
  · rw [hfree]
    exact (((sameArena_putTags ..).trans (sameArena_putaddr _ _)).trans
      (sameArena_putaddr _ _)).trans hc.arena
  · rw [hfree]
    exact (k2.trans k3).trans hc.keeps

/-- The heap in which `mm_free` calls `coalesce` differs from the one before in bytes of the block
only. -/
lemma agree_putTags_clearLinks (ha : 4 ≤ b.addr) (hlt : b.size < 2 ^ 31) (hb : b.alloc = false)
    (hx : x < b.addr - 4 ∨ b.next - 4 ≤ x) :
    ((h.putTags b.addr b.size 0).clearLinks b.addr).mem x = h.mem x := by
  have h24 := b.addr_add_le
  have htags := putTags_apply_of_notMeta (b := b) (x := x) h ha hlt (by unfold Block.Meta; omega)
  rw [hb, Bool.toNat_false] at htags
  rw [clearLinks_apply_of_notMem _ (by omega), htags]

/-- There the block is tagged as free. -/
lemma tagged_putTags_clearLinks (ha : 4 ≤ b.addr) (hlt : b.size < 2 ^ 31) (hb : b.alloc = false) :
    Tagged ((h.putTags b.addr b.size 0).clearLinks b.addr).mem b := by
  have t := tagged_putTags (b := b) h ha hlt
  rw [hb, Bool.toNat_false] at t
  exact t.clearLinks ha

/-- A free block has allocated neighbours, so that freeing it again only inserts it once more. -/
lemma mmFree_of_free (w : WellFormed h (pre ++ b :: post)) (hb : b.alloc = false)
    (hun : Unmarked h b.addr) : h.mmFree b.addr =
      ((h.putTags b.addr b.size 0).clearLinks b.addr).insertBlock b.addr := by
  have h24 := b.addr_add_le
  have hbb := w.spans.bounds (b := b) (by simp)
  have hlt := w.placed.size_lt b (by simp)
  obtain ⟨hpre, hpost⟩ := List.isChain_split.1 w.noAdj
  set h₂ := (h.putTags b.addr b.size 0).clearLinks b.addr with hh₂
  have w₂ : Hole h₂ pre b.addr b.next post :=
    w.window.drop.hole_agree (((sameArena_putTags ..).trans (sameArena_putaddr _ _)).trans
      (sameArena_putaddr _ _)) fun x hx => agree_putTags_clearLinks (by omega) hlt hb hx
  have hprev : h₂.getAlloc (h₂.ftrp (h₂.prevBlkp b.addr)) ≠ 0 := by
    rcases w₂.prev_cases with ⟨hprev, -⟩ | ⟨-, xs, p, rfl, hp⟩
    · exact hprev
    · have := NoAdj.last_alloc hpre hb p (by simp)
      simp [hp] at this
  have hnext : h₂.getAlloc (hdrp b.next) ≠ 0 := by
    rcases w₂.next_cases with ⟨hnext, -⟩ | ⟨-, n, ys, rfl, hn⟩
    · exact hnext
    · have := NoAdj.head_alloc hpost hb n (by simp)
      simp [hn] at this
  have ht : h₂.nextBlkp b.addr = b.next := (tagged_putTags_clearLinks (by omega) hlt hb).nextBlkp
  rw [mmFree, if_neg hun.1, if_neg hun.2, (w.tagged b (by simp)).getSize, ← hh₂, coalesce]
  dsimp only
  rw [ht, if_pos ⟨hprev, hnext⟩]

/-- **Freeing a block that is free already destroys its list**: no node of a list may point at the
first one, but the block is put in front, and the node that stood in front of it still points at
it. -/
theorem not_wellFormed_mmFree (w : WellFormed h (pre ++ b :: post)) (hb : b.alloc = false)
    (hun : Unmarked h b.addr) : ¬ WellFormed (h.mmFree b.addr) (pre ++ b :: post) := by
  intro w'
  have h24 := b.addr_add_le
  have hbb := w.spans.bounds (b := b) (by simp)
  have hp := w.placed
  have hlt := hp.size_lt b (by simp)
  have hpos := (hp.pos b (by simp)).ne'
  have hmem : b ∈ freeBlocks (pre ++ b :: post) := mem_freeBlocks.2 ⟨by simp, hb⟩
  obtain ⟨L, hl⟩ := w.lists
  obtain ⟨L', hl'⟩ := w'.lists
  have hi : getBlockIndex b.size < listNum := getBlockIndex_lt _
  obtain ⟨xs, ys, he⟩ := List.append_of_mem ((hl.mem_iff _ hi b.addr).2 ⟨b, hmem, rfl, rfl⟩)
  have hsame (x : ℕ) : x ∈ L' (getBlockIndex b.size) ↔ x ∈ L (getBlockIndex b.size) :=
    (hl'.mem_iff _ hi x).trans (hl.mem_iff _ hi x).symm
  -- the block is pushed onto the list that has it
  set h₂ := (h.putTags b.addr b.size 0).clearLinks b.addr with hh₂
  have hsize : h₂.getSize (hdrp b.addr) = b.size :=
    (tagged_putTags_clearLinks (by omega) hlt hb).getSize
  have hfree : h.mmFree b.addr = h₂.insertBlock b.addr := mmFree_of_free w hb hun
  obtain ⟨hpush, hhead⟩ := insertBlock_eq hpos hsize hlt
  have hheads : h₂.freeListp = h.freeListp := by
    rw [hh₂, clearLinks, putaddr_freeListp, putaddr_freeListp, putTags_freeListp]
  have hpl : Placed (freeBlocks (pre ++ b :: post)) := hp.sublist freeBlocks_sublist
  have hap := hl.pairwise_apart hpl hi
  rw [he] at hap
  -- the nodes in front of the block are other blocks
  have hm : ∀ y ∈ xs, ∀ i < 2 * 8, h₂.mem (y + i) = h.mem (y + i) := by
    intro y hy i hiy
    have hyb := (List.pairwise_append.1 hap).2.2 y hy b.addr (by simp)
    obtain ⟨c, hc, rfl, -⟩ := hl.exists_block hi (he ▸ List.mem_append_left _ hy)
    have hcb : c ≠ b := by
      rintro rfl
      unfold Apart at hyb
      omega
    have := w.apart (mem_freeBlocks.1 hc).1 (by simp) hcb
    have := c.addr_add_le
    exact agree_putTags_clearLinks (by omega) hlt hb (by omega)
  obtain ⟨z, hz, hload⟩ := exists_load_push (he ▸ hl.linked _ hi) hm hpos (hpl.addr_lt hmem) hap
  rw [← he, ← hl.head _ hi, ← hheads, ← hpush, ← hfree] at hload
  -- in the new lists the block is the first one
  obtain ⟨zs, hzs⟩ : ∃ zs, L' (getBlockIndex b.size) = b.addr :: zs := by
    have hhead' := hl'.head _ hi
    rw [hfree, hhead, Function.update_self] at hhead'
    cases hL : L' (getBlockIndex b.size) with
    | nil =>
      rw [hL] at hhead'
      exact absurd hhead' hpos
    | cons x zs =>
      rw [hL, List.headD_cons] at hhead'
      exact ⟨zs, by rw [hhead']⟩
  have hz' : z ∈ L' (getBlockIndex b.size) := by
    rw [hsame, he]
    simp only [List.mem_append, List.mem_cons] at hz ⊢
    tauto
  exact (hzs ▸ hl'.linked _ hi : Linked 8 _ 0 (b.addr :: zs) 0).load_ne_head
    (hzs ▸ hl'.nodup _ hi) hpos (hzs ▸ hz') hload

end Malloc
