import SE101.Malloc.Allocator
import SE101.Malloc.WellFormed

set_option relaxedAutoImplicit false
set_option autoImplicit false

/-!
# Coalescing

`coalesce` is called with a block that is tagged free and in no list, and joins it with its free
neighbours: the heap it leaves realises the joined layout.

## Main definitions

* `Malloc.KeepsPayloads` — an operation leaves the bytes of allocated payloads alone.

## Main results

* `Malloc.coalesce_spec` — the four cases of `coalesce`, in one statement.
-/

namespace Malloc

open LittleEndian Heap

variable {h h' h'' : Heap} {b : Block} {bs pre post xs ys : List Block} {lo hi x : ℕ}

/-! ## Payloads -/

/-- The payloads of the allocated blocks of `bs` are the same in both heaps. -/
def KeepsPayloads (bs : List Block) (h h' : Heap) : Prop :=
  ∀ b ∈ bs, b.alloc = true → ∀ x, b.Payload x → h'.mem x = h.mem x

lemma KeepsPayloads.refl (bs : List Block) (h : Heap) : KeepsPayloads bs h h :=
  fun _ _ _ _ _ => rfl

lemma KeepsPayloads.trans (h₁ : KeepsPayloads bs h h') (h₂ : KeepsPayloads bs h' h'') :
    KeepsPayloads bs h h'' :=
  fun b hb ha x hx => (h₂ b hb ha x hx).trans (h₁ b hb ha x hx)

/-- Only the allocated blocks of the row matter. -/
lemma KeepsPayloads.mono (hk : KeepsPayloads bs h h')
    (hsub : ∀ b ∈ xs, b.alloc = true → b ∈ bs) : KeepsPayloads xs h h' :=
  fun b hb ha => hk b (hsub b hb ha) ha

/-- Writing into the hole keeps the payloads on both sides of it. -/
lemma Hole.keeps_of_agree (w : Hole h pre lo hi post)
    (hm : ∀ x, x < lo - 4 ∨ hi - 4 ≤ x → h'.mem x = h.mem x) :
    KeepsPayloads (pre ++ post) h h' := by
  intro c hc _ x hx
  have := w.mem_bounds hc
  have := w.bounds
  unfold Block.Payload at hx
  exact hm x (by omega)

/-- Removing a block of the hole from its list keeps the payloads on both sides of it. -/
lemma Window.removeRight_keeps (w : Window h pre lo hi (b :: post)) (hb : b.alloc = false) :
    KeepsPayloads (pre ++ post) h (h.removeBlock b.addr) := by
  intro c hc ha x hx
  refine w.removeRight_mem hb (.inr ⟨c, hc, ha, hx⟩) ?_
  have h1 := w.drop.mem_bounds hc
  have h2 := w.tagged_head.2
  have h3 := w.bounds
  have := b.addr_add_le
  unfold Block.Payload at hx
  omega

lemma Window.removeLeft_keeps (w : Window h (pre ++ [b]) lo hi post) (hb : b.alloc = false) :
    KeepsPayloads (pre ++ post) h (h.removeBlock b.addr) := by
  intro c hc ha x hx
  refine w.removeLeft_mem hb (.inr ⟨c, hc, ha, hx⟩) ?_
  have h1 := w.drop_last.mem_bounds hc
  have h2 := w.tagged_last.2
  have h3 := w.bounds
  have := b.addr_add_le
  unfold Block.Payload at hx
  omega

/-- Inserting a block of the hole into its list keeps the payloads on both sides of it. -/
lemma Window.insert_keeps (w : Window h pre lo hi post) (hlo : lo ≤ b.addr) (hhi : b.next ≤ hi)
    (hs : h.getSize (hdrp b.addr) = b.size) :
    KeepsPayloads (pre ++ post) h (h.insertBlock b.addr) := by
  intro c hc ha x hx
  refine w.insert_mem hlo hhi hs (.inr ⟨c, hc, ha, hx⟩) ?_
  have h1 := w.mem_bounds hc
  have := b.addr_add_le
  unfold Block.Payload at hx
  omega

/-! ## Writing tags -/

/-- Tags are words. -/
lemma Block.tag_lt (hlt : b.size < 2 ^ 31) : b.tag < 256 ^ 4 := by
  have := Bool.toNat_le b.alloc
  rw [b.tag_eq]
  norm_num
  omega

/-- Writing header and footer: the footer is found through the new header. -/
lemma putTags_mem (h : Heap) (hlt : b.size < 2 ^ 31) :
    (h.putTags b.addr b.size b.alloc.toNat).mem =
      store (store h.mem (b.addr - 4) 4 b.tag) (b.next - 8) 4 b.tag := by
  have hf : (h.put (hdrp b.addr) b.tag).ftrp b.addr = b.next - 8 := by
    have hs : (h.put (hdrp b.addr) b.tag).getSize (hdrp b.addr) = b.size := by
      rw [Heap.getSize, Heap.get, put_mem, load_store_same (Block.tag_lt hlt), b.tag_size]
    rw [ftrp, hs, dsize, Block.next]
  simp only [Block.tag] at hf ⊢
  simp only [putTags, hf, put_mem]
  rfl

lemma sameArena_putTags (h : Heap) (bp s a : ℕ) : SameArena h (h.putTags bp s a) :=
  (sameArena_put _ _).trans (sameArena_put _ _)

lemma putTags_freeListp (h : Heap) (bp s a : ℕ) :
    (h.putTags bp s a).freeListp = h.freeListp := by
  rw [putTags]
  exact (put_freeListp _ _ _).trans (put_freeListp _ _ _)

/-- The tags just written. -/
lemma tagged_putTags (h : Heap) (ha : 4 ≤ b.addr) (hlt : b.size < 2 ^ 31) :
    Tagged (h.putTags b.addr b.size b.alloc.toNat).mem b := by
  have := b.addr_add_le
  rw [putTags_mem h hlt]
  refine ⟨?_, load_store_same (Block.tag_lt hlt)⟩
  rw [load_store_of_disjoint (by omega), load_store_same (Block.tag_lt hlt)]

/-- Writing tags changes nothing else. -/
lemma putTags_apply_of_notMeta (h : Heap) (ha : 4 ≤ b.addr) (hlt : b.size < 2 ^ 31)
    (hx : ¬ b.Meta x) : (h.putTags b.addr b.size b.alloc.toNat).mem x = h.mem x := by
  have := b.addr_add_le
  unfold Block.Meta at hx
  rw [putTags_mem h hlt, store_apply_of_notMem (by omega), store_apply_of_notMem (by omega)]

/-- Clearing the pointers of a block changes nothing else. -/
lemma clearLinks_apply_of_notMem (h : Heap) {bp : ℕ} (hx : x < bp ∨ bp + 16 ≤ x) :
    (h.clearLinks bp).mem x = h.mem x := by
  rw [Heap.clearLinks, putaddr_mem, putaddr_mem, succ, Malloc.pred, dsize,
    store_apply_of_notMem (by omega), store_apply_of_notMem (by omega)]

/-- The pointers are zero then. -/
lemma clearLinks_apply_of_mem (h : Heap) {bp : ℕ} (hx : bp ≤ x) (hx' : x < bp + 16) :
    (h.clearLinks bp).mem x = 0 := by
  rw [Heap.clearLinks, putaddr_mem, putaddr_mem, succ, Malloc.pred, dsize]
  rcases Nat.lt_or_ge x (bp + 8) with h8 | h8
  · obtain ⟨k, rfl⟩ := Nat.exists_eq_add_of_le hx
    rw [store_apply_of_notMem (by omega), store_apply_add (by omega), Nat.zero_div]
    rfl
  · obtain ⟨k, rfl⟩ := Nat.exists_eq_add_of_le h8
    rw [store_apply_add (by omega), Nat.zero_div]
    rfl

/-- Tags are no pointers. -/
lemma Tagged.clearLinks (ht : Tagged h.mem b) (ha : 4 ≤ b.addr) :
    Tagged (h.clearLinks b.addr).mem b := by
  have := b.addr_add_le
  refine ht.congr ha fun x hx => clearLinks_apply_of_notMem h ?_
  unfold Block.Meta at hx
  omega

/-- Writing the tags of a block inside the hole. -/
lemma Window.putTags (w : Window h pre lo hi post) (hlo : lo ≤ b.addr) (hhi : b.next ≤ hi) :
    Window (h.putTags b.addr b.size b.alloc.toNat) pre lo hi post ∧
      Tagged (h.putTags b.addr b.size b.alloc.toNat).mem b ∧
      KeepsPayloads (pre ++ post) h (h.putTags b.addr b.size b.alloc.toNat) ∧
      ∀ x, ¬ b.Meta x → (h.putTags b.addr b.size b.alloc.toNat).mem x = h.mem x := by
  have hw := w.bounds
  have := b.addr_add_le
  have ha : 4 ≤ b.addr := by omega
  have hlt : b.size < 2 ^ 31 := by simp only [Block.next] at *; omega
  have hm : ∀ x, x < lo - 4 ∨ hi - 4 ≤ x →
      (h.putTags b.addr b.size b.alloc.toNat).mem x = h.mem x := fun x hx =>
    putTags_apply_of_notMeta h ha hlt (by unfold Block.Meta; omega)
  exact ⟨w.hole_agree (sameArena_putTags ..) (putTags_freeListp ..) hm, tagged_putTags h ha hlt,
    w.keeps_of_agree hm, fun x hx => putTags_apply_of_notMeta h ha hlt hx⟩

/-- Clearing the pointers of a block inside the hole. -/
lemma Window.clearLinks (w : Window h pre lo hi post) (hlo : lo ≤ b.addr) (hhi : b.next ≤ hi)
    (ht : Tagged h.mem b) : Window (h.clearLinks b.addr) pre lo hi post ∧
      Tagged (h.clearLinks b.addr).mem b ∧ KeepsPayloads (pre ++ post) h (h.clearLinks b.addr) := by
  have hw := w.bounds
  have hb := b.addr_add_le
  refine ⟨?_, ht.clearLinks (by omega),
    w.keeps_of_agree fun x hx => clearLinks_apply_of_notMem h (by omega)⟩
  exact w.hole_agree ((sameArena_putaddr _ _).trans (sameArena_putaddr _ _)) rfl fun x hx =>
    clearLinks_apply_of_notMem h (by omega)

/-! ## Neighbours of a hole -/

lemma NoAdj.insert (hpre : NoAdj pre) (hpost : NoAdj post)
    (hl : ∀ p ∈ pre.getLast?, p.alloc = true) (hr : ∀ n ∈ post.head?, n.alloc = true) :
    NoAdj (pre ++ b :: post) := by
  refine List.isChain_append.2 ⟨hpre, List.isChain_cons.2 ⟨fun n hn => .inr (hr n hn), hpost⟩,
    fun p hp n hn => .inl (hl p hp)⟩

/-- The block in front of a free block is allocated. -/
lemma NoAdj.last_alloc (hn : NoAdj (pre ++ [b])) (hb : b.alloc = false) :
    ∀ p ∈ pre.getLast?, p.alloc = true := by
  intro p hp
  have := (List.isChain_append.1 hn).2.2 p hp b (by simp)
  simpa [hb] using this

/-- The block behind a free block is allocated. -/
lemma NoAdj.head_alloc (hn : NoAdj (b :: post)) (hb : b.alloc = false) :
    ∀ n ∈ post.head?, n.alloc = true := by
  intro n hn'
  have := (List.isChain_cons.1 hn).1 n hn'
  simpa [hb] using this

/-- What `coalesce` finds in front of a hole: the prologue or an allocated block, or a free
block. -/
lemma Hole.prev_cases (w : Hole h pre lo hi post) :
    (h.getAlloc (h.ftrp (h.prevBlkp lo)) ≠ 0 ∧ ∀ p ∈ pre.getLast?, p.alloc = true) ∨
      (h.getAlloc (h.ftrp (h.prevBlkp lo)) = 0 ∧
        ∃ xs p, pre = xs ++ [p] ∧ p.alloc = false) := by
  rcases List.eq_nil_or_concat pre with rfl | ⟨xs, p, rfl⟩
  · obtain ⟨h1, h2, h3⟩ := w.prologue
    left
    simp [h1, h2, h3]
  · rw [List.concat_eq_append] at *
    obtain ⟨ht, rfl⟩ := w.tagged_last
    rw [ht.prevBlkp, ht.ftrp, ht.getAlloc_footer]
    cases hp : p.alloc <;> simp [hp]

/-- What `coalesce` finds behind a hole. -/
lemma Hole.next_cases (w : Hole h pre lo hi post) :
    (h.getAlloc (hdrp hi) ≠ 0 ∧ ∀ n ∈ post.head?, n.alloc = true) ∨
      (h.getAlloc (hdrp hi) = 0 ∧ ∃ n ys, post = n :: ys ∧ n.alloc = false) := by
  cases post with
  | nil => simp [w.epilogue]
  | cons n ys =>
    obtain ⟨ht, rfl⟩ := w.tagged_head
    rw [ht.getAlloc]
    cases hn : n.alloc <;> simp [hn]

/-! ## `coalesce` -/

/-- The heap that a call leaves realises a layout in which the free block `b` has become part of
a free block, joined with its free neighbours. -/
structure Coalesced (h : Heap) (pre : List Block) (b : Block) (post : List Block)
    (r : ℕ × Heap) (xs : List Block) (c : Block) (ys : List Block) : Prop where
  layout : joinFree (pre ++ b :: post) = xs ++ c :: ys
  ptr : r.1 = c.addr
  free : c.alloc = false
  addr_le : c.addr ≤ b.addr
  next_le : b.next ≤ c.next
  wellFormed : WellFormed r.2 (xs ++ c :: ys)
  arena : SameArena h r.2
  keeps : KeepsPayloads (pre ++ post) h r.2

/-- The end of all four cases: the joined block is inserted into its list. -/
lemma Window.insertJoined (w : Window h pre b.addr b.next post) (ht : Tagged h.mem b)
    (hb : b.alloc = false) (hpre : NoAdj pre) (hpost : NoAdj post)
    (hl : ∀ p ∈ pre.getLast?, p.alloc = true) (hr : ∀ n ∈ post.head?, n.alloc = true) :
    WellFormed (h.insertBlock b.addr) (pre ++ b :: post) ∧
      joinFree (pre ++ b :: post) = pre ++ b :: post ∧
      KeepsPayloads (pre ++ post) h (h.insertBlock b.addr) := by
  have hn : NoAdj (pre ++ b :: post) := hpre.insert hpost hl hr
  refine ⟨?_, joinFree_of_noAdj hn, w.insert_keeps le_rfl le_rfl ht.getSize⟩
  have hw := w.addFree hb ht le_rfl
  have := hw.wellFormed (by simpa using hn)
  simpa using this

/-- A block of a hole is still tagged once another block of it has been removed from its list. -/
lemma Tagged.of_agree {c : Block} (ht : Tagged h.mem b) (hb : lo ≤ b.addr) (hb' : b.next ≤ hi)
    (h4 : 4 ≤ lo) (hc : b = c ∨ b.next ≤ c.addr ∨ c.next ≤ b.addr)
    (hm : ∀ x, lo - 4 ≤ x → x < hi - 4 → (x < c.addr ∨ c.addr + 16 ≤ x) →
      h'.mem x = h.mem x) : Tagged h'.mem b := by
  have h1 := b.addr_add_le
  have h2 := c.addr_add_le
  refine ht.congr (by omega) fun x hx => ?_
  unfold Block.Meta at hx
  refine hm x (by omega) (by omega) ?_
  rcases hc with rfl | hc
  · omega
  · omega

/-- What `coalesce` does between allocated neighbours. -/
lemma coalesce_alone_eq (ht : Tagged h.mem b)
    (hprev : h.getAlloc (h.ftrp (h.prevBlkp b.addr)) ≠ 0)
    (hnext : h.getAlloc (hdrp b.next) ≠ 0) :
    h.coalesce b.addr = (b.addr, h.insertBlock b.addr) := by
  simp only [coalesce, ht.nextBlkp]
  rw [if_pos ⟨hprev, hnext⟩]

/-- `coalesce` between allocated neighbours. -/
lemma coalesce_alone (w : Window h pre b.addr b.next post) (ht : Tagged h.mem b)
    (hb : b.alloc = false) (hpre : NoAdj pre) (hpost : NoAdj post)
    (hprev : h.getAlloc (h.ftrp (h.prevBlkp b.addr)) ≠ 0)
    (hl : ∀ p ∈ pre.getLast?, p.alloc = true)
    (hnext : h.getAlloc (hdrp b.next) ≠ 0) (hr : ∀ n ∈ post.head?, n.alloc = true) :
    Coalesced h pre b post (h.coalesce b.addr) pre b post := by
  obtain ⟨hwf, hj, hk⟩ := w.insertJoined ht hb hpre hpost hl hr
  rw [coalesce_alone_eq ht hprev hnext]
  exact ⟨hj, rfl, hb, le_rfl, le_rfl, hwf, sameArena_insertBlock _ _, hk⟩

/-- `coalesce` with the next block. -/
lemma coalesce_next {n : Block} (w : Window h pre b.addr b.next (n :: post))
    (ht : Tagged h.mem b) (hb : b.alloc = false) (hpre : NoAdj pre)
    (hprev : h.getAlloc (h.ftrp (h.prevBlkp b.addr)) ≠ 0)
    (hl : ∀ p ∈ pre.getLast?, p.alloc = true) (hpost : NoAdj (n :: post))
    (hnext : h.getAlloc (hdrp b.next) = 0) (hn : n.alloc = false) :
    Coalesced h pre b (n :: post) (h.coalesce b.addr) pre (b.join n) post := by
  have hbounds := w.bounds
  obtain ⟨htn, hna⟩ := w.tagged_head
  have hnn := n.addr_add_le
  have hbb := b.addr_add_le
  have hjn : (b.join n).next = n.next := by
    simp only [Block.next, Block.join_addr, Block.join_size] at *
    omega
  -- the next block leaves its list, and its bytes become part of the hole
  set h1 := h.removeBlock n.addr with hh1
  have w1 : Window h1 pre b.addr n.next post := w.removeRight hn
  have hm1 : ∀ x, b.addr - 4 ≤ x → x < n.next - 4 → (x < n.addr ∨ n.addr + 16 ≤ x) →
      h1.mem x = h.mem x := fun x h₁ h₂ hx => w.removeRight_mem hn (.inl ⟨h₁, h₂⟩) hx
  have t1 : Tagged h1.mem b := ht.of_agree le_rfl (by omega) (by omega) (by omega) hm1
  have tn1 : Tagged h1.mem n := htn.of_agree (by omega) le_rfl (by omega) (.inl rfl) hm1
  have k1 : KeepsPayloads (pre ++ post) h h1 := w.removeRight_keeps hn
  obtain ⟨w2, t2, k2, -⟩ := w1.putTags (b := b.join n) le_rfl hjn.le
  rw [Block.join_addr, Block.join_size, Block.join_alloc] at w2 t2 k2
  set h2 := h1.putTags b.addr (b.size + n.size) false.toNat with hh2
  obtain ⟨hwf, hj, hk⟩ := Window.insertJoined (b := b.join n) (hjn ▸ w2) t2 rfl hpre
    (List.IsChain.of_cons hpost) hl (hpost.head_alloc hn)
  have hc : h.coalesce b.addr = (b.addr, h2.insertBlock b.addr) := by
    simp only [coalesce, ht.nextBlkp, ht.getSize]
    rw [if_neg (by tauto), if_pos ⟨hprev, hnext⟩, ← hna, ← hh1, t1.nextBlkp, ← hna, tn1.getSize]
    rfl
  rw [hc]
  refine ⟨?_, rfl, rfl, le_rfl, by omega, hwf, ?_, ?_⟩
  · rw [joinFree_join hb hn, hj]
  · exact ((sameArena_removeBlock _ _).trans (sameArena_putTags ..)).trans
      (sameArena_insertBlock _ _)
  · refine ((k1.trans k2).trans hk).mono fun c hc ha => ?_
    have : c ≠ n := by rintro rfl; simp [hn] at ha
    simp only [List.mem_append, List.mem_cons] at hc ⊢
    tauto

/-- Writing the footer and then the header of a block of the hole, each at an address of its
own. -/
lemma Window.putFooterHeader (w : Window h pre lo hi post) (hlo : lo ≤ b.addr)
    (hhi : b.next ≤ hi) (hb : b.alloc = false) {f g : ℕ} (hf : f = b.next - 8)
    (hg : g = b.addr - 4) :
    Window ((h.put f (pack b.size 0)).put g (pack b.size 0)) pre lo hi post ∧
      Tagged ((h.put f (pack b.size 0)).put g (pack b.size 0)).mem b ∧
      Window ((h.put g (pack b.size 0)).put f (pack b.size 0)) pre lo hi post ∧
      Tagged ((h.put g (pack b.size 0)).put f (pack b.size 0)).mem b := by
  have hw := w.bounds
  have := b.addr_add_le
  have hlt : b.size < 2 ^ 31 := by simp only [Block.next] at *; omega
  have htag : pack b.size 0 = b.tag := by rw [Block.tag, hb]; rfl
  subst hf hg
  rw [htag]
  refine ⟨(w.put (by omega) (by omega)).put (by omega) (by omega), ⟨?_, ?_⟩,
    (w.put (by omega) (by omega)).put (by omega) (by omega), ⟨?_, ?_⟩⟩
  · exact load_store_same (Block.tag_lt hlt)
  · rw [put_mem, load_store_of_disjoint (by omega)]
    exact load_store_same (Block.tag_lt hlt)
  · rw [put_mem, load_store_of_disjoint (by omega)]
    exact load_store_same (Block.tag_lt hlt)
  · exact load_store_same (Block.tag_lt hlt)

/-- What `coalesce` does with a free block in front of the hole. -/
lemma coalesce_prev_eq {p : Block} (w : Window h (pre ++ [p]) b.addr b.next post)
    (ht : Tagged h.mem b) (hprev : h.getAlloc (h.ftrp (h.prevBlkp b.addr)) = 0)
    (hp : p.alloc = false) (hnext : h.getAlloc (hdrp b.next) ≠ 0) :
    h.coalesce b.addr = (p.addr, (((h.removeBlock p.addr).put (b.next - 8)
      (pack (p.size + b.size) 0)).put (p.addr - 4) (pack (p.size + b.size) 0)).insertBlock
        p.addr) := by
  have hbounds := w.drop_last.bounds
  obtain ⟨htp, hpb⟩ := w.tagged_last
  have hpp := p.addr_add_le
  have hbb := b.addr_add_le
  set h1 := h.removeBlock p.addr with hh1
  have hm1 : ∀ x, p.addr - 4 ≤ x → x < b.next - 4 → (x < p.addr ∨ p.addr + 16 ≤ x) →
      h1.mem x = h.mem x := fun x h₁ h₂ hx => w.removeLeft_mem hp (.inl ⟨h₁, h₂⟩) hx
  have t1 : Tagged h1.mem b := ht.of_agree (by omega) le_rfl (by omega) (by omega) hm1
  have tp1 : Tagged h1.mem p := htp.of_agree le_rfl (by omega) (by omega) (.inl rfl) hm1
  have hprev1 : h1.prevBlkp b.addr = p.addr := by rw [← hpb, tp1.prevBlkp]
  set h2 := (h1.put (b.next - 8) (pack (p.size + b.size) 0)).put (p.addr - 4)
    (pack (p.size + b.size) 0) with hh2
  have hprev0 : h.prevBlkp b.addr = p.addr := by rw [← hpb, htp.prevBlkp]
  have hprev2 : h2.prevBlkp b.addr = p.addr := by
    rw [hh2, prevBlkp_put_of_disjoint _ (by omega), prevBlkp_put_of_disjoint _ (by omega),
      hprev1]
  have hprev1' (v : ℕ) : (h1.put (b.next - 8) v).prevBlkp b.addr = p.addr := by
    rw [prevBlkp_put_of_disjoint _ (by omega), hprev1]
  simp only [coalesce, ht.nextBlkp, ht.getSize]
  rw [if_neg (by tauto), if_neg (by tauto), if_pos ⟨hprev, hnext⟩, hprev0, ← hh1, hprev1,
    tp1.getSize, t1.ftrp, hprev1', hdrp, wsize, Nat.add_comm b.size, ← hh2, hprev2]

/-- `coalesce` with the previous block. -/
lemma coalesce_prev {p : Block} (w : Window h (pre ++ [p]) b.addr b.next post)
    (ht : Tagged h.mem b) (hb : b.alloc = false) (hpre : NoAdj (pre ++ [p]))
    (hprev : h.getAlloc (h.ftrp (h.prevBlkp b.addr)) = 0) (hp : p.alloc = false)
    (hpost : NoAdj post) (hnext : h.getAlloc (hdrp b.next) ≠ 0)
    (hr : ∀ n ∈ post.head?, n.alloc = true) :
    Coalesced h (pre ++ [p]) b post (h.coalesce b.addr) pre (p.join b) post := by
  have hbounds := w.drop_last.bounds
  obtain ⟨-, hpb⟩ := w.tagged_last
  have hpp := p.addr_add_le
  have hbb := b.addr_add_le
  have hjn : (p.join b).next = b.next := by
    simp only [Block.next, Block.join_addr, Block.join_size] at *
    omega
  -- the previous block leaves its list, and its bytes become part of the hole
  set h1 := h.removeBlock p.addr with hh1
  have w1 : Window h1 pre p.addr b.next post := w.removeLeft hp
  have k1 : KeepsPayloads (pre ++ post) h h1 := w.removeLeft_keeps hp
  obtain ⟨w2, t2, -⟩ := w1.putFooterHeader (b := p.join b) le_rfl hjn.le rfl rfl rfl
  simp only [Block.join_addr, Block.join_size, hjn] at w2 t2
  set h2 := (h1.put (b.next - 8) (pack (p.size + b.size) 0)).put (p.addr - 4)
    (pack (p.size + b.size) 0) with hh2
  have k2 : KeepsPayloads (pre ++ post) h1 h2 := w1.keeps_of_agree fun x hx => by
    rw [hh2, put_mem, store_apply_of_notMem (by omega), put_mem,
      store_apply_of_notMem (by omega)]
  obtain ⟨hwf, hj, hk⟩ := Window.insertJoined (b := p.join b) (hjn ▸ w2) t2 rfl
    (List.isChain_append.1 hpre).1 hpost (hpre.last_alloc hp) hr
  have hc : h.coalesce b.addr = (p.addr, h2.insertBlock p.addr) :=
    coalesce_prev_eq w ht hprev hp hnext
  rw [hc]
  refine ⟨?_, rfl, rfl, ?_, hjn.ge, hwf, ?_, ?_⟩
  · rw [List.append_assoc, List.singleton_append, joinFree_join hp hb, hj]
  · rw [Block.join_addr]; omega
  · exact (((sameArena_removeBlock _ _).trans (sameArena_put _ _)).trans
      (sameArena_put _ _)).trans (sameArena_insertBlock _ _)
  · refine ((k1.trans k2).trans hk).mono fun c hc ha => ?_
    have : c ≠ p := by rintro rfl; simp [hp] at ha
    simp only [List.mem_append, List.mem_cons] at hc ⊢
    tauto

/-- `coalesce` with both neighbours. -/
lemma coalesce_both {p n : Block} (w : Window h (pre ++ [p]) b.addr b.next (n :: post))
    (ht : Tagged h.mem b) (hb : b.alloc = false) (hpre : NoAdj (pre ++ [p]))
    (hprev : h.getAlloc (h.ftrp (h.prevBlkp b.addr)) = 0) (hp : p.alloc = false)
    (hpost : NoAdj (n :: post)) (hnext : h.getAlloc (hdrp b.next) = 0) (hn : n.alloc = false) :
    Coalesced h (pre ++ [p]) b (n :: post) (h.coalesce b.addr) pre ((p.join b).join n) post := by
  have hbounds := w.drop_last.bounds
  have hbounds' := w.drop.bounds
  obtain ⟨htp, hpb⟩ := w.tagged_last
  obtain ⟨htn, hna⟩ := w.tagged_head
  have hpp := p.addr_add_le
  have hbb := b.addr_add_le
  have hnn := n.addr_add_le
  have hjn : ((p.join b).join n).next = n.next := by
    simp only [Block.next, Block.join_addr, Block.join_size] at *
    omega
  -- first the previous and then the next block leaves its list
  set h1 := h.removeBlock p.addr with hh1
  have w1 : Window h1 pre p.addr b.next (n :: post) := w.removeLeft hp
  have hm1 : ∀ x, p.addr - 4 ≤ x → x < b.next - 4 → (x < p.addr ∨ p.addr + 16 ≤ x) →
      h1.mem x = h.mem x := fun x h₁ h₂ hx => w.removeLeft_mem hp (.inl ⟨h₁, h₂⟩) hx
  have t1 : Tagged h1.mem b := ht.of_agree (by omega) le_rfl (by omega) (by omega) hm1
  have tp1 : Tagged h1.mem p := htp.of_agree le_rfl (by omega) (by omega) (.inl rfl) hm1
  have k1 : KeepsPayloads (pre ++ (n :: post)) h h1 := w.removeLeft_keeps hp
  set h2 := h1.removeBlock n.addr with hh2
  have w2 : Window h2 pre p.addr n.next post := w1.removeRight hn
  have hm2 : ∀ x, p.addr - 4 ≤ x → x < n.next - 4 → (x < n.addr ∨ n.addr + 16 ≤ x) →
      h2.mem x = h1.mem x := fun x h₁ h₂ hx => w1.removeRight_mem hn (.inl ⟨h₁, h₂⟩) hx
  have t2 : Tagged h2.mem b := t1.of_agree (by omega) (by omega) (by omega) (by omega) hm2
  have tp2 : Tagged h2.mem p := tp1.of_agree le_rfl (by omega) (by omega) (by omega) hm2
  have tn2 : Tagged h2.mem n :=
    w1.tagged_head.1.of_agree (by omega) le_rfl (by omega) (.inl rfl) hm2
  have k2 : KeepsPayloads (pre ++ post) h1 h2 := w1.removeRight_keeps hn
  have hprev2 : h2.prevBlkp b.addr = p.addr := by rw [← hpb, tp2.prevBlkp]
  obtain ⟨-, -, w3, t3⟩ :=
    w2.putFooterHeader (b := (p.join b).join n) le_rfl hjn.le rfl rfl rfl
  simp only [Block.join_addr, Block.join_size, hjn] at w3 t3
  set v := pack (p.size + b.size + n.size) 0 with hv
  set h3 := (h2.put (p.addr - 4) v).put (n.next - 8) v with hh3
  have k3 : KeepsPayloads (pre ++ post) h2 h3 := w2.keeps_of_agree fun x hx => by
    rw [hh3, put_mem, store_apply_of_notMem (by omega), put_mem,
      store_apply_of_notMem (by omega)]
  obtain ⟨hwf, hj, hk⟩ := Window.insertJoined (b := (p.join b).join n) (hjn ▸ w3) t3 rfl
    (List.isChain_append.1 hpre).1 (List.IsChain.of_cons hpost) (hpre.last_alloc hp)
    (hpost.head_alloc hn)
  have hc : h.coalesce b.addr = (p.addr, h3.insertBlock p.addr) := by
    have hprev0 : h.prevBlkp b.addr = p.addr := by rw [← hpb, htp.prevBlkp]
    have hprev3 : h3.prevBlkp b.addr = p.addr := by
      rw [hh3, prevBlkp_put_of_disjoint _ (by omega), prevBlkp_put_of_disjoint _ (by omega),
        hprev2]
    have hsize : b.size + (p.size + n.size) % 2 ^ 32 = p.size + b.size + n.size := by
      simp only [Block.next] at *
      omega
    have hnext3 : (h2.put (p.addr - 4) v).nextBlkp b.addr = n.addr := by
      rw [nextBlkp, wsize, getSize_put_of_disjoint _ (by omega), ← wsize, ← hdrp, t2.getSize,
        hna, Block.next]
    have hftr3 : (h2.put (p.addr - 4) v).ftrp n.addr = n.next - 8 := by
      rw [ftrp, hdrp, wsize, getSize_put_of_disjoint _ (by omega), ← wsize, ← hdrp, tn2.getSize,
        dsize, Block.next]
    simp only [coalesce, ht.nextBlkp, ht.getSize]
    rw [if_neg (by tauto), if_neg (by tauto), if_neg (by tauto), hprev0, ← hh1, t1.nextBlkp,
      ← hna, ← hh2, hprev2, t2.nextBlkp, ← hna, tn2.ftrp, tp2.getSize, tn2.getSize_footer, hsize,
      ← hv, hdrp, wsize, hnext3, hftr3, ← hh3, hprev3]
  rw [hc]
  refine ⟨?_, rfl, rfl, ?_, ?_, hwf, ?_, ?_⟩
  · rw [List.append_assoc, List.singleton_append, joinFree_join hp hb, joinFree_join rfl hn, hj]
  · simp only [Block.join_addr]; omega
  · omega
  · exact (((((sameArena_removeBlock _ _).trans (sameArena_removeBlock _ _)).trans
      (sameArena_put _ _)).trans (sameArena_put _ _))).trans (sameArena_insertBlock _ _)
  · have hsub : ∀ c ∈ pre ++ [p] ++ n :: post, c.alloc = true → c ∈ pre ++ post := by
      intro c hc ha
      have : c ≠ n := by rintro rfl; simp [hn] at ha
      have : c ≠ p := by rintro rfl; simp [hp] at ha
      simp only [List.mem_append, List.mem_cons] at hc ⊢
      tauto
    refine KeepsPayloads.mono (KeepsPayloads.trans (k1.mono fun c hc _ => ?_)
      ((k2.trans k3).trans hk)) hsub
    simp only [List.mem_append, List.mem_cons] at hc ⊢
    tauto

/-- **`coalesce` realises the joined layout.** The block, tagged free and in no list, ends up in
one free block together with its free neighbours, and that block is in the list of its class. -/
theorem coalesce_spec (w : Window h pre b.addr b.next post) (ht : Tagged h.mem b)
    (hb : b.alloc = false) (hpre : NoAdj pre) (hpost : NoAdj post) :
    ∃ xs c ys, Coalesced h pre b post (h.coalesce b.addr) xs c ys := by
  rcases w.prev_cases with ⟨hprev, hl⟩ | ⟨hprev, pre', p, rfl, hp⟩ <;>
    rcases w.next_cases with ⟨hnext, hr⟩ | ⟨hnext, n, post', rfl, hn⟩
  · exact ⟨_, _, _, coalesce_alone w ht hb hpre hpost hprev hl hnext hr⟩
  · exact ⟨_, _, _, coalesce_next w ht hb hpre hprev hl hpost hnext hn⟩
  · exact ⟨_, _, _, coalesce_prev w ht hb hpre hprev hp hpost hnext hr⟩
  · exact ⟨_, _, _, coalesce_both w ht hb hpre hprev hp hpost hnext hn⟩

end Malloc
