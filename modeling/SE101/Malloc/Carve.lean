import SE101.Malloc.Allocate

set_option relaxedAutoImplicit false
set_option autoImplicit false

/-!
# Blocks cut out of blocks of any kind

The branches of `mm_malloc` for 112, 448 and 4092 bytes cut up a block without a look at its
allocated bit. `remove_block` then reads two addresses that the client has written, and the second
one can become the head of a list. What the branches write last are pointers, in the rest of the
block and in the head of the list that gets the rest; so the header of the block returned says the
size that was asked for unless that head is an address just in front of it.

## Main definitions

* `Malloc.HeadOff` — no pointer of the head of a list lies in a header.
* `Malloc.Strikes`, `Malloc.StruckAt` — the words of a block make a head whose pointer lies in a
  header.

## Main results

* `Malloc.headOff_removeBlock` — the heads of the lists after `remove_block`.
* `Malloc.place_getSize`, `Malloc.splitThree_getSize` — the header of the block returned.
-/

namespace Malloc

open LittleEndian Heap

variable {h : Heap} {b : Block} {fs pre post : List Block} {i q bp rest csize first asize : ℕ}

/-! ## Heads of lists -/

/-- The pointer in front of the head of list `i` lies in no header of a block at `q`. -/
def HeadOff (h : Heap) (i q : ℕ) : Prop := h.freeListp i + 12 ≤ q ∨ q ≤ h.freeListp i

/-- The words that `remove_block` reads as the pointers of `b` are `NULL` and an address so little
in front of `q` that its pointer lies in the header of a block at `q`. -/
def Strikes (h : Heap) (b : Block) (q : ℕ) : Prop :=
  h.prevFblkp b.addr = 0 ∧ h.nextFblkp b.addr < q ∧ q < h.nextFblkp b.addr + 12

/-- The words of `b`, if it is allocated, make a head whose pointer lies in its own header or in
the one `first` bytes behind. -/
def StruckAt (h : Heap) (b : Block) (first : ℕ) : Prop :=
  b.alloc = true ∧ (Strikes h b b.addr ∨ Strikes h b (b.addr + first))

/-- The words of an allocated block are its client's. -/
lemma KeepsPayloads.strikes_iff {h' : Heap} {bs : List Block} (hk : KeepsPayloads bs h h')
    (hb : b ∈ bs) (ha : b.alloc = true) : Strikes h' b q ↔ Strikes h b q := by
  have h24 := b.addr_add_le
  have hload (p : ℕ) (hp : b.addr ≤ p) (hp' : p + 8 ≤ b.addr + 16) :
      load h'.mem p 8 = load h.mem p 8 :=
    load_congr fun i hi => hk b hb ha _ (by unfold Block.Payload; omega)
  have hprev : h'.prevFblkp b.addr = h.prevFblkp b.addr := hload b.addr le_rfl (by omega)
  have hnext : h'.nextFblkp b.addr = h.nextFblkp b.addr :=
    hload (b.addr + 8) (by omega) le_rfl
  rw [Strikes, Strikes, hprev, hnext]

/-- The smallest blocks have a list of their own, and so have sizes that are negative. -/
lemma getBlockIndex_eq_zero_iff (s : ℤ) : getBlockIndex s = 0 ↔ s ≤ 40 := by
  have hite {c : Prop} [Decidable c] {a b : ℕ} (ha : a ≠ 0) (hb : b ≠ 0) :
      (if c then a else b) ≠ 0 := by split_ifs <;> assumption
  by_cases hs : s ≤ 40
  · exact iff_of_true (if_pos hs) hs
  · refine iff_of_false ?_ hs
    rw [getBlockIndex, if_neg hs]
    repeat refine hite (by decide) ?_
    decide

/-- What is left of a block that is too small is negative as an `int`, and so goes to the list of
the smallest blocks. -/
lemma getBlockIndex_rest (hlt : csize < asize + first) (hle : asize + first ≤ csize + 2 ^ 31)
    (hsum : asize + first < 2 ^ 32) :
    getBlockIndex (toInt32 (sub64 (sub64 csize asize) first % 2 ^ 32)) = 0 := by
  have hv : sub64 (sub64 csize asize) first % 2 ^ 32 = 2 ^ 32 + csize - (asize + first) := by
    unfold sub64
    omega
  rw [getBlockIndex_eq_zero_iff, hv, toInt32, BitVec.toInt_eq_toNat_cond, BitVec.toNat_ofNat]
  split_ifs <;> omega

/-- The heads of the lists are free blocks. -/
lemma FreeLists.headOff (hl : FreeLists h fs) (hi : i < listNum) (hq : 12 ≤ q)
    (hfs : ∀ c ∈ fs, getBlockIndex c.size = i → c.addr + 12 ≤ q ∨ q ≤ c.addr) : HeadOff h i q := by
  obtain ⟨L, hl⟩ := hl
  rw [HeadOff, hl.head i hi]
  cases hL : L i with
  | nil => exact .inl hq
  | cons x xs =>
    obtain ⟨c, hc, rfl, hci⟩ := hl.exists_block hi (x := x) (by simp [hL])
    exact hfs c hc hci

/-- `remove_block` makes the next block the head when there is none in front. -/
lemma removeBlock_freeListp (hbp : bp ≠ 0) : (h.removeBlock bp).freeListp =
    if h.prevFblkp bp = 0 then
      Function.update h.freeListp (getBlockIndex (toInt32 (h.getSize (hdrp bp)))) (h.nextFblkp bp)
    else h.freeListp := by
  simp only [removeBlock, if_neg hbp]
  rw [putaddr_freeListp, putaddr_freeListp]
  by_cases hp : h.prevFblkp bp = 0 <;> by_cases hn : h.nextFblkp bp = 0
  · rw [if_pos ⟨hp, hn⟩, if_pos hp, hn, setFreeListp_freeListp]
  · rw [if_neg (by tauto), if_pos ⟨hp, hn⟩, if_pos hp, setFreeListp_freeListp, putaddr_freeListp]
  · rw [if_neg (by tauto), if_neg (by tauto), if_pos ⟨hp, hn⟩, if_neg hp, putaddr_freeListp]
  · rw [if_neg (by tauto), if_neg (by tauto), if_neg (by tauto), if_neg hp, putaddr_freeListp,
      putaddr_freeListp]

/-- `insert_block` makes the block the head of a list. -/
lemma insertBlock_freeListp (hbp : bp ≠ 0) : (h.insertBlock bp).freeListp =
    Function.update h.freeListp (getBlockIndex (toInt32 (h.getSize (hdrp bp)))) bp := by
  rw [insertBlock, if_neg hbp]
  dsimp only
  generalize getBlockIndex (toInt32 (h.getSize (hdrp bp))) = k
  split_ifs <;> rfl

/-- **The heads of the lists after `remove_block`.** They are free blocks, and the address that
was read from the block if that was allocated. -/
theorem headOff_removeBlock (w : WellFormed h (pre ++ b :: post)) (hi : i < listNum) (hq : 12 ≤ q)
    (hfree : ∀ c ∈ pre ++ post, c.alloc = false → getBlockIndex c.size = i →
      c.addr + 12 ≤ q ∨ q ≤ c.addr)
    (hs : b.alloc = true → ¬ Strikes h b q) : HeadOff (h.removeBlock b.addr) i q := by
  have hpos : b.addr ≠ 0 := (w.placed.pos b (by simp)).ne'
  have hfs : ∀ c ∈ freeBlocks pre ++ freeBlocks post, getBlockIndex c.size = i →
      c.addr + 12 ≤ q ∨ q ≤ c.addr := by
    intro c hc
    rw [← freeBlocks_append, mem_freeBlocks] at hc
    exact hfree c hc.1 hc.2
  have hl := w.lists
  have hp := w.placed.sublist freeBlocks_sublist
  rw [freeBlocks_append] at hl hp
  cases hb : b.alloc with
  | false =>
    rw [freeBlocks_cons_of_free hb] at hl hp
    exact (freeLists_removeBlock hl hp (w.tagged b (by simp)).getSize).headOff hi hq hfs
  | true =>
    rw [freeBlocks_cons_of_alloc hb] at hl
    have hh := hl.headOff hi hq hfs
    rw [HeadOff, removeBlock_freeListp hpos]
    split_ifs with h0
    · rw [Function.update_apply]
      split_ifs
      · have hno := hs hb
        unfold Strikes at hno
        omega
      · exact hh
    · exact hh

/-! ## The header of the block returned -/

/-- `insert_block` writes two pointers into the block and one into the head of its list. -/
lemma insertBlock_getSize (hbp : bp ≠ 0) (hq : 4 ≤ q) (hd : q ≤ bp ∨ bp + 20 ≤ q)
    (hoff : HeadOff h (getBlockIndex (toInt32 (h.getSize (hdrp bp)))) q) :
    (h.insertBlock bp).getSize (hdrp q) = h.getSize (hdrp q) := by
  unfold HeadOff at hoff
  have hd' : hdrp q = q - 4 := rfl
  rw [insertBlock, if_neg hbp]
  dsimp only
  generalize getBlockIndex (toInt32 (h.getSize (hdrp bp))) = k at hoff ⊢
  rw [getSize, getSize, hd', Heap.get, Heap.get]
  split_ifs
  · rw [setFreeListp_mem, putaddr_mem, putaddr_mem, succ, Malloc.pred, dsize,
      load_store_of_disjoint (by omega), load_store_of_disjoint (by omega)]
  · rw [setFreeListp_mem, putaddr_mem, putaddr_mem, putaddr_mem, succ, Malloc.pred, Malloc.pred,
      dsize, load_store_of_disjoint (by omega), load_store_of_disjoint (by omega),
      load_store_of_disjoint (by omega)]

/-- The tags of the rest, whose size may have wrapped. -/
lemma putTags_rest (h : Heap) (bp : ℕ) (h8 : 8 ∣ rest) (hbp : 8 ≤ bp) :
    (h.putTags bp rest 0).getSize (hdrp bp) = rest % 2 ^ 32 ∧
      ∀ q, 4 ≤ q → q + 4 ≤ bp - 4 → q ≤ bp + rest % 2 ^ 32 - 8 →
        (h.putTags bp rest 0).getSize (hdrp q) = h.getSize (hdrp q) := by
  have hp : pack rest 0 = rest := Nat.or_zero rest
  have hs : (h.put (hdrp bp) rest).getSize (hdrp bp) = rest % 2 ^ 32 := by
    rw [getSize, Heap.get, put_mem, load_store_self]
    norm_num
    omega
  have he : h.putTags bp rest 0 =
      (h.put (hdrp bp) rest).put (bp + rest % 2 ^ 32 - 8) rest := by
    rw [putTags, hp, ftrp, hs, dsize]
  rw [he]
  refine ⟨?_, fun q hq hqb hqr => ?_⟩
  · rw [getSize_put_of_disjoint _ (by rw [hdrp, wsize]; omega), hs]
  · rw [getSize_put_of_disjoint _ (by rw [hdrp, wsize]; omega),
      getSize_put_of_disjoint _ (by rw [hdrp, hdrp, wsize]; omega)]

/-- The end of both ways to cut: the block at `q` gets its tags, and the rest behind it gets its
own and becomes the head of a list. -/
lemma cut_getSize (hq : 12 ≤ q) (h24 : 24 ≤ asize) (h8 : 8 ∣ asize) (hlt : asize < 2 ^ 31)
    (hr8 : 8 ∣ rest) (hoff : HeadOff h (getBlockIndex (toInt32 (rest % 2 ^ 32))) q) :
    (h.putTags q asize 1).nextBlkp q = q + asize ∧
      (((h.putTags q asize 1).putTags (q + asize) rest 0).insertBlock (q + asize)).getSize
        (hdrp q) = asize := by
  let a : Block := ⟨q, asize, true, h24, h8⟩
  have ht : Tagged (h.putTags q asize 1).mem a :=
    tagged_putTags (b := a) h (by simp only [a]; omega) hlt
  obtain ⟨hs, hq'⟩ := putTags_rest (h.putTags q asize 1) (q + asize) hr8 (by omega)
  refine ⟨ht.nextBlkp, ?_⟩
  rw [insertBlock_getSize (by omega) (by omega) (.inl (by omega)),
    hq' q (by omega) (by omega) (by omega)]
  · exact ht.getSize
  · rw [hs]
    simpa only [HeadOff, putTags_freeListp] using hoff

/-- **The header that `place` leaves** on a block of any kind. -/
theorem place_getSize (hb : 12 ≤ bp) (hs : h.getSize (hdrp bp) = csize) (hcs : csize < 2 ^ 31)
    (hc24 : 24 ≤ csize) (hc8 : 8 ∣ csize) (h24 : 24 ≤ asize) (h8 : 8 ∣ asize)
    (hlt : asize < 2 ^ 31)
    (hoff : HeadOff (h.removeBlock bp) (getBlockIndex (toInt32 (sub64 csize asize % 2 ^ 32))) bp) :
    (h.place bp asize).getSize (hdrp bp) =
      if 24 ≤ sub64 csize asize then asize else csize := by
  have hr8 : 8 ∣ sub64 csize asize := by
    unfold sub64
    omega
  rw [place, hs]
  by_cases hsplit : 24 ≤ sub64 csize asize
  · obtain ⟨hn, hg⟩ := cut_getSize hb h24 h8 hlt hr8 hoff
    rw [if_pos (by simpa [dsize] using hsplit), if_pos hsplit]
    dsimp only
    rw [hn, hg]
  · let a : Block := ⟨bp, csize, true, hc24, hc8⟩
    rw [if_neg (by simpa [dsize] using hsplit), if_neg hsplit]
    exact (tagged_putTags (b := a) (h.removeBlock bp) (by simp only [a]; omega) hcs).getSize

lemma sameArena_splitThree (h : Heap) (bp first asize : ℕ) :
    SameArena h (h.splitThree bp first asize).2 := by
  rw [splitThree]
  exact (((((sameArena_removeBlock _ _).trans (sameArena_putTags ..)).trans
    (sameArena_insertBlock _ _)).trans (sameArena_putTags ..)).trans
    (sameArena_putTags ..)).trans (sameArena_insertBlock _ _)

/-- **The header that cutting into three leaves** on the middle of a block of any kind. -/
theorem splitThree_getSize (hb : 12 ≤ bp) (hs : h.getSize (hdrp bp) = csize) (hc8 : 8 ∣ csize)
    (hf24 : 24 ≤ first) (hf8 : 8 ∣ first) (hflt : first < 2 ^ 31) (h24 : 24 ≤ asize)
    (h8 : 8 ∣ asize) (hlt : asize < 2 ^ 31)
    (hoff : HeadOff (h.removeBlock bp) (getBlockIndex first) bp)
    (hoff' : HeadOff (h.removeBlock bp)
      (getBlockIndex (toInt32 (sub64 (sub64 csize asize) first % 2 ^ 32))) (bp + first)) :
    (h.splitThree bp first asize).1 = bp + first ∧
      (h.splitThree bp first asize).2.getSize (hdrp (bp + first)) = asize := by
  have hr8 : 8 ∣ sub64 (sub64 csize asize) first := by
    unfold sub64
    omega
  let f : Block := ⟨bp, first, false, hf24, hf8⟩
  set h₁ := (h.removeBlock bp).putTags bp first 0 with hh₁
  have ht : Tagged h₁.mem f :=
    tagged_putTags (b := f) (h.removeBlock bp) (by simp only [f]; omega) hflt
  have hsf : h₁.getSize (hdrp bp) = first := ht.getSize
  have hidx : getBlockIndex (toInt32 (h₁.getSize (hdrp bp))) = getBlockIndex first := by
    rw [hsf, toInt32_of_lt hflt]
  have hnext : (h₁.insertBlock bp).nextBlkp bp = bp + first := by
    rw [nextBlkp, ← hdrp, insertBlock_getSize (by omega) (by omega) (.inl le_rfl), hsf]
    rw [hidx]
    simpa only [HeadOff, hh₁, putTags_freeListp] using hoff
  have hhead : HeadOff (h₁.insertBlock bp)
      (getBlockIndex (toInt32 (sub64 (sub64 csize asize) first % 2 ^ 32))) (bp + first) := by
    rw [HeadOff, insertBlock_freeListp (by omega), Function.update_apply]
    split_ifs
    · exact .inl (by omega)
    · simpa only [HeadOff, hh₁, putTags_freeListp] using hoff'
  obtain ⟨hn, hg⟩ := cut_getSize (by omega) h24 h8 hlt hr8 hhead
  rw [splitThree, hs]
  dsimp only
  rw [← hh₁, hnext, hn]
  exact ⟨rfl, hg⟩

end Malloc
