import Mathlib.Data.List.Nodup
import Mathlib.Tactic.SplitIfs
import SE101.Lib.LinkedList
import SE101.Malloc.Heap
import SE101.Malloc.Layout

set_option relaxedAutoImplicit false
set_option autoImplicit false

/-!
# The segregated free lists

The sixteen lists of a heap hold a given set of free blocks: each list is a null-terminated
doubly linked list, and its nodes are exactly the blocks of its size class, without repetition.
`insert_block` adds a block to the set and `remove_block` takes one out of it; besides the list
heads both change only the pointers inside the blocks of the set.

## Main definitions

* `Malloc.Placed` — blocks that can be nodes: in order, and with addresses and sizes that fit.
* `Malloc.ListsOf`, `Malloc.FreeLists` — the lists of a heap hold exactly these blocks.

## Main results

* `Malloc.freeLists_insertBlock`, `Malloc.freeLists_removeBlock` — the two operations.
* `Malloc.insertBlock_mem`, `Malloc.removeBlock_mem` — what they leave alone.
* `Malloc.scanLists_spec` — a search through the lists ends, and what it finds.
-/

namespace Malloc

open LittleEndian LinkedList Heap

/-! ## Size classes -/

/-- There are sixteen size classes. -/
lemma getBlockIndex_lt (size : ℤ) : getBlockIndex size < listNum := by
  have hite {c : Prop} [Decidable c] {a b : ℕ} (ha : a < listNum) (hb : b < listNum) :
      (if c then a else b) < listNum := by split_ifs <;> assumption
  unfold getBlockIndex
  repeat refine hite (by decide) ?_
  decide

/-- Sizes below `2³¹` are the same as `int`. -/
lemma toInt32_of_lt {v : ℕ} (h : v < 2 ^ 31) : toInt32 v = v := by
  rw [toInt32, BitVec.toInt_eq_toNat_cond, BitVec.toNat_ofNat, Nat.mod_eq_of_lt (by omega),
    if_pos (by omega)]

/-! ## The predicate -/

/-- The blocks can be nodes of free lists. -/
structure Placed (fs : List Block) : Prop where
  /-- They are in order. -/
  sorted : fs.Pairwise fun b b' => b.next ≤ b'.addr
  /-- None is at `NULL`. -/
  pos : ∀ b ∈ fs, 0 < b.addr
  /-- Their addresses are pointers. -/
  lt : ∀ b ∈ fs, b.next < 2 ^ 64
  /-- Their sizes are values of type `int`. -/
  size_lt : ∀ b ∈ fs, b.size < 2 ^ 31

/-- The lists `L` hold exactly the blocks `fs`, each in the list of its size class. -/
structure ListsOf (h : Heap) (fs : List Block) (L : ℕ → List ℕ) : Prop where
  /-- The list heads. -/
  head : ∀ i < listNum, h.freeListp i = (L i).headD 0
  /-- The pointers in the blocks. -/
  linked : ∀ i < listNum, Linked 8 h.mem 0 (L i) 0
  /-- No list has a block twice. -/
  nodup : ∀ i < listNum, (L i).Nodup
  /-- The blocks of the lists. -/
  mem_iff : ∀ i < listNum, ∀ x, x ∈ L i ↔ ∃ b ∈ fs, b.addr = x ∧ getBlockIndex b.size = i

/-- The free lists of `h` hold exactly the blocks `fs`. -/
def FreeLists (h : Heap) (fs : List Block) : Prop := ∃ L, ListsOf h fs L

/-- The byte `z` belongs to no pointer of the blocks `fs`. -/
def OffLinks (fs : List Block) (z : ℕ) : Prop := ∀ f ∈ fs, z < f.addr ∨ f.addr + 16 ≤ z

variable {h h' : Heap} {fs F G : List Block} {b : Block} {L : ℕ → List ℕ} {i z : ℕ}

lemma Placed.sublist (hp : Placed fs) (hs : F.Sublist fs) : Placed F :=
  ⟨hp.sorted.sublist hs, fun b hb => hp.pos b (hs.subset hb), fun b hb => hp.lt b (hs.subset hb),
    fun b hb => hp.size_lt b (hs.subset hb)⟩

/-- Different blocks that can be nodes share no pointer. -/
lemma Placed.apart (hp : Placed fs) {b b' : Block} (hb : b ∈ fs) (hb' : b' ∈ fs)
    (hne : b.addr ≠ b'.addr) : Apart 8 b.addr b'.addr := by
  have h1 := apart_of_sorted hp.sorted hb hb' fun h => hne (h ▸ rfl)
  have := b.addr_add_le
  have := b'.addr_add_le
  unfold Apart
  omega

lemma Placed.addr_lt (hp : Placed fs) (hb : b ∈ fs) : b.addr < 256 ^ 8 := by
  have := hp.lt b hb
  have := b.addr_add_le
  norm_num
  omega

namespace ListsOf

/-- A node of a list is a block. -/
lemma exists_block (hl : ListsOf h fs L) (hi : i < listNum) {x : ℕ} (hx : x ∈ L i) :
    ∃ b ∈ fs, b.addr = x ∧ getBlockIndex b.size = i := (hl.mem_iff i hi x).1 hx

/-- The nodes of a list are apart. -/
lemma pairwise_apart (hl : ListsOf h fs L) (hp : Placed fs) (hi : i < listNum) :
    (L i).Pairwise (Apart 8) := by
  refine (hl.nodup i hi).pairwise_of_forall_ne fun x hx y hy hne => ?_
  obtain ⟨b, hb, rfl, -⟩ := hl.exists_block hi hx
  obtain ⟨c, hc, rfl, -⟩ := hl.exists_block hi hy
  exact hp.apart hb hc hne

lemma pos (hl : ListsOf h fs L) (hp : Placed fs) (hi : i < listNum) : ∀ x ∈ L i, x ≠ 0 := by
  intro x hx
  obtain ⟨b, hb, rfl, -⟩ := hl.exists_block hi hx
  exact (hp.pos b hb).ne'

lemma lt (hl : ListsOf h fs L) (hp : Placed fs) (hi : i < listNum) :
    ∀ x ∈ L i, x < 256 ^ 8 := by
  intro x hx
  obtain ⟨b, hb, rfl, -⟩ := hl.exists_block hi hx
  exact hp.addr_lt hb

/-- The pointers of the blocks are those of the lists. -/
lemma off_of_offLinks (hl : ListsOf h fs L) (hi : i < listNum) (hz : OffLinks fs z) :
    Off 8 (L i) z := by
  intro x hx
  obtain ⟨b, hb, rfl, -⟩ := hl.exists_block hi hx
  exact hz b hb

end ListsOf

/-- Lists depend only on the heads and on the pointers of the blocks. -/
lemma ListsOf.congr (hl : ListsOf h fs L) (hf : h'.freeListp = h.freeListp)
    (hm : ∀ b ∈ fs, ∀ k < 16, h'.mem (b.addr + k) = h.mem (b.addr + k)) : ListsOf h' fs L := by
  refine ⟨fun i hi => by rw [hf, hl.head i hi], fun i hi => ?_, hl.nodup, hl.mem_iff⟩
  refine linked_congr (fun x hx k hk => ?_) (hl.linked i hi)
  obtain ⟨b, hb, rfl, -⟩ := hl.exists_block hi hx
  exact hm b hb k hk

/-- Lists depend only on the heads and on the pointers of the blocks. -/
lemma FreeLists.congr (hl : FreeLists h fs) (hf : h'.freeListp = h.freeListp)
    (hm : ∀ b ∈ fs, ∀ k < 16, h'.mem (b.addr + k) = h.mem (b.addr + k)) : FreeLists h' fs :=
  hl.imp fun _ hl => hl.congr hf hm

/-! ## Insertion -/

lemma sameArena_insertBlock (h : Heap) (bp : ℕ) : SameArena h (h.insertBlock bp) := by
  simp only [insertBlock]
  split_ifs
  · exact .refl h
  · exact ((sameArena_putaddr _ _).trans (sameArena_putaddr _ _)).trans
      (sameArena_setFreeListp _ _)
  · exact (((sameArena_putaddr _ _).trans (sameArena_putaddr _ _)).trans
      (sameArena_putaddr _ _)).trans (sameArena_setFreeListp _ _)

/-- `insert_block` pushes the block onto the list of its class. -/
lemma insertBlock_eq (hb : b.addr ≠ 0) (hs : h.getSize (hdrp b.addr) = b.size)
    (hlt : b.size < 2 ^ 31) :
    (h.insertBlock b.addr).mem =
        push 8 h.mem b.addr (h.freeListp (getBlockIndex b.size)) ∧
      (h.insertBlock b.addr).freeListp =
        Function.update h.freeListp (getBlockIndex b.size) b.addr := by
  rw [insertBlock, if_neg hb]
  simp only [hs, toInt32_of_lt hlt, push, setPrev, pred, succ, dsize]
  split_ifs with hz
  · exact ⟨by rw [hz]; rfl, rfl⟩
  · exact ⟨rfl, rfl⟩

/-- The blocks of a row with one more block in it. -/
lemma exists_mem_insert {P : Block → Prop} :
    (∃ c ∈ F ++ b :: G, P c) ↔ P b ∨ ∃ c ∈ F ++ G, P c := by
  simp only [List.mem_append, List.mem_cons]
  constructor
  · rintro ⟨c, h | rfl | h, hc⟩
    · exact .inr ⟨c, .inl h, hc⟩
    · exact .inl hc
    · exact .inr ⟨c, .inr h, hc⟩
  · rintro (hb | ⟨c, h | h, hc⟩)
    · exact ⟨b, .inr (.inl rfl), hb⟩
    · exact ⟨c, .inl h, hc⟩
    · exact ⟨c, .inr (.inr h), hc⟩

lemma sublist_insert : (F ++ G).Sublist (F ++ b :: G) :=
  (List.Sublist.refl F).append (List.sublist_cons_self b G)

/-- The addresses of other blocks differ. -/
lemma Placed.addr_ne (hp : Placed (F ++ b :: G)) {c : Block} (hc : c ∈ F ++ G) :
    c.addr ≠ b.addr := by
  have hs := List.pairwise_append.1 hp.sorted
  have h1 := b.addr_add_le
  have h2 := c.addr_add_le
  rcases List.mem_append.1 hc with hc | hc
  · have := hs.2.2 c hc b (by simp)
    omega
  · have := List.rel_of_pairwise_cons hs.2.1 hc
    omega

/-- `insert_block` adds a block to those in the lists. -/
lemma freeLists_insertBlock (hl : FreeLists h (F ++ G)) (hp : Placed (F ++ b :: G))
    (hs : h.getSize (hdrp b.addr) = b.size) :
    FreeLists (h.insertBlock b.addr) (F ++ b :: G) := by
  obtain ⟨L, hl⟩ := hl
  have hb : b ∈ F ++ b :: G := by simp
  have hp' : Placed (F ++ G) := hp.sublist sublist_insert
  obtain ⟨hmem, hfree⟩ := insertBlock_eq (hp.pos b hb).ne' hs (hp.size_lt b hb)
  set idx := getBlockIndex b.size with hidx
  have hi : idx < listNum := getBlockIndex_lt _
  have happ : ∀ i < listNum, ∀ x ∈ L i, Apart 8 b.addr x := by
    intro i hi x hx
    obtain ⟨c, hc, rfl, -⟩ := hl.exists_block hi hx
    exact hp.apart hb (sublist_insert.subset hc) (hp.addr_ne hc).symm
  have hnot : b.addr ∉ L idx := by
    intro hx
    have := happ idx hi _ hx
    unfold Apart at this
    omega
  refine ⟨Function.update L idx (b.addr :: L idx), fun i hj => ?_, fun i hj => ?_,
    fun i hj => ?_, fun i hj x => ?_⟩
  · rw [hfree]
    by_cases he : i = idx
    · simp [he]
    · simp [he, hl.head i hj]
  · rw [hmem, hl.head idx hi]
    by_cases he : i = idx
    · rw [he, Function.update_self]
      refine linked_push (hl.linked idx hi) ?_ ?_ ?_
      · exact List.forall_mem_cons.2 ⟨(hp.pos b hb).ne', hl.pos hp' hi⟩
      · exact .cons (happ idx hi) (hl.pairwise_apart hp' hi)
      · exact List.forall_mem_cons.2 ⟨hp.addr_lt hb, hl.lt hp' hi⟩
    · rw [Function.update_of_ne he]
      refine linked_congr (fun x hx k hk => push_apply_of_notMem ?_) (hl.linked i hj)
      refine off_of_apart (fun y hy => ?_) hk
      rcases List.mem_cons.1 hy with rfl | hy
      · exact (happ i hj x hx).symm
      · -- nodes of different lists are blocks of different sizes
        obtain ⟨c, hc, rfl, hci⟩ := hl.exists_block hj hx
        obtain ⟨d, hd, rfl, hdi⟩ := hl.exists_block hi hy
        refine hp'.apart hc hd fun hcd => he ?_
        rw [← hci, ← hdi, eq_of_addr_eq hp'.sorted hc hd hcd]
  · by_cases he : i = idx
    · rw [he, Function.update_self]
      exact List.nodup_cons.2 ⟨hnot, hl.nodup idx hi⟩
    · rw [Function.update_of_ne he]
      exact hl.nodup i hj
  · rw [exists_mem_insert, ← hl.mem_iff i hj]
    by_cases he : i = idx
    · subst he
      simp [eq_comm, hidx]
    · rw [Function.update_of_ne he]
      exact ⟨.inr, fun h => h.resolve_left fun h => he h.2.symm⟩

/-- `insert_block` changes only the pointers of the blocks in the lists. -/
lemma insertBlock_mem (hl : FreeLists h (F ++ G)) (hp : Placed (F ++ b :: G))
    (hs : h.getSize (hdrp b.addr) = b.size) (hz : OffLinks (F ++ b :: G) z) :
    (h.insertBlock b.addr).mem z = h.mem z := by
  obtain ⟨L, hl⟩ := hl
  have hb : b ∈ F ++ b :: G := by simp
  have hi : getBlockIndex b.size < listNum := getBlockIndex_lt _
  rw [(insertBlock_eq (hp.pos b hb).ne' hs (hp.size_lt b hb)).1, hl.head _ hi]
  refine push_apply_of_notMem (List.forall_mem_cons.2 ⟨hz b hb, ?_⟩)
  exact hl.off_of_offLinks hi fun f hf => hz f (sublist_insert.subset hf)

/-! ## Removal -/

lemma sameArena_removeBlock (h : Heap) (bp : ℕ) : SameArena h (h.removeBlock bp) := by
  simp only [removeBlock]
  have hclear (h' : Heap) (hh : SameArena h h') :
      SameArena h ((h'.putaddr (pred bp) 0).putaddr (succ bp) 0) :=
    (hh.trans (sameArena_putaddr _ _)).trans (sameArena_putaddr _ _)
  split_ifs
  · exact .refl h
  · exact hclear _ (sameArena_setFreeListp _ _)
  · exact hclear _ ((sameArena_putaddr _ _).trans (sameArena_setFreeListp _ _))
  · exact hclear _ (sameArena_putaddr _ _)
  · exact hclear _ ((sameArena_putaddr _ _).trans (sameArena_putaddr _ _))

/-- `remove_block` makes the neighbours of the block point at each other, clears the pointers of
the block, and moves the list head if there was no block in front. -/
lemma removeBlock_eq {bp prev next : ℕ} (hb : bp ≠ 0) (hprev : h.prevFblkp bp = prev)
    (hnext : h.nextFblkp bp = next) (hap : prev ≠ 0 → Apart 8 prev bp) :
    (h.removeBlock bp).mem = store (store (unlink 8 h.mem bp) bp 8 0) (bp + 8) 8 0 ∧
      (h.removeBlock bp).freeListp =
        if prev = 0 then
          Function.update h.freeListp (getBlockIndex (toInt32 (h.getSize (hdrp bp)))) next
        else h.freeListp := by
  have h1 : load h.mem bp 8 = prev := hprev
  have h2 : load h.mem (bp + 8) 8 = next := hnext
  have h3 : h.getaddr (succ bp) = next := hnext
  simp only [removeBlock, if_neg hb, hprev, hnext, unlink, h1, h2, h3, setPrev, setNext]
  by_cases hp : prev = 0 <;> by_cases hn : next = 0
  · simp [hp, hn, pred, succ, dsize]
  · simp [hp, hn, pred, succ, dsize]
  · simp [hp, hn, pred, succ, dsize]
  · -- the predecessor pointer is read again after the first write, which is elsewhere
    have hre : (h.putaddr (succ prev) next).getaddr (pred bp) = prev := by
      have := hap hp
      unfold Apart at this
      refine (load_store_of_disjoint ?_).trans h1
      simp only [pred, succ, dsize]
      omega
    simp only [hre]
    simp [hp, hn, pred, succ, dsize]

/-- What holds of a list at the block that is removed from it. -/
lemma ListsOf.split (hl : ListsOf h (F ++ b :: G) L) (hp : Placed (F ++ b :: G)) :
    ∃ xs ys, L (getBlockIndex b.size) = xs ++ b.addr :: ys ∧
      h.prevFblkp b.addr = xs.getLastD 0 ∧ h.nextFblkp b.addr = ys.headD 0 ∧
      (xs.getLastD 0 ≠ 0 → Apart 8 (xs.getLastD 0) b.addr) := by
  have hi : getBlockIndex b.size < listNum := getBlockIndex_lt _
  obtain ⟨xs, ys, he⟩ := List.append_of_mem
    ((hl.mem_iff _ hi b.addr).2 ⟨b, by simp, rfl, rfl⟩)
  obtain ⟨h1, h2⟩ := (he ▸ hl.linked _ hi : Linked 8 h.mem 0 (xs ++ b.addr :: ys) 0).load_eq
  refine ⟨xs, ys, he, h1, h2, fun hne => ?_⟩
  exact (List.pairwise_append.1 (he ▸ hl.pairwise_apart hp hi)).2.2 _ (getLastD_zero_mem hne) _
    (by simp)

/-- `remove_block` changes only the pointers of the blocks in the lists. -/
lemma removeBlock_mem (hl : FreeLists h (F ++ b :: G)) (hp : Placed (F ++ b :: G))
    (hz : OffLinks (F ++ b :: G) z) : (h.removeBlock b.addr).mem z = h.mem z := by
  obtain ⟨L, hl⟩ := hl
  have hb : b ∈ F ++ b :: G := by simp
  have hi : getBlockIndex b.size < listNum := getBlockIndex_lt _
  obtain ⟨xs, ys, he, hprev, hnext, hap⟩ := hl.split hp
  have hzb := hz b hb
  rw [(removeBlock_eq (hp.pos b hb).ne' hprev hnext hap).1, store_apply_of_notMem (by omega),
    store_apply_of_notMem (by omega)]
  refine unlink_apply_of_notMem (he ▸ hl.linked _ hi) fun x hx => ?_
  refine hl.off_of_offLinks hi hz x ?_
  rw [he]
  simp only [List.mem_append, List.mem_cons] at hx ⊢
  tauto

/-- `remove_block` takes a block out of those in the lists.

**Proof sketch.** The new lists are the old ones without the address of the block. It stands in
the list of its class only; there the neighbours have been linked with each other, and the head
has moved exactly if nothing stood in front. The other lists share no node with that list. -/
lemma freeLists_removeBlock (hl : FreeLists h (F ++ b :: G)) (hp : Placed (F ++ b :: G))
    (hs : h.getSize (hdrp b.addr) = b.size) : FreeLists (h.removeBlock b.addr) (F ++ G) := by
  obtain ⟨L, hl⟩ := hl
  have hb : b ∈ F ++ b :: G := by simp
  have hi : getBlockIndex b.size < listNum := getBlockIndex_lt _
  obtain ⟨xs, ys, he, hprev, hnext, hap⟩ := hl.split hp
  obtain ⟨hmem, hfree⟩ := removeBlock_eq (hp.pos b hb).ne' hprev hnext hap
  rw [hs, toInt32_of_lt (hp.size_lt b hb)] at hfree
  set idx := getBlockIndex b.size with hidx
  have hnd : (xs ++ b.addr :: ys).Nodup := he ▸ hl.nodup idx hi
  have hxs : b.addr ∉ xs := fun hx =>
    (List.nodup_append.1 hnd).2.2 _ hx b.addr (by simp) rfl
  have herase : (L idx).erase b.addr = xs ++ ys := by
    rw [he, List.erase_append_right _ hxs, List.erase_cons_head]
  have hother : ∀ i < listNum, i ≠ idx → b.addr ∉ L i := by
    intro i hj hne hx
    obtain ⟨c, hc, hca, hci⟩ := hl.exists_block hj hx
    exact hne (by rw [← hci, eq_of_addr_eq hp.sorted hc hb hca, ← hidx])
  have hLne : ∀ i < listNum, i ≠ idx → (L i).erase b.addr = L i := fun i hj hne =>
    List.erase_of_not_mem (hother i hj hne)
  have hkeep : ∀ x, Apart 8 b.addr x → ∀ k < 16, ∀ m : Memory,
      store (store m b.addr 8 0) (b.addr + 8) 8 0 (x + k) = m (x + k) := by
    intro x hx k hk m
    unfold Apart at hx
    rw [store_apply_of_notMem (by omega), store_apply_of_notMem (by omega)]
  refine ⟨fun i => (L i).erase b.addr, fun i hj => ?_, fun i hj => ?_,
    fun i hj => (hl.nodup i hj).erase _, fun i hj x => ?_⟩
  · rw [hfree]
    by_cases hie : i = idx
    · subst hie
      rw [herase]
      cases xs with
      | nil => simp
      | cons x xs =>
        have hlast : (x :: xs).getLastD 0 ≠ 0 := by
          rw [List.getLastD_cons]
          exact hl.pos hp hi _ (by
            rw [he]; exact List.mem_append_left _ List.getLastD_mem_cons)
        rw [if_neg hlast, hl.head _ hi, he]
        rfl
    · rw [hLne i hj hie, ← hl.head i hj]
      split_ifs
      · exact Function.update_of_ne hie _ _
      · rfl
  · rw [hmem]
    by_cases hie : i = idx
    · subst hie
      rw [herase]
      have hpw := he ▸ hl.pairwise_apart hp hi
      refine linked_congr (fun x hx k hk => hkeep x ?_ k hk _)
        (linked_unlink (he ▸ hl.linked _ hi) (he ▸ hl.pos hp hi) hpw (he ▸ hl.lt hp hi))
      obtain ⟨-, hpy, hpxy⟩ := List.pairwise_append.1 hpw
      rcases List.mem_append.1 hx with hx | hx
      · exact (hpxy x hx b.addr (by simp)).symm
      · exact List.rel_of_pairwise_cons hpy hx
    · rw [hLne i hj hie]
      refine linked_congr (fun x hx k hk => ?_) (hl.linked i hj)
      obtain ⟨c, hc, rfl, hci⟩ := hl.exists_block hj hx
      have hne : ∀ d ∈ F ++ b :: G, getBlockIndex d.size = idx → c.addr ≠ d.addr :=
        fun d hd hdi hcd => hie (by rw [← hci, ← hdi, eq_of_addr_eq hp.sorted hc hd hcd])
      rw [hkeep c.addr (hp.apart hb hc (hne b hb rfl).symm) k hk]
      refine unlink_apply_of_notMem (he ▸ hl.linked _ hi) (off_of_apart (fun y hy => ?_) hk)
      have hy' : y ∈ L idx := by
        rw [he]
        simp only [List.mem_append, List.mem_cons] at hy ⊢
        tauto
      obtain ⟨d, hd, rfl, hdi⟩ := hl.exists_block hi hy'
      exact hp.apart hc hd (hne d hd hdi)
  · rw [(hl.nodup i hj).mem_erase_iff, hl.mem_iff i hj, exists_mem_insert]
    constructor
    · rintro ⟨hne, ⟨rfl, -⟩ | h⟩
      · exact absurd rfl hne
      · exact h
    · rintro ⟨c, hc, rfl, hci⟩
      exact ⟨hp.addr_ne hc, .inr ⟨c, hc, rfl, hci⟩⟩

/-! ## Searching -/

/-- A list is no longer than there are blocks. -/
lemma ListsOf.length_le (hl : ListsOf h fs L) (hi : i < listNum) : (L i).length ≤ fs.length := by
  have hsub : (L i).Subset (fs.map Block.addr) := fun x hx => by
    obtain ⟨b, hb, rfl, -⟩ := hl.exists_block hi hx
    exact List.mem_map_of_mem hb
  simpa using ((hl.nodup i hi).subperm hsub).length_le

/-- A walk along a list finds the first node with the property. -/
lemma scanList_eq {xs : List ℕ} {q : ℕ} (hl : Linked 8 h.mem q xs 0) (hne : ∀ x ∈ xs, x ≠ 0)
    (p : ℕ → Bool) {fuel : ℕ} (hfuel : xs.length < fuel) :
    h.scanList p fuel (xs.headD 0) = some ((xs.find? p).getD 0) := by
  induction xs generalizing q fuel with
  | nil =>
    obtain ⟨fuel, rfl⟩ : ∃ k, fuel = k + 1 := ⟨fuel - 1, by simp at hfuel; omega⟩
    simp [scanList]
  | cons x xs ih =>
    obtain ⟨fuel, rfl⟩ : ∃ k, fuel = k + 1 := ⟨fuel - 1, by simp at hfuel; omega⟩
    obtain ⟨-, hs, hl⟩ := hl
    have hx : x ≠ 0 := hne x List.mem_cons_self
    have hnext : h.nextFblkp x = xs.headD 0 := hs
    rw [List.headD_cons, scanList, if_neg hx, hnext, List.find?_cons,
      ih hl (fun y hy => hne y (List.mem_cons_of_mem _ hy)) (by simp at hfuel; omega)]
    cases p x <;> rfl

/-- **A search through the lists from `i` on ends.** It finds a block with the property in the
lowest list that has one, and nothing if there is none. -/
theorem scanLists_spec (hl : ListsOf h fs L) (hp : Placed fs) (p : ℕ → ℕ → Bool) {fuel : ℕ}
    (hfuel : fs.length < fuel) (n : ℕ) :
    ∀ i, i + n ≤ listNum → ∃ r, h.scanLists fuel p n i = some r ∧
      ((r = 0 ∧ ∀ j, i ≤ j → j < i + n → ∀ x ∈ L j, p j x = false) ∨
        ∃ j, i ≤ j ∧ j < i + n ∧ r ∈ L j ∧ p j r = true ∧
          ∀ k, i ≤ k → k < j → ∀ x ∈ L k, p k x = false) := by
  induction n with
  | zero => exact fun i _ => ⟨0, rfl, .inl ⟨rfl, fun j h₁ h₂ => absurd h₂ (by omega)⟩⟩
  | succ n ih =>
    intro i hi
    have hil : i < listNum := by omega
    have hscan := scanList_eq (hl.linked i hil) (hl.pos hp hil) (p i)
      ((hl.length_le hil).trans_lt hfuel)
    rw [scanLists, hl.head i hil, hscan, Option.bind_some]
    cases hf : (L i).find? (p i) with
    | some x =>
      have hx := List.mem_of_find?_eq_some hf
      rw [Option.getD_some, if_pos (hl.pos hp hil x hx)]
      refine ⟨x, rfl, .inr ⟨i, le_rfl, by omega, hx, List.find?_some hf, ?_⟩⟩
      exact fun k h₁ h₂ => absurd h₂ (by omega)
    | none =>
      have hnone : ∀ x ∈ L i, p i x = false := by simpa using hf
      obtain ⟨r, hr, hcase⟩ := ih (i + 1) (by omega)
      rw [Option.getD_none, if_neg (by simp), hr]
      refine ⟨r, rfl, hcase.imp (fun ⟨h0, h1⟩ => ⟨h0, fun j h₁ h₂ => ?_⟩)
        fun ⟨j, h₁, h₂, hrj, hpj, hlow⟩ => ⟨j, by omega, by omega, hrj, hpj, fun k h₃ h₄ => ?_⟩⟩
      · rcases Nat.eq_or_lt_of_le h₁ with rfl | h₁
        · exact hnone
        · exact h1 j h₁ (by omega)
      · rcases Nat.eq_or_lt_of_le h₃ with rfl | h₃
        · exact hnone
        · exact hlow k h₃ h₄

end Malloc
