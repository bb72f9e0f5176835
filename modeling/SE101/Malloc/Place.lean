import SE101.Malloc.Extend

set_option relaxedAutoImplicit false
set_option autoImplicit false

/-!
# Searching and placing

`find_fit` searches the lists for a free block that is large enough, and `place` allocates the
front of it. Two branches of `mm_malloc` cut a free block into three instead, with the allocated
block in the middle.

## Main definitions

* `Malloc.Allocates`, `Malloc.HandsOut` — a call has allocated one more block.

## Main results

* `Malloc.findFit_classes` — what `find_fit` returns.
* `Malloc.place_spec`, `Malloc.splitThree_spec` — the two ways to allocate.
-/

namespace Malloc

open LittleEndian Heap

variable {h h' : Heap} {a b : Block} {bs bs' pre post xs ys : List Block} {x asize : ℕ}

/-! ## `find_fit` -/

/-- The free blocks of a well-formed heap can be nodes. -/
lemma WellFormed.placed (w : WellFormed h bs) : Placed bs := by
  have hw := w.window_end.bounds
  refine ⟨w.spans.sorted, fun b hb => ?_, fun b hb => ?_, fun b hb => ?_⟩
  all_goals
    have := w.spans.bounds hb
    simp only [Block.next] at *
    omega

/-- A well-formed heap has fewer blocks than the loops may take steps. -/
lemma WellFormed.length_lt (w : WellFormed h bs) : bs.length + 2 < maxHeap := by
  have hw := w.window_end.bounds
  have := w.spans.length_le
  simp only [maxHeap]
  omega

/-- **`find_fit` ends.** It returns a free block of at least `asize` bytes in the lowest class
from that of `asize` on that has one, and `NULL` if none of these classes has one. -/
theorem findFit_classes (w : WellFormed h bs) (asize : ℕ) :
    ∃ r, h.findFit asize = some r ∧
      ((r = 0 ∧ ∀ c ∈ bs, c.alloc = false →
          getBlockIndex (toInt32 asize) ≤ getBlockIndex c.size → c.size < asize) ∨
        ∃ b ∈ bs, b.alloc = false ∧ b.addr = r ∧ asize ≤ b.size ∧
          ∀ c ∈ bs, c.alloc = false → asize ≤ c.size →
            getBlockIndex (toInt32 asize) ≤ getBlockIndex c.size →
              getBlockIndex b.size ≤ getBlockIndex c.size) := by
  obtain ⟨L, hl⟩ := w.lists
  set i := getBlockIndex (toInt32 asize) with hi
  have hidx : i < listNum := getBlockIndex_lt _
  have hlen : (freeBlocks bs).length < maxHeap := by
    have hsub : (freeBlocks bs).Sublist bs := freeBlocks_sublist
    have := hsub.length_le
    have := w.length_lt
    omega
  obtain ⟨r, hr, hcase⟩ := scanLists_spec hl (w.placed.sublist freeBlocks_sublist)
    (fun _ bp => asize ≤ h.getSize (hdrp bp)) hlen (listNum - i) i (by omega)
  -- a free block is in the list of its class, and the test reads its size
  have hsmall (c : Block) (hc : c ∈ bs) (hfree : c.alloc = false)
      (hno : ∀ x ∈ L (getBlockIndex c.size), decide (asize ≤ h.getSize (hdrp x)) = false) :
      c.size < asize := by
    have := hno c.addr ((hl.mem_iff _ (getBlockIndex_lt _) _).2
      ⟨c, mem_freeBlocks.2 ⟨hc, hfree⟩, rfl, rfl⟩)
    rw [(w.tagged c hc).getSize] at this
    simpa using this
  refine ⟨r, hr, ?_⟩
  rcases hcase with ⟨h0, hno⟩ | ⟨j, hij, hj, hrj, hp, hlow⟩
  · refine .inl ⟨h0, fun c hc hfree hic => hsmall c hc hfree (hno _ hic ?_)⟩
    have := getBlockIndex_lt c.size
    omega
  · obtain ⟨b, hb, rfl, rfl⟩ := hl.exists_block (by omega) hrj
    obtain ⟨hb, hfree⟩ := mem_freeBlocks.1 hb
    refine .inr ⟨b, hb, hfree, rfl, ?_, fun c hc hcf hle hic => ?_⟩
    · simpa [(w.tagged b hb).getSize] using hp
    · by_contra hlt
      have := hsmall c hc hcf (hlow _ hic (by omega))
      omega

/-- What `find_fit` returns can be passed to `place`. -/
lemma findFit_spec (w : WellFormed h bs) (asize : ℕ) :
    ∃ r, h.findFit asize = some r ∧
      (r = 0 ∨ ∃ b ∈ bs, b.alloc = false ∧ b.addr = r ∧ asize ≤ b.size) := by
  obtain ⟨r, hr, hcase⟩ := findFit_classes w asize
  exact ⟨r, hr, hcase.imp (·.1) fun ⟨b, hb, hfree, ha, hle, _⟩ => ⟨b, hb, hfree, ha, hle⟩⟩

/-! ## Allocating -/

/-- The layout `bs'` has the allocated blocks of `bs` and the new block `a`. -/
structure Allocates (bs : List Block) (a : Block) (bs' : List Block) : Prop where
  alloc : a.alloc = true
  fresh : a ∉ bs
  mem_iff : ∀ c : Block, c.alloc = true → (c ∈ bs' ↔ c = a ∨ c ∈ bs)

/-- The call that returned `r` has allocated the block `a`, which is large enough for `asize`
bytes and not much larger, and has left the other allocated blocks alone. -/
structure HandsOut (h : Heap) (bs : List Block) (asize : ℕ) (r : ℕ × Heap) (a : Block)
    (bs' : List Block) : Prop where
  ptr : r.1 = a.addr
  size_le : asize ≤ a.size
  size_lt : a.size < asize + 24
  wellFormed : WellFormed r.2 bs'
  allocates : Allocates bs a bs'
  start : r.2.memStartBrk = h.memStartBrk
  keeps : KeepsPayloads bs h r.2

/-- Replacing a free block by blocks of which one is allocated. -/
lemma allocates_replace (w : WellFormed h (pre ++ b :: post)) (hb : b.alloc = false)
    (ha : a.alloc = true) (hlo : b.addr ≤ a.addr) (hhi : a.next ≤ b.next)
    (hmid : ∀ c ∈ xs, c.alloc = true ↔ c = a) (hax : a ∈ xs) :
    Allocates (pre ++ b :: post) a (pre ++ xs ++ post) := by
  have hsort := w.spans.sorted
  refine ⟨ha, fun hmem => ?_, fun c hc => ?_⟩
  · have hne : a ≠ b := by rintro rfl; simp [hb] at ha
    have := apart_of_sorted hsort hmem (by simp : b ∈ pre ++ b :: post) hne
    have := a.addr_add_le
    omega
  · have hne : c ≠ b := by rintro rfl; simp [hb] at hc
    have hx : c ∈ xs ↔ c = a := ⟨fun h => (hmid c h).1 hc, fun h => h ▸ hax⟩
    simp only [List.mem_append, List.mem_cons, hx, hne, false_or]
    tauto

/-- Cutting the front off a free block: writing the tags of an allocated block at the left end
of a hole. -/
lemma Window.putAlloc {hi : ℕ} (w : Window h pre a.addr hi post) (ha : a.alloc = true)
    (hle : a.next ≤ hi) :
    Window (h.putTags a.addr a.size 1) (pre ++ [a]) a.next hi post ∧
      KeepsPayloads (pre ++ post) h (h.putTags a.addr a.size 1) ∧
      (h.putTags a.addr a.size 1).nextBlkp a.addr = a.next := by
  obtain ⟨w1, t1, k1, -⟩ := w.putTags le_rfl hle
  rw [ha, Bool.toNat_true] at w1 t1 k1
  exact ⟨w1.addAlloc ha t1 hle, k1, t1.nextBlkp⟩

/-- Writing the tags of a free block at the left end of a hole and inserting it. -/
lemma Window.putFree {hi : ℕ} (w : Window h pre a.addr hi post) (ha : a.alloc = false)
    (hle : a.next ≤ hi) :
    Window ((h.putTags a.addr a.size 0).insertBlock a.addr) (pre ++ [a]) a.next hi post ∧
      KeepsPayloads (pre ++ post) h ((h.putTags a.addr a.size 0).insertBlock a.addr) := by
  obtain ⟨w1, t1, k1, -⟩ := w.putTags le_rfl hle
  rw [ha, Bool.toNat_false] at w1 t1 k1
  exact ⟨w1.addFree ha t1 hle, k1.trans (w1.insert_keeps le_rfl hle t1.getSize)⟩

lemma sub64_of_le {m n : ℕ} (h : n ≤ m) (hm : m < 2 ^ 64) : sub64 m n = m - n := by
  rw [sub64, show m + 2 ^ 64 - n = m - n + 2 ^ 64 by omega, Nat.add_mod_right,
    Nat.mod_eq_of_lt (by omega)]

/-- **`place` allocates the front of a free block.** What is left over becomes a free block if
it is large enough for one. -/
theorem place_spec (w : WellFormed h (pre ++ b :: post)) (hb : b.alloc = false)
    (h24 : 24 ≤ asize) (h8 : 8 ∣ asize) (hle : asize ≤ b.size) :
    ∃ a bs', HandsOut h (pre ++ b :: post) asize (b.addr, h.place b.addr asize) a bs' := by
  have hbb := b.addr_add_le
  have hbd := b.dvd
  have hsize : b.size < 2 ^ 31 := w.placed.size_lt b (by simp)
  have hpre : NoAdj pre := (List.isChain_append.1 w.noAdj).1
  have hpost : NoAdj (b :: post) := (List.isChain_append.1 w.noAdj).2.1
  have hl : ∀ p ∈ pre.getLast?, p.alloc = true := fun p hp =>
    ((List.isChain_append.1 w.noAdj).2.2 p hp b (by simp)).resolve_right (by simp [hb])
  have hr := hpost.head_alloc hb
  have w1 := w.window.removeRight hb
  have k1 := w.window.removeRight_keeps hb
  have hkeep {h' : Heap} (hk : KeepsPayloads (pre ++ post) h h') :
      KeepsPayloads (pre ++ b :: post) h h' := hk.mono fun c hc ha => by
    have : c ≠ b := by rintro rfl; simp [hb] at ha
    simp only [List.mem_append, List.mem_cons] at hc ⊢
    tauto
  set h1 := h.removeBlock b.addr with hh1
  have hcs : h.getSize (hdrp b.addr) = b.size := (w.tagged b (by simp)).getSize
  have hsub : sub64 b.size asize = b.size - asize := sub64_of_le hle (by omega)
  by_cases hsplit : 24 ≤ b.size - asize
  · -- the rest is large enough for a block of its own
    let a : Block := ⟨b.addr, asize, true, h24, h8⟩
    let c : Block := ⟨b.addr + asize, b.size - asize, false, hsplit, Nat.dvd_sub hbd h8⟩
    have hca : c.addr = a.next := rfl
    have han : a.next = b.addr + asize := rfl
    have hbn : b.next = b.addr + b.size := rfl
    have hcn : c.next = b.next := by simp only [Block.next, c]; omega
    obtain ⟨w2, k2, hnext⟩ := w1.putAlloc (a := a) rfl (by omega)
    obtain ⟨w3, k3⟩ := (hca ▸ w2).putFree (a := c) rfl hcn.le
    have hplace : h.place b.addr asize =
        ((h1.putTags a.addr a.size 1).putTags c.addr c.size 0).insertBlock c.addr := by
      simp only [place, hcs, hsub]
      rw [if_pos (by simpa [dsize] using hsplit), ← hh1]
      rw [show (h1.putTags b.addr asize 1).nextBlkp b.addr = c.addr from hnext]
    rw [hplace]
    have hn : NoAdj (pre ++ [a] ++ [c] ++ post) := by
      have : NoAdj (pre ++ [a]) := List.isChain_append.2
        ⟨hpre, List.isChain_singleton a, fun p hp q hq => .inl (hl p hp)⟩
      simpa using this.insert (b := c) (List.IsChain.of_cons hpost)
        (by simp [a]) hr
    refine ⟨a, pre ++ [a, c] ++ post, rfl, le_rfl, by simp [a], ?_, ?_, ?_, hkeep ?_⟩
    · have w4 := (hcn ▸ w3).wellFormed hn
      simpa using w4
    · refine allocates_replace w hb rfl le_rfl (by omega) (fun d hd => ?_) (by simp)
      simp only [List.mem_cons, List.not_mem_nil, or_false] at hd
      rcases hd with rfl | rfl
      · simp [a]
      · simp [a, c]
    · exact ((((sameArena_removeBlock _ _).trans (sameArena_putTags ..)).trans
        (sameArena_putTags ..)).trans (sameArena_insertBlock _ _)).memStartBrk
    · refine (k1.trans k2).trans (k3.mono fun d hd _ => ?_)
      simp only [List.mem_append, List.mem_cons] at hd ⊢
      tauto
  · let a : Block := ⟨b.addr, b.size, true, b.min, hbd⟩
    obtain ⟨w2, k2, -⟩ := w1.putAlloc (a := a) rfl le_rfl
    have hplace : h.place b.addr asize = h1.putTags a.addr a.size 1 := by
      simp only [place, hcs, hsub]
      rw [if_neg (by simpa [dsize] using hsplit), ← hh1]
    rw [hplace]
    have hn : NoAdj (pre ++ [a] ++ post) := by
      simpa using hpre.insert (b := a) (List.IsChain.of_cons hpost) hl hr
    refine ⟨a, pre ++ [a] ++ post, rfl, hle, by simp only [a]; omega, w2.wellFormed hn, ?_, ?_,
      hkeep (k1.trans k2)⟩
    · exact allocates_replace w hb rfl le_rfl le_rfl (by simp [a]) (by simp)
    · exact ((sameArena_removeBlock _ _).trans (sameArena_putTags ..)).memStartBrk

/-- **Cutting a free block into three** allocates the middle. -/
theorem splitThree_spec (w : WellFormed h (pre ++ b :: post)) (hb : b.alloc = false)
    {first : ℕ} (hf24 : 24 ≤ first) (hf8 : 8 ∣ first) (h24 : 24 ≤ asize) (h8 : 8 ∣ asize)
    (hle : first + asize + 24 ≤ b.size) :
    ∃ a bs', HandsOut h (pre ++ b :: post) asize (h.splitThree b.addr first asize) a bs' := by
  have hbb := b.addr_add_le
  have hsize : b.size < 2 ^ 31 := w.placed.size_lt b (by simp)
  have hpre : NoAdj pre := (List.isChain_append.1 w.noAdj).1
  have hpost : NoAdj (b :: post) := (List.isChain_append.1 w.noAdj).2.1
  have hl : ∀ p ∈ pre.getLast?, p.alloc = true := fun p hp =>
    ((List.isChain_append.1 w.noAdj).2.2 p hp b (by simp)).resolve_right (by simp [hb])
  have hr := hpost.head_alloc hb
  let f : Block := ⟨b.addr, first, false, hf24, hf8⟩
  let a : Block := ⟨f.next, asize, true, h24, h8⟩
  let c : Block := ⟨a.next, b.size - asize - first, false, by omega,
    Nat.dvd_sub (Nat.dvd_sub b.dvd h8) hf8⟩
  have hfn : f.next = b.addr + first := rfl
  have han : a.next = f.next + asize := rfl
  have hbn : b.next = b.addr + b.size := rfl
  have hcn : c.next = b.next := by simp only [Block.next, c, a, f]; omega
  have w1 := w.window.removeRight hb
  have k1 := w.window.removeRight_keeps hb
  set h1 := h.removeBlock b.addr with hh1
  obtain ⟨w2, k2⟩ := w1.putFree (a := f) rfl (by omega)
  set h2 := (h1.putTags f.addr f.size 0).insertBlock f.addr with hh2
  have hf2 : h2.nextBlkp f.addr = a.addr := (w2.tagged f (by simp)).nextBlkp
  obtain ⟨w3, k3, ha3⟩ := w2.putAlloc (a := a) rfl (by omega)
  set h3 := h2.putTags a.addr a.size 1 with hh3
  obtain ⟨w4, k4⟩ := w3.putFree (a := c) rfl hcn.le
  have hcall : h.splitThree b.addr first asize =
      (a.addr, (h3.putTags c.addr c.size 0).insertBlock c.addr) := by
    have hsub : sub64 (sub64 b.size asize) first = c.size := by
      rw [sub64_of_le (n := asize) (by omega) (by omega), sub64_of_le (by omega) (by omega)]
    simp only [splitThree, (w.tagged b (by simp)).getSize, ← hh1, hsub]
    rw [show (h1.putTags b.addr first 0).insertBlock b.addr = h2 from rfl,
      show h2.nextBlkp b.addr = a.addr from hf2, show h2.putTags a.addr asize 1 = h3 from rfl,
      ha3]
  have hn : NoAdj (pre ++ [f] ++ [a] ++ [c] ++ post) := by
    have h1 : NoAdj (pre ++ [f]) := List.isChain_append.2
      ⟨hpre, List.isChain_singleton f, fun p hp q hq => .inl (hl p hp)⟩
    have h2 : NoAdj (pre ++ [f] ++ [a]) := List.isChain_append.2
      ⟨h1, List.isChain_singleton a, fun p hp q hq => .inr (by simp at hq; simp [← hq, a])⟩
    simpa using h2.insert (b := c) (List.IsChain.of_cons hpost) (by simp [a]) hr
  rw [hcall]
  refine ⟨a, pre ++ [f, a, c] ++ post, rfl, le_rfl, by simp [a], ?_, ?_, ?_, ?_⟩
  · have w5 := (hcn ▸ w4).wellFormed hn
    simpa using w5
  · refine allocates_replace w hb rfl (by simp only [a]; omega) (by omega) (fun d hd => ?_)
      (by simp)
    simp only [List.mem_cons, List.not_mem_nil, or_false] at hd
    rcases hd with rfl | rfl | rfl
    · simp [a, f]
    · simp [a]
    · simp [a, c]
  · exact ((((((sameArena_removeBlock _ _).trans (sameArena_putTags ..)).trans
      (sameArena_insertBlock _ _)).trans (sameArena_putTags ..)).trans
      (sameArena_putTags ..)).trans (sameArena_insertBlock _ _)).memStartBrk
  · have hsub {d : Block} {zs : List Block} (hd : d ∈ pre ++ post) : d ∈ pre ++ zs ++ post := by
      simp only [List.mem_append] at hd ⊢
      tauto
    have k3' := k3.mono fun d (hd : d ∈ pre ++ post) _ => hsub hd
    have k4' := k4.mono fun d (hd : d ∈ pre ++ post) _ => by
      rw [List.append_assoc pre]
      exact hsub hd
    refine ((k1.trans k2).trans (k3'.trans k4')).mono fun d hd ha => ?_
    have : d ≠ b := by rintro rfl; simp [hb] at ha
    simp only [List.mem_append, List.mem_cons] at hd ⊢
    tauto

end Malloc
