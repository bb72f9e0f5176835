import SE101.Malloc.Client
import SE101.Malloc.Walks

set_option relaxedAutoImplicit false
set_option autoImplicit false

/-!
# What `mm_check` overlooks

`mm_check` asks whether every free block is in a free list, and answers by comparing two numbers.
On a heap of any contents for which it returns `0`, the pointers of the lists do match, but a list
may go through addresses at which the heap has no block, and as many free blocks are then in no
list. The answer is right if the nodes are blocks of the heap and each is in the list of its size.

## Main definitions

* `Malloc.Walked` — the addresses through which the loops of `mm_check` go.
* `Malloc.Consistent` — what a return value of `0` should mean.
* `Malloc.NodesInPlace` — what `mm_check` does not look at.

## Main results

* `Malloc.consistent_iff` — when a return value of `0` means that the heap is consistent.
-/

namespace Malloc

open LittleEndian LinkedList Heap

variable {h : Heap} {fuel bp q i k n : ℕ} {bs xs : List ℕ} {L : ℕ → List ℕ}

/-- The list in which `insert_block` would put the block at `bp`. -/
def Heap.sizeClass (h : Heap) (bp : ℕ) : ℕ := getBlockIndex (toInt32 (h.getSize (hdrp bp)))

/-- The blocks and the nodes of the lists through which the loops go. -/
structure Walked (h : Heap) (bs : List ℕ) (L : ℕ → List ℕ) : Prop where
  blocks : h.Blocks h.heapListp bs
  nodes : ∀ i < listNum, h.Nodes (h.freeListp i) (L i)

/-- The lists and the blocks of a heap agree. -/
structure Consistent (h : Heap) (bs : List ℕ) (L : ℕ → List ℕ) : Prop where
  /-- A free block is in the list of its size and in no other one. -/
  listed : ∀ b ∈ bs, h.getAlloc (hdrp b) = 0 → ∀ i < listNum, b ∈ L i ↔ i = h.sizeClass b
  /-- It is in that list once. -/
  nodup : ∀ i < listNum, (L i).Nodup
  /-- The nodes of the lists are free blocks. -/
  free : ∀ i < listNum, ∀ x ∈ L i, x ∈ bs ∧ h.getAlloc (hdrp x) = 0
  /-- The pointers of neighbours in a list match. -/
  linked : ∀ i < listNum, Linked 8 h.mem 0 (L i) 0

/-- The nodes of the lists are blocks, each in the list of its size. -/
def NodesInPlace (h : Heap) (bs : List ℕ) (L : ℕ → List ℕ) : Prop :=
  ∀ i < listNum, ∀ x ∈ L i, x ∈ bs ∧ i = h.sizeClass x

/-! ## Loops that end -/

/-- A loop over a list that finds nothing has gone through all of its nodes. -/
lemma nodes_of_scanList {p : ℕ → Bool} (hs : h.scanList p fuel bp = some 0) :
    ∃ xs, h.Nodes bp xs ∧ ∀ x ∈ xs, p x = false := by
  induction fuel generalizing bp with
  | zero => cases hs
  | succ fuel ih =>
    rw [scanList] at hs
    split_ifs at hs with h0 hp
    · exact ⟨[], h0, by simp⟩
    · exact absurd (Option.some_inj.1 hs) h0
    · obtain ⟨xs, hxs, hall⟩ := ih hs
      refine ⟨bp :: xs, ⟨rfl, h0, hxs⟩, fun x hx => ?_⟩
      rcases List.mem_cons.1 hx with rfl | hx
      · exact Bool.eq_false_of_not_eq_true hp
      · exact hall x hx

/-- A loop over the lists that finds nothing has gone through all of their nodes. -/
lemma nodes_of_scanLists {p : ℕ → ℕ → Bool} (hs : h.scanLists fuel p n i = some 0) :
    ∀ j, i ≤ j → j < i + n → ∃ xs, h.Nodes (h.freeListp j) xs ∧ ∀ x ∈ xs, p j x = false := by
  induction n generalizing i with
  | zero =>
    intro j h1 h2
    omega
  | succ n ih =>
    intro j h1 h2
    rw [scanLists] at hs
    obtain ⟨r, hr, hs⟩ := Option.bind_eq_some_iff.1 hs
    have hr0 : r = 0 := by
      by_contra hne
      rw [if_pos hne] at hs
      exact hne (Option.some_inj.1 hs)
    rw [if_neg (by simp [hr0])] at hs
    rcases h1.eq_or_lt with rfl | hlt
    · exact nodes_of_scanList (hr0 ▸ hr)
    · exact ih hs j hlt (by omega)

/-- A loop over a list counts the nodes. -/
lemma Heap.Nodes.countList (hx : h.Nodes bp xs) (hc : h.countList fuel bp = some k) :
    k = xs.length := by
  induction xs generalizing bp fuel k with
  | nil =>
    obtain rfl : bp = 0 := hx
    cases fuel with
    | zero => cases hc
    | succ fuel => exact (Option.some_inj.1 hc).symm
  | cons x xs ih =>
    obtain ⟨rfl, hne, hx⟩ := hx
    cases fuel with
    | zero => cases hc
    | succ fuel =>
      rw [Heap.countList, if_neg hne] at hc
      obtain ⟨m, hm, rfl⟩ := Option.map_eq_some_iff.1 hc
      rw [ih hx hm, List.length_cons]

/-- A loop over the lists counts the nodes of all of them. -/
lemma countLists_nodes (hL : ∀ j, i ≤ j → j < i + n → h.Nodes (h.freeListp j) (L j))
    (hc : h.countLists fuel n i = some k) : k = ((List.range' i n).flatMap L).length := by
  induction n generalizing i k with
  | zero => exact (Option.some_inj.1 hc).symm
  | succ n ih =>
    rw [countLists] at hc
    obtain ⟨m, hm, hc⟩ := Option.bind_eq_some_iff.1 hc
    obtain ⟨r, hr, rfl⟩ := Option.map_eq_some_iff.1 hc
    rw [(hL i le_rfl (by omega)).countList hm,
      ih (fun j h1 h2 => hL j (by omega) (by omega)) hr, List.range'_succ, List.flatMap_cons,
      List.length_append]

/-- A loop over the blocks that ends has gone through all of them and counted some. -/
lemma blocks_of_countBlocks {p : ℕ → Bool} (hc : h.countBlocks p fuel bp = some k) :
    ∃ bs, h.Blocks bp bs ∧ k = bs.countP p := by
  induction fuel generalizing bp k with
  | zero => cases hc
  | succ fuel ih =>
    rw [countBlocks] at hc
    by_cases hpos : h.getSize (hdrp bp) > 0
    · rw [if_pos hpos] at hc
      obtain ⟨m, hm, rfl⟩ := Option.map_eq_some_iff.1 hc
      obtain ⟨bs, hbs, rfl⟩ := ih hm
      exact ⟨bp :: bs, ⟨rfl, hpos, hbs⟩, by rw [List.countP_cons, Nat.add_comm]⟩
    · rw [if_neg hpos] at hc
      exact ⟨[], Nat.eq_zero_of_not_pos hpos, (Option.some_inj.1 hc).symm⟩

/-! ## What a return value of `0` tells -/

/-- A test of `mm_check` that does not make it return. -/
lemma of_test {x : Option ℕ} {y : Option ℤ}
    (hc : (x.bind fun r => if r ≠ 0 then some (-1) else y) = some 0) : x = some 0 ∧ y = some 0 := by
  obtain ⟨r, hr, hc⟩ := Option.bind_eq_some_iff.1 hc
  split_ifs at hc with h0
  · cases hc
  · obtain rfl : r = 0 := not_not.1 h0
    exact ⟨hr, hc⟩

/-- The loops of `mm_check` when it returns `0`. -/
lemma loops_of_mmCheck (hc : h.mmCheck fuel = some 0) :
    h.scanLists fuel (fun _ bp => h.getAlloc (hdrp bp) ≠ 0) listNum 0 = some 0 ∧
      (∃ k, h.countBlocks (fun bp => h.getAlloc (hdrp bp) = 0) fuel h.heapListp = some k ∧
        h.countLists fuel listNum 0 = some k) ∧
      h.scanLists fuel h.badLinks listNum 0 = some 0 := by
  obtain ⟨hmarked, hc⟩ := of_test hc
  obtain ⟨-, hc⟩ := of_test hc
  obtain ⟨k, hk, hc⟩ := Option.bind_eq_some_iff.1 hc
  obtain ⟨m, hm, hc⟩ := Option.bind_eq_some_iff.1 hc
  split_ifs at hc with hkm
  · cases hc
  · obtain rfl : k = m := not_not.1 hkm
    exact ⟨hmarked, ⟨k, hk, hm⟩, (of_test hc).1⟩

/-- `mm_check` has gone through the blocks and the lists. -/
lemma exists_walked (hc : h.mmCheck fuel = some 0) : ∃ bs L, Walked h bs L := by
  obtain ⟨hmarked, ⟨k, hk, -⟩, -⟩ := loops_of_mmCheck hc
  obtain ⟨bs, hbs, -⟩ := blocks_of_countBlocks hk
  choose L hL using fun i : Fin listNum => nodes_of_scanLists hmarked i (Nat.zero_le i) (by omega)
  exact ⟨bs, fun i => if hi : i < listNum then L ⟨i, hi⟩ else [], hbs, fun i hi => by
    rw [dif_pos hi]
    exact (hL ⟨i, hi⟩).1⟩

/-- The nodes of the lists have a property for which `mm_check` has tested them. -/
lemma Walked.forall_of_scanLists (hw : Walked h bs L) {p : ℕ → ℕ → Bool}
    (hs : h.scanLists fuel p listNum 0 = some 0) (hi : i < listNum) : ∀ x ∈ L i, p i x = false := by
  obtain ⟨xs, hxs, hall⟩ := nodes_of_scanLists hs i (Nat.zero_le i) (by omega)
  rwa [(hw.nodes i hi).unique hxs]

/-- The pointers of the nodes match if all of them pass the test. -/
lemma Heap.Nodes.linked (hx : h.Nodes bp xs) (hgood : ∀ x ∈ xs, h.badLinks i x = false)
    (hq : bp ≠ 0 → h.getaddr (pred bp) = q) : Linked 8 h.mem q xs 0 := by
  induction xs generalizing bp q with
  | nil => trivial
  | cons x xs ih =>
    obtain ⟨rfl, hne, hx⟩ := hx
    have hnext : h.nextFblkp x = xs.headD 0 := by
      cases xs with
      | nil => exact hx
      | cons y ys => exact hx.1.symm
    refine ⟨hq hne, hnext, ih hx (fun y hy => hgood y (List.mem_cons_of_mem x hy)) fun h0 => ?_⟩
    have hback := hgood x List.mem_cons_self
    have hsucc : h.getaddr (succ x) = h.nextFblkp x := rfl
    simp only [badLinks, hsucc, Bool.or_eq_false_iff, Bool.and_eq_false_iff] at hback
    simpa [h0.symm] using hback.2

/-- **The pointers match** when `mm_check` returns `0`. -/
lemma Walked.linked (hw : Walked h bs L) (hc : h.mmCheck fuel = some 0) (hi : i < listNum) :
    Linked 8 h.mem 0 (L i) 0 := by
  obtain ⟨-, -, hunmatched⟩ := loops_of_mmCheck hc
  have hgood := hw.forall_of_scanLists hunmatched hi
  refine (hw.nodes i hi).linked hgood fun h0 => ?_
  cases hL : L i with
  | nil =>
    have hnil := hw.nodes i hi
    rw [hL] at hnil
    exact absurd hnil h0
  | cons x xs =>
    have hx := hgood x (by simp [hL])
    simp only [badLinks, Bool.or_eq_false_iff] at hx
    have hpred : 0 = h.getaddr (pred (h.freeListp i)) := by simpa using hx.1.1
    exact hpred.symm

/-- **Every free block is in a list** when `mm_check` returns `0` and the nodes are in place: there
are no more free blocks than nodes. -/
lemma mem_of_free (hw : Walked h bs L) (hc : h.mmCheck fuel = some 0) (hp : NodesInPlace h bs L)
    {b : ℕ} (hb : b ∈ bs) (hfree : h.getAlloc (hdrp b) = 0) : b ∈ L (h.sizeClass b) := by
  obtain ⟨hmarked, ⟨k, hk, hm⟩, -⟩ := loops_of_mmCheck hc
  obtain ⟨bs', hbs', rfl⟩ := blocks_of_countBlocks hk
  obtain rfl := hbs'.unique hw.blocks
  have hlen := countLists_nodes (fun j _ hj => hw.nodes j (by omega)) hm
  rw [← List.range_eq_range', List.countP_eq_length_filter] at hlen
  have hsub : (List.range listNum).flatMap L ⊆
      bs'.filter fun b => h.getAlloc (hdrp b) = 0 := by
    intro x hx
    obtain ⟨i, hi, hx⟩ := List.mem_flatMap.1 hx
    have hi := List.mem_range.1 hi
    have hfree := hw.forall_of_scanLists hmarked hi x hx
    simpa using ⟨(hp i hi x hx).1, by simpa using hfree⟩
  have hnd : ((List.range listNum).flatMap L).Nodup := by
    refine List.nodup_flatMap.2 ⟨fun i hi => (hw.nodes i (List.mem_range.1 hi)).nodup, ?_⟩
    refine List.nodup_range.imp_of_mem fun {i j} hi hj hne x hxi hxj => hne ?_
    rw [(hp i (List.mem_range.1 hi) x hxi).2, (hp j (List.mem_range.1 hj) x hxj).2]
  have hperm := (List.subperm_of_subset hnd hsub).perm_of_length_le hlen.le
  have hmem := hperm.mem_iff.2 (List.mem_filter.2 ⟨hb, by simpa using hfree⟩)
  obtain ⟨i, hi, hx⟩ := List.mem_flatMap.1 hmem
  rwa [← (hp i (List.mem_range.1 hi) b hx).2]

/-- **`mm_check` is right exactly if the nodes are in place.** It goes through one list of blocks
and through one list of nodes for every class, and when it returns `0`, they agree if and only if
every node is a block and is in the list of its size. -/
theorem consistent_iff (hc : h.mmCheck fuel = some 0) : (∃ bs L, Walked h bs L) ∧
    ∀ bs L, Walked h bs L → (Consistent h bs L ↔ NodesInPlace h bs L) := by
  refine ⟨exists_walked hc, fun bs L hw => ⟨fun hs i hi x hx => ?_, fun hp => ?_⟩⟩
  · obtain ⟨hxb, hxf⟩ := hs.free i hi x hx
    exact ⟨hxb, (hs.listed x hxb hxf i hi).1 hx⟩
  · refine ⟨fun b hb hfree i hi => ⟨fun hbi => (hp i hi b hbi).2, ?_⟩,
      fun i hi => (hw.nodes i hi).nodup, fun i hi x hx => ⟨(hp i hi x hx).1, ?_⟩,
      fun i hi => hw.linked hc hi⟩
    · rintro rfl
      exact mem_of_free hw hc hp hb hfree
    · obtain ⟨hmarked, -⟩ := loops_of_mmCheck hc
      simpa using hw.forall_of_scanLists hmarked hi x hx

set_option maxRecDepth 20000 in
/-- After `mm_init` the one free block is in the list of its size. -/
theorem consistent_iff_init :
    ∃ bs L, Walked startWorld.heap bs L ∧ bs = [4104, 4112] ∧ Consistent startWorld.heap bs L := by
  have hc : startWorld.heap.mmCheck 10 = some 0 := by decide +kernel
  have hw : Walked startWorld.heap [4104, 4112] (fun i => if i = 6 then [4112] else []) :=
    ⟨by decide +kernel, by decide +kernel⟩
  exact ⟨_, _, hw, rfl, ((consistent_iff hc).2 _ _ hw).2 (by unfold NodesInPlace; decide +kernel)⟩

set_option maxRecDepth 20000 in
/-- A free block is in no list, and an address in its middle is in the list of another size:
`mm_check` counts one block and one node. -/
theorem not_consistent : ∃ h : Heap, h.mmCheck maxHeap = some 0 ∧
    ¬ ∃ bs L, Walked h bs L ∧ Consistent h bs L := by
  refine ⟨{ startWorld.heap with freeListp := Function.update (fun _ => 0) 0 4136 },
    by decide +kernel, ?_⟩
  rintro ⟨bs, L, hw, hs⟩
  obtain rfl : bs = [4104, 4112] := hw.blocks.unique (by decide +kernel)
  have hnil : L 6 = [] := (hw.nodes 6 (by decide)).unique (by decide +kernel)
  have hmem : 4112 ∈ L 6 := (hs.listed 4112 (by decide) (by decide +kernel) 6 (by decide)).2
    (by decide +kernel)
  rw [hnil] at hmem
  cases hmem

end Malloc
