import SE101.Malloc.Allocate

set_option relaxedAutoImplicit false
set_option autoImplicit false

/-!
# `mm_check`

`mm_check` walks through the lists and through the blocks and compares what it finds. On a
well-formed heap all of its walks end and none of its tests fails.

## Main results

* `Malloc.countLists_eq` — the lists together have as many nodes as there are free blocks.
* `Malloc.mmCheck_eq_zero` — `mm_check` returns `0` on a well-formed heap.
-/

namespace Malloc

open LittleEndian LinkedList Heap

variable {h : Heap} {b : Block} {bs fs ys : List Block} {L : ℕ → List ℕ} {fuel bp i : ℕ}

/-! ## Walks through the blocks -/

/-- A walk along the blocks from `bp` on finds none with a property that none of them has. -/
lemma scanBlocks_eq_zero (w : WellFormed h bs) {p : ℕ → Bool} (hp : ∀ b ∈ bs, p b.addr = false) :
    ∀ {bp fuel : ℕ} {ys : List Block}, ys ⊆ bs → Spans bp ys h.memBrk → ys.length < fuel →
      h.scanBlocks p fuel bp = some 0 := by
  intro bp fuel ys
  induction ys generalizing bp fuel with
  | nil =>
    intro _ hsp hfuel
    obtain ⟨fuel, rfl⟩ : ∃ k, fuel = k + 1 := ⟨fuel - 1, by simp at hfuel; omega⟩
    obtain rfl : bp = h.memBrk := hsp
    rw [scanBlocks, w.window_end.epilogue.1, if_neg (by simp)]
  | cons b ys ih =>
    intro hsub hsp hfuel
    obtain ⟨fuel, rfl⟩ : ∃ k, fuel = k + 1 := ⟨fuel - 1, by simp at hfuel; omega⟩
    obtain ⟨rfl, hsp⟩ := hsp
    have hb : b ∈ bs := hsub List.mem_cons_self
    have t := w.tagged b hb
    have := b.min
    rw [scanBlocks, t.getSize, if_pos (by omega), hp b hb, if_neg (by simp), t.nextBlkp]
    exact ih (fun c hc => hsub (List.mem_cons_of_mem b hc)) hsp (by simp at hfuel; omega)

/-- A walk along the blocks from `bp` on counts those that have the property. -/
lemma countBlocks_eq (w : WellFormed h bs) (p : ℕ → Bool) :
    ∀ {bp fuel : ℕ} {ys : List Block}, ys ⊆ bs → Spans bp ys h.memBrk → ys.length < fuel →
      h.countBlocks p fuel bp = some (ys.countP fun b => p b.addr) := by
  intro bp fuel ys
  induction ys generalizing bp fuel with
  | nil =>
    intro _ hsp hfuel
    obtain ⟨fuel, rfl⟩ : ∃ k, fuel = k + 1 := ⟨fuel - 1, by simp at hfuel; omega⟩
    obtain rfl : bp = h.memBrk := hsp
    rw [countBlocks, w.window_end.epilogue.1, if_neg (by simp), List.countP_nil]
  | cons b ys ih =>
    intro hsub hsp hfuel
    obtain ⟨fuel, rfl⟩ : ∃ k, fuel = k + 1 := ⟨fuel - 1, by simp at hfuel; omega⟩
    obtain ⟨rfl, hsp⟩ := hsp
    have t := w.tagged b (hsub List.mem_cons_self)
    have := b.min
    rw [countBlocks, t.getSize, if_pos (by omega), t.nextBlkp,
      ih (fun c hc => hsub (List.mem_cons_of_mem b hc)) hsp (by simp at hfuel; omega),
      Option.map_some, List.countP_cons, Nat.add_comm]

/-- The prologue, from which the walks start, is allocated and followed by the first block. -/
lemma WellFormed.prologue (w : WellFormed h bs) :
    h.getSize (hdrp h.heapListp) = 8 ∧ h.getAlloc (hdrp h.heapListp) = 1 := by
  have hp := w.arena.prologueHdr
  have hl : hdrp h.heapListp = h.memStartBrk + 4 := by rw [w.arena.listp]; rfl
  rw [hl, Heap.getSize, Heap.getAlloc, Heap.get, hp]
  decide

/-- No free block is followed by another one. -/
lemma WellFormed.not_contiguous (w : WellFormed h bs) (hb : b ∈ bs) (hfree : b.alloc = false) :
    h.getAlloc (hdrp b.next) = 1 := by
  obtain ⟨pre, post, rfl⟩ := List.append_of_mem hb
  have hpost : NoAdj (b :: post) := (List.isChain_append.1 w.noAdj).2.1
  have w₀ : WellFormed h (pre ++ [b] ++ post) := by simpa using w
  cases post with
  | nil =>
    have hn : b.next = h.memBrk := (spans_concat.1 w.spans).2
    rw [hn, w.window_end.epilogue.2]
  | cons n post =>
    have hn := hpost.head_alloc hfree n rfl
    rw [show b.next = n.addr from w₀.window.tagged_last.2, (w.tagged n (by simp)).getAlloc, hn,
      Bool.toNat_true]

/-! ## Walks through the lists -/

/-- A walk along a list counts its nodes. -/
lemma countList_eq {xs : List ℕ} {q : ℕ} (hl : Linked 8 h.mem q xs 0) (hne : ∀ x ∈ xs, x ≠ 0)
    (hfuel : xs.length < fuel) : h.countList fuel (xs.headD 0) = some xs.length := by
  induction xs generalizing q fuel with
  | nil =>
    obtain ⟨fuel, rfl⟩ : ∃ k, fuel = k + 1 := ⟨fuel - 1, by simp at hfuel; omega⟩
    rfl
  | cons x xs ih =>
    obtain ⟨fuel, rfl⟩ : ∃ k, fuel = k + 1 := ⟨fuel - 1, by simp at hfuel; omega⟩
    obtain ⟨-, hs, hl⟩ := hl
    have hnext : h.nextFblkp x = xs.headD 0 := hs
    rw [List.headD_cons, countList, if_neg (hne x List.mem_cons_self), hnext,
      ih hl (fun y hy => hne y (List.mem_cons_of_mem _ hy)) (by simp at hfuel; omega)]
    rfl

/-- A list has as many nodes as there are blocks of its class. -/
lemma ListsOf.length_eq (hl : ListsOf h fs L) (hp : Placed fs) (hi : i < listNum) :
    (L i).length = fs.countP fun b => getBlockIndex b.size = i := by
  have hnd : (fs.filter fun b => getBlockIndex b.size = i).Pairwise fun b b' =>
      b.addr ≠ b'.addr :=
    (hp.sorted.sublist List.filter_sublist).imp fun {b b'} h => by
      have := b.addr_add_le
      omega
  have hperm : (L i).Perm ((fs.filter fun b => getBlockIndex b.size = i).map Block.addr) := by
    refine (List.perm_ext_iff_of_nodup (hl.nodup i hi) (List.pairwise_map.2 hnd)).2 fun x => ?_
    rw [hl.mem_iff i hi]
    simp only [List.mem_map, List.mem_filter, decide_eq_true_eq]
    constructor
    · rintro ⟨b, hb, rfl, hbi⟩
      exact ⟨b, ⟨hb, hbi⟩, rfl⟩
    · rintro ⟨b, ⟨hb, hbi⟩, rfl⟩
      exact ⟨b, hb, rfl, hbi⟩
  rw [hperm.length_eq, List.length_map, List.countP_eq_length_filter]

/-- Counting a range of classes. -/
lemma countP_range (fs : List Block) (i n : ℕ) :
    (fs.countP fun b => i ≤ getBlockIndex b.size ∧ getBlockIndex b.size < i + (n + 1)) =
      (fs.countP fun b => getBlockIndex b.size = i) +
        fs.countP fun b => i + 1 ≤ getBlockIndex b.size ∧ getBlockIndex b.size < i + 1 + n := by
  induction fs with
  | nil => rfl
  | cons b fs ih =>
    simp only [List.countP_cons, ih, decide_eq_true_eq]
    split_ifs <;> omega

/-- The lists together have as many nodes as there are blocks of their classes. -/
theorem countLists_eq (hl : ListsOf h fs L) (hp : Placed fs) (hfuel : fs.length < fuel) (n : ℕ) :
    ∀ i, i + n ≤ listNum → h.countLists fuel n i =
      some (fs.countP fun b => i ≤ getBlockIndex b.size ∧ getBlockIndex b.size < i + n) := by
  induction n with
  | zero =>
    intro i _
    rw [countLists, Option.some_inj, eq_comm, List.countP_eq_zero]
    simp
  | succ n ih =>
    intro i hi
    have hil : i < listNum := by omega
    rw [countLists, hl.head i hil, countList_eq (hl.linked i hil) (hl.pos hp hil)
      ((hl.length_le hil).trans_lt hfuel), Option.bind_some, ih (i + 1) (by omega),
      Option.map_some, countP_range, hl.length_eq hp hil]

/-- The pointers of a node pass the test of `mm_check`. -/
lemma ListsOf.badLinks_eq_false (hl : ListsOf h fs L) (hp : Placed fs) (hi : i < listNum)
    (hx : bp ∈ L i) : h.badLinks i bp = false := by
  obtain ⟨xs, ys, he⟩ := List.append_of_mem hx
  have hlink : Linked 8 h.mem 0 (xs ++ bp :: ys) 0 := he ▸ hl.linked i hi
  have hnd : (xs ++ bp :: ys).Nodup := he ▸ hl.nodup i hi
  have hpos : ∀ x ∈ xs ++ bp :: ys, x ≠ 0 := he ▸ hl.pos hp hi
  obtain ⟨h1, h2⟩ := hlink.load_eq
  have hprev : h.getaddr (pred bp) = xs.getLastD 0 := h1
  have hnext : h.getaddr (succ bp) = ys.headD 0 := h2
  -- the first node has no predecessor
  have hhead : h.getaddr (pred (h.freeListp i)) = 0 := by
    rw [hl.head i hi, he]
    cases xs with
    | nil => exact hprev
    | cons x xs => exact hlink.1
  have hdiff : xs.getLastD 0 = ys.headD 0 → ys.headD 0 = 0 := by
    intro heq
    by_contra h0
    have hy := headD_zero_mem h0
    have hx' := getLastD_zero_mem (heq ▸ h0 : xs.getLastD 0 ≠ 0)
    exact (List.nodup_append.1 hnd).2.2 _ hx' _ (List.mem_cons_of_mem _ hy) heq
  have hback : ys.headD 0 ≠ 0 → h.getaddr (pred (ys.headD 0)) = bp := by
    intro h0
    cases ys with
    | nil => exact absurd rfl h0
    | cons y ys =>
      have hlink' : Linked 8 h.mem 0 ((xs ++ [bp]) ++ y :: ys) 0 := by simpa using hlink
      have h3 : h.getaddr (pred y) = (xs ++ [bp]).getLastD 0 := hlink'.load_eq.1
      rw [List.headD_cons, h3]
      simp
  have hnext' : h.nextFblkp bp = ys.headD 0 := hnext
  simp only [badLinks, hhead, hprev, hnext, hnext']
  generalize xs.getLastD 0 = prev at hdiff ⊢
  generalize ys.headD 0 = next at hdiff hback ⊢
  by_cases h0 : next = 0
  · subst h0
    simp [eq_comm]
  · have hne : prev ≠ next := fun heq => h0 (hdiff heq)
    simp [hne, hback h0]

/-! ## `mm_check` -/

/-- **`mm_check` returns `0` on every well-formed heap.** -/
theorem mmCheck_eq_zero (w : WellFormed h bs) : h.mmCheck maxHeap = some 0 := by
  have hlen := w.length_lt
  have hp : Placed (freeBlocks bs) := w.placed.sublist freeBlocks_sublist
  have hfl : (freeBlocks bs).length < maxHeap := by
    have hsub : (freeBlocks bs).Sublist bs := freeBlocks_sublist
    have hle := hsub.length_le
    omega
  obtain ⟨L, hl⟩ := w.lists
  obtain ⟨k, hk⟩ : ∃ k, maxHeap = k + 1 := ⟨maxHeap - 1, rfl⟩
  -- the walks over the lists
  have hscan (p : ℕ → ℕ → Bool) (hp' : ∀ i < listNum, ∀ x ∈ L i, p i x = false) :
      h.scanLists maxHeap p listNum 0 = some 0 := by
    obtain ⟨r, hr, ⟨rfl, -⟩ | ⟨j, -, hj, hrj, hpj, -⟩⟩ :=
      scanLists_spec hl hp p hfl listNum 0 (by decide)
    · exact hr
    · rw [hp' j (by omega) r hrj] at hpj
      cases hpj
  have hmarked := hscan (fun _ bp => h.getAlloc (hdrp bp) ≠ 0) fun i hi x hx => by
    obtain ⟨c, hc, rfl, -⟩ := hl.exists_block hi hx
    obtain ⟨hc, hcf⟩ := mem_freeBlocks.1 hc
    simp [(w.tagged c hc).getAlloc, hcf]
  have hunmatched := hscan h.badLinks fun i hi x hx => hl.badLinks_eq_false hp hi hx
  -- the walks over the blocks start at the prologue
  have hcontig : h.scanBlocks (fun bp => h.getAlloc (hdrp bp) = 0 ∧
      h.getAlloc (hdrp (h.nextBlkp bp)) = 0) maxHeap h.heapListp = some 0 := by
    rw [hk, scanBlocks, w.prologue.1, if_pos (by decide), if_neg (by simp [w.prologue.2]),
      w.nextBlkp_listp]
    refine scanBlocks_eq_zero w (fun b hb => ?_) (List.Subset.refl bs) w.spans (by omega)
    have t := w.tagged b hb
    cases hb' : b.alloc with
    | false => simp [t.nextBlkp, w.not_contiguous hb hb']
    | true => simp [t.getAlloc, hb']
  have hcount : h.countBlocks (fun bp => h.getAlloc (hdrp bp) = 0) maxHeap h.heapListp =
      some (freeBlocks bs).length := by
    rw [hk, countBlocks, w.prologue.1, if_pos (by decide), w.nextBlkp_listp,
      countBlocks_eq w _ (List.Subset.refl bs) w.spans (by omega), Option.map_some,
      if_neg (by simp [w.prologue.2]), Nat.zero_add, freeBlocks, ← List.countP_eq_length_filter]
    refine congrArg some (List.countP_congr fun b hb => ?_)
    simp [(w.tagged b hb).getAlloc]
  have hlists : h.countLists maxHeap listNum 0 = some (freeBlocks bs).length := by
    rw [countLists_eq hl hp hfl listNum 0 (by decide), Option.some_inj, List.countP_eq_length]
    intro b _
    have := getBlockIndex_lt b.size
    simp
    omega
  simp only [mmCheck, hmarked, hcontig, hcount, hlists, hunmatched, Option.bind_eq_bind,
    Option.bind_some, ne_eq, not_true_eq_false, if_false]
  rfl

end Malloc
