import SE101.Malloc.Contract

set_option relaxedAutoImplicit false
set_option autoImplicit false

/-!
# What the searches hand out

`find_fit` is complete: the class boundaries are in order, so that passing over the lists in
front of that of `asize` loses nothing. `find_last_fit` takes the last block of the heap, whatever
it is, and what it takes fits only in heaps of a certain shape.

## Main definitions

* `Malloc.SelectsFit` — what the branch for 112 and 448 bytes cuts up is free and large enough.
* `Malloc.LastUsable` — the heaps for which that branch was written.

## Main results

* `Malloc.getBlockIndex_mono` — larger blocks are in later lists.
* `Malloc.findFit_complete` — `find_fit` finds a block in the lowest class that has one that is
  large enough, and on the general path the heap grows only when there is none.
* `Malloc.selectsFit_iff` — when the block of `find_last_fit` fits.
-/

namespace Malloc

open LittleEndian Heap

variable {h h' : Heap} {b : Block} {bs pre : List Block} {n asize : ℕ}

/-! ## `find_fit` -/

lemma le_ite {c : Prop} [Decidable c] {k a b : ℕ} (ha : k ≤ a) (hb : k ≤ b) :
    k ≤ if c then a else b := by
  split_ifs <;> assumption

lemma ite_le_ite {s t k : ℤ} (hst : s ≤ t) {a b c : ℕ} (hac : a ≤ c) (hbc : b ≤ c) :
    (if s ≤ k then a else b) ≤ if t ≤ k then a else c := by
  split_ifs <;> omega

/-- Larger blocks are in the same list or in a later one. -/
lemma getBlockIndex_mono {s t : ℤ} (hst : s ≤ t) : getBlockIndex s ≤ getBlockIndex t := by
  unfold getBlockIndex
  repeat' refine ite_le_ite hst ?_ ?_
  -- what is left compares a class with all later ones
  all_goals repeat' refine le_ite ?_ ?_
  all_goals decide

lemma sameArena_place (h : Heap) (bp asize : ℕ) : SameArena h (h.place bp asize) := by
  simp only [place]
  split_ifs
  · exact (((sameArena_removeBlock _ _).trans (sameArena_putTags ..)).trans
      (sameArena_putTags ..)).trans (sameArena_insertBlock _ _)
  · exact (sameArena_removeBlock _ _).trans (sameArena_putTags ..)

/-- The search for a size starts at the class of that size or below the classes of larger ones. -/
lemma getBlockIndex_le_of_le {size : ℕ} (hlt : asize < 2 ^ 31) (hle : asize ≤ size) :
    getBlockIndex (toInt32 asize) ≤ getBlockIndex size := by
  rw [toInt32_of_lt hlt]
  exact getBlockIndex_mono (by exact_mod_cast hle)

/-- `find_fit` returns `NULL` exactly if no free block is large enough. -/
lemma findFit_eq_zero_iff (w : WellFormed h bs) (hlt : asize < 2 ^ 31) :
    h.findFit asize = some 0 ↔ ∀ b ∈ bs, b.alloc = false → b.size < asize := by
  obtain ⟨r, hr, hcase⟩ := findFit_classes w asize
  rw [hr, Option.some_inj]
  constructor
  · rintro rfl c hc hfree
    rcases hcase with ⟨-, hno⟩ | ⟨b, hb, -, h0, -⟩
    · by_contra hge
      exact hge (hno c hc hfree (getBlockIndex_le_of_le hlt (not_lt.1 hge)))
    · exact absurd h0 (w.placed.pos b hb).ne'
  · intro hno
    rcases hcase with ⟨h0, -⟩ | ⟨b, hb, hfree, -, hle, -⟩
    · exact h0
    · exact absurd hle (not_le.2 (hno b hb hfree))

/-- The general path when no free block fits and the heap has grown. -/
lemma mallocFit_of_grown {r : ℕ × Heap} (hfit : h.findFit asize = some 0)
    (hx : h.extendHeap (max asize chunksize / wsize) = some r) (hn : n ≠ 4092) :
    h.mallocFit n asize = some (r.1, r.2.place r.1 asize) := by
  rw [mallocFit, hfit, Option.bind_some, if_neg (by simp)]
  simp only [hx, if_neg hn]

/-- The general path when no free block fits and the heap has not grown. -/
lemma mallocFit_of_full (hfit : h.findFit asize = some 0)
    (hx : h.extendHeap (max asize chunksize / wsize) = none) :
    h.mallocFit n asize = some (0, h) := by
  rw [mallocFit, hfit, Option.bind_some, if_neg (by simp)]
  simp only [hx]

/-- **`find_fit` is complete.** For sizes that are values of type `int` it returns `NULL` exactly
if no free block is large enough, and else such a block from the lowest class that has one. The
general path of `mm_malloc` then places it without growing the heap. -/
theorem findFit_complete (w : WellFormed h bs) (hlt : asize < 2 ^ 31) :
    ∃ r, h.findFit asize = some r ∧
      (r = 0 ↔ ¬ ∃ b ∈ bs, b.alloc = false ∧ asize ≤ b.size) ∧
      (r ≠ 0 → ∃ b ∈ bs, b.addr = r ∧ b.alloc = false ∧ asize ≤ b.size ∧
        ∀ c ∈ bs, c.alloc = false → asize ≤ c.size →
          getBlockIndex b.size ≤ getBlockIndex c.size) ∧
      ((∃ b ∈ bs, b.alloc = false ∧ asize ≤ b.size) → ∀ n,
        h.mallocFit n asize = some (r, h.place r asize) ∧
          (h.place r asize).memBrk = h.memBrk) := by
  obtain ⟨r, hr, hcase⟩ := findFit_classes w asize
  have hiff : r = 0 ↔ ¬ ∃ b ∈ bs, b.alloc = false ∧ asize ≤ b.size := by
    rw [← Option.some_inj, ← hr, findFit_eq_zero_iff w hlt]
    simp only [not_exists, not_and, not_le]
  refine ⟨r, hr, hiff, fun hne => ?_, fun hex n => ⟨?_, (sameArena_place h r asize).memBrk⟩⟩
  · obtain ⟨b, hb, hfree, ha, hle, hlow⟩ := hcase.resolve_left fun h0 => hne h0.1
    exact ⟨b, hb, ha, hfree, hle, fun c hc hcf hcl =>
      hlow c hc hcf hcl (getBlockIndex_le_of_le hlt hcl)⟩
  · have hne : r ≠ 0 := fun h0 => hiff.1 h0 hex
    rw [mallocFit, hr, Option.bind_some, if_pos hne]

/-- The first search in a new heap finds the first block. -/
theorem findFit_complete_init :
    ∃ h, startHeap.mmInit = some h ∧ h.findFit 24 = some 4112 := by
  obtain ⟨h, hi, w, -⟩ := mmInit_spec fresh_startHeap
  obtain ⟨r, hr, h0, hfit, -⟩ := findFit_complete w (show 24 < 2 ^ 31 by decide)
  have hne : r ≠ 0 := fun hr0 => h0.1 hr0 ⟨_, List.mem_singleton_self _, rfl, by decide⟩
  obtain ⟨b, hb, ha, -⟩ := hfit hne
  obtain rfl := List.mem_singleton.1 hb
  exact ⟨h, hi, by rw [hr, ← ha]; rfl⟩

/-! ## `find_last_fit` -/

/-- The number of bytes by which the branch for 112 and 448 bytes grows the heap, given the size
of the block in front of the last one. -/
def growth (prevSize : ℕ) : ℕ :=
  if prevSize = 16 + overhead then 156 * chunksize
  else if prevSize = 64 + overhead then 289 * chunksize
  else 0

/-- The heap in which the branch for 112 and 448 bytes cuts up or places the block `bp` that it
has selected; `none` when the heap that is to be grown before is used up. -/
def Heap.beforeUse (h : Heap) (bp : ℕ) : Option Heap :=
  let size := growth (h.getSize (hdrp (h.prevBlkp bp)))
  if size = 0 then some h else (h.extendHeap (size / wsize)).map (·.2)

/-- What the branch does with the selected block. -/
def Heap.useLast (h : Heap) (prevSize bp asize : ℕ) : ℕ × Heap :=
  if growth prevSize = 0 then (bp, h.place bp asize)
  else
    h.splitThree bp (if prevSize = 16 + overhead then (16 + overhead) * 4000
      else (64 + overhead) * 2000) asize

lemma growth_sixteen : growth (16 + overhead) = 156 * chunksize := if_pos rfl

lemma growth_sixtyFour : growth (64 + overhead) = 289 * chunksize :=
  (if_neg (by decide)).trans (if_pos rfl)

/-- The branch for 112 and 448 bytes in two steps: growing the heap, and using the block. -/
lemma mallocLast_eq (h : Heap) (bp asize : ℕ) :
    h.mallocLast bp asize =
      match h.beforeUse bp with
      | none => (0, h)
      | some h' => h'.useLast (h.getSize (hdrp (h.prevBlkp bp))) bp asize := by
  rw [mallocLast, beforeUse]
  by_cases h1 : h.getSize (hdrp (h.prevBlkp bp)) = 16 + overhead
  · have hne : (156 * chunksize : ℕ) ≠ 0 := by decide
    simp only [h1, true_or, if_true, growth_sixteen, if_neg hne]
    cases h.extendHeap (156 * chunksize / wsize) with
    | none => rfl
    | some r =>
      simp only [Option.map_some, useLast, growth_sixteen, if_neg hne, if_true]
  · by_cases h2 : h.getSize (hdrp (h.prevBlkp bp)) = 64 + overhead
    · have hne : (289 * chunksize : ℕ) ≠ 0 := by decide
      have hne' : (64 + overhead : ℕ) ≠ 16 + overhead := by decide
      simp only [h2, or_true, if_true, if_neg hne', growth_sixtyFour, if_neg hne]
      cases h.extendHeap (289 * chunksize / wsize) with
      | none => rfl
      | some r =>
        simp only [Option.map_some, useLast, growth_sixtyFour, if_neg hne, if_neg hne']
    · have h0 : growth (h.getSize (hdrp (h.prevBlkp bp))) = 0 := (if_neg h1).trans (if_neg h2)
      simp only [h1, h2, or_self, if_false, h0, if_true, useLast]

/-- Whatever the branch for 112 and 448 bytes uses is free and large enough, and if the heap had
no such block before, then the heap has grown. -/
def SelectsFit (h : Heap) (bs : List Block) (asize : ℕ) : Prop :=
  ∀ h', h.beforeUse h.findLastFit = some h' →
    h'.getAlloc (hdrp h.findLastFit) = 0 ∧ asize ≤ h'.getSize (hdrp h.findLastFit) ∧
      ((∀ b ∈ bs, b.alloc = false → b.size < asize) → h.memBrk < h'.memBrk)

/-- The last block is free, and it is large enough unless the heap is grown at it; or the heap is
to be grown and has no room. -/
def LastUsable (h : Heap) (bs : List Block) (asize : ℕ) : Prop :=
  ∃ pre b, bs = pre ++ [b] ∧
    let size := growth ((pre.getLast?.map Block.size).getD dsize)
    if size = 0 then b.alloc = false ∧ asize ≤ b.size
    else b.alloc = false ∨ h.memMaxAddr < h.memBrk + size

/-- The size of the block in front of the last one, which may be the prologue. -/
lemma WellFormed.prevSize (w : WellFormed h (pre ++ [b])) :
    h.getSize (hdrp (h.prevBlkp b.addr)) = (pre.getLast?.map Block.size).getD dsize := by
  have hwin := w.window
  rcases List.eq_nil_or_concat pre with rfl | ⟨pre, p, rfl⟩
  · have hl : h.memStartBrk + 16 = b.addr := hwin.left
    have hp := w.arena.prologueHdr
    rw [hwin.prologue.1, ← hl, Heap.getSize, Heap.get, hdrp, wsize,
      show h.memStartBrk + 16 - 8 - 4 = h.memStartBrk + 4 by omega, hp]
    decide
  · rw [List.concat_eq_append] at *
    obtain ⟨tp, hpb⟩ := hwin.tagged_last
    rw [← hpb, tp.prevBlkp, tp.getSize]
    simp

/-- The heap grows by nothing, or by a multiple of eight that is large enough for the three
blocks. -/
lemma growth_cases (prevSize : ℕ) :
    growth prevSize = 0 ∨ (456 ≤ growth prevSize ∧ 8 ∣ growth prevSize ∧
      growth prevSize < 2 ^ 31) := by
  unfold growth
  split_ifs
  · exact .inr (by decide)
  · exact .inr (by decide)
  · exact .inl rfl

/-- What the branch finds in a heap that it grows. -/
lemma extend_last (w : WellFormed h (pre ++ [b])) {size : ℕ} (h456 : 456 ≤ size) (h8 : 8 ∣ size)
    (hlt : size < 2 ^ 31) (hmax : asize ≤ 456) :
    (h.memMaxAddr < h.memBrk + size ∧ (h.extendHeap (size / wsize)).map (·.2) = none) ∨
      (h.memBrk + size ≤ h.memMaxAddr ∧
        ∃ h', (h.extendHeap (size / wsize)).map (·.2) = some h' ∧ h.memBrk < h'.memBrk ∧
          ((h'.getAlloc (hdrp b.addr) = 0 ∧ asize ≤ h'.getSize (hdrp b.addr)) ↔
            b.alloc = false)) := by
  have hs : extendSize (size / wsize) = size := extendSize_div h8 (by omega)
  let e : Block := chunk h size (by omega) h8
  have hen : e.next = h.memBrk + size := rfl
  rcases Nat.lt_or_ge h.memMaxAddr e.next with hfull | hroom
  · left
    exact ⟨hen ▸ hfull, by rw [extendHeap_of_lt (e := e) w rfl hs (by simp [e, chunk]; omega) hfull,
      Option.map_none]⟩
  · right
    obtain ⟨r, xs, c, hx, he⟩ := extendHeap_spec (e := e) w rfl rfl hs hroom
    refine ⟨hen ▸ hroom, r.2, by rw [hx, Option.map_some], ?_, ?_⟩
    · have : r.2.memBrk = e.next := he.brk.memBrk
      omega
    · cases hb : b.alloc with
      | false =>
        obtain ⟨rfl, rfl⟩ := he.of_free w.noAdj hb rfl
        have t := he.wellFormed.tagged (b.join e) (by simp)
        have ha : r.2.getAlloc (hdrp b.addr) = 0 := t.getAlloc
        have hz : r.2.getSize (hdrp b.addr) = b.size + size := t.getSize
        simp only [ha, hz, true_and, iff_true]
        omega
      | true =>
        obtain ⟨rfl, rfl⟩ := he.of_alloc w.noAdj hb
        have t := he.wellFormed.tagged b (by simp)
        simp [t.getAlloc, hb]

/-- **The branch for 112 and 448 bytes selects a block that fits exactly in the heaps for which
it was written.** -/
theorem selectsFit_iff (w : WellFormed h bs)
    (hfirst : h.firstSize = 16 + overhead ∨ h.firstSize = 64 + overhead)
    (hn : n = 112 ∨ n = 448) :
    (h.mmMalloc n = some (match h.beforeUse h.findLastFit with
      | none => (0, h)
      | some h' => h'.useLast (h.getSize (hdrp (h.prevBlkp h.findLastFit))) h.findLastFit
          (adjust n))) ∧
    (SelectsFit h bs (adjust n) ↔ LastUsable h bs (adjust n)) := by
  have hne : bs ≠ [] := by
    rintro rfl
    simp [w.firstSize_nil, overhead] at hfirst
  obtain ⟨pre, b, rfl⟩ := (List.eq_nil_or_concat bs).resolve_left hne
  rw [List.concat_eq_append] at *
  have hmax : adjust n ≤ 456 := by rcases hn with rfl | rfl <;> decide
  have hlast := w.findLastFit
  have hpos : h.findLastFit ≠ 0 := hlast ▸ (w.placed.pos b (by simp)).ne'
  refine ⟨?_, ?_⟩
  · rw [mmMalloc, if_neg (by omega), if_neg (by omega), if_neg (by omega)]
    dsimp only
    rw [if_neg (by omega), if_pos ⟨hfirst, hn⟩, if_pos hpos, mallocLast_eq]
  · have t := w.tagged b (by simp)
    have hiff : LastUsable h (pre ++ [b]) (adjust n) ↔
        if growth ((pre.getLast?.map Block.size).getD dsize) = 0 then
          b.alloc = false ∧ adjust n ≤ b.size
        else b.alloc = false ∨
          h.memMaxAddr < h.memBrk + growth ((pre.getLast?.map Block.size).getD dsize) := by
      constructor
      · rintro ⟨pre', b', heq, hu⟩
        obtain ⟨rfl, hbb⟩ := List.append_inj' heq rfl
        obtain rfl := List.singleton_inj.1 hbb
        exact hu
      · exact fun hu => ⟨pre, b, rfl, hu⟩
    rw [hiff, SelectsFit, hlast, beforeUse]
    rw [w.prevSize]
    rcases growth_cases ((pre.getLast?.map Block.size).getD dsize) with h0 | ⟨h456, h8, hlt⟩
    · simp only [h0, if_true, Option.some.injEq, forall_eq', t.getAlloc, t.getSize,
        Bool.toNat_eq_zero]
      constructor
      · exact fun hs => ⟨hs.1, hs.2.1⟩
      · rintro ⟨hb, hle⟩
        refine ⟨hb, hle, fun hno => ?_⟩
        have := hno b (by simp) hb
        omega
    · rw [if_neg (by omega), if_neg (by omega)]
      rcases extend_last w h456 h8 hlt hmax with ⟨hfull, hx⟩ | ⟨hroom, h', hx, hbrk, hb⟩
      · simp [hx, hfull]
      · rw [hx]
        simp only [Option.some.injEq, forall_eq']
        constructor
        · exact fun hs => .inl (hb.1 ⟨hs.1, hs.2.1⟩)
        · intro hu
          obtain ⟨h1, h2⟩ := hb.2 (hu.resolve_right (by omega))
          exact ⟨h1, h2, fun _ => hbrk⟩

set_option maxRecDepth 20000 in
/-- The branch in a heap that is filled by a small and a big block. -/
theorem selectsFit_iff_filled : ∃ (w : World) (bs : List Block),
    w.heap.firstSize = 16 + overhead ∧
      (SelectsFit w.heap bs (adjust 112) ↔ LastUsable w.heap bs (adjust 112)) := by
  have hrun : (startWorld.calls ([8, 4064].map .malloc)).map (·.heap.firstSize) =
      some 24 := by decide +kernel
  obtain ⟨w, bs, hw, -, hheld⟩ := exists_filled
  rw [hw] at hrun
  have hfirst : w.heap.firstSize = 16 + overhead := Option.some_inj.1 hrun
  exact ⟨w, bs, hfirst, (selectsFit_iff hheld.wellFormed (.inl hfirst) (.inl rfl)).2⟩

set_option maxRecDepth 20000 in
/-- In a heap that is filled by a small and a big block the last block is allocated, and it is
selected all the same. -/
theorem not_selectsFit : ∃ (w : World) (bs : List Block), ReachableIf (fun _ _ => True) w ∧
    WellFormed w.heap bs ∧ w.heap.firstSize = 16 + overhead ∧
      ¬ SelectsFit w.heap bs (adjust 112) := by
  have hrun : (startWorld.calls ([8, 4064].map .malloc)).map (fun w => (w.heap.firstSize,
      (w.heap.beforeUse w.heap.findLastFit).map fun h => h.getAlloc (hdrp w.heap.findLastFit))) =
      some (24, some 1) := by decide +kernel
  obtain ⟨w, bs, hw, hreach, hheld⟩ := exists_filled
  rw [hw] at hrun
  obtain ⟨hfirst, hlast⟩ := Prod.mk.inj (Option.some_inj.1 hrun)
  obtain ⟨h', hbefore, halloc⟩ := Option.map_eq_some_iff.1 hlast
  refine ⟨w, bs, hreach.mono fun _ _ ⟨c, ha, _, h⟩ => ⟨c, ha, trivial, h⟩, hheld.wellFormed,
    hfirst, fun hs => ?_⟩
  rw [(hs h' hbefore).1] at halloc
  cases halloc

end Malloc
