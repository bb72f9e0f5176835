import SE101.Malloc.Fit

set_option relaxedAutoImplicit false
set_option autoImplicit false

/-!
# When `mm_realloc` gives up

To let a block grow, `mm_realloc` extends the heap by chunks before it looks for a free block
elsewhere, and returns `NULL` as soon as one of these extensions fails. Near the end of the
simulated heap it thereby refuses requests that `mm_malloc` would serve, from a free block or
with the bytes that the chunks have used up.

## Main definitions

* `Malloc.Unmet` — neither a free block nor growing the heap serves a request.
* `Malloc.chunks` — the number of chunks by which `mm_realloc` tries to extend the heap.
* `Malloc.Starved` — the chunks are what makes the call fail.

## Main results

* `Malloc.mmMalloc_null_iff`, `Malloc.mmRealloc_null_iff` — when the two return `NULL`.
* `Malloc.nullOnlyIfUnmet_iff` — when `mm_realloc` fails only if `mm_malloc` would.

## Design

The blocks behind the one that has to grow decide what happens: `post` is the list of them, and
an extension of the heap turns it into another such list.
-/

namespace Malloc

open LittleEndian Heap

variable {h h' : Heap} {b c : Block} {bs pre post post' rest : List Block} {n k asize csize : ℕ}

/-! ## Layouts in which the calls fail -/

/-- `NULL` is returned. -/
def ReturnsNull (r : Option (ℕ × Heap)) : Prop := r.map (·.1) = some 0

/-- No free block is large enough, and the heap cannot be grown by what would be asked for. -/
def Unmet (h : Heap) (bs : List Block) (asize : ℕ) : Prop :=
  (∀ b ∈ bs, b.alloc = false → b.size < asize) ∧ h.memMaxAddr < h.memBrk + max asize chunksize

/-- `mm_realloc` extends the heap before it looks at what stands behind the block: there is
nothing behind it, or a last block whose size is in a certain range. -/
def Heap.Speculates (h : Heap) : List Block → Prop
  | [] => True
  | [c] => (h.firstSize ≠ 16 + overhead ∧ 600 < c.size ∧ c.size ≤ 1000) ∨
    (h.firstSize = 16 + overhead ∧ 2 * (16 + overhead) < c.size ∧
      c.size ≤ 2 * (16 + overhead + 20))
  | _ :: _ :: _ => False

instance : ∀ post, Decidable (h.Speculates post)
  | [] => inferInstanceAs (Decidable True)
  | [c] => inferInstanceAs (Decidable ((h.firstSize ≠ 16 + overhead ∧ 600 < c.size ∧
      c.size ≤ 1000) ∨ (h.firstSize = 16 + overhead ∧ 2 * (16 + overhead) < c.size ∧
        c.size ≤ 2 * (16 + overhead + 20))))
  | _ :: _ :: _ => inferInstanceAs (Decidable False)

/-- No allocated block stands behind the block. -/
def Open : List Block → Prop
  | [] => True
  | [c] => c.alloc = false
  | _ :: _ :: _ => False

instance : ∀ post, Decidable (Open post)
  | [] => inferInstanceAs (Decidable True)
  | [c] => inferInstanceAs (Decidable (c.alloc = false))
  | _ :: _ :: _ => inferInstanceAs (Decidable False)

/-- The size of the free block right behind the block. -/
def freeBehind : List Block → ℕ
  | [] => 0
  | c :: _ => if c.alloc then 0 else c.size

/-- The chunks that are asked for at first. -/
def earlyChunks (h : Heap) (post : List Block) : ℕ := if h.Speculates post then 1 else 0

/-- The chunk that is asked for if free bytes reach the end and are too few. -/
def lateChunks (post : List Block) (csize asize : ℕ) : ℕ :=
  if Open post ∧ csize + freeBehind post < asize then 1 else 0

/-- The chunks that are asked for, the early one being counted with the block. -/
def chunks (h : Heap) (post : List Block) (csize asize : ℕ) : ℕ :=
  earlyChunks h post + lateChunks post (csize + chunksize * earlyChunks h post) asize

/-- The block can grow in place, with `k` chunks if they come to stand right behind it. -/
def GrowsInPlace (post : List Block) (csize asize k : ℕ) : Prop :=
  asize ≤ csize + freeBehind post + if Open post then chunksize * k else 0

/-- The heap has no room for `k` chunks, or it has none for a block behind these chunks, and the
block does not grow in place, and there is neither a free block nor a chunk that is large enough. -/
def Exhausted (h : Heap) (bs post : List Block) (csize asize k : ℕ) : Prop :=
  h.memMaxAddr < h.memBrk + chunksize * k ∨
    (¬ GrowsInPlace post csize asize k ∧ (∀ c ∈ bs, c.alloc = false → c.size < asize) ∧
      (0 < k → chunksize < asize) ∧
      h.memMaxAddr < h.memBrk + chunksize * k + max asize chunksize)

/-- The request could be met, but the block has to grow, and the heap has no room for the chunks
that are asked for; or it has none for another block behind them, where a block is needed that is
larger than a chunk and than all free blocks, and the block does not grow in place. -/
def Starved (h : Heap) (bs : List Block) (b : Block) (post : List Block) (asize : ℕ) : Prop :=
  b.size < asize ∧ ¬ Unmet h bs asize ∧
    (h.memMaxAddr < h.memBrk + chunksize * chunks h post b.size asize ∨
      (¬ GrowsInPlace post b.size asize (chunks h post b.size asize) ∧
        (∀ c ∈ bs, c.alloc = false → c.size < asize) ∧ chunksize < asize ∧
        h.memMaxAddr < h.memBrk + chunksize * chunks h post b.size asize + asize))

/-! ## `mm_malloc` -/

/-- The adjusted sizes of requests up to `MAX_HEAP`. -/
lemma adjust_lt (hn : n ≤ maxHeap) : adjust n < 2 ^ 31 := by
  unfold adjust dsize
  simp only [maxHeap] at hn
  split_ifs <;> omega

/-- `mm_malloc` has no branch of its own for an ordinary size. -/
lemma mmMalloc_of_ordinary (hn0 : 0 < n) (ho : Ordinary n) :
    h.mmMalloc n = h.mallocFit n (adjust n) := by
  obtain ⟨h16, h64, h112, h448, -, h4095, h8190⟩ := ho
  rw [mmMalloc, if_neg h4095, if_neg h8190, if_neg hn0.ne']
  dsimp only
  rw [if_neg (by tauto), if_neg (by tauto)]

/-- **`mm_malloc` returns `NULL` exactly if the request is unmet.** -/
lemma mmMalloc_null_iff (w : WellFormed h bs) (hn0 : 0 < n) (hn : n ≤ maxHeap) (ho : Ordinary n) :
    ReturnsNull (h.mmMalloc n) ↔ Unmet h bs (adjust n) := by
  have hlt := adjust_lt hn
  obtain ⟨h24, h8, -, -⟩ := adjust_spec (lt_of_le_of_lt hn (by decide) : n < 2 ^ 31)
  rw [mmMalloc_of_ordinary hn0 ho, ReturnsNull, Unmet, ← findFit_eq_zero_iff w hlt]
  obtain ⟨bp, hfit, hbp⟩ := findFit_spec w (adjust n)
  rcases hbp with rfl | ⟨c, hc, -, rfl, -⟩
  · -- the heap has to be grown
    have hsize : max (adjust n) chunksize < 2 ^ 32 ∧ 24 ≤ max (adjust n) chunksize ∧
        8 ∣ max (adjust n) chunksize := by
      rcases max_choice (adjust n) chunksize with hm | hm <;> rw [hm]
      · exact ⟨by omega, h24, h8⟩
      · decide
    have hs := extendSize_div hsize.2.2 (by omega)
    rw [hfit, eq_self_iff_true, true_and]
    rcases Nat.lt_or_ge h.memMaxAddr (h.memBrk + max (adjust n) chunksize) with hfull | hroom
    · have hx := extendHeap_of_lt w (e := chunk h _ hsize.2.1 hsize.2.2) rfl hs hsize.1 hfull
      rw [mallocFit_of_full hfit hx]
      exact iff_of_true rfl hfull
    · obtain ⟨r, xs, c, hx, he⟩ :=
        extendHeap_spec w (e := chunk h _ hsize.2.1 hsize.2.2) rfl rfl hs hroom
      rw [mallocFit_of_grown hfit hx ho.2.2.2.2.1]
      refine iff_of_false (fun h0 => ?_) (not_lt.2 hroom)
      have h0 : r.1 = 0 := Option.some_inj.1 h0
      exact (he.wellFormed.placed.pos c (by simp)).ne' (he.ptr ▸ h0)
  · have hpos : c.addr ≠ 0 := (w.placed.pos c hc).ne'
    rw [mallocFit, hfit, Option.bind_some, if_pos hpos]
    refine iff_of_false (fun h0 => hpos (Option.some_inj.1 h0)) fun hu => ?_
    exact hpos (Option.some_inj.1 hu.1)

/-! ## Extending the heap -/

/-- The heap has been extended by a chunk behind the blocks `pre ++ b :: post`. -/
structure Chunked (h : Heap) (pre : List Block) (b : Block) (post : List Block) (h' : Heap)
    (post' : List Block) : Prop where
  wellFormed : WellFormed h' (pre ++ b :: post')
  layout : post' = joinFree (post ++ [chunk h chunksize (by decide) (by decide)])
  brk : h'.memBrk = h.memBrk + chunksize
  maxAddr : h'.memMaxAddr = h.memMaxAddr

/-- An extension that is asked for fails or adds a chunk behind the blocks. -/
lemma extendIf_cases (w : WellFormed h (pre ++ b :: post)) (hb : b.alloc = true) :
    (h.memMaxAddr < h.memBrk + chunksize ∧
        ∀ (cond : Prop) [Decidable cond], cond → h.extendIf cond = .error (0, h)) ∨
      (h.memBrk + chunksize ≤ h.memMaxAddr ∧ ∃ h' post', Chunked h pre b post h' post' ∧
        ∀ (cond : Prop) [Decidable cond], cond → h.extendIf cond = .ok h') := by
  have hs : extendSize (chunksize / wsize) = chunksize := by decide
  set e := chunk h chunksize (by decide) (by decide) with he
  rcases Nat.lt_or_ge h.memMaxAddr (h.memBrk + chunksize) with hfull | hroom
  · have hx : h.extendHeap (chunksize / wsize) = none :=
      extendHeap_of_lt w (e := e) rfl hs (show chunksize < 2 ^ 32 by decide) hfull
    exact .inl ⟨hfull, fun cond _ hc => by rw [extendIf, if_pos hc, hx]⟩
  · obtain ⟨r, xs, c, hx, hext⟩ := extendHeap_spec w (e := e) rfl rfl hs hroom
    have hl : joinFree (pre ++ b :: post ++ [e]) = pre ++ b :: joinFree (post ++ [e]) := by
      rw [List.append_assoc, List.cons_append, joinFree_append_of_alloc hb,
        joinFree_of_noAdj (List.isChain_append.1 w.noAdj).1]
    have w' : WellFormed r.2 (pre ++ b :: joinFree (post ++ [e])) := by
      rw [← hl, hext.layout]
      exact hext.wellFormed
    refine .inr ⟨hroom, r.2, _, ⟨w', rfl, hext.brk.memBrk, hext.brk.memMaxAddr⟩, ?_⟩
    intro cond _ hc
    rw [extendIf, if_pos hc, hx]

/-- The first block of the heap stays the same. -/
lemma firstSize_eq (w : WellFormed h (pre ++ b :: post))
    (w' : WellFormed h' (pre ++ b :: post')) : h'.firstSize = h.firstSize := by
  cases pre with
  | nil => rw [w.firstSize_cons.1, w'.firstSize_cons.1]
  | cons a pre => rw [w.firstSize_cons.1, w'.firstSize_cons.1]

/-- What stands behind the block: the epilogue or a block. -/
lemma WellFormed.behind (w : WellFormed h (pre ++ b :: post)) (hb : b.alloc = true) :
    (post = [] ∧ h.getSize (hdrp (h.nextBlkp b.addr)) = 0 ∧
        h.getAlloc (hdrp (h.nextBlkp b.addr)) = 1) ∨
      ∃ c rest, post = c :: rest ∧ h.nextBlkp b.addr = c.addr := by
  have w₀ : WellFormed h (pre ++ [b] ++ post) := by simpa using w
  have tb := w.tagged b (by simp)
  cases post with
  | nil =>
    rw [tb.nextBlkp]
    exact .inl ⟨rfl, (w.window.dropRight hb).epilogue⟩
  | cons c rest =>
    rw [tb.nextBlkp]
    exact .inr ⟨c, rest, rfl, w₀.window.tagged_last.2⟩

/-- The tests of `mm_realloc` for a last block whose size is in a range. -/
lemma last_iff (w : WellFormed h (pre ++ b :: post)) (hb : b.alloc = true) (lo hi : ℕ) :
    (h.getSize (hdrp (h.nextBlkp b.addr)) > lo ∧ h.getSize (hdrp (h.nextBlkp b.addr)) ≤ hi ∧
        h.AtEnd (h.nextBlkp b.addr)) ↔ ∃ c, post = [c] ∧ lo < c.size ∧ c.size ≤ hi := by
  rcases w.behind hb with ⟨rfl, h0, -⟩ | ⟨c, rest, rfl, hc⟩
  · rw [h0]
    simp
  · have w₀ : WellFormed h (pre ++ [b] ++ c :: rest) := by simpa using w
    rw [hc, (w.tagged c (by simp)).getSize, w₀.atEnd_iff]
    constructor
    · rintro ⟨h1, h2, rfl⟩
      exact ⟨c, rfl, h1, h2⟩
    · rintro ⟨d, hd, h1, h2⟩
      obtain ⟨rfl, rfl⟩ := List.cons_eq_cons.1 hd
      exact ⟨h1, h2, rfl⟩

/-! ## The two parts of the growing -/

/-- The test of `mm_realloc` for a last block of 600 to 1000 bytes behind the block. -/
def Heap.NextMiddle (h : Heap) (ptr : ℕ) : Prop :=
  h.firstSize ≠ 16 + overhead ∧ h.getSize (hdrp (h.nextBlkp ptr)) > 600 ∧
    h.getSize (hdrp (h.nextBlkp ptr)) ≤ 1000 ∧ h.AtEnd (h.nextBlkp ptr)

instance (ptr : ℕ) : Decidable (h.NextMiddle ptr) :=
  inferInstanceAs (Decidable (h.firstSize ≠ 16 + overhead ∧
    h.getSize (hdrp (h.nextBlkp ptr)) > 600 ∧ h.getSize (hdrp (h.nextBlkp ptr)) ≤ 1000 ∧
      h.AtEnd (h.nextBlkp ptr)))

/-- The test of `mm_realloc` for a small last block behind the block. -/
def Heap.NextSmall (h : Heap) (ptr : ℕ) : Prop :=
  h.firstSize = 16 + overhead ∧ h.getSize (hdrp (h.nextBlkp ptr)) > 2 * (16 + overhead) ∧
    h.getSize (hdrp (h.nextBlkp ptr)) ≤ 2 * (16 + overhead + 20) ∧ h.AtEnd (h.nextBlkp ptr)

instance (ptr : ℕ) : Decidable (h.NextSmall ptr) :=
  inferInstanceAs (Decidable (h.firstSize = 16 + overhead ∧
    h.getSize (hdrp (h.nextBlkp ptr)) > 2 * (16 + overhead) ∧
      h.getSize (hdrp (h.nextBlkp ptr)) ≤ 2 * (16 + overhead + 20) ∧ h.AtEnd (h.nextBlkp ptr)))

/-- The beginning of `reallocGrow`, which extends the heap in special cases. -/
def Heap.reallocSpeculate (h : Heap) (ptr : ℕ) : Except (ℕ × Heap) Heap :=
  (h.extendIf (h.AtEnd ptr)).bind fun h =>
    (h.extendIf (h.NextMiddle ptr)).bind fun h => h.extendIf (h.NextSmall ptr)

lemma reallocGrow_eq (h : Heap) (ptr csize asize : ℕ) : h.reallocGrow ptr csize asize =
    (h.reallocSpeculate ptr).bind fun h => h.reallocInto ptr csize asize := by
  change h.reallocGrow ptr csize asize =
    ((h.extendIf (h.AtEnd ptr)) >>= fun h => (h.extendIf (h.NextMiddle ptr)) >>= fun h =>
      h.extendIf (h.NextSmall ptr)) >>= fun h => h.reallocInto ptr csize asize
  simp only [bind_assoc]
  rfl

/-- An extension that is not asked for. -/
lemma extendIf_of_not (cond : Prop) [Decidable cond] (hc : ¬ cond) : h.extendIf cond = .ok h :=
  if_neg hc

/-- The two tests in terms of the blocks. -/
lemma next_iff (w : WellFormed h (pre ++ b :: post)) (hb : b.alloc = true) :
    (h.NextMiddle b.addr ↔
      h.firstSize ≠ 16 + overhead ∧ ∃ c, post = [c] ∧ 600 < c.size ∧ c.size ≤ 1000) ∧
    (h.NextSmall b.addr ↔ h.firstSize = 16 + overhead ∧
      ∃ c, post = [c] ∧ 2 * (16 + overhead) < c.size ∧ c.size ≤ 2 * (16 + overhead + 20)) :=
  ⟨and_congr_right fun _ => last_iff w hb .., and_congr_right fun _ => last_iff w hb ..⟩

/-- **The first part** extends the heap by a chunk exactly in the special cases. -/
lemma reallocSpeculate_cases (w : WellFormed h (pre ++ b :: post)) (hb : b.alloc = true) :
    (¬ h.Speculates post ∧ h.reallocSpeculate b.addr = .ok h) ∨
      (h.Speculates post ∧ h.memMaxAddr < h.memBrk + chunksize ∧
        h.reallocSpeculate b.addr = .error (0, h)) ∨
      (h.Speculates post ∧ h.memBrk + chunksize ≤ h.memMaxAddr ∧ ∃ h' post',
        Chunked h pre b post h' post' ∧ h.reallocSpeculate b.addr = .ok h') := by
  have hend : h.AtEnd b.addr ↔ post = [] := w.atEnd_iff
  obtain ⟨hmiddle, hsmall⟩ := next_iff w hb
  rw [reallocSpeculate]
  by_cases hnil : post = []
  · subst hnil
    rcases extendIf_cases w hb with ⟨hfull, hx⟩ | ⟨hroom, h', post', hch, hx⟩
    · exact .inr (.inl ⟨trivial, hfull, by rw [hx _ (hend.2 rfl), Except.bind]⟩)
    · refine .inr (.inr ⟨trivial, hroom, h', post', hch, ?_⟩)
      -- the chunk that stands behind the block now is too large for the other cases
      obtain ⟨hmiddle', hsmall'⟩ := next_iff hch.wellFormed hb
      have hsize (c : Block) (hc : post' = [c]) : c.size = chunksize := by
        rw [hch.layout] at hc
        exact congrArg Block.size (List.singleton_inj.1 hc).symm
      have hno₁ : ¬ h'.NextMiddle b.addr := fun hm => by
        obtain ⟨-, c, hc, -, hle⟩ := hmiddle'.1 hm
        exact absurd (hsize c hc ▸ hle) (by decide)
      have hno₂ : ¬ h'.NextSmall b.addr := fun hm => by
        obtain ⟨-, c, hc, -, hle⟩ := hsmall'.1 hm
        exact absurd (hsize c hc ▸ hle) (by decide)
      rw [hx _ (hend.2 rfl), Except.bind, extendIf_of_not _ hno₁, Except.bind,
        extendIf_of_not _ hno₂]
  · rw [extendIf_of_not _ fun hc => hnil (hend.1 hc), Except.bind]
    by_cases hm : h.NextMiddle b.addr
    · obtain ⟨hfirst, c, rfl, hlo, hhi⟩ := hmiddle.1 hm
      have hspec : h.Speculates [c] := .inl ⟨hfirst, hlo, hhi⟩
      rcases extendIf_cases w hb with ⟨hfull, hx⟩ | ⟨hroom, h', post', hch, hx⟩
      · exact .inr (.inl ⟨hspec, hfull, by rw [hx _ hm, Except.bind]⟩)
      · refine .inr (.inr ⟨hspec, hroom, h', post', hch, ?_⟩)
        have hno : ¬ h'.NextSmall b.addr := fun hs =>
          hfirst ((firstSize_eq w hch.wellFormed) ▸ hs.1)
        rw [hx _ hm, Except.bind, extendIf_of_not _ hno]
    · rw [extendIf_of_not _ hm, Except.bind]
      by_cases hs : h.NextSmall b.addr
      · obtain ⟨hfirst, c, rfl, hlo, hhi⟩ := hsmall.1 hs
        have hspec : h.Speculates [c] := .inr ⟨hfirst, hlo, hhi⟩
        rcases extendIf_cases w hb with ⟨hfull, hx⟩ | ⟨hroom, h', post', hch, hx⟩
        · exact .inr (.inl ⟨hspec, hfull, hx _ hs⟩)
        · exact .inr (.inr ⟨hspec, hroom, h', post', hch, hx _ hs⟩)
      · refine .inl ⟨fun hspec => ?_, extendIf_of_not _ hs⟩
        cases post with
        | nil => exact hnil rfl
        | cons c rest =>
          cases rest with
          | nil =>
            rcases hspec with ⟨hfirst, hlo, hhi⟩ | ⟨hfirst, hlo, hhi⟩
            · exact hm (hmiddle.2 ⟨hfirst, c, rfl, hlo, hhi⟩)
            · exact hs (hsmall.2 ⟨hfirst, c, rfl, hlo, hhi⟩)
          | cons d rest => exact hspec

/-- The outcome of the growing makes the call return `NULL`. -/
def Fails (n : ℕ) : Except (ℕ × Heap) Heap → Prop
  | .error r => r.1 = 0
  | .ok h => ReturnsNull (h.mmMalloc n)

lemma reallocTake_fst (h : Heap) (ptr totSize asize : ℕ) :
    (h.reallocTake ptr totSize asize).1 = ptr := by
  rw [reallocTake]
  split_ifs <;> rfl

/-- Without chunks, a block that does not grow in place is refused like a request. -/
lemma exhausted_zero_iff (hbrk : h.memBrk ≤ h.memMaxAddr)
    (hgrow : ¬ GrowsInPlace post csize asize 0) :
    Exhausted h bs post csize asize 0 ↔ Unmet h bs asize := by
  unfold Exhausted Unmet
  simp only [Nat.mul_zero, Nat.add_zero, hgrow, not_false_iff, true_and]
  constructor
  · rintro (hlt | ⟨hno, -, hlt⟩)
    · exact absurd hbrk (not_le.2 hlt)
    · exact ⟨hno, hlt⟩
  · rintro ⟨hno, hlt⟩
    exact .inr ⟨hno, fun h0 => absurd h0 (Nat.lt_irrefl 0), hlt⟩

/-- What a chunk behind a block that is the last one or the last but one comes to. -/
lemma Chunked.cases (hch : Chunked h pre b post h' post') (hpost : post.length ≤ 1) :
    post' ≠ [] ∧ (Open post' ↔ Open post) ∧
      freeBehind post' = freeBehind post + (if Open post then chunksize else 0) ∧
      ∀ asize, (∀ c ∈ post', c.alloc = false → c.size < asize) ↔
        chunksize < asize ∧ (∀ c ∈ post, c.alloc = false → c.size < asize) ∧
          (Open post → freeBehind post + chunksize < asize) := by
  have hl := hch.layout
  set e := chunk h chunksize (by decide) (by decide) with he
  have hsize : e.size = chunksize := rfl
  have hfree : e.alloc = false := rfl
  cases post with
  | nil =>
    obtain rfl : post' = [e] := hl
    refine ⟨List.cons_ne_nil _ _, iff_of_true hfree trivial, ?_, fun asize => ?_⟩
    · simp [freeBehind, hfree, hsize, Open]
    · simp [freeBehind, hfree, hsize, Open]
  | cons c rest =>
    obtain rfl : rest = [] := by simpa using hpost
    cases hc : c.alloc with
    | true =>
      obtain rfl : post' = [c, e] := by simpa [consJoin, hc] using hl
      have hopen : ¬ Open [c] := by simp [Open, hc]
      refine ⟨List.cons_ne_nil _ _, iff_of_false id hopen, ?_, fun asize => ?_⟩
      · simp [freeBehind, hc, hopen]
      · simp [hc, hfree, hsize, hopen]
    | false =>
      obtain rfl : post' = [c.join e] := by simpa [consJoin, hc, hfree] using hl
      have hopen : Open [c] := hc
      refine ⟨List.cons_ne_nil _ _, iff_of_true rfl hc, ?_, fun asize => ?_⟩
      · simp [freeBehind, hc, hsize, hopen]
      · simp only [List.mem_singleton, forall_eq, Block.join_alloc, Block.join_size, hsize, hc,
          hopen, freeBehind, Bool.false_eq_true, if_false, true_implies]
        constructor
        · intro hlt
          exact ⟨by omega, by omega, hlt⟩
        · intro hlt
          exact hlt.2.2

/-- A chunk that is there counts as one that is asked for. -/
lemma Chunked.exhausted_iff (hch : Chunked h pre b post h' post') (hb : b.alloc = true)
    (hpost : post.length ≤ 1) :
    Exhausted h' (pre ++ b :: post') post' csize asize k ↔
      Exhausted h (pre ++ b :: post) post csize asize (k + 1) := by
  obtain ⟨-, hopen, hbehind, hfits⟩ := hch.cases hpost
  have hbrk : h'.memBrk + chunksize * k = h.memBrk + chunksize * (k + 1) := by
    rw [hch.brk, Nat.mul_succ]
    omega
  have hgrow : GrowsInPlace post' csize asize k ↔ GrowsInPlace post csize asize (k + 1) := by
    rw [GrowsInPlace, GrowsInPlace, hbehind, Nat.mul_succ]
    simp only [hopen]
    split_ifs <;> omega
  have hsplit (xs : List Block) (asize : ℕ) :
      (∀ c ∈ pre ++ b :: xs, c.alloc = false → c.size < asize) ↔
        (∀ c ∈ pre, c.alloc = false → c.size < asize) ∧
          ∀ c ∈ xs, c.alloc = false → c.size < asize := by
    simp [hb, or_imp, forall_and]
  rw [Exhausted, Exhausted, hbrk, hch.maxAddr, hgrow, hsplit, hsplit, hfits]
  refine or_congr_right (and_congr_right fun hno => ?_)
  have hroom : Open post → freeBehind post + chunksize < asize := by
    intro ho
    rw [GrowsInPlace, if_pos ho, Nat.mul_succ] at hno
    omega
  constructor
  · rintro ⟨⟨hpre, hlt, hxs, -⟩, -, hfull⟩
    exact ⟨⟨hpre, hxs⟩, fun _ => hlt, hfull⟩
  · rintro ⟨⟨hpre, hxs⟩, hlt, hfull⟩
    have hlt := hlt k.succ_pos
    exact ⟨⟨hpre, hlt, hxs, hroom⟩, fun _ => hlt, hfull⟩

/-- **The second part** fails exactly if the heap is exhausted by the chunk that it asks for. -/
lemma reallocInto_fails_iff (w : WellFormed h (pre ++ b :: post)) (hb : b.alloc = true)
    (hpost : post ≠ []) (hn0 : 0 < n) (hn : n ≤ maxHeap) (ho : Ordinary n)
    (hlt : b.size < adjust n) :
    Fails n (h.reallocInto b.addr b.size (adjust n)) ↔
      Exhausted h (pre ++ b :: post) post b.size (adjust n)
        (lateChunks post b.size (adjust n)) := by
  have hbrk := w.arena.brkLe
  have hnull := mmMalloc_null_iff w hn0 hn ho
  rcases w.behind hb with ⟨h0, -⟩ | ⟨c, rest, rfl, hc⟩
  · exact absurd h0 hpost
  have w₀ : WellFormed h (pre ++ [b] ++ c :: rest) := by simpa using w
  have tc := w.tagged c (by simp)
  rw [reallocInto, hc]
  dsimp only
  rw [tc.getAlloc, tc.getSize]
  cases hca : c.alloc with
  | true =>
    have hopen : ¬ Open (c :: rest) := by
      cases rest <;> simp [Open, hca]
    have hgrow : ¬ GrowsInPlace (c :: rest) b.size (adjust n) 0 := by
      simpa [GrowsInPlace, freeBehind, hca] using hlt
    rw [if_neg (by simp), lateChunks, if_neg fun h => hopen h.1, exhausted_zero_iff hbrk hgrow]
    exact hnull
  | false =>
    have hbehind : freeBehind (c :: rest) = c.size := by simp [freeBehind, hca]
    rw [if_pos (by simp)]
    by_cases hfit : b.size + c.size ≥ adjust n
    · -- the free block behind is large enough
      rw [if_pos hfit, lateChunks, hbehind, if_neg (by omega)]
      refine iff_of_false (fun h0 => ?_) ?_
      · exact (w.placed.pos b (by simp)).ne' ((reallocTake_fst ..).symm.trans h0)
      · rintro (hfull | ⟨hno, -⟩)
        · exact absurd hbrk (not_le.2 hfull)
        · exact hno (by simpa [GrowsInPlace, hbehind] using hfit)
    · rw [if_neg hfit]
      by_cases hend : h.AtEnd c.addr
      · -- one chunk more
        obtain rfl : rest = [] := w₀.atEnd_iff.1 hend
        have hopen : Open [c] := hca
        rw [if_pos hend, lateChunks, hbehind, if_pos ⟨hopen, not_le.1 hfit⟩]
        rcases extendIf_cases w hb with ⟨hfull, hx⟩ | ⟨hroom, h', post', hch, hx⟩
        · rw [hx True trivial]
          exact iff_of_true rfl (.inl hfull)
        · rw [hx True trivial]
          change Fails n (if b.size + c.size + chunksize ≥ adjust n then _ else _) ↔ _
          by_cases hfit' : b.size + c.size + chunksize ≥ adjust n
          · rw [if_pos hfit']
            refine iff_of_false (fun h0 => ?_) ?_
            · exact (w.placed.pos b (by simp)).ne' ((reallocTake_fst ..).symm.trans h0)
            · rintro (hfull | ⟨hno, -⟩)
              · exact absurd hroom (not_le.2 hfull)
              · rw [GrowsInPlace, hbehind, if_pos hopen] at hno
                exact hno hfit'
          · rw [if_neg hfit', ← hch.exhausted_iff hb (by simp), exhausted_zero_iff]
            · exact mmMalloc_null_iff hch.wellFormed hn0 hn ho
            · exact hch.wellFormed.arena.brkLe
            · obtain ⟨-, hopen', hbehind', -⟩ := hch.cases (by simp)
              rw [GrowsInPlace, hbehind', hbehind, if_pos (hopen'.2 hopen), if_pos hopen]
              omega
      · -- an allocated block follows on the free one
        have hopen : ¬ Open (c :: rest) := by
          cases rest with
          | nil => exact absurd (w₀.atEnd_iff.2 rfl) hend
          | cons d rest => exact id
        have hgrow : ¬ GrowsInPlace (c :: rest) b.size (adjust n) 0 := by
          rw [GrowsInPlace, hbehind, if_neg hopen]
          omega
        rw [if_neg hend, lateChunks, if_neg fun h => hopen h.1, exhausted_zero_iff hbrk hgrow]
        exact hnull

/-- **The growing fails** exactly if the heap is exhausted by the chunks that are asked for. -/
lemma reallocGrow_fails_iff (w : WellFormed h (pre ++ b :: post)) (hb : b.alloc = true)
    (hn0 : 0 < n) (hn : n ≤ maxHeap) (ho : Ordinary n) (hlt : b.size < adjust n) :
    Fails n (h.reallocGrow b.addr b.size (adjust n)) ↔
      Exhausted h (pre ++ b :: post) post b.size (adjust n)
        (chunks h post b.size (adjust n)) := by
  rw [reallocGrow_eq]
  rcases reallocSpeculate_cases w hb with ⟨hspec, hx⟩ | ⟨hspec, hfull, hx⟩ |
    ⟨hspec, hroom, h', post', hch, hx⟩
  · have hpost : post ≠ [] := by
      rintro rfl
      exact hspec trivial
    rw [hx, Except.bind, chunks, earlyChunks, if_neg hspec, Nat.mul_zero, Nat.add_zero,
      Nat.zero_add]
    exact reallocInto_fails_iff w hb hpost hn0 hn ho hlt
  · rw [hx, Except.bind, chunks, earlyChunks, if_pos hspec]
    refine iff_of_true rfl (.inl ?_)
    rw [Nat.mul_add]
    omega
  · have hlen : post.length ≤ 1 := by
      cases post with
      | nil => simp
      | cons c rest =>
        cases rest with
        | nil => simp
        | cons d rest => exact hspec.elim
    obtain ⟨hpost, hopen, hbehind, -⟩ := hch.cases hlen
    have hlate : lateChunks post' b.size (adjust n) =
        lateChunks post (b.size + chunksize) (adjust n) := by
      simp only [lateChunks, hopen, hbehind]
      refine if_congr (and_congr_right fun h => ?_) rfl rfl
      rw [if_pos h]
      omega
    rw [hx, Except.bind, chunks, earlyChunks, if_pos hspec, Nat.add_comm, Nat.mul_one, ← hlate,
      ← hch.exhausted_iff hb hlen]
    exact reallocInto_fails_iff hch.wellFormed hb hpost hn0 hn ho hlt

/-! ## `mm_realloc` -/

/-- A block that has to be moved is refused exactly if `mm_malloc` refuses. -/
lemma reallocMove_null_iff (h : Heap) (ptr csize size : ℕ) :
    ReturnsNull (h.reallocMove ptr csize size) ↔ ReturnsNull (h.mmMalloc size) := by
  rw [reallocMove_eq, ReturnsNull, ReturnsNull]
  cases h.mmMalloc size with
  | none => rfl
  | some r =>
    rw [Option.map_some, Option.map_some, Option.map_some, Option.some_inj, Option.some_inj]
    split_ifs with h0
    · exact iff_of_true rfl h0
    · rfl

/-- **`mm_realloc` returns `NULL` exactly if the block has to grow and the heap is exhausted** by
the chunks that are asked for. -/
lemma mmRealloc_null_iff (w : WellFormed h (pre ++ b :: post)) (hb : b.alloc = true)
    (hn0 : 0 < n) (hn : n ≤ maxHeap) (ho : Ordinary n) :
    ReturnsNull (h.mmRealloc b.addr n) ↔ b.size < adjust n ∧
      Exhausted h (pre ++ b :: post) post b.size (adjust n)
        (chunks h post b.size (adjust n)) := by
  have hpos : b.addr ≠ 0 := (w.placed.pos b (by simp)).ne'
  have hcs : h.getSize (hdrp b.addr) = b.size := (w.tagged b (by simp)).getSize
  have hmod : (adjust n + 3 * dsize) % 2 ^ 64 = adjust n + 24 :=
    Nat.mod_eq_of_lt (by have := adjust_lt hn; simp only [dsize]; omega)
  have hkept {h' : Heap} : ¬ ReturnsNull (some (b.addr, h')) :=
    fun h0 => hpos (Option.some_inj.1 h0)
  rw [mmRealloc, if_neg hn0.ne', if_neg hpos]
  dsimp only
  rw [hcs, hmod]
  by_cases hkeep : b.size ≥ adjust n ∧ b.size < adjust n + 24
  · rw [if_pos hkeep]
    exact iff_of_false hkept fun h => absurd hkeep.1 (not_le.2 h.1)
  rw [if_neg hkeep]
  by_cases hsplit : b.size ≥ adjust n + 24
  · rw [if_pos hsplit]
    exact iff_of_false hkept fun h => absurd (Nat.le_of_add_right_le hsplit) (not_le.2 h.1)
  rw [if_neg hsplit]
  have hlt : b.size < adjust n := by
    by_contra hge
    exact hkeep ⟨not_lt.1 hge, not_le.1 hsplit⟩
  rw [← reallocGrow_fails_iff w hb hn0 hn ho hlt]
  simp only [hlt, true_and]
  cases h.reallocGrow b.addr b.size (adjust n) with
  | error r => exact Option.some_inj
  | ok h₁ => exact reallocMove_null_iff h₁ b.addr b.size n

/-- Both calls return `NULL`, or `mm_realloc` does not. -/
def NullOnlyIfUnmet (h : Heap) (p n : ℕ) : Prop :=
  ReturnsNull (h.mmRealloc p n) → ReturnsNull (h.mmMalloc n)

end Malloc
