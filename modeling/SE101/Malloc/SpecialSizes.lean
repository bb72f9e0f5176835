import SE101.Malloc.Carve
import SE101.Malloc.Sizes

set_option relaxedAutoImplicit false
set_option autoImplicit false

/-!
# Requests of every size

The five sizes with a branch that chooses an address of its own. The branches for 4095 and 8190
bytes return the first block of the heap as it is, or an address inside of it; those for 112, 448
and 4092 bytes cut up the last or the first block without a look at its size or its allocated bit.

## Main definitions

* `Malloc.Served` — the heaps in which a request is served rightly.
* `Malloc.Struck` — the heaps in which a request writes a pointer into a header it has written.

## Main results

* `Malloc.sized_8190_iff`, `Malloc.sized_4095_iff`, `Malloc.sized_last_iff`,
  `Malloc.sized_4092_iff` — the five sizes.
* `Malloc.sized_iff` — when a request is served rightly.
-/

namespace Malloc

open LittleEndian Heap

variable {h h' : Heap} {b c e f : Block} {bs pre post xs : List Block}
variable {i n p q words size first asize : ℕ}

/-! ## The first block as it is -/

/-- The first block lies inside the heap. -/
lemma WellFormed.firstSize_le (w : WellFormed h bs) (hs : 8 ≤ h.firstSize) :
    h.memStartBrk + 16 + h.firstSize ≤ h.memBrk := by
  cases bs with
  | nil => simp [w.firstSize_nil] at hs
  | cons b bs =>
    have hb := w.spans.bounds (List.mem_cons_self (a := b) (l := bs))
    have h1 : b.addr = h.memStartBrk + 16 := w.spans.1
    rw [w.firstSize_cons.1, ← h1]
    exact hb.2

/-- The first block is returned, and a byte behind its start is written. -/
lemma sized_first {v : Byte} (w : WellFormed h' bs) (hp : h'.memStartBrk + 16 ≤ p)
    (hr : h.mmMalloc n = some (h'.memStartBrk + 16, h'.putc p v)) :
    Sized h n ↔ n + 8 ≤ h'.firstSize := by
  have hsize : (h'.putc p v).getSize (hdrp (h'.memStartBrk + 16)) = h'.firstSize := by
    rw [firstSize, w.nextBlkp_listp, getSize, getSize, Heap.get, Heap.get, putc_mem, hdrp, wsize]
    congr 2
    refine load_congr fun i hi => Function.update_of_ne ?_ _ _
    omega
  rw [sized_iff_of_ne_zero hr (by omega), hsize, hdrp, wsize]
  constructor
  · exact fun hin => hin.2.2
  · intro hle
    have := w.firstSize_le (by omega)
    exact ⟨by simp only [putc]; omega, by simp only [putc]; omega, hle⟩

/-- **Requests for 8190 bytes** are served rightly exactly if the first block is large enough. -/
theorem sized_8190_iff (w : WellFormed h bs) : Sized h 8190 ↔ 8198 ≤ h.firstSize := by
  have hlistp := w.arena.listp
  have hp : h.memStartBrk + 8207 = h.heapListp + 4 + 4 + 8191 := by omega
  have hq : h.memStartBrk + 16 = h.heapListp + 4 + 4 + 8191 - 8191 := by omega
  have hr : h.mmMalloc 8190 = some (h.memStartBrk + 16, h.putc (h.memStartBrk + 8207) marker) := by
    rw [mmMalloc, if_neg (by omega), if_pos rfl, hp, hq]
    rfl
  rw [sized_first w (by omega) hr]

/-- The word at `p` reads as the header of the epilogue. -/
def ReadsEnd (h : Heap) (p : ℕ) : Prop := h.getSize p = 0 ∧ h.getAlloc p ≠ 0

/-- The heaps in which the branch for 4095 bytes returns a large enough block, or `NULL`. -/
def Served4095 (h : Heap) (bs : List Block) : Prop :=
  (ReadsEnd h (h.memStartBrk + 4108) ∧
      (h.memMaxAddr < h.memBrk + 4104 ∨ ∀ b ∈ bs, b.alloc = false)) ∨
    (h.mem (h.memStartBrk + 4111) ≠ marker ∧ 4103 ≤ h.firstSize)

/-- The branch for 4095 bytes when the word it looks at does not read as the epilogue. -/
lemma malloc4095_of_not_readsEnd (w : WellFormed h bs)
    (hend : ¬ ReadsEnd h (h.memStartBrk + 4108)) :
    h.malloc4095 = h.mark4095 (h.memStartBrk + 4107) := by
  have hlistp := w.arena.listp
  have hbp : h.heapListp + 4 + 4095 = h.memStartBrk + 4107 := by omega
  rw [malloc4095, hbp]
  exact if_neg hend

/-- The branch for 4095 bytes when the word it looks at reads as the epilogue. -/
lemma malloc4095_of_readsEnd (w : WellFormed h bs) (hend : ReadsEnd h (h.memStartBrk + 4108)) :
    (h.extendHeap (chunksize / wsize + 1) = none → h.malloc4095 = (0, h)) ∧
      ∀ r, h.extendHeap (chunksize / wsize + 1) = some r →
        h.malloc4095 = r.2.mark4095 (h.memStartBrk + 4107) := by
  have hlistp := w.arena.listp
  have hbp : h.heapListp + 4 + 4095 = h.memStartBrk + 4107 := by omega
  have hend' : h.getSize (h.memStartBrk + 4107 + 1) = 0 ∧
      h.getAlloc (h.memStartBrk + 4107 + 1) ≠ 0 := hend
  refine ⟨fun hr => ?_, fun r hr => ?_⟩
  · rw [malloc4095, hbp, if_pos hend', hr]
  · rw [malloc4095, hbp, if_pos hend', hr]

/-- The byte that the branch looks at, and the two addresses that it returns. -/
lemma mark4095_eq (h : Heap) (a : ℕ) : h.mark4095 (a + 4107) =
    if h.mem (a + 4111) ≠ marker then (a + 16, h.putc (a + 4111) marker)
    else (a + 4112, h.putc (a + 8207) marker) := by
  obtain ⟨bp, hbp⟩ : ∃ bp, bp = a + 4107 + 4 := ⟨_, rfl⟩
  have hq : a + 16 = bp - 4095 := by omega
  have hp' : a + 8207 = bp + 4096 := by omega
  have hq' : a + 4112 = bp + 4096 - 4095 := by omega
  rw [mark4095, ← hbp, hq, hp', hq']

/-- After the heap has grown or not, the branch for 4095 bytes looks at one byte. -/
lemma sized_4095_of_mark (w : WellFormed h' xs)
    (hr : h.mmMalloc 4095 = some (h'.mark4095 (h'.memStartBrk + 4107))) :
    Sized h 4095 ↔ h'.mem (h'.memStartBrk + 4111) ≠ marker ∧ 4103 ≤ h'.firstSize := by
  obtain ⟨a, ha⟩ : ∃ a, a = h'.memStartBrk := ⟨_, rfl⟩
  rw [← ha, mark4095_eq] at hr
  rw [← ha]
  by_cases hm : h'.mem (a + 4111) ≠ marker
  · rw [if_pos hm, ha] at hr
    rw [sized_first w (by omega) hr]
    exact ⟨fun hle => ⟨hm, hle⟩, fun hle => hle.2⟩
  · rw [if_neg hm] at hr
    refine iff_of_false ?_ fun hin => hm hin.1
    rw [sized_iff_of_ne_zero hr (by omega)]
    rintro ⟨-, hin, -⟩
    -- the last byte of the header is the marker
    have hM := w.arena.maxAddr
    have hbrk := w.arena.brkLe
    have hbyte := load_div_mod (m := (h'.putc (a + 8207) marker).mem) (a := a + 4108)
      (show 3 < 4 by decide)
    rw [putc_mem, Function.update_of_ne (by omega), Nat.add_assoc, not_not.1 hm,
      show marker.toNat = 255 from rfl] at hbyte
    simp only [maxHeap, getSize, Heap.get, hdrp, wsize, putc] at hM hin hbrk
    rw [show a + 4112 - 4 = a + 4108 by omega] at hin
    omega

/-- A heap without allocated blocks has one block at most. -/
lemma WellFormed.eq_nil_or_singleton (w : WellFormed h bs) (hfree : ∀ b ∈ bs, b.alloc = false) :
    bs = [] ∨ ∃ b, bs = [b] := by
  cases bs with
  | nil => exact .inl rfl
  | cons b bs =>
    cases bs with
    | nil => exact .inr ⟨b, rfl⟩
    | cons c bs =>
      have hadj := (List.isChain_cons_cons.1 w.noAdj).1
      simp [hfree b (by simp), hfree c (by simp)] at hadj

/-- The heap grows by a block of its own, or its free last block becomes larger. -/
lemma Extended.cases {r : ℕ × Heap} (w : WellFormed h bs) (hx : Extended h bs e r xs c)
    (he : e.alloc = false) :
    (xs = bs ∧ c = e ∧ ∀ p ∈ bs.getLast?, p.alloc = true) ∨
      ∃ p, p.alloc = false ∧ bs = xs ++ [p] ∧ c = p.join e := by
  rcases List.eq_nil_or_concat bs with rfl | ⟨ys, p, rfl⟩
  · have hl := hx.layout
    rw [List.nil_append, joinFree_of_noAdj (List.isChain_singleton e), ← List.nil_append [e]] at hl
    obtain ⟨h1, h2⟩ := List.append_inj' hl rfl
    exact .inl ⟨h1.symm, (List.singleton_inj.1 h2).symm, by simp⟩
  · rw [List.concat_eq_append] at *
    cases hp : p.alloc with
    | true =>
      obtain ⟨rfl, rfl⟩ := hx.of_alloc w.noAdj hp
      exact .inl ⟨rfl, rfl, by simp [hp]⟩
    | false =>
      obtain ⟨rfl, rfl⟩ := hx.of_free w.noAdj hp he
      exact .inr ⟨p, hp, rfl, rfl⟩

/-- Growing by a block makes the first block larger only if no block is allocated. -/
lemma Extended.firstSize {r : ℕ × Heap} (w : WellFormed h bs) (hx : Extended h bs e r xs c)
    (he : e.alloc = false) : (∀ b ∈ bs, b.alloc = false) ∧ e.size ≤ r.2.firstSize ∨
      ¬ (∀ b ∈ bs, b.alloc = false) ∧ r.2.firstSize = h.firstSize := by
  have hw := hx.wellFormed
  have hle := hx.size_le
  rcases hx.cases w he with ⟨rfl, rfl, hlast⟩ | ⟨p, hp, rfl, rfl⟩
  · cases xs with
    | nil =>
      have hw' : WellFormed r.2 (c :: []) := hw
      exact .inl ⟨by simp, hw'.firstSize_cons.1.ge⟩
    | cons f ys =>
      refine .inr ⟨fun hall => ?_, ?_⟩
      · have hmem := List.getLast_mem (List.cons_ne_nil f ys)
        have hal := hlast _ (List.getLast?_eq_some_getLast (List.cons_ne_nil f ys))
        simp [hall _ hmem] at hal
      · have h2 : WellFormed r.2 (f :: (ys ++ [c])) := hw
        rw [h2.firstSize_cons.1, w.firstSize_cons.1]
  · cases xs with
    | nil =>
      have hw' : WellFormed r.2 (p.join e :: []) := hw
      exact .inl ⟨by simp [hp], hle.trans hw'.firstSize_cons.1.ge⟩
    | cons f ys =>
      refine .inr ⟨fun hall => ?_, ?_⟩
      · -- the block in front of a free one is allocated
        have hmem := List.getLast_mem (List.cons_ne_nil f ys)
        have hal := w.noAdj.last_alloc hp _
          (List.getLast?_eq_some_getLast (List.cons_ne_nil f ys))
        simp [hall _ (List.mem_append_left [p] hmem)] at hal
      · have h1 : WellFormed h (f :: (ys ++ [p])) := w
        have h2 : WellFormed r.2 (f :: (ys ++ [p.join e])) := hw
        rw [h2.firstSize_cons.1, h1.firstSize_cons.1]

/-- The byte that the branch for 4095 bytes looks at stays zero when the heap grows, if it belongs
to a large first block or to the new one. -/
lemma extendHeap_mem_first {r : ℕ × Heap} (w : WellFormed h bs) (he : e.addr = h.memBrk)
    (hfree : e.alloc = false) (hs : extendSize words = e.size) (h4104 : e.size = 4104)
    (hmax : e.next ≤ h.memMaxAddr) (hr : h.extendHeap words = some r)
    (hor : (∀ b ∈ bs, b.alloc = false) ∨ 4103 ≤ h.firstSize)
    (h0 : h.mem (h.memStartBrk + 4111) = 0) : r.2.mem (h.memStartBrk + 4111) = 0 := by
  have hen : e.next = h.memBrk + 4104 := by rw [Block.next, he, h4104]
  cases bs with
  | nil =>
    have hb : h.memStartBrk + 16 = h.memBrk := w.spans
    exact extendHeap_mem_zero w he hfree hs (by omega) hmax hr (by omega) (by omega)
      (.inl (by omega)) h0
  | cons f bs =>
    have hf : f.addr = h.memStartBrk + 16 := w.spans.1
    have hfn : f.next = f.addr + f.size := rfl
    have hfb := w.spans.bounds (List.mem_cons_self (a := f) (l := bs))
    have hsort := List.pairwise_cons.1 w.spans.sorted
    have h8 := f.dvd
    rw [w.firstSize_cons.1] at hor
    rcases Nat.lt_or_ge f.size 4103 with hlt | hge
    · -- the only block, which becomes part of the new one
      have hall := hor.resolve_right (by omega)
      obtain rfl : bs = [] := by
        rcases w.eq_nil_or_singleton hall with h | ⟨b, h⟩ <;> simp_all
      have hbrk : f.next = h.memBrk := w.spans.2
      exact extendHeap_mem_zero w he hfree hs (by omega) hmax hr (by omega) (by omega)
        (.inr ⟨f, rfl, hall f (by simp)⟩) h0
    · rw [extendHeap_mem w he hfree hs hmax hr (by omega) (fun g hg => ?_) (fun p hp => ?_), h0]
      · rcases List.mem_cons.1 (mem_freeBlocks.1 hg).1 with rfl | hg
        · omega
        · have := hsort.1 g hg
          omega
      · rcases List.mem_cons.1 (List.mem_of_getLast? hp) with rfl | hp
        · omega
        · have := hsort.1 p hp
          omega

/-- **Requests for 4095 bytes** are served rightly exactly if the first block is large enough and
the byte looked at is no marker, or the heap is grown and has no allocated block, or it cannot be
grown. -/
theorem sized_4095_iff (w : WellFormed h bs) : Sized h 4095 ↔ Served4095 h bs := by
  have hb := w.window_end.bounds
  have hM := w.arena.maxAddr
  simp only [maxHeap] at hM
  have hcall : h.mmMalloc 4095 = some h.malloc4095 := by rw [mmMalloc, if_pos rfl]
  rw [Served4095]
  by_cases hend : ReadsEnd h (h.memStartBrk + 4108)
  · have hzero : h.mem (h.memStartBrk + 4111) = 0 := by
      have hlt : load h.mem (h.memStartBrk + 4108) (3 + 1) < 1 * 256 ^ 3 := by
        have := hend.1
        simp only [getSize, Heap.get] at this
        norm_num
        omega
      have := toNat_last_le hlt
      exact BitVec.eq_of_toNat_eq (by simpa using this)
    have hmark : h.mem (h.memStartBrk + 4111) ≠ marker := by
      rw [hzero]
      decide
    obtain ⟨hnone, hsome⟩ := malloc4095_of_readsEnd w hend
    have hs : extendSize (chunksize / wsize + 1) = 4104 := by decide
    set e := chunk h 4104 (by decide) (by decide) with he
    have hen : e.next = h.memBrk + 4104 := rfl
    rcases Nat.lt_or_ge h.memMaxAddr (h.memBrk + 4104) with hroom | hroom
    · rw [hnone (extendHeap_of_lt w (e := e) rfl hs
        (show (4104 : ℕ) < 2 ^ 32 by decide) hroom)] at hcall
      exact iff_of_true (sized_of_null hcall) (.inl ⟨hend, .inl hroom⟩)
    · obtain ⟨r, xs, c, hr, hx⟩ := extendHeap_spec w (e := e) rfl rfl hs (by omega)
      have hstart : r.2.memStartBrk = h.memStartBrk := hx.brk.memStartBrk
      rw [hsome r hr, ← hstart] at hcall
      have hmem := extendHeap_mem_first w (e := e) rfl rfl hs rfl (by omega) hr
      have hdec : ((0 : Byte) ≠ marker) := by decide
      rw [sized_4095_of_mark hx.wellFormed hcall, hstart]
      rcases hx.firstSize w rfl with ⟨hall, hle⟩ | ⟨hall, heq⟩
      · have hle : 4104 ≤ r.2.firstSize := hle
        exact iff_of_true ⟨by rw [hmem (.inl hall) hzero]; exact hdec, by omega⟩
          (.inl ⟨hend, .inr hall⟩)
      · rw [heq]
        constructor
        · exact fun hin => .inr ⟨hmark, hin.2⟩
        · rintro (⟨-, hno | hno⟩ | ⟨-, hle⟩)
          · omega
          · exact absurd hno hall
          · exact ⟨by rw [hmem (.inr hle) hzero]; exact hdec, hle⟩
  · rw [malloc4095_of_not_readsEnd w hend] at hcall
    rw [sized_4095_of_mark w hcall]
    exact ⟨.inr, fun hor => hor.resolve_left fun hno => hend hno.1⟩

/-! ## The last block -/

/-- The blocks in front of a block leave room for their pointers. -/
lemma WellFormed.addr_add_le_of_mem (w : WellFormed h (pre ++ b :: post)) (hc : c ∈ pre) :
    c.addr + 24 ≤ b.addr :=
  le_trans c.addr_add_le ((List.pairwise_append.1 w.spans.sorted).2.2 c hc b (by simp))

/-- Cutting up the last block after the heap has grown behind it. -/
lemma splitThree_grown {r : ℕ × Heap} (w : WellFormed h (pre ++ [b]))
    (hx : Extended h (pre ++ [b]) e r xs c) (he : e.addr = h.memBrk) (hfree : e.alloc = false)
    (he40 : 40 < e.size) (hf24 : 24 ≤ first) (hf8 : 8 ∣ first) (hflt : first < 2 ^ 24)
    (h24 : 24 ≤ asize) (h8 : 8 ∣ asize) (hlt : asize < 2 ^ 24) (hst : ¬ StruckAt h b first) :
    (r.2.splitThree b.addr first asize).1 = b.addr + first ∧
      (r.2.splitThree b.addr first asize).2.getSize (hdrp (b.addr + first)) = asize := by
  have hbrk : b.next = h.memBrk := (spans_concat.1 w.spans).2
  have hbn : b.next = b.addr + b.size := rfl
  have hb8 := b.dvd
  have hpos := (w.spans.bounds (b := b) (by simp)).1
  have hw' := hx.wellFormed
  cases hb : b.alloc with
  | false =>
    obtain ⟨rfl, rfl⟩ := hx.of_free w.noAdj hb hfree
    have hno (i q : ℕ) (hi : i < listNum) (hq : b.addr ≤ q) :
        HeadOff (r.2.removeBlock b.addr) i q :=
      headOff_removeBlock (b := b.join e) hw' hi (by omega)
        (fun d hd _ _ => by
          have := w.addr_add_le_of_mem (c := d) (by simpa using hd)
          omega) (fun ha => by simp at ha)
    exact splitThree_getSize (by omega) (hw'.tagged (b.join e) (by simp)).getSize
      (b.join e).dvd hf24 hf8 (by omega) h24 h8 (by omega)
      (hno _ _ (getBlockIndex_lt _) le_rfl) (hno _ _ (getBlockIndex_lt _) (by omega))
  | true =>
    obtain ⟨rfl, rfl⟩ := hx.of_alloc w.noAdj hb
    rw [List.append_assoc] at hw'
    have hstrike {q : ℕ} (hq : q = b.addr ∨ q = b.addr + first) :
        b.alloc = true → ¬ Strikes r.2 b q := by
      intro _ hs
      rw [hx.keeps.strikes_iff (by simp) hb] at hs
      rcases hq with rfl | rfl
      · exact hst ⟨hb, .inl hs⟩
      · exact hst ⟨hb, .inr hs⟩
    refine splitThree_getSize (by omega) (hw'.tagged b (by simp)).getSize hb8 hf24 hf8 (by omega)
      h24 h8 (by omega) (headOff_removeBlock hw' (getBlockIndex_lt _) (by omega)
        (fun d hd _ _ => ?_) (hstrike (.inl rfl)))
      (headOff_removeBlock hw' (getBlockIndex_lt _) (by omega) (fun d hd _ hi => ?_)
        (hstrike (.inr rfl)))
    · rcases List.mem_append.1 hd with hd | hd
      · have := hw'.addr_add_le_of_mem hd
        omega
      · obtain rfl := List.mem_singleton.1 hd
        omega
    · rcases List.mem_append.1 hd with hd | hd
      · have := hw'.addr_add_le_of_mem hd
        omega
      · obtain rfl := List.mem_singleton.1 hd
        -- the new block is in no list of small blocks
        by_contra hno
        rw [getBlockIndex_rest (by omega) (by omega) (by omega), getBlockIndex_eq_zero_iff] at hi
        omega

/-- A request that grows the heap and cuts up its last block is served rightly. -/
lemma sized_of_grown (w : WellFormed h (pre ++ [b])) (hs : extendSize words = size)
    (hs8 : 8 ∣ size) (hslt : size < 2 ^ 31) (hs40 : 40 < size)
    (hcall : h.mmMalloc n = some (match h.extendHeap words with
      | none => (0, h)
      | some (_, h) => h.splitThree b.addr first asize))
    (hf24 : 24 ≤ first) (hf8 : 8 ∣ first) (hflt : first < 2 ^ 24) (h24 : 24 ≤ asize)
    (h8 : 8 ∣ asize) (hlt : asize < 2 ^ 24) (hn : n + 8 ≤ asize) (hle : first + asize ≤ size)
    (hst : h.memBrk + size ≤ h.memMaxAddr → ¬ StruckAt h b first) : Sized h n := by
  set e := chunk h size (by omega) hs8 with he
  have hen : e.next = h.memBrk + size := rfl
  rcases Nat.lt_or_ge h.memMaxAddr (h.memBrk + size) with hroom | hroom
  · rw [extendHeap_of_lt w (e := e) rfl hs (show size < 2 ^ 32 by omega) hroom] at hcall
    exact sized_of_null hcall
  · obtain ⟨r, xs, c, hr, hx⟩ := extendHeap_spec w (e := e) rfl rfl hs hroom
    obtain ⟨hq, hg⟩ := splitThree_grown w hx rfl rfl hs40 hf24 hf8 hflt h24 h8 hlt (hst hroom)
    have hA := hx.brk.trans (sameArena_splitThree r.2 b.addr first asize)
    rw [hr] at hcall
    dsimp only at hcall
    rcases hsp : r.2.splitThree b.addr first asize with ⟨q, g⟩
    rw [hsp] at hq hg hA hcall
    have hb := w.spans.bounds (b := b) (by simp)
    have h24b := b.addr_add_le
    have hstart : g.memStartBrk = h.memStartBrk := hA.memStartBrk
    have hend : g.memBrk = h.memBrk + size := hA.memBrk
    have hqa : q = b.addr + first := hq
    have hga : g.getSize (hdrp q) = asize := by rw [hqa]; exact hg
    rw [sized_iff_of_ne_zero hcall (by omega), hga, hstart, hend, hdrp, wsize]
    omega

/-- The size of the block in front of the last one, by which the branch for 112 and 448 bytes
decides whether it grows the heap. -/
def binarySize (h : Heap) : ℕ := h.getSize (hdrp (h.prevBlkp h.findLastFit))

/-- The heaps in which the branch for 112 and 448 bytes writes a pointer into a header. -/
def StruckLast (h : Heap) (bs : List Block) : Prop :=
  ∃ b ∈ bs.getLast?,
    (binarySize h = 16 + overhead ∧ h.memBrk + 156 * chunksize ≤ h.memMaxAddr ∧
        StruckAt h b ((16 + overhead) * 4000)) ∨
      (binarySize h = 64 + overhead ∧ h.memBrk + 289 * chunksize ≤ h.memMaxAddr ∧
        StruckAt h b ((64 + overhead) * 2000)) ∨
      (binarySize h ≠ 16 + overhead ∧ binarySize h ≠ 64 + overhead ∧ StruckAt h b 0)

/-- **Requests for 112 and 448 bytes** that take the branch of their own are served rightly
exactly if the heap is grown for them or the last block, free or not, is large enough. -/
theorem sized_last_iff (w : WellFormed h bs) (hn : n = 112 ∨ n = 448)
    (hfirst : h.firstSize = 16 + overhead ∨ h.firstSize = 64 + overhead)
    (hst : ¬ StruckLast h bs) :
    Sized h n ↔ binarySize h = 16 + overhead ∨ binarySize h = 64 + overhead ∨
      adjust n ≤ h.getSize (hdrp h.findLastFit) := by
  have hne : bs ≠ [] := by
    rintro rfl
    simp [w.firstSize_nil, overhead] at hfirst
  obtain ⟨pre, b, rfl⟩ := (List.eq_nil_or_concat bs).resolve_left hne
  rw [List.concat_eq_append] at *
  have t := w.tagged b (by simp)
  have hpos : b.addr ≠ 0 := (w.placed.pos b (by simp)).ne'
  have hb := w.spans.bounds (b := b) (by simp)
  have hbn : b.next = b.addr + b.size := rfl
  have h24b := b.min
  have h8b := b.dvd
  have hslt := w.placed.size_lt b (by simp)
  have hb : h.memStartBrk + 16 ≤ b.addr ∧ b.next = h.memBrk :=
    ⟨hb.1, (spans_concat.1 w.spans).2⟩
  obtain ⟨h24, h8, hn8, -⟩ := adjust_spec (n := n) (by omega)
  have hmax : adjust n ≤ 456 := by rcases hn with rfl | rfl <;> decide
  have hcall : h.mmMalloc n = some (h.mallocLast b.addr (adjust n)) := by
    rw [mmMalloc, if_neg (by omega), if_neg (by omega), if_neg (by omega)]
    dsimp only
    rw [if_neg (by omega), if_pos ⟨hfirst, hn⟩, w.findLastFit, if_pos hpos]
  have hbin : h.getSize (hdrp (h.prevBlkp b.addr)) = binarySize h := by
    rw [binarySize, w.findLastFit]
  have hstruck {first : ℕ} (hno : StruckAt h b first → StruckLast h (pre ++ [b])) :
      ¬ StruckAt h b first := fun hat => hst (hno hat)
  by_cases h16 : binarySize h = 16 + overhead
  · refine iff_of_true (sized_of_grown w
      (show extendSize (156 * chunksize / wsize) = 156 * chunksize by decide) (by decide)
      (by decide) (by decide) ?_ (show 24 ≤ (16 + overhead) * 4000 by decide) (by decide)
      (by decide) h24 h8 (by omega) hn8 (by simp only [overhead, chunksize]; omega)
      fun hroom => hstruck fun hat => ⟨b, by simp, .inl ⟨h16, hroom, hat⟩⟩) (.inl h16)
    rw [hcall, mallocLast]
    cases hx : h.extendHeap (156 * chunksize / wsize) <;>
      simp only [hbin, h16, true_or, if_true, hx]
  by_cases h64 : binarySize h = 64 + overhead
  · have hne : (64 + overhead : ℕ) ≠ 16 + overhead := by decide
    refine iff_of_true (sized_of_grown w
      (show extendSize (289 * chunksize / wsize) = 289 * chunksize by decide) (by decide)
      (by decide) (by decide) ?_ (show 24 ≤ (64 + overhead) * 2000 by decide) (by decide)
      (by decide) h24 h8 (by omega) hn8 (by simp only [overhead, chunksize]; omega)
      fun hroom => hstruck fun hat => ⟨b, by simp, .inr (.inl ⟨h64, hroom, hat⟩)⟩)
      (.inr (.inl h64))
    rw [hcall, mallocLast]
    cases hx : h.extendHeap (289 * chunksize / wsize) <;>
      simp only [hbin, h64, or_true, if_true, if_neg hne, hx]
  -- the last block is taken as it is
  have hres : h.mmMalloc n = some (b.addr, h.place b.addr (adjust n)) := by
    rw [hcall, mallocLast]
    simp only [hbin, h16, h64, or_self, if_false]
  have hno : b.alloc = true → ¬ Strikes h b b.addr := fun hal hs =>
    hst ⟨b, by simp, .inr (.inr ⟨h16, h64, hal, .inl hs⟩)⟩
  have hoff : HeadOff (h.removeBlock b.addr)
      (getBlockIndex (toInt32 (sub64 b.size (adjust n) % 2 ^ 32))) b.addr :=
    headOff_removeBlock w (getBlockIndex_lt _) (by omega)
      (fun d hd _ _ => by
        have := w.addr_add_le_of_mem (c := d) (by simpa using hd)
        omega) hno
  have hg := place_getSize (by omega) t.getSize hslt h24b h8b h24 h8 (by omega) hoff
  have hA := sameArena_place h b.addr (adjust n)
  rw [sized_iff_of_ne_zero hres hpos, w.findLastFit, t.getSize, hg, hA.memStartBrk, hA.memBrk,
    hdrp, wsize]
  rcases Nat.lt_or_ge b.size (adjust n) with hlt | hge
  · have hsub : 24 ≤ sub64 b.size (adjust n) := by
      unfold sub64
      omega
    rw [if_pos hsub]
    omega
  · rw [sub64_of_le hge (by omega)]
    split_ifs <;> omega

/-! ## The first block, cut up -/

/-- The heaps in which the branch for 4092 bytes writes a pointer into a header: into that of the
first block, through the words of that block, or into that of the block returned, through these
words or because a free block stands there. -/
def StruckFirst (h : Heap) (bs : List Block) : Prop :=
  ∃ f ∈ bs.head?, StruckAt h f ((16 + overhead) * 2) ∨
    (f.alloc = true ∧ ∃ c ∈ bs, c.alloc = false ∧ c.addr = f.addr + 40 ∧ c.size ≤ 40)

/-- An allocated first block is that of the heap before it has grown. -/
lemma Extended.head_of_alloc {r : ℕ × Heap} (w : WellFormed h bs) (hx : Extended h bs e r xs c)
    (hfree : e.alloc = false) {zs : List Block} (hf : xs ++ [c] = f :: zs)
    (hfal : f.alloc = true) : f ∈ bs.head? := by
  have hw' := hf ▸ hx.wellFormed
  have hfa : f.addr = h.memStartBrk + 16 := hw'.spans.1.trans (by rw [hx.brk.memStartBrk])
  have hmem : f ∈ joinFree (bs ++ [e]) := by
    rw [hx.layout, hf]
    exact List.mem_cons_self
  rw [mem_joinFree_iff hfal, List.mem_append, List.mem_singleton] at hmem
  have hfb : f ∈ bs := hmem.resolve_right (by rintro rfl; simp [hfree] at hfal)
  cases bs with
  | nil => simp at hfb
  | cons b bs =>
    have hb : b.addr = h.memStartBrk + 16 := w.spans.1
    rw [eq_of_addr_eq w.spans.sorted hfb List.mem_cons_self (hfa.trans hb.symm)]
    rfl

/-- The blocks that are smaller than the new one were there before. -/
lemma Extended.mem_of_size_lt {r : ℕ × Heap} (w : WellFormed h bs)
    (hx : Extended h bs e r xs c) (hfree : e.alloc = false) (hb : b ∈ xs ++ [c])
    (hlt : b.size < e.size) : b ∈ bs := by
  have hle := hx.size_le
  have hbx : b ∈ xs := (List.mem_append.1 hb).resolve_right fun hbc => by
    obtain rfl := List.mem_singleton.1 hbc
    omega
  rcases hx.cases w hfree with ⟨rfl, -⟩ | ⟨p, -, rfl, -⟩
  · exact hbx
  · exact List.mem_append_left [p] hbx

/-- The only free block that starts between 36 and 48 bytes behind the first block is the second
one, when the first block is allocated and has 40 bytes. -/
lemma WellFormed.second_of_lt (w : WellFormed h (f :: post)) (hc : c ∈ post)
    (hfree : c.alloc = false) (hlo : f.addr + 36 < c.addr) (hhi : c.addr < f.addr + 48) :
    f.alloc = true ∧ f.size = 40 ∧ c.addr = f.addr + 40 := by
  have hf8 := f.dvd
  have hf24 := f.addr_add_le
  have hfn : f.next = f.addr + f.size := rfl
  obtain ⟨g, zs, rfl⟩ : ∃ g zs, post = g :: zs := List.exists_cons_of_ne_nil (List.ne_nil_of_mem hc)
  have hg : g.addr = f.next := w.spans.2.1
  rcases List.mem_cons.1 hc with rfl | hc
  · have hal := (List.isChain_cons_cons.1 w.noAdj).1.resolve_right (by simp [hfree])
    exact ⟨hal, by omega, by omega⟩
  · have := (List.pairwise_cons.1 (List.pairwise_cons.1 w.spans.sorted).2).1 c hc
    have := g.addr_add_le
    omega

/-- Cutting up the first block after the heap has grown at its end. -/
lemma splitThree_first {r : ℕ × Heap} (w : WellFormed h bs) (hx : Extended h bs e r xs c)
    (hfree : e.alloc = false) (he40 : 40 < e.size) (h8 : 8 ∣ asize) (h24 : 4104 ≤ asize)
    (hlt : asize < 2 ^ 24) (hst : ¬ StruckFirst h bs) :
    (r.2.splitThree (h.memStartBrk + 16) 48 asize).1 = h.memStartBrk + 64 ∧
      (r.2.splitThree (h.memStartBrk + 16) 48 asize).2.getSize (hdrp (h.memStartBrk + 64)) =
        asize := by
  obtain ⟨f, zs, hf⟩ : ∃ f zs, xs ++ [c] = f :: zs :=
    List.exists_cons_of_ne_nil (List.concat_ne_nil c xs)
  have hw' : WellFormed r.2 (f :: zs) := hf ▸ hx.wellFormed
  have hwf : WellFormed r.2 ([] ++ f :: zs) := hw'
  have hfa : f.addr = h.memStartBrk + 16 := hw'.spans.1.trans (by rw [hx.brk.memStartBrk])
  have hfn : f.next = f.addr + f.size := rfl
  have hf24 := f.min
  have hstrike {q : ℕ} (hq : q = f.addr ∨ q = f.addr + 48) :
      f.alloc = true → ¬ Strikes r.2 f q := by
    intro hfal hs
    have hhead := hx.head_of_alloc w hfree hf hfal
    rw [hx.keeps.strikes_iff (List.mem_of_head? hhead) hfal] at hs
    rcases hq with rfl | rfl
    · exact hst ⟨f, hhead, .inl ⟨hfal, .inl hs⟩⟩
    · exact hst ⟨f, hhead, .inl ⟨hfal, .inr hs⟩⟩
  have hoff : HeadOff (r.2.removeBlock f.addr) (getBlockIndex (48 : ℕ)) f.addr :=
    headOff_removeBlock hwf (getBlockIndex_lt _) (by omega) (fun d hd _ _ => .inr (by
      have := (List.pairwise_cons.1 hw'.spans.sorted).1 d hd
      omega)) (hstrike (.inl rfl))
  have hoff' : HeadOff (r.2.removeBlock f.addr)
      (getBlockIndex (toInt32 (sub64 (sub64 f.size asize) 48 % 2 ^ 32))) (f.addr + 48) := by
    refine headOff_removeBlock hwf (getBlockIndex_lt _) (by omega) (fun d hd hdf hi => ?_)
      (hstrike (.inr rfl))
    by_contra hno
    obtain ⟨hfal, hsize, hda⟩ := hw'.second_of_lt hd hdf (by omega) (by omega)
    -- the rest goes to the list of the smallest blocks, which has none of the new blocks
    rw [getBlockIndex_rest (by omega) (by omega) (by omega), getBlockIndex_eq_zero_iff] at hi
    have hdb := hx.mem_of_size_lt w hfree (hf ▸ List.mem_cons_of_mem f hd) (by omega)
    exact hst ⟨f, hx.head_of_alloc w hfree hf hfal,
      .inr ⟨hfal, d, hdb, hdf, hda, by exact_mod_cast hi⟩⟩
  have key := splitThree_getSize (by omega) (hw'.tagged f (by simp)).getSize f.dvd (by decide)
    (by decide) (by decide) (show 24 ≤ asize by omega) h8 (by omega) hoff hoff'
  rw [hfa] at key
  exact key

/-- **Requests for 4092 bytes** are served rightly exactly if a free block is large enough, or the
heap cannot be grown, or its blocks have 48 bytes at least. -/
theorem sized_4092_iff (w : WellFormed h bs)
    (hst : (∀ b ∈ bs, b.alloc = false → b.size < adjust 4092) →
      h.memBrk + adjust 4092 ≤ h.memMaxAddr → ¬ StruckFirst h bs) :
    Sized h 4092 ↔ (∃ b ∈ bs, b.alloc = false ∧ adjust 4092 ≤ b.size) ∨
      h.memMaxAddr < h.memBrk + adjust 4092 ∨ h.memStartBrk + 64 ≤ h.memBrk := by
  have hA : adjust 4092 = 4104 := by decide
  have h8brk := w.spans.aligned_end (Nat.dvd_add w.arena.aligned (by decide))
  have h8start := w.arena.aligned
  have hcall : h.mmMalloc 4092 = h.mallocFit 4092 (adjust 4092) := by
    rw [mmMalloc, if_neg (by omega), if_neg (by omega), if_neg (by omega)]
    dsimp only
    rw [if_neg (by omega), if_neg (by omega)]
  by_cases hfull : ∀ b ∈ bs, b.alloc = false → b.size < adjust 4092
  · have hfit := (findFit_eq_zero_iff w (show adjust 4092 < 2 ^ 31 by decide)).2 hfull
    have hs : extendSize (max (adjust 4092) chunksize / wsize) = 4104 := by decide
    set e := chunk h 4104 (by decide) (by decide) with he
    rcases Nat.lt_or_ge h.memMaxAddr (h.memBrk + 4104) with hroom | hroom
    · have hx := extendHeap_of_lt w (e := e) rfl hs (show (4104 : ℕ) < 2 ^ 32 by decide) hroom
      exact iff_of_true (sized_of_null (hcall.trans (mallocFit_of_full hfit hx)))
        (.inr (.inl (by rw [hA]; exact hroom)))
    · obtain ⟨r, xs, c, hr, hx⟩ := extendHeap_spec w (e := e) rfl rfl hs hroom
      obtain ⟨hq, hg⟩ := splitThree_first w hx rfl (show 40 < 4104 by decide)
        (show 8 ∣ 4104 by decide) le_rfl (by decide) (hst hfull (by rw [hA]; exact hroom))
      have harena := hx.brk.trans (sameArena_splitThree r.2 (h.memStartBrk + 16) 48 4104)
      have hres : h.mmMalloc 4092 =
          some (r.2.splitThree (r.2.nextBlkp r.2.heapListp) ((16 + overhead) * 2) 4104) := by
        rw [hcall, mallocFit, hfit, Option.bind_some, if_neg (by simp)]
        simp only [hr, if_true]
        rw [hA]
      have hstart : r.2.memStartBrk = h.memStartBrk := hx.brk.memStartBrk
      rw [hx.wellFormed.nextBlkp_listp, hstart, show (16 + overhead) * 2 = 48 from rfl] at hres
      rcases hsp : r.2.splitThree (h.memStartBrk + 16) 48 4104 with ⟨q, g⟩
      rw [hsp] at hq hg harena hres
      have hgs : g.memStartBrk = h.memStartBrk := harena.memStartBrk
      have hge : g.memBrk = h.memBrk + 4104 := harena.memBrk
      have hqa : q = h.memStartBrk + 64 := hq
      have hga : g.getSize (hdrp q) = 4104 := by rw [hqa]; exact hg
      rw [sized_iff_of_ne_zero hres (by omega), hga, hgs, hge, hdrp, wsize]
      have hno : ¬ ∃ b ∈ bs, b.alloc = false ∧ adjust 4092 ≤ b.size := by
        rintro ⟨b, hb, hbf, hle⟩
        have := hfull b hb hbf
        omega
      simp only [hno, false_or]
      omega
  · have hfit : ∃ b ∈ bs, b.alloc = false ∧ adjust 4092 ≤ b.size := by
      simpa only [not_forall, not_lt, exists_prop] using hfull
    have hsafe : MallocSafe h 4092 := ⟨by decide, fun hn => absurd hn (by decide), fun _ h0 =>
      absurd ((findFit_eq_zero_iff w (show adjust 4092 < 2 ^ 31 by decide)).1 h0) hfull⟩
    exact iff_of_true (sized_of_lt w (by decide) hsafe (by omega)) (.inl hfit)

/-! ## All sizes -/

/-- The heaps in which a request for `n` bytes is served rightly. For the sizes without a branch
that chooses an address, the request ends, and it is below `2³¹`, or both no free block is as large
as the adjusted size and what is asked of `mem_sbrk` does not fit. -/
def Served (h : Heap) (bs : List Block) (n : ℕ) : Prop :=
  if n = 4095 then Served4095 h bs
  else if n = 8190 then 8198 ≤ h.firstSize
  else if n = 4092 then
    (∃ b ∈ bs, b.alloc = false ∧ adjust 4092 ≤ b.size) ∨
      h.memMaxAddr < h.memBrk + adjust 4092 ∨ h.memStartBrk + 64 ≤ h.memBrk
  else if (n = 112 ∨ n = 448) ∧
      (h.firstSize = 16 + overhead ∨ h.firstSize = 64 + overhead) then
    binarySize h = 16 + overhead ∨ binarySize h = 64 + overhead ∨
      adjust n ≤ h.getSize (hdrp h.findLastFit)
  else
    ¬ ((n = 16 ∨ n = 64) ∧ (h.firstSize = 16 + overhead ∨ h.firstSize = 64 + overhead) ∧
        ∀ b ∈ bs, b.alloc = false → b.size < adjust n) ∧
      (n < 2 ^ 31 ∨ ((∀ b ∈ bs, b.alloc = false → b.size < adjust n) ∧
        h.memMaxAddr < h.memBrk + max (adjust n) chunksize % 2 ^ 32))

/-- The heaps in which a request for `n` bytes cuts up a block and then writes a pointer into the
header of one of its parts. -/
def Struck (h : Heap) (bs : List Block) (n : ℕ) : Prop :=
  ((n = 112 ∨ n = 448) ∧ (h.firstSize = 16 + overhead ∨ h.firstSize = 64 + overhead) ∧
      StruckLast h bs) ∨
    (n = 4092 ∧ (∀ b ∈ bs, b.alloc = false → b.size < adjust 4092) ∧
      h.memBrk + adjust 4092 ≤ h.memMaxAddr ∧ StruckFirst h bs)

/-- A request for 112 or 448 bytes that does not take the branch of its own is safe. -/
lemma sized_of_ordinary_first (w : WellFormed h bs) (hn : n = 112 ∨ n = 448)
    (hfirst : ¬ (h.firstSize = 16 + overhead ∨ h.firstSize = 64 + overhead)) : Sized h n :=
  sized_of_lt w (by omega) ⟨by omega, fun _ hf => absurd hf hfirst, fun h4092 => by omega⟩
    (by omega)

end Malloc
