import SE101.Malloc.Allocate
import SE101.Malloc.Free

set_option relaxedAutoImplicit false
set_option autoImplicit false

/-!
# `mm_realloc`

`mm_realloc` keeps the block, cuts off its end, lets it grow into the free block behind it,
possibly after growing the heap, or moves it. When the heap cannot be grown it returns `NULL`;
by then it may have grown the heap before, which changes no allocated block.

## Main definitions

* `Malloc.InPlace` — a block has been given another size at the same address.
* `Malloc.Resized`, `Malloc.Copied` — what a successful call has brought about, for the layout
  and for the payloads.

## Main results

* `Malloc.reallocSplit_spec`, `Malloc.reallocTake_spec` — the two changes in place.
* `Malloc.reallocGrow_spec` — the branch for a block that is too small.
* `Malloc.mmRealloc_spec` — all of `mm_realloc`.
-/

namespace Malloc

open LittleEndian Heap

variable {h h' h₁ : Heap} {a b c n : Block} {bs bs' bs₁ pre post zs : List Block}
  {lo hi x size asize : ℕ}

/-! ## Changing a block in place -/

/-- An allocated block separates two rows without free neighbours. -/
lemma NoAdj.insert_alloc (hpre : NoAdj pre) (hpost : NoAdj post) (ha : a.alloc = true) :
    NoAdj (pre ++ a :: post) := by
  refine List.isChain_append.2 ⟨hpre, List.isChain_cons.2 ⟨fun _ _ => .inl ha, hpost⟩, ?_⟩
  intro p _ q hq
  rw [List.head?_cons, Option.mem_some_iff] at hq
  exact .inr (hq ▸ ha)

/-- The block `b` has been given another size: it has become `a`, and what follows is `zs`. -/
structure InPlace (h : Heap) (pre : List Block) (b : Block) (post : List Block) (h' : Heap)
    (a : Block) (zs : List Block) : Prop where
  addr : a.addr = b.addr
  alloc : a.alloc = true
  wellFormed : WellFormed h' (pre ++ a :: zs)
  arena : SameArena h h'
  mem_iff : ∀ c : Block, c.alloc = true → (c ∈ zs ↔ c ∈ post)
  keeps : KeepsPayloads (pre ++ post) h h'
  data : ∀ x, a.Payload x → b.Payload x → h'.mem x = h.mem x

/-- Writing the tags of an allocated block leaves its payload alone. -/
lemma Window.putAlloc_payload (w : Window h pre a.addr hi post) (ha : a.alloc = true)
    (hle : a.next ≤ hi) (hx : a.Payload x) : (h.putTags a.addr a.size 1).mem x = h.mem x := by
  obtain ⟨-, -, -, hm⟩ := w.putTags le_rfl hle
  rw [ha, Bool.toNat_true] at hm
  refine hm x ?_
  have := w.bounds
  have := a.addr_add_le
  unfold Block.Payload at hx
  unfold Block.Meta
  omega

/-- Writing the tags of a free block at the left end of a hole, clearing its pointers and
inserting it. -/
lemma Window.putRest (w : Window h pre c.addr hi post) (hc : c.alloc = false)
    (hle : c.next ≤ hi) :
    Window (((h.putTags c.addr c.size 0).clearLinks c.addr).insertBlock c.addr) (pre ++ [c])
        c.next hi post ∧
      KeepsPayloads (pre ++ post) h
        (((h.putTags c.addr c.size 0).clearLinks c.addr).insertBlock c.addr) := by
  obtain ⟨w1, t1, k1, -⟩ := w.putTags le_rfl hle
  rw [hc, Bool.toNat_false] at w1 t1 k1
  obtain ⟨w2, t2, k2⟩ := w1.clearLinks le_rfl hle t1
  exact ⟨w2.addFree hc t2 hle, (k1.trans k2).trans (w2.insert_keeps le_rfl hle t2.getSize)⟩

lemma sameArena_putRest (h : Heap) (bp s : ℕ) :
    SameArena h (((h.putTags bp s 0).clearLinks bp).insertBlock bp) :=
  (((sameArena_putTags ..).trans (sameArena_putaddr _ _)).trans (sameArena_putaddr _ _)).trans
    (sameArena_insertBlock _ _)

/-- The free rest behind a block that has been changed in place.

**Proof sketch.** The hole reaches from the end of the block to the block behind. The rest fills
it, and its neighbours are allocated: the changed block in front, and behind what was behind a
free block or is known to be allocated. -/
lemma InPlace.of_rest (ha : a.alloc = true) (hab : a.addr = b.addr) (hpre : NoAdj pre)
    (w : Window h' (pre ++ [a]) c.addr c.next zs) (hc : c.alloc = false) (hzs : NoAdj zs)
    (hr : ∀ n ∈ zs.head?, n.alloc = true) (harena : SameArena h h')
    (hmem : ∀ c : Block, c.alloc = true → (c ∈ zs ↔ c ∈ post))
    (hk : KeepsPayloads (pre ++ post) h h')
    (hd : ∀ x, a.Payload x → b.Payload x → h'.mem x = h.mem x) :
    InPlace h pre b post
      (((h'.putTags c.addr c.size 0).clearLinks c.addr).insertBlock c.addr) a (c :: zs) := by
  obtain ⟨w1, k1⟩ := w.putRest hc le_rfl
  have hn : NoAdj (pre ++ a :: c :: zs) :=
    hpre.insert_alloc (List.isChain_cons.2 ⟨fun n hn => .inr (hr n hn), hzs⟩) ha
  refine ⟨hab, ha, ?_, harena.trans (sameArena_putRest ..), fun d hd => ?_, ?_,
    fun x hxa hxb => ?_⟩
  · have := w1.wellFormed (by simpa using hn)
    simpa using this
  · have : d ≠ c := by rintro rfl; simp [hc] at hd
    simp [this, hmem d hd]
  · refine hk.trans (k1.mono fun d hd hda => ?_)
    have := hmem d hda
    simp only [List.mem_append, List.mem_singleton] at hd ⊢
    tauto
  · rw [k1 a (by simp) ha x hxa, hd x hxa hxb]

/-- **Cutting off the end of a block.** -/
theorem reallocSplit_spec (w : WellFormed h (pre ++ b :: post)) (hb : b.alloc = true)
    (h24 : 24 ≤ asize) (h8 : 8 ∣ asize) (hle : asize + 24 ≤ b.size) :
    ∃ a zs, a.size = asize ∧
      InPlace h pre b post (h.reallocSplit b.addr b.size asize) a zs := by
  have hsize : b.size < 2 ^ 31 := w.placed.size_lt b (by simp)
  have hpre : NoAdj pre := (List.isChain_append.1 w.noAdj).1
  have hpost : NoAdj post := (List.isChain_append.1 w.noAdj).2.1.of_cons
  have tb := w.tagged b (by simp)
  let a : Block := ⟨b.addr, asize, true, h24, h8⟩
  have han : a.next = b.addr + asize := rfl
  have hbn : b.next = b.addr + b.size := rfl
  have hsub : sub64 b.size asize = b.size - asize := sub64_of_le (by omega) (by omega)
  have w1 : Window h pre b.addr b.next post := w.window.dropRight hb
  obtain ⟨w2, k2, hnext⟩ := w1.putAlloc (a := a) rfl (by omega)
  have d2 : ∀ x, a.Payload x → b.Payload x →
      (h.putTags a.addr a.size 1).mem x = h.mem x :=
    fun x hx _ => w1.putAlloc_payload (a := a) rfl (by omega) hx
  have harena : SameArena h (h.putTags a.addr a.size 1) := sameArena_putTags ..
  set h2 := h.putTags a.addr a.size 1 with hh2
  have hcall : h.reallocSplit b.addr b.size asize =
      if h2.getAlloc (hdrp b.next) ≠ 0 then
        ((h2.putTags a.next (b.size - asize) 0).clearLinks a.next).insertBlock a.next
      else
        (((h2.removeBlock b.next).putTags a.next
          (b.size - asize + (h2.removeBlock b.next).getSize (hdrp b.next)) 0).clearLinks
            a.next).insertBlock a.next := by
    rw [reallocSplit]
    dsimp only
    rw [hsub, tb.nextBlkp, show h.putTags b.addr asize 1 = h2 from rfl,
      show h2.nextBlkp b.addr = a.next from hnext]
  rw [hcall]
  rcases w2.next_cases with ⟨hal, hr⟩ | ⟨hal, n, post, rfl, hn⟩
  · -- the rest is a block of its own
    rw [if_pos hal]
    let c : Block := ⟨a.next, b.size - asize, false, by omega, Nat.dvd_sub b.dvd h8⟩
    have hcn : c.next = b.next := by simp only [Block.next, c, a]; omega
    exact ⟨a, c :: post, rfl, InPlace.of_rest rfl rfl hpre (c := c) (hcn ▸ w2) rfl hpost hr
      harena (fun _ _ => Iff.rfl) k2 d2⟩
  · -- the rest is joined with the free block behind
    obtain ⟨tn, hna⟩ := w2.tagged_head
    have hnn := n.addr_add_le
    rw [if_neg (by simp [hal]), ← hna]
    have w3 := w2.removeRight hn
    have k3 := w2.removeRight_keeps hn
    have hns : (h2.removeBlock n.addr).getSize (hdrp n.addr) = n.size := by
      have t3 : Tagged (h2.removeBlock n.addr).mem n := tn.of_agree (c := n) le_rfl le_rfl
        (by have := w2.bounds; omega) (.inl rfl) fun x h1 h2 hx =>
          w2.removeRight_mem hn (.inl ⟨by have := a.addr_add_le; omega, h2⟩) hx
      exact t3.getSize
    rw [hns]
    let c : Block := ⟨a.next, b.size - asize + n.size, false, by omega,
      Nat.dvd_add (Nat.dvd_sub b.dvd h8) n.dvd⟩
    have hcn : c.next = n.next := by simp only [Block.next, c, a] at *; omega
    refine ⟨a, c :: post, rfl, InPlace.of_rest rfl rfl hpre (c := c) (hcn ▸ w3) rfl
      hpost.of_cons (hpost.head_alloc hn) (harena.trans (sameArena_removeBlock _ _))
      (fun d hd => ?_) ?_ fun x hxa hxb => ?_⟩
    · have : d ≠ n := by rintro rfl; simp [hn] at hd
      simp [this]
    · refine k2.trans (k3.mono fun d hd hda => ?_)
      have : d ≠ n := by rintro rfl; simp [hn] at hda
      simp only [List.mem_append, List.mem_cons] at hd ⊢
      tauto
    · rw [k3 a (by simp) rfl x hxa, d2 x hxa hxb]

/-- **Growing into the free block behind.** -/
theorem reallocTake_spec (w : WellFormed h (pre ++ b :: n :: post)) (hb : b.alloc = true)
    (hn : n.alloc = false) (h8 : 8 ∣ asize) (hgt : b.size < asize)
    (hle : asize ≤ b.size + n.size) :
    ∃ a zs, asize ≤ a.size ∧ a.size < asize + 24 ∧
      (h.reallocTake b.addr (b.size + n.size) asize).1 = b.addr ∧
      InPlace h pre b (n :: post) (h.reallocTake b.addr (b.size + n.size) asize).2 a zs := by
  have hbounds := w.window_end.bounds
  have hnb := w.spans.bounds (show n ∈ pre ++ b :: n :: post by simp)
  have hbb := b.addr_add_le
  have hpre : NoAdj pre := (List.isChain_append.1 w.noAdj).1
  have hpost : NoAdj (n :: post) := (List.isChain_append.1 w.noAdj).2.1.of_cons
  have tb := w.tagged b (by simp)
  have hbn : b.next = b.addr + b.size := rfl
  have w₀ : WellFormed h (pre ++ [b] ++ n :: post) := by simpa using w
  have hna : b.next = n.addr := w₀.window.tagged_last.2
  have hnn : n.next = n.addr + n.size := rfl
  have w1 : Window (h.removeBlock n.addr) pre b.addr n.next post :=
    (w₀.window.removeRight hn).dropLeft hb
  have k1 : KeepsPayloads (pre ++ [b] ++ post) h (h.removeBlock n.addr) :=
    w₀.window.removeRight_keeps hn
  have hsub : sub64 (b.size + n.size) asize = b.size + n.size - asize :=
    sub64_of_le hle (by omega)
  have hrest : ∀ d : Block, d.alloc = true → (d ∈ post ↔ d ∈ n :: post) := fun d hd => by
    have : d ≠ n := by rintro rfl; simp [hn] at hd
    simp [this]
  have hkeep {h'' : Heap} (hk : KeepsPayloads (pre ++ post) (h.removeBlock n.addr) h'') :
      KeepsPayloads (pre ++ n :: post) h h'' := by
    have k1' : KeepsPayloads (pre ++ post) h (h.removeBlock n.addr) := by
      apply k1.mono
      intro d hd _
      simp only [List.mem_append] at hd ⊢
      tauto
    apply (k1'.trans hk).mono
    intro d hd hda
    have := hrest d hda
    simp only [List.mem_append] at hd ⊢
    tauto
  set h1 := h.removeBlock n.addr with hh1
  rw [reallocTake]
  dsimp only
  rw [tb.nextBlkp, hna, ← hh1, hsub]
  by_cases hsplit : b.size + n.size - asize < 3 * dsize
  · -- nothing is left over
    rw [if_pos hsplit]
    let a : Block := ⟨b.addr, b.size + n.size, true, by omega, Nat.dvd_add b.dvd n.dvd⟩
    have han : a.next = n.next := by simp only [Block.next, a] at *; omega
    obtain ⟨w2, k2, -⟩ := w1.putAlloc (a := a) rfl han.le
    have hlt : a.size < asize + 24 := by
      change b.size + n.size < asize + 24
      simp only [dsize] at hsplit
      omega
    refine ⟨a, post, hle, hlt, rfl, rfl, rfl, ?_, ?_, hrest, hkeep k2, fun x hxa hxb => ?_⟩
    · have := (han ▸ w2).wellFormed (by simpa using hpre.insert_alloc hpost.of_cons rfl)
      simpa using this
    · exact (sameArena_removeBlock _ _).trans (sameArena_putTags ..)
    · have hp := w1.putAlloc_payload (a := a) rfl han.le hxa
      exact hp.trans (k1 b (by simp) hb x hxb)
  · -- the rest is large enough for a block of its own
    rw [if_neg hsplit]
    simp only [dsize] at hsplit
    let a : Block := ⟨b.addr, asize, true, by omega, h8⟩
    let c : Block := ⟨a.next, b.size + n.size - asize, false, by omega,
      Nat.dvd_sub (Nat.dvd_add b.dvd n.dvd) h8⟩
    have han : a.next = b.addr + asize := rfl
    have hcn : c.next = n.next := by simp only [Block.next, c, a] at *; omega
    obtain ⟨w2, k2, hnext⟩ := w1.putAlloc (a := a) rfl (by omega)
    have d2 : ∀ x, a.Payload x → b.Payload x → (h1.putTags a.addr a.size 1).mem x = h.mem x :=
      fun x hxa hxb =>
        (w1.putAlloc_payload (a := a) rfl (by omega) hxa).trans (k1 b (by simp) hb x hxb)
    set h2 := h1.putTags a.addr a.size 1 with hh2
    have w2' : Window h2 (pre ++ [a]) c.addr c.next post := hcn ▸ w2
    obtain ⟨w3, t3, -⟩ := w2'.putTags (b := c) le_rfl le_rfl
    have hnext3 : (h2.putTags c.addr c.size 0).nextBlkp a.addr = c.addr :=
      (w3.tagged a (by simp)).nextBlkp
    have hnext4 : ((h2.putTags c.addr c.size 0).clearLinks c.addr).nextBlkp a.addr = c.addr :=
      ((w3.clearLinks le_rfl le_rfl t3).1.tagged a (by simp)).nextBlkp
    rw [show h2.nextBlkp b.addr = c.addr from hnext,
      show b.size + n.size - asize = c.size from rfl,
      show (h2.putTags c.addr c.size 0).nextBlkp b.addr = c.addr from hnext3,
      show ((h2.putTags c.addr c.size 0).clearLinks c.addr).nextBlkp b.addr = c.addr from hnext4]
    have hlt : a.size < asize + 24 := by
      change asize < asize + 24
      omega
    refine ⟨a, c :: post, le_rfl, hlt, rfl, InPlace.of_rest rfl rfl hpre w2' rfl hpost.of_cons
      (hpost.head_alloc hn) ((sameArena_removeBlock _ _).trans (sameArena_putTags ..)) hrest
      (hkeep k2) d2⟩

/-! ## A block that is too small -/

/-- What the branch for a block that is too small comes to. -/
inductive Grows (h : Heap) (bs : List Block) (b : Block) (asize : ℕ) :
    Except (ℕ × Heap) Heap → Prop
  /-- `NULL` is returned. -/
  | failed {h' : Heap} {bs' : List Block} :
    KeepsBlocks h bs h' bs' → Grows h bs b asize (.error (0, h'))
  /-- The block has grown in place. -/
  | taken {r : ℕ × Heap} {h₁ : Heap} {a : Block} {pre post zs : List Block} :
      KeepsBlocks h bs h₁ (pre ++ b :: post) → r.1 = b.addr → asize ≤ a.size →
      a.size < asize + 24 → InPlace h₁ pre b post r.2 a zs → Grows h bs b asize (.error r)
  /-- The block has to be moved. -/
  | moves {h₁ : Heap} {bs₁ : List Block} : KeepsBlocks h bs h₁ bs₁ → Grows h bs b asize (.ok h₁)

/-- The heap grows by a chunk, or `NULL` is returned. -/
lemma Grows.of_extendIf (k : KeepsBlocks h bs h₁ bs₁) (cond : Prop) [Decidable cond]
    {f : Heap → Except (ℕ × Heap) Heap}
    (hf : ∀ h₂ bs₂, KeepsBlocks h bs h₂ bs₂ → Grows h bs b asize (f h₂)) :
    Grows h bs b asize (h₁.extendIf cond >>= f) := by
  rw [extendIf]
  by_cases hc : cond
  · rw [if_pos hc]
    rcases extendHeap_cases k.wellFormed (show extendSize (chunksize / wsize) = 4096 by decide)
      (by decide) (by decide) (by decide) with hx | ⟨r, xs, c, hx, he⟩
    · rw [hx]
      exact .failed k
    · rw [hx]
      exact hf _ _ (k.trans (he.keepsBlocks rfl))
  · rw [if_neg hc]
    exact hf _ _ k

/-- The end of `reallocGrow`, when the heap has been grown for special cases. -/
def Heap.reallocInto (h : Heap) (ptr csize asize : ℕ) : Except (ℕ × Heap) Heap := do
  let next := h.nextBlkp ptr
  if h.getAlloc (hdrp next) = 0 then
    let totSize := csize + h.getSize (hdrp next)
    if totSize ≥ asize then .error (h.reallocTake ptr totSize asize)
    else if h.AtEnd next then
      let h ← h.extendIf True
      let totSize := totSize + chunksize
      if totSize ≥ asize then .error (h.reallocTake ptr totSize asize) else .ok h
    else .ok h
  else .ok h

lemma Grows.of_take (k : KeepsBlocks h bs h₁ (pre ++ b :: n :: post)) (hb : b.alloc = true)
    (hn : n.alloc = false) (h8 : 8 ∣ asize) (hgt : b.size < asize) (hle : asize ≤ b.size + n.size) :
    Grows h bs b asize (.error (h₁.reallocTake b.addr (b.size + n.size) asize)) := by
  obtain ⟨a, zs, hsize, hlt, hptr, hin⟩ := reallocTake_spec k.wellFormed hb hn h8 hgt hle
  exact .taken k hptr hsize hlt hin

/-- A block grows into the free block behind it if there is one that is large enough. -/
lemma Grows.of_reallocInto (k : KeepsBlocks h bs h₁ (pre ++ b :: post)) (hb : b.alloc = true)
    (h8 : 8 ∣ asize) (hgt : b.size < asize) :
    Grows h bs b asize (h₁.reallocInto b.addr b.size asize) := by
  have w := k.wellFormed
  have w₀ : WellFormed h₁ (pre ++ [b] ++ post) := by simpa using w
  have tb := w.tagged b (by simp)
  rw [reallocInto, tb.nextBlkp]
  dsimp only
  rcases w.window.dropRight hb |>.next_cases with ⟨hal, -⟩ | ⟨hal, n, post, rfl, hn⟩
  · rw [if_neg hal]
    exact .moves k
  · have hna : b.next = n.addr := w₀.window.tagged_last.2
    have tn := w.tagged n (by simp)
    rw [if_pos hal, hna, tn.getSize]
    by_cases hfit : b.size + n.size ≥ asize
    · rw [if_pos hfit]
      exact .of_take k hb hn h8 hgt hfit
    · rw [if_neg hfit]
      by_cases hend : h₁.AtEnd n.addr
      · obtain rfl : post = [] := w₀.atEnd_iff.1 hend
        rw [if_pos hend, extendIf, if_pos trivial]
        rcases extendHeap_cases w₀ (show extendSize (chunksize / wsize) = 4096 by decide)
          (by decide) (by decide) (by decide) with hx | ⟨r, xs, c, hx, he⟩
        · rw [hx]
          exact .failed k
        · rw [hx]
          obtain ⟨rfl, rfl⟩ := he.of_free w₀.noAdj hn rfl
          have k' := k.trans (by simpa using he.keepsBlocks rfl)
          set e := chunk h₁ 4096 (by decide) (by decide) with hen
          have hsize : b.size + n.size + chunksize = b.size + (n.join e).size := by
            rw [Block.join_size, hen, Nat.add_assoc]
            rfl
          change Grows h bs b asize (if b.size + n.size + chunksize ≥ asize then _ else _)
          rw [hsize]
          by_cases hfit' : b.size + (n.join e).size ≥ asize
          · rw [if_pos hfit']
            exact .of_take k' hb rfl h8 hgt hfit'
          · rw [if_neg hfit']
            exact .moves k'
      · rw [if_neg hend]
        exact .moves k

/-- **The branch for a block that is too small.** -/
theorem reallocGrow_spec (w : WellFormed h bs) (hb : b ∈ bs) (ha : b.alloc = true)
    (h8 : 8 ∣ asize) (hgt : b.size < asize) :
    Grows h bs b asize (h.reallocGrow b.addr b.size asize) := by
  refine Grows.of_extendIf (KeepsBlocks.refl w) _ fun h₁ bs₁ k₁ => ?_
  refine Grows.of_extendIf k₁ _ fun h₂ bs₂ k₂ => ?_
  refine Grows.of_extendIf k₂ _ fun h₃ bs₃ k₃ => ?_
  obtain ⟨pre, post, rfl⟩ := List.append_of_mem ((k₃.mem_iff b ha).2 hb)
  exact Grows.of_reallocInto k₃ ha h8 hgt

/-! ## All branches -/

/-- The heap in which `mm_realloc` calls `mm_malloc`, if it does. -/
def Heap.reallocMallocs (h : Heap) (ptr size : ℕ) : Option Heap :=
  if size = 0 then none
  else if ptr = 0 then some h
  else
    let csize := h.getSize (hdrp ptr)
    let asize := adjust size
    if csize ≥ asize ∧ csize < (asize + 3 * dsize) % 2 ^ 64 then none
    else if csize ≥ (asize + 3 * dsize) % 2 ^ 64 then none
    else (h.reallocGrow ptr csize asize).toOption

/-- The heap with the payload of `ptr` copied to `newptr`. -/
def Heap.copyPayload (h : Heap) (newptr ptr csize : ℕ) : Heap :=
  if newptr ≠ ptr then { h with mem := copy h.mem newptr h.mem ptr (sub64 csize dsize) } else h

/-- The end of `mm_realloc`, with the copying apart. -/
lemma reallocMove_eq (h : Heap) (ptr csize size : ℕ) :
    h.reallocMove ptr csize size = (h.mmMalloc size).map fun r =>
      if r.1 = 0 then (0, r.2) else (r.1, (r.2.copyPayload r.1 ptr csize).mmFree ptr) := by
  unfold Heap.reallocMove Heap.copyPayload
  rfl

/-- The heap in which `mm_realloc` calls `mm_free`, if it does. -/
def Heap.reallocFrees (h : Heap) (ptr size : ℕ) : Option Heap :=
  if size = 0 then some h
  else if ptr = 0 then none
  else (h.reallocMallocs ptr size).bind fun h₁ => (h₁.mmMalloc size).bind fun r =>
    if r.1 = 0 then none else some (r.2.copyPayload r.1 ptr (h.getSize (hdrp ptr)))

/-- The layout after a call has given the block `b` a new size, possibly at a new address: the
new block is `a`, and the other allocated blocks are as before. -/
structure Resized (h : Heap) (bs : List Block) (b : Block) (size : ℕ) (r : ℕ × Heap) (a : Block)
    (bs' : List Block) : Prop where
  ptr : r.1 = a.addr
  size_le : size + 8 ≤ a.size
  adjust_le : adjust size ≤ a.size
  lt_adjust : a.size < adjust size + 24
  wellFormed : WellFormed r.2 bs'
  start : r.2.memStartBrk = h.memStartBrk
  alloc : a.alloc = true
  mem : a ∈ bs'
  others : ∀ c ∈ bs, c.alloc = true → c ≠ b → c ∈ bs' ∧ c ≠ a

/-- The new block `a` has the bytes of the old block `b` as far as both have them, and the other
payloads are as before. -/
structure Copied (h : Heap) (bs : List Block) (b : Block) (size : ℕ) (h' : Heap) (a : Block) :
    Prop where
  data : ∀ k, k < size → k < b.size - 8 → h'.mem (a.addr + k) = h.mem (b.addr + k)
  keeps : ∀ c ∈ bs, c.alloc = true → c ≠ b → ∀ x, c.Payload x → h'.mem x = h.mem x

/-- A block that has grown or shrunk in place. -/
lemma Resized.of_inPlace {r : ℕ × Heap} (hb : b ∈ bs) (ha : b.alloc = true)
    (k : KeepsBlocks h bs h₁ (pre ++ b :: post)) (hptr : r.1 = b.addr) (hsize : size + 8 ≤ a.size)
    (hle : adjust size ≤ a.size) (hlt : a.size < adjust size + 24)
    (hin : InPlace h₁ pre b post r.2 a zs) :
    Resized h bs b size r a (pre ++ a :: zs) ∧ Copied h bs b size r.2 a := by
  have hother : ∀ c ∈ bs, c.alloc = true → c ≠ b → c ∈ pre ++ post := fun c hc hca hne => by
    have := (k.mem_iff c hca).2 hc
    simp only [List.mem_append, List.mem_cons, hne, false_or] at this ⊢
    exact this
  refine ⟨⟨hptr.trans hin.addr.symm, hsize, hle, hlt, hin.wellFormed, ?_, hin.alloc, by simp,
    fun c hc hca hne => ⟨?_, ?_⟩⟩, fun i hi hib => ?_, fun c hc hca hne x hx => ?_⟩
  · rw [hin.arena.memStartBrk, k.start]
  · have := hother c hc hca hne
    have := hin.mem_iff c hca
    simp only [List.mem_append, List.mem_cons] at *
    tauto
  · rintro rfl
    have := k.wellFormed.apart ((k.mem_iff c hca).2 hc) (by simp : b ∈ pre ++ b :: post) hne
    have := hin.addr
    have := c.addr_add_le
    have := b.addr_add_le
    omega
  · have := hin.addr
    have hxa : a.Payload (a.addr + i) := by unfold Block.Payload Block.next; omega
    have hxb : b.Payload (b.addr + i) := by unfold Block.Payload Block.next; omega
    rw [hin.addr] at hxa ⊢
    rw [hin.data _ hxa hxb, k.keeps b hb ha _ hxb]
  · rw [hin.keeps c (hother c hc hca hne) hca x hx, k.keeps c hc hca x hx]

/-- A block that has been moved.

**Proof sketch.** The new block is not the old one, so that the bytes copied into its payload
touch nothing else. Freeing the old block leaves the new one and the others alone; if a byte is
taken for a marker instead, that byte is all that changes, and the old block stays. -/
lemma Resized.of_move {r r' : ℕ × Heap} (hb : b ∈ bs) (ha : b.alloc = true)
    (hsize : size + 8 ≤ adjust size) (hgt : b.size < adjust size)
    (ho : HandsOut h bs (adjust size) r a bs₁)
    (hr' : r' = (r.1, (r.2.copyPayload r.1 b.addr b.size).mmFree b.addr)) :
    ∃ bs', Resized h bs b size r' a bs' ∧
      (Unmarked (r.2.copyPayload r.1 b.addr b.size) b.addr → Copied h bs b size r'.2 a) := by
  have hal := ho.allocates.alloc
  have hmem := ho.allocates.mem_iff
  have hab : a ∈ bs₁ := (hmem a hal).2 (.inl rfl)
  have hbb : b ∈ bs₁ := (hmem b ha).2 (.inr hb)
  have hne : b ≠ a := by rintro rfl; exact ho.allocates.fresh hb
  have w := ho.wellFormed
  have hapart := w.apart hbb hab hne
  have hb24 := b.addr_add_le
  have ha24 := a.addr_add_le
  have hsl := ho.size_le
  have hlt := w.placed.size_lt b hbb
  have hsub : sub64 b.size dsize = b.size - 8 :=
    sub64_of_le (by have := b.min; simp only [dsize]; omega) (by omega)
  have hcopy : r.2.copyPayload r.1 b.addr b.size =
      { r.2 with mem := copy r.2.mem a.addr r.2.mem b.addr (b.size - 8) } := by
    rw [Heap.copyPayload, ho.ptr, if_pos (by omega), hsub]
  set h₂ := r.2.copyPayload r.1 b.addr b.size with hh₂
  have hout : ∀ x, ¬ a.Payload x → h₂.mem x = r.2.mem x := fun x hx => by
    rw [hcopy]
    refine copy_apply_of_notMem ?_
    unfold Block.Payload Block.next at hx
    omega
  have hin : ∀ i, i < b.size - 8 → h₂.mem (a.addr + i) = h.mem (b.addr + i) := fun i hi => by
    rw [hcopy]
    refine (copy_apply_add hi).trans (ho.keeps b hb ha _ ?_)
    unfold Block.Payload Block.next
    omega
  have w₂ : WellFormed h₂ bs₁ := w.agree_payload hab hal
    (by rw [hcopy]; exact ⟨rfl, rfl, rfl, rfl⟩) (by rw [hcopy]) hout
  have hstart : h₂.memStartBrk = h.memStartBrk := by rw [hcopy]; exact ho.start
  subst hr'
  by_cases hun : Unmarked h₂ b.addr
  · obtain ⟨pre, post, rfl⟩ := List.append_of_mem hbb
    obtain ⟨xs, c, ys, hf⟩ := mmFree_spec w₂ ha hun
    have hstay : ∀ d ∈ pre ++ b :: post, d ≠ b → d ∈ pre ++ post := fun d hd hdb => by
      simp only [List.mem_append, List.mem_cons, hdb, false_or] at hd ⊢
      exact hd
    refine ⟨xs ++ c :: ys, ⟨ho.ptr, by omega, hsl, ho.size_lt, hf.wellFormed, ?_, hal,
      (hf.mem_iff hal).2 (hstay a hab hne.symm), fun d hd hda hdb => ⟨?_, ?_⟩⟩,
      fun _ => ⟨fun i hi hib => ?_,
      fun d hd hda hdb x hx => ?_⟩⟩
    · rw [hf.arena.memStartBrk, hstart]
    · exact (hf.mem_iff hda).2 (hstay d ((hmem d hda).2 (.inr hd)) hdb)
    · rintro rfl
      exact ho.allocates.fresh hd
    · have hx : a.Payload (a.addr + i) := by unfold Block.Payload Block.next; omega
      exact (hf.keeps a (hstay a hab hne.symm) hal _ hx).trans (hin i hib)
    · have hd₁ := (hmem d hda).2 (.inr hd)
      have hda' : d ≠ a := by rintro rfl; exact ho.allocates.fresh hd
      have := w.apart hd₁ hab hda'
      rw [hf.keeps d (hstay d hd₁ hdb) hda x hx, hout x ?_, ho.keeps d hd hda x hx]
      unfold Block.Payload at hx ⊢
      omega
  · -- the old block stays where it is
    obtain ⟨harena, w₃⟩ := mmFree_of_marked w₂ hbb hun
    refine ⟨bs₁, ⟨ho.ptr, by omega, hsl, ho.size_lt, w₃, ?_, hal, hab,
      fun d hd hda _ => ⟨?_, ?_⟩⟩,
      fun h => absurd h hun⟩
    · rw [harena.memStartBrk, hstart]
    · exact (hmem d hda).2 (.inr hd)
    · rintro rfl
      exact ho.allocates.fresh hd

/-- **`mm_realloc` gives a block a new size**, in place or at a new address, or returns `NULL`
and changes no allocated block. -/
theorem mmRealloc_spec (w : WellFormed h bs) (hb : b ∈ bs) (ha : b.alloc = true) (hs0 : 0 < size)
    (hs : size < 2 ^ 31)
    (hsafe : ∀ h₁, h.reallocMallocs b.addr size = some h₁ → MallocSafe h₁ size) {r : ℕ × Heap}
    (hr : h.mmRealloc b.addr size = some r) :
    (r.1 = 0 ∧ ∃ bs', KeepsBlocks h bs r.2 bs') ∨
      ∃ a bs', Resized h bs b size r a bs' ∧
        ((∀ h₂, h.reallocFrees b.addr size = some h₂ → Unmarked h₂ b.addr) →
          Copied h bs b size r.2 a) := by
  obtain ⟨h24, h8, hle, hmax⟩ := adjust_spec hs
  have hpos := (w.placed.pos b hb).ne'
  have hmod : (adjust size + 3 * dsize) % 2 ^ 64 = adjust size + 24 :=
    Nat.mod_eq_of_lt (by simp only [dsize]; omega)
  have hcs : h.getSize (hdrp b.addr) = b.size := (w.tagged b hb).getSize
  obtain ⟨pre, post, hbs⟩ := List.append_of_mem hb
  have w' : WellFormed h (pre ++ b :: post) := hbs ▸ w
  have k : KeepsBlocks h bs h (pre ++ b :: post) := hbs ▸ .refl w
  rw [mmRealloc, if_neg hs0.ne', if_neg hpos] at hr
  rw [Heap.reallocMallocs, if_neg hs0.ne', if_neg hpos] at hsafe
  dsimp only at hr hsafe
  rw [hcs, hmod] at hr hsafe
  by_cases hkeep : b.size ≥ adjust size ∧ b.size < adjust size + 24
  · have hsize : size + 8 ≤ b.size := hle.trans hkeep.1
    rw [if_pos hkeep] at hr
    obtain rfl := Option.some_inj.1 hr
    exact .inr ⟨b, bs, ⟨rfl, hsize, hkeep.1, hkeep.2, w, rfl, ha, hb,
      fun c hc _ hne => ⟨hc, hne⟩⟩,
      fun _ => ⟨fun _ _ _ => rfl, fun _ _ _ _ _ _ => rfl⟩⟩
  rw [if_neg hkeep] at hr hsafe
  by_cases hsplit : b.size ≥ adjust size + 24
  · rw [if_pos hsplit] at hr
    obtain rfl := Option.some_inj.1 hr
    obtain ⟨a, zs, hasize, hin⟩ := reallocSplit_spec w' ha h24 h8 hsplit
    obtain ⟨h1, h2⟩ := Resized.of_inPlace
      (r := (b.addr, h.reallocSplit b.addr b.size (adjust size))) hb ha k rfl
      (hle.trans hasize.ge) hasize.ge (hasize.trans_lt (Nat.lt_add_of_pos_right (by decide))) hin
    exact .inr ⟨a, _, h1, fun _ => h2⟩
  rw [if_neg hsplit] at hr hsafe
  have hgt : b.size < adjust size := by
    by_contra hge
    exact hkeep ⟨not_lt.1 hge, not_le.1 hsplit⟩
  have hg := reallocGrow_spec w hb ha h8 hgt
  cases hc : h.reallocGrow b.addr b.size (adjust size) with
  | error r₀ =>
    rw [hc] at hr hg
    cases hr
    cases hg with
    | failed k => exact .inl ⟨rfl, _, k⟩
    | taken k hptr hasize hlt hin =>
      obtain ⟨h1, h2⟩ := Resized.of_inPlace hb ha k hptr (hle.trans hasize) hasize hlt hin
      exact .inr ⟨_, _, h1, fun _ => h2⟩
  | ok h₁ =>
    rw [hc] at hr hg hsafe
    cases hg with
    | moves k₁ =>
    have hm : MallocSafe h₁ size := hsafe h₁ rfl
    dsimp only at hr
    rw [reallocMove_eq] at hr
    obtain ⟨r₁, hr₁, hr⟩ := Option.map_eq_some_iff.1 hr
    rcases mmMalloc_spec k₁.wellFormed hs0 hs hm hr₁ with rfl | ⟨a, bs₂, ho⟩
    · rw [if_pos rfl] at hr
      cases hr
      exact .inl ⟨rfl, _, k₁⟩
    · have ho' := ho.of_keepsBlocks k₁
      have hne : r₁.1 ≠ 0 := by
        rw [ho.ptr]
        exact (ho.wellFormed.placed.pos a
          ((ho.allocates.mem_iff a ho.allocates.alloc).2 (.inl rfl))).ne'
      rw [if_neg hne] at hr
      obtain ⟨bs', h1, h2⟩ := Resized.of_move hb ha hle hgt ho' hr.symm
      refine .inr ⟨a, bs', h1, fun hun => h2 (hun _ ?_)⟩
      rw [Heap.reallocFrees, if_neg hs0.ne', if_neg hpos, Heap.reallocMallocs, if_neg hs0.ne',
        if_neg hpos]
      dsimp only
      rw [hcs, hmod, if_neg hkeep, if_neg hsplit, hc, Except.toOption, Option.bind_some, hr₁,
        Option.bind_some, if_neg hne]

/-- **A call for an ordinary size ends.** -/
theorem mmRealloc_returns (w : WellFormed h bs) (hb : b ∈ bs) (ha : b.alloc = true)
    (hs0 : 0 < size) (hs : size < 2 ^ 31) (ho : Ordinary size) :
    ∃ r, h.mmRealloc b.addr size = some r := by
  have h8 := (adjust_spec hs).2.1
  have hpos := (w.placed.pos b hb).ne'
  have hcs : h.getSize (hdrp b.addr) = b.size := (w.tagged b hb).getSize
  have hmod : (adjust size + 3 * dsize) % 2 ^ 64 = adjust size + 24 :=
    Nat.mod_eq_of_lt (by have := (adjust_spec hs).2.2.2; simp only [dsize]; omega)
  rw [mmRealloc, if_neg hs0.ne', if_neg hpos]
  dsimp only
  rw [hcs, hmod]
  by_cases hkeep : b.size ≥ adjust size ∧ b.size < adjust size + 24
  · exact ⟨_, if_pos hkeep⟩
  by_cases hsplit : b.size ≥ adjust size + 24
  · exact ⟨_, (if_neg hkeep).trans (if_pos hsplit)⟩
  have hgt : b.size < adjust size := by
    by_contra hge
    exact hkeep ⟨not_lt.1 hge, not_le.1 hsplit⟩
  have hg := reallocGrow_spec w hb ha h8 hgt
  rw [if_neg hkeep, if_neg hsplit]
  cases hc : h.reallocGrow b.addr b.size (adjust size) with
  | error r => exact ⟨r, rfl⟩
  | ok h₁ =>
    rw [hc] at hg
    cases hg with
    | moves k =>
    obtain ⟨r, hr⟩ := mmMalloc_returns k.wellFormed hs ho
    dsimp only
    rw [reallocMove_eq, hr, Option.map_some]
    exact ⟨_, rfl⟩

end Malloc
