import SE101.Malloc.Runs

set_option relaxedAutoImplicit false
set_option autoImplicit false

/-!
# No memory is lost

Along every run of plain calls the allocated blocks are those of the live pointers. So a client
that has given back all that it got finds the heap as one free block, whatever it did before: no
block is lost, and all free space has been joined.

## Main definitions

* `Malloc.NoLeak` — every allocated block belongs to a live pointer.

## Main results

* `Malloc.mmRealloc_only` — `mm_realloc` leaves no other allocated block behind.
* `Malloc.noLeak_of_plain` — runs of plain calls.

## Design

A heap has one layout, so the layouts that different lemmas find after a call are the same one.
-/

namespace Malloc

open LittleEndian Heap

variable {w w' : World} {bs bs' bs₁ pre post zs : List Block} {a b : Block} {h h₁ : Heap}
  {n p m size : ℕ}

/-! ## What `mm_realloc` leaves behind -/

/-- Every allocated block of the layout `bs'` is the one at `q`, or one of `bs` other than `b`. -/
def OnlyAt (bs : List Block) (b : Block) (q : ℕ) (bs' : List Block) : Prop :=
  ∀ c ∈ bs', c.alloc = true → c.addr = q ∨ c ∈ bs ∧ c ≠ b

/-- A block stands only once in a layout. -/
lemma WellFormed.notMem (w : WellFormed h (pre ++ b :: post)) : b ∉ pre ++ post := by
  obtain ⟨-, hright, hleft⟩ := List.pairwise_append.1 w.spans.sorted
  have hb := b.addr_add_le
  intro hmem
  rcases List.mem_append.1 hmem with hpre | hpost
  · have := hleft b hpre b List.mem_cons_self
    omega
  · have := List.rel_of_pairwise_cons hright hpost
    omega

/-- A block that has grown or shrunk in place. -/
lemma OnlyAt.of_inPlace {h' : Heap} (k : KeepsBlocks h bs h₁ (pre ++ b :: post))
    (hin : InPlace h₁ pre b post h' a zs) : OnlyAt bs b b.addr (pre ++ a :: zs) := by
  intro c hc hca
  by_cases hne : c = a
  · subst hne
    exact .inl hin.addr
  have hmem : c ∈ pre ++ post := by
    have := hin.mem_iff c hca
    simp only [List.mem_append, List.mem_cons, hne, false_or] at hc ⊢
    tauto
  refine .inr ⟨(k.mem_iff c hca).1 ?_, ?_⟩
  · simp only [List.mem_append, List.mem_cons] at hmem ⊢
    tauto
  · rintro rfl
    exact k.wellFormed.notMem hmem

/-- Copying a payload into the block that was handed out touches only that block. -/
lemma HandsOut.copyPayload {r : ℕ × Heap} (ho : HandsOut h bs (adjust size) r a bs₁) (hb : b ∈ bs)
    (ha : b.alloc = true) (hgt : b.size < adjust size) :
    WellFormed (r.2.copyPayload r.1 b.addr b.size) bs₁ := by
  have hal := ho.allocates.alloc
  have hmem := ho.allocates.mem_iff
  have hab : a ∈ bs₁ := (hmem a hal).2 (.inl rfl)
  have hbb : b ∈ bs₁ := (hmem b ha).2 (.inr hb)
  have hsub : sub64 b.size dsize = b.size - 8 :=
    sub64_of_le (by have := b.min; simp only [dsize]; omega)
      (by have := ho.wellFormed.placed.size_lt b hbb; omega)
  rw [Heap.copyPayload]
  split_ifs with hne
  · refine ho.wellFormed.agree_payload hab hal ⟨rfl, rfl, rfl, rfl⟩ rfl fun x hx => ?_
    refine copy_apply_of_notMem ?_
    have hsl := ho.size_le
    have hptr := ho.ptr
    unfold Block.Payload Block.next at hx
    omega
  · exact ho.wellFormed

/-- A block that has been moved. -/
lemma OnlyAt.of_move {r : ℕ × Heap} (hb : b ∈ bs) (ha : b.alloc = true)
    (hgt : b.size < adjust size) (ho : HandsOut h bs (adjust size) r a bs₁)
    (hun : Unmarked (r.2.copyPayload r.1 b.addr b.size) b.addr) :
    ∃ bs', WellFormed ((r.2.copyPayload r.1 b.addr b.size).mmFree b.addr) bs' ∧
      OnlyAt bs b r.1 bs' := by
  have hmem := ho.allocates.mem_iff
  have w₂ := ho.copyPayload hb ha hgt
  obtain ⟨pre, post, rfl⟩ := List.append_of_mem ((hmem b ha).2 (.inr hb))
  obtain ⟨xs, c, ys, hf⟩ := mmFree_spec w₂ ha hun
  refine ⟨_, hf.wellFormed, fun d hd hda => ?_⟩
  have hd' := (hf.mem_iff hda).1 hd
  have hdb : d ≠ b := by
    rintro rfl
    exact w₂.notMem hd'
  have hold : d ∈ pre ++ b :: post := by
    simp only [List.mem_append, List.mem_cons] at hd' ⊢
    tauto
  rcases (hmem d hda).1 hold with rfl | hdbs
  · exact .inl ho.ptr.symm
  · exact .inr ⟨hdbs, hdb⟩

/-- **`mm_realloc` leaves nothing behind**: when it returns a pointer and its `mm_free` takes no
byte for a marker, the allocated blocks are the one at this pointer and the others from before.

**Proof sketch.** The branches are those of `mmRealloc_spec`: the block is kept, cut, grown in
place or moved. -/
theorem mmRealloc_only (w : WellFormed h bs) (hb : b ∈ bs) (ha : b.alloc = true) (hs0 : 0 < size)
    (hs : size < 2 ^ 31)
    (hsafe : ∀ h₁, h.reallocMallocs b.addr size = some h₁ → MallocSafe h₁ size)
    (hun : ∀ h₂, h.reallocFrees b.addr size = some h₂ → Unmarked h₂ b.addr) {r : ℕ × Heap}
    (hr : h.mmRealloc b.addr size = some r) (hne : r.1 ≠ 0) :
    ∃ bs', WellFormed r.2 bs' ∧ OnlyAt bs b r.1 bs' := by
  obtain ⟨h24, h8, hle, hmax⟩ := adjust_spec hs
  have hpos := (w.placed.pos b hb).ne'
  have hmod : (adjust size + 3 * dsize) % 2 ^ 64 = adjust size + 24 :=
    Nat.mod_eq_of_lt (by simp only [dsize]; omega)
  have hcs : h.getSize (hdrp b.addr) = b.size := (w.tagged b hb).getSize
  obtain ⟨pre, post, hbs⟩ := List.append_of_mem hb
  have w' : WellFormed h (pre ++ b :: post) := hbs ▸ w
  have k : KeepsBlocks h bs h (pre ++ b :: post) := hbs ▸ .refl w
  rw [mmRealloc, if_neg hs0.ne', if_neg hpos] at hr
  rw [Heap.reallocMallocs, if_neg hs0.ne', if_neg hpos] at hsafe
  rw [Heap.reallocFrees, if_neg hs0.ne', if_neg hpos, Heap.reallocMallocs, if_neg hs0.ne',
    if_neg hpos] at hun
  dsimp only at hr hsafe hun
  rw [hcs, hmod] at hr hsafe hun
  by_cases hkeep : b.size ≥ adjust size ∧ b.size < adjust size + 24
  · rw [if_pos hkeep] at hr
    obtain rfl := Option.some_inj.1 hr
    refine ⟨bs, w, fun c hc _ => ?_⟩
    by_cases hcb : c = b
    · exact .inl (congrArg Block.addr hcb)
    · exact .inr ⟨hc, hcb⟩
  rw [if_neg hkeep] at hr hsafe hun
  by_cases hsplit : b.size ≥ adjust size + 24
  · rw [if_pos hsplit] at hr
    obtain rfl := Option.some_inj.1 hr
    obtain ⟨a, zs, -, hin⟩ := reallocSplit_spec w' ha h24 h8 hsplit
    exact ⟨_, hin.wellFormed, .of_inPlace k hin⟩
  rw [if_neg hsplit] at hr hsafe hun
  have hgt : b.size < adjust size := by
    by_contra hge
    exact hkeep ⟨not_lt.1 hge, not_le.1 hsplit⟩
  have hg := reallocGrow_spec w hb ha h8 hgt
  cases hc : h.reallocGrow b.addr b.size (adjust size) with
  | error r₀ =>
    rw [hc] at hr hg
    cases hr
    cases hg with
    | failed k => exact absurd rfl hne
    | taken k hptr hasize hlt hin =>
      rw [hptr]
      exact ⟨_, hin.wellFormed, .of_inPlace k hin⟩
  | ok h₁ =>
    rw [hc] at hr hg hsafe hun
    cases hg with
    | moves k₁ =>
    have hm : MallocSafe h₁ size := hsafe h₁ rfl
    dsimp only at hr
    rw [reallocMove_eq] at hr
    obtain ⟨r₁, hr₁, hr⟩ := Option.map_eq_some_iff.1 hr
    rcases mmMalloc_spec k₁.wellFormed hs0 hs hm hr₁ with rfl | ⟨a, bs₂, ho⟩
    · rw [if_pos rfl] at hr
      cases hr
      exact absurd rfl hne
    · have hne₁ : r₁.1 ≠ 0 := by
        rw [ho.ptr]
        exact (ho.wellFormed.placed.pos a
          ((ho.allocates.mem_iff a ho.allocates.alloc).2 (.inl rfl))).ne'
      rw [if_neg hne₁] at hr
      cases hr
      refine OnlyAt.of_move hb ha hgt (ho.of_keepsBlocks k₁) (hun _ ?_)
      rw [Except.toOption, Option.bind_some, hr₁, Option.bind_some, if_neg hne₁]

/-! ## Runs -/

/-- There are blocks, and every allocated block belongs to a live pointer. -/
structure NoLeak (w : World) (bs : List Block) : Prop where
  nonempty : bs ≠ []
  owned : ∀ b ∈ bs, b.alloc = true → ∃ r ∈ w.live, r.1 = b.addr

/-- **A plain call loses no block.** -/
lemma NoLeak.step {c : Call} (hw : Held w bs) (hl : NoLeak w bs) (ha : w.Allowed c)
    (hp : Plain w c) (hc : w.call c = some w') : ∃ bs', WellFormed w'.heap bs' ∧ NoLeak w' bs' := by
  cases c with
  | malloc n =>
    obtain ⟨⟨q, h⟩, hr, rfl⟩ := Option.map_eq_some_iff.1 hc
    rcases mmMalloc_spec hw.wellFormed hp.1 hp.safe.1 hp.safe.2 hr with h0 | ⟨a, bs', ho⟩
    · cases h0
      exact ⟨bs, hw.wellFormed, hl.nonempty, hl.owned⟩
    · have hal := ho.allocates.alloc
      have hab : a ∈ bs' := (ho.allocates.mem_iff a hal).2 (.inl rfl)
      obtain rfl : q = a.addr := ho.ptr
      refine ⟨bs', ho.wellFormed, List.ne_nil_of_mem hab, fun b hb hba => ?_⟩
      simp only [if_neg (ho.wellFormed.placed.pos a hab).ne']
      rcases (ho.allocates.mem_iff b hba).1 hb with rfl | hb
      · exact ⟨_, List.mem_cons_self, rfl⟩
      · obtain ⟨r, hr, hrb⟩ := hl.owned b hb hba
        exact ⟨r, List.mem_cons_of_mem _ hr, hrb⟩
  | realloc p m n =>
    obtain ⟨b, hb, hba, hbp, -⟩ := hw.block _ ha
    obtain rfl : b.addr = p := hbp
    obtain ⟨⟨q, h⟩, hr, rfl⟩ := Option.map_eq_some_iff.1 hc
    rcases mmRealloc_spec hw.wellFormed hb hba hp.1 hp.safe.1 hp.safe.2 hr with
      ⟨h0, bs', k⟩ | ⟨a, bs', hres, -⟩
    · obtain rfl : q = 0 := h0
      refine ⟨bs', k.wellFormed, List.ne_nil_of_mem ((k.mem_iff b hba).2 hb), fun c hc hca => ?_⟩
      exact hl.owned c ((k.mem_iff c hca).1 hc) hca
    · have hne : q ≠ 0 := by
        rw [show q = a.addr from hres.ptr]
        exact (hres.wellFormed.placed.pos a hres.mem).ne'
      obtain ⟨bs'', w₂, honly⟩ := mmRealloc_only hw.wellFormed hb hba hp.1 hp.safe.1 hp.safe.2
        hp.2.2.2 hr hne
      obtain rfl := hres.wellFormed.unique w₂
      refine ⟨bs', hres.wellFormed, List.ne_nil_of_mem hres.mem, fun c hc hca => ?_⟩
      simp only [if_neg hne, if_neg hp.1.ne']
      rcases honly c hc hca with hcq | ⟨hcbs, hcb⟩
      · exact ⟨_, List.mem_cons_self, hcq.symm⟩
      · obtain ⟨r, hr, hrc⟩ := hl.owned c hcbs hca
        have hrb : r ≠ (b.addr, m) := by
          rintro rfl
          exact hcb (eq_of_addr_eq hw.wellFormed.spans.sorted hcbs hb hrc.symm)
        exact ⟨r, List.mem_cons_of_mem _ ((List.mem_erase_of_ne hrb).2 hr), hrc⟩
  | free p m =>
    cases hc
    obtain ⟨b, hb, hba, hbp, -⟩ := hw.block _ ha
    obtain rfl : b.addr = p := hbp
    obtain ⟨pre, post, rfl⟩ := List.append_of_mem hb
    obtain ⟨xs, c, ys, hf⟩ := mmFree_spec hw.wellFormed hba hp
    refine ⟨_, hf.wellFormed, by simp, fun d hd hda => ?_⟩
    have hd' := (hf.mem_iff hda).1 hd
    have hold : d ∈ pre ++ b :: post := by
      simp only [List.mem_append, List.mem_cons] at hd' ⊢
      tauto
    obtain ⟨r, hr, hrd⟩ := hl.owned d hold hda
    have hrb : r ≠ (b.addr, m) := by
      rintro rfl
      obtain rfl := eq_of_addr_eq hw.wellFormed.spans.sorted hold hb hrd.symm
      exact hw.wellFormed.notMem hd'
    exact ⟨r, (List.mem_erase_of_ne hrb).2 hr, hrd⟩
  | write x v =>
    cases hc
    exact ⟨bs, (hw.write ha v).wellFormed, hl.nonempty, hl.owned⟩

/-- A layout without allocated blocks is a single free block. -/
lemma WellFormed.eq_singleton (w : WellFormed h bs) (hne : bs ≠ [])
    (hfree : ∀ b ∈ bs, b.alloc = false) : ∃ b, bs = [b] ∧ b.alloc = false ∧
      b.addr = h.memStartBrk + 16 ∧ b.next = h.memBrk := by
  obtain ⟨b, rest, rfl⟩ := List.exists_cons_of_ne_nil hne
  obtain ⟨haddr, hspans⟩ := w.spans
  cases rest with
  | nil => exact ⟨b, rfl, hfree b (by simp), haddr, hspans⟩
  | cons c rest =>
    -- two free neighbours would have been joined
    have hadj := List.rel_of_isChain_cons_cons w.noAdj
    simp [hfree b, hfree c] at hadj

/-- **No memory is lost.** Along every run of plain calls the allocated blocks are those of the
live pointers. When no pointer is live, then the heap is one free block from its beginning to its
end. -/
theorem noLeak_of_plain (h : ReachableIf Plain w) : ∃ bs, WellFormed w.heap bs ∧
    (∀ b ∈ bs, b.alloc = true ↔ ∃ r ∈ w.live, r.1 = b.addr) ∧
    (w.live = [] → ∃ b, bs = [b] ∧ b.alloc = false ∧ b.addr = w.heap.memStartBrk + 16 ∧
      b.next = w.heap.memBrk) := by
  suffices hinv : ∃ bs, Held w bs ∧ NoLeak w bs by
    obtain ⟨bs, hw, hl⟩ := hinv
    refine ⟨bs, hw.wellFormed, fun b hb => ⟨hl.owned b hb, ?_⟩, fun hnil => ?_⟩
    · rintro ⟨r, hr, hrb⟩
      obtain ⟨c, hc, hca, hcr, -⟩ := hw.block r hr
      obtain rfl := eq_of_addr_eq hw.wellFormed.spans.sorted hc hb (hcr.trans hrb)
      exact hca
    · refine hw.wellFormed.eq_singleton hl.nonempty fun b hb => ?_
      by_contra hba
      obtain ⟨r, hr, -⟩ := hl.owned b hb (by simpa using hba)
      rw [hnil] at hr
      cases hr
  refine Reachability.Reachable.invariant (P := fun w => ∃ bs, Held w bs ∧ NoLeak w bs)
    (fun w hw => ?_) (fun w w' _ ih hs => ?_) h
  · obtain ⟨h₀, hf, hi, hl⟩ := hw
    obtain ⟨h', hi', wf, -⟩ := mmInit_spec hf
    rw [hi] at hi'
    cases hi'
    exact ⟨_, ⟨wf, by simp [hl], by simp [hl]⟩, by simp, by simp [firstBlock]⟩
  · obtain ⟨bs, hw, hl⟩ := ih
    obtain ⟨c, ha, hp, hc⟩ := hs
    obtain ⟨bs', hw'⟩ := hw.step ha hp.safe hc
    obtain ⟨bs'', wf, hl'⟩ := hl.step hw ha hp hc
    obtain rfl := hw'.wellFormed.unique wf
    exact ⟨bs', hw', hl'⟩

set_option maxRecDepth 20000 in
/-- Two blocks are handed out and given back. -/
theorem noLeak_of_plain_frees : ∃ (w : World) (b : Block), ReachableIf Plain w ∧ w.live = [] ∧
    WellFormed w.heap [b] ∧ b.alloc = false := by
  have hrun : (startWorld.calls [.malloc 24, .malloc 100]).map (fun w => (w.live,
      w.heap.mem 8207 ≠ marker && w.heap.mem 12303 ≠ marker,
      (w.heap.mmFree 4112).mem 8239 ≠ marker && (w.heap.mmFree 4112).mem 12335 ≠ marker)) =
      some ([(4144, 100), (4112, 24)], true, true) := by decide +kernel
  obtain ⟨w, hw, heq⟩ := Option.map_eq_some_iff.1 hrun
  obtain ⟨hlive, heq⟩ := Prod.mk.inj heq
  obtain ⟨h₁, h₂⟩ := Prod.mk.inj heq
  rw [Bool.and_eq_true, decide_eq_true_iff, decide_eq_true_iff] at h₁ h₂
  have hord : Ordinary 24 ∧ Ordinary 100 := by unfold Ordinary; decide
  have hreach : ReachableIf Plain w := by
    refine ReachableIf.calls (fun c hc w => ?_) (.of_init initial_startWorld) hw
    simp only [List.mem_cons, List.not_mem_nil, or_false] at hc
    rcases hc with rfl | rfl
    · exact ⟨by decide, by decide, hord.1⟩
    · exact ⟨by decide, by decide, hord.2⟩
  have hreach₁ := hreach.tail ⟨.free 4112 24, by rw [World.Allowed, hlive]; simp, h₁, rfl⟩
  have hmem : (4144, 100) ∈ w.live.erase (4112, 24) := by rw [hlive]; decide
  have hreach₂ := hreach₁.tail ⟨.free 4144 100, hmem, h₂, rfl⟩
  obtain ⟨bs, wf, -, hfree⟩ := noLeak_of_plain hreach₂
  have hnil : (w.live.erase (4112, 24)).erase (4144, 100) = [] := by rw [hlive]; decide
  obtain ⟨b, rfl, hb, -⟩ := hfree hnil
  exact ⟨_, b, hreach₂, hnil, wf, hb⟩

end Malloc
