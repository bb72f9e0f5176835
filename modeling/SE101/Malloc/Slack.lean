import SE101.Malloc.Contract

set_option relaxedAutoImplicit false
set_option autoImplicit false

/-!
# Slack

A block may be larger than its request needs, by less than the size of the smallest block: `place`,
and `mm_realloc` when it cuts off an end or takes over the block behind, leave a rest in the block
only if no block can be made of it. So `mm_realloc` with the size that was last requested finds
nothing to do.

## Main definitions

* `Malloc.Fits` — a block has the size that its request needs, up to the slack.

## Main results

* `Malloc.Snug.malloc`, `Snug.realloc`, `Snug.free`, `Snug.write` — the calls keep the bound.
* `Malloc.slack_bounded` — the bound along all runs of plain calls, and the repeated call.
-/

namespace Malloc

open LittleEndian Heap

variable {w w' : World} {bs bs' : List Block} {b : Block} {h : Heap} {n p m x : ℕ}

/-- The row has an allocated block at the pointer, and its size is that of the request up to less
than 24 bytes. -/
def Fits (bs : List Block) (r : ℕ × ℕ) : Prop :=
  ∃ b ∈ bs, b.alloc = true ∧ b.addr = r.1 ∧ adjust r.2 ≤ b.size ∧ b.size < adjust r.2 + 24

/-- The invariant, with the bound, for live pointers with sizes that the heap has room for. -/
structure Snug (w : World) (bs : List Block) : Prop extends Held w bs where
  fits : ∀ r ∈ w.live, Fits bs r
  sized : ∀ r ∈ w.live, 0 < r.2 ∧ r.2 ≤ maxHeap

/-- A live pointer whose block stays. -/
lemma Fits.of_mem {r : ℕ × ℕ} (hf : Fits bs r)
    (hmem : ∀ b ∈ bs, b.alloc = true → b.addr = r.1 → b ∈ bs') : Fits bs' r := by
  obtain ⟨b, hb, ha, hbr, hsize⟩ := hf
  exact ⟨b, hmem b hb ha hbr, ha, hbr, hsize⟩

/-- The layout of the invariant after a call is the one that the call has brought about. -/
lemma Snug.of_held (hw : ∃ bs, Held w bs) (wf : WellFormed w.heap bs)
    (hfits : ∀ r ∈ w.live, Fits bs r ∧ 0 < r.2 ∧ r.2 ≤ maxHeap) : Snug w bs := by
  obtain ⟨bs', hheld⟩ := hw
  obtain rfl := hheld.wellFormed.unique wf
  exact ⟨hheld, fun r hr => (hfits r hr).1, fun r hr => (hfits r hr).2⟩

/-- **`mm_malloc` keeps the bound.** -/
lemma Snug.malloc (hw : Snug w bs) (hn0 : 0 < n) (hn : n ≤ maxHeap) (ho : Ordinary n)
    (hc : w.call (.malloc n) = some w') : ∃ bs', Snug w' bs' := by
  have hn31 : n < 2 ^ 31 := lt_of_le_of_lt hn (by decide)
  have hheld := hw.toHeld.malloc hn31 (ho.safe w.heap) hc
  obtain ⟨⟨q, h⟩, hr, rfl⟩ := Option.map_eq_some_iff.1 hc
  rcases mmMalloc_spec hw.wellFormed hn0 hn31 (ho.safe w.heap) hr with h0 | ⟨a, bs', hout⟩
  · cases h0
    exact ⟨bs, hw⟩
  · refine ⟨bs', .of_held hheld hout.wellFormed ?_⟩
    have hal := hout.allocates.alloc
    have hmem := hout.allocates.mem_iff
    have hab : a ∈ bs' := (hmem a hal).2 (.inl rfl)
    obtain rfl : q = a.addr := hout.ptr
    dsimp only
    rw [if_neg (hout.wellFormed.placed.pos a hab).ne']
    intro r hr
    rcases List.mem_cons.1 hr with rfl | hr
    · exact ⟨⟨a, hab, hal, rfl, hout.size_le, hout.size_lt⟩, hn0, hn⟩
    · exact ⟨(hw.fits r hr).of_mem fun b hb hba _ => (hmem b hba).2 (.inr hb), hw.sized r hr⟩

/-- **`mm_free` keeps the bound.** -/
lemma Snug.free (hw : Snug w bs) (hp : (p, m) ∈ w.live) :
    ∃ bs', Snug ⟨w.heap.mmFree p, w.live.erase (p, m)⟩ bs' := by
  have hheld := hw.toHeld.free hp
  obtain ⟨b, hb, ha, rfl, -⟩ := hw.block _ hp
  by_cases hun : Unmarked w.heap b.addr
  · obtain ⟨pre, post, rfl⟩ := List.append_of_mem hb
    obtain ⟨xs, c, ys, hf⟩ := mmFree_spec hw.wellFormed ha hun
    refine ⟨_, .of_held hheld hf.wellFormed fun r hr => ?_⟩
    obtain ⟨hr, hne⟩ := hw.ne_of_mem_erase hp hr
    refine ⟨(hw.fits r hr).of_mem fun d hd hda hdr => (hf.mem_iff hda).2 ?_, hw.sized r hr⟩
    have hdb : d ≠ b := by
      rintro rfl
      exact hne hdr.symm
    simpa [hdb] using hd
  · refine ⟨bs, .of_held hheld (mmFree_of_marked hw.wellFormed hb hun).2 fun r hr => ?_⟩
    obtain ⟨hr, -⟩ := hw.ne_of_mem_erase hp hr
    exact ⟨hw.fits r hr, hw.sized r hr⟩

/-- **`mm_realloc` keeps the bound.** -/
lemma Snug.realloc (hw : Snug w bs) (hn0 : 0 < n) (hn : n ≤ maxHeap) (ho : Ordinary n)
    (hp : (p, m) ∈ w.live) (hc : w.call (.realloc p m n) = some w') : ∃ bs', Snug w' bs' := by
  have hn31 : n < 2 ^ 31 := lt_of_le_of_lt hn (by decide)
  have hheld := hw.toHeld.realloc hn31 hp (fun h₁ _ => ho.safe h₁) hc
  obtain ⟨b, hb, ha, rfl, -⟩ := hw.block _ hp
  obtain ⟨⟨q, h⟩, hr, rfl⟩ := Option.map_eq_some_iff.1 hc
  dsimp only at hheld ⊢
  rcases mmRealloc_spec hw.wellFormed hb ha hn0 hn31 (fun h₁ _ => ho.safe h₁) hr with
    ⟨h0, bs', k⟩ | ⟨a, bs', hres, -⟩
  · obtain rfl : q = 0 := h0
    rw [if_pos rfl] at hheld ⊢
    refine ⟨bs', .of_held hheld k.wellFormed fun r hr => ?_⟩
    exact ⟨(hw.fits r hr).of_mem fun c hc hca _ => (k.mem_iff c hca).2 hc, hw.sized r hr⟩
  · obtain rfl : q = a.addr := hres.ptr
    rw [if_neg (hres.wellFormed.placed.pos a hres.mem).ne', if_neg hn0.ne'] at hheld ⊢
    refine ⟨bs', .of_held hheld hres.wellFormed fun r hr => ?_⟩
    rcases List.mem_cons.1 hr with rfl | hr
    · exact ⟨⟨a, hres.mem, hres.alloc, rfl, hres.adjust_le, hres.lt_adjust⟩, hn0, hn⟩
    · obtain ⟨hr, hne⟩ := hw.ne_of_mem_erase hp hr
      refine ⟨(hw.fits r hr).of_mem fun c hc hca hcr => (hres.others c hc hca ?_).1, hw.sized r hr⟩
      rintro rfl
      exact hne hcr.symm

/-- **A plain call keeps the bound.** -/
lemma Snug.step {c : Call} (hw : Snug w bs) (ha : w.Allowed c) (hp : Plain w c)
    (hc : w.call c = some w') : ∃ bs', Snug w' bs' := by
  cases c with
  | malloc n => exact hw.malloc hp.1 hp.2.1 hp.2.2 hc
  | realloc p m n => exact hw.realloc hp.1 hp.2.1 hp.2.2.1 ha hc
  | free p m =>
    cases hc
    exact hw.free ha
  | write x v =>
    cases hc
    exact ⟨bs, hw.write ha v, hw.fits, hw.sized⟩

/-- **Every run of plain calls keeps the bound.** -/
lemma ReachableIf.snug (h : ReachableIf Plain w) : ∃ bs, Snug w bs := by
  refine Reachability.Reachable.invariant (P := fun w => ∃ bs, Snug w bs) (fun w hw => ?_)
    (fun w w' _ ih hs => ?_) h
  · obtain ⟨bs, hheld⟩ := (ReachableIf.held (.of_init hw) : ∃ bs, Held w bs)
    obtain ⟨-, -, -, hlive⟩ := hw
    exact ⟨bs, hheld, by simp [hlive], by simp [hlive]⟩
  · obtain ⟨bs, hw⟩ := ih
    obtain ⟨c, ha, hp, hc⟩ := hs
    exact hw.step ha hp hc

/-- A call with the size that was last requested changes nothing. -/
lemma mmRealloc_of_fits (wf : WellFormed h bs) (hn0 : 0 < n) (hn : n < 2 ^ 31)
    (hf : Fits bs (p, n)) : h.mmRealloc p n = some (p, h) := by
  obtain ⟨b, hb, -, rfl, hle, hlt⟩ := hf
  have hmod : (adjust n + 3 * dsize) % 2 ^ 64 = adjust n + 24 :=
    Nat.mod_eq_of_lt (by have := (adjust_spec hn).2.2.2; simp only [dsize]; omega)
  rw [mmRealloc, if_neg hn0.ne', if_neg (wf.placed.pos b hb).ne']
  dsimp only
  rw [(wf.tagged b hb).getSize, hmod, if_pos ⟨hle, hlt⟩]

/-- **The slack is bounded.** After any run of plain calls, every live block has the size that
the last request for it needs and less than 24 bytes more, and `mm_realloc` with the size of that
request returns the pointer and changes nothing. -/
theorem slack_bounded (hw : ReachableIf Plain w) : ∀ r ∈ w.live,
    adjust r.2 ≤ w.heap.getSize (hdrp r.1) ∧ w.heap.getSize (hdrp r.1) < adjust r.2 + 24 ∧
      w.heap.mmRealloc r.1 r.2 = some (r.1, w.heap) := by
  obtain ⟨bs, hsnug⟩ := hw.snug
  intro r hr
  obtain ⟨hn0, hn⟩ := hsnug.sized r hr
  have hf := hsnug.fits r hr
  refine ⟨?_, ?_, mmRealloc_of_fits hsnug.wellFormed hn0 (lt_of_le_of_lt hn (by decide)) hf⟩
  all_goals
    obtain ⟨b, hb, -, hbr, hle, hlt⟩ := hf
    rw [← hbr, (hsnug.wellFormed.tagged b hb).getSize]
    assumption

set_option maxRecDepth 20000 in
/-- The rest of a free block is too small for a block of its own, and stays in the block. -/
theorem slack_bounded_rest : ∃ w : World, w.live = [(4136, 4056), (4112, 8)] ∧
    w.heap.mmRealloc 4136 4056 = some (4136, w.heap) := by
  have hrun : (startWorld.calls ([8, 4056].map .malloc)).map (·.live) =
      some [(4136, 4056), (4112, 8)] := by decide +kernel
  obtain ⟨w, hw, hlive⟩ := Option.map_eq_some_iff.1 hrun
  have hreach := reachable_mallocs (fun n hn => by
    simp only [List.mem_cons, List.not_mem_nil, or_false] at hn
    rcases hn with rfl | rfl
    · exact ⟨by decide, by decide, by unfold Ordinary; decide⟩
    · exact ⟨by decide, by decide, by unfold Ordinary; decide⟩) hw
  exact ⟨w, hlive, (slack_bounded hreach (4136, 4056) (by simp [hlive])).2.2⟩

end Malloc
