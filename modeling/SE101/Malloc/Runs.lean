import SE101.Malloc.Check
import SE101.Malloc.Realloc

set_option relaxedAutoImplicit false
set_option autoImplicit false

/-!
# Runs of a client

Along every run whose calls take no size-specialised branch in a heap for which it was not
written, the heap stays well formed, and every live pointer is the address of an allocated block
of its own that is large enough for what was requested. Bytes that `mm_free` takes for markers
do no harm to this: a block that should have been freed stays allocated.

## Main definitions

* `Malloc.Held` — the invariant that connects the live pointers with the layout.
* `Malloc.Safe`, `Malloc.Plain` — calls that keep the layout, and calls that also keep the
  payloads and end.

## Main results

* `Malloc.Held.malloc`, `Held.realloc`, `Held.free`, `Held.write` — the calls keep the invariant.
* `Malloc.ReachableIf.held` — runs keep it.
* `Malloc.Held.returns` — plain calls end.
-/

namespace Malloc

open LittleEndian Heap

variable {w w' : World} {bs bs' : List Block} {b : Block} {h : Heap} {n p m x : ℕ}

/-! ## The invariant -/

/-- The heap realises the layout `bs`, in which the live pointers are the addresses of different
allocated blocks, each with room for the size that was requested. -/
structure Held (w : World) (bs : List Block) : Prop where
  wellFormed : WellFormed w.heap bs
  block : ∀ r ∈ w.live, ∃ b ∈ bs, b.alloc = true ∧ b.addr = r.1 ∧ r.2 + 8 ≤ b.size
  distinct : w.live.Pairwise fun r r' => r.1 ≠ r'.1

/-- The block of a live pointer that is given up is not that of another live pointer. -/
lemma Held.ne_of_mem_erase (hw : Held w bs) (hp : (p, m) ∈ w.live) {r : ℕ × ℕ}
    (hr : r ∈ w.live.erase (p, m)) : r ∈ w.live ∧ r.1 ≠ p := by
  have hperm := List.perm_cons_erase hp
  have hd := (hperm.pairwise_iff fun h => Ne.symm h).1 hw.distinct
  exact ⟨List.mem_of_mem_erase hr, (List.rel_of_pairwise_cons hd hr).symm⟩

/-- Giving a live pointer up. -/
lemma Held.erase (hw : Held w bs) : (w.live.erase (p, m)).Pairwise fun r r' => r.1 ≠ r'.1 :=
  hw.distinct.sublist List.erase_sublist

/-- A call that changes no allocated block keeps the invariant. -/
lemma Held.of_keepsBlocks (hw : Held w bs) (k : KeepsBlocks w.heap bs h bs') :
    Held ⟨h, w.live⟩ bs' := by
  refine ⟨k.wellFormed, fun r hr => ?_, hw.distinct⟩
  obtain ⟨b, hb, ha, hbr, hsize⟩ := hw.block r hr
  exact ⟨b, (k.mem_iff b ha).2 hb, ha, hbr, hsize⟩

/-! ## Calls -/

/-- **`mm_malloc` keeps the invariant.** -/
lemma Held.malloc (hw : Held w bs) (hn : n < 2 ^ 31) (hsafe : MallocSafe w.heap n)
    (hc : w.call (.malloc n) = some w') : ∃ bs', Held w' bs' := by
  obtain ⟨⟨q, h⟩, hr, rfl⟩ := Option.map_eq_some_iff.1 hc
  rcases Nat.eq_zero_or_pos n with rfl | hn0
  · have : w.heap.mmMalloc 0 = some (0, w.heap) := rfl
    rw [this] at hr
    cases hr
    exact ⟨bs, hw⟩
  rcases mmMalloc_spec hw.wellFormed hn0 hn hsafe hr with h0 | ⟨a, bs', ho⟩
  · cases h0
    exact ⟨bs, hw⟩
  · have hal := ho.allocates.alloc
    have hmem := ho.allocates.mem_iff
    have hab : a ∈ bs' := (hmem a hal).2 (.inl rfl)
    obtain rfl : q = a.addr := ho.ptr
    have hsize : n + 8 ≤ a.size := (adjust_spec hn).2.2.1.trans ho.size_le
    have hblock : ∀ r ∈ w.live, ∃ b ∈ bs', b ≠ a ∧ b.alloc = true ∧ b.addr = r.1 ∧
        r.2 + 8 ≤ b.size := fun r hr => by
      obtain ⟨b, hb, hba, hbr, hbs⟩ := hw.block r hr
      refine ⟨b, (hmem b hba).2 (.inr hb), ?_, hba, hbr, hbs⟩
      rintro rfl
      exact ho.allocates.fresh hb
    dsimp only
    rw [if_neg (ho.wellFormed.placed.pos a hab).ne']
    refine ⟨bs', ho.wellFormed, fun r hr => ?_, List.pairwise_cons.2 ⟨fun r hr => ?_, hw.distinct⟩⟩
    · rcases List.mem_cons.1 hr with rfl | hr
      · exact ⟨a, hab, hal, rfl, hsize⟩
      · obtain ⟨b, hb, -, hrest⟩ := hblock r hr
        exact ⟨b, hb, hrest⟩
    · obtain ⟨b, hb, hne, -, hbr, -⟩ := hblock r hr
      rw [← hbr]
      exact fun heq => hne (eq_of_addr_eq ho.wellFormed.spans.sorted hab hb heq).symm

/-- **`mm_free` keeps the invariant**, also when it takes a byte for a marker. -/
lemma Held.free (hw : Held w bs) (hp : (p, m) ∈ w.live) :
    ∃ bs', Held ⟨w.heap.mmFree p, w.live.erase (p, m)⟩ bs' := by
  obtain ⟨b, hb, ha, rfl, -⟩ := hw.block _ hp
  by_cases hun : Unmarked w.heap b.addr
  · obtain ⟨pre, post, rfl⟩ := List.append_of_mem hb
    obtain ⟨xs, c, ys, hf⟩ := mmFree_spec hw.wellFormed ha hun
    refine ⟨_, hf.wellFormed, fun r hr => ?_, hw.erase⟩
    obtain ⟨hr, hne⟩ := hw.ne_of_mem_erase hp hr
    obtain ⟨d, hd, hda, hdr, hds⟩ := hw.block r hr
    refine ⟨d, (hf.mem_iff hda).2 ?_, hda, hdr, hds⟩
    have hdb : d ≠ b := by rintro rfl; exact hne hdr.symm
    simpa [hdb] using hd
  · refine ⟨bs, (mmFree_of_marked hw.wellFormed hb hun).2, fun r hr => ?_, hw.erase⟩
    exact hw.block r (hw.ne_of_mem_erase hp hr).1

/-- **`mm_realloc` keeps the invariant.** -/
lemma Held.realloc (hw : Held w bs) (hn : n < 2 ^ 31) (hp : (p, m) ∈ w.live)
    (hsafe : ∀ h₁, w.heap.reallocMallocs p n = some h₁ → MallocSafe h₁ n)
    (hc : w.call (.realloc p m n) = some w') : ∃ bs', Held w' bs' := by
  obtain ⟨b, hb, ha, rfl, hbm⟩ := hw.block _ hp
  obtain ⟨⟨q, h⟩, hr, rfl⟩ := Option.map_eq_some_iff.1 hc
  have hpos : b.addr ≠ 0 := (hw.wellFormed.placed.pos b hb).ne'
  dsimp only
  rcases Nat.eq_zero_or_pos n with rfl | hn0
  · rw [mmRealloc, if_pos rfl] at hr
    cases hr
    rw [if_neg hpos, if_pos rfl]
    exact hw.free hp
  rcases mmRealloc_spec hw.wellFormed hb ha hn0 hn hsafe hr with ⟨h0, bs', k⟩ | ⟨a, bs', hres, -⟩
  · obtain rfl : q = 0 := h0
    rw [if_pos rfl]
    exact ⟨bs', hw.of_keepsBlocks k⟩
  · obtain rfl : q = a.addr := hres.ptr
    rw [if_neg (hres.wellFormed.placed.pos a hres.mem).ne', if_neg hn0.ne']
    have hblock : ∀ r ∈ w.live.erase (b.addr, m), ∃ c ∈ bs', c ≠ a ∧ c.alloc = true ∧
        c.addr = r.1 ∧ r.2 + 8 ≤ c.size := fun r hr => by
      obtain ⟨hr, hne⟩ := hw.ne_of_mem_erase hp hr
      obtain ⟨c, hc, hca, hcr, hcs⟩ := hw.block r hr
      have hcb : c ≠ b := by rintro rfl; exact hne hcr.symm
      obtain ⟨h1, h2⟩ := hres.others c hc hca hcb
      exact ⟨c, h1, h2, hca, hcr, hcs⟩
    refine ⟨bs', hres.wellFormed, fun r hr => ?_,
      List.pairwise_cons.2 ⟨fun r hr => ?_, hw.erase⟩⟩
    · rcases List.mem_cons.1 hr with rfl | hr
      · exact ⟨a, hres.mem, hres.alloc, rfl, hres.size_le⟩
      · obtain ⟨c, hc, -, hrest⟩ := hblock r hr
        exact ⟨c, hc, hrest⟩
    · obtain ⟨c, hc, hne, -, hcr, -⟩ := hblock r hr
      rw [← hcr]
      exact fun heq => hne (eq_of_addr_eq hres.wellFormed.spans.sorted hres.mem hc heq).symm

/-- A live byte belongs to an allocated payload. -/
lemma Held.payload (hw : Held w bs) (hx : w.Owns x) :
    ∃ b ∈ bs, b.alloc = true ∧ b.Payload x := by
  obtain ⟨r, hr, h1, h2⟩ := hx
  obtain ⟨b, hb, ha, hbr, hsize⟩ := hw.block r hr
  exact ⟨b, hb, ha, by unfold Block.Payload Block.next; omega⟩

/-- **Writing into a live payload keeps the invariant.** -/
lemma Held.write (hw : Held w bs) (hx : w.Owns x) (v : Byte) :
    Held ⟨w.heap.putc x v, w.live⟩ bs := by
  obtain ⟨b, hb, ha, hbx⟩ := hw.payload hx
  refine ⟨hw.wellFormed.agree_payload hb ha (sameArena_putc x v) rfl fun y hy => ?_, hw.block,
    hw.distinct⟩
  rw [putc_mem, Function.update_of_ne]
  rintro rfl
  exact hy hbx

/-! ## Runs -/

/-- The call takes no size-specialised branch in a heap for which it was not written. -/
def Safe (w : World) : Call → Prop
  | .malloc n => n < 2 ^ 31 ∧ MallocSafe w.heap n
  | .realloc p _ n => n < 2 ^ 31 ∧
    ∀ h₁, w.heap.reallocMallocs p n = some h₁ → MallocSafe h₁ n
  | .free _ _ => True
  | .write _ _ => True

/-- The call is for an ordinary size and takes no byte for a marker. -/
def Plain (w : World) : Call → Prop
  | .malloc n => 0 < n ∧ n ≤ maxHeap ∧ Ordinary n
  | .realloc p _ n => 0 < n ∧ n ≤ maxHeap ∧ Ordinary n ∧
    ∀ h₂, w.heap.reallocFrees p n = some h₂ → Unmarked h₂ p
  | .free p _ => Unmarked w.heap p
  | .write _ _ => True

/-- Plain calls are safe. -/
lemma Plain.safe {c : Call} (hc : Plain w c) : Safe w c := by
  have hmax : maxHeap < 2 ^ 31 := by decide
  cases c with
  | malloc n => exact ⟨lt_of_le_of_lt hc.2.1 hmax, hc.2.2.safe _⟩
  | realloc p m n => exact ⟨lt_of_le_of_lt hc.2.1 hmax, fun h₁ _ => hc.2.2.1.safe h₁⟩
  | free p m => trivial
  | write x v => trivial

/-- Runs of plain calls are runs of safe calls. -/
lemma ReachableIf.safe (h : ReachableIf Plain w) : ReachableIf Safe w :=
  h.mono fun _ _ ⟨c, ha, hc, hw⟩ => ⟨c, ha, hc.safe, hw⟩

/-- A safe call keeps the invariant. -/
lemma Held.step {c : Call} (hw : Held w bs) (ha : w.Allowed c) (hs : Safe w c)
    (hc : w.call c = some w') : ∃ bs', Held w' bs' := by
  cases c with
  | malloc n => exact hw.malloc hs.1 hs.2 hc
  | realloc p m n => exact hw.realloc hs.1 ha hs.2 hc
  | free p m =>
    cases hc
    exact hw.free ha
  | write x v =>
    cases hc
    exact ⟨bs, hw.write ha v⟩

/-- **Every run of safe calls keeps the invariant.** -/
theorem ReachableIf.held (h : ReachableIf Safe w) : ∃ bs, Held w bs := by
  refine Reachability.Reachable.invariant (P := fun w => ∃ bs, Held w bs) (fun w hw => ?_)
    (fun w w' _ ih hs => ?_) h
  · obtain ⟨h₀, hf, hi, hl⟩ := hw
    obtain ⟨h', hi', wf, -⟩ := mmInit_spec hf
    rw [hi] at hi'
    cases hi'
    exact ⟨_, wf, by simp [hl], by simp [hl]⟩
  · obtain ⟨bs, hw⟩ := ih
    obtain ⟨c, ha, hsafe, hc⟩ := hs
    exact hw.step ha hsafe hc

/-- **Plain calls end.** -/
lemma Held.returns {c : Call} (hw : Held w bs) (ha : w.Allowed c) (hc : Plain w c) :
    ∃ w', w.call c = some w' := by
  have hmax : maxHeap < 2 ^ 31 := by decide
  cases c with
  | malloc n =>
    obtain ⟨r, hr⟩ := mmMalloc_returns hw.wellFormed (lt_of_le_of_lt hc.2.1 hmax) hc.2.2
    exact ⟨_, Option.map_eq_some_iff.2 ⟨r, hr, rfl⟩⟩
  | realloc p m n =>
    obtain ⟨b, hb, hba, rfl, -⟩ := hw.block _ ha
    obtain ⟨r, hr⟩ := mmRealloc_returns hw.wellFormed hb hba hc.1
      (lt_of_le_of_lt hc.2.1 hmax) hc.2.2.1
    exact ⟨_, Option.map_eq_some_iff.2 ⟨r, hr, rfl⟩⟩
  | free p m => exact ⟨_, rfl⟩
  | write x v => exact ⟨_, rfl⟩

end Malloc
