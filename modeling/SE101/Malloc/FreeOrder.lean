import SE101.Malloc.Contract
import SE101.Malloc.Walks

set_option relaxedAutoImplicit false
set_option autoImplicit false

/-!
# The order of freeing

`mm_free` joins a block with the free neighbours that it has at that time, so two blocks that are
freed one after the other are joined in a way that depends on the order. What comes out does not:
as long as no byte is taken for a marker, the layout is the one in which both blocks have been
freed and all runs of free blocks joined, and the free lists hold its free blocks.

## Main definitions

* `Malloc.Heap.frees` — several calls of `mm_free`.
* `Malloc.NoneMarked` — none of them takes a byte for a marker.

## Main results

* `Malloc.frees_spec` — the layout after several calls.
* `Malloc.frees_order` — the order of two calls does not matter, and freeing all blocks leaves one.
-/

namespace Malloc

open LittleEndian Heap

variable {h h₁ h₂ : Heap} {b c : Block} {bs bs' : List Block} {ps qs : List ℕ} {p : ℕ}

/-- Several calls of `mm_free`, one after the other. -/
def Heap.frees (h : Heap) (ps : List ℕ) : Heap := ps.foldl mmFree h

/-- None of the calls takes a byte for a marker. -/
def NoneMarked (h : Heap) : List ℕ → Prop
  | [] => True
  | p :: ps => Unmarked h p ∧ NoneMarked (h.mmFree p) ps

instance (h : Heap) (p : ℕ) : Decidable (Unmarked h p) := by unfold Unmarked; infer_instance

instance : ∀ (h : Heap) (ps : List ℕ), Decidable (NoneMarked h ps)
  | _, [] => inferInstanceAs (Decidable True)
  | h, p :: ps =>
    have := instDecidableNoneMarked (h.mmFree p) ps
    inferInstanceAs (Decidable (Unmarked h p ∧ NoneMarked (h.mmFree p) ps))

/-- **One more call.** The blocks at `qs` have been freed, and the block `b` has not. -/
lemma mmFree_freeAt (hs : bs.Pairwise fun b b' => b.next ≤ b'.addr) (hb : b ∈ bs)
    (ha : b.alloc = true) (hq : b.addr ∉ qs) (w : WellFormed h (joinFree (freeAt qs bs)))
    (hun : Unmarked h b.addr) :
    WellFormed (h.mmFree b.addr) (joinFree (freeAt (b.addr :: qs) bs)) := by
  obtain ⟨xs, ys, hbefore, hafter⟩ := exists_freeAt_cons hs hb hq
  rw [hbefore, joinFree_append_of_alloc ha] at w
  obtain ⟨xs', c, ys', hf⟩ := mmFree_spec w ha hun
  have hjoin : joinFree (joinFree xs ++ b.freed :: joinFree ys) =
      joinFree (xs ++ b.freed :: ys) := by
    rw [joinFree_joinFree_append]
    have hmid : joinFree ((xs ++ [b.freed]) ++ joinFree ys) = joinFree ((xs ++ [b.freed]) ++ ys) :=
      joinFree_append_joinFree
    simpa using hmid
  rw [hafter, ← hjoin, hf.layout]
  exact hf.wellFormed

/-- **Several calls.** The layout after the blocks at `ps` have been freed in this order.

**Proof sketch.** Induction on the calls; the blocks at `qs` have been freed before. -/
lemma frees_spec (hs : bs.Pairwise fun b b' => b.next ≤ b'.addr)
    (hlive : ∀ p ∈ ps, ∃ b ∈ bs, b.alloc = true ∧ b.addr = p) (hnd : (ps ++ qs).Nodup)
    (w : WellFormed h (joinFree (freeAt qs bs))) (hun : NoneMarked h ps) :
    WellFormed (h.frees ps) (joinFree (freeAt (ps ++ qs) bs)) := by
  induction ps generalizing h qs with
  | nil => exact w
  | cons p ps ih =>
    obtain ⟨b, hb, ha, rfl⟩ := hlive p List.mem_cons_self
    obtain ⟨hfirst, hrest⟩ := hun
    rw [List.cons_append, List.nodup_cons] at hnd
    have hq : b.addr ∉ qs := fun h => hnd.1 (List.mem_append_right ps h)
    have hnd' : (ps ++ b.addr :: qs).Nodup :=
      List.perm_middle.nodup_iff.2 (List.nodup_cons.2 hnd)
    have hcongr : freeAt (b.addr :: ps ++ qs) bs = freeAt (ps ++ b.addr :: qs) bs :=
      freeAt_congr fun x => List.perm_middle.symm.mem_iff
    rw [hcongr]
    exact ih (fun p hp => hlive p (List.mem_cons_of_mem _ hp)) hnd'
      (mmFree_freeAt hs hb ha hq w hfirst) hrest

/-- Two heaps with the same layout have the same nodes in each list. -/
lemma WellFormed.nodes_perm (w₁ : WellFormed h₁ bs) (w₂ : WellFormed h₂ bs) {i : ℕ}
    (hi : i < listNum) : ∃ xs ys, h₁.Nodes (h₁.freeListp i) xs ∧ h₂.Nodes (h₂.freeListp i) ys ∧
      xs.Perm ys := by
  obtain ⟨L₁, hl₁⟩ := w₁.lists
  obtain ⟨L₂, hl₂⟩ := w₂.lists
  refine ⟨L₁ i, L₂ i, hl₁.nodes (w₁.placed.sublist freeBlocks_sublist) hi,
    hl₂.nodes (w₂.placed.sublist freeBlocks_sublist) hi,
    (List.perm_ext_iff_of_nodup (hl₁.nodup i hi) (hl₂.nodup i hi)).2 fun x => ?_⟩
  rw [hl₁.mem_iff i hi, hl₂.mem_iff i hi]

/-- The two heaps have the same layout, and the same blocks in each free list. -/
def SameBlocks (h₁ h₂ : Heap) : Prop :=
  (∃ bs, WellFormed h₁ bs ∧ WellFormed h₂ bs) ∧
    ∀ i < listNum, ∃ xs ys, h₁.Nodes (h₁.freeListp i) xs ∧ h₂.Nodes (h₂.freeListp i) ys ∧
      xs.Perm ys

/-- The heap is a single free block. -/
def SingleFree (h : Heap) : Prop :=
  ∃ b, b.alloc = false ∧ b.addr = h.memStartBrk + 16 ∧ b.next = h.memBrk ∧ WellFormed h [b]

/-- The addresses of the allocated blocks. -/
def liveAddrs (bs : List Block) : List ℕ := (bs.filter Block.alloc).map Block.addr

lemma mem_liveAddrs : p ∈ liveAddrs bs ↔ ∃ b ∈ bs, b.alloc = true ∧ b.addr = p := by
  simp [liveAddrs, and_assoc]

/-- The allocated bits are in the headers. -/
lemma WellFormed.liveAddrs_eq (w : WellFormed h bs) :
    liveAddrs bs = (bs.map Block.addr).filter fun p => h.getAlloc (hdrp p) = 1 := by
  rw [liveAddrs, List.filter_map]
  congr 1
  refine List.filter_congr fun b hb => ?_
  have hbit : b.alloc.toNat = 1 ↔ b.alloc = true := Bool.toNat_eq_one
  rw [Function.comp_apply, (w.tagged b hb).getAlloc, Bool.eq_iff_iff, decide_eq_true_iff, hbit]

/-- The allocated blocks of a row have different addresses. -/
lemma nodup_liveAddrs (hs : bs.Pairwise fun b b' => b.next ≤ b'.addr) : (liveAddrs bs).Nodup := by
  refine List.pairwise_map.2 ((hs.sublist List.filter_sublist).imp ?_)
  intro b c hbc heq
  have := b.addr_add_le
  omega

/-- Freeing all allocated blocks leaves free blocks only. -/
lemma freeAt_liveAddrs (hps : ∀ p ∈ liveAddrs bs, p ∈ ps) :
    ∀ c ∈ freeAt ps bs, c.alloc = false := by
  intro c hc
  obtain ⟨b, hb, rfl⟩ := List.mem_map.1 hc
  split_ifs with hp
  · exact Block.freed_alloc b
  · cases ha : b.alloc with
    | false => rfl
    | true => exact absurd (hps _ (mem_liveAddrs.2 ⟨b, hb, ha, rfl⟩)) hp

/-- **Freeing does not depend on the order.** Two blocks that are freed in either order leave the
same layout and the same blocks in each list; and freeing all blocks, in any order, leaves one free
block. -/
theorem frees_order (w : WellFormed h bs) :
    (∀ b ∈ bs, ∀ c ∈ bs, b.alloc = true → c.alloc = true → b ≠ c →
      NoneMarked h [b.addr, c.addr] → NoneMarked h [c.addr, b.addr] →
        SameBlocks (h.frees [b.addr, c.addr]) (h.frees [c.addr, b.addr])) ∧
    (bs ≠ [] → ∀ ps, ps.Perm (liveAddrs bs) → NoneMarked h ps → SingleFree (h.frees ps)) := by
  have hs := w.spans.sorted
  have w₀ : WellFormed h (joinFree (freeAt [] bs)) := by
    rw [freeAt_nil, joinFree_of_noAdj w.noAdj]
    exact w
  constructor
  · intro b hb c hc hba hca hne hbc hcb
    have hadd : b.addr ≠ c.addr := fun h => hne (eq_of_addr_eq hs hb hc h)
    have w₁ : WellFormed (h.frees [b.addr, c.addr]) (joinFree (freeAt [b.addr, c.addr] bs)) := by
      refine frees_spec hs (fun p hp => ?_) (by simpa using hadd) w₀ hbc
      simp only [List.mem_cons, List.not_mem_nil, or_false] at hp
      obtain rfl | rfl := hp
      · exact ⟨b, hb, hba, rfl⟩
      · exact ⟨c, hc, hca, rfl⟩
    have w₂ : WellFormed (h.frees [c.addr, b.addr]) (joinFree (freeAt [b.addr, c.addr] bs)) := by
      rw [freeAt_congr fun x => (List.Perm.swap c.addr b.addr []).mem_iff]
      refine frees_spec hs (fun p hp => ?_) (by simpa using hadd.symm) w₀ hcb
      simp only [List.mem_cons, List.not_mem_nil, or_false] at hp
      obtain rfl | rfl := hp
      · exact ⟨c, hc, hca, rfl⟩
      · exact ⟨b, hb, hba, rfl⟩
    exact ⟨⟨_, w₁, w₂⟩, fun i hi => w₁.nodes_perm w₂ hi⟩
  · intro hne ps hperm hun
    have wf : WellFormed (h.frees ps) (joinFree (freeAt (ps ++ []) bs)) := by
      refine frees_spec hs (fun p hp => mem_liveAddrs.1 (hperm.mem_iff.1 hp)) ?_ w₀ hun
      rw [List.append_nil]
      exact hperm.nodup_iff.2 (nodup_liveAddrs hs)
    rw [List.append_nil] at wf
    obtain ⟨d, hd, heq⟩ := joinFree_of_free
      (freeAt_liveAddrs fun p hp => hperm.mem_iff.2 hp) (by simpa [freeAt] using hne)
    rw [heq] at wf
    exact ⟨d, hd, wf.spans.1, wf.spans.2, wf⟩

set_option maxRecDepth 20000 in
/-- Two neighbours, freed from the left and from the right. -/
theorem frees_order_mallocs : ∃ w : World, w.live = [(4144, 24), (4112, 24)] ∧
    SameBlocks (w.heap.frees [4112, 4144]) (w.heap.frees [4144, 4112]) ∧
      SingleFree (w.heap.frees [4144, 4112]) := by
  have hrun : (startWorld.calls ([24, 24].map .malloc)).map (fun w => (w.live,
      w.heap.memStartBrk, [4112, 4144, 4176].filter fun p => w.heap.getAlloc (hdrp p) = 1,
      decide (w.heap.Blocks 4112 [4112, 4144, 4176] ∧ NoneMarked w.heap [4112, 4144] ∧
        NoneMarked w.heap [4144, 4112]))) =
      some ([(4144, 24), (4112, 24)], 4096, [4112, 4144], true) := by decide +kernel
  obtain ⟨w, hw, heq⟩ := Option.map_eq_some_iff.1 hrun
  obtain ⟨hlive, heq⟩ := Prod.mk.inj heq
  obtain ⟨hstart, heq⟩ := Prod.mk.inj heq
  obtain ⟨hfilter, heq⟩ := Prod.mk.inj heq
  obtain ⟨hblocks, hun, hun'⟩ := of_decide_eq_true heq
  obtain ⟨bs, hheld⟩ := (reachable_mallocs (fun n hn => by
    obtain rfl : n = 24 := by simpa using hn
    exact ⟨by decide, by decide, by unfold Ordinary; decide⟩) hw).safe.held
  have wf := hheld.wellFormed
  have haddrs : bs.map Block.addr = [4112, 4144, 4176] := by
    have := wf.blocks (List.Subset.refl bs) wf.spans
    rw [hstart] at this
    exact this.unique hblocks
  have hlives : liveAddrs bs = [4112, 4144] := by
    rw [wf.liveAddrs_eq, haddrs]
    exact hfilter
  obtain ⟨b, hb, hba, hbp⟩ := mem_liveAddrs.1 (hlives ▸ by simp : 4112 ∈ liveAddrs bs)
  obtain ⟨c, hc, hca, hcp⟩ := mem_liveAddrs.1 (hlives ▸ by simp : 4144 ∈ liveAddrs bs)
  obtain ⟨hpair, hall⟩ := frees_order wf
  refine ⟨w, hlive, ?_, hall ?_ _ ?_ hun'⟩
  · have hne : b ≠ c := by
      rintro rfl
      omega
    have := hpair b hb c hc hba hca hne
    rw [hbp, hcp] at this
    exact this hun hun'
  · rintro rfl
    cases haddrs
  · rw [hlives]
    exact List.Perm.swap _ _ []

end Malloc
