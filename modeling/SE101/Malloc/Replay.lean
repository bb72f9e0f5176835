import SE101.Malloc.Contract
import SE101.Malloc.Leaks
import SE101.Malloc.Ranges

set_option relaxedAutoImplicit false
set_option autoImplicit false

/-!
# The driver on `mm.c`

`eval_mm_valid` on the package of `mm.c`, for every trace of requests of ordinary sizes. The
payloads that the package hands out pass every check of the range list. A byte of a payload is
lost only where `mm_free` takes it for a marker, so the bytes with which the driver fills
payloads stay unless they are `0xFF`, and the comparison behind `mm_realloc` fails only for
another reason: a `char` is never equal to a byte of an index that is 128 or more.

## Main definitions

* `Malloc.Replays` — the invariant of a replay.
* `Malloc.Verdict` — how an evaluation may end.

## Main results

* `Malloc.Held.realloc_keeps` — what `mm_realloc` does to the bytes of payloads.
* `Malloc.Replays.step` — one request.
* `Malloc.evalMmValid_mm` — the result of `eval_mm_valid`.
-/

namespace Malloc

open LittleEndian Heap

variable {w : World} {bs bs₁ : List Block} {a b : Block} {h h₂ : Heap} {n p m q size : ℕ}

/-! ## Bytes of payloads -/

/-- Bytes that are taken for markers are the only ones that `mm_free` clears when it frees
nothing. -/
lemma mmFree_mem_of_marked (hun : ¬ Unmarked h p) {x : ℕ} (hx : h.mem x ≠ marker) :
    (h.mmFree p).mem x = h.mem x := by
  by_cases h₁ : h.mem (p + 4095) = marker
  · rw [show h.mmFree p = h.putc (p + 4095) 0 from if_pos h₁, putc_mem, Function.update_of_ne]
    rintro rfl
    exact hx h₁
  · have h₂ : h.mem (p + 8191) = marker := by
      by_contra h₂
      exact hun ⟨h₁, h₂⟩
    rw [show h.mmFree p = h.putc (p + 8191) 0 from (if_neg h₁).trans (if_pos h₂), putc_mem,
      Function.update_of_ne]
    rintro rfl
    exact hx h₂

/-- `mm_malloc` keeps the bytes that are owned. -/
lemma Held.malloc_keeps (hw : Held w bs) (hn0 : 0 < n) (hn : n < 2 ^ 31)
    (hsafe : MallocSafe w.heap n) (hr : w.heap.mmMalloc n = some (q, h)) {x : ℕ} (hx : w.Owns x) :
    h.mem x = w.heap.mem x := by
  obtain ⟨b, hb, hba, hbx⟩ := hw.payload hx
  rcases mmMalloc_spec hw.wellFormed hn0 hn hsafe hr with h0 | ⟨a, bs', ho⟩
  · cases h0
    rfl
  · exact ho.keeps b hb hba x hbx

/-- `mm_free` keeps the bytes of the other payloads that are no markers. -/
lemma Held.free_keeps (hw : Held w bs) (hp : (p, m) ∈ w.live) {r : ℕ × ℕ} (hr : r ∈ w.live)
    (hrp : r.1 ≠ p) {k : ℕ} (hk : k < r.2) (hmark : w.heap.mem (r.1 + k) ≠ marker) :
    (w.heap.mmFree p).mem (r.1 + k) = w.heap.mem (r.1 + k) := by
  obtain ⟨b, hb, hba, hbp, -⟩ := hw.block _ hp
  obtain rfl : b.addr = p := hbp
  obtain ⟨c, hc, hca, hcr, hsize⟩ := hw.block r hr
  by_cases hun : Unmarked w.heap b.addr
  · obtain ⟨pre, post, rfl⟩ := List.append_of_mem hb
    obtain ⟨xs, d, ys, hf⟩ := mmFree_spec hw.wellFormed hba hun
    have hcb : c ≠ b := by
      rintro rfl
      exact hrp hcr.symm
    refine hf.keeps c (by simpa [hcb] using hc) hca _ ?_
    unfold Block.Payload Block.next
    omega
  · exact mmFree_mem_of_marked hun hmark

/-- The heap in which `mm_realloc` calls `mm_free`: a new block has been handed out, and the
payload has been copied into it. -/
lemma reallocFrees_spec (w : WellFormed h bs) (hb : b ∈ bs) (ha : b.alloc = true)
    (hs0 : 0 < size) (hs : size < 2 ^ 31)
    (hsafe : ∀ h₁, h.reallocMallocs b.addr size = some h₁ → MallocSafe h₁ size)
    (hf : h.reallocFrees b.addr size = some h₂) : ∃ r a bs₁, HandsOut h bs (adjust size) r a bs₁ ∧
      h₂ = r.2.copyPayload r.1 b.addr b.size ∧ b.size < adjust size ∧
      h.mmRealloc b.addr size = some (r.1, h₂.mmFree b.addr) := by
  obtain ⟨h24, h8, hle, hmax⟩ := adjust_spec hs
  have hpos := (w.placed.pos b hb).ne'
  have hmod : (adjust size + 3 * dsize) % 2 ^ 64 = adjust size + 24 :=
    Nat.mod_eq_of_lt (by simp only [dsize]; omega)
  have hcs : h.getSize (hdrp b.addr) = b.size := (w.tagged b hb).getSize
  rw [Heap.reallocFrees, if_neg hs0.ne', if_neg hpos] at hf
  obtain ⟨h₁, hm, hf⟩ := Option.bind_eq_some_iff.1 hf
  obtain ⟨r, hr, hf⟩ := Option.bind_eq_some_iff.1 hf
  split_ifs at hf with hr0
  obtain rfl := Option.some.inj hf
  have hsafe₁ := hsafe h₁ hm
  rw [Heap.reallocMallocs, if_neg hs0.ne', if_neg hpos] at hm
  rw [mmRealloc, if_neg hs0.ne', if_neg hpos]
  dsimp only at hm ⊢
  rw [hcs, hmod] at hm ⊢
  split_ifs at hm with hkeep hsplit
  have hgt : b.size < adjust size := by
    by_contra hge
    exact hkeep ⟨not_lt.1 hge, not_le.1 hsplit⟩
  rw [if_neg hkeep, if_neg hsplit]
  have hg := reallocGrow_spec w hb ha h8 hgt
  cases hc : h.reallocGrow b.addr b.size (adjust size) with
  | error r₀ =>
    rw [hc] at hm
    cases hm
  | ok h₃ =>
    rw [hc] at hm hg
    obtain rfl := Option.some.inj hm
    cases hg with
    | moves k₁ =>
    rcases mmMalloc_spec k₁.wellFormed hs0 hs hsafe₁ hr with rfl | ⟨a, bs₁, ho⟩
    · exact absurd rfl hr0
    · refine ⟨r, a, bs₁, ho.of_keepsBlocks k₁, rfl, hgt, ?_⟩
      dsimp only
      rw [reallocMove_eq, hr, Option.map_some, if_neg hr0]

/-- The bytes when a payload has been copied into the block that was handed out. -/
lemma HandsOut.copied {r : ℕ × Heap} (ho : HandsOut h bs (adjust size) r a bs₁) (hb : b ∈ bs)
    (ha : b.alloc = true) (hgt : b.size < adjust size) :
    (∀ k < b.size - 8,
      (r.2.copyPayload r.1 b.addr b.size).mem (a.addr + k) = h.mem (b.addr + k)) ∧
    ∀ c ∈ bs, c.alloc = true → ∀ x, c.Payload x →
      (r.2.copyPayload r.1 b.addr b.size).mem x = h.mem x := by
  have hmem := ho.allocates.mem_iff
  have hab : a ∈ bs₁ := (hmem a ho.allocates.alloc).2 (.inl rfl)
  have hbb : b ∈ bs₁ := (hmem b ha).2 (.inr hb)
  have hapart {c : Block} (hc : c ∈ bs) (hca : c.alloc = true) :
      c.next ≤ a.addr ∨ a.next ≤ c.addr :=
    ho.wellFormed.apart ((hmem c hca).2 (.inr hc)) hab fun heq => ho.allocates.fresh (heq ▸ hc)
  have hb24 := b.addr_add_le
  have ha24 := a.addr_add_le
  have hsl := ho.size_le
  have hlt := ho.wellFormed.placed.size_lt b hbb
  have hsub : sub64 b.size dsize = b.size - 8 :=
    sub64_of_le (by have := b.min; simp only [dsize]; omega) (by omega)
  have hne : r.1 ≠ b.addr := by
    have := hapart hb ha
    rw [ho.ptr]
    omega
  have hcopy : (r.2.copyPayload r.1 b.addr b.size).mem =
      copy r.2.mem a.addr r.2.mem b.addr (b.size - 8) := by
    rw [Heap.copyPayload, if_pos hne, hsub, ho.ptr]
  rw [hcopy]
  refine ⟨fun k hk => ?_, fun c hc hca x hx => ?_⟩
  · refine (copy_apply_add hk).trans (ho.keeps b hb ha _ ?_)
    unfold Block.Payload Block.next
    omega
  · rw [copy_apply_of_notMem, ho.keeps c hc hca x hx]
    have := hapart hc hca
    unfold Block.Payload at hx
    unfold Block.next at this hx
    omega

/-- **`mm_realloc` keeps the bytes that are no markers**, of the payload that it moves and of all
others.

**Proof sketch.** If its `mm_free` frees, then it keeps all bytes. If it takes a byte for a marker
instead, the payload has been copied before, and that byte is the only one to change. -/
lemma Held.realloc_keeps (hw : Held w bs) (hn0 : 0 < n) (hn : n < 2 ^ 31) (hp : (p, m) ∈ w.live)
    (hsafe : ∀ h₁, w.heap.reallocMallocs p n = some h₁ → MallocSafe h₁ n)
    (hr : w.heap.mmRealloc p n = some (q, h)) (hq : q ≠ 0) :
    (∀ k, k < n → k < m → w.heap.mem (p + k) ≠ marker → h.mem (q + k) = w.heap.mem (p + k)) ∧
      ∀ r ∈ w.live, r.1 ≠ p → ∀ k < r.2, w.heap.mem (r.1 + k) ≠ marker →
        h.mem (r.1 + k) = w.heap.mem (r.1 + k) := by
  obtain ⟨b, hb, hba, hbp, hbm⟩ := hw.block _ hp
  obtain rfl : b.addr = p := hbp
  dsimp only at hbm
  have hother {r : ℕ × ℕ} (hr : r ∈ w.live) (hne : r.1 ≠ b.addr) {k : ℕ} (hk : k < r.2) :
      ∃ c ∈ bs, c.alloc = true ∧ c ≠ b ∧ c.Payload (r.1 + k) := by
    obtain ⟨c, hc, hca, hcr, hsize⟩ := hw.block r hr
    refine ⟨c, hc, hca, ?_, by unfold Block.Payload Block.next; omega⟩
    rintro rfl
    exact hne hcr.symm
  by_cases hun : ∀ h₂, w.heap.reallocFrees b.addr n = some h₂ → Unmarked h₂ b.addr
  · rcases mmRealloc_spec hw.wellFormed hb hba hn0 hn hsafe hr with ⟨h0, -⟩ | ⟨a, bs', hres, hcop⟩
    · exact absurd h0 hq
    · obtain rfl : q = a.addr := hres.ptr
      obtain ⟨hdata, hkeeps⟩ := hcop hun
      refine ⟨fun k hkn hkm _ => hdata k hkn (by omega), fun r hr hne k hk _ => ?_⟩
      obtain ⟨c, hc, hca, hcb, hx⟩ := hother hr hne hk
      exact hkeeps c hc hca hcb _ hx
  · simp only [not_forall] at hun
    obtain ⟨h₂, hf, hun⟩ := hun
    obtain ⟨r, a, bs₁, ho, rfl, hgt, hr'⟩ := reallocFrees_spec hw.wellFormed hb hba hn0 hn hsafe hf
    obtain ⟨hdata, hkeeps⟩ := ho.copied hb hba hgt
    rw [hr] at hr'
    obtain ⟨rfl, rfl⟩ := Prod.mk.inj (Option.some.inj hr')
    refine ⟨fun k hkn hkm hmark => ?_, fun r' hr' hne k hk hmark => ?_⟩
    · have hk := hdata k (by omega)
      rw [← ho.ptr] at hk
      rw [mmFree_mem_of_marked hun (by rwa [hk]), hk]
    · obtain ⟨c, hc, hca, -, hx⟩ := hother hr' hne hk
      have hk := hkeeps c hc hca _ hx
      rw [mmFree_mem_of_marked hun (by rwa [hk]), hk]

/-! ## Calls -/

/-- `mm_malloc` for an ordinary size. -/
lemma Held.malloc_ordinary {l : List (ℕ × ℕ)} (hw : Held ⟨h, l⟩ bs) (ho : Ordinary n)
    (hn : n < 2 ^ 31) : ∃ p h', h.mmMalloc n = some (p, h') ∧
      (p ≠ 0 → ∃ bs', Held ⟨h', (p, n) :: l⟩ bs') := by
  obtain ⟨⟨p, h'⟩, hr⟩ := mmMalloc_returns hw.wellFormed hn ho
  refine ⟨p, h', hr, fun hp => ?_⟩
  have hcall : (World.mk h l).call (.malloc n) = some ⟨h', (p, n) :: l⟩ := by
    rw [World.call, hr]
    simp [hp]
  exact hw.malloc hn (ho.safe _) hcall

/-- `mm_realloc` for an ordinary size. -/
lemma Held.realloc_ordinary {l : List (ℕ × ℕ)} (hw : Held ⟨h, l⟩ bs) (hp : (p, m) ∈ l)
    (hn0 : 0 < n) (hn : n < 2 ^ 31) (ho : Ordinary n) : ∃ q h', h.mmRealloc p n = some (q, h') ∧
      (q ≠ 0 → ∃ bs', Held ⟨h', (q, n) :: l.erase (p, m)⟩ bs') := by
  obtain ⟨b, hb, hba, hbp, -⟩ := hw.block _ hp
  obtain rfl : b.addr = p := hbp
  obtain ⟨⟨q, h'⟩, hr⟩ := mmRealloc_returns hw.wellFormed hb hba hn0 hn ho
  refine ⟨q, h', hr, fun hq => ?_⟩
  have hcall : (World.mk h l).call (.realloc b.addr m n) =
      some ⟨h', (q, n) :: l.erase (b.addr, m)⟩ := by
    rw [World.call, show h.mmRealloc b.addr n = _ from hr]
    simp [hq, hn0.ne']
  exact hw.realloc hn hp (fun h₁ _ => ho.safe h₁) hcall

/-- What is left of the live pointers when one index has been given up. -/
lemma map_erase_perm {live : List ℤ} {i : ℤ} (f : ℤ → ℕ × ℕ) (hi : i ∈ live) :
    ((live.map f).erase (f i)).Perm ((live.erase i).map f) := by
  have hperm := ((List.perm_cons_erase hi).map f).erase (f i)
  rwa [List.map_cons, List.erase_cons_head] at hperm

/-- The arrays of the trace have a pointer and a size for one more index. -/
lemma map_update_pair {live : List ℤ} {i : ℤ} (hi : i ∉ live) (blocks sizes : ℤ → ℕ) :
    (i :: live).map (fun j => (Function.update blocks i p j, Function.update sizes i n j)) =
      (p, n) :: live.map fun j => (blocks j, sizes j) := by
  rw [List.map_cons, Function.update_self, Function.update_self]
  refine congrArg _ (List.map_congr_left fun j hj => ?_)
  have hne : j ≠ i := fun heq => hi (heq ▸ hj)
  rw [Function.update_of_ne hne, Function.update_of_ne hne]

/-! ## The invariant -/

section Replay

variable {d : Driver Heap} {live live' : List ℤ} {i j : ℤ}

/-- The address and the size of the payload of an index. -/
def Driver.pair (d : Driver Heap) (i : ℤ) : ℕ × ℕ := (d.blocks i, d.blockSizes i)

/-- The driver is a client of the package: its pointers are live, and the payloads have the bytes
of their indices, unless these are taken for markers. -/
structure Replays (d : Driver Heap) (live : List ℤ) : Prop where
  tracks : Tracks d live
  held : ∃ bs, Held ⟨d.heap, live.map d.pair⟩ bs
  size : ∀ i ∈ live, 0 < d.blockSizes i ∧ d.blockSizes i < 2 ^ 31
  filled : ∀ i ∈ live, i % 256 ≠ 255 → ∀ k < d.blockSizes i,
    d.heap.mem (d.blocks i + k) = BitVec.ofInt 8 i

/-- The order of live pointers does not matter. -/
lemma Held.perm {l l' : List (ℕ × ℕ)} (hw : Held ⟨h, l⟩ bs) (hp : l.Perm l') : Held ⟨h, l'⟩ bs where
  wellFormed := hw.wellFormed
  block r hr := hw.block r (hp.mem_iff.2 hr)
  distinct := (hp.pairwise_iff fun h => Ne.symm h).1 hw.distinct

/-- The order of live indices does not matter. -/
lemma Replays.perm (hd : Replays d live) (hp : live.Perm live') : Replays d live' where
  tracks := hd.tracks.perm hp
  held := hd.held.imp fun _ hw => hw.perm (hp.map _)
  size i hi := hd.size i (hp.mem_iff.2 hi)
  filled i hi := hd.filled i (hp.mem_iff.2 hi)

/-- Filling a payload keeps the invariant of the heap. -/
lemma Held.memset {l : List (ℕ × ℕ)} (hw : Held ⟨h, l⟩ bs) (hr : (p, n) ∈ l) (c : Byte) :
    Held ⟨{ h with mem := memset h.mem p c n }, l⟩ bs := by
  obtain ⟨b, hb, hba, hbp, hsize⟩ := hw.block _ hr
  refine ⟨hw.wellFormed.agree_payload hb hba ⟨rfl, rfl, rfl, rfl⟩ rfl fun x hx => if_neg ?_,
    hw.block, hw.distinct⟩
  unfold Block.Payload Block.next at hx
  dsimp only at hbp hsize
  omega

/-- The byte of an index that is not taken for a marker. -/
lemma ofInt_ne_marker (hi : i % 256 ≠ 255) : BitVec.ofInt 8 i ≠ marker := by
  intro heq
  have hnat := congrArg BitVec.toNat heq
  rw [BitVec.toNat_ofInt, show marker.toNat = 255 from rfl] at hnat
  omega

/-- The payload that was handed out passes the range list, and the invariant holds when it has
been filled and remembered. -/
lemma Tracks.handOut (ht : Tracks d live) (hi : i ∉ live)
    (hsizes : ∀ i ∈ live, 0 < d.blockSizes i ∧ d.blockSizes i < 2 ^ 31) {size : ℤ} (hpos : 0 < size)
    (hlt : size < 2 ^ 31) (hw : Held ⟨h, (p, size.toNat) :: live.map d.pair⟩ bs)
    (hfilled : ∀ i ∈ live, i % 256 ≠ 255 → ∀ k < d.blockSizes i,
      h.mem (d.blocks i + k) = BitVec.ofInt 8 i) :
    addRange h.memStartBrk (h.memBrk - 1) d.ranges p size n =
        .ok (payload p size.toNat :: d.ranges) ∧
      Replays (({ d with
        heap := mmPackage.fill h p i size, ranges := payload p size.toNat :: d.ranges } :
        Driver Heap).remember i p size) (i :: live) := by
  obtain ⟨hin, hapart⟩ := hw.payloadsApart
  obtain ⟨h8, hlo, hhi⟩ := hin (p, size.toNat) List.mem_cons_self
  have hdisj (j : ℤ) (hj : j ∈ live) : p + size.toNat ≤ d.blocks j ∨
      d.blocks j + d.blockSizes j ≤ p :=
    List.rel_of_pairwise_cons hapart (List.mem_map_of_mem hj)
  have hcert : Certified h.memStartBrk (h.memBrk - 1) d.ranges p size.toNat := by
    refine ⟨by omega, by omega, hlo, by dsimp only at hhi; omega, fun r hr => ?_⟩
    obtain ⟨j, hj, rfl⟩ := (ht.mem_iff r).1 hr
    have := hdisj j hj
    have := (hsizes j hj).1
    simp only [Compatible, payload, Driver.payload]
    omega
  have hsizeT := sizeT_eq hpos.le hlt
  have hfill : mmPackage.fill h p i size =
      { h with mem := memset h.mem p (BitVec.ofInt 8 (i % 256)) size.toNat } := by
    rw [← hsizeT]
    rfl
  set d₁ : Driver Heap := { d with
    heap := mmPackage.fill h p i size, ranges := payload p size.toNat :: d.ranges } with hd₁
  have hself : (d₁.remember i p size).pair i = (p, size.toNat) := by
    simp only [Driver.pair, Driver.remember, Function.update_self, hsizeT]
  have hold (j : ℤ) (hj : j ∈ live) : (d₁.remember i p size).pair j = d.pair j := by
    have hne : j ≠ i := fun heq => hi (heq ▸ hj)
    simp only [Driver.pair, Driver.remember, Function.update_of_ne hne, hd₁]
  obtain ⟨hb, hs⟩ := Prod.mk.inj hself
  refine ⟨addRange_eq_ok_iff.2 ⟨hcert, rfl⟩, ht.add hi hlt hcert _, ⟨bs, ?_⟩, fun j hj => ?_,
    fun j hj hj255 k hk => ?_⟩
  · rw [List.map_cons, hself, List.map_congr_left hold]
    have hset := hw.memset List.mem_cons_self (BitVec.ofInt 8 (i % 256))
    rw [← hfill] at hset
    exact hset
  · rcases List.mem_cons.1 hj with rfl | hj
    · rw [hs]
      omega
    · obtain ⟨-, hs⟩ := Prod.mk.inj (hold j hj)
      rw [hs]
      exact hsizes j hj
  · have hmem : (d₁.remember i p size).heap.mem =
        memset h.mem p (BitVec.ofInt 8 (i % 256)) size.toNat := congrArg Heap.mem hfill
    rw [hmem]
    rcases List.mem_cons.1 hj with rfl | hj
    · rw [hs] at hk
      rw [hb, memset, if_pos (by omega)]
      apply BitVec.eq_of_toNat_eq
      rw [BitVec.toNat_ofInt, BitVec.toNat_ofInt]
      omega
    · obtain ⟨hb, hs⟩ := Prod.mk.inj (hold j hj)
      rw [hs] at hk
      have := hdisj j hj
      rw [hb, memset, if_neg (by omega)]
      exact hfilled j hj hj255 k hk

/-! ## Requests -/

/-- A request for an ordinary size, if it has one. -/
def TraceOp.Ordinary (op : TraceOp) : Prop :=
  op.type ≠ .free → 0 < op.size ∧ Malloc.Ordinary op.size.toNat

/-- **`eval_mm_valid` on `mm_malloc`**: a payload that is handed out passes. -/
lemma Replays.alloc {size : ℤ} (hindex : -2 ^ 31 ≤ i ∧ i < 2 ^ 31)
    (hint : -2 ^ 31 ≤ size ∧ size < 2 ^ 31) (hd : Replays d live) (hi : i ∉ live)
    (hpos : 0 < size) (hord : Malloc.Ordinary size.toNat) :
    mmPackage.validStep n ⟨.alloc, i, size, hindex, hint⟩ d = .error (.error n .mallocFailed) ∨
      ∃ d', mmPackage.validStep n ⟨.alloc, i, size, hindex, hint⟩ d = .ok d' ∧
        Replays d' (i :: live) := by
  obtain ⟨bs, hw⟩ := hd.held
  have hn : size.toNat < 2 ^ 31 := by omega
  obtain ⟨p, h, hr, hheld⟩ := hw.malloc_ordinary hord hn
  rw [Package.validStep]
  simp only [sizeT_eq hpos.le hint.2, mmPackage_malloc, mmPackage_heapLo, mmPackage_heapHi, hr]
  by_cases hp : p = 0
  · rw [if_pos hp]
    exact .inl rfl
  rw [if_neg hp]
  obtain ⟨bs', hw'⟩ := hheld hp
  obtain ⟨hadd, hd'⟩ := hd.tracks.handOut (n := n) hi hd.size hpos hint.2 hw'
    fun j hj hj255 k hk => by
      rw [hw.malloc_keeps (by omega) hn (hord.safe _) hr
        ⟨d.pair j, List.mem_map_of_mem hj, by simp only [Driver.pair]; omega⟩]
      exact hd.filled j hj hj255 k hk
  rw [hadd]
  exact .inr ⟨_, rfl, hd'⟩

/-- **`eval_mm_valid` on `mm_free`.** -/
lemma Replays.free (hd : Replays d live) (hi : i ∈ live) :
    Replays { d with
      ranges := removeRange d.ranges (d.blocks i), heap := d.heap.mmFree (d.blocks i) }
      (live.erase i) := by
  obtain ⟨bs, hw⟩ := hd.held
  have hmem : d.pair i ∈ live.map d.pair := List.mem_map_of_mem hi
  obtain ⟨bs', hw'⟩ := hw.free hmem
  refine ⟨hd.tracks.remove hi _, ⟨bs', hw'.perm (map_erase_perm d.pair hi)⟩,
    fun j hj => hd.size j (List.mem_of_mem_erase hj), fun j hj hj255 k hk => ?_⟩
  obtain ⟨hne, hj⟩ := hd.tracks.nodup.mem_erase_iff.1 hj
  have hbyte := hd.filled j hj hj255 k hk
  have hblock : d.blocks j ≠ d.blocks i := fun heq => hne (hd.tracks.distinct j hj i hi heq)
  refine (hw.free_keeps hmem (List.mem_map_of_mem hj : d.pair j ∈ _) hblock hk ?_).trans hbyte
  exact hbyte ▸ ofInt_ne_marker hj255

/-- **`eval_mm_valid` on `mm_realloc`**: a payload that is returned passes the range list, and the
comparison of its bytes fails exactly for the indices whose low byte is no `char`. -/
lemma Replays.realloc {size : ℤ} (hindex : -2 ^ 31 ≤ i ∧ i < 2 ^ 31)
    (hint : -2 ^ 31 ≤ size ∧ size < 2 ^ 31) (hd : Replays d live) (hi : i ∈ live)
    (hpos : 0 < size) (hord : Malloc.Ordinary size.toNat) :
    mmPackage.validStep n ⟨.realloc, i, size, hindex, hint⟩ d = .error (.error n .reallocFailed) ∨
      128 ≤ i % 256 ∧ mmPackage.validStep n ⟨.realloc, i, size, hindex, hint⟩ d =
        .error (.error n .notPreserved) ∨
      i % 256 < 128 ∧ ∃ d', mmPackage.validStep n ⟨.realloc, i, size, hindex, hint⟩ d = .ok d' ∧
        Replays d' live := by
  obtain ⟨bs, hw⟩ := hd.held
  have hn : size.toNat < 2 ^ 31 := by omega
  have hmem : d.pair i ∈ live.map d.pair := List.mem_map_of_mem hi
  obtain ⟨q, h, hr, hheld⟩ := hw.realloc_ordinary hmem (by omega) hn hord
  rw [Package.validStep]
  simp only [sizeT_eq hpos.le hint.2, mmPackage_realloc, mmPackage_heapLo, mmPackage_heapHi,
    mmPackage_mem, hr]
  by_cases hq : q = 0
  · rw [if_pos hq]
    exact .inl rfl
  rw [if_neg hq]
  have hsafe : ∀ h₁, d.heap.reallocMallocs (d.blocks i) size.toNat = some h₁ →
      MallocSafe h₁ size.toNat := fun h₁ _ => hord.safe h₁
  obtain ⟨bs', hw'⟩ := hheld hq
  obtain ⟨hdata, hkeeps⟩ := hw.realloc_keeps (by omega) hn hmem hsafe hr hq
  obtain ⟨hs0, hs31⟩ := hd.size i hi
  have holdsize : toInt32 (d.blockSizes i) = d.blockSizes i := by
    rw [toInt32, BitVec.toInt_eq_toNat_cond, BitVec.toNat_ofNat, Nat.mod_eq_of_lt (by omega),
      if_pos (by omega)]
  -- the payload has been taken from the list, and the new one is handed out
  have hremoved := hd.tracks.remove hi d.heap
  obtain ⟨hadd, hd'⟩ := hremoved.handOut (n := n) hd.tracks.nodup.not_mem_erase
    (fun j hj => hd.size j (List.mem_of_mem_erase hj)) hpos hint.2
    (hw'.perm ((map_erase_perm d.pair hi).cons _)) fun j hj hj255 k hk => by
      obtain ⟨hne, hj⟩ := hd.tracks.nodup.mem_erase_iff.1 hj
      have hbyte := hd.filled j hj hj255 k hk
      have hblock : d.blocks j ≠ d.blocks i := fun heq => hne (hd.tracks.distinct j hj i hi heq)
      refine (hkeeps (d.pair j) (List.mem_map_of_mem hj) hblock k hk ?_).trans hbyte
      exact hbyte ▸ ofInt_ne_marker hj255
  simp only [hadd, holdsize]
  by_cases hlow : i % 256 < 128
  · have hpres : preserved h.mem q i (min size (d.blockSizes i)) = true := by
      refine preserved_iff.2 fun k hk => byte_toInt_eq_iff.2 ⟨?_, hlow⟩
      have hbyte := hd.filled i hi (by omega) k (by omega)
      refine (hdata k (by omega) (by omega) ?_).trans hbyte
      exact hbyte ▸ ofInt_ne_marker (by omega)
    rw [if_pos hpres]
    exact .inr (.inr ⟨hlow, _, rfl, hd'.perm (List.perm_cons_erase hi).symm⟩)
  · have hpres : preserved h.mem q i (min size (d.blockSizes i)) ≠ true := fun hpres =>
      hlow (byte_toInt_eq_iff.1 (preserved_iff.1 hpres 0 (by omega))).2
    rw [if_neg hpres]
    exact .inr (.inl ⟨not_lt.1 hlow, rfl⟩)

/-! ## Traces -/

/-- How an evaluation of `mm.c` may end: all requests pass and no index that is resized has a low
byte from 128 on; or a call returns `NULL`; or such an index is resized. -/
inductive Verdict (n : ℕ) (ops : List TraceOp) : Except Stop (Driver Heap) → Prop
  | valid {d : Driver Heap} : (∀ op ∈ ops, op.type = .realloc → op.index % 256 < 128) →
      Verdict n ops (.ok d)
  | mallocNull {k : ℕ} {op : TraceOp} : ops[k]? = some op → op.type = .alloc →
      Verdict n ops (.error (.error (n + k) .mallocFailed))
  | reallocNull {k : ℕ} {op : TraceOp} : ops[k]? = some op → op.type = .realloc →
      Verdict n ops (.error (.error (n + k) .reallocFailed))
  | notChar {k : ℕ} {op : TraceOp} : ops[k]? = some op → op.type = .realloc →
      128 ≤ op.index % 256 → Verdict n ops (.error (.error (n + k) .notPreserved))

/-- A verdict on the requests behind a first one that passes. -/
lemma Verdict.cons {op : TraceOp} {ops : List TraceOp} {r : Except Stop (Driver Heap)}
    (h : Verdict (n + 1) ops r) (hop : op.type = .realloc → op.index % 256 < 128) :
    Verdict n (op :: ops) r := by
  cases h with
  | valid hall =>
    refine .valid fun o ho => ?_
    rcases List.mem_cons.1 ho with rfl | ho
    · exact hop
    · exact hall o ho
  | mallocNull hk hty =>
    rw [Nat.add_assoc, Nat.add_comm 1]
    exact .mallocNull hk hty
  | reallocNull hk hty =>
    rw [Nat.add_assoc, Nat.add_comm 1]
    exact .reallocNull hk hty
  | notChar hk hty hlow =>
    rw [Nat.add_assoc, Nat.add_comm 1]
    exact .notChar hk hty hlow

/-- The requests of a trace. -/
lemma Replays.validOps {ops : List TraceOp} : ∀ {n : ℕ} {live : List ℤ} {d : Driver Heap},
    Replays d live → TraceOk live ops → (∀ op ∈ ops, op.Ordinary) →
    Verdict n ops (mmPackage.validOps n ops d) := by
  induction ops with
  | nil => exact fun _ _ _ => .valid (by simp)
  | cons op ops ih =>
    intro n live d hd hok hord
    have hord' : ∀ op ∈ ops, op.Ordinary := fun o ho => hord o (List.mem_cons_of_mem _ ho)
    obtain ⟨hop, hok⟩ := hok
    have hordop := hord op List.mem_cons_self
    obtain ⟨type, i, size, hindex, hint⟩ := op
    rw [Package.validOps]
    cases type with
    | alloc =>
      obtain ⟨hpos, ho⟩ := hordop (by simp)
      rcases hd.alloc (n := n) hindex hint hop hpos ho with hnull | ⟨d', hstep, hd'⟩
      · rw [hnull]
        exact .mallocNull (k := 0) rfl rfl
      · rw [hstep]
        exact (ih hd' hok hord').cons (by simp)
    | realloc =>
      obtain ⟨hpos, ho⟩ := hordop (by simp)
      rcases hd.realloc (n := n) hindex hint hop hpos ho with
        hnull | ⟨hlow, hstep⟩ | ⟨hlow, d', hstep, hd'⟩
      · rw [hnull]
        exact .reallocNull (k := 0) rfl rfl
      · rw [hstep]
        exact .notChar (k := 0) rfl rfl hlow
      · rw [hstep]
        exact (ih hd' hok hord').cons fun _ => hlow
    | free => exact (ih (hd.free hop) hok hord').cons (by simp)

/-- **`eval_mm_valid` on `mm.c`**, for every trace that allocates indices that are not live,
resizes and frees indices that are, and requests ordinary sizes: it ends; it never reports a
payload that is not aligned, outside the heap or overlapping; and it returns 1 unless a call
returns `NULL` or an index whose low byte is 128 or more is resized, which is reported as data
that were not preserved. -/
theorem evalMmValid_mm {ops : List TraceOp} {d : Driver Heap}
    (hfresh : Fresh { d.heap with memBrk := d.heap.memStartBrk }) (hops : TraceOk [] ops)
    (hord : ∀ op ∈ ops, op.Ordinary) : Verdict 0 ops (evalMmValid mmPackage ops d) := by
  obtain ⟨h', hinit, wf, -⟩ := mmInit_spec hfresh
  rw [evalMmValid, mmPackage_resetBrk, mmPackage_init, hinit]
  have hstart : Replays { d with heap := h', ranges := [] } [] :=
    ⟨⟨List.nodup_nil, by simp, by simp, List.Pairwise.nil, by simp⟩,
      ⟨_, wf, by simp, by simp⟩, by simp, by simp⟩
  exact hstart.validOps hops hord

end Replay

/-- A payload of index 128 is resized. -/
def charTrace : List TraceOp := [.ofUnsigned .alloc 128 24, .ofUnsigned .realloc 128 100]

/-- What an evaluation that has ended early ended with. -/
def stopOf {α : Type} : Except Stop α → Option Stop
  | .error e => some e
  | .ok _ => none

set_option maxRecDepth 20000 in
/-- The trace is reported, although the bytes are there. -/
theorem evalMmValid_mm_char : Verdict 0 charTrace (evalMmValid mmPackage charTrace startDriver) ∧
    stopOf (evalMmValid mmPackage charTrace startDriver) = some (.error 1 .notPreserved) := by
  have hord : Ordinary 24 ∧ Ordinary 100 := by unfold Ordinary; decide
  have hok : TraceOk [] charTrace := by
    simp [charTrace, TraceOk, TraceOp.Ok, TraceOp.ofUnsigned, TraceOp.after]
  refine ⟨evalMmValid_mm fresh_startHeap hok fun op hop => ?_, by decide +kernel⟩
  simp only [charTrace, List.mem_cons, List.not_mem_nil, or_false] at hop
  rcases hop with rfl | rfl
  · exact fun _ => ⟨by decide, hord.1⟩
  · exact fun _ => ⟨by decide, hord.2⟩

end Malloc
