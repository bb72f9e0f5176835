import SE101.Malloc.Extend
import SE101.Malloc.Mdriver

set_option relaxedAutoImplicit false
set_option autoImplicit false

/-!
# What `eval_mm_valid` certifies

The checks of the driver, for a package of which nothing is known. If `eval_mm_valid` returns 1,
then every payload that the package handed out on the trace was aligned, inside the heap, and
disjoint from each payload in use, except that it may have enclosed one: the test of `add_range`
looks only at the ends of the new payload.

## Main definitions

* `Malloc.TraceOk`, `Malloc.liveAfter` — traces that release only what is live.
* `Malloc.Certified` — what the driver has found out about a payload.
* `Malloc.Tracks` — the range list has the payloads of the live indices.

## Main results

* `Malloc.addRange_eq_ok_iff` — what `add_range` accepts.
* `Malloc.Tracks.validStep` — one request.
* `Malloc.evalMmValid_certifies` — every request of a trace that passes.
-/

namespace Malloc

open LittleEndian

/-! ## Traces -/

/-- The indices that are live after a request. -/
def TraceOp.after (op : TraceOp) (live : List ℤ) : List ℤ :=
  match op.type with
  | .alloc => op.index :: live
  | .realloc => live
  | .free => live.erase op.index

/-- A request allocates an index that is not live, or resizes or frees one that is. -/
def TraceOp.Ok (op : TraceOp) (live : List ℤ) : Prop :=
  match op.type with
  | .alloc => op.index ∉ live
  | .realloc | .free => op.index ∈ live

/-- The indices that are live after a number of requests. -/
def liveAfter (live : List ℤ) (ops : List TraceOp) : List ℤ :=
  ops.foldl (fun live op => op.after live) live

/-- Each request fits the indices that are live before it. -/
def TraceOk : List ℤ → List TraceOp → Prop
  | _, [] => True
  | live, op :: ops => op.Ok live ∧ TraceOk (op.after live) ops

/-! ## `add_range` -/

/-- What `add_range` lets through for a new and a listed payload: they are disjoint, or the new
one encloses the other. -/
def Compatible (new old : Range) : Prop :=
  new.hi < old.lo ∨ old.hi < new.lo ∨ (new.lo < old.lo ∧ old.hi < new.hi)

/-- The test for an overlap fails exactly for compatible payloads. -/
lemma overlapTest_eq_false_iff {lo hi : ℕ} {p : Range} (hlo : lo ≤ hi) :
    overlapTest lo hi p = false ↔ Compatible ⟨lo, hi⟩ p := by
  simp only [overlapTest, Compatible, Bool.or_eq_false_iff, Bool.and_eq_false_iff,
    decide_eq_false_iff_not, not_le]
  omega

/-- The payload with a given address and size. -/
def payload (p size : ℕ) : Range := ⟨p, p + size - 1⟩

/-- What the driver has found out about a payload in a heap, against the listed ones. -/
structure Certified (heapLo heapHi : ℕ) (ranges : List Range) (p size : ℕ) : Prop where
  pos : 0 < size
  aligned : p % 8 = 0
  lo_le : heapLo ≤ p
  le_hi : p + size - 1 ≤ heapHi
  compatible : ∀ r ∈ ranges, Compatible (payload p size) r

/-- **`add_range` accepts exactly the payloads that are certified.** -/
theorem addRange_eq_ok_iff {heapLo heapHi lo i : ℕ} {ranges ranges' : List Range} {size : ℤ} :
    addRange heapLo heapHi ranges lo size i = .ok ranges' ↔
      Certified heapLo heapHi ranges lo size.toNat ∧ ranges' = payload lo size.toNat :: ranges := by
  unfold addRange
  by_cases hsize : size ≤ 0
  · rw [if_pos hsize]
    refine iff_of_false (by simp) fun h => ?_
    have := h.1.pos
    omega
  have hlohi : lo ≤ lo + size.toNat - 1 := by omega
  rw [if_neg hsize]
  dsimp only
  by_cases hal : lo % 8 ≠ 0
  · rw [if_pos hal]
    exact iff_of_false (by simp) fun h => hal h.1.aligned
  rw [if_neg hal]
  by_cases hout : lo < heapLo ∨ lo > heapHi ∨ lo + size.toNat - 1 < heapLo ∨
      lo + size.toNat - 1 > heapHi
  · rw [if_pos hout]
    refine iff_of_false (by simp) fun h => ?_
    have := h.1.lo_le
    have := h.1.le_hi
    omega
  rw [if_neg hout]
  cases hfind : ranges.find? (overlapTest lo (lo + size.toNat - 1)) with
  | some r =>
    refine iff_of_false (by simp) fun h => ?_
    have hmem := List.mem_of_find?_eq_some hfind
    have hfalse := (overlapTest_eq_false_iff hlohi).2 (h.1.compatible r hmem)
    rw [List.find?_some hfind] at hfalse
    cases hfalse
  | none =>
    have hcert : Certified heapLo heapHi ranges lo size.toNat := by
      refine ⟨by omega, by omega, by omega, by omega, fun r hr => ?_⟩
      refine (overlapTest_eq_false_iff hlohi).1 ?_
      simpa using List.find?_eq_none.1 hfind r hr
    simp only [Except.ok.injEq, payload, hcert, true_and, eq_comm]

/-! ## The invariant -/

section Tracks

variable {σ : Type*} {pkg : Package σ} {d d' : Driver σ} {live : List ℤ} {i j : ℤ} {p : ℕ}
  {size : ℤ}

/-- The payload of an index. -/
def Driver.payload (d : Driver σ) (i : ℤ) : Range := Malloc.payload (d.blocks i) (d.blockSizes i)

/-- The range list has the payloads of the live indices, which start at different addresses. -/
structure Tracks (d : Driver σ) (live : List ℤ) : Prop where
  nodup : live.Nodup
  mem_iff : ∀ r, r ∈ d.ranges ↔ ∃ i ∈ live, r = d.payload i
  distinct : ∀ i ∈ live, ∀ j ∈ live, d.blocks i = d.blocks j → i = j
  starts : d.ranges.Pairwise fun r r' => r.lo ≠ r'.lo
  le : ∀ r ∈ d.ranges, r.lo ≤ r.hi

/-- The payloads that are left when that at an address has been removed. -/
lemma mem_removeRange {ranges : List Range} (h : ranges.Pairwise fun r r' => r.lo ≠ r'.lo)
    (lo : ℕ) (r : Range) : r ∈ removeRange ranges lo ↔ r ∈ ranges ∧ r.lo ≠ lo := by
  induction ranges with
  | nil => simp [removeRange]
  | cons r₀ ranges ih =>
    obtain ⟨hhead, htail⟩ := List.pairwise_cons.1 h
    have ih := ih htail
    rw [removeRange] at ih ⊢
    by_cases hlo : r₀.lo = lo
    · rw [List.eraseP_cons_of_pos (by simpa using hlo)]
      constructor
      · intro hr
        exact ⟨List.mem_cons_of_mem _ hr, fun heq => hhead r hr (hlo.trans heq.symm)⟩
      · rintro ⟨hr, hne⟩
        rcases List.mem_cons.1 hr with rfl | hr
        · exact absurd hlo hne
        · exact hr
    · rw [List.eraseP_cons_of_neg (by simpa using hlo), List.mem_cons, List.mem_cons, ih]
      constructor
      · rintro (rfl | ⟨hr, hne⟩)
        · exact ⟨.inl rfl, hlo⟩
        · exact ⟨.inr hr, hne⟩
      · rintro ⟨rfl | hr, hne⟩
        · exact .inl rfl
        · exact .inr ⟨hr, hne⟩

/-- A driver that has removed the payload of a live index, whatever has become of the heap. -/
lemma Tracks.remove (h : Tracks d live) (hi : i ∈ live) (heap : σ) :
    Tracks { d with ranges := removeRange d.ranges (d.blocks i), heap := heap } (live.erase i) where
  nodup := h.nodup.erase i
  mem_iff r := by
    rw [mem_removeRange h.starts, h.mem_iff]
    constructor
    · rintro ⟨⟨j, hj, rfl⟩, hne⟩
      refine ⟨j, (h.nodup.mem_erase_iff).2 ⟨?_, hj⟩, rfl⟩
      rintro rfl
      exact hne rfl
    · rintro ⟨j, hj, rfl⟩
      obtain ⟨hne, hj⟩ := h.nodup.mem_erase_iff.1 hj
      exact ⟨⟨j, hj, rfl⟩, fun heq => hne (h.distinct j hj i hi heq)⟩
  distinct j hj k hk := h.distinct j (List.mem_of_mem_erase hj) k (List.mem_of_mem_erase hk)
  starts := h.starts.sublist List.eraseP_sublist
  le r hr := h.le r (List.mem_of_mem_eraseP hr)

/-- A positive `int` as a `size_t`. -/
lemma sizeT_eq (hpos : 0 ≤ size) (hlt : size < 2 ^ 31) : sizeT size = size.toNat := by
  unfold sizeT
  omega

/-- The payload of another index is not changed. -/
lemma Driver.payload_remember_of_ne (hji : j ≠ i) :
    (d.remember i p size).payload j = d.payload j := by
  simp only [Driver.payload, Driver.remember, Function.update_of_ne hji]

/-- A driver that has added the payload of an index that is not live. -/
lemma Tracks.add (h : Tracks d live) (hi : i ∉ live) (hlt : size < 2 ^ 31) {heapLo heapHi : ℕ}
    (hcert : Certified heapLo heapHi d.ranges p size.toNat) (heap : σ) :
    Tracks (({ d with heap := heap, ranges := payload p size.toNat :: d.ranges } :
      Driver σ).remember i p size) (i :: live) := by
  have hpos := hcert.pos
  have hne : ∀ r ∈ d.ranges, p ≠ r.lo := by
    intro r hr heq
    have hcomp := hcert.compatible r hr
    have hle := h.le r hr
    simp only [Compatible, payload] at hcomp
    omega
  set d₁ : Driver σ := { d with heap := heap, ranges := payload p size.toNat :: d.ranges } with hd₁
  have hnew : (d₁.remember i p size).payload i = payload p size.toNat := by
    simp only [Driver.payload, Driver.remember, Function.update_self]
    rw [sizeT_eq (by omega) hlt]
  have hnotlive (j : ℤ) (hj : j ∈ live) : j ≠ i := fun heq => hi (heq ▸ hj)
  have hold (j : ℤ) (hj : j ∈ live) : (d₁.remember i p size).payload j = d.payload j :=
    Driver.payload_remember_of_ne (hnotlive j hj)
  have hblock (j : ℤ) (hj : j ∈ live) : (d₁.remember i p size).blocks j = d.blocks j :=
    Function.update_of_ne (hnotlive j hj) _ _
  have hself : (d₁.remember i p size).blocks i = p := Function.update_self _ _ _
  have hapart (j : ℤ) (hj : j ∈ live) : p ≠ d.blocks j :=
    hne (d.payload j) ((h.mem_iff _).2 ⟨j, hj, rfl⟩)
  refine ⟨List.nodup_cons.2 ⟨hi, h.nodup⟩, fun r => ?_, fun j hj k hk heq => ?_,
    List.pairwise_cons.2 ⟨hne, h.starts⟩, fun r hr => ?_⟩
  · refine List.mem_cons.trans ⟨?_, ?_⟩
    · rintro (rfl | hr)
      · exact ⟨i, List.mem_cons_self, hnew.symm⟩
      · obtain ⟨j, hj, rfl⟩ := (h.mem_iff r).1 hr
        exact ⟨j, List.mem_cons_of_mem _ hj, (hold j hj).symm⟩
    · rintro ⟨j, hj, rfl⟩
      rcases List.mem_cons.1 hj with rfl | hj
      · exact .inl hnew
      · exact .inr ((h.mem_iff _).2 ⟨j, hj, hold j hj⟩)
  · rcases List.mem_cons.1 hj with hji | hj' <;> rcases List.mem_cons.1 hk with hki | hk'
    · rw [hji, hki]
    · rw [hji, hself, hblock k hk'] at heq
      exact absurd heq (hapart k hk')
    · rw [hki, hself, hblock j hj'] at heq
      exact absurd heq.symm (hapart j hj')
    · rw [hblock j hj', hblock k hk'] at heq
      exact h.distinct j hj' k hk' heq
  · rcases List.mem_cons.1 hr with rfl | hr
    · simp only [payload]
      omega
    · exact h.le r hr

/-- The order of the live indices does not matter. -/
lemma Tracks.perm {live' : List ℤ} (h : Tracks d live) (hp : live.Perm live') :
    Tracks d live' where
  nodup := hp.nodup_iff.1 h.nodup
  mem_iff r := by simp only [h.mem_iff, hp.mem_iff]
  distinct i hi j hj := h.distinct i (hp.mem_iff.2 hi) j (hp.mem_iff.2 hj)
  starts := h.starts
  le := h.le

/-! ## Requests -/

/-- What has been certified of a request that passed: of `mm_malloc` and `mm_realloc` the payload
that was returned, and of `mm_realloc` that the payload has the byte with which the driver filled
the old one, which is below 128. -/
def Passed (pkg : Package σ) (d : Driver σ) (op : TraceOp) : Prop :=
  match op.type with
  | .alloc => ∃ p h, pkg.malloc d.heap op.size.toNat = some (p, h) ∧ p ≠ 0 ∧
      Certified (pkg.heapLo h) (pkg.heapHi h) d.ranges p op.size.toNat
  | .realloc => ∃ p h, pkg.realloc d.heap (d.blocks op.index) op.size.toNat = some (p, h) ∧ p ≠ 0 ∧
      Certified (pkg.heapLo h) (pkg.heapHi h) (removeRange d.ranges (d.blocks op.index)) p
        op.size.toNat ∧
      ∀ k, k < op.size.toNat → (k : ℤ) < toInt32 (d.blockSizes op.index) →
        pkg.mem h (p + k) = BitVec.ofInt 8 op.index ∧ op.index % 256 < 128
  | .free => True

/-- A byte that is compared, as a `char`, with the byte of an index. -/
lemma byte_toInt_eq_iff {b : Byte} {index : ℤ} : b.toInt = index % 256 ↔
    b = BitVec.ofInt 8 index ∧ index % 256 < 128 := by
  have hb := b.isLt
  rw [← BitVec.toNat_inj, BitVec.toNat_ofInt, BitVec.toInt_eq_toNat_cond]
  split_ifs <;> omega

/-- The loop that compares bytes. -/
lemma preserved_iff {mem : Memory} {p : ℕ} {index n : ℤ} : preserved mem p index n = true ↔
    ∀ k < n.toNat, (mem (p + k)).toInt = index % 256 := by
  simp [preserved]

/-- The `switch` of `eval_mm_valid` certifies a request that passes, and keeps the invariant. -/
theorem Tracks.validStep {op : TraceOp} {n : ℕ} (h : Tracks d live) (hok : op.Ok live)
    (hstep : pkg.validStep n op d = .ok d') : Passed pkg d op ∧ Tracks d' (op.after live) := by
  obtain ⟨type, index, size, hindex, hint⟩ := op
  cases type with
  | alloc =>
    rw [Package.validStep] at hstep
    dsimp only at hstep
    cases hm : pkg.malloc d.heap (sizeT size) with
    | none =>
      rw [hm] at hstep
      cases hstep
    | some r =>
      obtain ⟨p, h₁⟩ := r
      rw [hm] at hstep
      dsimp only at hstep
      split_ifs at hstep with hp
      cases hadd : addRange (pkg.heapLo h₁) (pkg.heapHi h₁) d.ranges p size n with
      | error e =>
        rw [hadd] at hstep
        cases hstep
      | ok ranges =>
        rw [hadd] at hstep
        obtain ⟨hcert, rfl⟩ := addRange_eq_ok_iff.1 hadd
        cases hstep
        have hpos := hcert.pos
        rw [sizeT_eq (by omega) hint.2] at hm
        exact ⟨⟨p, h₁, hm, hp, hcert⟩, h.add hok hint.2 hcert _⟩
  | realloc =>
    rw [Package.validStep] at hstep
    dsimp only at hstep
    cases hm : pkg.realloc d.heap (d.blocks index) (sizeT size) with
    | none =>
      rw [hm] at hstep
      cases hstep
    | some r =>
      obtain ⟨p, h₁⟩ := r
      rw [hm] at hstep
      dsimp only at hstep
      by_cases hp : p = 0
      · rw [if_pos hp] at hstep
        cases hstep
      rw [if_neg hp] at hstep
      cases hadd : addRange (pkg.heapLo h₁) (pkg.heapHi h₁)
          (removeRange d.ranges (d.blocks index)) p size n with
      | error e =>
        rw [hadd] at hstep
        cases hstep
      | ok ranges =>
        rw [hadd] at hstep
        dsimp only at hstep
        split_ifs at hstep with hpres
        obtain ⟨hcert, rfl⟩ := addRange_eq_ok_iff.1 hadd
        cases hstep
        have hpos := hcert.pos
        rw [sizeT_eq (by omega) hint.2] at hm
        refine ⟨⟨p, h₁, hm, hp, hcert, fun k hk hk' => ?_⟩, ?_⟩
        · dsimp only at hk hk'
          exact byte_toInt_eq_iff.1 (preserved_iff.1 hpres k (by omega))
        · have hadded := (h.remove hok d.heap).add h.nodup.not_mem_erase hint.2 hcert
            (pkg.fill h₁ p index size)
          exact hadded.perm (List.perm_cons_erase hok).symm
  | free =>
    cases hstep
    exact ⟨trivial, h.remove hok _⟩

/-! ## Traces that pass -/

/-- Requests that pass, one part after the other. -/
lemma validOps_append (ops ops' : List TraceOp) : ∀ (i : ℕ) (d : Driver σ),
    pkg.validOps i (ops ++ ops') d = .ok d' ↔ ∃ d₁, pkg.validOps i ops d = .ok d₁ ∧
      pkg.validOps (i + ops.length) ops' d₁ = .ok d' := by
  induction ops with
  | nil => simp [Package.validOps]
  | cons op ops ih =>
    intro i d
    simp only [List.cons_append, Package.validOps]
    cases pkg.validStep i op d with
    | error e => simp
    | ok d => simp [ih, Nat.add_assoc, Nat.add_comm 1]

/-- The invariant along requests that pass. -/
lemma Tracks.validOps {ops : List TraceOp} : ∀ {i : ℕ} {live : List ℤ} {d : Driver σ},
    Tracks d live → TraceOk live ops → pkg.validOps i ops d = .ok d' →
    Tracks d' (liveAfter live ops) := by
  induction ops with
  | nil =>
    intro i live d h _ hrun
    cases hrun
    exact h
  | cons op ops ih =>
    intro i live d h hok hrun
    rw [Package.validOps] at hrun
    cases hstep : pkg.validStep i op d with
    | error e =>
      rw [hstep] at hrun
      cases hrun
    | ok d₁ =>
      rw [hstep] at hrun
      exact ih (h.validStep hok.1 hstep).2 hok.2 hrun

/-- A part of a trace, and the request behind it. -/
lemma TraceOk.split {ops ops' : List TraceOp} {op : TraceOp} : ∀ {live : List ℤ},
    TraceOk live (ops ++ op :: ops') → TraceOk live ops ∧ op.Ok (liveAfter live ops) := by
  induction ops with
  | nil => exact fun h => ⟨trivial, h.1⟩
  | cons op₀ ops ih =>
    intro live h
    obtain ⟨h₁, h₂⟩ := ih h.2
    exact ⟨⟨h.1, h₁⟩, h₂⟩

/-- **What `eval_mm_valid` certifies.** If it returns 1 for a package, of which nothing else is
known, then at every request of the trace the range list had exactly the payloads of the live
indices, and what the package returned was not `NULL`, aligned, inside the heap, and with each
payload in use either disjoint from it or enclosing it; and a payload that had been resized had
its old bytes. -/
theorem evalMmValid_certifies (ops ops' : List TraceOp) (op : TraceOp)
    (hops : TraceOk [] (ops ++ op :: ops')) (h : evalMmValid pkg (ops ++ op :: ops') d = .ok d') :
    ∃ d₁, evalMmValid pkg ops d = .ok d₁ ∧
      (∀ r, r ∈ d₁.ranges ↔ ∃ i ∈ liveAfter [] ops, r = d₁.payload i) ∧ Passed pkg d₁ op := by
  obtain ⟨hok, hop⟩ := hops.split
  unfold evalMmValid at h ⊢
  cases hinit : pkg.init (pkg.resetBrk d.heap) with
  | none =>
    rw [hinit] at h
    cases h
  | some h₀ =>
    rw [hinit] at h
    obtain ⟨d₁, hrun, hrest⟩ := (validOps_append ops (op :: ops') 0 _).1 h
    have hstart : Tracks { d with heap := h₀, ranges := [] } [] :=
      ⟨List.nodup_nil, by simp, by simp, List.Pairwise.nil, by simp⟩
    have htracks := hstart.validOps hok hrun
    refine ⟨d₁, hrun, htracks.mem_iff, ?_⟩
    rw [Package.validOps] at hrest
    cases hstep : pkg.validStep (0 + ops.length) op d₁ with
    | error e =>
      rw [hstep] at hrest
      cases hrest
    | ok d₂ => exact (htracks.validStep hop hstep).1

end Tracks

/-- The driver before an evaluation of `mm.c`. -/
def startDriver : Driver Heap := ⟨startHeap, [], fun _ => 0, fun _ => 0⟩

/-- Two allocations, and a request that has to move the first payload. -/
def moveTrace : List TraceOp :=
  [.ofUnsigned .alloc 0 24, .ofUnsigned .alloc 1 24, .ofUnsigned .realloc 0 200]

set_option maxRecDepth 20000 in
/-- The trace passes on `mm.c`. Before the last request the list has the two payloads that were
allocated. -/
theorem evalMmValid_certifies_move : ∃ d₁ : Driver Heap,
    evalMmValid mmPackage [.ofUnsigned .alloc 0 24, .ofUnsigned .alloc 1 24] startDriver = .ok d₁ ∧
      (∀ r, r ∈ d₁.ranges ↔ r = d₁.payload 1 ∨ r = d₁.payload 0) ∧
      Passed mmPackage d₁ (.ofUnsigned .realloc 0 200) := by
  have hrun : (evalMmValid mmPackage moveTrace startDriver).toOption.isSome = true := by
    decide +kernel
  cases h : evalMmValid mmPackage moveTrace startDriver with
  | error e =>
    rw [h] at hrun
    cases hrun
  | ok d =>
    have hok : TraceOk [] moveTrace := by
      simp [moveTrace, TraceOk, TraceOp.Ok, TraceOp.ofUnsigned, TraceOp.after, toInt32]
    obtain ⟨d₁, hd₁, hranges, hpassed⟩ := evalMmValid_certifies
      [.ofUnsigned .alloc 0 24, .ofUnsigned .alloc 1 24] [] _ hok h
    have hlive : liveAfter [] [.ofUnsigned .alloc 0 24, .ofUnsigned .alloc 1 24] = [1, 0] := by
      decide
    refine ⟨d₁, hd₁, fun r => ?_, hpassed⟩
    rw [hranges, hlive]
    simp

end Malloc
