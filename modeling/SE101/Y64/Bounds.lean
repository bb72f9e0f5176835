import SE101.Y64.Refinement
import SE101.Y64.Run

set_option relaxedAutoImplicit false
set_option autoImplicit false

/-!
# Memory accesses stay inside of memory

The byte accesses use an index only if it is in memory. The test `addr + 8 > m->len` of the
eight-byte accesses overflows for the eight largest addresses, which then pass it.

## Main definitions

* `Y64.byteIndices`, `Y64.longIndices` — the indices of `m->data` that the accesses use.
* `Y64.Guarded` — all accesses at an address stay inside of memory.
* `Y64.nextiIndices` — the indices that `nexti` uses.

## Main results

* `Y64.getLongVal_congr`, `Y64.setLongVal_data` — no other index matters.
* `Y64.guarded_iff` — the accesses at an address stay inside of memory exactly if the address is
  none of the eight largest, and so do runs without such an address.
* `Y64.not_guarded` — a program that reads outside of memory.
-/

namespace Y64

open LittleEndian

/-- The index lies in `[0, len)`. -/
def InRange (m : MemT) (x : Long) : Prop := 0 ≤ x.toInt ∧ x.toInt < m.len

instance (m : MemT) (x : Long) : Decidable (InRange m x) := inferInstanceAs (Decidable (_ ∧ _))

/-- The indices of `m->data` that `get_byte_val` and `set_byte_val` use. -/
def byteIndices (m : MemT) (addr : Long) : List Long :=
  if addr.toInt < 0 ∨ addr.toInt ≥ m.len then [] else [addr]

/-- The indices of `m->data` that `get_long_val` and `set_long_val` use. -/
def longIndices (m : MemT) (addr : Long) : List Long :=
  if addr.toInt < 0 ∨ (addr + 8).toInt > m.len then []
  else (List.range 8).map fun i => addr + BitVec.ofNat 64 i

/-- Accesses at the address `addr` use only indices in memory and return `FALSE` if it is not
there. -/
structure Guarded (m : MemT) (addr : Long) : Prop where
  byte : ∀ x ∈ byteIndices m addr, InRange m x
  long : ∀ x ∈ longIndices m addr, InRange m x
  getByteVal : ¬ InRange m addr → getByteVal m addr = none
  setByteVal : ¬ InRange m addr → ∀ val, setByteVal m addr val = none
  getLongVal : (∃ i < 8, ¬ InRange m (addr + BitVec.ofNat 64 i)) → getLongVal m addr = none
  setLongVal : (∃ i < 8, ¬ InRange m (addr + BitVec.ofNat 64 i)) →
    ∀ val, setLongVal m addr val = none

/-- The indices that `nexti` uses to fetch an instruction. -/
def fetchIndices (sim : Y64Sim) : List Long :=
  byteIndices sim.m sim.pc ++
  match getByteVal sim.m sim.pc with
  | none => []
  | some codefun =>
    let icode := IType.ofCode (high codefun)
    (if icode.any IType.hasRegs then byteIndices sim.m (sim.pc + 1) else []) ++
    match fetchRegs sim.m icode (sim.pc + 1) with
    | none => []
    | some (_, _, nextPc) => if icode.any IType.hasImm then longIndices sim.m nextPc else []

/-- The address of the data access of an instruction. -/
def dataAddress (sim : Y64Sim) (f : Fetched) : Option Long :=
  match f.icode with
  | some .rmmovq | some .mrmovq => some (getRegVal sim.r f.regb + f.imm)
  | some .call | some .pushq => some (getRegVal sim.r (some .rsp) - 8)
  | some .ret | some .popq => some (getRegVal sim.r (some .rsp))
  | _ => none

/-- The indices that `nexti` uses. -/
def nextiIndices (sim : Y64Sim) : List Long :=
  fetchIndices sim ++ ((fetch sim).bind (dataAddress sim)).elim [] (longIndices sim.m)

variable {m : MemT} {addr : Long}

/-! ## Only these indices matter -/

/-- `get_byte_val` depends on no other byte. -/
lemma getByteVal_congr {m' : MemT} (hlen : m'.len = m.len)
    (h : ∀ x ∈ byteIndices m addr, m'.data x.toNat = m.data x.toNat) :
    getByteVal m' addr = getByteVal m addr := by
  unfold getByteVal
  unfold byteIndices at h
  rw [hlen]
  split_ifs at h ⊢ with hc
  · rfl
  · rw [h addr List.mem_cons_self]

/-- `set_byte_val` changes no other byte. -/
lemma setByteVal_data {m' : MemT} {val : Byte} (h : setByteVal m addr val = some m') {x : ℕ}
    (hx : ∀ y ∈ byteIndices m addr, x ≠ y.toNat) : m'.data x = m.data x := by
  unfold setByteVal at h
  unfold byteIndices at hx
  split_ifs at h hx with hc
  cases h
  exact Function.update_of_ne (hx addr List.mem_cons_self) _ _

/-- `get_long_val` depends on no other byte. -/
lemma getLongVal_congr {m' : MemT} (hlen : m'.len = m.len)
    (h : ∀ x ∈ longIndices m addr, m'.data x.toNat = m.data x.toNat) :
    getLongVal m' addr = getLongVal m addr := by
  unfold getLongVal
  unfold longIndices at h
  rw [hlen]
  split_ifs at h ⊢ with hc
  · rfl
  · have hloop : ∀ i ≤ 8, getLongLoop m' addr i = getLongLoop m addr i := by
      intro i
      induction i with
      | zero => exact fun _ => rfl
      | succ i ih =>
        intro hi
        have hbyte := h (addr + BitVec.ofNat 64 i) (List.mem_map.2 ⟨i, List.mem_range.2 hi, rfl⟩)
        rw [getLongLoop, getLongLoop, ih (by omega), hbyte]
    rw [hloop 8 le_rfl]

/-- `set_long_val` changes no other byte. -/
lemma setLongVal_data {m' : MemT} {val : Long} (h : setLongVal m addr val = some m') {x : ℕ}
    (hx : ∀ y ∈ longIndices m addr, x ≠ y.toNat) : m'.data x = m.data x := by
  unfold setLongVal at h
  unfold longIndices at hx
  split_ifs at h hx with hc
  cases h
  have hloop : ∀ i ≤ 8, (setLongLoop m addr val i).1 x = m.data x := by
    intro i
    induction i with
    | zero => exact fun _ => rfl
    | succ i ih =>
      intro hi
      have hne := hx (addr + BitVec.ofNat 64 i) (List.mem_map.2 ⟨i, List.mem_range.2 hi, rfl⟩)
      rw [setLongLoop]
      exact (Function.update_of_ne hne _ _).trans (ih (by omega))
  exact hloop 8 le_rfl

/-! ## One address -/

/-- An index in memory is a small number. -/
lemma inRange_iff : InRange m addr ↔ addr.toNat < m.len := by
  rw [InRange, ← not_iff_not, ← byte_check_iff m addr, not_and_or, not_le, not_lt]

/-- The accesses of one byte use indices in memory. -/
lemma byteIndices_inRange : ∀ x ∈ byteIndices m addr, InRange m x := by
  intro x hx
  unfold byteIndices at hx
  split_ifs at hx with hc
  · cases hx
  · rw [List.mem_singleton.1 hx, inRange_iff]
    rw [byte_check_iff, not_not] at hc
    exact hc

/-- The accesses of eight bytes use indices in memory if the test does not overflow. -/
lemma longIndices_inRange (h : NoWrap addr) : ∀ x ∈ longIndices m addr, InRange m x := by
  have hlen := m.len_lt
  intro x hx
  unfold longIndices at hx
  split_ifs at hx with hc
  · cases hx
  · obtain ⟨i, hi, rfl⟩ := List.mem_map.1 hx
    rw [long_check_iff m h, not_not] at hc
    have hi' := List.mem_range.1 hi
    rw [inRange_iff, toNat_add_ofNat (k := 8) (by omega) hi']
    omega

/-- If the test overflows, it lets the address pass. -/
lemma mem_longIndices_of_wraps (h : ¬ NoWrap addr) :
    addr ∈ longIndices m addr ∧ ¬ InRange m addr := by
  have hlen := m.len_lt
  have hlt := addr.isLt
  have hadd : (addr + 8).toNat = (addr.toNat + 8) % 2 ^ 64 := by
    rw [BitVec.toNat_add]
    rfl
  have hbig : 2 ^ 63 - 9 < addr.toNat ∧ addr.toNat < 2 ^ 63 := by
    rw [NoWrap, not_not, BitVec.toInt_eq_toNat_cond] at h
    split_ifs at h <;> omega
  refine ⟨?_, fun hin => by have := inRange_iff.1 hin; omega⟩
  have hpass : ¬ (addr.toInt < 0 ∨ (addr + 8).toInt > m.len) := by
    rw [BitVec.toInt_eq_toNat_cond, BitVec.toInt_eq_toNat_cond, hadd]
    split_ifs <;> omega
  rw [longIndices, if_neg hpass]
  exact List.mem_map.2 ⟨0, by simp, by simp⟩

/-- An access of eight bytes in memory uses indices in memory. -/
lemma inRange_of_le (h : addr.toNat + 8 ≤ m.len) {i : ℕ} (hi : i < 8) :
    InRange m (addr + BitVec.ofNat 64 i) := by
  have hlen := m.len_lt
  rw [inRange_iff, toNat_add_ofNat (k := 8) (by omega) hi]
  omega

/-- The accesses at an address stay inside of memory unless the test overflows. -/
lemma guarded_iff_noWrap : Guarded m addr ↔ NoWrap addr := by
  constructor
  · intro hg
    by_contra h
    obtain ⟨hmem, hnot⟩ := mem_longIndices_of_wraps (m := m) h
    exact hnot (hg.long addr hmem)
  · intro h
    have hlong : (∃ i < 8, ¬ InRange m (addr + BitVec.ofNat 64 i)) →
        ¬ addr.toNat + 8 ≤ m.len := by
      rintro ⟨i, hi, hnot⟩ hle
      exact hnot (inRange_of_le hle hi)
    refine ⟨byteIndices_inRange, longIndices_inRange h, fun hnot => ?_, fun hnot val => ?_,
      fun hnot => ?_, fun hnot val => ?_⟩
    · rw [inRange_iff] at hnot
      rw [getByteVal_eq, if_neg hnot]
    · rw [inRange_iff] at hnot
      rw [setByteVal, if_pos ((byte_check_iff m addr).2 hnot)]
    · rw [getLongVal_eq m h, if_neg (hlong hnot)]
    · rw [setLongVal_eq m val h, if_neg (hlong hnot)]

/-! ## One step -/

variable (sim : Y64Sim)

/-- Fetching an instruction uses indices in memory. -/
lemma fetchIndices_inRange : ∀ x ∈ fetchIndices sim, InRange sim.m x := by
  intro x hx
  unfold fetchIndices at hx
  obtain hx | hx := List.mem_append.1 hx
  · exact byteIndices_inRange x hx
  · cases hb : getByteVal sim.m sim.pc with
    | none =>
      rw [hb] at hx
      cases hx
    | some codefun =>
      rw [hb] at hx
      dsimp only at hx
      generalize IType.ofCode (high codefun) = t at hx
      obtain hx | hx := List.mem_append.1 hx
      · split_ifs at hx
        · exact byteIndices_inRange x hx
        · cases hx
      · -- The immediate follows one or two bytes behind `pc`.
        have hn1 : NoWrap (sim.pc + 1) := noWrap_add_of_getByteVal sim hb (k := 1) (by decide)
        have hn2 : NoWrap (sim.pc + 1 + 1) := by
          rw [BitVec.add_assoc]
          exact noWrap_add_of_getByteVal sim hb (k := 2) le_rfl
        have hnext : ∀ rega regb nextPc,
            fetchRegs sim.m t (sim.pc + 1) = some (rega, regb, nextPc) → NoWrap nextPc := by
          intro rega regb nextPc hr
          unfold fetchRegs at hr
          split_ifs at hr
          · obtain ⟨nextb, -, heq⟩ := Option.map_eq_some_iff.1 hr
            cases heq
            exact hn2
          · cases hr
            exact hn1
        split at hx
        · cases hx
        · next rega regb nextPc hr =>
          split_ifs at hx
          · exact longIndices_inRange (hnext _ _ _ hr) x hx
          · cases hx

/-- **Accesses in memory.** The accesses at an address stay inside of memory if and only if the
address is none of the eight largest. A step stays inside of memory if and only if the address of
its data access, if it has one, is none of the eight largest. -/
theorem guarded_iff : (∀ addr, Guarded sim.m addr ↔ NoWrap addr) ∧
    ((∀ x ∈ nextiIndices sim, InRange sim.m x) ↔
      ∀ addr, (fetch sim).bind (dataAddress sim) = some addr → NoWrap addr) := by
  refine ⟨fun addr => guarded_iff_noWrap, ?_⟩
  unfold nextiIndices
  cases (fetch sim).bind (dataAddress sim) with
  | none =>
    refine iff_of_true (fun x hx => ?_) (by simp)
    exact fetchIndices_inRange sim x (by simpa using hx)
  | some addr =>
    constructor
    · rintro h _ ⟨rfl⟩
      by_contra hn
      obtain ⟨hmem, hnot⟩ := mem_longIndices_of_wraps (m := sim.m) hn
      exact hnot (h addr (List.mem_append_right _ hmem))
    · intro h x hx
      obtain hx | hx := List.mem_append.1 hx
      · exact fetchIndices_inRange sim x hx
      · exact longIndices_inRange (h addr rfl) x hx

/-- The program `irmovq $0x7ffffffffffffff8, %rax; mrmovq (%rax), %rbx`. -/
def readFile : List Byte :=
  [0x30, 0xF0, 0xF8, 0xFF, 0xFF, 0xFF, 0xFF, 0xFF, 0xFF, 0x7F, 0x50, 0x30, 0, 0, 0, 0, 0, 0, 0, 0]

/-- A machine with that program. -/
def readSim : Y64Sim :=
  let sim := newY64sim MEM_SIZE roundBlk_MEM_SIZE
  { sim with m := (loadBinfile sim.m readFile).getD sim.m }

/-- The second instruction of that program reads outside of memory. -/
theorem not_guarded : ∃ sim addr, Reachable sim ∧ (fetch sim).bind (dataAddress sim) = some addr ∧
    addr ∈ nextiIndices sim ∧ ¬ InRange sim.m addr ∧ (nexti sim).1 = .aok := by
  have hstep : nexti readSim = (.aok, (nexti readSim).2) := by
    have hstat : (nexti readSim).1 = .aok := by decide +kernel
    exact Prod.ext hstat rfl
  refine ⟨(nexti readSim).2, 0x7ffffffffffffff8,
    (Reachability.Reachable.of_init ⟨readFile, _, rfl, rfl⟩).tail hstep, ?_⟩
  decide +kernel

end Y64
