import SE101.Y64.Refinement
import SE101.Y64.Run

set_option relaxedAutoImplicit false
set_option autoImplicit false

/-!
# Precise faults

An instruction that does not complete should leave the machine as it was. `call` and `pushq` write
the stack pointer before they test the stack address; all other instructions test first.

## Main definitions

* `Y64.Precise` — the next instruction completes or leaves the machine as it was.
* `Y64.StackFault` — a `call` or a `pushq` whose stack address is out of range.

## Main results

* `Y64.precise_iff` — faults are precise except for stack faults of `call` and `pushq`.
* `Y64.not_precise` — the first instruction of a program, which is not precise.
-/

namespace Y64

/-- If `nexti` returns `HLT`, `ADR` or `INS`, then nothing has changed. -/
def Precise (sim : Y64Sim) : Prop := (nexti sim).1 ≠ .aok → (nexti sim).2 = sim

/-- The bytes of a `call` or of a `pushq` are in memory at `pc`. -/
def Pushes (sim : Y64Sim) : Prop :=
  sim.pc.toNat + 9 ≤ sim.m.len ∧ high (sim.m.data sim.pc.toNat) = IType.call.code ∨
  sim.pc.toNat + 2 ≤ sim.m.len ∧ high (sim.m.data sim.pc.toNat) = IType.pushq.code

/-- The instruction at `pc` is a `call` or a `pushq`, and the eight bytes below the stack pointer
are not in memory. -/
def StackFault (sim : Y64Sim) : Prop := Pushes sim ∧
  ((getRegVal sim.r (some .rsp) - 8).toInt < 0 ∨ (getRegVal sim.r (some .rsp)).toInt > sim.m.len)

variable (sim : Y64Sim)

/-! ## The bytes that are fetched -/

/-- How many bytes `nexti` fetches of an instruction. -/
def fetchSize (t : Option IType) : ℕ :=
  1 + (if t.any IType.hasRegs then 1 else 0) + if t.any IType.hasImm then 8 else 0

/-- Fetching stays inside of memory. -/
lemma fetch_isSome_iff : (∃ f, fetch sim = some f) ↔
    sim.pc.toNat + fetchSize (IType.ofCode (high (sim.m.data sim.pc.toNat))) ≤ sim.m.len := by
  have hlen := sim.m.len_lt
  by_cases hpc : sim.pc.toNat < sim.m.len
  · have hb : getByteVal sim.m sim.pc = some (sim.m.data sim.pc.toNat) := by
      rw [getByteVal_eq, if_pos hpc]
    have h1 : (sim.pc + 1).toNat = sim.pc.toNat + 1 :=
      toNat_add_ofNat (i := 1) (k := 2) (by omega) (by decide)
    have h2 : (sim.pc + 1 + 1).toNat = sim.pc.toNat + 2 := by
      rw [BitVec.add_assoc]
      exact toNat_add_ofNat (i := 2) (k := 3) (by omega) (by decide)
    have hn1 : NoWrap (sim.pc + 1) := noWrap_of_toNat_lt (by omega)
    have hn2 : NoWrap (sim.pc + 1 + 1) := noWrap_of_toNat_lt (by omega)
    simp only [fetch, hb, Option.bind_eq_bind, Option.bind_some, fetchSize]
    generalize IType.ofCode (high (sim.m.data sim.pc.toNat)) = t
    simp only [fetchRegs, fetchImm]
    cases t.any IType.hasRegs with
    | false =>
      cases t.any IType.hasImm with
      | false => exact iff_of_true ⟨_, rfl⟩ (Nat.succ_le_of_lt hpc)
      | true =>
        simp only [Bool.false_eq_true, if_false, if_true, Option.bind_some, getLongVal_eq _ hn1, h1]
        split_ifs with h <;> simp <;> omega
    | true =>
      simp only [if_true, getByteVal_eq, h1]
      by_cases hr : sim.pc.toNat + 1 < sim.m.len
      · rw [if_pos hr]
        cases t.any IType.hasImm with
        | false => exact iff_of_true ⟨_, rfl⟩ (Nat.succ_le_of_lt hr)
        | true =>
          simp only [Option.map_some, Option.bind_some, if_true, getLongVal_eq _ hn2, h2]
          split_ifs with h <;> simp <;> omega
      · rw [if_neg hr]
        refine iff_of_false (by simp) ?_
        omega
  · refine iff_of_false ?_ (by unfold fetchSize; omega)
    rintro ⟨f, hf⟩
    rw [fetch, getByteVal_eq, if_neg hpc] at hf
    cases hf

/-- The type of an instruction that is fetched. -/
lemma fetch_icode {f : Fetched} (h : fetch sim = some f) :
    f.icode = IType.ofCode (high (sim.m.data sim.pc.toNat)) := by
  simp only [fetch, Option.bind_eq_bind, Option.bind_eq_some_iff] at h
  obtain ⟨codefun, hb, ⟨rega, regb, nextPc⟩, -, ⟨imm, nextPc'⟩, -, hf⟩ := h
  cases hf
  rw [getByteVal_eq, Option.ite_none_right_eq_some] at hb
  rw [Option.some.inj hb.2]

/-- Only the code of an instruction type is read as that type. -/
lemma IType.code_of_ofCode {n : ℕ} {t : IType} (h : IType.ofCode n = some t) : n = t.code := by
  unfold IType.ofCode at h
  split at h <;> cases h <;> rfl

/-- When a `call` or a `pushq` is fetched. -/
lemma pushes_iff : Pushes sim ↔
    ∃ f, fetch sim = some f ∧ (f.icode = some .call ∨ f.icode = some .pushq) := by
  have key (t : IType) : sim.pc.toNat + fetchSize (some t) ≤ sim.m.len ∧
      high (sim.m.data sim.pc.toNat) = t.code ↔ ∃ f, fetch sim = some f ∧ f.icode = some t := by
    constructor
    · rintro ⟨hsize, ht⟩
      obtain ⟨f, hf⟩ := (fetch_isSome_iff sim).2 (by rw [ht, IType.ofCode_code]; exact hsize)
      exact ⟨f, hf, by rw [fetch_icode sim hf, ht, IType.ofCode_code]⟩
    · rintro ⟨f, hf, ht⟩
      rw [fetch_icode sim hf] at ht
      have hsize := (fetch_isSome_iff sim).1 ⟨f, hf⟩
      rw [ht] at hsize
      exact ⟨hsize, IType.code_of_ofCode ht⟩
  rw [Pushes, show 9 = fetchSize (some .call) from rfl, show 2 = fetchSize (some .pushq) from rfl,
    key, key, ← exists_or]
  simp only [and_or_left]

/-! ## Execution -/

/-- An instruction that writes no register before its last test leaves the machine alone. -/
lemma execute_precise {f : Fetched} (hcall : f.icode ≠ some .call) (hpush : f.icode ≠ some .pushq)
    (h : (execute sim f).1 ≠ .aok) : (execute sim f).2 = sim := by
  obtain ⟨icode, ifun, rega, regb, imm, nextPc⟩ := f
  cases icode with
  | none => rfl
  | some t =>
    cases t with
    | halt | directive => rfl
    | nop | irmovq => exact absurd rfl h
    | call => exact absurd rfl hcall
    | pushq => exact absurd rfl hpush
    | rrmovq | rmmovq | mrmovq | alu | jmp | ret | popq =>
      dsimp only [execute] at h ⊢
      split at h
      · rfl
      · exact absurd rfl h

/-- The test of `set_long_val` fails at the eight bytes below the stack pointer. -/
lemma setLongVal_below {v val : Long} : setLongVal sim.m (v - 8) val = none ↔
    (v - 8).toInt < 0 ∨ v.toInt > sim.m.len := by
  rw [setLongVal, BitVec.sub_add_cancel]
  split_ifs with h
  · exact iff_of_true rfl h
  · exact iff_of_false (by simp) h

/-- The stack pointer is moved whether or not the stack address is in memory. -/
lemma setReg_rsp_ne : sim.setReg (some .rsp) (getRegVal sim.r (some .rsp) - 8) ≠ sim := by
  intro h
  have hrsp := getRegVal_setRegVal sim.r_len .rsp .rsp (getRegVal sim.r (some .rsp) - 8)
  rw [if_pos rfl, ← Y64Sim.setReg_r, h] at hrsp
  have hnat := congrArg BitVec.toNat hrsp
  rw [BitVec.toNat_sub] at hnat
  have hlt := (getRegVal sim.r (some .rsp)).isLt
  have h8 : (8 : Long).toNat = 8 := rfl
  omega

/-- What a `call` or a `pushq` does: the stack pointer is moved even if the write fails. -/
lemma execute_push_cases {f : Fetched} (ht : f.icode = some .call ∨ f.icode = some .pushq) :
    ∃ val, setLongVal sim.m (getRegVal sim.r (some .rsp) - 8) val = none ∧
        execute sim f = (.adr, sim.setReg (some .rsp) (getRegVal sim.r (some .rsp) - 8)) ∨
      setLongVal sim.m (getRegVal sim.r (some .rsp) - 8) val ≠ none ∧
        (execute sim f).1 = .aok := by
  obtain ⟨icode, ifun, rega, regb, imm, nextPc⟩ := f
  obtain rfl | rfl : icode = some .call ∨ icode = some .pushq := ht
  · refine ⟨nextPc, ?_⟩
    simp only [execute, computeAlu_add_neg, Y64Sim.setReg_m]
    cases setLongVal sim.m (getRegVal sim.r (some .rsp) - 8) nextPc with
    | none => exact .inl ⟨rfl, rfl⟩
    | some m => exact .inr ⟨by simp, rfl⟩
  · refine ⟨getRegVal sim.r rega, ?_⟩
    simp only [execute, computeAlu_add_neg, Y64Sim.setReg_m]
    cases setLongVal sim.m (getRegVal sim.r (some .rsp) - 8) (getRegVal sim.r rega) with
    | none => exact .inl ⟨rfl, rfl⟩
    | some m => exact .inr ⟨by simp, rfl⟩

/-- **Precise faults.** -/
theorem precise_iff : Precise sim ↔ ¬ StackFault sim := by
  unfold Precise StackFault
  rw [pushes_iff]
  cases hf : fetch sim with
  | none => simp [nexti, hf]
  | some f =>
    have hn : nexti sim = execute sim f := by rw [nexti, hf]
    rw [hn]
    by_cases ht : f.icode = some .call ∨ f.icode = some .pushq
    · obtain ⟨val, ⟨hset, he⟩ | ⟨hset, he⟩⟩ := execute_push_cases sim ht
      · rw [he]
        refine iff_of_false (fun h => setReg_rsp_ne sim (h (by simp))) ?_
        exact not_not.2 ⟨⟨f, rfl, ht⟩, (setLongVal_below sim).1 hset⟩
      · exact iff_of_true (fun h => absurd he h) fun h => hset ((setLongVal_below sim).2 h.2)
    · refine iff_of_true (execute_precise sim (fun h => ht (.inl h)) fun h => ht (.inr h)) ?_
      rintro ⟨⟨_, ⟨rfl⟩, ht'⟩, -⟩
      exact ht ht'

/-- A machine with a program that begins with `pushq %rax`. -/
def pushSim : Y64Sim :=
  let sim := newY64sim MEM_SIZE roundBlk_MEM_SIZE
  { sim with m := (loadBinfile sim.m [0xA0, 0x0F]).getD sim.m }

/-- The stack pointer is zero at first, so the instruction faults, and has moved it. -/
theorem not_precise : Loaded pushSim ∧ (nexti pushSim).1 = .adr ∧ (nexti pushSim).2 ≠ pushSim := by
  refine ⟨⟨[0xA0, 0x0F], _, rfl, rfl⟩, by decide +kernel, ?_⟩
  intro h
  have hrsp : getRegVal (nexti pushSim).2.r (some .rsp) ≠ getRegVal pushSim.r (some .rsp) := by
    decide +kernel
  exact hrsp (by rw [h])

end Y64
