import SE101.Y64.SimMemory
import SE101.Y64.Reference

set_option relaxedAutoImplicit false
set_option autoImplicit false

/-!
# The simulator refines the reference semantics

The abstraction `abs` reads a reference state off a simulator state. Fetch, and then each
instruction, of the simulator is matched with the reference stage by stage; the result is that
`nexti` takes the reference step.

## Main definitions

* `Y64.abs` — the reference state of a simulator state.
* `Y64.Ref.Instr.fetched` — what `nexti` has read when it has fetched a given instruction.
* `Y64.Ref.State.SameVisible` — equal program counter, registers and memory.

## Main results

* `Y64.fetch_abs` — the simulator fetches the instruction that the reference fetches.
* `Y64.execute_fetched` — the `switch` of `nexti` runs the reference stages.
* `Y64.nexti_refines_step` — one step, with the exact meaning of each status.
-/

namespace Y64

open LittleEndian

/-- The reference state of a simulator state. -/
def abs (sim : Y64Sim) : Ref.State where
  pc := sim.pc
  reg := fun r => getRegVal sim.r (some r)
  mem := sim.m.data
  len := sim.m.len
  zf := getZf sim.cc
  sf := getSf sim.cc
  of := getOf sim.cc

/-- Two reference states agree on program counter, registers and memory. -/
structure Ref.State.SameVisible (s t : Ref.State) : Prop where
  pc : s.pc = t.pc
  reg : s.reg = t.reg
  mem : s.mem = t.mem
  len : s.len = t.len

/-- What `nexti` has read before its `switch` when the instruction is `i`. -/
def Ref.Instr.fetched (i : Ref.Instr) (nextPc : Long) : Fetched :=
  match i with
  | .halt => ⟨some .halt, 0, none, none, 0, nextPc⟩
  | .nop => ⟨some .nop, 0, none, none, 0, nextPc⟩
  | .cmov c rA rB => ⟨some .rrmovq, c.code, some rA, some rB, 0, nextPc⟩
  | .irmovq v rB => ⟨some .irmovq, 0, none, some rB, v, nextPc⟩
  | .rmmovq rA d rB => ⟨some .rmmovq, 0, some rA, some rB, d, nextPc⟩
  | .mrmovq d rB rA => ⟨some .mrmovq, 0, some rA, some rB, d, nextPc⟩
  | .opq op rA rB => ⟨some .alu, op.code, some rA, some rB, 0, nextPc⟩
  | .jmp c dest => ⟨some .jmp, c.code, none, none, dest, nextPc⟩
  | .call dest => ⟨some .call, 0, none, none, dest, nextPc⟩
  | .ret => ⟨some .ret, 0, none, none, 0, nextPc⟩
  | .pushq rA => ⟨some .pushq, 0, some rA, none, 0, nextPc⟩
  | .popq rA => ⟨some .popq, 0, some rA, none, 0, nextPc⟩

variable (sim : Y64Sim)

/-! ## Accesses -/

/-- `get_byte_val` is `M₁`. -/
lemma read1_abs (a : Long) : (abs sim).read1 a = getByteVal sim.m a :=
  (getByteVal_eq sim.m a).symm

/-- `get_long_val` is `M₈`. -/
lemma read8_abs {a : Long} (h : NoWrap a) : (abs sim).read8 a = getLongVal sim.m a :=
  (getLongVal_eq sim.m h).symm

/-- `set_long_val` writes `M₈`. -/
lemma write8_abs {a : Long} (v : Long) (h : NoWrap a) :
    (abs sim).write8 a v = (setLongVal sim.m a v).map MemT.data := by
  rw [setLongVal_eq sim.m v h]
  by_cases hb : a.toNat + 8 ≤ sim.m.len
  · rw [if_pos hb]; exact if_pos hb
  · rw [if_neg hb]; exact if_neg hb

/-- Addresses near the start of memory are far from overflow. -/
lemma noWrap_of_toNat_lt {a : Long} (h : a.toNat < 2 ^ 62) : NoWrap a := by
  unfold NoWrap
  rw [BitVec.toInt_eq_toNat_cond]
  split_ifs <;> omega

/-- The bytes that follow a byte in memory are far from overflow. -/
lemma noWrap_add_of_getByteVal {b : Byte} {a : Long} (h : getByteVal sim.m a = some b) {k : ℕ}
    (hk : k ≤ 2) : NoWrap (a + BitVec.ofNat 64 k) := by
  have hlen := sim.m.len_lt
  rw [getByteVal_eq] at h
  have ha : a.toNat < sim.m.len := by
    by_contra hn
    rw [if_neg hn] at h
    cases h
  apply noWrap_of_toNat_lt
  rw [BitVec.toNat_add, BitVec.toNat_ofNat]
  omega

/-- A register write as a write port. -/
lemma abs_setReg_reg (r : Reg) (v : Long) :
    (abs (sim.setReg (some r) v)).reg = Ref.writeReg (abs sim).reg (some r) v := by
  funext r'
  simp only [abs, Y64Sim.setReg_r, Ref.writeReg, Function.update_apply]
  exact getRegVal_setRegVal sim.r_len r r' v

/-! ## Fetch -/

/-- The high nibble is the byte divided by 16. -/
lemma high_eq (b : Byte) : high b = b.toNat / 16 := by
  have hb := b.isLt
  have h : high b = (b.toNat >>> 4) % 2 ^ 4 := Nat.and_two_pow_sub_one_eq_mod _ 4
  rw [h, Nat.shiftRight_eq_div_pow]
  omega

/-- The low nibble is the byte modulo 16. -/
lemma low_eq (b : Byte) : low b = b.toNat % 16 := Nat.and_two_pow_sub_one_eq_mod _ 4

/-- A condition is determined by its code. -/
lemma Cond.code_of_ofCode {n : ℕ} {c : Cond} (h : Cond.ofCode n = some c) : c.code = n := by
  unfold Cond.ofCode at h
  split at h <;> cases h <;> rfl

/-- An ALU operation is determined by its code. -/
lemma Alu.code_of_ofCode {n : ℕ} {op : Alu} (h : Alu.ofCode n = some op) : op.code = n := by
  unfold Alu.ofCode at h
  split at h <;> cases h <;> rfl

/-- Decoded fields are the fields of the instruction they were decoded to. -/
lemma fetched_of_decode {icode : Option IType} {ifun : ℕ} {rA rB : RegId} {valC p : Long}
    {i : Ref.Instr} (h : Ref.decode icode ifun rA rB valC = some i)
    (hregs : Ref.needRegids icode = false → rA = none ∧ rB = none)
    (hvalC : Ref.needValC icode = false → valC = 0) :
    i.fetched p = ⟨icode, ifun, rA, rB, valC, p⟩ := by
  unfold Ref.decode at h
  split at h
  case h_3 =>
    obtain ⟨c, hc, rfl⟩ := Option.map_eq_some_iff.mp h
    obtain rfl := hvalC rfl
    rw [← Cond.code_of_ofCode hc]; rfl
  case h_7 =>
    obtain ⟨op, hop, rfl⟩ := Option.map_eq_some_iff.mp h
    obtain rfl := hvalC rfl
    rw [← Alu.code_of_ofCode hop]; rfl
  case h_8 =>
    obtain ⟨c, hc, rfl⟩ := Option.map_eq_some_iff.mp h
    obtain ⟨rfl, rfl⟩ := hregs rfl
    rw [← Cond.code_of_ofCode hc]; rfl
  all_goals
    cases h
    try (obtain ⟨rfl, rfl⟩ := hregs rfl)
    try (obtain rfl := hvalC rfl)
    try rfl

/-- Which instruction types have a register byte, in both descriptions. -/
lemma any_hasRegs (t : Option IType) : t.any IType.hasRegs = Ref.needRegids t := by
  cases t with
  | none => rfl
  | some t => cases t <;> rfl

/-- Which instruction types have a constant, in both descriptions. -/
lemma any_hasImm (t : Option IType) : t.any IType.hasImm = Ref.needValC t := by
  cases t with
  | none => rfl
  | some t => cases t <;> rfl

/-- The register byte of `nexti`. -/
lemma fetchRegs_eq (t : Option IType) (a : Long) :
    fetchRegs sim.m t a = ((abs sim).fetchRegids t a).map
      fun p => (p.1, p.2, a + if Ref.needRegids t then 1 else 0) := by
  simp only [fetchRegs, Ref.State.fetchRegids, any_hasRegs, read1_abs, high_eq, low_eq]
  cases Ref.needRegids t
  · simp
  · cases getByteVal sim.m a <;> rfl

/-- The immediate of `nexti`. -/
lemma fetchImm_eq (t : Option IType) {a : Long} (h : NoWrap a) :
    fetchImm sim.m t a = ((abs sim).fetchValC t a).map
      fun v => (v, a + if Ref.needValC t then 8 else 0) := by
  simp only [fetchImm, Ref.State.fetchValC, any_hasImm, read8_abs sim h]
  cases Ref.needValC t
  · simp
  · rfl

/-- What the reference makes of the bytes that the simulator has fetched.

**Proof sketch.** The first byte decides which other bytes are read, in the same way on both
sides. Each read is `M₁` or `M₈` because the bytes lie right behind the first one. -/
lemma fetch_abs_eq : Ref.fetch (abs sim) = (fetch sim).elim .imemError fun f =>
    (Ref.decode f.icode f.ifun f.rega f.regb f.imm).elim .invalid fun i => .ok i f.nextPc := by
  have hpc : (abs sim).pc = sim.pc := rfl
  simp only [Ref.fetch, fetch, read1_abs, hpc, high_eq, low_eq, fetchRegs_eq]
  cases hb0 : getByteVal sim.m sim.pc with
  | none => rfl
  | some b0 =>
    simp only [Option.bind_eq_bind, Option.bind_some]
    generalize IType.ofCode (b0.toNat / 16) = t
    -- the immediate follows one or two bytes behind `pc`
    have hnw : NoWrap (sim.pc + 1 + if Ref.needRegids t then 1 else 0) := by
      cases Ref.needRegids t with
      | false => simpa using noWrap_add_of_getByteVal sim hb0 (k := 1) (by decide)
      | true =>
        have := noWrap_add_of_getByteVal sim hb0 (k := 2) le_rfl
        rwa [if_pos rfl, BitVec.add_assoc, show (1 : Long) + 1 = BitVec.ofNat 64 2 from rfl]
    cases (abs sim).fetchRegids t (sim.pc + 1) with
    | none => rfl
    | some p =>
      simp only [Option.map_some, Option.bind_some, fetchImm_eq sim t hnw]
      cases (abs sim).fetchValC t (sim.pc + 1 + if Ref.needRegids t then 1 else 0) with
      | none => rfl
      | some valC =>
        simp only [Option.map_some, Option.bind_some, Option.pure_def, Option.elim_some]
        cases Ref.decode t (b0.toNat % 16) p.1 p.2 valC <;> rfl

/-- Registers and constants that an instruction does not have are not fetched. -/
lemma fetch_none {f : Fetched} (h : fetch sim = some f) :
    (Ref.needRegids f.icode = false → f.rega = none ∧ f.regb = none) ∧
    (Ref.needValC f.icode = false → f.imm = 0) := by
  simp only [fetch, Option.bind_eq_bind, Option.bind_eq_some_iff] at h
  obtain ⟨codefun, -, ⟨rega, regb, nextPc⟩, hregs, ⟨imm, nextPc'⟩, himm, hf⟩ := h
  cases hf
  constructor
  · intro hneed
    rw [fetchRegs, any_hasRegs, hneed, if_neg (by decide)] at hregs
    cases hregs
    exact ⟨rfl, rfl⟩
  · intro hneed
    rw [fetchImm, any_hasImm, hneed, if_neg (by decide)] at himm
    cases himm
    rfl

/-- **The simulator fetches what the reference fetches.** If all bytes are there and make an
instruction, then the decoded fields are those of the instruction. -/
lemma fetch_abs : match Ref.fetch (abs sim) with
    | .imemError => fetch sim = none
    | .invalid => True
    | .ok i valP => fetch sim = some (i.fetched valP) := by
  rw [fetch_abs_eq]
  cases hf : fetch sim with
  | none => rfl
  | some f =>
    obtain ⟨hregs, himm⟩ := fetch_none sim hf
    cases hdec : Ref.decode f.icode f.ifun f.rega f.regb f.imm with
    | none => simp [hdec]
    | some i =>
      simp only [Option.elim_some, hdec]
      exact congrArg some (fetched_of_decode hdec hregs himm).symm

/-! ## Execution -/

/-- `cond_doit` decides the conditions. -/
lemma condDoit_iff (c : Cond) : condDoit sim.cc c = true ↔ Ref.cond (abs sim) c := by
  cases c <;> simp only [condDoit, Ref.cond, abs] <;>
    cases getZf sim.cc <;> cases getSf sim.cc <;> cases getOf sim.cc <;> decide

/-- A failing `set_long_val` is a write out of bounds. -/
lemma write8_of_none {a v : Long} (hw : NoWrap a) (h : setLongVal sim.m a v = none) :
    (abs sim).write8 a v = none := by
  rw [write8_abs sim v hw, h]; rfl

/-- A successful `set_long_val` writes the reference memory and keeps its length. -/
lemma write8_of_some {a v : Long} {m : MemT} (hw : NoWrap a) (h : setLongVal sim.m a v = some m) :
    (abs sim).write8 a v = some m.data ∧ m.len = sim.m.len := by
  refine ⟨by rw [write8_abs sim v hw, h]; rfl, ?_⟩
  have := setLongVal_getD_len sim.m a v
  rwa [h] at this

/-- The stack pointer decrement of `call` and `pushq`. -/
lemma computeAlu_add_neg (v : Long) : computeAlu (some .add) v (-8) = v - 8 := by
  rw [computeAlu, BitVec.sub_eq_add_neg, BitVec.add_comm]

/-- A result of the simulator matches a result of the reference: same status and, on `AOK`,
the same visible state. -/
def Matches (r : Stat × Y64Sim) (R : Stat × Ref.State) : Prop :=
  r.1 = R.1 ∧ (r.1 = .aok → (abs r.2).SameVisible R.2)

/-- Two successful results match when their states agree. -/
lemma matches_aok {sim' : Y64Sim} {s' : Ref.State} (h : (abs sim').SameVisible s') :
    Matches (.aok, sim') (.aok, s') := ⟨rfl, fun _ => h⟩

/-- Two results with the same failing status match. -/
lemma matches_stop {st : Stat} {sim' : Y64Sim} {s' : Ref.State} (h : st ≠ .aok) :
    Matches (st, sim') (st, s') := ⟨rfl, fun h' => absurd h' h⟩

/-- A failed access is `ADR` in the reference. -/
lemma exec_of_memory_none {s : Ref.State} {i : Ref.Instr} {valP : Long}
    (h : Ref.memory s i valP = none) : Ref.exec s i valP = (.adr, s) := by
  rw [Ref.exec, h]

/-- A successful access leads to write back in the reference. -/
lemma exec_of_memory_some {s : Ref.State} {i : Ref.Instr} {valP valM : Long} {mem : Memory}
    (h : Ref.memory s i valP = some (valM, mem)) :
    Ref.exec s i valP = (Ref.status i, Ref.writeBack s i valM valP mem) := by
  rw [Ref.exec, h]

/-- The value on a register port is the simulator's register. -/
lemma port_some (r : Reg) : (abs sim).port (some r) = getRegVal sim.r (some r) := rfl

section Execute

variable (valP : Long)

/-- Moves between registers, conditional or not. -/
lemma execute_cmov (c : Cond) (rA rB : Reg) :
    Matches (execute sim ((Ref.Instr.cmov c rA rB).fetched valP))
      (Ref.exec (abs sim) (.cmov c rA rB) valP) := by
  have hv : Ref.valE (abs sim) (.cmov c rA rB) = getRegVal sim.r (some rA) := by
    simp only [Ref.valE, Ref.srcA, port_some]
    exact BitVec.zero_add (getRegVal sim.r (some rA))
  rw [exec_of_memory_some (show Ref.memory (abs sim) (.cmov c rA rB) valP = some (0, sim.m.data) by
    simp only [Ref.memory, abs])]
  simp only [execute, Ref.Instr.fetched, Cond.ofCode_code, Ref.status, Ref.writeBack, Ref.dstE,
    Ref.dstM, Ref.newPC, hv, ← condDoit_iff]
  cases condDoit sim.cc c with
  | false => exact matches_aok ⟨rfl, rfl, rfl, rfl⟩
  | true => exact matches_aok ⟨rfl, abs_setReg_reg sim rB _, rfl, rfl⟩

/-- Loading a constant. -/
lemma execute_irmovq (v : Long) (rB : Reg) :
    Matches (execute sim ((Ref.Instr.irmovq v rB).fetched valP))
      (Ref.exec (abs sim) (.irmovq v rB) valP) := by
  have hv : Ref.valE (abs sim) (.irmovq v rB) = v := by
    simp only [Ref.valE]
    exact BitVec.zero_add v
  rw [exec_of_memory_some (show Ref.memory (abs sim) (.irmovq v rB) valP = some (0, sim.m.data) by
    simp only [Ref.memory, abs])]
  simp only [execute, Ref.Instr.fetched, Ref.status, Ref.writeBack, Ref.dstE, Ref.dstM, Ref.newPC,
    hv]
  exact matches_aok ⟨rfl, abs_setReg_reg sim rB v, rfl, rfl⟩

/-- Stores. -/
lemma execute_rmmovq (rA rB : Reg) (d : Long)
    (hw : NoWrap (getRegVal sim.r (some rB) + d)) :
    Matches (execute sim ((Ref.Instr.rmmovq rA d rB).fetched valP))
      (Ref.exec (abs sim) (.rmmovq rA d rB) valP) := by
  have hmem : Ref.memory (abs sim) (.rmmovq rA d rB) valP =
      ((abs sim).write8 (getRegVal sim.r (some rB) + d) (getRegVal sim.r (some rA))).map
        fun mem => (0, mem) := by
    simp only [Ref.memory, Ref.valE, Ref.srcA, Ref.srcB, port_some]
  simp only [execute, Ref.Instr.fetched]
  cases hset : setLongVal sim.m (getRegVal sim.r (some rB) + d) (getRegVal sim.r (some rA)) with
  | none =>
    rw [exec_of_memory_none (by rw [hmem, write8_of_none sim hw hset, Option.map_none])]
    exact matches_stop (by decide)
  | some m =>
    obtain ⟨hwr, hlen⟩ := write8_of_some sim hw hset
    rw [exec_of_memory_some (by rw [hmem, hwr, Option.map_some])]
    simp only [Ref.status, Ref.writeBack, Ref.dstE, Ref.dstM, Ref.newPC]
    exact matches_aok ⟨rfl, rfl, rfl, hlen⟩

/-- Loads. -/
lemma execute_mrmovq (rA rB : Reg) (d : Long)
    (hw : NoWrap (getRegVal sim.r (some rB) + d)) :
    Matches (execute sim ((Ref.Instr.mrmovq d rB rA).fetched valP))
      (Ref.exec (abs sim) (.mrmovq d rB rA) valP) := by
  have hmem : Ref.memory (abs sim) (.mrmovq d rB rA) valP =
      (getLongVal sim.m (getRegVal sim.r (some rB) + d)).map fun v => (v, sim.m.data) := by
    simp only [Ref.memory, Ref.valE, Ref.srcB, port_some, read8_abs sim hw]
    rfl
  simp only [execute, Ref.Instr.fetched]
  cases hget : getLongVal sim.m (getRegVal sim.r (some rB) + d) with
  | none =>
    rw [exec_of_memory_none (by rw [hmem, hget, Option.map_none])]
    exact matches_stop (by decide)
  | some v =>
    rw [exec_of_memory_some (by rw [hmem, hget, Option.map_some])]
    simp only [Ref.status, Ref.writeBack, Ref.dstE, Ref.dstM, Ref.newPC]
    exact matches_aok ⟨rfl, abs_setReg_reg sim rA v, rfl, rfl⟩

/-- ALU operations. -/
lemma execute_opq (op : Alu) (rA rB : Reg) :
    Matches (execute sim ((Ref.Instr.opq op rA rB).fetched valP))
      (Ref.exec (abs sim) (.opq op rA rB) valP) := by
  have hv : Ref.valE (abs sim) (.opq op rA rB) =
      computeAlu (some op) (getRegVal sim.r (some rA)) (getRegVal sim.r (some rB)) := by
    simp only [Ref.valE, Ref.srcA, Ref.srcB, port_some]
    cases op <;> simp only [Ref.alu, computeAlu]
  rw [exec_of_memory_some (show Ref.memory (abs sim) (.opq op rA rB) valP = some (0, sim.m.data) by
    simp only [Ref.memory, abs])]
  simp only [execute, Ref.Instr.fetched, Alu.ofCode_code, Ref.status, Ref.writeBack, Ref.dstE,
    Ref.dstM, Ref.newPC, hv]
  exact matches_aok ⟨rfl, abs_setReg_reg sim rB _, rfl, rfl⟩

/-- Jumps. -/
lemma execute_jmp (c : Cond) (dest : Long) :
    Matches (execute sim ((Ref.Instr.jmp c dest).fetched valP))
      (Ref.exec (abs sim) (.jmp c dest) valP) := by
  rw [exec_of_memory_some (show Ref.memory (abs sim) (.jmp c dest) valP = some (0, sim.m.data) by
    simp only [Ref.memory, abs])]
  simp only [execute, Ref.Instr.fetched, Cond.ofCode_code, Ref.status, Ref.writeBack, Ref.dstE,
    Ref.dstM, Ref.newPC, ← condDoit_iff]
  exact matches_aok ⟨rfl, rfl, rfl, rfl⟩

/-- Pushing a value `v` on the stack and going on at `pc`: `pushq` and `call`. -/
lemma push_matches (i : Ref.Instr) {v pc : Long}
    (hvE : Ref.valE (abs sim) i = getRegVal sim.r (some .rsp) - 8)
    (hmem : Ref.memory (abs sim) i valP =
      ((abs sim).write8 (getRegVal sim.r (some .rsp) - 8) v).map fun mem => (0, mem))
    (hdstE : Ref.dstE (abs sim) i = some .rsp) (hdstM : Ref.dstM i = none)
    (hstat : Ref.status i = .aok) (hpc : Ref.newPC (abs sim) i 0 valP = pc)
    (hw : NoWrap (getRegVal sim.r (some .rsp) - 8)) :
    Matches (match setLongVal sim.m (getRegVal sim.r (some .rsp) - 8) v with
        | none => (.adr, sim.setReg (some .rsp) (getRegVal sim.r (some .rsp) - 8))
        | some m => (.aok, { sim.setReg (some .rsp) (getRegVal sim.r (some .rsp) - 8) with
            m := m, pc := pc }))
      (Ref.exec (abs sim) i valP) := by
  cases hset : setLongVal sim.m (getRegVal sim.r (some .rsp) - 8) v with
  | none =>
    rw [exec_of_memory_none (by rw [hmem, write8_of_none sim hw hset, Option.map_none])]
    exact matches_stop (by decide)
  | some m =>
    obtain ⟨hwr, hlen⟩ := write8_of_some sim hw hset
    rw [exec_of_memory_some (by rw [hmem, hwr, Option.map_some])]
    simp only [hstat, Ref.writeBack, hdstE, hdstM, hpc, hvE]
    exact matches_aok ⟨rfl, abs_setReg_reg sim .rsp _, rfl, hlen⟩

/-- Procedure calls. -/
lemma execute_call (dest : Long) (hw : NoWrap (getRegVal sim.r (some .rsp) - 8)) :
    Matches (execute sim ((Ref.Instr.call dest).fetched valP))
      (Ref.exec (abs sim) (.call dest) valP) := by
  have hvE : Ref.valE (abs sim) (.call dest) = getRegVal sim.r (some .rsp) - 8 := by
    simp only [Ref.valE, Ref.srcB, port_some, BitVec.sub_eq_add_neg]
  simp only [execute, Ref.Instr.fetched, computeAlu_add_neg, Y64Sim.setReg_m]
  exact push_matches sim valP (.call dest) hvE (by simp only [Ref.memory, hvE])
    (by simp only [Ref.dstE]) (by simp only [Ref.dstM]) (by simp only [Ref.status])
    (by simp only [Ref.newPC]) hw

/-- Pushing a register; `pushq %rsp` pushes the old stack pointer. -/
lemma execute_pushq (rA : Reg) (hw : NoWrap (getRegVal sim.r (some .rsp) - 8)) :
    Matches (execute sim ((Ref.Instr.pushq rA).fetched valP))
      (Ref.exec (abs sim) (.pushq rA) valP) := by
  have hvE : Ref.valE (abs sim) (.pushq rA) = getRegVal sim.r (some .rsp) - 8 := by
    simp only [Ref.valE, Ref.srcB, port_some, BitVec.sub_eq_add_neg]
  simp only [execute, Ref.Instr.fetched, computeAlu_add_neg, Y64Sim.setReg_m]
  exact push_matches sim valP (.pushq rA) hvE
    (by simp only [Ref.memory, hvE, Ref.srcA, port_some])
    (by simp only [Ref.dstE]) (by simp only [Ref.dstM]) (by simp only [Ref.status])
    (by simp only [Ref.newPC]) hw

/-- Procedure returns. -/
lemma execute_ret (hw : NoWrap (getRegVal sim.r (some .rsp))) :
    Matches (execute sim (Ref.Instr.ret.fetched valP)) (Ref.exec (abs sim) .ret valP) := by
  have hmem : Ref.memory (abs sim) .ret valP =
      (getLongVal sim.m (getRegVal sim.r (some .rsp))).map fun v => (v, sim.m.data) := by
    simp only [Ref.memory, Ref.srcA, port_some, read8_abs sim hw]
    rfl
  have hv : Ref.valE (abs sim) .ret = 8 + getRegVal sim.r (some .rsp) := by
    simp only [Ref.valE, Ref.srcB, port_some]
    exact BitVec.add_comm _ _
  simp only [execute, Ref.Instr.fetched, computeAlu]
  cases hget : getLongVal sim.m (getRegVal sim.r (some .rsp)) with
  | none =>
    rw [exec_of_memory_none (by rw [hmem, hget, Option.map_none])]
    exact matches_stop (by decide)
  | some v =>
    rw [exec_of_memory_some (by rw [hmem, hget, Option.map_some])]
    simp only [Ref.status, Ref.writeBack, Ref.dstE, Ref.dstM, Ref.newPC, hv]
    exact matches_aok ⟨rfl, abs_setReg_reg sim .rsp _, rfl, rfl⟩

/-- Popping a register; the loaded value is written last, so it wins in `popq %rsp`. -/
lemma execute_popq (rA : Reg) (hw : NoWrap (getRegVal sim.r (some .rsp))) :
    Matches (execute sim ((Ref.Instr.popq rA).fetched valP))
      (Ref.exec (abs sim) (.popq rA) valP) := by
  have hmem : Ref.memory (abs sim) (.popq rA) valP =
      (getLongVal sim.m (getRegVal sim.r (some .rsp))).map fun v => (v, sim.m.data) := by
    simp only [Ref.memory, Ref.srcA, port_some, read8_abs sim hw]
    rfl
  have hv : Ref.valE (abs sim) (.popq rA) = 8 + getRegVal sim.r (some .rsp) := by
    simp only [Ref.valE, Ref.srcB, port_some]
    exact BitVec.add_comm _ _
  simp only [execute, Ref.Instr.fetched, computeAlu]
  cases hget : getLongVal sim.m (getRegVal sim.r (some .rsp)) with
  | none =>
    rw [exec_of_memory_none (by rw [hmem, hget, Option.map_none])]
    exact matches_stop (by decide)
  | some v =>
    rw [exec_of_memory_some (by rw [hmem, hget, Option.map_some])]
    simp only [Ref.status, Ref.writeBack, Ref.dstE, Ref.dstM, Ref.newPC, hv]
    refine matches_aok ⟨rfl, ?_, rfl, rfl⟩
    rw [← abs_setReg_reg]
    exact abs_setReg_reg (sim.setReg (some .rsp) _) rA v

end Execute

/-- **The `switch` of `nexti` runs the reference stages.** -/
lemma execute_fetched (i : Ref.Instr) (valP : Long)
    (hw : ∀ a, Ref.dataAddr (abs sim) i = some a → NoWrap a) :
    Matches (execute sim (i.fetched valP)) (Ref.exec (abs sim) i valP) := by
  have hpush : NoWrap (getRegVal sim.r (some .rsp) + (-8)) →
      NoWrap (getRegVal sim.r (some .rsp) - 8) := by
    rw [BitVec.sub_eq_add_neg]; exact id
  cases i with
  | halt =>
    simp only [execute, Ref.Instr.fetched, Ref.exec, Ref.memory, Ref.status]
    exact matches_stop (by decide)
  | nop =>
    simp only [execute, Ref.Instr.fetched, Ref.exec, Ref.memory, Ref.status, Ref.writeBack,
      Ref.dstE, Ref.dstM, Ref.newPC]
    exact matches_aok ⟨rfl, rfl, rfl, rfl⟩
  | cmov c rA rB => exact execute_cmov sim valP c rA rB
  | irmovq v rB => exact execute_irmovq sim valP v rB
  | rmmovq rA d rB => exact execute_rmmovq sim valP rA rB d (hw _ rfl)
  | mrmovq d rB rA => exact execute_mrmovq sim valP rA rB d (hw _ rfl)
  | opq op rA rB => exact execute_opq sim valP op rA rB
  | jmp c dest => exact execute_jmp sim valP c dest
  | call dest => exact execute_call sim valP dest (hpush (hw _ rfl))
  | ret => exact execute_ret sim valP (hw _ rfl)
  | pushq rA => exact execute_pushq sim valP rA (hpush (hw _ rfl))
  | popq rA => exact execute_popq sim valP rA (hw _ rfl)

/-! ## One step -/

/-- The data access of the instruction at the program counter is out of bounds. -/
def Ref.DataError (s : Ref.State) : Prop :=
  ∃ i valP a, Ref.fetch s = .ok i valP ∧ Ref.dataAddr s i = some a ∧ Ref.OutOfBounds s a

/-- The memory stage fails exactly when the data access is out of bounds. -/
lemma Ref.memory_eq_none_iff (s : Ref.State) (i : Ref.Instr) (valP : Long) :
    Ref.memory s i valP = none ↔ ∃ a, Ref.dataAddr s i = some a ∧ Ref.OutOfBounds s a := by
  cases i <;>
    simp [Ref.memory, Ref.dataAddr, Ref.OutOfBounds, Ref.State.write8, Ref.State.read8]

/-- The reference halts exactly on `halt`. -/
lemma Ref.exec_fst_eq_hlt_iff (s : Ref.State) (i : Ref.Instr) (valP : Long) :
    (Ref.exec s i valP).1 = .hlt ↔ i = .halt := by
  cases hm : Ref.memory s i valP with
  | none =>
    rw [exec_of_memory_none hm]
    refine iff_of_false (by simp) ?_
    rintro rfl
    simp only [Ref.memory, reduceCtorEq] at hm
  | some p =>
    rw [exec_of_memory_some hm]
    cases i <;> simp [Ref.status]

/-- The reference faults exactly when its data access is out of bounds. -/
lemma Ref.exec_fst_eq_adr_iff (s : Ref.State) (i : Ref.Instr) (valP : Long) :
    (Ref.exec s i valP).1 = .adr ↔ ∃ a, Ref.dataAddr s i = some a ∧ Ref.OutOfBounds s a := by
  rw [← Ref.memory_eq_none_iff s i valP]
  cases hm : Ref.memory s i valP with
  | none => rw [exec_of_memory_none hm]; exact iff_of_true rfl rfl
  | some p =>
    rw [exec_of_memory_some hm]
    refine iff_of_false ?_ (by simp)
    cases i <;> simp [Ref.status]

/-- **One step of the simulator is one step of the reference semantics**: on every state whose
bytes at `pc` are a valid instruction as far as they are in memory, and whose data access is
not at an address that overflows the bound check, `nexti` returns the reference status and, on
`AOK`, the reference program counter, registers and memory. `HLT` is returned exactly for
`halt`, and `ADR` exactly when the fetch or the data access is out of bounds. -/
theorem nexti_refines_step
    (hvalid : Ref.fetch (abs sim) ≠ .invalid)
    (hw : ∀ i valP a, Ref.fetch (abs sim) = .ok i valP →
      Ref.dataAddr (abs sim) i = some a → NoWrap a) :
    (nexti sim).1 = (Ref.step (abs sim)).1 ∧
      ((nexti sim).1 = .aok → (abs (nexti sim).2).SameVisible (Ref.step (abs sim)).2) ∧
      ((nexti sim).1 = .hlt ↔ ∃ valP, Ref.fetch (abs sim) = .ok .halt valP) ∧
      ((nexti sim).1 = .adr ↔ Ref.fetch (abs sim) = .imemError ∨ Ref.DataError (abs sim)) := by
  have hf := fetch_abs sim
  cases h : Ref.fetch (abs sim) with
  | imemError =>
    rw [h] at hf
    have hn : nexti sim = (.adr, sim) := by rw [nexti, hf]
    rw [hn, Ref.step, h]
    exact ⟨rfl, fun h => (by cases h), by simp, by simp⟩
  | invalid => exact absurd h hvalid
  | ok i valP =>
    rw [h] at hf
    have hn : nexti sim = execute sim (i.fetched valP) := by rw [nexti, hf]
    have hs : Ref.step (abs sim) = Ref.exec (abs sim) i valP := by rw [Ref.step, h]
    obtain ⟨hstat, hsame⟩ := execute_fetched sim i valP fun a ha => hw i valP a h ha
    rw [hn, hs]
    refine ⟨hstat, hsame, ?_, ?_⟩
    · rw [hstat, Ref.exec_fst_eq_hlt_iff]
      simp
    · rw [hstat, Ref.exec_fst_eq_adr_iff]
      simp only [reduceCtorEq, false_or, Ref.DataError, h, Ref.Fetch.ok.injEq]
      constructor
      · rintro ⟨a, ha⟩
        exact ⟨i, valP, a, ⟨rfl, rfl⟩, ha⟩
      · rintro ⟨_, _, a, ⟨rfl, rfl⟩, ha⟩
        exact ⟨a, ha⟩

/-- A machine about to execute `pushq %rsp` with `%rsp = 64`. -/
def pushRspSim : Y64Sim where
  pc := 0
  r := ⟨128, fun x => if x = 32 then 64 else 0, regFile_len_lt⟩
  m := ⟨64, fun x => if x = 0 then 0xA0 else if x = 1 then 0x4F else 0, smallMem_len_lt⟩
  cc := packCc true false false
  r_len := rfl

/-- `pushq %rsp` succeeds and leaves the reference state. -/
theorem nexti_refines_step_pushRsp :
    (abs (nexti pushRspSim).2).SameVisible (Ref.step (abs pushRspSim)).2 := by
  have hf : Ref.fetch (abs pushRspSim) = .ok (.pushq .rsp) 2 := by decide
  refine (nexti_refines_step pushRspSim (by rw [hf]; simp) fun i valP a h ha => ?_).2.1 (by decide)
  rw [hf] at h
  cases h
  have ha' : a = 56 := (Option.some.inj (ha.symm.trans (by decide :
    Ref.dataAddr (abs pushRspSim) (.pushq .rsp) = some 56)))
  rw [ha', NoWrap]
  decide

end Y64
