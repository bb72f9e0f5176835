import SE101.Y64.Isa

set_option relaxedAutoImplicit false
set_option autoImplicit false

/-!
# The Y86-64 instruction set simulator

The simulator of `y64sim.c`: its bounded byte memories, its register file (itself such a
memory), its ALU, condition codes and conditions, and `nexti`, which executes one
instruction.

## Main definitions

* `Y64.MemT`, `Y64.getByteVal`, `getLongVal`, `setByteVal`, `setLongVal` — `mem_t` and its
  four accesses; an access that returns `FALSE` is `none`.
* `Y64.getRegVal`, `Y64.setRegVal` — the register file.
* `Y64.computeAlu`, `Y64.computeCc`, `Y64.condDoit` — the ALU, its condition codes, and
  conditions.
* `Y64.Y64Sim`, `Y64.nexti` — the machine and its step.

## Design

Memory is indexed by the 64-bit offset that C pointer arithmetic would use, so an access that
a wrong bound check lets through is a read or a write outside `[0, len)`, not an error. The
register file is the 128-byte memory that `init_reg` allocates, and the machine carries that
as an invariant. `nexti` is split where its source comments split it: `fetch` reads the
instruction and `execute` is the `switch`.
-/

namespace Y64

open LittleEndian

/-! ## Memory -/

/-- `mem_t`. Its length is an `int`. -/
structure MemT where
  /-- Number of valid bytes. -/
  len : ℕ
  /-- The bytes from the buffer's start on, by 64-bit offset. -/
  data : Memory
  /-- The length fits an `int`. -/
  len_lt : len < 2 ^ 31

/-- The length of a register file fits an `int`. -/
lemma regFile_len_lt : (128 : ℕ) < 2 ^ 31 := by decide

/-- The length of a small memory fits an `int`. -/
lemma smallMem_len_lt : (64 : ℕ) < 2 ^ 31 := by decide

/-- `get_byte_val`. -/
def getByteVal (m : MemT) (addr : Long) : Option Byte :=
  if addr.toInt < 0 ∨ addr.toInt ≥ m.len then none else some (m.data addr.toNat)

/-- The loop of `get_long_val` after `i` iterations. -/
def getLongLoop (m : MemT) (addr : Long) : ℕ → Long
  | 0 => 0
  | i + 1 => getLongLoop m addr i |||
      ((m.data (addr + BitVec.ofNat 64 i).toNat).setWidth 64 <<< (8 * i))

/-- `get_long_val`. -/
def getLongVal (m : MemT) (addr : Long) : Option Long :=
  if addr.toInt < 0 ∨ (addr + 8).toInt > m.len then none else some (getLongLoop m addr 8)

/-- `set_byte_val`. -/
def setByteVal (m : MemT) (addr : Long) (val : Byte) : Option MemT :=
  if addr.toInt < 0 ∨ addr.toInt ≥ m.len then none
  else some { m with data := Function.update m.data addr.toNat val }

/-- The loop of `set_long_val` after `i` iterations: the bytes and the shifted value. -/
def setLongLoop (m : MemT) (addr val : Long) : ℕ → Memory × Long
  | 0 => (m.data, val)
  | i + 1 =>
    let (data, val) := setLongLoop m addr val i
    (Function.update data (addr + BitVec.ofNat 64 i).toNat ((val &&& 0xFF).setWidth 8),
      val.sshiftRight 8)

/-- `set_long_val`. -/
def setLongVal (m : MemT) (addr val : Long) : Option MemT :=
  if addr.toInt < 0 ∨ (addr + 8).toInt > m.len then none
  else some { m with data := (setLongLoop m addr val 8).1 }

/-! ## Registers -/

/-- `get_reg_val`. -/
def getRegVal (r : MemT) (id : RegId) : Long :=
  match id with
  | none => 0
  | some id => (getLongVal r (BitVec.ofNat 64 (id.code * 8))).getD 0

/-- `set_reg_val`. -/
def setRegVal (r : MemT) (id : RegId) (val : Long) : MemT :=
  match id with
  | none => r
  | some id => (setLongVal r (BitVec.ofNat 64 (id.code * 8)) val).getD r

/-! ## ALU, condition codes, conditions -/

/-- `cc_t`. -/
abbrev CC := BitVec 8

/-- A C truth value as an integer. -/
def boolT (b : Bool) : CC := if b then 1 else 0

/-- `PACK_CC(z,s,o)`. -/
def packCc (z s o : Bool) : CC := (boolT z <<< 2) ||| (boolT s <<< 1) ||| (boolT o <<< 0)

/-- `GET_ZF(cc)`. -/
def getZf (cc : CC) : Bool := (cc >>> 2) &&& 0x1 ≠ 0

/-- `GET_SF(cc)`. -/
def getSf (cc : CC) : Bool := (cc >>> 1) &&& 0x1 ≠ 0

/-- `GET_OF(cc)`. -/
def getOf (cc : CC) : Bool := (cc >>> 0) &&& 0x1 ≠ 0

/-- `compute_alu`. -/
def computeAlu (op : Option Alu) (argA argB : Long) : Long :=
  match op with
  | some .add => argB + argA
  | some .sub => argB - argA
  | some .and => argB &&& argA
  | some .xor => argB ^^^ argA
  | none => 0

/-- The test `v > 0` on a `long_t`. -/
def pos (v : Long) : Bool := 0 < v.toInt

/-- `compute_cc`. The sign is tested after narrowing to `int`. -/
def computeCc (op : Option Alu) (argA argB val : Long) : CC :=
  let zero := val == 0
  let sign := decide ((val.setWidth 32).toInt < 0)
  let ovf := (op == some .and && pos argA == pos argB && !(pos argA == pos val)) ||
    (op == some .sub && !(pos argA == pos argB) && pos argA == pos val)
  packCc zero sign ovf

/-- `cond_doit`. -/
def condDoit (cc : CC) : Cond → Bool
  | .yes => true
  | .le => getZf cc || (getSf cc ^^ getOf cc)
  | .l => getSf cc ^^ getOf cc
  | .e => getZf cc
  | .ne => !getZf cc
  | .ge => !(getSf cc ^^ getOf cc)
  | .g => !getZf cc && !(getSf cc ^^ getOf cc)

/-! ## The machine -/

/-- `stat_t`. -/
inductive Stat
  | aok | hlt | adr | ins
  deriving DecidableEq, Repr

/-- Writing memory keeps its length. -/
@[simp] lemma setLongVal_getD_len (r : MemT) (addr val : Long) :
    ((setLongVal r addr val).getD r).len = r.len := by
  unfold setLongVal
  split_ifs <;> rfl

/-- Writing a register keeps the length of the register file. -/
@[simp] lemma setRegVal_len (r : MemT) (id : RegId) (val : Long) :
    (setRegVal r id val).len = r.len := by
  cases id with
  | none => rfl
  | some id => simp [setRegVal]

/-- `y64sim_t`. -/
structure Y64Sim where
  /-- Program counter. -/
  pc : Long
  /-- Register file. -/
  r : MemT
  /-- Memory. -/
  m : MemT
  /-- Condition codes. -/
  cc : CC
  /-- The register file has the size `init_reg` gives it, `REG_SIZE` rounded up to `BLK_SIZE`. -/
  r_len : r.len = 128

/-- The machine after `set_reg_val(sim->r, id, val)`. -/
def Y64Sim.setReg (sim : Y64Sim) (id : RegId) (val : Long) : Y64Sim :=
  { sim with r := setRegVal sim.r id val, r_len := by simp [sim.r_len] }

@[simp] lemma Y64Sim.setReg_pc (sim : Y64Sim) (id : RegId) (val : Long) :
    (sim.setReg id val).pc = sim.pc := rfl

@[simp] lemma Y64Sim.setReg_m (sim : Y64Sim) (id : RegId) (val : Long) :
    (sim.setReg id val).m = sim.m := rfl

@[simp] lemma Y64Sim.setReg_cc (sim : Y64Sim) (id : RegId) (val : Long) :
    (sim.setReg id val).cc = sim.cc := rfl

@[simp] lemma Y64Sim.setReg_r (sim : Y64Sim) (id : RegId) (val : Long) :
    (sim.setReg id val).r = setRegVal sim.r id val := rfl

/-- What `nexti` has read before its `switch`. A register or immediate that the instruction
does not have is not read later either. -/
structure Fetched where
  /-- `icode`, if it is the code of an instruction type. -/
  icode : Option IType
  /-- `ifun`. -/
  ifun : ℕ
  /-- `rega`. -/
  rega : RegId
  /-- `regb`. -/
  regb : RegId
  /-- `imm`. -/
  imm : Long
  /-- `next_pc`. -/
  nextPc : Long
  deriving DecidableEq

/-- The register byte of `nexti`, and the counter behind it. -/
def fetchRegs (m : MemT) (icode : Option IType) (nextPc : Long) :
    Option (RegId × RegId × Long) :=
  if icode.any IType.hasRegs then
    (getByteVal m nextPc).map fun nextb =>
      (RegId.ofCode (high nextb), RegId.ofCode (low nextb), nextPc + 1)
  else some (none, none, nextPc)

/-- The immediate of `nexti`, and the counter behind it. -/
def fetchImm (m : MemT) (icode : Option IType) (nextPc : Long) : Option (Long × Long) :=
  if icode.any IType.hasImm then
    (getLongVal m nextPc).map fun nextv => (nextv, nextPc + 8)
  else some (0, nextPc)

/-- The instruction fetch of `nexti`; `none` is an invalid instruction address. -/
def fetch (sim : Y64Sim) : Option Fetched := do
  let codefun ← getByteVal sim.m sim.pc
  let icode := IType.ofCode (high codefun)
  let ifun := low codefun
  let (rega, regb, nextPc) ← fetchRegs sim.m icode (sim.pc + 1)
  let (imm, nextPc) ← fetchImm sim.m icode nextPc
  return { icode, ifun, rega, regb, imm, nextPc }

/-- The `switch` of `nexti`. -/
def execute (sim : Y64Sim) (f : Fetched) : Stat × Y64Sim :=
  match f.icode with
  | some .halt => (.hlt, sim)
  | some .nop => (.aok, { sim with pc := f.nextPc })
  | some .rrmovq =>
    match Cond.ofCode f.ifun with
    | none => (.ins, sim)
    | some cond =>
      let sim := if condDoit sim.cc cond then sim.setReg f.regb (getRegVal sim.r f.rega) else sim
      (.aok, { sim with pc := f.nextPc })
  | some .irmovq =>
    (.aok, { sim.setReg f.regb f.imm with pc := f.nextPc })
  | some .rmmovq =>
    let tempv := getRegVal sim.r f.rega
    let tempaddr := getRegVal sim.r f.regb + f.imm
    match setLongVal sim.m tempaddr tempv with
    | none => (.adr, sim)
    | some m => (.aok, { sim with m := m, pc := f.nextPc })
  | some .mrmovq =>
    let tempaddr := getRegVal sim.r f.regb + f.imm
    match getLongVal sim.m tempaddr with
    | none => (.adr, sim)
    | some tempv => (.aok, { sim.setReg f.rega tempv with pc := f.nextPc })
  | some .alu =>
    match Alu.ofCode f.ifun with
    | none => (.ins, sim)
    | some op =>
      let tempva := getRegVal sim.r f.rega
      let tempvb := getRegVal sim.r f.regb
      let tempv := computeAlu (some op) tempva tempvb
      (.aok, { sim.setReg f.regb tempv with
        cc := computeCc (some op) tempva tempvb tempv, pc := f.nextPc })
  | some .jmp =>
    match Cond.ofCode f.ifun with
    | none => (.ins, sim)
    | some cond => (.aok, { sim with pc := if condDoit sim.cc cond then f.imm else f.nextPc })
  | some .call =>
    let valb := getRegVal sim.r (some .rsp)
    let vale := computeAlu (some .add) valb (-8)
    let sim := sim.setReg (some .rsp) vale
    match setLongVal sim.m (valb - 8) f.nextPc with
    | none => (.adr, sim)
    | some m => (.aok, { sim with m := m, pc := f.imm })
  | some .ret =>
    let vala := getRegVal sim.r (some .rsp)
    let valb := getRegVal sim.r (some .rsp)
    let vale := computeAlu (some .add) valb 8
    match getLongVal sim.m vala with
    | none => (.adr, sim)
    | some valm => (.aok, { sim.setReg (some .rsp) vale with pc := valm })
  | some .pushq =>
    let vala := getRegVal sim.r f.rega
    let valb := getRegVal sim.r (some .rsp)
    let vale := computeAlu (some .add) valb (-8)
    let sim := sim.setReg (some .rsp) vale
    match setLongVal sim.m vale vala with
    | none => (.adr, sim)
    | some m => (.aok, { sim with m := m, pc := f.nextPc })
  | some .popq =>
    let vala := getRegVal sim.r (some .rsp)
    let valb := getRegVal sim.r (some .rsp)
    let vale := computeAlu (some .add) valb 8
    match getLongVal sim.m vala with
    | none => (.adr, sim)
    | some valm =>
      (.aok, { (sim.setReg (some .rsp) vale).setReg f.rega valm with pc := f.nextPc })
  | _ => (.ins, sim)

/-- `nexti`. -/
def nexti (sim : Y64Sim) : Stat × Y64Sim :=
  match fetch sim with
  | none => (.adr, sim)
  | some f => execute sim f

end Y64
