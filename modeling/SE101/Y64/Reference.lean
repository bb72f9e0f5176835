import SE101.Y64.CondCodes

set_option relaxedAutoImplicit false
set_option autoImplicit false

/-!
# The Y86-64 reference semantics

The meaning of Y86-64 programs in the style of the sequential implementation: an instruction is
fetched and decoded, its operands are read, a value is computed, memory is accessed, the
results are written back and the program counter is updated. Each stage is one definition with
one line for each kind of instruction, and `step` runs them in order. Nothing here is taken
from the simulator's code.

## Main definitions

* `Y64.Ref.Instr` — the instructions, with their operands by role.
* `Y64.Ref.State` — the visible state, with registers and memory as functions.
* `Y64.Ref.fetch` — instruction fetch and decode.
* `Y64.Ref.exec`, `Y64.Ref.step` — the remaining stages, and one step.
-/

namespace Y64.Ref

open LittleEndian

/-- The instructions. A memory operand is a displacement and a base register. -/
inductive Instr
  | halt
  | nop
  /-- `rrmovq` and the conditional moves. -/
  | cmov (c : Cond) (src dst : Reg)
  | irmovq (v : Long) (dst : Reg)
  | rmmovq (src : Reg) (disp : Long) (base : Reg)
  | mrmovq (disp : Long) (base dst : Reg)
  | opq (op : Alu) (src dst : Reg)
  | jmp (c : Cond) (dest : Long)
  | call (dest : Long)
  | ret
  | pushq (src : Reg)
  | popq (dst : Reg)
  deriving DecidableEq, Repr

/-- The state that a program can see. -/
structure State where
  /-- Program counter. -/
  pc : Long
  /-- Register values. -/
  reg : Reg → Long
  /-- Memory. -/
  mem : Memory
  /-- Size of memory. -/
  len : ℕ
  /-- Zero flag. -/
  zf : Bool
  /-- Sign flag. -/
  sf : Bool
  /-- Overflow flag. -/
  of : Bool

/-- `M₁[a]`. -/
def State.read1 (s : State) (a : Long) : Option Byte :=
  if a.toNat < s.len then some (s.mem a.toNat) else none

/-- `M₈[a]`. -/
def State.read8 (s : State) (a : Long) : Option Long :=
  if a.toNat + 8 ≤ s.len then some (BitVec.ofNat 64 (load s.mem a.toNat 8)) else none

/-- `M₈[a] ← v`. -/
def State.write8 (s : State) (a v : Long) : Option Memory :=
  if a.toNat + 8 ≤ s.len then some (store s.mem a.toNat 8 v.toNat) else none

/-! ## Fetch -/

/-- The instruction types with a register byte. -/
def needRegids (t : Option IType) : Bool :=
  t ∈ [some .rrmovq, some .irmovq, some .rmmovq, some .mrmovq, some .alu, some .pushq,
    some .popq]

/-- The instruction types with a constant word. -/
def needValC (t : Option IType) : Bool :=
  t ∈ [some .irmovq, some .rmmovq, some .mrmovq, some .jmp, some .call]

/-- The encoding table: the instruction with the given fields, if they are valid. -/
def decode (icode : Option IType) (ifun : ℕ) (rA rB : RegId) (valC : Long) : Option Instr :=
  match icode, ifun, rA, rB with
  | some .halt, 0, _, _ => some .halt
  | some .nop, 0, _, _ => some .nop
  | some .rrmovq, fn, some rA, some rB => (Cond.ofCode fn).map fun c => .cmov c rA rB
  | some .irmovq, 0, none, some rB => some (.irmovq valC rB)
  | some .rmmovq, 0, some rA, some rB => some (.rmmovq rA valC rB)
  | some .mrmovq, 0, some rA, some rB => some (.mrmovq valC rB rA)
  | some .alu, fn, some rA, some rB => (Alu.ofCode fn).map fun op => .opq op rA rB
  | some .jmp, fn, _, _ => (Cond.ofCode fn).map fun c => .jmp c valC
  | some .call, 0, _, _ => some (.call valC)
  | some .ret, 0, _, _ => some .ret
  | some .pushq, 0, some rA, none => some (.pushq rA)
  | some .popq, 0, some rA, none => some (.popq rA)
  | _, _, _, _ => none

/-- The outcome of a fetch: some byte of the instruction is outside memory, the bytes are no
instruction, or an instruction and the address behind it. -/
inductive Fetch
  | imemError
  | invalid
  | ok (i : Instr) (valP : Long)
  deriving DecidableEq

/-- The register byte at `a`, for the instruction types that have one. -/
def State.fetchRegids (s : State) (t : Option IType) (a : Long) : Option (RegId × RegId) :=
  if needRegids t then
    (s.read1 a).map fun b => (RegId.ofCode (b.toNat / 16), RegId.ofCode (b.toNat % 16))
  else some (none, none)

/-- The constant word at `a`, for the instruction types that have one. -/
def State.fetchValC (s : State) (t : Option IType) (a : Long) : Option Long :=
  if needValC t then s.read8 a else some 0

/-- Instruction fetch. -/
def fetch (s : State) : Fetch :=
  match s.read1 s.pc with
  | none => .imemError
  | some b0 =>
    let icode := IType.ofCode (b0.toNat / 16)
    let pcC := s.pc + 1 + if needRegids icode then 1 else 0
    match s.fetchRegids icode (s.pc + 1), s.fetchValC icode pcC with
    | some (rA, rB), some valC =>
      match decode icode (b0.toNat % 16) rA rB valC with
      | some i => .ok i (pcC + if needValC icode then 8 else 0)
      | none => .invalid
    | _, _ => .imemError

/-! ## Decode and execute -/

/-- Whether a condition holds of the flags. -/
def cond (s : State) : Cond → Prop
  | .yes => True
  | .le => s.sf ≠ s.of ∨ s.zf = true
  | .l => s.sf ≠ s.of
  | .e => s.zf = true
  | .ne => s.zf = false
  | .ge => s.sf = s.of
  | .g => s.sf = s.of ∧ s.zf = false

instance (s : State) (c : Cond) : Decidable (cond s c) := by
  cases c <;> unfold cond <;> infer_instance

/-- The register read as `valA`. -/
def srcA : Instr → Option Reg
  | .cmov _ rA _ | .rmmovq rA _ _ | .opq _ rA _ | .pushq rA => some rA
  | .popq _ | .ret => some .rsp
  | .halt | .nop | .irmovq .. | .mrmovq .. | .jmp .. | .call _ => none

/-- The register read as `valB`. -/
def srcB : Instr → Option Reg
  | .opq _ _ rB | .rmmovq _ _ rB | .mrmovq _ rB _ => some rB
  | .pushq _ | .popq _ | .call _ | .ret => some .rsp
  | .halt | .nop | .cmov .. | .irmovq .. | .jmp .. => none

/-- The value of a register port; an unused port reads zero. -/
def State.port (s : State) (r : Option Reg) : Long := r.elim 0 s.reg

/-- The ALU operations on `long_t`. -/
def alu : Alu → Long → Long → Long
  | .add, a, b => b + a
  | .sub, a, b => b - a
  | .and, a, b => b &&& a
  | .xor, a, b => b ^^^ a

/-- The computed value `valE`. -/
def valE (s : State) (i : Instr) : Long :=
  let valA := s.port (srcA i)
  let valB := s.port (srcB i)
  match i with
  | .cmov .. => 0 + valA
  | .irmovq v _ => 0 + v
  | .rmmovq _ d _ | .mrmovq d _ _ => valB + d
  | .opq op _ _ => alu op valA valB
  | .call _ | .pushq _ => valB + (-8)
  | .ret | .popq _ => valB + 8
  | .halt | .nop | .jmp .. => 0

/-! ## Memory, write back, PC update -/

/-- The address of the data access, if the instruction makes one. -/
def dataAddr (s : State) (i : Instr) : Option Long :=
  match i with
  | .rmmovq .. | .mrmovq .. | .call _ | .pushq _ => some (valE s i)
  | .ret | .popq _ => some (s.port (srcA i))
  | .halt | .nop | .cmov .. | .irmovq .. | .opq .. | .jmp .. => none

/-- The memory stage: the value read (zero if none) and the new memory, or `none` when the
access is out of bounds. -/
def memory (s : State) (i : Instr) (valP : Long) : Option (Long × Memory) :=
  match i with
  | .rmmovq .. | .pushq _ => (s.write8 (valE s i) (s.port (srcA i))).map fun mem => (0, mem)
  | .call _ => (s.write8 (valE s i) valP).map fun mem => (0, mem)
  | .mrmovq .. => (s.read8 (valE s i)).map fun v => (v, s.mem)
  | .ret | .popq _ => (s.read8 (s.port (srcA i))).map fun v => (v, s.mem)
  | .halt | .nop | .cmov .. | .irmovq .. | .opq .. | .jmp .. => some (0, s.mem)

/-- The register that receives `valE`. -/
def dstE (s : State) : Instr → Option Reg
  | .cmov c _ rB => if cond s c then some rB else none
  | .irmovq _ rB | .opq _ _ rB => some rB
  | .pushq _ | .popq _ | .call _ | .ret => some .rsp
  | .halt | .nop | .rmmovq .. | .mrmovq .. | .jmp .. => none

/-- The register that receives `valM`. -/
def dstM : Instr → Option Reg
  | .mrmovq _ _ rA | .popq rA => some rA
  | .halt | .nop | .cmov .. | .irmovq .. | .rmmovq .. | .opq .. | .jmp .. | .call _ | .ret
  | .pushq _ => none

/-- A register file after one write port. -/
def writeReg (reg : Reg → Long) (dst : Option Reg) (v : Long) : Reg → Long :=
  match dst with
  | some r => Function.update reg r v
  | none => reg

/-- The next program counter. -/
def newPC (s : State) (i : Instr) (valM valP : Long) : Long :=
  match i with
  | .call dest => dest
  | .jmp c dest => if cond s c then dest else valP
  | .ret => valM
  | .halt | .nop | .cmov .. | .irmovq .. | .rmmovq .. | .mrmovq .. | .opq .. | .pushq _
  | .popq _ => valP

/-- The flags: the ALU operations set them from their result. -/
def newFlags (s : State) (i : Instr) : Bool × Bool × Bool :=
  match i with
  | .opq op rA rB => (valE s i = 0, (valE s i).toInt < 0, overflows op (s.reg rA) (s.reg rB))
  | .halt | .nop | .cmov .. | .irmovq .. | .rmmovq .. | .mrmovq .. | .jmp .. | .call _ | .ret
  | .pushq _ | .popq _ => (s.zf, s.sf, s.of)

/-- The status of an instruction whose accesses succeed. -/
def status : Instr → Stat
  | .halt => .hlt
  | .nop | .cmov .. | .irmovq .. | .rmmovq .. | .mrmovq .. | .opq .. | .jmp .. | .call _ | .ret
  | .pushq _ | .popq _ => .aok

/-- The state after an instruction that read `valM` and left memory `mem`. The write of `valM`
comes after the write of `valE`. -/
def writeBack (s : State) (i : Instr) (valM valP : Long) (mem : Memory) : State where
  pc := newPC s i valM valP
  reg := writeReg (writeReg s.reg (dstE s i) (valE s i)) (dstM i) valM
  mem := mem
  len := s.len
  zf := (newFlags s i).1
  sf := (newFlags s i).2.1
  of := (newFlags s i).2.2

/-- The stages after fetch. -/
def exec (s : State) (i : Instr) (valP : Long) : Stat × State :=
  match memory s i valP with
  | none => (.adr, s)
  | some (valM, mem) => (status i, writeBack s i valM valP mem)

/-- One step of the machine. -/
def step (s : State) : Stat × State :=
  match fetch s with
  | .imemError => (.adr, s)
  | .invalid => (.ins, s)
  | .ok i valP => exec s i valP

/-- The eight bytes at `a` are not all in memory. -/
def OutOfBounds (s : State) (a : Long) : Prop := ¬ a.toNat + 8 ≤ s.len

end Y64.Ref
