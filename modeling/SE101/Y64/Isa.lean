import SE101.Lib.LittleEndian

set_option relaxedAutoImplicit false
set_option autoImplicit false

/-!
# The Y86-64 enumerations and byte packing

The declarations that `y64sim.h` and `y64asm.h` share: register, instruction, ALU and
condition codes, and the macros that pack two nibbles into a byte. A C enumeration whose last
member means "none" (`REG_NONE`, `A_NONE`) is an `Option` of the type of its other members.

## Main definitions

* `Y64.Reg`, `Y64.RegId` — the fifteen registers, and `regid_t`.
* `Y64.IType`, `Y64.Alu`, `Y64.Cond` — `itype_t`, `alu_t`, `cond_t`.
* `Y64.hpack`, `Y64.high`, `Y64.low` — `HPACK`, `HIGH`, `LOW`.

## Main results

* `Y64.high_hpack`, `Y64.low_hpack` — the two nibbles of a packed byte.
* `Y64.RegId.ofCode_code`, `IType.ofCode_code`, `Cond.ofCode_code`, `Alu.ofCode_code` — codes
  are decoded to what was encoded.
-/

namespace Y64

/-- `byte_t`. -/
abbrev Byte := LittleEndian.Byte

/-- `long_t`, a signed 64-bit integer whose arithmetic wraps. -/
abbrev Long := BitVec 64

/-! ## Packing -/

/-- `HPACK(hi,lo)`. -/
def hpack (hi lo : ℕ) : Byte := BitVec.ofNat 8 (((hi &&& 0xF) <<< 4) ||| (lo &&& 0xF))

/-- `HIGH(pack)`. -/
def high (pack : Byte) : ℕ := (pack.toNat >>> 4) &&& 0xF

/-- `LOW(pack)`. -/
def low (pack : Byte) : ℕ := pack.toNat &&& 0xF

/-- The high nibble of a packed byte. -/
lemma high_hpack {hi lo : ℕ} (hhi : hi < 16) (hlo : lo < 16) : high (hpack hi lo) = hi := by
  have h : ∀ hi < 16, ∀ lo < 16, high (hpack hi lo) = hi := by decide
  exact h hi hhi lo hlo

/-! ## Registers -/

/-- The registers `REG_RAX`, …, `REG_R14`. -/
inductive Reg
  | rax | rcx | rdx | rbx | rsp | rbp | rsi | rdi
  | r8 | r9 | r10 | r11 | r12 | r13 | r14
  deriving DecidableEq, Repr

/-- `regid_t`: a register, or `none` for `REG_NONE`. -/
abbrev RegId := Option Reg

/-- The value of a register in its C enumeration. -/
def Reg.code : Reg → ℕ
  | .rax => 0 | .rcx => 1 | .rdx => 2 | .rbx => 3 | .rsp => 4 | .rbp => 5 | .rsi => 6
  | .rdi => 7 | .r8 => 8 | .r9 => 9 | .r10 => 10 | .r11 => 11 | .r12 => 12 | .r13 => 13
  | .r14 => 14

/-- The value of a `regid_t`; `REG_NONE` is `15`. -/
def RegId.code : RegId → ℕ
  | some r => r.code
  | none => 15

/-- The `regid_t` that a nibble is read as. -/
def RegId.ofCode : ℕ → RegId
  | 0 => some .rax | 1 => some .rcx | 2 => some .rdx | 3 => some .rbx | 4 => some .rsp
  | 5 => some .rbp | 6 => some .rsi | 7 => some .rdi | 8 => some .r8 | 9 => some .r9
  | 10 => some .r10 | 11 => some .r11 | 12 => some .r12 | 13 => some .r13 | 14 => some .r14
  | _ => none

/-- A register is numbered below `REG_NONE`. -/
lemma Reg.code_lt (r : Reg) : r.code < 15 := by cases r <;> decide

/-- A `regid_t` fits a nibble. -/
lemma RegId.code_lt : ∀ id : RegId, id.code < 16
  | some r => (r.code_lt).trans (by decide)
  | none => by decide

/-- Decoding a `regid_t` from its code. -/
@[simp] lemma RegId.ofCode_code : ∀ id : RegId, RegId.ofCode id.code = id
  | some r => by cases r <;> rfl
  | none => rfl

/-- Distinct registers have distinct codes. -/
lemma Reg.code_injective : Function.Injective Reg.code := fun a b h => by
  have h' := congrArg RegId.ofCode h
  exact Option.some.inj ((RegId.ofCode_code (some a)).symm.trans
    (h'.trans (RegId.ofCode_code (some b))))

/-! ## Instruction, ALU and condition codes -/

/-- `itype_t`. -/
inductive IType
  | halt | nop | rrmovq | irmovq | rmmovq | mrmovq | alu | jmp | call | ret | pushq | popq
  | directive
  deriving DecidableEq, Repr

/-- The value of an instruction type in its C enumeration. -/
def IType.code : IType → ℕ
  | .halt => 0 | .nop => 1 | .rrmovq => 2 | .irmovq => 3 | .rmmovq => 4 | .mrmovq => 5
  | .alu => 6 | .jmp => 7 | .call => 8 | .ret => 9 | .pushq => 10 | .popq => 11
  | .directive => 12

/-- The instruction type with a given value, if one has it. -/
def IType.ofCode : ℕ → Option IType
  | 0 => some .halt | 1 => some .nop | 2 => some .rrmovq | 3 => some .irmovq
  | 4 => some .rmmovq | 5 => some .mrmovq | 6 => some .alu | 7 => some .jmp | 8 => some .call
  | 9 => some .ret | 10 => some .pushq | 11 => some .popq | 12 => some .directive | _ => none

/-- An instruction type fits a nibble. -/
lemma IType.code_lt (t : IType) : t.code < 16 := by cases t <;> decide

/-- Decoding an instruction type from its code. -/
@[simp] lemma IType.ofCode_code (t : IType) : IType.ofCode t.code = some t := by cases t <;> rfl

/-- The ALU operations `A_ADD`, `A_SUB`, `A_AND`, `A_XOR`. -/
inductive Alu
  | add | sub | and | xor
  deriving DecidableEq, Repr

/-- The value of an ALU operation in its C enumeration. -/
def Alu.code : Alu → ℕ
  | .add => 0 | .sub => 1 | .and => 2 | .xor => 3

/-- The ALU operation with a given value; `none` is `A_NONE` or anything above it. -/
def Alu.ofCode : ℕ → Option Alu
  | 0 => some .add | 1 => some .sub | 2 => some .and | 3 => some .xor | _ => none

/-- An ALU operation fits a nibble. -/
lemma Alu.code_lt (op : Alu) : op.code < 16 := by cases op <;> decide

/-- Decoding an ALU operation from its code. -/
@[simp] lemma Alu.ofCode_code (op : Alu) : Alu.ofCode op.code = some op := by cases op <;> rfl

/-- `cond_t`. -/
inductive Cond
  | yes | le | l | e | ne | ge | g
  deriving DecidableEq, Repr

/-- The value of a condition in its C enumeration. -/
def Cond.code : Cond → ℕ
  | .yes => 0 | .le => 1 | .l => 2 | .e => 3 | .ne => 4 | .ge => 5 | .g => 6

/-- The condition with a given value; `none` is anything above `C_G`. -/
def Cond.ofCode : ℕ → Option Cond
  | 0 => some .yes | 1 => some .le | 2 => some .l | 3 => some .e | 4 => some .ne
  | 5 => some .ge | 6 => some .g | _ => none

/-- A condition fits a nibble. -/
lemma Cond.code_lt (c : Cond) : c.code < 16 := by cases c <;> decide

/-- Decoding a condition from its code. -/
@[simp] lemma Cond.ofCode_code (c : Cond) : Cond.ofCode c.code = some c := by cases c <;> rfl

/-- Which instruction types have a register byte. -/
def IType.hasRegs : IType → Bool
  | .rrmovq | .irmovq | .rmmovq | .mrmovq | .alu | .pushq | .popq => true
  | _ => false

/-- Which instruction types have an eight-byte constant. -/
def IType.hasImm : IType → Bool
  | .irmovq | .rmmovq | .mrmovq | .jmp | .call => true
  | _ => false

end Y64
