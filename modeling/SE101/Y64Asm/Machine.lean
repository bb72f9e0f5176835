import SE101.Lib.Simulation
import SE101.Y64Asm.Source

set_option relaxedAutoImplicit false
set_option autoImplicit false

/-!
# The machine that runs source programs

The meaning of a Y64 source program as a machine that executes its text. The instruction at the
program counter is the one that the text has at this address, with its symbols replaced by the
addresses of the labels; the bytes of the image are only what the program reads as data. A
program that leaves its text, writes into its own instructions, or accesses an address whose
bound check overflows has no meaning.

## Main definitions

* `Y64.Asm.instrs` — the instructions of a program, with their addresses.
* `Y64.Asm.FlagRule` — which flags an operation sets; `ccRule` is the rule of the simulator,
  `y86Rule` the documented one.
* `Y64.Asm.textStep` — one step of the machine.
* `Y64.Asm.textRun` — a run from the state after loading.

## Design

A machine that stops keeps its state, so a halted program is at its `halt` and a program that
faults is at the instruction with the fault.
-/

namespace Y64.Asm

open LittleEndian

/-! ## The text of a program -/

/-- The instructions of a program that starts at a location, with their addresses. -/
def instrs : ℕ → List SrcLine → List (ℕ × SrcInstr)
  | _, [] => []
  | loc, l :: prog =>
    match l.stmt with
    | some (.instr i) => (loc, i) :: instrs (l.next loc) prog
    | _ => instrs (l.next loc) prog

/-- The addresses of symbols. -/
def symbols (prog : List SrcLine) (name : Chars) : Long := BitVec.ofNat 64 (address prog name)

/-- The size of an instruction. -/
def SrcInstr.size (i : SrcInstr) : ℕ := (Stmt.instr i).size

/-- An address is inside an instruction. -/
def isCode (prog : List SrcLine) (x : ℕ) : Bool :=
  (instrs 0 prog).any fun p => p.1 ≤ x && x < p.1 + p.2.size

/-! ## Flags -/

/-- Zero, sign and overflow flag. -/
abbrev Flags := Bool × Bool × Bool

/-- The flags of a condition code. -/
def ccFlags (cc : CC) : Flags := (getZf cc, getSf cc, getOf cc)

/-- A rule for the flags that an operation sets, which may leave some operands out. -/
abbrev FlagRule := Alu → Long → Long → Option Flags

/-- The flags that `compute_cc` sets. -/
def ccRule : FlagRule := fun op a b =>
  some (ccFlags (computeCc (some op) a b (computeAlu (some op) a b)))

/-- The flags of Y86-64, on the operands on which `compute_cc` gets them right. -/
def y86Rule : FlagRule := fun op a b =>
  if CcExact op a b then
    some (Ref.alu op a b = 0, (Ref.alu op a b).toInt < 0, overflows op a b)
  else none

/-- The flags after an instruction. -/
def FlagRule.after (rule : FlagRule) (s : Ref.State) : Ref.Instr → Option Flags
  | .opq op rA rB => rule op (s.reg rA) (s.reg rB)
  | _ => some (s.zf, s.sf, s.of)

/-- A state with other flags. -/
def withFlags (s : Ref.State) (f : Flags) : Ref.State :=
  { s with zf := f.1, sf := f.2.1, of := f.2.2 }

/-! ## Steps -/

/-- The instructions that write memory. -/
def writes : Ref.Instr → Bool
  | .rmmovq .. | .call _ | .pushq _ => true
  | _ => false

/-- An access that the machine gives a meaning to: the bound check of its address does not
overflow, and if it writes then not into an instruction. -/
structure Allowed (prog : List SrcLine) (s : Ref.State) (i : Ref.Instr) (a : Long) : Prop where
  noWrap : NoWrap a
  apart : writes i = true → a.toNat + 8 ≤ s.len → ∀ k < 8, isCode prog (a.toNat + k) = false

instance (prog : List SrcLine) (s : Ref.State) (i : Ref.Instr) (a : Long) :
    Decidable (Allowed prog s i a) :=
  decidable_of_iff (¬ (2 ^ 63 - 9 < a.toInt) ∧ (writes i = true → a.toNat + 8 ≤ s.len →
    ∀ k < 8, isCode prog (a.toNat + k) = false)) ⟨fun h => ⟨h.1, h.2⟩, fun h => ⟨h.1, h.2⟩⟩

/-- The data access of an instruction is allowed, if it makes one. -/
def AccessOk (prog : List SrcLine) (s : Ref.State) (i : Ref.Instr) : Prop :=
  ∀ a ∈ Ref.dataAddr s i, Allowed prog s i a

instance (prog : List SrcLine) (s : Ref.State) (i : Ref.Instr) : Decidable (AccessOk prog s i) :=
  match h : Ref.dataAddr s i with
  | none => .isTrue fun a ha => by rw [h] at ha; cases ha
  | some a => decidable_of_iff (Allowed prog s i a) <| by simp [AccessOk, h]

/-- The effect of an instruction that is followed by the address `valP`. -/
def textExec (rule : FlagRule) (s : Ref.State) (i : Ref.Instr) (valP : Long) :
    Option (Stat × Ref.State) :=
  (rule.after s i).map fun f =>
    if (Ref.exec s i valP).1 = .aok then (.aok, withFlags (Ref.exec s i valP).2 f)
    else ((Ref.exec s i valP).1, s)

/-- One step. -/
def textStep (rule : FlagRule) (prog : List SrcLine) (s : Ref.State) : Option (Stat × Ref.State) :=
  ((instrs 0 prog).lookup s.pc.toNat).bind fun i =>
    if AccessOk prog s (i.resolve (symbols prog)) then
      textExec rule s (i.resolve (symbols prog)) (s.pc + BitVec.ofNat 64 i.size)
    else none

/-- The state in which a program starts: its image is at the start of memory, and all else is
zero. -/
def textInit (prog : List SrcLine) : Ref.State where
  pc := 0
  reg := fun _ => 0
  mem := fun x => (image prog).getD x 0
  len := 8192
  zf := true
  sf := false
  of := false

/-- A run of at most `k` steps: the number of steps, the last status and the last state. -/
def textRun (rule : FlagRule) (prog : List SrcLine) (k : ℕ) : Option (ℕ × Stat × Ref.State) :=
  Simulation.runPart .aok (textStep rule prog) k 0 .aok (textInit prog)

end Y64.Asm
