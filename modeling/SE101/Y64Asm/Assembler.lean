import SE101.Y64Asm.Lexer

set_option relaxedAutoImplicit false
set_option autoImplicit false

/-!
# The Y64 assembler

The three passes of `y64asm.c` over its global tables: `assemble` reads the source and parses
every line with `parse_line`, `relocate` resolves symbols, and `binfile` writes the image.

## Main definitions

* `Y64.Asm.LineT`, `SymbolT`, `RelocT`, `State` — a line, the tables, and all of the globals.
* `Y64.Asm.parseLine`, `assemble` — the first pass.
* `Y64.Asm.relocate`, `binfile` — the second pass and the output.

## Design

A relocation entry points to the `y64bin` of a line; here it holds the index of the line.
`Stop` has the ways in which the program ends before its output: `TYPE_ERR`, the trap of a
division that has no quotient, and a write below the line buffer. What the program reads
without having written it is the `Env`. The image is indexed by 64-bit offsets, so `binfile`
copies a line with an arbitrary address to where C pointer arithmetic would put it, and the
output is what that leaves in the first `filesize` bytes.
-/

namespace Y64.Asm

open LittleEndian

/-! ## Data -/

/-- `type_t`, without `TYPE_ERR`, for which see `Stop`. -/
inductive TypeT
  | comm | ins
  deriving DecidableEq, Repr

/-- `bin_t`. -/
structure BinT where
  /-- Address of the first byte. -/
  addr : Long
  /-- The bytes. -/
  codes : Memory
  /-- Number of valid bytes. -/
  bytes : ℕ

/-- `line_t`. -/
structure LineT where
  /-- Whether the line has a `y64bin`. -/
  type : TypeT
  /-- The code of the line. -/
  y64bin : BinT
  /-- The source of the line. -/
  y64asm : Chars

/-- `symbol_t`. -/
structure SymbolT where
  /-- The name. -/
  name : Chars
  /-- The address. -/
  addr : Long
  deriving DecidableEq

/-- `reloc_t`. -/
structure RelocT where
  /-- Index of the line whose `y64bin` refers to the symbol. -/
  y64bin : ℕ
  /-- The name of the symbol. -/
  name : Chars
  deriving DecidableEq

/-- The globals. -/
structure State where
  /-- The lines behind `line_head`. -/
  lines : List LineT
  /-- `symtab`. -/
  symtab : List SymbolT
  /-- `reltab`. -/
  reltab : List RelocT
  /-- `vmaddr`. -/
  vmaddr : Long

/-- The globals after `init`. -/
def State.init : State := ⟨[], [], [], 0⟩

/-- What the program reads without having written it. -/
structure Env where
  /-- The buffer that `parse_label` gets on a line. -/
  labelBuf : ℕ → Buffer
  /-- The buffer that `parse_symbol` gets on a line. -/
  symbolBuf : ℕ → Buffer
  /-- The byte before `asm_buf`. -/
  before : Char

/-- `MAX_INSLEN`. -/
def maxInslen : ℕ := 512

/-- The environment in which everything that is read without having been written is zero. -/
def Env.zero : Env where
  labelBuf _ := List.replicate maxInslen '\x00'
  symbolBuf _ := List.replicate maxInslen '\x00'
  before := '\x00'

/-- The ways to end without output. -/
inductive Stop
  | err | sigfpe | underflow
  deriving DecidableEq, Repr

/-- The value of a parser, or the error of the line. -/
def orErr {α : Type} : Option α → Except Stop α
  | some a => .ok a
  | none => .error .err

/-! ## Symbols -/

/-- `find_symbol`. -/
def findSymbol (symtab : List SymbolT) (name : Chars) : Option SymbolT :=
  symtab.find? fun tempsym => tempsym.name == name

/-- `add_symbol`, and the address that `parse_line` then sets. -/
def addSymbol (st : State) (name : Chars) : Option State :=
  if (findSymbol st.symtab name).isSome then none
  else some { st with symtab := st.symtab ++ [⟨name, st.vmaddr⟩] }

/-- `add_reloc`. -/
def addReloc (st : State) (name : Chars) (bin : ℕ) : State :=
  { st with reltab := st.reltab ++ [⟨bin, name⟩] }

/-! ## Lines -/

/-- What `parse_line` works on behind the instruction: the globals, the code of the line, and
`templine`. -/
abbrev Parsed := State × BinT × Chars

/-- `memcpy(codes + pos, &value, n)`. -/
def BinT.put (b : BinT) (pos n : ℕ) (value : Long) : BinT :=
  { b with codes := store b.codes pos n value.toNat }

/-- `codes[1] = HPACK(hi,lo)`. -/
def BinT.putRegs (b : BinT) (hi lo : RegId) : BinT :=
  { b with codes := Function.update b.codes 1 (hpack hi.code lo.code) }

/-- The operands `rega, regb` of `I_RRMOVQ` and `I_ALU`. -/
def parseRegReg (st : State) (b : BinT) (s : Chars) : Except Stop Parsed := do
  let (rega, s) ← orErr (parseReg s)
  let s ← orErr (parseDelim ',' s)
  let (regb, s) ← orErr (parseReg s)
  return (st, b.putRegs (some rega) (some regb), s)

/-- A value: a number is put into the code, a symbol into the relocation table. -/
def putValue (idx : ℕ) (st : State) (b : BinT) (pos n : ℕ) : Value → State × BinT
  | .digit value => (st, b.put pos n value)
  | .symbol name => (addReloc st name idx, b)

/-- The operand of `.byte`, `.word`, `.long` and `.quad`, `n` bytes wide. -/
def parseDataN (env : Env) (idx n : ℕ) (st : State) (b : BinT) (s : Chars) :
    Except Stop Parsed := do
  let (value, s) ← orErr (parseData (env.symbolBuf idx) s)
  let (st, b) := putValue idx st b 0 n value
  return (st, b, s)

/-- `vmaddr % value`. The processor traps when there is no quotient. -/
def cMod (vmaddr value : Long) : Except Stop Long :=
  if value = 0 ∨ (vmaddr = BitVec.intMin 64 ∧ value = -1) then .error .sigfpe
  else .ok (vmaddr.srem value)

/-- The `case I_DIRECTIVE` of `parse_line`. -/
def parseDirective (env : Env) (idx : ℕ) (inst : InstrT) (st : State) (b : BinT) (s : Chars) :
    Except Stop Parsed :=
  if inst.name = ['.', 'p', 'o', 's'] then do
    let (value, s) ← orErr (parseDigit s)
    return ({ st with vmaddr := value }, { b with addr := value }, s)
  else if inst.name = ['.', 'a', 'l', 'i', 'g', 'n'] then do
    let (value, s) ← orErr (parseDigit s)
    let r ← cMod st.vmaddr value
    if r ≠ 0 then
      let vmaddr := st.vmaddr + (value - r)
      return ({ st with vmaddr }, { b with addr := vmaddr }, s)
    else return (st, b, s)
  else if inst.name = ['.', 'b', 'y', 't', 'e'] then parseDataN env idx 1 st b s
  else if inst.name = ['.', 'w', 'o', 'r', 'd'] then parseDataN env idx 2 st b s
  else if inst.name = ['.', 'l', 'o', 'n', 'g'] then parseDataN env idx 4 st b s
  else if inst.name = ['.', 'q', 'u', 'a', 'd'] then parseDataN env idx 8 st b s
  else .error .err

/-- The `switch` of `parse_line`. -/
def parseOperands (env : Env) (idx : ℕ) (inst : InstrT) (st : State) (b : BinT) (s : Chars) :
    Except Stop Parsed :=
  match IType.ofCode (high inst.code) with
  | some .halt | some .nop | some .ret => .ok (st, b, s)
  | some .rrmovq => parseRegReg st b s
  | some .irmovq => do
    let (value, s) ← orErr (parseImm (env.symbolBuf idx) s)
    let (st, b) := putValue idx st b 2 8 value
    let s ← orErr (parseDelim ',' s)
    let (regb, s) ← orErr (parseReg s)
    return (st, b.putRegs none (some regb), s)
  | some .rmmovq => do
    let (rega, s) ← orErr (parseReg s)
    let s ← orErr (parseDelim ',' s)
    let (value, regb, s) ← orErr (parseMem s)
    return (st, (b.putRegs (some rega) (some regb)).put 2 8 value, s)
  | some .mrmovq => do
    let (value, rega, s) ← orErr (parseMem s)
    let s ← orErr (parseDelim ',' s)
    let (regb, s) ← orErr (parseReg s)
    return (st, (b.putRegs (some regb) (some rega)).put 2 8 value, s)
  | some .alu => parseRegReg st b s
  | some .jmp | some .call => do
    let (name, s) ← orErr (parseSymbol (env.symbolBuf idx) s)
    return (addReloc st name idx, b, s)
  | some .pushq | some .popq => do
    let (rega, s) ← orErr (parseReg s)
    return (st, b.putRegs (some rega) none, s)
  | some .directive => parseDirective env idx inst st b s
  | none => .error .err

/-- The `y64bin` of a new line. -/
def BinT.zero : BinT := ⟨0, fun _ => 0, 0⟩

/-- `parse_line` from `/* is an instruction ? */` on. -/
def parseInstrLine (env : Env) (idx : ℕ) (y64asm : Chars) (st : State) (s : Chars) :
    Except Stop (LineT × State) := do
  let (inst, s) ← orErr (parseInstr s)
  let b : BinT := ⟨st.vmaddr, Function.update (fun _ => 0) 0 inst.code, inst.bytes⟩
  let st := { st with vmaddr := st.vmaddr + BitVec.ofNat 64 inst.bytes }
  let (st, b, s) ← parseOperands env idx inst st b s
  if isEndOrComment (skipBlank s) then return (⟨.ins, b, y64asm⟩, st) else .error .err

/-- `parse_line`, for the line that will have index `idx`. -/
def parseLine (env : Env) (idx : ℕ) (y64asm : Chars) (st : State) :
    Except Stop (LineT × State) :=
  let s := skipBlank y64asm
  if isEndOrComment s then .ok (⟨.comm, .zero, y64asm⟩, st)
  else
    match parseLabel (env.labelBuf idx) s with
    | some (name, s) => do
      let st ← orErr (addSymbol st name)
      if isEndOrComment (skipBlank s) then
        return (⟨.ins, { BinT.zero with addr := st.vmaddr }, y64asm⟩, st)
      else parseInstrLine env idx y64asm st (skipBlank s)
    | none => parseInstrLine env idx y64asm st s

/-! ## The first pass -/

/-- The characters that `fgets` reads when it has room for `n`, and the rest of the input. -/
def fgets : ℕ → Chars → Chars × Chars
  | 0, input => ([], input)
  | _ + 1, [] => ([], [])
  | n + 1, c :: input =>
    if c = '\n' then ([c], input)
    else (c :: (fgets n input).1, (fgets n input).2)

/-- The part of a buffer that is a C string. -/
def cstr (buf : Chars) : Chars := buf.takeWhile (· ≠ '\x00')

/-- The characters that `assemble` strips. -/
def isTerminator (c : Char) : Bool := c == '\n' || c == '\r'

/-- The loop of `assemble` that replaces terminators. The argument is `asm_buf[slen-1]`, …,
`asm_buf[0]`; with `slen = 0` the loop tests the byte before the buffer. -/
def stripLoop (before : Char) : Chars → Except Stop Chars
  | [] => if isTerminator before then .error .underflow else .ok []
  | c :: rev => if isTerminator c then stripLoop before rev else .ok (c :: rev)

/-- The line in `asm_buf` without its terminators. -/
def strip (before : Char) (asmBuf : Chars) : Except Stop Chars :=
  (stripLoop before asmBuf.reverse).map List.reverse

/-- The body of the loop of `assemble`, after `fgets` has filled `asm_buf`. -/
def assembleLine (env : Env) (asmBuf : Chars) (st : State) : Except Stop State := do
  let y64asm ← strip env.before (cstr asmBuf)
  let (line, st) ← parseLine env st.lines.length y64asm st
  return { st with lines := st.lines ++ [line] }

/-- The loop of `assemble`, `fuel` times at most. -/
def assembleLoop (env : Env) : ℕ → Chars → State → Except Stop State
  | 0, _, st => .ok st
  | fuel + 1, input, st =>
    match fgets (maxInslen - 1) input with
    | ([], _) => .ok st
    | (asmBuf, input) => do
      let st ← assembleLine env asmBuf st
      assembleLoop env fuel input st

/-- `assemble`. Every turn of the loop takes at least one character of the input. -/
def assemble (env : Env) (input : Chars) : Except Stop State :=
  assembleLoop env (input.length + 1) input .init

/-! ## The second pass -/

/-- The `switch` of `relocate`: the code of a line after its symbol has been put into it. -/
def patch (b : BinT) (addr : Long) : BinT :=
  match IType.ofCode (high (b.codes 0)) with
  | some .irmovq | some .jmp | some .call => b.put (b.bytes - 8) 8 addr
  | some .directive =>
    if b.bytes = 1 then b.put (b.bytes - 1) 1 addr
    else if b.bytes = 2 then b.put (b.bytes - 2) 2 addr
    else if b.bytes = 4 then b.put (b.bytes - 4) 4 addr
    else if b.bytes = 8 then b.put (b.bytes - 8) 8 addr
    else b
  | _ => b

/-- The line after its symbol has been put into its code. -/
def LineT.patch (line : LineT) (addr : Long) : LineT :=
  { line with y64bin := Asm.patch line.y64bin addr }

/-- The loop of `relocate`. -/
def relocateLoop (symtab : List SymbolT) : List RelocT → List LineT → Option (List LineT)
  | [], lines => some lines
  | rtmp :: reltab, lines =>
    match findSymbol symtab rtmp.name with
    | none => none
    | some tempsym =>
      relocateLoop symtab reltab (lines.modify rtmp.y64bin (LineT.patch · tempsym.addr))

/-- `relocate`. -/
def relocate (st : State) : Option (List LineT) := relocateLoop st.symtab st.reltab st.lines

/-! ## Output -/

/-- The lines that `binfile` looks at. -/
def LineT.emits (line : LineT) : Bool := line.type == .ins && 0 < line.y64bin.bytes

/-- `addr + bytes`, narrowed to an `int`. -/
def BinT.endInt (b : BinT) : ℤ := ((b.addr + BitVec.ofNat 64 b.bytes).setWidth 32).toInt

/-- The loop of `binfile` that computes `filesize`. -/
def filesize (lines : List LineT) : ℤ :=
  lines.foldl (fun filesize line => if line.emits then line.y64bin.endInt else filesize) 0

/-- The bytes from the start of the image on, by 64-bit offset. -/
abbrev Image := Long → Byte

/-- `memcpy(image + addr, codes, bytes)`. -/
def memcpyCodes (image : Image) (b : BinT) : Image := fun x =>
  if (x - b.addr).toNat < b.bytes then b.codes (x - b.addr).toNat else image x

/-- The loop of `binfile` that fills the image. -/
def fillImage (lines : List LineT) : Image :=
  lines.foldl (fun image line => if line.emits then memcpyCodes image line.y64bin else image)
    fun _ => 0

/-- `binfile`; `none` when `malloc` is asked for a negative size. A `memcpy` may write outside the
image. This is no outcome of its own: such bytes are not in the file (`Y64.Asm.InImage`). -/
def binfile (lines : List LineT) : Option (List Byte) :=
  if filesize lines < 0 then none
  else some ((List.range (filesize lines).toNat).map fun i =>
    fillImage lines (BitVec.ofNat 64 i))

/-- `main`: the output file for a source file, if there is one. -/
def yas (env : Env) (input : Chars) : Option (List Byte) :=
  match assemble env input with
  | .error _ => none
  | .ok st => (relocate st).bind binfile

end Y64.Asm
