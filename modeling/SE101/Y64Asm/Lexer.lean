import SE101.Lib.Scan
import SE101.Y64.Isa

set_option relaxedAutoImplicit false
set_option autoImplicit false

/-!
# The tokens of Y64 assembly

The tables of `y64asm.c` and its functions `parse_instr`, `parse_delim`, `parse_reg`,
`parse_symbol`, `parse_digit`, `parse_imm`, `parse_mem`, `parse_data` and `parse_label`.

A `char *` into a line is the list of the characters from there to the terminator, so the end
of the list is the terminator and a step of the pointer drops one character. A function that
returns `PARSE_ERR` is `none`; otherwise its value has the new pointer as last component.

## Main definitions

* `Y64.Asm.regTable`, `Y64.Asm.instrSet`, `findRegister`, `findInstr` — the tables.
* `Y64.Asm.strtoul` — the C function at base `0`.
* `Y64.Asm.parseInstr` and its eight siblings.

## Design

`parse_symbol` and `parse_label` copy a token into a buffer that they do not clear, so the C
string they return may go on with what `malloc` left there: `Buffer` is that content and
`nameIn` the string.
-/

namespace Y64.Asm

/-- A C string, or the part of one that a pointer has not passed yet. -/
abbrev Chars := List Char

/-! ## Character classes -/

/-- `IS_DIGIT`. -/
def isDigit (c : Char) : Bool := ('0' ≤ c && c ≤ '9') || c == '-' || c == '+'

/-- `IS_LETTER`. -/
def isLetter (c : Char) : Bool := ('a' ≤ c && c ≤ 'z') || ('A' ≤ c && c ≤ 'Z')

/-- `IS_BLANK`. -/
def isBlank (c : Char) : Bool := c == ' ' || c == '\t'

/-- `isspace` of the C locale. -/
def isSpace (c : Char) : Bool := c == ' ' || (9 ≤ c.toNat && c.toNat ≤ 13)

/-- The characters that the loops over a name or a register go through. -/
def isName (c : Char) : Bool := isLetter c || isDigit c

/-- `SKIP_BLANK`. -/
def skipBlank (s : Chars) : Chars := s.dropWhile isBlank

/-- `IS_END(s) || IS_COMMENT(s)`. -/
def isEndOrComment (s : Chars) : Bool := s.head?.all (· == '#')

/-- `strncmp(s, t, n) == 0`, for strings without terminators inside. -/
def strncmpEq (s t : Chars) (n : ℕ) : Bool := s.take n == t.take n

/-! ## Tables -/

/-- `reg_t`. -/
structure RegT where
  /-- The name, with its percent sign. -/
  name : Chars
  /-- The register. -/
  id : Reg
  /-- Number of characters that are compared. -/
  namelen : ℕ
  deriving DecidableEq

/-- `reg_table`. -/
def regTable : List RegT :=
  [⟨['%', 'r', 'a', 'x'], .rax, 4⟩, ⟨['%', 'r', 'c', 'x'], .rcx, 4⟩,
   ⟨['%', 'r', 'd', 'x'], .rdx, 4⟩, ⟨['%', 'r', 'b', 'x'], .rbx, 4⟩,
   ⟨['%', 'r', 's', 'p'], .rsp, 4⟩, ⟨['%', 'r', 'b', 'p'], .rbp, 4⟩,
   ⟨['%', 'r', 's', 'i'], .rsi, 4⟩, ⟨['%', 'r', 'd', 'i'], .rdi, 4⟩,
   ⟨['%', 'r', '8'], .r8, 3⟩, ⟨['%', 'r', '9'], .r9, 3⟩,
   ⟨['%', 'r', '1', '0'], .r10, 4⟩, ⟨['%', 'r', '1', '1'], .r11, 4⟩,
   ⟨['%', 'r', '1', '2'], .r12, 4⟩, ⟨['%', 'r', '1', '3'], .r13, 4⟩,
   ⟨['%', 'r', '1', '4'], .r14, 4⟩]

/-- `find_register`. -/
def findRegister (name : Chars) : Option RegT :=
  regTable.find? fun r => strncmpEq name r.name r.namelen

/-- `dtv_t`. -/
inductive Dtv
  | data | pos | align
  deriving DecidableEq, Repr

/-- The value of a directive in its C enumeration. -/
def Dtv.code : Dtv → ℕ
  | .data => 0 | .pos => 1 | .align => 2

/-- `F_NONE`. -/
def fNone : ℕ := 0

/-- `instr_t`. -/
structure InstrT where
  /-- The mnemonic. -/
  name : Chars
  /-- Number of characters that are compared and passed. -/
  len : ℕ
  /-- The first byte of the encoding. -/
  code : Byte
  /-- The size of the encoding. -/
  bytes : ℕ
  deriving DecidableEq

/-- `instr_set`, without the entry that marks its end. -/
def instrSet : List InstrT :=
  [⟨['n', 'o', 'p'], 3, hpack IType.nop.code fNone, 1⟩,
   ⟨['h', 'a', 'l', 't'], 4, hpack IType.halt.code fNone, 1⟩,
   ⟨['r', 'r', 'm', 'o', 'v', 'q'], 6, hpack IType.rrmovq.code fNone, 2⟩,
   ⟨['c', 'm', 'o', 'v', 'l', 'e'], 6, hpack IType.rrmovq.code Cond.le.code, 2⟩,
   ⟨['c', 'm', 'o', 'v', 'l'], 5, hpack IType.rrmovq.code Cond.l.code, 2⟩,
   ⟨['c', 'm', 'o', 'v', 'e'], 5, hpack IType.rrmovq.code Cond.e.code, 2⟩,
   ⟨['c', 'm', 'o', 'v', 'n', 'e'], 6, hpack IType.rrmovq.code Cond.ne.code, 2⟩,
   ⟨['c', 'm', 'o', 'v', 'g', 'e'], 6, hpack IType.rrmovq.code Cond.ge.code, 2⟩,
   ⟨['c', 'm', 'o', 'v', 'g'], 5, hpack IType.rrmovq.code Cond.g.code, 2⟩,
   ⟨['i', 'r', 'm', 'o', 'v', 'q'], 6, hpack IType.irmovq.code fNone, 10⟩,
   ⟨['r', 'm', 'm', 'o', 'v', 'q'], 6, hpack IType.rmmovq.code fNone, 10⟩,
   ⟨['m', 'r', 'm', 'o', 'v', 'q'], 6, hpack IType.mrmovq.code fNone, 10⟩,
   ⟨['a', 'd', 'd', 'q'], 4, hpack IType.alu.code Alu.add.code, 2⟩,
   ⟨['s', 'u', 'b', 'q'], 4, hpack IType.alu.code Alu.sub.code, 2⟩,
   ⟨['a', 'n', 'd', 'q'], 4, hpack IType.alu.code Alu.and.code, 2⟩,
   ⟨['x', 'o', 'r', 'q'], 4, hpack IType.alu.code Alu.xor.code, 2⟩,
   ⟨['j', 'm', 'p'], 3, hpack IType.jmp.code Cond.yes.code, 9⟩,
   ⟨['j', 'l', 'e'], 3, hpack IType.jmp.code Cond.le.code, 9⟩,
   ⟨['j', 'l'], 2, hpack IType.jmp.code Cond.l.code, 9⟩,
   ⟨['j', 'e'], 2, hpack IType.jmp.code Cond.e.code, 9⟩,
   ⟨['j', 'n', 'e'], 3, hpack IType.jmp.code Cond.ne.code, 9⟩,
   ⟨['j', 'g', 'e'], 3, hpack IType.jmp.code Cond.ge.code, 9⟩,
   ⟨['j', 'g'], 2, hpack IType.jmp.code Cond.g.code, 9⟩,
   ⟨['c', 'a', 'l', 'l'], 4, hpack IType.call.code fNone, 9⟩,
   ⟨['r', 'e', 't'], 3, hpack IType.ret.code fNone, 1⟩,
   ⟨['p', 'u', 's', 'h', 'q'], 5, hpack IType.pushq.code fNone, 2⟩,
   ⟨['p', 'o', 'p', 'q'], 4, hpack IType.popq.code fNone, 2⟩,
   ⟨['.', 'b', 'y', 't', 'e'], 5, hpack IType.directive.code Dtv.data.code, 1⟩,
   ⟨['.', 'w', 'o', 'r', 'd'], 5, hpack IType.directive.code Dtv.data.code, 2⟩,
   ⟨['.', 'l', 'o', 'n', 'g'], 5, hpack IType.directive.code Dtv.data.code, 4⟩,
   ⟨['.', 'q', 'u', 'a', 'd'], 5, hpack IType.directive.code Dtv.data.code, 8⟩,
   ⟨['.', 'p', 'o', 's'], 4, hpack IType.directive.code Dtv.pos.code, 0⟩,
   ⟨['.', 'a', 'l', 'i', 'g', 'n'], 6, hpack IType.directive.code Dtv.align.code, 0⟩]

/-- `find_instr`. -/
def findInstr (name : Chars) : Option InstrT :=
  instrSet.find? fun i => strncmpEq i.name name i.len

/-! ## Integer literals -/

/-- The value of a character as a digit, in any base up to 36. -/
def digitVal (c : Char) : Option ℕ :=
  if '0' ≤ c ∧ c ≤ '9' then some (c.toNat - '0'.toNat)
  else if 'a' ≤ c ∧ c ≤ 'z' then some (c.toNat - 'a'.toNat + 10)
  else if 'A' ≤ c ∧ c ≤ 'Z' then some (c.toNat - 'A'.toNat + 10)
  else none

/-- Whether a character is a digit of a base. -/
def isDigitOf (base : ℕ) (c : Char) : Bool := (digitVal c).any (· < base)

/-- The number that digits denote. -/
def digitsVal (base : ℕ) (ds : Chars) : ℕ :=
  ds.foldl (fun v c => v * base + (digitVal c).getD 0) 0

/-- The sign of a literal, and what follows it. -/
def strtoulSign : Chars → Bool × Chars
  | '-' :: s => (true, s)
  | '+' :: s => (false, s)
  | s => (false, s)

/-- Whether a text goes on like a hexadecimal literal behind its first zero. -/
def isHexRest : Chars → Bool
  | x :: d :: _ => (x == 'x' || x == 'X') && isDigitOf 16 d
  | _ => false

/-- The base of a literal, and its digits with what follows them. -/
def strtoulBase : Chars → ℕ × Chars
  | '0' :: s => if isHexRest s then (16, s.tail) else (8, '0' :: s)
  | s => (10, s)

/-- `ULONG_MAX`. -/
def ulongMax : Long := -1

/-- `strtoul(s, &endptr, 0)`: the value as a `long`, and `endptr`. -/
def strtoul (s : Chars) : Long × Chars :=
  let (neg, s₁) := strtoulSign (s.dropWhile isSpace)
  let (base, s₂) := strtoulBase s₁
  let ds := s₂.takeWhile (isDigitOf base)
  let v := digitsVal base ds
  if ds = [] then (0, s)
  else if v < 2 ^ 64 then
    (if neg then -BitVec.ofNat 64 v else BitVec.ofNat 64 v, s₂.dropWhile (isDigitOf base))
  else (ulongMax, s₂.dropWhile (isDigitOf base))

/-! ## Names -/

/-- The `MAX_INSLEN` bytes that a call of `malloc` returned, as it left them. -/
abbrev Buffer := Chars

/-- The C string in a buffer after `token` has been copied to its start. -/
def nameIn (buf : Buffer) (token : Chars) : Chars :=
  token ++ (buf.drop token.length).takeWhile (· ≠ '\x00')

/-! ## Token parsers -/

/-- `parse_instr`. The token is read with `sscanf`, which skips more than the pointer does. -/
def parseInstr (s : Chars) : Option (InstrT × Chars) :=
  let s := skipBlank s
  let tempinstr := (s.dropWhile isSpace).takeWhile fun c => !isSpace c
  (findInstr tempinstr).map fun inst => (inst, s.drop inst.len)

/-- `parse_delim`. -/
def parseDelim (delim : Char) (s : Chars) : Option Chars :=
  match skipBlank s with
  | c :: s => if c = delim then some s else none
  | [] => none

/-- `parse_reg`. -/
def parseReg (s : Chars) : Option (Reg × Chars) :=
  match skipBlank s with
  | '%' :: s =>
    let tempinstr := '%' :: s.takeWhile isName
    (findRegister tempinstr).map fun tempreg => (tempreg.id, s.dropWhile isName)
  | _ => none

/-- `parse_symbol`. -/
def parseSymbol (buf : Buffer) (s : Chars) : Option (Chars × Chars) :=
  let s := skipBlank s
  if s.head?.any isLetter then some (nameIn buf (s.takeWhile isName), s.dropWhile isName)
  else none

/-- `parse_digit`. -/
def parseDigit (s : Chars) : Option (Long × Chars) :=
  let s := skipBlank s
  if s.head?.any isDigit then some (strtoul s) else none

/-- What `parse_imm` and `parse_data` return: `PARSE_DIGIT` with a value or `PARSE_SYMBOL` with
a name. -/
inductive Value
  | digit (value : Long)
  | symbol (name : Chars)
  deriving DecidableEq

/-- `parse_imm`. -/
def parseImm (buf : Buffer) (s : Chars) : Option (Value × Chars) :=
  match skipBlank s with
  | '$' :: s =>
    if s.head?.any isDigit then some (.digit (strtoul s).1, (strtoul s).2) else none
  | s =>
    if s.head?.any isLetter then (parseSymbol buf s).map fun (name, s) => (.symbol name, s)
    else none

/-- The displacement of `parse_mem`. -/
def parseDisp (s : Chars) : Option (Long × Chars) :=
  match s with
  | '(' :: _ => some (0, s)
  | _ => parseDigit s

/-- `parse_mem`. -/
def parseMem (s : Chars) : Option (Long × Reg × Chars) := do
  let (value, s) ← parseDisp (skipBlank s)
  match s with
  | '(' :: s => do
    let (regid, s) ← parseReg s
    match s with
    | ')' :: s => some (value, regid, s)
    | _ => none
  | _ => none

/-- `parse_data`. -/
def parseData (buf : Buffer) (s : Chars) : Option (Value × Chars) :=
  let s := skipBlank s
  if s.head?.any isDigit then some (.digit (strtoul s).1, (strtoul s).2)
  else if s.head?.any isLetter then
    (parseSymbol buf s).map fun (name, s) => (.symbol name, s)
  else none

/-- `parse_label`. -/
def parseLabel (buf : Buffer) (s : Chars) : Option (Chars × Chars) :=
  let s := skipBlank s
  if s.head?.any isLetter then
    match s.dropWhile isName with
    | ':' :: rest => some (nameIn buf (s.takeWhile isName), rest)
    | _ => none
  else none

end Y64.Asm
