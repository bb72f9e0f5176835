import SE101.Y64.Encoding
import SE101.Y64Asm.Lexer

set_option relaxedAutoImplicit false
set_option autoImplicit false

/-!
# Y64 source programs and their reference assembler

The documented form of a source line, `[label:] [mnemonic operands] [#comment]`, as a relation
between a line of text and what it means, and a two-pass assembler on the meanings. The first
pass binds every label to the location counter at the start of its line, and the second one
puts the code of every line at its location.

## Main definitions

* `Y64.Asm.SrcInstr`, `Stmt`, `SrcLine` — instructions, statements and lines.
* `Y64.Asm.SrcLine.Text` — how a line may be written.
* `Y64.Asm.IsProgram` — a source text whose lines are written so.
* `Y64.Asm.image` — the reference assembler.

## Design

A numeral is given by its digits, a line by the blanks that it has in each place, so a meaning
has many texts. What a label may look like is a parameter of the relation.
-/

namespace Y64.Asm

open LittleEndian Scan

/-! ## Statements -/

/-- A value in the source: a number or a symbol. -/
inductive Expr
  | lit (v : ℤ)
  | sym (name : Chars)
  deriving DecidableEq

/-- An instruction in the source. -/
inductive SrcInstr
  | halt
  | nop
  | ret
  /-- `rrmovq` and the conditional moves. -/
  | cmov (c : Cond) (src dst : Reg)
  | irmovq (v : Expr) (dst : Reg)
  | rmmovq (src : Reg) (disp : ℤ) (base : Reg)
  | mrmovq (disp : ℤ) (base dst : Reg)
  | opq (op : Alu) (src dst : Reg)
  | jmp (c : Cond) (dest : Chars)
  | call (dest : Chars)
  | pushq (src : Reg)
  | popq (dst : Reg)
  deriving DecidableEq

/-- The data directives. -/
inductive Width
  | byte | word | long | quad
  deriving DecidableEq

/-- The size of a datum. -/
def Width.bytes : Width → ℕ
  | .byte => 1 | .word => 2 | .long => 4 | .quad => 8

/-- A statement. -/
inductive Stmt
  | instr (i : SrcInstr)
  | data (w : Width) (v : Expr)
  | pos (v : ℤ)
  | align (n : ℤ)
  deriving DecidableEq

/-- A line: what stands before its comment. -/
structure SrcLine where
  /-- The label. -/
  label : Option Chars
  /-- The statement. -/
  stmt : Option Stmt
  deriving DecidableEq

/-! ## Meaning -/

/-- The symbol that a value refers to. -/
def Expr.symbol : Expr → Option Chars
  | .lit _ => none
  | .sym name => some name

/-- A value, where symbols have the addresses `sym`. -/
def Expr.value (sym : Chars → Long) : Expr → Long
  | .lit v => BitVec.ofInt 64 v
  | .sym name => sym name

/-- The symbol that an instruction refers to. -/
def SrcInstr.symbol : SrcInstr → Option Chars
  | .irmovq v _ => v.symbol
  | .jmp _ dest | .call dest => some dest
  | .halt | .nop | .ret | .cmov .. | .rmmovq .. | .mrmovq .. | .opq .. | .pushq _
  | .popq _ => none

/-- An instruction with its symbol resolved. -/
def SrcInstr.resolve (sym : Chars → Long) : SrcInstr → Ref.Instr
  | .halt => .halt
  | .nop => .nop
  | .ret => .ret
  | .cmov c src dst => .cmov c src dst
  | .irmovq v dst => .irmovq (v.value sym) dst
  | .rmmovq src disp base => .rmmovq src (BitVec.ofInt 64 disp) base
  | .mrmovq disp base dst => .mrmovq (BitVec.ofInt 64 disp) base dst
  | .opq op src dst => .opq op src dst
  | .jmp c dest => .jmp c (sym dest)
  | .call dest => .call (sym dest)
  | .pushq src => .pushq src
  | .popq dst => .popq dst

/-- The symbol that a statement refers to. -/
def Stmt.symbol : Stmt → Option Chars
  | .instr i => i.symbol
  | .data _ v => v.symbol
  | .pos _ | .align _ => none

/-- The code of a statement. -/
def Stmt.code (sym : Chars → Long) : Stmt → List Byte
  | .instr i => (i.resolve sym).encode
  | .data w v => digits w.bytes (v.value sym).toNat
  | .pos _ | .align _ => []

/-- The size of the code of a statement. -/
def Stmt.size (s : Stmt) : ℕ := (s.code fun _ => 0).length

/-- The size of an instruction does not depend on the address of its symbol. -/
lemma size_resolve (i : SrcInstr) (sym : Chars → Long) :
    (i.resolve sym).encode.length = (Stmt.instr i).size := by
  cases i <;> rfl

/-- The size of a datum. -/
lemma size_data (w : Width) (v : Expr) : (Stmt.data w v).size = w.bytes := by
  simp [Stmt.size, Stmt.code]

/-- The size of a statement is the length of its code. -/
lemma length_code (s : Stmt) (sym : Chars → Long) : (s.code sym).length = s.size := by
  cases s with
  | instr i => exact size_resolve i sym
  | data w v => rw [size_data]; exact length_digits _ _
  | pos v => rfl
  | align n => rfl

/-! ## Text -/

/-- The classes of names: what a label or a symbol may look like. -/
abbrev NameClass := Chars → Prop

/-- A letter or a digit. -/
def isAlnum (c : Char) : Bool := isLetter c || ('0' ≤ c && c ≤ '9')

/-- Names made of letters and digits. -/
def AlnumName : NameClass := fun s => s ≠ [] ∧ All isAlnum s

/-- Names made of letters and digits that begin with a letter. -/
def LetterName : NameClass := fun s => AlnumName s ∧ s.head?.any isLetter

/-- C integer literals without a sign. -/
inductive Unsigned : Chars → ℕ → Prop
  | dec {d : Char} {ds : Chars} : d ≠ '0' → All (isDigitOf 10) (d :: ds) →
      Unsigned (d :: ds) (digitsVal 10 (d :: ds))
  | oct {ds : Chars} : All (isDigitOf 8) ds → Unsigned ('0' :: ds) (digitsVal 8 ds)
  | hex {x : Char} {ds : Chars} : x = 'x' ∨ x = 'X' → ds ≠ [] → All (isDigitOf 16) ds →
      Unsigned ('0' :: x :: ds) (digitsVal 16 ds)

/-- C integer literals. -/
inductive Literal : Chars → ℤ → Prop
  | plain {s : Chars} {n : ℕ} : Unsigned s n → Literal s n
  | plus {s : Chars} {n : ℕ} : Unsigned s n → Literal ('+' :: s) n
  | minus {s : Chars} {n : ℕ} : Unsigned s n → Literal ('-' :: s) (-n)

/-- Literals that 64 bits can represent, signed or unsigned. -/
def Number (s : Chars) (v : ℤ) : Prop := Literal s v ∧ -2 ^ 63 ≤ v ∧ v < 2 ^ 64

/-- The name of a register. -/
def regName : Reg → Chars
  | .rax => ['%', 'r', 'a', 'x'] | .rcx => ['%', 'r', 'c', 'x'] | .rdx => ['%', 'r', 'd', 'x']
  | .rbx => ['%', 'r', 'b', 'x'] | .rsp => ['%', 'r', 's', 'p'] | .rbp => ['%', 'r', 'b', 'p']
  | .rsi => ['%', 'r', 's', 'i'] | .rdi => ['%', 'r', 'd', 'i'] | .r8 => ['%', 'r', '8']
  | .r9 => ['%', 'r', '9'] | .r10 => ['%', 'r', '1', '0'] | .r11 => ['%', 'r', '1', '1']
  | .r12 => ['%', 'r', '1', '2'] | .r13 => ['%', 'r', '1', '3'] | .r14 => ['%', 'r', '1', '4']

/-- A comma, with blanks around it. -/
def Comma (s : Chars) : Prop := ∃ b₁ b₂, All isBlank b₁ ∧ All isBlank b₂ ∧ s = b₁ ++ ',' :: b₂

section Text

variable (P : NameClass)

/-- The operand of a data directive: a number or a symbol. -/
def Expr.DataText : Expr → Chars → Prop
  | .lit v, s => Number s v
  | .sym name, s => P name ∧ s = name

/-- An immediate operand: a number behind a dollar sign, or a symbol. -/
def Expr.ImmText : Expr → Chars → Prop
  | .lit v, s => ∃ t, Number t v ∧ s = '$' :: t
  | .sym name, s => P name ∧ s = name

/-- A memory operand. -/
def MemText (disp : ℤ) (base : Reg) (s : Chars) : Prop :=
  ∃ t, (Number t disp ∨ t = [] ∧ disp = 0) ∧ s = t ++ '(' :: (regName base ++ [')'])

/-- The mnemonic of an instruction. -/
def SrcInstr.mnemonic : SrcInstr → Chars
  | .halt => ['h', 'a', 'l', 't']
  | .nop => ['n', 'o', 'p']
  | .ret => ['r', 'e', 't']
  | .cmov .yes _ _ => ['r', 'r', 'm', 'o', 'v', 'q']
  | .cmov .le _ _ => ['c', 'm', 'o', 'v', 'l', 'e']
  | .cmov .l _ _ => ['c', 'm', 'o', 'v', 'l']
  | .cmov .e _ _ => ['c', 'm', 'o', 'v', 'e']
  | .cmov .ne _ _ => ['c', 'm', 'o', 'v', 'n', 'e']
  | .cmov .ge _ _ => ['c', 'm', 'o', 'v', 'g', 'e']
  | .cmov .g _ _ => ['c', 'm', 'o', 'v', 'g']
  | .irmovq .. => ['i', 'r', 'm', 'o', 'v', 'q']
  | .rmmovq .. => ['r', 'm', 'm', 'o', 'v', 'q']
  | .mrmovq .. => ['m', 'r', 'm', 'o', 'v', 'q']
  | .opq .add _ _ => ['a', 'd', 'd', 'q']
  | .opq .sub _ _ => ['s', 'u', 'b', 'q']
  | .opq .and _ _ => ['a', 'n', 'd', 'q']
  | .opq .xor _ _ => ['x', 'o', 'r', 'q']
  | .jmp .yes _ => ['j', 'm', 'p']
  | .jmp .le _ => ['j', 'l', 'e']
  | .jmp .l _ => ['j', 'l']
  | .jmp .e _ => ['j', 'e']
  | .jmp .ne _ => ['j', 'n', 'e']
  | .jmp .ge _ => ['j', 'g', 'e']
  | .jmp .g _ => ['j', 'g']
  | .call _ => ['c', 'a', 'l', 'l']
  | .pushq _ => ['p', 'u', 's', 'h', 'q']
  | .popq _ => ['p', 'o', 'p', 'q']

/-- The operands of an instruction. -/
def SrcInstr.Operands : SrcInstr → Chars → Prop
  | .halt, s | .nop, s | .ret, s => s = []
  | .cmov _ src dst, s | .opq _ src dst, s =>
    ∃ k, Comma k ∧ s = regName src ++ (k ++ regName dst)
  | .irmovq v dst, s => ∃ t k, v.ImmText P t ∧ Comma k ∧ s = t ++ (k ++ regName dst)
  | .rmmovq src disp base, s =>
    ∃ k t, Comma k ∧ MemText disp base t ∧ s = regName src ++ (k ++ t)
  | .mrmovq disp base dst, s =>
    ∃ t k, MemText disp base t ∧ Comma k ∧ s = t ++ (k ++ regName dst)
  | .jmp _ dest, s | .call dest, s => P dest ∧ s = dest
  | .pushq r, s | .popq r, s => s = regName r

/-- The mnemonic of a data directive. -/
def Width.mnemonic : Width → Chars
  | .byte => ['.', 'b', 'y', 't', 'e']
  | .word => ['.', 'w', 'o', 'r', 'd']
  | .long => ['.', 'l', 'o', 'n', 'g']
  | .quad => ['.', 'q', 'u', 'a', 'd']

/-- The mnemonic of a statement. -/
def Stmt.mnemonic : Stmt → Chars
  | .instr i => i.mnemonic
  | .data w _ => w.mnemonic
  | .pos _ => ['.', 'p', 'o', 's']
  | .align _ => ['.', 'a', 'l', 'i', 'g', 'n']

/-- The operands of a statement. -/
def Stmt.Operands : Stmt → Chars → Prop
  | .instr i, s => i.Operands P s
  | .data _ v, s => v.DataText P s
  | .pos v, s | .align v, s => Number s v

/-- A statement: the mnemonic, a blank, and the operands. -/
def Stmt.Text (st : Stmt) (s : Chars) : Prop :=
  ∃ b o, All isBlank b ∧ st.Operands P o ∧ (b = [] → o = []) ∧ s = st.mnemonic ++ (b ++ o)

/-- The label of a line. -/
def LabelText : Option Chars → Chars → Prop
  | none, s => s = []
  | some name, s => P name ∧ s = name ++ [':']

/-- The statement of a line. -/
def BodyText : Option Stmt → Chars → Prop
  | none, s => s = []
  | some st, s => st.Text P s

/-- The end of a line: nothing, or a comment. -/
def LineEnd (s : Chars) : Prop := s = [] ∨ ∃ t, s = '#' :: t

/-- A line before its end: a label and a statement, each of which may be missing, with blanks
around them. -/
def SrcLine.Core (l : SrcLine) (s : Chars) : Prop :=
  ∃ b₁ lab b₂ body b₃, (All isBlank b₁ ∧ All isBlank b₂ ∧ All isBlank b₃) ∧
    LabelText P l.label lab ∧ BodyText P l.stmt body ∧
    s = b₁ ++ (lab ++ (b₂ ++ (body ++ b₃)))

/-- A line. -/
def SrcLine.Text (l : SrcLine) (s : Chars) : Prop :=
  ∃ core e, l.Core P core ∧ LineEnd e ∧ s = core ++ e

/-- The lines of a text. -/
def splitLines : Chars → List Chars
  | [] => [[]]
  | c :: s => if c = '\n' then [] :: splitLines s else (splitLines s).modifyHead (c :: ·)

/-- A text is a program of lines of at most 510 characters, which may end with carriage
returns. -/
def IsProgram (prog : List SrcLine) (input : Chars) : Prop :=
  List.Forall₂ (fun l s => (∃ t crs, l.Text P t ∧ All (· == '\r') crs ∧ s = t ++ crs) ∧
    s.length ≤ 510) prog (splitLines input)

end Text

/-! ## The reference assembler -/

/-- The location counter behind a line. -/
def SrcLine.next (l : SrcLine) (loc : ℕ) : ℕ :=
  match l.stmt with
  | some (.pos v) => v.toNat
  | some (.align n) => (loc + n.toNat - 1) / n.toNat * n.toNat
  | some s => loc + s.size
  | none => loc

/-- The first pass: labels and their addresses. -/
def labels : ℕ → List SrcLine → List (Chars × ℕ)
  | _, [] => []
  | loc, l :: prog => (l.label.map fun name => (name, loc)).toList ++ labels (l.next loc) prog

/-- The address of a symbol. -/
def address (prog : List SrcLine) (name : Chars) : ℕ := ((labels 0 prog).lookup name).getD 0

/-- The size of the code of a line. -/
def SrcLine.size (l : SrcLine) : ℕ := (l.stmt.map Stmt.size).getD 0

/-- An output that ends before the location counter, with zeros up to there and then code. -/
def place (loc : ℕ) (out code : List Byte) : List Byte :=
  if code = [] then out else out ++ List.replicate (loc - out.length) 0 ++ code

/-- The symbol that a line refers to. -/
def SrcLine.symbol (l : SrcLine) : Option Chars := l.stmt.bind Stmt.symbol

/-- The code of a line. -/
def SrcLine.code (sym : Chars → Long) (l : SrcLine) : List Byte :=
  (l.stmt.map (Stmt.code sym)).getD []

/-- The second pass: the output. -/
def emit (sym : Chars → Long) : ℕ → List Byte → List SrcLine → List Byte
  | _, out, [] => out
  | loc, out, l :: prog => emit sym (l.next loc) (place loc out (l.code sym)) prog

/-- The image of a program. -/
def image (prog : List SrcLine) : List Byte :=
  emit (fun name => BitVec.ofNat 64 (address prog name)) 0 [] prog

/-! ## Programs that have an image -/

/-- The location counter stays below `2 ^ 31`, and no `.pos` moves it backwards. -/
def Forward : ℕ → List SrcLine → Prop
  | loc, [] => loc < 2 ^ 31
  | loc, l :: prog =>
    loc < 2 ^ 31 ∧ (∀ v, l.stmt = some (.pos v) → (loc : ℤ) ≤ v) ∧ Forward (l.next loc) prog

/-- The labels of a program. -/
def labelNames (prog : List SrcLine) : List Chars := prog.filterMap SrcLine.label

/-- The conditions on a program: its labels are distinct, its symbols are defined, it aligns to
positive numbers, and it goes forward below `2 ^ 31`. -/
structure WellFormed (prog : List SrcLine) : Prop where
  nodup : (labelNames prog).Nodup
  defined : ∀ l ∈ prog, ∀ name ∈ l.symbol, name ∈ labelNames prog
  align : ∀ l ∈ prog, ∀ n, l.stmt = some (.align n) → 0 < n
  forward : Forward 0 prog

end Y64.Asm
