import SE101.Y64Asm.Literals

set_option relaxedAutoImplicit false
set_option autoImplicit false

/-!
# The grammar of a line

A line is blank, a comment, a label, or a statement that may have a label: a mnemonic of
`instr_set` that is set off from what follows, and the operands of its instruction with commas
between them. `parse_line` sees neither where a mnemonic ends nor where the name of a register
does, so the grammar has the form of a register token as a parameter.

## Main definitions

* `Y64.Asm.InstrT.operands` — the operands of an entry of `instr_set`.
* `Y64.Asm.Operand.Text`, `OperandsText` — how operands are written.
* `Y64.Asm.Grammatical` — the lines of the grammar.
* `Y64.Asm.Spelt` — mnemonic and registers of a statement are spelt as the tables have them.

## Main results

* `Y64.Asm.OperandsText.exact` — operands in which all registers are spelt well.
* `Y64.Asm.StatementText.spelt` — a statement of the grammar is spelt well.
-/

namespace Y64.Asm

open Scan

/-! ## Tokens -/

/-- The names that `parse_symbol` and `parse_label` read. -/
def NameText (s : Chars) : Prop := All isName s ∧ s.head?.any isLetter = true

/-- One of the register names. -/
def Register (s : Chars) : Prop := ∃ r, s = regName r

/-- A register name that may go on. -/
def RegisterRun (s : Chars) : Prop := ∃ r junk, All isName junk ∧ s = regName r ++ junk

/-- The kinds of operands. -/
inductive Operand
  | reg | imm | mem | symbol | data | number
  deriving DecidableEq

/-- The operands that `parse_line` expects behind a mnemonic. -/
def InstrT.operands (inst : InstrT) : List Operand :=
  match IType.ofCode (high inst.code) with
  | some .halt | some .nop | some .ret => []
  | some .rrmovq | some .alu => [.reg, .reg]
  | some .irmovq => [.imm, .reg]
  | some .rmmovq => [.reg, .mem]
  | some .mrmovq => [.mem, .reg]
  | some .jmp | some .call => [.symbol]
  | some .pushq | some .popq => [.reg]
  | some .directive =>
    if inst.name = ['.', 'p', 'o', 's'] ∨ inst.name = ['.', 'a', 'l', 'i', 'g', 'n'] then [.number]
    else [.data]
  | none => []

section Text

variable (R : Chars → Prop)

/-- An operand. -/
def Operand.Core : Operand → Chars → Prop
  | .reg, s => R s
  | .imm, s => (∃ l v, Literal l v ∧ s = '$' :: l) ∨ NameText s
  | .mem, s => ∃ d b t, (d = [] ∨ ∃ v, Literal d v) ∧ All isBlank b ∧ R t ∧
      s = d ++ '(' :: (b ++ (t ++ [')']))
  | .symbol, s => NameText s
  | .data, s => (∃ v, Literal s v) ∨ NameText s
  | .number, s => ∃ v, Literal s v

/-- An operand behind blanks. -/
def Operand.Text (k : Operand) (s : Chars) : Prop :=
  ∃ b t, All isBlank b ∧ k.Core R t ∧ s = b ++ t

/-- Operands with commas between them. -/
def OperandsText : List Operand → Chars → Prop
  | [], s => s = []
  | [k], s => k.Text R s
  | k :: l :: ks, s => ∃ t b u, k.Text R t ∧ All isBlank b ∧ OperandsText (l :: ks) u ∧
      s = t ++ (b ++ ',' :: u)

end Text

/-! ## Lines -/

/-- A blank, a comment or the end of the line comes next. -/
def Separated (s : Chars) : Prop := Stops (fun c => !isBlank c && c != '#') s

/-- A statement up to the end of its line. -/
def StatementText (s : Chars) : Prop :=
  ∃ e ∈ instrSet, ∃ o b c, OperandsText Register e.operands o ∧ All isBlank b ∧ LineEnd c ∧
    Separated (o ++ (b ++ c)) ∧ s = e.name ++ (o ++ (b ++ c))

/-- A line of the grammar. -/
def Grammatical (s : Chars) : Prop :=
  ∃ b₁ lab b₂ body, All isBlank b₁ ∧ (lab = [] ∨ ∃ n, NameText n ∧ lab = n ++ [':']) ∧
    All isBlank b₂ ∧ (LineEnd body ∨ StatementText body) ∧ s = b₁ ++ (lab ++ (b₂ ++ body))

/-- Whether a run of characters is the name of a register. -/
def isRegister (s : Chars) : Bool := regTable.any fun r => r.name == s

/-- Whether all runs that begin with a percent sign, up to the comment, are names of registers. -/
def exactRegs : Chars → Bool
  | [] => true
  | c :: s =>
    if c = '#' then true
    else if c = '%' then isRegister ('%' :: s.takeWhile isName) && exactRegs s
    else exactRegs s

/-- The statement begins with a mnemonic that is set off from what follows, and its registers are
names of registers. -/
def Spelt (s : Chars) : Prop :=
  (∃ e ∈ instrSet, ∃ rest, s = e.name ++ rest ∧ Separated rest) ∧ exactRegs s = true

/-! ## Names and literals -/

variable {b n s t rest : Chars} {v : ℤ} {k : Operand} {ks : List Operand} {R : Chars → Prop}

/-- The parts of a name. -/
lemma nameText_eq (h : NameText n) : ∃ c u, n = c :: u ∧ isLetter c = true ∧ All isName n := by
  obtain ⟨hall, hhead⟩ := h
  obtain _ | ⟨c, u⟩ := n
  · cases hhead
  · exact ⟨c, u, rfl, by simpa using hhead, hall⟩

/-- The digits of any base are parts of names. -/
lemma isName_of_isDigitOf {base : ℕ} {c : Char} (h : isDigitOf base c = true) :
    isName c = true := by
  rw [isName_iff]
  rw [isDigitOf_iff] at h
  omega

/-- A literal without a sign consists of parts of names. -/
lemma unsigned_isName {m : ℕ} (h : Unsigned t m) : All isName t := by
  cases h with
  | dec _ hds => exact hds.mono fun c => isName_of_isDigitOf
  | oct hds => exact all_cons.2 ⟨by decide, hds.mono fun c => isName_of_isDigitOf⟩
  | hex hx _ hds =>
    refine all_cons.2 ⟨by decide, all_cons.2 ⟨?_, hds.mono fun c => isName_of_isDigitOf⟩⟩
    obtain rfl | rfl := hx <;> decide

/-- A literal consists of parts of names. -/
lemma literal_isName (h : Literal t v) : All isName t := by
  cases h with
  | plain h => exact unsigned_isName h
  | plus h => exact all_cons.2 ⟨by decide, unsigned_isName h⟩
  | minus h => exact all_cons.2 ⟨by decide, unsigned_isName h⟩

/-- A literal is the longest one where the text does not go on like a name. -/
lemma longest_literal (h : Literal t v) (hs : Stops isName s) : Longest (t ++ s) t := by
  refine ⟨List.prefix_append _ _, fun l' v' hpre hl' => ?_⟩
  have hlen := length_le_takeWhile (literal_isName hl') hpre
  rwa [takeWhile_append (literal_isName h) hs] at hlen

/-- A literal begins with a digit or a sign. -/
lemma literal_isDigit (h : Literal t v) : (t ++ s).head?.any isDigit = true := by
  obtain ⟨c, u, rfl, hc⟩ := literal_head h
  simpa using hc

/-- `strtoul` leaves what stands behind a literal. -/
lemma strtoul_literal (h : Literal t v) (hs : Stops isName s) : (strtoul (t ++ s)).2 = s := by
  have hspace := stops_isSpace_of_isDigit (literal_isDigit (s := s) h)
  have hsign := literal_sign h (List.prefix_append t s)
  obtain ⟨l, v', hl, hlong, ht, -⟩ := strtoul_longest hspace hsign
  obtain ⟨rfl, -⟩ := longest_unique h (longest_literal h hs) hl hlong
  exact (List.append_cancel_left ht).symm

/-- Where `strtoul` stops at the end of a run, it has read a literal. -/
lemma literal_of_strtoul (hdigit : s.head?.any isDigit = true)
    (hs : Stops isName (strtoul s).2) : ∃ l v, Literal l v ∧ s = l ++ (strtoul s).2 := by
  by_cases hsign : (strtoulSign s).2.head?.any (isDigitOf 10) = true
  · obtain ⟨l, v, hl, -, ht, -⟩ := strtoul_longest (stops_isSpace_of_isDigit hdigit) hsign
    exact ⟨l, v, hl, ht⟩
  · -- Nothing has been read, and the text still begins with a digit or a sign.
    exfalso
    rw [strtoul_none hsign (stops_isSpace_of_isDigit hdigit)] at hs
    obtain _ | ⟨c, s⟩ := s
    · cases hdigit
    · have hc : isDigit c = true := by simpa using hdigit
      have hname := stops_cons.1 hs
      rw [isName, hc, Bool.or_true] at hname
      cases hname

/-! ## Registers -/

/-- The entries of the table are the names of the registers. -/
lemma isRegister_iff : isRegister s = true ↔ Register s := by
  constructor
  · intro h
    obtain ⟨e, he, heq⟩ := List.any_eq_true.1 h
    have hname : ∀ e ∈ regTable, e.name = regName e.id := by decide
    exact ⟨e.id, (beq_iff_eq.1 heq).symm.trans (hname e he)⟩
  · rintro ⟨r, rfl⟩
    cases r <;> decide

/-- The characters that neither begin a register nor a comment. -/
def isOrdinary (c : Char) : Bool := c != '%' && c != '#'

/-- Parts of names neither begin a register nor a comment. -/
lemma isOrdinary_of_isName {c : Char} (h : isName c = true) : isOrdinary c = true := by
  simp only [isOrdinary, Bool.and_eq_true, bne_iff_ne]
  refine ⟨?_, ?_⟩ <;> rintro rfl <;> cases h

/-- Blanks neither begin a register nor a comment. -/
lemma isOrdinary_of_isBlank {c : Char} (h : isBlank c = true) : isOrdinary c = true := by
  simp only [isOrdinary, Bool.and_eq_true, bne_iff_ne]
  refine ⟨?_, ?_⟩ <;> rintro rfl <;> cases h

/-- Text without registers does not matter. -/
lemma exactRegs_append (h : All isOrdinary t) : exactRegs (t ++ s) = exactRegs s := by
  induction t with
  | nil => rfl
  | cons c t ih =>
    obtain ⟨hc, ht⟩ := all_cons.1 h
    simp only [isOrdinary, Bool.and_eq_true, bne_iff_ne] at hc
    rw [List.cons_append, exactRegs, if_neg hc.2, if_neg hc.1, ih ht]

/-- A run at the beginning of a text is tested and passed. -/
lemma exactRegs_run (hn : All isName n) (hs : Stops isName s) :
    exactRegs ('%' :: (n ++ s)) = (isRegister ('%' :: n) && exactRegs s) := by
  rw [exactRegs, if_neg (by decide), if_pos rfl, takeWhile_append hn hs,
    exactRegs_append (hn.mono fun c => isOrdinary_of_isName)]

/-- Blanks and the end of a line have no registers. -/
lemma exactRegs_end {c : Chars} (hb : All isBlank b) (hc : LineEnd c) :
    exactRegs (b ++ c) = true := by
  rw [exactRegs_append (hb.mono fun c => isOrdinary_of_isBlank)]
  obtain rfl | ⟨t, rfl⟩ := hc <;> rfl

/-- The parts of a run. -/
lemma registerRun_eq (h : RegisterRun t) : ∃ n, t = '%' :: n ∧ All isName n := by
  obtain ⟨r, junk, hjunk, rfl⟩ := h
  obtain ⟨n, hn, hall⟩ := regName_eq r
  exact ⟨n ++ junk, by rw [hn, List.cons_append], all_append.2 ⟨hall, hjunk⟩⟩

/-- A register name is a run. -/
lemma Register.run (h : Register t) : RegisterRun t := by
  obtain ⟨r, rfl⟩ := h
  exact ⟨r, [], all_nil, (List.append_nil _).symm⟩

/-- A run passes the test if and only if it is the name of a register. -/
lemma exactRegs_register (h : RegisterRun t) (hs : Stops isName s) :
    exactRegs (t ++ s) = true ↔ Register t ∧ exactRegs s = true := by
  obtain ⟨n, rfl, hn⟩ := registerRun_eq h
  rw [List.cons_append, exactRegs_run hn hs, Bool.and_eq_true, isRegister_iff]

/-! ## Operands -/

/-- Where two texts do not go on like a name, neither does the first before the second. -/
lemma stops_append (ht : Stops isName t) (hs : Stops isName s) : Stops isName (t ++ s) := by
  cases t with
  | nil => exact hs
  | cons c t => exact stops_cons.2 (stops_cons.1 ht)

/-- An operand has no register, or one with plain text around it. -/
lemma Operand.Core.parts (h : k.Core R t) :
    (All isOrdinary t ∧ k.Core Register t) ∨
    ∃ p u q, All isOrdinary p ∧ R u ∧ All isOrdinary q ∧ Stops isName q ∧ t = p ++ (u ++ q) ∧
      (Register u → k.Core Register t) := by
  have hname : ∀ {t}, NameText t → All isOrdinary t :=
    fun h => h.1.mono fun c => isOrdinary_of_isName
  have hlit : ∀ {t v}, Literal t v → All isOrdinary t :=
    fun h => (literal_isName h).mono fun c => isOrdinary_of_isName
  cases k with
  | reg => exact .inr ⟨[], t, [], all_nil, h, all_nil, stops_nil, by simp, id⟩
  | imm =>
    refine .inl ⟨?_, h⟩
    obtain ⟨l, v, hl, rfl⟩ | hn := h
    · exact all_cons.2 ⟨by decide, hlit hl⟩
    · exact hname hn
  | mem =>
    obtain ⟨d, b, u, hd, hb, hu, rfl⟩ := h
    refine .inr ⟨d ++ '(' :: b, u, [')'], all_append.2 ⟨?_, ?_⟩, hu, by decide,
      stops_cons.2 (by decide), by simp, fun hreg => ⟨d, b, u, hd, hb, hreg, rfl⟩⟩
    · obtain rfl | ⟨v, hl⟩ := hd
      · exact all_nil
      · exact hlit hl
    · exact all_cons.2 ⟨by decide, hb.mono fun c => isOrdinary_of_isBlank⟩
  | symbol => exact .inl ⟨hname h, h⟩
  | data =>
    refine .inl ⟨?_, h⟩
    obtain ⟨v, hl⟩ | hn := h
    · exact hlit hl
    · exact hname hn
  | number =>
    obtain ⟨v, hl⟩ := h
    exact .inl ⟨hlit hl, v, hl⟩

/-- An operand that passes the test has a register name for a register. -/
lemma Operand.Core.exact (h : k.Core RegisterRun t) (hs : Stops isName s)
    (ht : exactRegs (t ++ s) = true) : k.Core Register t ∧ exactRegs s = true := by
  obtain ⟨hplain, hcore⟩ | ⟨p, u, q, hp, hu, hq, hstop, rfl, hcore⟩ := h.parts
  · rw [exactRegs_append hplain] at ht
    exact ⟨hcore, ht⟩
  · rw [List.append_assoc, List.append_assoc, exactRegs_append hp,
      exactRegs_register hu (stops_append hstop hs), exactRegs_append hq] at ht
    exact ⟨hcore ht.1, ht.2⟩

/-- An operand that has a register name for a register passes the test. -/
lemma Operand.Core.spelt (h : k.Core Register t) (hs : Stops isName s)
    (ht : exactRegs s = true) : exactRegs (t ++ s) = true := by
  obtain ⟨hplain, -⟩ | ⟨p, u, q, hp, hu, hq, hstop, rfl, -⟩ := h.parts
  · rw [exactRegs_append hplain]
    exact ht
  · rw [List.append_assoc, List.append_assoc, exactRegs_append hp,
      exactRegs_register hu.run (stops_append hstop hs), exactRegs_append hq]
    exact ⟨hu, ht⟩

/-- Blanks before a text that does not go on like a name. -/
lemma stops_blanks (hb : All isBlank b) (hs : Stops isName s) : Stops isName (b ++ s) :=
  Stops.append hb isName_of_isBlank hs

/-- Operands that pass the test have register names for registers. -/
lemma OperandsText.exact (h : OperandsText RegisterRun ks t) (hs : Stops isName s)
    (ht : exactRegs (t ++ s) = true) : OperandsText Register ks t := by
  induction ks, t using OperandsText.induct with
  | case1 t => exact h
  | case2 k t =>
    obtain ⟨b, u, hb, hcore, rfl⟩ := h
    rw [List.append_assoc, exactRegs_append (hb.mono fun c => isOrdinary_of_isBlank)] at ht
    exact ⟨b, u, hb, (hcore.exact hs ht).1, rfl⟩
  | case3 k l ks t ih =>
    obtain ⟨t, b, u, ⟨b', t', hb', hcore, rfl⟩, hb, hu, rfl⟩ := h
    have hcomma : Stops isName (b ++ ',' :: (u ++ s)) := stops_blanks hb (stops_cons.2 (by decide))
    have hassoc : b' ++ t' ++ (b ++ ',' :: u) ++ s = b' ++ (t' ++ (b ++ ',' :: (u ++ s))) := by
      simp
    rw [hassoc, exactRegs_append (hb'.mono fun c => isOrdinary_of_isBlank)] at ht
    obtain ⟨hcore', hrest⟩ := hcore.exact hcomma ht
    have hrest' : exactRegs (u ++ s) = true := by
      rw [exactRegs_append (hb.mono fun c => isOrdinary_of_isBlank)] at hrest
      exact hrest
    exact ⟨_, b, u, ⟨b', t', hb', hcore', rfl⟩, hb, ih u hu hrest', rfl⟩

/-- Operands that have register names for registers pass the test. -/
lemma OperandsText.spelt (h : OperandsText Register ks t) (hs : Stops isName s)
    (ht : exactRegs s = true) : exactRegs (t ++ s) = true := by
  induction ks, t using OperandsText.induct with
  | case1 t =>
    obtain rfl : t = [] := h
    exact ht
  | case2 k t =>
    obtain ⟨b, u, hb, hcore, rfl⟩ := h
    rw [List.append_assoc, exactRegs_append (hb.mono fun c => isOrdinary_of_isBlank)]
    exact hcore.spelt hs ht
  | case3 k l ks t ih =>
    obtain ⟨t, b, u, ⟨b', t', hb', hcore, rfl⟩, hb, hu, rfl⟩ := h
    have hcomma : Stops isName (b ++ ',' :: (u ++ s)) := stops_blanks hb (stops_cons.2 (by decide))
    have hassoc : b' ++ t' ++ (b ++ ',' :: u) ++ s = b' ++ (t' ++ (b ++ ',' :: (u ++ s))) := by
      simp
    rw [hassoc, exactRegs_append (hb'.mono fun c => isOrdinary_of_isBlank)]
    refine hcore.spelt hcomma ?_
    rw [exactRegs_append (hb.mono fun c => isOrdinary_of_isBlank)]
    exact ih u hu

/-! ## Statements -/

/-- Mnemonics are plain. -/
lemma instrSet_isOrdinary : ∀ e ∈ instrSet, All isOrdinary e.name := by decide

/-- The end of a line does not go on like a name. -/
lemma LineEnd.stops {c : Chars} (hc : LineEnd c) : Stops isName c := by
  obtain rfl | ⟨t, rfl⟩ := hc
  · exact stops_nil
  · exact stops_cons.2 (by decide)

/-- A statement of the grammar is spelt well. -/
lemma StatementText.spelt (h : StatementText s) : Spelt s := by
  obtain ⟨e, he, o, b, c, ho, hb, hc, hsep, rfl⟩ := h
  refine ⟨⟨e, he, _, rfl, hsep⟩, ?_⟩
  rw [exactRegs_append (instrSet_isOrdinary e he)]
  exact ho.spelt (stops_blanks hb hc.stops) (exactRegs_end hb hc)

end Y64.Asm
