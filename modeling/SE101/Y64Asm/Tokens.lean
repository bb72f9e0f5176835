import SE101.Y64Asm.Source

set_option relaxedAutoImplicit false
set_option autoImplicit false

/-!
# The token parsers on documented text

Each token parser of the assembler reads back what the documented form writes, and leaves the
text behind it. A token ends where the text behind it does not go on with a letter, a digit or
a sign, which is all that its parser looks at.

## Main results

* `Y64.Asm.strtoul_append` — a number.
* `Y64.Asm.parseReg_append`, `parseDelim_append`, `parseSymbol_append`, `parseMem_append`, … —
  the operands.
* `Y64.Asm.parseLabel_append`, `parseLabel_of_stops` — a label, and text that is none.
* `Y64.Asm.parseInstr_append`, `parseInstr_comment` — a mnemonic.
-/

namespace Y64.Asm

open Scan

variable {b s t : Chars} {r : Reg} {v : ℤ}

/-! ## Character classes -/

lemma isLetter_iff (c : Char) :
    isLetter c = true ↔ 97 ≤ c.toNat ∧ c.toNat ≤ 122 ∨ 65 ≤ c.toNat ∧ c.toNat ≤ 90 := by
  simp only [isLetter, Bool.or_eq_true, Bool.and_eq_true, decide_eq_true_eq]
  exact Iff.rfl

lemma isDigit_iff (c : Char) :
    isDigit c = true ↔ 48 ≤ c.toNat ∧ c.toNat ≤ 57 ∨ c.toNat = 45 ∨ c.toNat = 43 := by
  simp only [isDigit, Bool.or_eq_true, Bool.and_eq_true, decide_eq_true_eq, beq_iff_eq, or_assoc,
    ← Char.toNat_inj]
  exact Iff.rfl

lemma isBlank_iff (c : Char) : isBlank c = true ↔ c.toNat = 32 ∨ c.toNat = 9 := by
  simp only [isBlank, Bool.or_eq_true, beq_iff_eq, ← Char.toNat_inj]
  exact Iff.rfl

lemma isSpace_iff (c : Char) :
    isSpace c = true ↔ c.toNat = 32 ∨ 9 ≤ c.toNat ∧ c.toNat ≤ 13 := by
  simp only [isSpace, Bool.or_eq_true, Bool.and_eq_true, decide_eq_true_eq, beq_iff_eq,
    ← Char.toNat_inj]
  exact Iff.rfl

lemma isName_iff (c : Char) :
    isName c = true ↔ (97 ≤ c.toNat ∧ c.toNat ≤ 122 ∨ 65 ≤ c.toNat ∧ c.toNat ≤ 90) ∨
      48 ≤ c.toNat ∧ c.toNat ≤ 57 ∨ c.toNat = 45 ∨ c.toNat = 43 := by
  rw [isName, Bool.or_eq_true, isLetter_iff, isDigit_iff]

lemma isAlnum_iff (c : Char) :
    isAlnum c = true ↔ (97 ≤ c.toNat ∧ c.toNat ≤ 122 ∨ 65 ≤ c.toNat ∧ c.toNat ≤ 90) ∨
      48 ≤ c.toNat ∧ c.toNat ≤ 57 := by
  rw [isAlnum, Bool.or_eq_true, isLetter_iff, Bool.and_eq_true, decide_eq_true_eq,
    decide_eq_true_eq]
  exact Iff.rfl

lemma isDigitOf_iff (base : ℕ) (c : Char) :
    isDigitOf base c = true ↔
      48 ≤ c.toNat ∧ c.toNat ≤ 57 ∧ c.toNat - 48 < base ∨
      97 ≤ c.toNat ∧ c.toNat ≤ 122 ∧ c.toNat - 97 + 10 < base ∨
      65 ≤ c.toNat ∧ c.toNat ≤ 90 ∧ c.toNat - 65 + 10 < base := by
  have h0 : ('0' ≤ c ∧ c ≤ '9') ↔ 48 ≤ c.toNat ∧ c.toNat ≤ 57 := Iff.rfl
  have ha : ('a' ≤ c ∧ c ≤ 'z') ↔ 97 ≤ c.toNat ∧ c.toNat ≤ 122 := Iff.rfl
  have hA : ('A' ≤ c ∧ c ≤ 'Z') ↔ 65 ≤ c.toNat ∧ c.toNat ≤ 90 := Iff.rfl
  have h0' : '0'.toNat = 48 := rfl
  have ha' : 'a'.toNat = 97 := rfl
  have hA' : 'A'.toNat = 65 := rfl
  simp only [isDigitOf, digitVal, h0, ha, hA, h0', ha', hA']
  split_ifs <;> simp <;> omega

/-- A class is left by a character that is not in a larger one. -/
lemma eq_false_of_imp {p q : Char → Bool} {c : Char} (h : p c = true → q c = true)
    (hq : q c = false) : p c = false := by
  cases hp : p c with
  | false => rfl
  | true => rw [h hp] at hq; cases hq

/-- Text that does not go on like a name does not go on with a digit of any base. -/
lemma stops_isDigitOf (base : ℕ) (h : Stops isName s) : Stops (isDigitOf base) s :=
  h.mono fun c => eq_false_of_imp fun hc => by rw [isName_iff]; rw [isDigitOf_iff] at hc; omega

/-- A blank is no part of a name. -/
lemma isName_of_isBlank (c : Char) (h : isBlank c = true) : isName c = false := by
  rw [Bool.eq_false_iff, Ne, isName_iff]
  rw [isBlank_iff] at h
  omega

/-- A part of a name is no blank. -/
lemma isBlank_of_isName (c : Char) (h : isName c = true) : isBlank c = false := by
  rw [Bool.eq_false_iff, Ne, isBlank_iff]
  rw [isName_iff] at h
  omega

/-- Blanks before text that is not blank are skipped. -/
lemma skipBlank_append (hb : All isBlank b) (hs : Stops isBlank s) : skipBlank (b ++ s) = s :=
  dropWhile_append hb hs

/-! ## Numbers -/

/-- The scan of a literal without its sign. -/
lemma unsigned_scan {n : ℕ} (h : Unsigned t n) (hs : Stops isName s) :
    ∃ base ds, strtoulBase (t ++ s) = (base, ds ++ s) ∧ ds ≠ [] ∧ All (isDigitOf base) ds ∧
      digitsVal base ds = n := by
  cases h with
  | @dec d ds hd hds =>
    refine ⟨10, d :: ds, ?_, by simp, hds, rfl⟩
    unfold strtoulBase
    split
    · rename_i heq
      exact absurd (List.cons.inj heq).1 hd
    · rfl
  | @oct ds hds =>
    refine ⟨8, '0' :: ds, ?_, by simp, all_cons.2 ⟨by decide, hds⟩, rfl⟩
    have hhex : isHexRest (ds ++ s) = false := by
      -- a digit of base eight is no `x`, and neither is what may follow the literal
      have hx : ∀ c u, ds ++ s = c :: u → ¬ (c = 'x' ∨ c = 'X') := by
        intro c u hcu
        have hc : isDigitOf 8 c = true ∨ isName c = false := by
          cases ds with
          | nil =>
            rw [List.nil_append] at hcu
            subst hcu
            exact Or.inr (stops_cons.1 hs)
          | cons d ds =>
            obtain ⟨rfl, -⟩ := List.cons.inj hcu
            exact Or.inl (all_cons.1 hds).1
        rintro (rfl | rfl) <;> rcases hc with hc | hc <;> exact absurd hc (by decide)
      unfold isHexRest
      split
      · rename_i x d u heq
        simpa using fun h : x = 'x' ∨ x = 'X' => absurd h (hx x _ heq)
      · rfl
    simp [strtoulBase, hhex]
  | @hex x ds hx hne hds =>
    refine ⟨16, ds, ?_, hne, hds, rfl⟩
    obtain ⟨d, ds, rfl⟩ := List.exists_cons_of_ne_nil hne
    have hhex : isHexRest (x :: d :: (ds ++ s)) = true := by
      rcases hx with rfl | rfl <;> simp [isHexRest, (all_cons.1 hds).1]
    simp [strtoulBase, hhex]

/-- The first character of a literal without a sign. -/
lemma unsigned_head {n : ℕ} (h : Unsigned t n) :
    ∃ c u, t = c :: u ∧ 48 ≤ c.toNat ∧ c.toNat ≤ 57 := by
  cases h with
  | @dec d ds _ hds =>
    have hd := (isDigitOf_iff 10 d).1 (all_cons.1 hds).1
    exact ⟨d, ds, rfl, by omega, by omega⟩
  | @oct ds hds => exact ⟨'0', ds, rfl, by decide, by decide⟩
  | @hex x ds hx hne hds => exact ⟨'0', x :: ds, rfl, by decide, by decide⟩

/-- A literal without a sign has none for `strtoul` either. -/
lemma strtoulSign_unsigned {n : ℕ} (h : Unsigned t n) :
    strtoulSign (t ++ s) = (false, t ++ s) := by
  obtain ⟨c, u, rfl, hc, hc'⟩ := unsigned_head h
  unfold strtoulSign
  split
  · rename_i heq
    obtain ⟨rfl, -⟩ := List.cons.inj heq
    exact absurd hc (by decide)
  · rename_i heq
    obtain ⟨rfl, -⟩ := List.cons.inj heq
    exact absurd hc (by decide)
  · rfl

/-- The first character of a literal is a digit or a sign. -/
lemma literal_head (h : Literal t v) : ∃ c u, t = c :: u ∧ isDigit c = true := by
  cases h with
  | plain h =>
    obtain ⟨c, u, rfl, hc, hc'⟩ := unsigned_head h
    exact ⟨c, u, rfl, (isDigit_iff c).2 (by omega)⟩
  | @plus t _ h => exact ⟨'+', t, rfl, by decide⟩
  | @minus t _ h => exact ⟨'-', t, rfl, by decide⟩

/-- The digits of a literal, once its sign and its base are known. -/
lemma strtoul_of_scan {neg : Bool} {n base : ℕ} {t' ds : Chars}
    (hspace : Stops isSpace (t ++ s)) (hsign : strtoulSign (t ++ s) = (neg, t'))
    (hbase : strtoulBase t' = (base, ds ++ s)) (hne : ds ≠ []) (hds : All (isDigitOf base) ds)
    (hval : digitsVal base ds = n) (hn : n < 2 ^ 64) (hs : Stops isName s) :
    strtoul (t ++ s) = (if neg then -BitVec.ofNat 64 n else BitVec.ofNat 64 n, s) := by
  have htake : (ds ++ s).takeWhile (isDigitOf base) = ds :=
    takeWhile_append hds (stops_isDigitOf base hs)
  have hdrop : (ds ++ s).dropWhile (isDigitOf base) = s :=
    dropWhile_append hds (stops_isDigitOf base hs)
  have hstart : (t ++ s).dropWhile isSpace = t ++ s := dropWhile_of_stops hspace
  simp only [strtoul, hstart, hsign, hbase, htake, hdrop, hval]
  rw [if_neg hne, if_pos hn]

/-- `strtoul` reads a number. -/
lemma strtoul_append (h : Number t v) (hs : Stops isName s) :
    strtoul (t ++ s) = (BitVec.ofInt 64 v, s) := by
  obtain ⟨hlit, hmin, hmax⟩ := h
  have hspace : Stops isSpace (t ++ s) := by
    obtain ⟨c, u, rfl, hc⟩ := literal_head hlit
    refine stops_cons.2 ?_
    rw [Bool.eq_false_iff, Ne, isSpace_iff]
    rw [isDigit_iff] at hc
    omega
  cases hlit with
  | @plain _ n h =>
    obtain ⟨base, ds, hbase, hne, hds, hval⟩ := unsigned_scan h hs
    rw [strtoul_of_scan hspace (strtoulSign_unsigned h) hbase hne hds hval (by omega) hs,
      if_neg (by decide), BitVec.ofInt_natCast]
  | @plus t n h =>
    obtain ⟨base, ds, hbase, hne, hds, hval⟩ := unsigned_scan h hs
    rw [strtoul_of_scan hspace rfl hbase hne hds hval (by omega) hs, if_neg (by decide),
      BitVec.ofInt_natCast]
  | @minus t n h =>
    obtain ⟨base, ds, hbase, hne, hds, hval⟩ := unsigned_scan h hs
    rw [strtoul_of_scan hspace rfl hbase hne hds hval (by omega) hs, if_pos rfl,
      BitVec.ofInt_neg, BitVec.ofInt_natCast]

/-- Text that begins with a digit or a sign does not begin with a blank. -/
lemma stops_blank_of_number (h : Number t v) : Stops isBlank (t ++ s) := by
  obtain ⟨c, u, rfl, hc⟩ := literal_head h.1
  exact stops_cons.2 (isBlank_of_isName c (by simp [isName, hc]))

/-- Text that begins with a number begins with a digit or a sign. -/
lemma head_isDigit (h : Number t v) : (t ++ s).head?.any isDigit = true := by
  obtain ⟨c, u, rfl, hc⟩ := literal_head h.1
  simpa using hc

/-- `parse_digit` reads a number. -/
lemma parseDigit_append (hb : All isBlank b) (h : Number t v) (hs : Stops isName s) :
    parseDigit (b ++ (t ++ s)) = some (BitVec.ofInt 64 v, s) := by
  rw [parseDigit, skipBlank_append hb (stops_blank_of_number h)]
  simp only [head_isDigit h, if_true, strtoul_append h hs]

/-! ## Delimiters, registers, names -/

/-- `parse_delim` reads a delimiter behind blanks. -/
lemma parseDelim_append (hb : All isBlank b) : parseDelim ',' (b ++ ',' :: s) = some s := by
  rw [parseDelim, skipBlank_append hb (stops_cons.2 (by decide))]
  simp

/-- The parts of a register's name. -/
lemma regName_eq (r : Reg) : ∃ n, regName r = '%' :: n ∧ All isName n := by
  cases r <;> exact ⟨_, rfl, by decide⟩

/-- `find_register` finds a register by its name. -/
lemma findRegister_regName (r : Reg) : (findRegister (regName r)).map RegT.id = some r := by
  cases r <;> rfl

/-- `parse_reg` reads a register. -/
lemma parseReg_append (hb : All isBlank b) (hs : Stops isName s) :
    parseReg (b ++ (regName r ++ s)) = some (r, s) := by
  obtain ⟨n, hn, hall⟩ := regName_eq r
  have hfind := findRegister_regName r
  have hskip : skipBlank (b ++ (regName r ++ s)) = '%' :: (n ++ s) := by
    rw [hn]
    exact skipBlank_append hb (stops_cons.2 (by decide))
  simp only [parseReg, hskip, takeWhile_append hall hs, dropWhile_append hall hs]
  rw [hn] at hfind
  obtain ⟨e, he, hid⟩ := Option.map_eq_some_iff.1 hfind
  rw [he, Option.map_some, hid]

/-- The parts of a name. -/
lemma letterName_eq {n : Chars} (h : LetterName n) :
    ∃ c u, n = c :: u ∧ isLetter c = true ∧ All isName n := by
  obtain ⟨⟨hne, hall⟩, hhead⟩ := h
  obtain ⟨c, u, rfl⟩ := List.exists_cons_of_ne_nil hne
  refine ⟨c, u, rfl, by simpa using hhead, hall.mono fun c hc => ?_⟩
  rw [isName_iff]
  rw [isAlnum_iff] at hc
  omega

/-- `parse_symbol` reads a name. -/
lemma parseSymbol_append {n : Chars} (buf : Buffer) (hb : All isBlank b) (hn : LetterName n)
    (hs : Stops isName s) : parseSymbol buf (b ++ (n ++ s)) = some (nameIn buf n, s) := by
  obtain ⟨c, u, rfl, hc, hall⟩ := letterName_eq hn
  have hskip : skipBlank (b ++ (c :: u ++ s)) = c :: u ++ s :=
    skipBlank_append hb (stops_cons.2 (isBlank_of_isName c (all_cons.1 hall).1))
  simp only [parseSymbol, hskip, takeWhile_append hall hs, dropWhile_append hall hs]
  simp [hc]

/-- A letter is no digit or sign. -/
lemma isDigit_of_isLetter {c : Char} (h : isLetter c = true) : isDigit c = false := by
  rw [Bool.eq_false_iff, Ne, isDigit_iff]
  rw [isLetter_iff] at h
  omega

/-! ## Values and memory operands -/

/-- What `parse_imm` and `parse_data` return for a value of the source. -/
def Expr.parsed (buf : Buffer) : Expr → Value
  | .lit v => .digit (BitVec.ofInt 64 v)
  | .sym name => .symbol (nameIn buf name)

/-- `parse_data` reads the operand of a data directive. -/
lemma parseData_append {e : Expr} (buf : Buffer) (hb : All isBlank b)
    (h : e.DataText LetterName t) (hs : Stops isName s) :
    parseData buf (b ++ (t ++ s)) = some (e.parsed buf, s) := by
  cases e with
  | lit v =>
    rw [parseData, skipBlank_append hb (stops_blank_of_number h)]
    simp only [head_isDigit h, if_true, strtoul_append h hs, Expr.parsed]
  | sym n =>
    obtain ⟨hn, rfl⟩ := h
    have hsym := parseSymbol_append (b := []) buf all_nil hn hs
    obtain ⟨c, u, rfl, hc, hall⟩ := letterName_eq hn
    have hskip : skipBlank (b ++ (c :: u ++ s)) = c :: u ++ s :=
      skipBlank_append hb (stops_cons.2 (isBlank_of_isName c (all_cons.1 hall).1))
    rw [List.nil_append] at hsym
    simp only [parseData, hskip, hsym]
    simp [hc, isDigit_of_isLetter hc, Expr.parsed]

/-- `parse_imm` reads an immediate operand. -/
lemma parseImm_append {e : Expr} (buf : Buffer) (hb : All isBlank b)
    (h : e.ImmText LetterName t) (hs : Stops isName s) :
    parseImm buf (b ++ (t ++ s)) = some (e.parsed buf, s) := by
  cases e with
  | lit v =>
    obtain ⟨t, ht, rfl⟩ := h
    have hskip : skipBlank (b ++ ('$' :: t ++ s)) = '$' :: (t ++ s) :=
      skipBlank_append hb (stops_cons.2 (by decide))
    simp only [parseImm, hskip, head_isDigit ht, if_true, strtoul_append ht hs, Expr.parsed]
  | sym n =>
    obtain ⟨hn, rfl⟩ := h
    have hsym := parseSymbol_append (b := []) buf all_nil hn hs
    obtain ⟨c, u, rfl, hc, hall⟩ := letterName_eq hn
    have hskip : skipBlank (b ++ (c :: u ++ s)) = c :: u ++ s :=
      skipBlank_append hb (stops_cons.2 (isBlank_of_isName c (all_cons.1 hall).1))
    rw [List.nil_append] at hsym
    unfold parseImm
    rw [hskip]
    split
    · rename_i heq
      obtain ⟨rfl, -⟩ := List.cons.inj heq
      exact absurd hc (by decide)
    · rw [hsym]
      simp [hc, Expr.parsed]

/-- The displacement of a memory operand is read up to its parenthesis. -/
lemma parseDisp_append {disp : ℤ} (h : Number t disp ∨ t = [] ∧ disp = 0) :
    parseDisp (t ++ '(' :: s) = some (BitVec.ofInt 64 disp, '(' :: s) := by
  rcases h with h | ⟨rfl, rfl⟩
  · have hdig := parseDigit_append (s := '(' :: s) all_nil h (stops_cons.2 (by decide))
    obtain ⟨c, u, rfl, hc⟩ := literal_head h.1
    unfold parseDisp
    split
    · rename_i heq
      obtain ⟨rfl, -⟩ := List.cons.inj heq
      exact absurd hc (by decide)
    · exact hdig
  · rfl

/-- `parse_mem` reads a memory operand. -/
lemma parseMem_append {disp : ℤ} (hb : All isBlank b) (h : MemText disp r t) :
    parseMem (b ++ (t ++ s)) = some (BitVec.ofInt 64 disp, r, s) := by
  obtain ⟨t, ht, rfl⟩ := h
  have hassoc : t ++ '(' :: (regName r ++ [')']) ++ s =
      t ++ '(' :: (regName r ++ (')' :: s)) := by simp
  have hskip : skipBlank (b ++ (t ++ '(' :: (regName r ++ (')' :: s)))) =
      t ++ '(' :: (regName r ++ (')' :: s)) := by
    refine skipBlank_append hb ?_
    rcases ht with ht | ⟨rfl, -⟩
    · exact stops_blank_of_number ht
    · exact stops_cons.2 (by decide)
  have hreg := parseReg_append (b := []) (s := ')' :: s) (r := r) all_nil
    (stops_cons.2 (by decide))
  rw [List.nil_append] at hreg
  simp only [parseMem, hassoc, hskip, parseDisp_append ht, hreg, bind, Option.bind]

/-! ## Labels -/

/-- `parse_label` reads a label. -/
lemma parseLabel_append {n : Chars} (buf : Buffer) (hn : LetterName n) :
    parseLabel buf (n ++ ':' :: s) = some (nameIn buf n, s) := by
  obtain ⟨c, u, rfl, hc, hall⟩ := letterName_eq hn
  have hskip : skipBlank (c :: u ++ ':' :: s) = c :: u ++ ':' :: s :=
    skipBlank_append (b := []) all_nil
      (stops_cons.2 (isBlank_of_isName c (all_cons.1 hall).1))
  have hstop : Stops isName (':' :: s) := stops_cons.2 (by decide)
  simp only [parseLabel, hskip, takeWhile_append hall hstop, dropWhile_append hall hstop]
  simp [hc]

/-- A name with no colon behind it is no label. -/
lemma parseLabel_of_stops {m : Chars} (buf : Buffer) (hm : All isName m) (hne : m ≠ [])
    (hs : Stops isName s) (hcolon : s.head? ≠ some ':') : parseLabel buf (m ++ s) = none := by
  obtain ⟨c, u, rfl⟩ := List.exists_cons_of_ne_nil hne
  have hskip : skipBlank (c :: u ++ s) = c :: u ++ s :=
    skipBlank_append (b := []) all_nil
      (stops_cons.2 (isBlank_of_isName c (all_cons.1 hm).1))
  simp only [parseLabel, hskip, dropWhile_append hm hs]
  split_ifs
  · cases s with
    | nil => rfl
    | cons d s =>
      split
      · rename_i heq
        obtain ⟨rfl, -⟩ := List.cons.inj heq
        exact absurd rfl hcolon
      · rfl
  · rfl

/-! ## Mnemonics -/

/-- The first byte of the code of an instruction. -/
def SrcInstr.firstByte (i : SrcInstr) : Byte :=
  hpack (i.resolve fun _ => 0).itype.code (i.resolve fun _ => 0).ifun

/-- The entry of `instr_set` for a statement. -/
def Stmt.inst : Stmt → InstrT
  | .instr i => ⟨i.mnemonic, i.mnemonic.length, i.firstByte, (Stmt.instr i).size⟩
  | .data w _ => ⟨w.mnemonic, 5, hpack IType.directive.code Dtv.data.code, w.bytes⟩
  | .pos v => ⟨(Stmt.pos v).mnemonic, 4, hpack IType.directive.code Dtv.pos.code, 0⟩
  | .align v => ⟨(Stmt.align v).mnemonic, 6, hpack IType.directive.code Dtv.align.code, 0⟩

/-- The entry of a statement passes its mnemonic. -/
lemma Stmt.inst_len (st : Stmt) : st.inst.len = st.mnemonic.length := by
  cases st with
  | instr i => rfl
  | data w v => cases w <;> rfl
  | pos v => rfl
  | align v => rfl

/-- `find_instr` finds an instruction by its mnemonic. -/
lemma findInstr_instr (i : SrcInstr) :
    findInstr (Stmt.instr i).mnemonic = some (Stmt.instr i).inst := by
  cases i with
  | cmov c src dst => cases c <;> rfl
  | opq op src dst => cases op <;> rfl
  | jmp c dest => cases c <;> rfl
  | irmovq v dst => cases v <;> rfl
  | halt | nop | ret | rmmovq | mrmovq | call | pushq | popq => rfl

/-- `find_instr` finds a statement by its mnemonic. -/
lemma findInstr_mnemonic (st : Stmt) : findInstr st.mnemonic = some st.inst := by
  cases st with
  | instr i => exact findInstr_instr i
  | data w v => cases w <;> rfl
  | pos v => rfl
  | align v => rfl

/-- The entries of the table are words. -/
lemma instrSet_word : ∀ e ∈ instrSet, All (fun c => !isSpace c) e.name ∧ e.name ≠ [] := by
  decide

/-- The entry of a statement has its mnemonic. -/
lemma Stmt.inst_name (st : Stmt) : st.inst.name = st.mnemonic := by cases st <;> rfl

/-- A mnemonic is a word. -/
lemma mnemonic_word (st : Stmt) :
    All (fun c => !isSpace c) st.mnemonic ∧ st.mnemonic ≠ [] := by
  rw [← st.inst_name]
  exact instrSet_word _ (List.mem_of_find?_eq_some (findInstr_mnemonic st))

/-- A text that begins with a mnemonic begins with no white space. -/
lemma stops_mnemonic (st : Stmt) : Stops isSpace (st.mnemonic ++ s) :=
  stops_append_of_all (mnemonic_word st).1 (mnemonic_word st).2 fun c hc => by simpa using hc

/-- White space is a larger class than blanks. -/
lemma stops_isBlank (h : Stops isSpace s) : Stops isBlank s :=
  h.mono fun c => eq_false_of_imp fun hc => by
    rw [isSpace_iff]
    rw [isBlank_iff] at hc
    omega

/-- `parse_instr` reads a mnemonic with white space or nothing behind it. -/
lemma parseInstr_append (st : Stmt) (hs : Stops (fun c => !isSpace c) s) :
    parseInstr (st.mnemonic ++ s) = some (st.inst, s) := by
  have hskip : skipBlank (st.mnemonic ++ s) = st.mnemonic ++ s :=
    dropWhile_of_stops (stops_isBlank (stops_mnemonic st))
  have hspace : (st.mnemonic ++ s).dropWhile isSpace = st.mnemonic ++ s :=
    dropWhile_of_stops (stops_mnemonic st)
  simp only [parseInstr, hskip, hspace, takeWhile_append (mnemonic_word st).1 hs,
    findInstr_mnemonic, Option.map_some, st.inst_len, List.drop_left]

/-- The instructions without operands. -/
def Stmt.plain : Stmt → Bool
  | .instr .halt | .instr .nop | .instr .ret => true
  | _ => false

/-- `parse_instr` reads the mnemonic of an instruction without operands from a word that goes
on with a comment. -/
lemma parseInstr_comment (st : Stmt) (h : st.plain = true) :
    parseInstr (st.mnemonic ++ '#' :: s) = some (st.inst, '#' :: s) := by
  have hskip : skipBlank (st.mnemonic ++ '#' :: s) = st.mnemonic ++ '#' :: s :=
    dropWhile_of_stops (stops_isBlank (stops_mnemonic st))
  have hspace : (st.mnemonic ++ '#' :: s).dropWhile isSpace = st.mnemonic ++ '#' :: s :=
    dropWhile_of_stops (stops_mnemonic st)
  have htake : (st.mnemonic ++ '#' :: s).takeWhile (fun c => !isSpace c) =
      st.mnemonic ++ '#' :: s.takeWhile fun c => !isSpace c := by
    rw [List.takeWhile_append_of_pos (mnemonic_word st).1]
    rfl
  have hfind : ∀ u, findInstr (st.mnemonic ++ '#' :: u) = some st.inst := by
    intro u
    unfold Stmt.plain at h
    split at h
    · rfl
    · rfl
    · rfl
    · cases h
  simp only [parseInstr, hskip, hspace, htake, hfind, Option.map_some, st.inst_len,
    List.drop_left]

end Y64.Asm
