import Mathlib.Data.List.Find
import SE101.Y64Asm.Assembler
import SE101.Y64Asm.Grammar

set_option relaxedAutoImplicit false
set_option autoImplicit false

/-!
# The lines that the assembler accepts

`parse_line` against the grammar of a line. `parse_instr` takes its token from `sscanf`, compares as
many characters of it as the mnemonic has, and moves by as many, whether or not the token goes on
and whether or not `sscanf` has skipped more than blanks. `find_register` compares as many
characters as the register name has, and `parse_reg` moves by the whole run.

## Main definitions

* `Y64.Asm.Taken` — a statement as the two functions let it through.
* `Y64.Asm.Misspelt` — a line that is let through and is not spelt well.

## Main results

* `Y64.Asm.Operand.scan_iff` — what each operand parser takes.
* `Y64.Asm.parseLine_iff` — the lines that `parse_line` accepts.
* `Y64.Asm.parseLine_grammatical_iff` — when it accepts lines of the grammar only.
* `Y64.Asm.not_parseLine_grammatical` — a register with a digit too many.
-/

namespace Y64.Asm

open Scan

variable {b n s t x rest : Chars} {v : ℤ} {k : Operand} {ks : List Operand} {buf : Buffer}
  {c : Chars} {e : InstrT}

/-! ## Operands -/

/-- What the parser of an operand leaves. -/
def Operand.scan (buf : Buffer) : Operand → Chars → Option Chars
  | .reg, s => (parseReg s).map Prod.snd
  | .imm, s => (parseImm buf s).map Prod.snd
  | .mem, s => (parseMem s).map fun (_, _, s) => s
  | .symbol, s => (parseSymbol buf s).map Prod.snd
  | .data, s => (parseData buf s).map Prod.snd
  | .number, s => (parseDigit s).map Prod.snd

/-- What the parsers of operands and of the commas between them leave. -/
def scanAll (buf : Buffer) : List Operand → Chars → Option Chars
  | [], s => some s
  | [k], s => k.scan buf s
  | k :: l :: ks, s => do
    let s ← k.scan buf s
    let s ← parseDelim ',' s
    scanAll buf (l :: ks) s

/-- Behind the blanks there is no blank. -/
lemma stops_skipBlank (s : Chars) : Stops isBlank (skipBlank s) := stops_dropWhile isBlank s

/-- Skipping blanks twice skips no more than skipping them once. -/
lemma skipBlank_skipBlank (s : Chars) : skipBlank (skipBlank s) = skipBlank s :=
  dropWhile_of_stops (stops_skipBlank s)

/-- The operand parsers skip blanks. -/
lemma Operand.scan_skipBlank (buf : Buffer) (k : Operand) (s : Chars) :
    k.scan buf (skipBlank s) = k.scan buf s := by
  cases k <;> simp only [Operand.scan, parseReg, parseImm, parseMem, parseSymbol, parseData,
    parseDigit, skipBlank_skipBlank]

/-- What `find_register` finds. -/
lemma findRegister_isSome : (findRegister t).isSome = true ↔ ∃ r, regName r <+: t := by
  have htable : ∀ e ∈ regTable, e.name = regName e.id ∧ e.namelen = e.name.length := by decide
  have hname : ∀ e ∈ regTable, strncmpEq t e.name e.namelen = true ↔ regName e.id <+: t := by
    intro e he
    obtain ⟨hid, hlen⟩ := htable e he
    rw [strncmpEq, beq_iff_eq, hlen, List.take_length, ← hid, List.prefix_iff_eq_take, eq_comm]
  rw [findRegister, List.find?_isSome]
  constructor
  · rintro ⟨e, he, h⟩
    exact ⟨e.id, (hname e he).1 h⟩
  · rintro ⟨r, h⟩
    obtain ⟨e, he, rfl⟩ : ∃ e ∈ regTable, e.id = r := by cases r <;> decide
    exact ⟨e, he, (hname e he).2 h⟩

/-- A run that begins with the name of a register. -/
lemma registerRun_iff (hn : All isName n) :
    RegisterRun ('%' :: n) ↔ (findRegister ('%' :: n)).isSome = true := by
  rw [findRegister_isSome]
  constructor
  · rintro ⟨r, junk, -, heq⟩
    exact ⟨r, junk, heq.symm⟩
  · rintro ⟨r, junk, heq⟩
    obtain ⟨m, hm, -⟩ := regName_eq r
    have htail : m ++ junk = n := by
      rw [hm] at heq
      exact (List.cons.inj heq).2
    rw [← htail] at hn
    exact ⟨r, junk, (all_append.1 hn).2, heq.symm⟩

/-- `parse_reg` takes a run that begins with the name of a register. -/
lemma parseReg_iff (hs : Stops isBlank s) :
    (parseReg s).map Prod.snd = some rest ↔
      Stops isName rest ∧ ∃ t, RegisterRun t ∧ s = t ++ rest := by
  have hskip : skipBlank s = s := dropWhile_of_stops hs
  constructor
  · intro h
    unfold parseReg at h
    split at h
    · next u hu =>
      rw [hskip] at hu
      obtain ⟨⟨id, s'⟩, hfind, rfl⟩ := Option.map_eq_some_iff.1 h
      obtain ⟨e, he, heq⟩ := Option.map_eq_some_iff.1 hfind
      obtain ⟨-, rfl⟩ := Prod.mk.inj heq
      have hrun : All isName (u.takeWhile isName) := fun _ hc => List.mem_takeWhile_imp hc
      refine ⟨stops_dropWhile isName u, _, (registerRun_iff hrun).2 (Option.isSome_of_mem he), ?_⟩
      rw [hu, List.cons_append, List.takeWhile_append_dropWhile]
    · cases h
  · rintro ⟨hrest, t, ht, rfl⟩
    obtain ⟨n, rfl, hn⟩ := registerRun_eq ht
    obtain ⟨e, he⟩ := Option.isSome_iff_exists.1 ((registerRun_iff hn).1 ht)
    rw [List.cons_append] at hskip ⊢
    simp only [parseReg, hskip, takeWhile_append hn hrest, dropWhile_append hn hrest, he,
      Option.map_some]

/-- `parse_symbol` takes a name. -/
lemma parseSymbol_iff (buf : Buffer) (rest : Chars) (hs : Stops isBlank s) :
    (parseSymbol buf s).map Prod.snd = some rest ↔
      Stops isName rest ∧ ∃ t, NameText t ∧ s = t ++ rest := by
  have hskip : skipBlank s = s := dropWhile_of_stops hs
  rw [parseSymbol, hskip]
  constructor
  · intro h
    split_ifs at h with hletter
    · obtain rfl := Option.some.inj h
      refine ⟨stops_dropWhile isName s, s.takeWhile isName,
        ⟨fun _ hc => List.mem_takeWhile_imp hc, ?_⟩, List.takeWhile_append_dropWhile.symm⟩
      cases s with
      | nil => cases hletter
      | cons c s =>
        have hc : isLetter c = true := by simpa using hletter
        have hname : isName c = true := by rw [isName, hc, Bool.true_or]
        rw [List.takeWhile_cons_of_pos hname]
        exact hletter
    · cases h
  · rintro ⟨hrest, t, ht, rfl⟩
    obtain ⟨c, u, rfl, hc, hall⟩ := nameText_eq ht
    rw [if_pos (by simpa using hc), dropWhile_append hall hrest, Option.map_some]

/-- `strtoul` behind the test of one character takes a literal. -/
lemma digit_iff (hrest : Stops isName rest) :
    s.head?.any isDigit = true ∧ (strtoul s).2 = rest ↔
      ∃ t, (∃ v, Literal t v) ∧ s = t ++ rest := by
  constructor
  · rintro ⟨hdigit, rfl⟩
    obtain ⟨l, v, hl, hs⟩ := literal_of_strtoul hdigit hrest
    exact ⟨l, ⟨v, hl⟩, hs⟩
  · rintro ⟨t, ⟨v, hl⟩, rfl⟩
    exact ⟨literal_isDigit hl, strtoul_literal hl hrest⟩

/-- `parse_digit` takes a literal. -/
lemma parseDigit_iff (hs : Stops isBlank s) (hrest : Stops isName rest) :
    (parseDigit s).map Prod.snd = some rest ↔ ∃ t, (∃ v, Literal t v) ∧ s = t ++ rest := by
  have hskip : skipBlank s = s := dropWhile_of_stops hs
  rw [parseDigit, hskip, ← digit_iff hrest]
  split_ifs with hdigit
  · simp [hdigit]
  · simp [hdigit]

/-- A letter comes first in a name and a digit or a sign in a literal. -/
lemma nameText_head (h : NameText t) :
    (t ++ s).head?.any isLetter = true ∧ (t ++ s).head?.any isDigit = false := by
  obtain ⟨c, u, rfl, hc, -⟩ := nameText_eq h
  exact ⟨by simpa using hc, by simpa using isDigit_of_isLetter hc⟩

/-- `parse_data` takes a literal or a name. -/
lemma parseData_iff (hs : Stops isBlank s) (hrest : Stops isName rest) :
    (parseData buf s).map Prod.snd = some rest ↔
      ∃ t, ((∃ v, Literal t v) ∨ NameText t) ∧ s = t ++ rest := by
  have hskip : skipBlank s = s := dropWhile_of_stops hs
  have hsymbol := parseSymbol_iff buf rest hs
  rw [parseData, hskip]
  constructor
  · intro h
    split_ifs at h with hdigit hletter
    · obtain ⟨t, ht, hs⟩ := (digit_iff hrest).1 ⟨hdigit, Option.some.inj h⟩
      exact ⟨t, .inl ht, hs⟩
    · have h' : (parseSymbol buf s).map Prod.snd = some rest := by
        simpa [Option.map_map, Function.comp_def] using h
      obtain ⟨-, t, ht, hs⟩ := hsymbol.1 h'
      exact ⟨t, .inr ht, hs⟩
    · cases h
  · rintro ⟨t, ht | ht, rfl⟩
    · obtain ⟨hdigit, heq⟩ := (digit_iff hrest).2 ⟨t, ht, rfl⟩
      rw [if_pos hdigit, Option.map_some, heq]
    · obtain ⟨hletter, hdigit⟩ := nameText_head (s := rest) ht
      rw [if_neg (by rw [hdigit]; decide), if_pos hletter, Option.map_map]
      exact hsymbol.2 ⟨hrest, t, ht, rfl⟩

/-- `parse_imm` takes a literal behind a dollar sign or a name. -/
lemma parseImm_iff (hs : Stops isBlank s) (hrest : Stops isName rest) :
    (parseImm buf s).map Prod.snd = some rest ↔
      ∃ t, ((∃ l v, Literal l v ∧ t = '$' :: l) ∨ NameText t) ∧ s = t ++ rest := by
  have hskip : skipBlank s = s := dropWhile_of_stops hs
  have hsymbol := parseSymbol_iff buf rest hs
  rw [parseImm, hskip]
  constructor
  · intro h
    split at h
    · next u =>
      split_ifs at h with hdigit
      · obtain ⟨l, ⟨v, hl⟩, rfl⟩ := (digit_iff hrest).1 ⟨hdigit, Option.some.inj h⟩
        exact ⟨'$' :: l, .inl ⟨l, v, hl, rfl⟩, rfl⟩
      · cases h
    · split_ifs at h with hletter
      · have h' : (parseSymbol buf s).map Prod.snd = some rest := by
          simpa [Option.map_map, Function.comp_def] using h
        obtain ⟨-, t, ht, hs⟩ := hsymbol.1 h'
        exact ⟨t, .inr ht, hs⟩
      · cases h
  · rintro ⟨t, ⟨l, v, hl, rfl⟩ | ht, rfl⟩
    · obtain ⟨hdigit, heq⟩ := (digit_iff hrest).2 ⟨l, ⟨v, hl⟩, rfl⟩
      simp only [List.cons_append, hdigit, if_true, Option.map_some, heq]
    · obtain ⟨hletter, -⟩ := nameText_head (s := rest) ht
      split
      · next heq =>
        rw [heq, List.head?_cons, Option.any_some] at hletter
        exact absurd hletter (by decide)
      · rw [if_pos hletter, Option.map_map]
        exact hsymbol.2 ⟨hrest, t, ht, rfl⟩

/-- The displacement of `parse_mem`, up to the parenthesis. -/
lemma parseDisp_iff (hs : Stops isBlank s) :
    (parseDisp s).map Prod.snd = some ('(' :: t) ↔
      ∃ d, (d = [] ∨ ∃ v, Literal d v) ∧ s = d ++ '(' :: t := by
  have hparen : Stops isName ('(' :: t) := stops_cons.2 (by decide)
  constructor
  · intro h
    unfold parseDisp at h
    split at h
    · next u => exact ⟨[], .inl rfl, Option.some.inj h⟩
    · obtain ⟨d, hd, hs⟩ := (parseDigit_iff hs hparen).1 h
      exact ⟨d, .inr hd, hs⟩
  · rintro ⟨d, rfl | hd, rfl⟩
    · rfl
    · have hdigit := (parseDigit_iff hs hparen).2 ⟨d, hd, rfl⟩
      obtain ⟨v, hl⟩ := hd
      obtain ⟨c, u, rfl, hc⟩ := literal_head hl
      unfold parseDisp
      split
      · next heq =>
        obtain ⟨rfl, -⟩ := List.cons.inj heq
        exact absurd hc (by decide)
      · exact hdigit

/-- A register run is no blank. -/
lemma stops_registerRun (h : RegisterRun t) : Stops isBlank (t ++ s) := by
  obtain ⟨n, rfl, -⟩ := registerRun_eq h
  exact stops_cons.2 (by decide)

/-- `parse_reg` takes a run behind blanks. -/
lemma parseReg_blank_iff :
    (parseReg s).map Prod.snd = some rest ↔
      Stops isName rest ∧ ∃ b t, All isBlank b ∧ RegisterRun t ∧ s = b ++ (t ++ rest) := by
  have hskip : (parseReg s).map Prod.snd = (parseReg (skipBlank s)).map Prod.snd :=
    (Operand.scan_skipBlank [] .reg s).symm
  rw [hskip, parseReg_iff (stops_skipBlank s)]
  refine and_congr_right fun _ => ⟨?_, ?_⟩
  · rintro ⟨t, ht, heq⟩
    obtain ⟨b, hb, hs⟩ := exists_run isBlank s
    exact ⟨b, t, hb, ht, hs.trans (congrArg (b ++ ·) heq)⟩
  · rintro ⟨b, t, hb, ht, rfl⟩
    exact ⟨t, ht, skipBlank_append hb (stops_registerRun ht)⟩

/-- `parse_mem` takes a displacement that may be missing and a register in parentheses. -/
lemma parseMem_iff (hs : Stops isBlank s) :
    (parseMem s).map (fun (_, _, s) => s) = some rest ↔
      ∃ t, Operand.mem.Core RegisterRun t ∧ s = t ++ rest := by
  have hskip : skipBlank s = s := dropWhile_of_stops hs
  have hparen : Stops isName (')' :: rest) := stops_cons.2 (by decide)
  have hassoc (d b t : Chars) : d ++ '(' :: (b ++ (t ++ [')'])) ++ rest =
      d ++ '(' :: (b ++ (t ++ ')' :: rest)) := by simp
  constructor
  · intro h
    obtain ⟨⟨value, r, s'⟩, hmem, rfl⟩ := Option.map_eq_some_iff.1 h
    rw [parseMem, hskip] at hmem
    obtain ⟨⟨v, s₁⟩, hdisp, hmem⟩ := Option.bind_eq_some_iff.1 hmem
    dsimp only at hmem
    split at hmem
    · next s₂ =>
      obtain ⟨⟨r', s₃⟩, hreg, hmem⟩ := Option.bind_eq_some_iff.1 hmem
      dsimp only at hmem
      split at hmem
      · next s₄ =>
        obtain ⟨-, hmem⟩ := Prod.mk.inj (Option.some.inj hmem)
        obtain ⟨-, rfl⟩ := Prod.mk.inj hmem
        obtain ⟨d, hd, rfl⟩ := (parseDisp_iff hs).1 (by rw [hdisp, Option.map_some])
        obtain ⟨-, b, t, hb, ht, rfl⟩ := parseReg_blank_iff.1 (by rw [hreg, Option.map_some])
        exact ⟨_, ⟨d, b, t, hd, hb, ht, rfl⟩, (hassoc d b t).symm⟩
      · cases hmem
    · cases hmem
  · rintro ⟨_, ⟨d, b, t, hd, hb, ht, rfl⟩, rfl⟩
    rw [hassoc] at hs hskip ⊢
    obtain ⟨⟨v, s₁⟩, hdisp, rfl⟩ := Option.map_eq_some_iff.1
      ((parseDisp_iff hs).2 ⟨d, hd, rfl⟩)
    obtain ⟨⟨r, s₂⟩, hreg, rfl⟩ := Option.map_eq_some_iff.1
      (parseReg_blank_iff.2 ⟨hparen, b, t, hb, ht, rfl⟩)
    simp only [parseMem, hskip, hdisp, hreg, bind, Option.bind, Option.map_some]

/-- What the parser of an operand takes of a text that does not begin with a blank. -/
lemma Operand.core_iff (hs : Stops isBlank s) (hrest : Stops isName rest) :
    k.scan buf s = some rest ↔ ∃ t, k.Core RegisterRun t ∧ s = t ++ rest := by
  cases k with
  | reg => exact (parseReg_iff hs).trans (and_iff_right hrest)
  | imm => exact parseImm_iff hs hrest
  | mem => exact parseMem_iff hs
  | symbol => exact (parseSymbol_iff buf rest hs).trans (and_iff_right hrest)
  | data => exact parseData_iff hs hrest
  | number => exact parseDigit_iff hs hrest

/-- No operand begins with a blank. -/
lemma Operand.Core.stops (h : k.Core RegisterRun t) : Stops isBlank (t ++ s) := by
  have hname : ∀ {t}, NameText t → Stops isBlank (t ++ s) := by
    intro t ht
    obtain ⟨c, u, rfl, -, hall⟩ := nameText_eq ht
    exact stops_cons.2 (isBlank_of_isName c (all_cons.1 hall).1)
  have hlit : ∀ {t v} {s : Chars}, Literal t v → Stops isBlank (t ++ s) := by
    intro t v s ht
    obtain ⟨c, u, rfl, hc⟩ := literal_head ht
    exact stops_cons.2 (isBlank_of_isName c (by rw [isName, hc, Bool.or_true]))
  cases k with
  | reg => exact stops_registerRun h
  | imm =>
    obtain ⟨l, v, -, rfl⟩ | h := h
    · exact stops_cons.2 (by decide)
    · exact hname h
  | mem =>
    obtain ⟨d, b, u, rfl | ⟨v, hl⟩, -, -, rfl⟩ := h
    · exact stops_cons.2 (by decide)
    · rw [List.append_assoc]
      exact hlit hl
  | symbol => exact hname h
  | data =>
    obtain ⟨v, hl⟩ | h := h
    · exact hlit hl
    · exact hname h
  | number =>
    obtain ⟨v, hl⟩ := h
    exact hlit hl

/-- **What the parser of an operand takes.** -/
lemma Operand.scan_iff (hrest : Stops isName rest) :
    k.scan buf s = some rest ↔ ∃ t, k.Text RegisterRun t ∧ s = t ++ rest := by
  rw [← Operand.scan_skipBlank, Operand.core_iff (stops_skipBlank s) hrest]
  constructor
  · rintro ⟨t, ht, heq⟩
    obtain ⟨b, hb, hs⟩ := exists_run isBlank s
    refine ⟨b ++ t, ⟨b, t, hb, ht, rfl⟩, ?_⟩
    rw [List.append_assoc, ← heq]
    exact hs
  · rintro ⟨_, ⟨b, t, hb, ht, rfl⟩, rfl⟩
    refine ⟨t, ht, ?_⟩
    rw [List.append_assoc]
    exact skipBlank_append hb ht.stops

/-- `parse_delim` takes a comma behind blanks. -/
lemma parseDelim_iff :
    parseDelim ',' s = some rest ↔ ∃ b, All isBlank b ∧ s = b ++ ',' :: rest := by
  constructor
  · intro h
    obtain ⟨b, hb, hs⟩ := exists_run isBlank s
    unfold parseDelim at h
    split at h
    · next d u hu =>
      split_ifs at h with hd
      · obtain rfl := Option.some.inj h
        subst hd
        refine ⟨b, hb, ?_⟩
        rw [← hu]
        exact hs
    · cases h
  · rintro ⟨b, hb, rfl⟩
    exact parseDelim_append hb

/-- **What the parsers of operands take.** -/
lemma scanAll_iff (hrest : Stops isName rest) :
    scanAll buf ks s = some rest ↔ ∃ t, OperandsText RegisterRun ks t ∧ s = t ++ rest := by
  induction ks, s using scanAll.induct with
  | case1 s =>
    simp [scanAll, OperandsText]
  | case2 k s => exact Operand.scan_iff hrest
  | case3 k l ks s ih =>
    constructor
    · intro h
      obtain ⟨s₁, hk, hrest₁⟩ := Option.bind_eq_some_iff.1 h
      obtain ⟨s₂, hcomma, hrest₂⟩ := Option.bind_eq_some_iff.1 hrest₁
      obtain ⟨b, hb, rfl⟩ := parseDelim_iff.1 hcomma
      obtain ⟨u, hu, rfl⟩ := (ih s₂).1 hrest₂
      obtain ⟨t, ht, rfl⟩ :=
        (Operand.scan_iff (stops_blanks hb (stops_cons.2 (by decide)))).1 hk
      exact ⟨_, ⟨t, b, u, ht, hb, hu, rfl⟩, by simp⟩
    · rintro ⟨_, ⟨t, b, u, ht, hb, hu, rfl⟩, rfl⟩
      have hassoc : t ++ (b ++ ',' :: u) ++ rest = t ++ (b ++ ',' :: (u ++ rest)) := by simp
      have hk : k.scan buf (t ++ (b ++ ',' :: (u ++ rest))) = some (b ++ ',' :: (u ++ rest)) :=
        (Operand.scan_iff (stops_blanks hb (stops_cons.2 (by decide)))).2 ⟨t, ht, rfl⟩
      have hcomma : parseDelim ',' (b ++ ',' :: (u ++ rest)) = some (u ++ rest) :=
        parseDelim_iff.2 ⟨b, hb, rfl⟩
      rw [hassoc]
      refine Option.bind_eq_some_iff.2 ⟨_, hk, Option.bind_eq_some_iff.2 ⟨_, hcomma, ?_⟩⟩
      exact (ih (u ++ rest)).2 ⟨u, hu, rfl⟩

/-! ## Statements -/

/-- The text behind what `parse_line` has read of the operands. -/
def restOf : Except Stop Parsed → Option Chars
  | .ok (_, _, s) => some s
  | .error _ => none

/-- The division of `.align` has no quotient. -/
def Traps (st : State) (inst : InstrT) (s : Chars) : Prop :=
  inst.name = ['.', 'a', 'l', 'i', 'g', 'n'] ∧
    ∃ value rest stop, parseDigit s = some (value, rest) ∧ cMod st.vmaddr value = .error stop

/-- A parser that fails leaves nothing. -/
lemma restOf_bind {α : Type} (o : Option α) (f : α → Except Stop Parsed) :
    restOf (orErr o >>= f) = o.bind fun a => restOf (f a) := by
  cases o <;> rfl

lemma restOf_pure (st : State) (b : BinT) (s : Chars) : restOf (pure (st, b, s)) = some s := rfl

/-- The operands of the register instructions. -/
lemma restOf_parseRegReg (st : State) (b : BinT) (s : Chars) :
    restOf (parseRegReg st b s) = scanAll buf [.reg, .reg] s := by
  simp only [parseRegReg, restOf_bind, restOf_pure, scanAll, Operand.scan, Option.bind_eq_bind,
    Option.map_eq_bind, Option.bind_assoc, Function.comp_def, Option.bind_some]

/-- The operand of the data directives. -/
lemma restOf_parseDataN (env : Env) (idx m : ℕ) (st : State) (b : BinT) (s : Chars) :
    restOf (parseDataN env idx m st b s) = scanAll (env.symbolBuf idx) [.data] s := by
  simp only [parseDataN, restOf_bind, restOf_pure, scanAll, Operand.scan, Option.map_eq_bind,
    Function.comp_def]

/-- The operand of the directives. -/
lemma restOf_parseDirective (env : Env) (idx : ℕ) (st : State) (b : BinT) (s : Chars)
    (he : e ∈ instrSet) (hdir : IType.ofCode (high e.code) = some .directive) :
    restOf (parseDirective env idx e st b s) = some rest ↔
      scanAll (env.symbolBuf idx) e.operands s = some rest ∧ ¬ Traps st e s := by
  have hnames : ∀ e ∈ instrSet, IType.ofCode (high e.code) = some .directive →
      e.name ∈ [['.', 'p', 'o', 's'], ['.', 'a', 'l', 'i', 'g', 'n'], ['.', 'b', 'y', 't', 'e'],
        ['.', 'w', 'o', 'r', 'd'], ['.', 'l', 'o', 'n', 'g'], ['.', 'q', 'u', 'a', 'd']] := by
    decide
  have hname := hnames e he hdir
  simp only [List.mem_cons, List.not_mem_nil, or_false] at hname
  have hops : e.operands = if e.name = ['.', 'p', 'o', 's'] ∨
      e.name = ['.', 'a', 'l', 'i', 'g', 'n'] then [.number] else [.data] := by
    rw [InstrT.operands, hdir]
  rw [hops, parseDirective, Traps]
  obtain hn | hn | hn | hn | hn | hn := hname
  · simp only [hn, if_true, restOf_bind, restOf_pure, true_or, scanAll, Operand.scan,
      Option.map_eq_bind, Function.comp_def]
    simp
  · rw [hn, if_neg (by decide), if_pos rfl, if_pos (Or.inr rfl), restOf_bind]
    simp only [true_and, scanAll, Operand.scan]
    cases hdigit : parseDigit s with
    | none => simp
    | some r =>
      obtain ⟨value, s'⟩ := r
      rw [Option.bind_some, Option.map_some]
      cases hmod : cMod st.vmaddr value with
      | error stop =>
        refine iff_of_false (by simp [restOf, bind, Except.bind]) fun h => h.2 ?_
        exact ⟨value, s', stop, rfl, hmod⟩
      | ok m =>
        have hquot : ¬ ∃ value' rest' stop, some (value, s') = some (value', rest') ∧
            cMod st.vmaddr value' = .error stop := by
          rintro ⟨value', rest', stop, heq, hstop⟩
          obtain ⟨rfl, -⟩ := Prod.mk.inj (Option.some.inj heq)
          rw [hmod] at hstop
          cases hstop
        rw [and_iff_left hquot]
        simp only [bind, Except.bind]
        split_ifs <;> rfl
  · simp [hn, restOf_parseDataN]
  · simp [hn, restOf_parseDataN]
  · simp [hn, restOf_parseDataN]
  · simp [hn, restOf_parseDataN]

/-- The `switch` of `parse_line` takes the operands of the instruction. -/
lemma restOf_parseOperands (env : Env) (idx : ℕ) (st : State) (b : BinT) (s : Chars)
    (he : e ∈ instrSet) :
    restOf (parseOperands env idx e st b s) = some rest ↔
      scanAll (env.symbolBuf idx) e.operands s = some rest ∧ ¬ Traps st e s := by
  have htype : ∀ e ∈ instrSet, (IType.ofCode (high e.code)).isSome = true := by decide
  have halign : ∀ e ∈ instrSet, e.name = ['.', 'a', 'l', 'i', 'g', 'n'] →
      IType.ofCode (high e.code) = some .directive := by decide
  obtain ⟨t, ht⟩ := Option.isSome_iff_exists.1 (htype e he)
  by_cases hdir : t = .directive
  · subst hdir
    rw [parseOperands, ht]
    exact restOf_parseDirective env idx st b s he ht
  have hplain : ¬ Traps st e s := by
    rintro ⟨hname, -⟩
    rw [halign e he hname] at ht
    exact hdir (Option.some.inj ht).symm
  rw [and_iff_left hplain]
  have hscan : restOf (parseOperands env idx e st b s) =
      scanAll (env.symbolBuf idx) e.operands s := by
    rw [parseOperands, InstrT.operands, ht]
    cases t with
    | halt | nop | ret => rfl
    | rrmovq | alu => exact restOf_parseRegReg st b s
    | directive => exact absurd rfl hdir
    | irmovq | rmmovq | mrmovq | jmp | call | pushq | popq =>
      simp only [restOf_bind, restOf_pure, scanAll, Operand.scan, Option.bind_eq_bind,
        Option.map_eq_bind, Option.bind_assoc, Function.comp_def, Option.bind_some]
  rw [hscan]

/-- A statement as `parse_line` takes it. -/
def Taken (st : State) (s : Chars) : Prop :=
  ∃ e o b c, parseInstr s = some (e, o ++ (b ++ c)) ∧ OperandsText RegisterRun e.operands o ∧
    All isBlank b ∧ LineEnd c ∧ ¬ Traps st e (o ++ (b ++ c))

/-- The test for the end of a line. -/
lemma isEndOrComment_iff : isEndOrComment s = true ↔ LineEnd s := by
  cases s with
  | nil => exact iff_of_true rfl (.inl rfl)
  | cons c s => simp [isEndOrComment, LineEnd]

/-- The test for the end of a line behind blanks. -/
lemma isEnd_skipBlank_iff :
    isEndOrComment (skipBlank s) = true ↔ ∃ b c, All isBlank b ∧ LineEnd c ∧ s = b ++ c := by
  rw [isEndOrComment_iff]
  constructor
  · intro h
    obtain ⟨b, hb, hs⟩ := exists_run isBlank s
    exact ⟨b, _, hb, h, hs⟩
  · rintro ⟨b, c, hb, hc, rfl⟩
    have hstop : Stops isBlank c := by
      obtain rfl | ⟨t, rfl⟩ := hc
      · exact stops_nil
      · exact stops_cons.2 (by decide)
    rw [skipBlank_append hb hstop]
    exact hc

/-- The instructions of `parse_instr` are those of the table. -/
lemma mem_of_parseInstr (h : parseInstr s = some (e, rest)) : e ∈ instrSet := by
  obtain ⟨e', he', heq⟩ := Option.map_eq_some_iff.1 h
  obtain ⟨rfl, -⟩ := Prod.mk.inj heq
  exact List.mem_of_find?_eq_some he'

/-- The size of `.align` is zero, so the address that it aligns is that of its line. -/
lemma traps_iff (he : e ∈ instrSet) (st : State) (s : Chars) :
    Traps { st with vmaddr := st.vmaddr + BitVec.ofNat 64 e.bytes } e s ↔ Traps st e s := by
  have hbytes : ∀ e ∈ instrSet, e.name = ['.', 'a', 'l', 'i', 'g', 'n'] → e.bytes = 0 := by decide
  refine and_congr_right fun hname => ?_
  rw [hbytes e he hname]
  simp

/-- What `parse_line` has read of the operands when they are accepted. -/
lemma restOf_eq_some {r : Except Stop Parsed} :
    restOf r = some rest ↔ ∃ st b, r = .ok (st, b, rest) := by
  cases r with
  | error stop => simp [restOf]
  | ok p =>
    obtain ⟨st, b, s⟩ := p
    simp [restOf]

/-- **Statements.** The statements that `parse_line` accepts. -/
lemma parseInstrLine_iff (env : Env) (idx : ℕ) (y64asm : Chars) (st : State) :
    (∃ r, parseInstrLine env idx y64asm st s = .ok r) ↔ Taken st s := by
  unfold parseInstrLine Taken
  constructor
  · rintro ⟨r, hr⟩
    cases hinstr : parseInstr s with
    | none =>
      rw [hinstr] at hr
      cases hr
    | some p =>
      obtain ⟨e, rest⟩ := p
      have he := mem_of_parseInstr hinstr
      simp only [hinstr, orErr, bind, Except.bind] at hr
      split at hr
      · cases hr
      · next p hp =>
        obtain ⟨st', b', s'⟩ := p
        split_ifs at hr with hend
        · obtain ⟨b, c, hb, hc, rfl⟩ := isEnd_skipBlank_iff.1 hend
          obtain ⟨hscan, htrap⟩ :=
            (restOf_parseOperands env idx _ _ rest he).1 (restOf_eq_some.2 ⟨_, _, hp⟩)
          obtain ⟨o, ho, rfl⟩ := (scanAll_iff (stops_blanks hb hc.stops)).1 hscan
          exact ⟨e, o, b, c, rfl, ho, hb, hc, fun h => htrap ((traps_iff he st _).2 h)⟩
  · rintro ⟨e, o, b, c, hinstr, ho, hb, hc, htrap⟩
    have he := mem_of_parseInstr hinstr
    have hscan : scanAll (env.symbolBuf idx) e.operands (o ++ (b ++ c)) = some (b ++ c) :=
      (scanAll_iff (stops_blanks hb hc.stops)).2 ⟨o, ho, rfl⟩
    obtain ⟨st', b', hp⟩ := restOf_eq_some.1 ((restOf_parseOperands env idx
      { st with vmaddr := st.vmaddr + BitVec.ofNat 64 e.bytes }
      ⟨st.vmaddr, Function.update (fun _ => 0) 0 e.code, e.bytes⟩ _ he).2
      ⟨hscan, fun h => htrap ((traps_iff he st _).1 h)⟩)
    have hend : isEndOrComment (skipBlank (b ++ c)) = true :=
      isEnd_skipBlank_iff.2 ⟨b, c, hb, hc, rfl⟩
    refine ⟨(⟨.ins, b', y64asm⟩, st'), ?_⟩
    simp only [hinstr, orErr, bind, Except.bind, hp, hend, if_true]
    rfl

/-! ## Labels -/

/-- What stands behind the label of a line, if it has one. -/
def behindLabel (buf : Buffer) (s : Chars) : Chars :=
  match parseLabel buf s with
  | some (_, rest) => skipBlank rest
  | none => skipBlank s

/-- The label of a line, if it has one, is not in the symbol table. -/
def LabelNew (buf : Buffer) (st : State) (s : Chars) : Prop :=
  ∀ name rest, parseLabel buf s = some (name, rest) → findSymbol st.symtab name = none

/-- A name and a colon behind blanks are a label. -/
lemma parseLabel_name (hb : All isBlank b) (hn : NameText n) :
    parseLabel buf (b ++ (n ++ ':' :: rest)) = some (nameIn buf n, rest) := by
  obtain ⟨c, u, rfl, hc, hall⟩ := nameText_eq hn
  have hskip : skipBlank (b ++ (c :: u ++ ':' :: rest)) = c :: u ++ ':' :: rest :=
    skipBlank_append hb (stops_cons.2 (isBlank_of_isName c (all_cons.1 hall).1))
  have hcolon : Stops isName (':' :: rest) := stops_cons.2 (by decide)
  have hhead : (c :: u ++ ':' :: rest).head?.any isLetter = true := by simpa using hc
  simp only [parseLabel, hskip, takeWhile_append hall hcolon, dropWhile_append hall hcolon, hhead,
    if_true]

/-- A label is a name and a colon behind blanks. -/
lemma parseLabel_some {name : Chars} (h : parseLabel buf s = some (name, rest)) :
    ∃ b n, All isBlank b ∧ NameText n ∧ s = b ++ (n ++ ':' :: rest) := by
  obtain ⟨b, hb, hs⟩ := exists_run isBlank s
  rw [parseLabel] at h
  split_ifs at h with hletter
  · split at h
    · next u hu =>
      obtain ⟨-, rfl⟩ := Prod.mk.inj (Option.some.inj h)
      refine ⟨b, (skipBlank s).takeWhile isName, hb,
        ⟨fun _ hc => List.mem_takeWhile_imp hc, ?_⟩, ?_⟩
      · cases hskip : skipBlank s with
        | nil =>
          rw [hskip] at hletter
          cases hletter
        | cons c t =>
          rw [hskip] at hletter
          have hc : isLetter c = true := by simpa using hletter
          have hname : isName c = true := by rw [isName, hc, Bool.true_or]
          rw [List.takeWhile_cons_of_pos hname]
          exact hletter
      · rw [← hu, List.takeWhile_append_dropWhile]
        exact hs
    · cases h

/-- A line that does not begin with a letter has no label. -/
lemma parseLabel_of_head (h : (skipBlank s).head?.any isLetter = false) :
    parseLabel buf s = none := by
  rw [parseLabel, if_neg]
  rw [h]
  decide

/-- `parse_label` skips blanks. -/
lemma parseLabel_skipBlank (s : Chars) : parseLabel buf (skipBlank s) = parseLabel buf s := by
  simp only [parseLabel, skipBlank_skipBlank]

/-- The end of a line has no label. -/
lemma parseLabel_of_end (buf : Buffer) (h : LineEnd (skipBlank s)) : parseLabel buf s = none := by
  refine parseLabel_of_head ?_
  obtain h | ⟨t, h⟩ := h <;> rw [h] <;> rfl

section Labelled

variable {env : Env} {idx : ℕ} {st st' : State}

/-- The state behind the label of a line, if it has one. -/
def labelled (env : Env) (idx : ℕ) (s : Chars) (st : State) : Option State :=
  match parseLabel (env.labelBuf idx) s with
  | some (name, _) => addSymbol st name
  | none => some st

/-- A label is entered when it is new. -/
lemma labelled_eq_none : labelled env idx s st = none ↔ ¬ LabelNew (env.labelBuf idx) st s := by
  unfold labelled LabelNew
  cases hlabel : parseLabel (env.labelBuf idx) s with
  | none => simp
  | some p =>
    obtain ⟨name, u⟩ := p
    cases hfind : findSymbol st.symtab name <;> simp [addSymbol, hfind]

/-- A label does not move the location counter. -/
lemma labelled_vmaddr (h : labelled env idx s st = some st') : st'.vmaddr = st.vmaddr := by
  unfold labelled at h
  split at h
  · unfold addSymbol at h
    split_ifs at h
    obtain rfl := Option.some.inj h
    rfl
  · obtain rfl := Option.some.inj h
    rfl

/-- `parse_line` on a line that does not end before its statement. -/
lemma parseLine_statement
    (h : isEndOrComment (behindLabel (env.labelBuf idx) s) = false) :
    parseLine env idx s st = (orErr (labelled env idx s st) >>= fun st =>
      parseInstrLine env idx s st (behindLabel (env.labelBuf idx) s)) := by
  unfold behindLabel at h ⊢
  rw [parseLine, parseLabel_skipBlank, labelled]
  cases hlabel : parseLabel (env.labelBuf idx) s with
  | none =>
    rw [hlabel] at h
    rw [if_neg (by rw [h]; decide)]
    rfl
  | some p =>
    obtain ⟨name, u⟩ := p
    rw [hlabel] at h
    have hend : isEndOrComment (skipBlank s) ≠ true := by
      intro hend
      have := parseLabel_of_end (env.labelBuf idx) (isEndOrComment_iff.1 hend)
      rw [hlabel] at this
      cases this
    rw [if_neg hend]
    simp only [h, Bool.false_eq_true, if_false]

/-- `parse_line` on a line that ends before its statement. -/
lemma parseLine_of_end (st : State)
    (h : isEndOrComment (behindLabel (env.labelBuf idx) s) = true) :
    ∃ f : State → LineT, parseLine env idx s st =
      (orErr (labelled env idx s st) >>= fun st => .ok (f st, st)) := by
  unfold behindLabel at h
  rw [parseLine, parseLabel_skipBlank, labelled]
  by_cases hend : isEndOrComment (skipBlank s) = true
  · rw [parseLabel_of_end (env.labelBuf idx) (isEndOrComment_iff.1 hend), if_pos hend]
    exact ⟨fun _ => ⟨.comm, .zero, s⟩, rfl⟩
  · rw [if_neg hend]
    cases hlabel : parseLabel (env.labelBuf idx) s with
    | none =>
      rw [hlabel] at h
      exact absurd h hend
    | some p =>
      obtain ⟨name, u⟩ := p
      rw [hlabel] at h
      simp only [h, if_true]
      exact ⟨fun st => ⟨.ins, { BinT.zero with addr := st.vmaddr }, s⟩, rfl⟩

end Labelled

/-- **Lines.** The lines that `parse_line` accepts. -/
lemma parseLine_iff (env : Env) (idx : ℕ) (s : Chars) (st : State) :
    (∃ r, parseLine env idx s st = .ok r) ↔ LabelNew (env.labelBuf idx) st s ∧
      (LineEnd (behindLabel (env.labelBuf idx) s) ∨
        Taken st (behindLabel (env.labelBuf idx) s)) := by
  rw [parseLine, parseLabel_skipBlank]
  by_cases hend : isEndOrComment (skipBlank s) = true
  · have hline := isEndOrComment_iff.1 hend
    have hlabel := parseLabel_of_end (env.labelBuf idx) hline
    rw [if_pos hend]
    refine iff_of_true ⟨_, rfl⟩ ⟨?_, .inl ?_⟩
    · rintro name rest h
      rw [hlabel] at h
      cases h
    · rwa [behindLabel, hlabel]
  · rw [if_neg hend]
    cases hlabel : parseLabel (env.labelBuf idx) s with
    | none =>
      have hline : ¬ LineEnd (skipBlank s) := fun h => hend (isEndOrComment_iff.2 h)
      have hnew : LabelNew (env.labelBuf idx) st s := by
        rintro name rest h
        rw [hlabel] at h
        cases h
      rw [behindLabel, hlabel, and_iff_right hnew, or_iff_right hline]
      exact parseInstrLine_iff env idx s st
    | some p =>
      obtain ⟨name, rest⟩ := p
      have hnew : LabelNew (env.labelBuf idx) st s ↔ findSymbol st.symtab name = none := by
        rw [LabelNew, hlabel]
        simp
      rw [behindLabel, hlabel, hnew]
      cases hfind : findSymbol st.symtab name with
      | some sym => simp [addSymbol, hfind, orErr, bind, Except.bind]
      | none =>
        have hadd : addSymbol st name =
            some { st with symtab := st.symtab ++ [⟨name, st.vmaddr⟩] } := by
          simp [addSymbol, hfind]
        rw [and_iff_right rfl, ← isEndOrComment_iff]
        simp only [hadd, orErr, bind, Except.bind]
        split_ifs with hend'
        · exact iff_of_true ⟨_, rfl⟩ (.inl hend')
        · exact (parseInstrLine_iff env idx s _).trans (or_iff_right hend').symm

/-! ## The grammar -/

/-- A mnemonic is a name or does not begin with a letter. -/
lemma instrSet_name : ∀ e ∈ instrSet, All isName e.name ∨ e.name.head?.any isLetter = false := by
  decide

/-- A text that begins with a mnemonic begins with no white space. -/
lemma stops_instrSet (he : e ∈ instrSet) : Stops isSpace (e.name ++ rest) :=
  stops_append_of_all (instrSet_word e he).1 (instrSet_word e he).2 fun c hc => by simpa using hc

/-- What sets a mnemonic off is no part of a name, no colon and no part of a word but for a
comment. -/
lemma separated_cases (h : Separated s) :
    s = [] ∨ (∃ c u, s = c :: u ∧ isBlank c = true) ∨ ∃ u, s = '#' :: u := by
  obtain _ | ⟨c, u⟩ := s
  · exact .inl rfl
  · have hc := stops_cons.1 h
    by_cases hcomment : c = '#'
    · exact .inr (.inr ⟨u, by rw [hcomment]⟩)
    · refine .inr (.inl ⟨c, u, rfl, ?_⟩)
      simpa [hcomment] using hc

/-- A statement has no label. -/
lemma parseLabel_statement (he : e ∈ instrSet) (hsep : Separated rest) :
    parseLabel buf (e.name ++ rest) = none := by
  have hne := (instrSet_word e he).2
  obtain hall | hhead := instrSet_name e he
  · obtain rfl | ⟨c, u, rfl, hc⟩ | ⟨u, rfl⟩ := separated_cases hsep
    · exact parseLabel_of_stops buf hall hne stops_nil (by simp)
    · refine parseLabel_of_stops buf hall hne (stops_cons.2 (isName_of_isBlank c hc)) ?_
      intro heq
      obtain rfl := Option.some.inj heq
      cases hc
    · exact parseLabel_of_stops buf hall hne (stops_cons.2 (by decide)) (by simp)
  · refine parseLabel_of_head ?_
    have hskip : skipBlank (e.name ++ rest) = e.name ++ rest :=
      dropWhile_of_stops (stops_isBlank (stops_instrSet he))
    obtain ⟨c, u, hname⟩ := List.exists_cons_of_ne_nil hne
    rw [hskip, hname]
    rwa [hname] at hhead

/-- A text that begins with a mnemonic and a comment has no longer prefix without a comment. -/
lemma prefix_comment {l m u : Chars} (hl : '#' ∉ l) (h : l <+: m ++ '#' :: u) : l <+: m := by
  have hlen : l.length ≤ m.length := by
    by_contra hlt
    have hm : m ++ ['#'] <+: m ++ '#' :: u := ⟨u, by simp⟩
    have hle : (m ++ ['#']).length ≤ l.length := by
      rw [List.length_append, List.length_singleton]
      omega
    have hpre : m ++ ['#'] <+: l := List.prefix_of_prefix_length_le hm h hle
    exact hl (hpre.subset (by simp))
  exact List.prefix_of_prefix_length_le h (List.prefix_append _ _) hlen

/-- What `find_instr` compares. -/
lemma strncmpEq_instr (he : e ∈ instrSet) : strncmpEq e.name t e.len = true ↔ e.name <+: t := by
  have hlen : ∀ e ∈ instrSet, e.len = e.name.length := by decide
  rw [strncmpEq, beq_iff_eq, hlen e he, List.take_length, List.prefix_iff_eq_take]

/-- `find_instr` finds an entry by its mnemonic with nothing or a comment behind it. -/
lemma findInstr_name (he : e ∈ instrSet) (h : t = e.name ∨ ∃ u, t = e.name ++ '#' :: u) :
    findInstr t = some e := by
  have hself : ∀ e ∈ instrSet, findInstr e.name = some e := by decide
  have hcomment : ∀ e ∈ instrSet, '#' ∉ e.name := by decide
  obtain rfl | ⟨u, rfl⟩ := h
  · exact hself e he
  · rw [← hself e he]
    refine List.find?_congr fun e' he' => ?_
    rw [Bool.eq_iff_iff, strncmpEq_instr he', strncmpEq_instr he']
    exact ⟨prefix_comment (hcomment e' he'), fun h => h.trans (List.prefix_append _ _)⟩

/-- `parse_instr` finds a mnemonic that is set off. -/
lemma parseInstr_separated (he : e ∈ instrSet) (hsep : Separated rest) :
    parseInstr (e.name ++ rest) = some (e, rest) := by
  have hlen : ∀ e ∈ instrSet, e.len = e.name.length := by decide
  have hword := (instrSet_word e he).1
  have hskip : skipBlank (e.name ++ rest) = e.name ++ rest :=
    dropWhile_of_stops (stops_isBlank (stops_instrSet he))
  have hspace : (e.name ++ rest).dropWhile isSpace = e.name ++ rest :=
    dropWhile_of_stops (stops_instrSet he)
  have hfind : findInstr ((e.name ++ rest).takeWhile fun c => !isSpace c) = some e := by
    rw [List.takeWhile_append_of_pos hword]
    refine findInstr_name he ?_
    obtain rfl | ⟨c, u, rfl, hc⟩ | ⟨u, rfl⟩ := separated_cases hsep
    · exact .inl (by simp)
    · left
      have hblank : isSpace c = true := by
        rw [isBlank_iff] at hc
        rw [isSpace_iff]
        omega
      simp [hblank]
    · exact .inr ⟨_, rfl⟩
  simp only [parseInstr, hskip, hspace, hfind, Option.map_some, hlen e he, List.drop_left]

/-- A statement that is taken and is spelt well is one of the grammar. -/
lemma Taken.statementText {st : State} (h : Taken st s) (hs : Spelt s) : StatementText s := by
  obtain ⟨e, o, b, c, hinstr, ho, hb, hc, -⟩ := h
  obtain ⟨⟨e', he', rest, rfl, hsep⟩, hregs⟩ := hs
  rw [parseInstr_separated he' hsep] at hinstr
  obtain ⟨rfl, rfl⟩ := Prod.mk.inj (Option.some.inj hinstr)
  rw [exactRegs_append (instrSet_isOrdinary e' he')] at hregs
  exact ⟨e', he', o, b, c, ho.exact (stops_blanks hb hc.stops) hregs, hb, hc, hsep, rfl⟩

/-- The end of a line has no mnemonic. -/
lemma parseInstr_of_end (h : LineEnd s) : parseInstr s = none := by
  have hcomment : ∀ e ∈ instrSet, e.name.head? ≠ some '#' := by decide
  have hnone (w : Chars) : findInstr ('#' :: w) = none := by
    refine List.find?_eq_none.2 fun e he heq => ?_
    obtain ⟨c, u, hname⟩ := List.exists_cons_of_ne_nil (instrSet_word e he).2
    have hpre := (strncmpEq_instr he).1 heq
    rw [hname] at hpre
    refine hcomment e he ?_
    rw [hname, (List.cons_prefix_cons.1 hpre).1, List.head?_cons]
  obtain rfl | ⟨t, rfl⟩ := h
  · rfl
  · have hword : parseInstr ('#' :: t) =
        (findInstr ('#' :: t.takeWhile fun c => !isSpace c)).map fun inst =>
          (inst, ('#' :: t).drop inst.len) := rfl
    rw [hword, hnone]
    rfl

/-- The end of a line is no statement. -/
lemma not_taken_of_end {st : State} (h : LineEnd s) : ¬ Taken st s := by
  rintro ⟨e, o, b, c, hinstr, -⟩
  rw [parseInstr_of_end h] at hinstr
  cases hinstr

/-- The lines of the grammar, by what stands behind the label. -/
lemma grammatical_iff (buf : Buffer) : Grammatical s ↔
    LineEnd (behindLabel buf s) ∨ StatementText (behindLabel buf s) := by
  constructor
  · rintro ⟨b₁, lab, b₂, body, hb₁, hlab, hb₂, hbody, rfl⟩
    obtain ⟨hstop, hnone⟩ : Stops isBlank body ∧ parseLabel buf body = none := by
      obtain (rfl | ⟨t, rfl⟩) | ⟨e, he, o, b, c, -, -, -, hsep, rfl⟩ := hbody
      · exact ⟨stops_nil, rfl⟩
      · exact ⟨stops_cons.2 (by decide), rfl⟩
      · exact ⟨stops_isBlank (stops_instrSet he), parseLabel_statement he hsep⟩
    have hbehind : behindLabel buf (b₁ ++ (lab ++ (b₂ ++ body))) = body := by
      obtain rfl | ⟨n, hn, rfl⟩ := hlab
      · have hskip : skipBlank (b₁ ++ ([] ++ (b₂ ++ body))) = body := by
          rw [List.nil_append, ← List.append_assoc]
          exact skipBlank_append (all_append.2 ⟨hb₁, hb₂⟩) hstop
        rw [behindLabel, ← parseLabel_skipBlank, hskip, hnone]
      · have hassoc : b₁ ++ (n ++ [':'] ++ (b₂ ++ body)) = b₁ ++ (n ++ ':' :: (b₂ ++ body)) := by
          simp
        rw [hassoc, behindLabel, parseLabel_name hb₁ hn]
        exact skipBlank_append hb₂ hstop
    rwa [hbehind]
  · intro h
    cases hlabel : parseLabel buf s with
    | none =>
      rw [behindLabel, hlabel] at h
      obtain ⟨b, hb, hs⟩ := exists_run isBlank s
      exact ⟨b, [], [], skipBlank s, hb, .inl rfl, all_nil, h, hs⟩
    | some p =>
      obtain ⟨name, rest⟩ := p
      rw [behindLabel, hlabel] at h
      obtain ⟨b, n, hb, hn, rfl⟩ := parseLabel_some hlabel
      obtain ⟨b', hb', hrest⟩ := exists_run isBlank rest
      refine ⟨b, n ++ [':'], b', skipBlank rest, hb, .inr ⟨n, hn, rfl⟩, hb', h, ?_⟩
      rw [List.append_assoc, List.singleton_append]
      exact congrArg (fun u => b ++ (n ++ ':' :: u)) hrest

/-- A line is let through, and its statement is not spelt well. -/
def Misspelt (env : Env) (idx : ℕ) (st : State) (s : Chars) : Prop :=
  LabelNew (env.labelBuf idx) st s ∧ Taken st (behindLabel (env.labelBuf idx) s) ∧
    ¬ Spelt (behindLabel (env.labelBuf idx) s)

/-- **The grammar.** `parse_line` accepts a line only if it is one of the grammar, if and only if
the line is not a misspelt statement that it takes. -/
theorem parseLine_grammatical_iff (env : Env) (idx : ℕ) (st : State) (s : Chars) :
    ((∃ r, parseLine env idx s st = .ok r) → Grammatical s) ↔ ¬ Misspelt env idx st s := by
  rw [parseLine_iff, grammatical_iff (env.labelBuf idx)]
  constructor
  · rintro hgram ⟨hnew, htaken, hspelt⟩
    obtain hend | hstmt := hgram ⟨hnew, .inr htaken⟩
    · exact not_taken_of_end hend htaken
    · exact hspelt hstmt.spelt
  · rintro hmiss ⟨hnew, hend | htaken⟩
    · exact .inl hend
    · refine .inr (htaken.statementText ?_)
      by_contra hspelt
      exact hmiss ⟨hnew, htaken, hspelt⟩

/-- `pushq %rax5` is accepted, and `%rax5` is no register. -/
theorem not_parseLine_grammatical :
    (∃ r, parseLine .zero 0 ['p', 'u', 's', 'h', 'q', ' ', '%', 'r', 'a', 'x', '5'] .init =
        .ok r) ∧
      ¬ Grammatical ['p', 'u', 's', 'h', 'q', ' ', '%', 'r', 'a', 'x', '5'] := by
  refine ⟨⟨_, rfl⟩, fun h => ?_⟩
  obtain (h | ⟨t, h⟩) | h := (grammatical_iff []).1 h
  · cases h
  · cases h
  · exact absurd h.spelt.2 (by decide)

end Y64.Asm
