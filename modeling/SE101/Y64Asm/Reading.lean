import SE101.Y64Asm.Lines

set_option relaxedAutoImplicit false
set_option autoImplicit false

/-!
# Reading a source of the documented form

`assemble` reads its input with `fgets` and strips terminators from the end of each line. On a
source whose lines fit the buffer this splits the input at its newlines, and what is left of a
line of the documented form is a line of the same meaning.

## Main results

* `Y64.Asm.fgets_line`, `fgets_last` — a line that fits the buffer.
* `Y64.Asm.strip_text` — the line that `parse_line` gets.
-/

namespace Y64.Asm

open Scan

variable {l : SrcLine} {s t crs nl : Chars}

/-! ## Reading lines -/

/-- A text is a first line and more lines, or one line. -/
lemma splitLines_cases (input : Chars) :
    (∃ s rest, '\n' ∉ s ∧ input = s ++ '\n' :: rest ∧
      splitLines input = s :: splitLines rest) ∨
    ('\n' ∉ input ∧ splitLines input = [input]) := by
  induction input with
  | nil => exact Or.inr ⟨by simp, rfl⟩
  | cons c input ih =>
    by_cases hc : c = '\n'
    · subst hc
      exact Or.inl ⟨[], input, by simp, rfl, by simp [splitLines]⟩
    · rcases ih with ⟨s, rest, hs, rfl, hsplit⟩ | ⟨hs, hsplit⟩
      · refine Or.inl ⟨c :: s, rest, ?_, rfl, ?_⟩
        · simp [hs, Ne.symm hc]
        · rw [splitLines, if_neg hc, hsplit]
          rfl
      · refine Or.inr ⟨by simp [hs, Ne.symm hc], ?_⟩
        rw [splitLines, if_neg hc, hsplit]
        rfl

/-- `fgets` reads a line that fits its buffer. -/
lemma fgets_line {n : ℕ} {rest : Chars} (hs : '\n' ∉ s) (hn : s.length < n) :
    fgets n (s ++ '\n' :: rest) = (s ++ ['\n'], rest) := by
  induction s generalizing n with
  | nil =>
    obtain ⟨n, rfl⟩ : ∃ m, n = m + 1 := ⟨n - 1, by simp at hn; omega⟩
    simp [fgets]
  | cons c s ih =>
    obtain ⟨n, rfl⟩ : ∃ m, n = m + 1 := ⟨n - 1, by simp at hn; omega⟩
    have hc : c ≠ '\n' := fun h => hs (by simp [h])
    rw [List.cons_append, fgets, if_neg hc,
      ih (fun h => hs (by simp [h])) (by simp at hn; omega)]
    rfl

/-- `fgets` reads a last line that fits its buffer. -/
lemma fgets_last {n : ℕ} (hs : '\n' ∉ s) (hn : s.length < n) : fgets n s = (s, []) := by
  induction s generalizing n with
  | nil =>
    obtain ⟨n, rfl⟩ : ∃ m, n = m + 1 := ⟨n - 1, by simp at hn; omega⟩
    rfl
  | cons c s ih =>
    obtain ⟨n, rfl⟩ : ∃ m, n = m + 1 := ⟨n - 1, by simp at hn; omega⟩
    have hc : c ≠ '\n' := fun h => hs (by simp [h])
    rw [fgets, if_neg hc, ih (fun h => hs (by simp [h])) (by simp at hn; omega)]

/-! ## Terminators -/

/-- The loop over terminators strips them from the end of the buffer. Only when there is nothing
else in the buffer does it look below it, and only a terminator there makes it write there. -/
lemma strip_eq_ite (before : Char) (asmBuf : Chars) : strip before asmBuf =
    if asmBuf.all isTerminator = true ∧ isTerminator before = true then .error .underflow
    else .ok (asmBuf.rdropWhile isTerminator) := by
  have hloop : ∀ rev, stripLoop before rev =
      if rev.all isTerminator = true ∧ isTerminator before = true then .error .underflow
      else .ok (rev.dropWhile isTerminator) := by
    intro rev
    induction rev with
    | nil => simp [stripLoop]
    | cons c rev ih =>
      by_cases hc : isTerminator c = true
      · rw [stripLoop, if_pos hc, ih, List.dropWhile_cons_of_pos hc, List.all_cons, hc,
          Bool.true_and]
      · rw [stripLoop, if_neg hc, List.dropWhile_cons_of_neg hc, if_neg]
        rw [List.all_cons, Bool.and_eq_true]
        exact fun h => hc h.1.1
  rw [strip, hloop, List.all_reverse]
  split_ifs <;> rfl

/-- The loop over terminators when there is none below the buffer. -/
lemma strip_eq {before : Char} (hb : isTerminator before = false) (asmBuf : Chars) :
    strip before asmBuf = .ok (asmBuf.rdropWhile isTerminator) := by
  rw [strip_eq_ite, if_neg]
  rw [hb]
  exact fun h => Bool.false_ne_true h.2

/-- The characters of a line before its comment. -/
def isPlain (c : Char) : Bool := c.toNat = 9 || 32 ≤ c.toNat

/-- A plain character ends neither a string nor a line. -/
lemma isPlain_spec {c : Char} (h : isPlain c = true) :
    c ≠ '\x00' ∧ isTerminator c = false := by
  have hc : c.toNat = 9 ∨ 32 ≤ c.toNat := by simpa [isPlain] using h
  constructor
  · rintro rfl
    revert hc
    decide
  · simp only [isTerminator, Bool.or_eq_false_iff, beq_eq_false_iff_ne]
    constructor <;> rintro rfl <;> revert hc <;> decide

/-- A character with a code from 32 on is plain. -/
lemma isPlain_of_le {c : Char} (h : 32 ≤ c.toNat) : isPlain c = true := by
  simp [isPlain, h]

section Plain

/-- Blanks are plain. -/
lemma plain_blank (h : All isBlank s) : All isPlain s := h.mono fun c hc => by
  rw [isBlank_iff] at hc
  rcases hc with hc | hc <;> simp [isPlain, hc]

/-- Digits are plain. -/
lemma plain_digits {base : ℕ} (h : All (isDigitOf base) s) : All isPlain s := h.mono fun c hc =>
  isPlain_of_le (by rw [isDigitOf_iff] at hc; omega)

/-- Names are plain. -/
lemma plain_name {n : Chars} (h : LetterName n) : All isPlain n := by
  obtain ⟨c, u, -, -, hall⟩ := letterName_eq h
  exact hall.mono fun c hc => isPlain_of_le (by rw [isName_iff] at hc; omega)

/-- Numbers are plain. -/
lemma plain_number {v : ℤ} (h : Number s v) : All isPlain s := by
  have hu : ∀ {s n}, Unsigned s n → All isPlain s := by
    rintro s n (⟨-, hds⟩ | hds | ⟨hx, -, hds⟩)
    · exact plain_digits hds
    · exact all_cons.2 ⟨by decide, plain_digits hds⟩
    · refine all_cons.2 ⟨by decide, all_cons.2 ⟨?_, plain_digits hds⟩⟩
      rcases hx with rfl | rfl <;> decide
  obtain ⟨hlit, -, -⟩ := h
  cases hlit with
  | plain h => exact hu h
  | plus h => exact all_cons.2 ⟨by decide, hu h⟩
  | minus h => exact all_cons.2 ⟨by decide, hu h⟩

/-- A register is plain. -/
lemma plain_reg (r : Reg) : All isPlain (regName r) := by
  cases r <;> decide

/-- A comma is plain. -/
lemma plain_comma (h : Comma s) : All isPlain s := by
  obtain ⟨b₁, b₂, h₁, h₂, rfl⟩ := h
  exact all_append.2 ⟨plain_blank h₁, all_cons.2 ⟨by decide, plain_blank h₂⟩⟩

/-- A memory operand is plain. -/
lemma plain_mem {disp : ℤ} {base : Reg} (h : MemText disp base s) : All isPlain s := by
  obtain ⟨t, ht, rfl⟩ := h
  refine all_append.2 ⟨?_, all_cons.2 ⟨by decide, all_append.2 ⟨plain_reg base, ?_⟩⟩⟩
  · rcases ht with ht | ⟨rfl, -⟩
    · exact plain_number ht
    · exact all_nil
  · exact all_cons.2 ⟨by decide, all_nil⟩

/-- The operands of a statement are plain. -/
lemma plain_operands {sm : Stmt} (h : sm.Operands LetterName s) : All isPlain s := by
  cases sm with
  | instr i =>
    cases i with
    | halt | nop | ret =>
      obtain rfl : s = [] := h
      exact all_nil
    | cmov c src dst | opq c src dst =>
      obtain ⟨k, hk, rfl⟩ := h
      exact all_append.2 ⟨plain_reg src, all_append.2 ⟨plain_comma hk, plain_reg dst⟩⟩
    | irmovq v dst =>
      obtain ⟨t, k, ht, hk, rfl⟩ := h
      refine all_append.2 ⟨?_, all_append.2 ⟨plain_comma hk, plain_reg dst⟩⟩
      cases v with
      | lit v =>
        obtain ⟨t, ht, rfl⟩ := ht
        exact all_cons.2 ⟨by decide, plain_number ht⟩
      | sym n =>
        obtain ⟨hn, rfl⟩ := ht
        exact plain_name hn
    | rmmovq src disp base =>
      obtain ⟨k, t, hk, ht, rfl⟩ := h
      exact all_append.2 ⟨plain_reg src, all_append.2 ⟨plain_comma hk, plain_mem ht⟩⟩
    | mrmovq disp base dst =>
      obtain ⟨t, k, ht, hk, rfl⟩ := h
      exact all_append.2 ⟨plain_mem ht, all_append.2 ⟨plain_comma hk, plain_reg dst⟩⟩
    | jmp c dest | call dest =>
      obtain ⟨hd, rfl⟩ := h
      exact plain_name hd
    | pushq r | popq r =>
      obtain rfl : s = regName r := h
      exact plain_reg r
  | data w v =>
    cases v with
    | lit v => exact plain_number h
    | sym n =>
      obtain ⟨hn, rfl⟩ := h
      exact plain_name hn
  | pos v => exact plain_number h
  | align n => exact plain_number h

/-- A line before its comment is plain. -/
lemma plain_core (h : l.Core LetterName s) : All isPlain s := by
  obtain ⟨b₁, lab, b₂, body, b₃, ⟨h₁, h₂, h₃⟩, hlab, hbody, rfl⟩ := h
  have htable : ∀ e ∈ instrSet, All isPlain e.name := by decide
  refine all_append.2 ⟨plain_blank h₁, all_append.2 ⟨?_, all_append.2 ⟨plain_blank h₂,
    all_append.2 ⟨?_, plain_blank h₃⟩⟩⟩⟩
  · cases hl : l.label with
    | none =>
      rw [hl] at hlab
      obtain rfl : lab = [] := hlab
      exact all_nil
    | some n =>
      rw [hl] at hlab
      obtain ⟨hn, rfl⟩ := hlab
      exact all_append.2 ⟨plain_name hn, all_cons.2 ⟨by decide, all_nil⟩⟩
  · cases hs : l.stmt with
    | none =>
      rw [hs] at hbody
      obtain rfl : body = [] := hbody
      exact all_nil
    | some sm =>
      rw [hs] at hbody
      obtain ⟨b, o, hb, ho, -, rfl⟩ := hbody
      have hm := htable _ (List.mem_of_find?_eq_some (findInstr_mnemonic sm))
      rw [sm.inst_name] at hm
      exact all_append.2 ⟨hm, all_append.2 ⟨plain_blank hb, plain_operands ho⟩⟩

end Plain

/-- The line that `parse_line` gets: the text of a line, perhaps with a shorter comment. -/
lemma strip_text {before : Char} (hb : isTerminator before = false) (h : l.Text LetterName t)
    (hcrs : All (· == '\r') crs) (hnl : nl = [] ∨ nl = ['\n']) :
    ∃ s, l.Text LetterName s ∧ strip before (cstr (t ++ crs ++ nl)) = .ok s := by
  obtain ⟨core, e, hcore, he, rfl⟩ := h
  have hplain := plain_core hcore
  have hcore0 : All (fun c => decide (c ≠ '\x00')) core :=
    hplain.mono fun c hc => by simpa using (isPlain_spec hc).1
  have hcoreT : ∀ c ∈ core, isTerminator c = false := fun c hc => (isPlain_spec (hplain c hc)).2
  rw [strip_eq hb]
  rcases he with rfl | ⟨u, rfl⟩
  · refine ⟨core, ⟨core, [], hcore, Or.inl rfl, by simp⟩, ?_⟩
    have hcrs0 : All (fun c => decide (c ≠ '\x00')) (crs ++ nl) := by
      refine all_append.2 ⟨hcrs.mono fun c hc => ?_, ?_⟩
      · obtain rfl : c = '\r' := by simpa using hc
        decide
      · rcases hnl with rfl | rfl
        · exact all_nil
        · exact all_cons.2 ⟨by decide, all_nil⟩
    have hcrsT : All isTerminator (crs ++ nl) := by
      refine all_append.2 ⟨hcrs.mono fun c hc => ?_, ?_⟩
      · obtain rfl : c = '\r' := by simpa using hc
        decide
      · rcases hnl with rfl | rfl
        · exact all_nil
        · exact all_cons.2 ⟨by decide, all_nil⟩
    have hcstr : cstr (core ++ [] ++ crs ++ nl) = core ++ (crs ++ nl) := by
      rw [List.append_nil, List.append_assoc]
      exact takeWhile_of_all (all_append.2 ⟨hcore0, hcrs0⟩)
    rw [hcstr, rdropWhile_append_all hcoreT hcrsT]
  · have hcstr : cstr (core ++ '#' :: u ++ crs ++ nl) = core ++ '#' :: cstr (u ++ crs ++ nl) := by
      rw [cstr, cstr, List.append_assoc, List.append_assoc, List.takeWhile_append_of_pos hcore0]
      simp
    obtain ⟨u', hu'⟩ := rdropWhile_append_cons (p := isTerminator) (s := core)
      (t := cstr (u ++ crs ++ nl)) (c := '#') (by decide)
    refine ⟨core ++ '#' :: u', ⟨core, '#' :: u', hcore, Or.inr ⟨u', rfl⟩, rfl⟩, ?_⟩
    rw [hcstr, hu']

end Y64.Asm
