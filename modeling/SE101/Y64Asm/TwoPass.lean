import Mathlib.Data.List.GetD
import SE101.Y64Asm.Image
import SE101.Y64Asm.Reading
import SE101.Y64Asm.Relocation

set_option relaxedAutoImplicit false
set_option autoImplicit false

/-!
# The assembler refines the reference assembler

On a program of the documented form the three passes of the assembler write the image of the
two-pass reference assembler. The first pass follows the source line by line: its symbol table
is the table of labels, its location counter the one of the reference, and its relocation table
the list of the symbols that are referred to. Relocation then completes the code of each line,
and the loops of `binfile` build the output of the second pass.

## Main definitions

* `Y64.Asm.Along` — lines that match the lines of a program, one by one.
* `Y64.Asm.LineFinal` — the code of a line is what the reference emits for it.

## Main results

* `Y64.Asm.assembleLoop_program` — the first pass.
* `Y64.Asm.relocateLoop_program` — relocation.
* `Y64.Asm.binfile_program` — the output.
* `Y64.Asm.assemble_eq_image` — all of it.
-/

namespace Y64.Asm

open LittleEndian Scan

variable {env : Env} {idx loc : ℕ} {st : State} {l : SrcLine} {prog : List SrcLine}
  {s t input : Chars}

/-! ## Location counters -/

/-- The next multiple of a number, computed with a remainder and with a division. -/
lemma align_eq {n : ℕ} (loc : ℕ) (hn : 0 < n) :
    (loc + n - 1) / n * n = if loc % n = 0 then loc else loc + (n - loc % n) := by
  obtain ⟨q, r, hr, hloc⟩ : ∃ q r, loc % n = r ∧ loc = n * q + r :=
    ⟨_, _, rfl, (Nat.div_add_mod loc n).symm⟩
  have hlt := Nat.mod_lt loc hn
  rw [hr] at hlt ⊢
  split_ifs with h0
  · subst h0
    have hsum : loc + n - 1 = (n - 1) + n * q := by omega
    rw [hsum, Nat.add_mul_div_left _ _ hn, Nat.div_eq_of_lt (by omega), hloc]
    ring
  · have hsum : loc + n - 1 = (r - 1) + n * (q + 1) := by rw [Nat.mul_add]; omega
    rw [hsum, Nat.add_mul_div_left _ _ hn, Nat.div_eq_of_lt (by omega), hloc, Nat.zero_add,
      Nat.add_mul, Nat.one_mul, Nat.mul_comm q]
    omega

/-- A small natural number as a `long`. -/
lemma msb_ofNat {k : ℕ} (h : k < 2 ^ 31) : (BitVec.ofNat 64 k).msb = false := by
  rw [BitVec.msb_eq_false_iff_two_mul_lt, BitVec.toNat_ofNat, Nat.mod_eq_of_lt (by omega)]
  omega

/-- A natural number that fits a `long` is read back from it. -/
lemma toNat_ofNat {k : ℕ} (h : k < 2 ^ 64) : (BitVec.ofNat 64 k).toNat = k := by
  rw [BitVec.toNat_ofNat, Nat.mod_eq_of_lt h]

/-- A positive number that fits a `long` is not zero there. -/
lemma ofNat_ne_zero {k : ℕ} (h0 : 0 < k) (h : k < 2 ^ 64) : BitVec.ofNat 64 k ≠ 0 := fun hk =>
  h0.ne' ((toNat_ofNat h).symm.trans (congrArg BitVec.toNat hk))

/-- The remainder that `.align` computes. -/
lemma cMod_ofNat {n : ℕ} (hloc : loc < 2 ^ 31) (hn : 0 < n) (hn31 : n < 2 ^ 31) :
    cMod (BitVec.ofNat 64 loc) (BitVec.ofNat 64 n) = .ok (BitVec.ofNat 64 (loc % n)) := by
  have hne : BitVec.ofNat 64 n ≠ 0 := ofNat_ne_zero hn (by omega)
  have hmin : BitVec.ofNat 64 loc ≠ BitVec.intMin 64 := by
    intro h
    have := congrArg BitVec.msb h
    rw [msb_ofNat hloc] at this
    exact absurd this (by decide)
  rw [cMod, if_neg fun h => h.elim hne fun h => hmin h.1]
  congr 1
  apply BitVec.eq_of_toNat_eq
  have hlt := Nat.mod_lt loc hn
  rw [BitVec.toNat_srem, msb_ofNat hloc, msb_ofNat hn31]
  simp only [toNat_ofNat (show loc % n < 2 ^ 64 by omega),
    toNat_ofNat (show loc < 2 ^ 64 by omega), toNat_ofNat (show n < 2 ^ 64 by omega)]

/-- The argument of an `.align` that is written as a number. -/
lemma align_lt {n : ℤ} (h : l.Text LetterName t) (hl : l.stmt = some (.align n)) :
    n < 2 ^ 64 := by
  obtain ⟨_, e, ⟨b₁, lab, b₂, body, b₃, -, -, hbody, rfl⟩, -, rfl⟩ := h
  rw [hl] at hbody
  obtain ⟨b, o, -, ho, -, -⟩ := hbody
  exact ho.2.2

/-- The location counter of `parse_line` is the one of the reference. -/
lemma vmaddr_next (h : l.Text LetterName t) (hloc : loc < 2 ^ 31) (hnext : l.next loc < 2 ^ 31)
    (hpos : ∀ v, l.stmt = some (.pos v) → (loc : ℤ) ≤ v)
    (halign : ∀ n, l.stmt = some (.align n) → 0 < n) :
    l.vmaddr (BitVec.ofNat 64 loc) = .ok (BitVec.ofNat 64 (l.next loc)) := by
  obtain ⟨label, stmt⟩ := l
  cases stmt with
  | none => rfl
  | some sm =>
    cases sm with
    | instr i => exact congrArg Except.ok (BitVec.ofNat_add loc (Stmt.instr i).size).symm
    | data w v => exact congrArg Except.ok (BitVec.ofNat_add loc (Stmt.data w v).size).symm
    | pos v =>
      obtain ⟨k, rfl⟩ := Int.eq_ofNat_of_zero_le (a := v)
        ((Int.natCast_nonneg loc).trans (hpos v rfl))
      exact congrArg Except.ok (BitVec.ofInt_natCast 64 k)
    | align n =>
      have hn0 := halign n rfl
      have hn64 := align_lt h rfl
      obtain ⟨k, rfl⟩ := Int.eq_ofNat_of_zero_le hn0.le
      have hk0 : 0 < k := by omega
      have hk64 : k < 2 ^ 64 := by exact_mod_cast hn64
      have hval : (SrcLine.mk label (some (.align k))).next loc =
          if loc % k = 0 then loc else loc + (k - loc % k) := by
        rw [← align_eq loc hk0]
        simp [SrcLine.next]
      rw [hval] at hnext ⊢
      simp only [SrcLine.vmaddr, Stmt.vmaddr, BitVec.ofInt_natCast]
      by_cases hz : loc = 0
      · -- at address zero every argument is accepted, also one that is negative as a `long`
        subst hz
        have hmod : cMod (BitVec.ofNat 64 0) (BitVec.ofNat 64 k) = .ok 0 := by
          rw [cMod, if_neg fun h => h.elim (ofNat_ne_zero hk0 hk64) fun h => by cases h.1]
          exact congrArg Except.ok BitVec.zero_srem
        rw [hmod]
        simp [bind, Except.bind, pure, Except.pure]
      · have hk31 : k < 2 ^ 31 := by
          by_contra hk
          rw [Nat.mod_eq_of_lt (by omega), if_neg hz] at hnext
          omega
        have hlt := Nat.mod_lt loc hk0
        rw [cMod_ofNat hloc hk0 hk31]
        simp only [bind, Except.bind, pure, Except.pure]
        by_cases hr : loc % k = 0
        · rw [hr, if_neg (by simp), if_pos rfl]
        · rw [if_pos (ofNat_ne_zero (Nat.pos_of_ne_zero hr) (by omega)), if_neg hr]
          congr 1
          rw [BitVec.ofNat_add, BitVec.ofNat_sub_ofNat_of_le _ _ (by omega) hlt.le]

/-! ## The first pass -/

/-- What the program reads without having written it: cleared name buffers, and a byte before
the line buffer that is no terminator. -/
structure Env.Cleared (env : Env) : Prop where
  labelBuf : ∀ k, ∀ c ∈ env.labelBuf k, c = '\x00'
  symbolBuf : ∀ k, ∀ c ∈ env.symbolBuf k, c = '\x00'
  before : isTerminator env.before = false

/-- A name in a cleared buffer is the token. -/
lemma nameIn_cleared {buf : Buffer} (h : ∀ c ∈ buf, c = '\x00') (n : Chars) :
    nameIn buf n = n := by
  have hz : (buf.drop n.length).takeWhile (· ≠ '\x00') = [] := by
    cases hd : buf.drop n.length with
    | nil => rfl
    | cons c u =>
      obtain rfl := h c (List.mem_of_mem_drop (hd ▸ List.mem_cons_self))
      rfl
  rw [nameIn, hz, List.append_nil]

/-- The entry of the symbol table for a label. -/
def toSymbol (p : Chars × ℕ) : SymbolT := ⟨p.1, BitVec.ofNat 64 p.2⟩

/-- The entries of the relocation table for a program. -/
def refs : ℕ → List SrcLine → List RelocT
  | _, [] => []
  | idx, l :: prog => (l.symbol.map fun n => ⟨idx, n⟩).toList ++ refs (idx + 1) prog

/-- Lines that match the lines of a program, one by one. A last line without any text, such as
the one behind the last newline, need not have a line. -/
inductive Along (R : SrcLine → Long → LineT → Prop) : ℕ → List SrcLine → List LineT → Prop
  | nil {loc : ℕ} : Along R loc [] []
  | blank {loc : ℕ} : Along R loc [⟨none, none⟩] []
  | cons {loc : ℕ} {l : SrcLine} {prog : List SrcLine} {line : LineT} {lines : List LineT} :
      R l (BitVec.ofNat 64 loc) line → Along R (l.next loc) prog lines →
      Along R loc (l :: prog) (line :: lines)

/-- A symbol is found behind another table when it is not in that one. -/
lemma findSymbol_append_none {symtab symtab' : List SymbolT} {n : Chars} :
    findSymbol (symtab ++ symtab') n = none ↔
      findSymbol symtab n = none ∧ findSymbol symtab' n = none := by
  simp [findSymbol]

/-- One turn of the loop of `assemble` on a line of a program. -/
lemma assembleLine_text {crs nl : Chars} (henv : env.Cleared) (ht : l.Text LetterName t)
    (hcrs : All (· == '\r') crs) (hnl : nl = [] ∨ nl = ['\n'])
    (hvm : st.vmaddr = BitVec.ofNat 64 loc)
    (hnew : ∀ n ∈ l.label, findSymbol st.symtab n = none)
    (hloc : loc < 2 ^ 31) (hnext : l.next loc < 2 ^ 31)
    (hpos : ∀ v, l.stmt = some (.pos v) → (loc : ℤ) ≤ v)
    (halign : ∀ n, l.stmt = some (.align n) → 0 < n) :
    ∃ line, assembleLine env (t ++ crs ++ nl) st = .ok
        { lines := st.lines ++ [line]
          symtab := st.symtab ++ (l.label.map fun n => toSymbol (n, loc)).toList
          reltab := st.reltab ++ (l.symbol.map fun n => ⟨st.lines.length, n⟩).toList
          vmaddr := BitVec.ofNat 64 (l.next loc) } ∧
      LineOk l (BitVec.ofNat 64 loc) line := by
  obtain ⟨s, hs, hstrip⟩ := strip_text henv.before ht hcrs hnl
  have hlabel : ∀ n, nameIn (env.labelBuf st.lines.length) n = n :=
    nameIn_cleared (henv.labelBuf _)
  have hsymbol : ∀ n, nameIn (env.symbolBuf st.lines.length) n = n :=
    nameIn_cleared (henv.symbolBuf _)
  obtain ⟨line, hline, hok⟩ := parseLine_text hs
    (show ∀ n ∈ l.label, findSymbol st.symtab (nameIn (env.labelBuf st.lines.length) n) = none
      from fun n hn => by rw [hlabel]; exact hnew n hn)
    (by rw [hvm]; exact vmaddr_next hs hloc hnext hpos halign)
  refine ⟨line, ?_, hvm ▸ hok⟩
  simp only [assembleLine, hstrip, hline, bind, Except.bind, SrcLine.after, hlabel, hsymbol, hvm,
    toSymbol]
  rfl

/-- The location counter behind a program is below `2 ^ 31`, like the one before it. -/
lemma Forward.lt (h : Forward loc prog) : loc < 2 ^ 31 := by
  cases prog with
  | nil => exact h
  | cons l prog => exact h.1

/-- A line without text has neither a label nor a statement. -/
lemma text_nil (h : l.Text LetterName []) : l = ⟨none, none⟩ := by
  obtain ⟨core, e, ⟨b₁, lab, b₂, body, b₃, -, hlab, hbody, rfl⟩, -, hnil⟩ := h
  have hnil := hnil.symm
  simp only [List.append_eq_nil_iff] at hnil
  obtain ⟨⟨-, rfl, -, rfl, -⟩, -⟩ := hnil
  obtain ⟨label, stmt⟩ := l
  congr 1
  · cases label with
    | none => rfl
    | some n => exact absurd hlab.2.symm (by simp)
  · cases stmt with
    | none => rfl
    | some sm =>
      obtain ⟨b, o, -, -, -, hb⟩ := hbody
      exact absurd (List.append_eq_nil_iff.1 hb.symm).1 (mnemonic_word sm).2

/-- The loop of `assemble` stops at the end of the input. -/
lemma assembleLoop_nil (fuel : ℕ) : assembleLoop env fuel [] st = .ok st := by
  cases fuel <;> rfl

/-- The loop of `assemble` on input that is not at its end. -/
lemma assembleLoop_succ {fuel : ℕ} {asmBuf rest : Chars} (hne : asmBuf ≠ [])
    (h : fgets (maxInslen - 1) input = (asmBuf, rest)) :
    assembleLoop env (fuel + 1) input st =
      (assembleLine env asmBuf st >>= fun st => assembleLoop env fuel rest st) := by
  obtain ⟨c, u, rfl⟩ := List.exists_cons_of_ne_nil hne
  rw [assembleLoop, h]

/-- The loop of `assemble` on a program.

**Proof sketch.** Induct on the program. Its first line is either all that is left of the
input, and the loop stops behind it, or is followed by a newline and the text of the rest. The
line is one turn of the loop, and what it appends to the tables is what the first line of the
program contributes. -/
lemma assembleLoop_program (henv : env.Cleared) : ∀ (prog : List SrcLine) (input : Chars)
    (fuel loc : ℕ) (st : State), IsProgram LetterName prog input → input.length < fuel →
    st.vmaddr = BitVec.ofNat 64 loc → Forward loc prog →
    (∀ l ∈ prog, ∀ n, l.stmt = some (.align n) → 0 < n) →
    (labelNames prog).Nodup → (∀ n ∈ labelNames prog, findSymbol st.symtab n = none) →
    ∃ lines vmaddr, assembleLoop env fuel input st = .ok
        { lines := st.lines ++ lines
          symtab := st.symtab ++ (labels loc prog).map toSymbol
          reltab := st.reltab ++ refs st.lines.length prog
          vmaddr } ∧
      Along LineOk loc prog lines := by
  intro prog
  induction prog with
  | nil =>
    intro input fuel loc st hprog
    rcases splitLines_cases input with ⟨s, rest, -, -, hsplit⟩ | ⟨-, hsplit⟩ <;>
      rw [IsProgram, hsplit] at hprog <;> cases hprog
  | cons l prog ih =>
    intro input fuel loc st hprog hfuel hvm hfwd halign hnodup hnew
    obtain ⟨hloc, hpos, hfwd⟩ := hfwd
    have halign' := halign l (by simp)
    obtain ⟨fuel, rfl⟩ : ∃ m, fuel = m + 1 := ⟨fuel - 1, by omega⟩
    have hlabels : labelNames (l :: prog) = l.label.toList ++ labelNames prog := by
      cases hl : l.label <;> simp [labelNames, hl]
    rw [hlabels] at hnodup hnew
    have hnew' : ∀ n ∈ l.label, findSymbol st.symtab n = none := fun n hn =>
      hnew n (List.mem_append_left _ (Option.mem_toList.2 hn))
    -- the turn for the first line, when the buffer holds its text and perhaps a newline
    have turn : ∀ s nl : Chars, (∃ t crs, l.Text LetterName t ∧ All (· == '\r') crs ∧
        s = t ++ crs) → (nl = [] ∨ nl = ['\n']) →
        ∃ line, assembleLine env (s ++ nl) st = .ok
            { lines := st.lines ++ [line]
              symtab := st.symtab ++ (l.label.map fun n => toSymbol (n, loc)).toList
              reltab := st.reltab ++ (l.symbol.map fun n => ⟨st.lines.length, n⟩).toList
              vmaddr := BitVec.ofNat 64 (l.next loc) } ∧
          LineOk l (BitVec.ofNat 64 loc) line := by
      rintro s nl ⟨t, crs, ht, hcrs, rfl⟩ hnl
      exact assembleLine_text henv ht hcrs hnl hvm hnew' hloc hfwd.lt hpos halign'
    rcases splitLines_cases input with ⟨s, rest, hs, rfl, hsplit⟩ | ⟨hs, hsplit⟩
    · rw [IsProgram, hsplit] at hprog
      obtain ⟨⟨htext, hlen⟩, hprog⟩ := List.forall₂_cons.1 hprog
      obtain ⟨line, hline, hok⟩ := turn s ['\n'] htext (Or.inr rfl)
      have hget : fgets (maxInslen - 1) (s ++ '\n' :: rest) = (s ++ ['\n'], rest) :=
        fgets_line hs (by simp only [maxInslen]; omega)
      obtain ⟨lines, vmaddr, hrest, halong⟩ := ih rest fuel (l.next loc)
        { lines := st.lines ++ [line]
          symtab := st.symtab ++ (l.label.map fun n => toSymbol (n, loc)).toList
          reltab := st.reltab ++ (l.symbol.map fun n => ⟨st.lines.length, n⟩).toList
          vmaddr := BitVec.ofNat 64 (l.next loc) } hprog
        (by simp only [List.length_append, List.length_cons] at hfuel; omega) rfl hfwd
        (fun l hl => halign l (by simp [hl])) (List.nodup_append.1 hnodup).2.1
        (by
          intro n hn
          refine findSymbol_append_none.2 ⟨hnew n (List.mem_append_right _ hn), ?_⟩
          cases hl : l.label with
          | none => rfl
          | some m =>
            have hne : m ≠ n := (List.nodup_append.1 hnodup).2.2 m (by simp [hl]) n hn
            simp [findSymbol, toSymbol, hne])
      refine ⟨line :: lines, vmaddr, ?_, .cons hok halong⟩
      rw [assembleLoop_succ (by simp) hget, hline]
      refine hrest.trans ?_
      simp only [List.append_assoc, List.length_append, List.length_singleton, labels, refs,
        List.map_append]
      cases l.label <;> rfl
    · rw [IsProgram, hsplit] at hprog
      obtain ⟨⟨htext, hlen⟩, hnil⟩ := List.forall₂_cons.1 hprog
      cases hnil
      by_cases hin : input = []
      · subst hin
        obtain ⟨t, crs, ht, -, htc⟩ := htext
        obtain ⟨rfl, rfl⟩ := List.append_eq_nil_iff.1 htc.symm
        obtain rfl := text_nil ht
        refine ⟨[], st.vmaddr, ?_, .blank⟩
        rw [assembleLoop_nil]
        simp [labels, refs, SrcLine.symbol]
      · obtain ⟨line, hline, hok⟩ := turn input [] htext (Or.inl rfl)
        rw [List.append_nil] at hline
        have hget : fgets (maxInslen - 1) input = (input, []) :=
          fgets_last hs (by simp only [maxInslen]; omega)
        refine ⟨[line], BitVec.ofNat 64 (l.next loc), ?_, .cons hok .nil⟩
        rw [assembleLoop_succ hin hget, hline]
        refine (assembleLoop_nil fuel).trans ?_
        simp only [labels, refs, List.append_nil]
        cases l.label <;> rfl

/-! ## Relocation -/

/-- The code of a line is what the reference emits for it. -/
structure LineFinal (sym : Chars → Long) (l : SrcLine) (vmaddr : Long) (line : LineT) : Prop where
  bytes : line.y64bin.bytes = l.size
  type : 0 < l.size → line.type = .ins
  addr : 0 < l.size → line.y64bin.addr = vmaddr
  code : slice line.y64bin.codes 0 l.size = l.code sym

/-- The code of a line depends on the address of its symbol only. -/
lemma code_congr {sym : Chars → Long} {a : Long} (h : ∀ n ∈ l.symbol, sym n = a) :
    (l.code fun _ => a) = l.code sym := by
  obtain ⟨label, stmt⟩ := l
  cases stmt with
  | none => rfl
  | some sm =>
    cases sm with
    | instr i =>
      cases i with
      | irmovq v dst =>
        cases v with
        | lit v => rfl
        | sym n => simp [SrcLine.code, Stmt.code, SrcInstr.resolve, Expr.value, h n rfl]
      | jmp c dest => simp [SrcLine.code, Stmt.code, SrcInstr.resolve, h dest rfl]
      | call dest => simp [SrcLine.code, Stmt.code, SrcInstr.resolve, h dest rfl]
      | halt | nop | ret | cmov | rmmovq | mrmovq | opq | pushq | popq => rfl
    | data w v =>
      cases v with
      | lit v => rfl
      | sym n => simp [SrcLine.code, Stmt.code, Expr.value, h n rfl]
    | pos v => rfl
    | align n => rfl

/-- A line without a symbol is complete when it has been parsed. -/
lemma LineOk.final_none {vmaddr : Long} {line : LineT} (h : LineOk l vmaddr line)
    (hl : l.symbol = none) (sym : Chars → Long) : LineFinal sym l vmaddr line where
  bytes := h.bytes
  type := h.type
  addr := h.addr
  code := by
    have hcode := h.code 0
    rw [relocated, hl, if_neg (by decide)] at hcode
    rw [hcode, code_congr (by simp [hl])]

/-- A line with a symbol is complete when the symbol has been put into it. -/
lemma LineOk.final_some {vmaddr : Long} {line : LineT} {n : Chars} {sym : Chars → Long}
    (h : LineOk l vmaddr line) (hl : l.symbol = some n) :
    LineFinal sym l vmaddr (line.patch (sym n)) where
  bytes := (patch_frame _ _).2.trans h.bytes
  type := h.type
  addr hs := (patch_frame _ _).1.trans (h.addr hs)
  code := by
    have hcode := h.code (sym n)
    simp only [relocated, hl, Option.isSome_some, if_true] at hcode
    refine hcode.trans (code_congr fun m hm => ?_)
    rw [hl] at hm
    rw [Option.some.inj hm]

/-- Changing the first element behind a list. -/
lemma modify_append_cons {α : Type} (f : α → α) (a : α) (ys : List α) :
    ∀ xs : List α, (xs ++ a :: ys).modify xs.length f = xs ++ f a :: ys
  | [] => rfl
  | x :: xs => congrArg (x :: ·) (modify_append_cons f a ys xs)

/-- The loop of `relocate` on the entries of a program.

**Proof sketch.** Induct on the program, with the lines that are done in front. The entry of a
line comes before those of the lines behind it and has the line's index, which is the number of
lines in front. -/
lemma relocateLoop_program (symtab : List SymbolT) (sym : Chars → Long) {lines : List LineT}
    (h : Along LineOk loc prog lines) : ∀ done : List LineT,
    (∀ l ∈ prog, ∀ n ∈ l.symbol, ∃ s, findSymbol symtab n = some s ∧ s.addr = sym n) →
    ∃ lines', relocateLoop symtab (refs done.length prog) (done ++ lines) =
        some (done ++ lines') ∧ Along (LineFinal sym) loc prog lines' := by
  induction h with
  | nil => exact fun done _ => ⟨[], rfl, .nil⟩
  | blank => exact fun done _ => ⟨[], rfl, .blank⟩
  | @cons loc l prog line lines hok _ ih =>
    intro done hsym
    have hsym' : ∀ l ∈ prog, ∀ n ∈ l.symbol, ∃ s, findSymbol symtab n = some s ∧
        s.addr = sym n := fun l hl => hsym l (by simp [hl])
    cases hl : l.symbol with
    | none =>
      obtain ⟨lines', hloop, halong⟩ := ih (done ++ [line]) hsym'
      simp only [List.length_append, List.length_singleton, List.append_assoc,
        List.singleton_append] at hloop
      refine ⟨line :: lines', ?_, .cons (hok.final_none hl sym) halong⟩
      simpa only [refs, hl, Option.map_none, Option.toList_none, List.nil_append] using hloop
    | some n =>
      obtain ⟨s, hfind, haddr⟩ := hsym l (by simp) n hl
      obtain ⟨lines', hloop, halong⟩ := ih (done ++ [line.patch (sym n)]) hsym'
      simp only [List.length_append, List.length_singleton, List.append_assoc,
        List.singleton_append] at hloop
      refine ⟨line.patch (sym n) :: lines', ?_, .cons (hok.final_some hl) halong⟩
      simp only [refs, hl, Option.map_some, Option.toList_some, List.singleton_append,
        relocateLoop, hfind, haddr]
      rw [modify_append_cons, hloop]

/-! ## Symbols -/

/-- A label is found in the symbol table as in the table of labels. -/
lemma findSymbol_map (ls : List (Chars × ℕ)) (n : Chars) :
    findSymbol (ls.map toSymbol) n = (ls.lookup n).map fun a => toSymbol (n, a) := by
  induction ls with
  | nil => rfl
  | cons p ls ih =>
    obtain ⟨m, a⟩ := p
    by_cases hm : m = n
    · subst hm
      simp [findSymbol, toSymbol]
    · have hm' : (n == m) = false := by simp [Ne.symm hm]
      rw [List.lookup_cons, hm']
      simp only [List.map_cons, findSymbol] at ih ⊢
      rw [List.find?_cons_of_neg (by simp [toSymbol, hm]), ih]

/-- Every label has an address. -/
lemma lookup_labels {n : Chars} : ∀ {prog : List SrcLine} (loc : ℕ), n ∈ labelNames prog →
    ∃ a, (labels loc prog).lookup n = some a
  | l :: prog, loc, h => by
    cases hl : l.label with
    | none =>
      simp only [labelNames, List.filterMap_cons, hl] at h
      obtain ⟨a, ha⟩ := lookup_labels (l.next loc) h
      exact ⟨a, by simpa [labels, hl] using ha⟩
    | some m =>
      simp only [labelNames, List.filterMap_cons, hl, List.mem_cons] at h
      by_cases hm : n = m
      · exact ⟨loc, by simp [labels, hl, hm]⟩
      · obtain ⟨a, ha⟩ := lookup_labels (l.next loc) (h.resolve_left hm)
        have hm' : (n == m) = false := by simp [hm]
        exact ⟨a, by simpa [labels, hl, List.lookup_cons, hm'] using ha⟩

/-- The symbol table of a program has the address of every label. -/
lemma findSymbol_labels {n : Chars} (h : n ∈ labelNames prog) :
    findSymbol ((labels 0 prog).map toSymbol) n =
      some (toSymbol (n, address prog n)) := by
  obtain ⟨a, ha⟩ := lookup_labels 0 h
  rw [findSymbol_map, ha, address, ha]
  rfl

/-! ## Output -/

/-- The location counter behind a line with code. -/
lemma next_of_size (loc : ℕ) (h : 0 < l.size) : l.next loc = loc + l.size := by
  obtain ⟨label, stmt⟩ := l
  cases stmt with
  | none => exact absurd h (Nat.lt_irrefl 0)
  | some sm =>
    cases sm with
    | instr i => rfl
    | data w v => rfl
    | pos v => exact absurd h (Nat.lt_irrefl 0)
    | align n => exact absurd h (Nat.lt_irrefl 0)

/-- The location counter does not go backwards. -/
lemma le_next (hpos : ∀ v, l.stmt = some (.pos v) → (loc : ℤ) ≤ v)
    (halign : ∀ n, l.stmt = some (.align n) → 0 < n) : loc ≤ l.next loc := by
  obtain ⟨label, stmt⟩ := l
  cases stmt with
  | none => exact le_rfl
  | some sm =>
    cases sm with
    | instr i => exact Nat.le_add_right _ _
    | data w v => exact Nat.le_add_right _ _
    | pos v =>
      have := hpos v rfl
      simp only [SrcLine.next]
      omega
    | align n =>
      have h0 := halign n rfl
      simp only [SrcLine.next]
      rw [align_eq loc (by omega)]
      split_ifs <;> omega

/-- The size of a line is the length of its code. -/
lemma length_lineCode (l : SrcLine) (sym : Chars → Long) : (l.code sym).length = l.size := by
  obtain ⟨label, stmt⟩ := l
  cases stmt with
  | none => rfl
  | some sm => exact length_code sm sym

/-- The length of an output when code has been placed behind it. -/
lemma length_place {out code : List Byte} (h : out.length ≤ loc) (hne : code ≠ []) :
    (place loc out code).length = loc + code.length := by
  rw [place, if_neg hne]
  simp only [List.length_append, List.length_replicate]
  omega

/-- The bytes of an output when code has been placed behind it. -/
lemma getD_place {out code : List Byte} (h : out.length ≤ loc) (hne : code ≠ []) (k : ℕ) :
    (place loc out code).getD k 0 =
      if loc ≤ k ∧ k < loc + code.length then code.getD (k - loc) 0 else out.getD k 0 := by
  rw [place, if_neg hne]
  have hlen : (out ++ List.replicate (loc - out.length) (0 : Byte)).length = loc := by
    simp only [List.length_append, List.length_replicate]; omega
  by_cases hk : k < loc
  · rw [if_neg (by omega), List.getD_append _ _ _ _ (by omega)]
    by_cases hko : k < out.length
    · rw [List.getD_append _ _ _ _ hko]
    · rw [List.getD_append_right _ _ _ _ (by omega), List.getD_eq_default (l := out) _ (by omega)]
      simp [List.getD_eq_getElem?_getD, List.getElem?_replicate]
      split_ifs <;> rfl
  · rw [List.getD_append_right _ _ _ _ (by omega), hlen]
    by_cases hkc : k < loc + code.length
    · rw [if_pos ⟨by omega, hkc⟩]
    · rw [if_neg (by omega), List.getD_eq_default _ _ (by omega),
        List.getD_eq_default _ _ (by omega)]

/-- The copy of a line into the image. -/
lemma memcpyCodes_ofNat {image : Image} {b : BinT} {k : ℕ} (haddr : b.addr = BitVec.ofNat 64 loc)
    (hloc : loc < 2 ^ 31) (hbytes : loc + b.bytes < 2 ^ 31) (hk : k < 2 ^ 31) :
    memcpyCodes image b (BitVec.ofNat 64 k) =
      if loc ≤ k ∧ k < loc + b.bytes then b.codes (k - loc) else image (BitVec.ofNat 64 k) := by
  have hsub : (BitVec.ofNat 64 k - b.addr).toNat =
      if loc ≤ k then k - loc else 2 ^ 64 - loc + k := by
    rw [haddr, BitVec.toNat_sub, toNat_ofNat (by omega), toNat_ofNat (by omega)]
    split_ifs <;> omega
  rw [memcpyCodes, hsub]
  by_cases hlk : loc ≤ k
  · rw [if_pos hlk]
    by_cases hkb : k < loc + b.bytes
    · rw [if_pos (by omega), if_pos ⟨hlk, hkb⟩]
    · rw [if_neg (by omega), if_neg (by omega)]
  · rw [if_neg hlk, if_neg (by omega), if_neg (by omega)]

/-- The end of a line. -/
lemma endInt_ofNat {b : BinT} (haddr : b.addr = BitVec.ofNat 64 loc)
    (hbytes : loc + b.bytes < 2 ^ 31) : b.endInt = (loc + b.bytes : ℕ) := by
  have hint : b.addr.toInt = loc := by
    rw [haddr, BitVec.toInt_eq_toNat_cond, toNat_ofNat (by omega), if_pos (by omega)]
  rw [endInt_eq (by omega) (by rw [BinT.stop]; omega), BinT.stop, hint, Nat.cast_add]

/-- The two loops of `binfile` build the output of the second pass.

**Proof sketch.** Induct on the program, with the size and the image as they are when the
output so far is complete. A line with code starts at or behind the end of that output, so
placing its code there is copying it into an image that is zero from that end on, and makes its
end the size. -/
lemma binfile_program {sym : Chars → Long} {lines : List LineT}
    (h : Along (LineFinal sym) loc prog lines) : ∀ (out : List Byte) (image : Image),
    Forward loc prog → (∀ l ∈ prog, ∀ n, l.stmt = some (.align n) → 0 < n) →
    out.length ≤ loc → (∀ k < 2 ^ 31, image (BitVec.ofNat 64 k) = out.getD k 0) →
    lines.foldl (fun filesize line => if line.emits then line.y64bin.endInt else filesize)
        (out.length : ℤ) = (emit sym loc out prog).length ∧
      (emit sym loc out prog).length < 2 ^ 31 ∧
      ∀ k < 2 ^ 31, lines.foldl
          (fun image line => if line.emits then memcpyCodes image line.y64bin else image) image
          (BitVec.ofNat 64 k) = (emit sym loc out prog).getD k 0 := by
  induction h with
  | nil =>
    intro out image hfwd _ hout himage
    have hloc := hfwd.lt
    exact ⟨rfl, by rw [emit]; omega, himage⟩
  | blank =>
    intro out image hfwd _ hout himage
    have hloc := hfwd.lt
    refine ⟨rfl, ?_, himage⟩
    simp only [emit, SrcLine.code, place, Option.map_none, Option.getD_none, if_pos]
    omega
  | @cons loc l prog line lines hfin _ ih =>
    intro out image hfwd halign hout himage
    obtain ⟨hloc, hpos, hfwd⟩ := hfwd
    have halign' : ∀ l ∈ prog, ∀ n, l.stmt = some (.align n) → 0 < n := fun l hl =>
      halign l (by simp [hl])
    have hcodelen := length_lineCode l sym
    rw [List.foldl_cons, List.foldl_cons, emit]
    by_cases hsize : l.size = 0
    · have hnil : l.code sym = [] := List.length_eq_zero_iff.1 (hcodelen.trans hsize)
      have hemits : line.emits = false := by simp [LineT.emits, hfin.bytes, hsize]
      rw [hemits, hnil, place, if_pos rfl, if_neg (by decide), if_neg (by decide)]
      exact ih out image hfwd halign' (hout.trans (le_next hpos (halign l (by simp)))) himage
    · have hsize0 : 0 < l.size := Nat.pos_of_ne_zero hsize
      have hne : l.code sym ≠ [] := fun hnil => hsize (by rw [← hcodelen, hnil]; rfl)
      have hemits : line.emits = true := by
        simp [LineT.emits, hfin.bytes, hfin.type hsize0, hsize0]
      have hnext := next_of_size loc hsize0
      have hlt := hfwd.lt
      have hbytes := hfin.bytes
      have haddr := hfin.addr hsize0
      have hlen := length_place hout hne
      rw [hemits, if_pos rfl, if_pos rfl]
      have hend : line.y64bin.endInt = ((place loc out (l.code sym)).length : ℤ) := by
        rw [endInt_ofNat haddr (by omega), hlen, hcodelen, hbytes]
      rw [hend]
      refine ih (place loc out (l.code sym)) _ hfwd halign' (by omega) fun k hk => ?_
      rw [memcpyCodes_ofNat haddr hloc (by omega) hk, getD_place hout hne, hcodelen, hbytes]
      by_cases hin : loc ≤ k ∧ k < loc + l.size
      · rw [if_pos hin, if_pos hin, ← hfin.code, List.getD_eq_getElem _ _ (by simp; omega)]
        simp [slice]
      · rw [if_neg hin, if_neg hin]
        exact himage k hk

/-! ## The whole assembler -/

/-- On a program of the documented form, whose labels are distinct and begin with a letter and
whose location counter goes forward below `2 ^ 31`, the assembler succeeds and writes the image
of the reference assembler. -/
theorem assemble_eq_image (henv : env.Cleared) (hprog : IsProgram LetterName prog input)
    (hwf : WellFormed prog) :
    ∃ st lines, assemble env input = .ok st ∧ relocate st = some lines ∧
      binfile lines = some (image prog) := by
  obtain ⟨parsed, vmaddr, hasm, halong⟩ := assembleLoop_program henv prog input
    (input.length + 1) 0 .init hprog (Nat.lt_succ_self _) rfl hwf.forward hwf.align hwf.nodup
    (fun n _ => rfl)
  obtain ⟨lines, hrel, hfinal⟩ := relocateLoop_program
    ((labels 0 prog).map toSymbol) (fun n => BitVec.ofNat 64 (address prog n)) halong []
    fun l hl n hn => ⟨_, findSymbol_labels (hwf.defined l hl n hn), rfl⟩
  refine ⟨_, lines, hasm, hrel, ?_⟩
  obtain ⟨hsize, hlt, hfill⟩ := binfile_program hfinal [] (fun _ => 0) hwf.forward hwf.align
    le_rfl fun k _ => rfl
  have hfilesize : filesize lines = (image prog).length := hsize
  rw [binfile, if_neg (by omega), hfilesize, Int.toNat_natCast]
  congr 1
  apply List.ext_getElem (by simp)
  intro k hk hk'
  rw [List.getElem_map, List.getElem_range]
  refine (hfill k (hk'.trans hlt)).trans ?_
  exact List.getD_eq_getElem _ _ hk'

/-- The environment in which all memory is zero is cleared. -/
lemma cleared_zero : Env.zero.Cleared where
  labelBuf _ _ hc := List.eq_of_mem_replicate hc
  symbolBuf _ _ hc := List.eq_of_mem_replicate hc
  before := by decide

/-- A program with a jump to the label behind it. -/
def jumpSource : Chars := ['j', 'm', 'p', ' ', 'L', '\n', 'L', ':']

/-- Its meaning. -/
def jumpProgram : List SrcLine := [⟨none, some (.instr (.jmp .yes ['L']))⟩, ⟨some ['L'], none⟩]

/-- The image of a forward reference. -/
theorem assemble_eq_image_jump : ∃ st lines, assemble .zero jumpSource = .ok st ∧
    relocate st = some lines ∧ binfile lines = some [0x70, 9, 0, 0, 0, 0, 0, 0, 0] := by
  have hL : LetterName ['L'] := ⟨⟨by decide, by decide⟩, by decide⟩
  have hprog : IsProgram LetterName jumpProgram jumpSource := by
    refine .cons ⟨⟨['j', 'm', 'p', ' ', 'L'], [], ⟨_, [], ⟨[], [], [], _, [], by simp, rfl,
      ⟨[' '], ['L'], by decide, ⟨hL, rfl⟩, by decide, rfl⟩, rfl⟩, Or.inl rfl, rfl⟩,
      all_nil, rfl⟩, by decide⟩ (.cons ⟨⟨['L', ':'], [], ⟨_, [], ⟨[], _, [], [], [], by simp,
      ⟨hL, rfl⟩, rfl, rfl⟩, Or.inl rfl, rfl⟩, all_nil, rfl⟩, by decide⟩ .nil)
  have hwf : WellFormed jumpProgram := by
    refine ⟨by decide, ?_, ?_, by decide, ?_, by decide, ?_, by unfold Forward; decide⟩
    · intro l hl n hn
      rcases List.mem_cons.1 hl with rfl | hl
      · obtain rfl : ['L'] = n := Option.some.inj hn
        decide
      · obtain rfl := List.mem_singleton.1 hl
        cases hn
    · intro l hl n hn
      rcases List.mem_cons.1 hl with rfl | hl
      · cases hn
      · obtain rfl := List.mem_singleton.1 hl
        cases hn
    · rintro v ⟨⟩
    · rintro v ⟨⟩
  exact assemble_eq_image cleared_zero hprog hwf

/-- A program with a label that begins with a digit. -/
def digitLabelSource : Chars := ['1', 'a', ':']

/-- A label made of a digit and a letter is not accepted. -/
theorem not_assemble_digitLabel :
    Env.zero.Cleared ∧ IsProgram AlnumName [⟨some ['1', 'a'], none⟩] digitLabelSource ∧
      WellFormed [⟨some ['1', 'a'], none⟩] ∧
      assemble .zero digitLabelSource = .error .err := by
  refine ⟨cleared_zero, .cons ⟨⟨['1', 'a', ':'], [], ⟨_, [], ⟨[], _, [], [], [], by simp,
    ⟨⟨by decide, by decide⟩, rfl⟩, rfl, rfl⟩, Or.inl rfl, rfl⟩, all_nil, rfl⟩,
    by decide⟩ .nil, ⟨by decide, ?_, ?_, by decide, ?_, by unfold Forward; decide⟩, rfl⟩
  · intro l hl n hn
    obtain rfl := List.mem_singleton.1 hl
    cases hn
  · intro l hl n hn
    obtain rfl := List.mem_singleton.1 hl
    cases hn
  · rintro v ⟨⟩

end Y64.Asm
