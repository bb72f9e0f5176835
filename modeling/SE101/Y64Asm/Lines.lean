import SE101.Y64Asm.Assembler
import SE101.Y64Asm.Tokens

set_option relaxedAutoImplicit false
set_option autoImplicit false

/-!
# Parsing documented lines

What `parse_line` does on a line of the documented form: it binds the label, enters the symbol
of the statement for relocation, advances the location counter, and leaves code that is the
encoding of the statement once the symbol has been put into it.

## Main definitions

* `Y64.Asm.SrcLine.after` — the globals behind a line.
* `Y64.Asm.LineOk` — a parsed line is right for a line of the source.

## Main results

* `Y64.Asm.final_code` — the code of a statement, after relocation.
* `Y64.Asm.parseLine_text` — `parse_line` on a line of the documented form.
-/

namespace Y64.Asm

open LittleEndian Scan

variable {env : Env} {idx : ℕ} {st : State} {b o s : Chars}

/-! ## Code -/

/-- The `y64bin` of a line when its instruction has been read. -/
def startBin (addr : Long) (inst : InstrT) : BinT :=
  ⟨addr, Function.update (fun _ => 0) 0 inst.code, inst.bytes⟩

/-- The `y64bin` after the operands of an instruction have been read. -/
def SrcInstr.bin (b : BinT) : SrcInstr → BinT
  | .halt | .nop | .ret | .jmp .. | .call _ => b
  | .cmov _ src dst | .opq _ src dst => b.putRegs (some src) (some dst)
  | .irmovq (.lit v) dst => (b.put 2 8 (BitVec.ofInt 64 v)).putRegs none (some dst)
  | .irmovq (.sym _) dst => b.putRegs none (some dst)
  | .rmmovq src disp base =>
    (b.putRegs (some src) (some base)).put 2 8 (BitVec.ofInt 64 disp)
  | .mrmovq disp base dst =>
    (b.putRegs (some dst) (some base)).put 2 8 (BitVec.ofInt 64 disp)
  | .pushq r | .popq r => b.putRegs (some r) none

/-- The `y64bin` after the operands of a statement have been read. -/
def Stmt.bin (b : BinT) : Stmt → BinT
  | .instr i => i.bin b
  | .data w (.lit v) => b.put 0 w.bytes (BitVec.ofInt 64 v)
  | .data _ (.sym _) | .pos _ | .align _ => b

/-- The code of a line after relocation, if it refers to a symbol. -/
def relocated (symbol : Option Chars) (b : BinT) (addr : Long) : BinT :=
  if symbol.isSome then patch b addr else b

/-- The code of an instruction with registers and a constant. -/
lemma slice_ten {m : Memory} {x y : Byte} {v : ℕ} (h0 : m 0 = x) (h1 : m 1 = y)
    (h2 : slice m 2 8 = digits 8 v) : slice m 0 10 = x :: y :: digits 8 v := by
  rw [slice_succ, slice_succ, h0, h1, h2]

/-- The code of an instruction with a constant only. -/
lemma slice_nine {m : Memory} {x : Byte} {v : ℕ} (h0 : m 0 = x)
    (h1 : slice m 1 8 = digits 8 v) : slice m 0 9 = x :: digits 8 v := by
  rw [slice_succ, h0, h1]

/-- The code of an instruction with registers only. -/
lemma slice_two {m : Memory} {x y : Byte} (h0 : m 0 = x) (h1 : m 1 = y) :
    slice m 0 2 = [x, y] := by
  rw [slice_succ, slice_succ, h0, h1, slice_zero]

/-- The code of an instruction without operands. -/
lemma slice_one {m : Memory} {x : Byte} (h0 : m 0 = x) : slice m 0 1 = [x] := by
  rw [slice_succ, h0, slice_zero]

/-- The first byte of the code of an instruction. -/
lemma firstByte_eq (i : SrcInstr) (sym : Chars → Long) :
    i.firstByte = nibbles (i.resolve sym).itype.code (i.resolve sym).ifun := by
  rw [SrcInstr.firstByte, hpack_eq_nibbles (IType.code_lt _) (Ref.Instr.ifun_lt _)]
  cases i <;> rfl

/-- The type of an instruction can be read off its first byte. -/
lemma itype_firstByte (i : SrcInstr) :
    IType.ofCode (high i.firstByte) = some (i.resolve fun _ => 0).itype := by
  rw [SrcInstr.firstByte, high_hpack (IType.code_lt _) (Ref.Instr.ifun_lt _),
    IType.ofCode_code]

section Put

variable (c : BinT) (hi lo : RegId) {k pos n : ℕ} {value : Long}

lemma putRegs_zero : (c.putRegs hi lo).codes 0 = c.codes 0 :=
  Function.update_of_ne Nat.zero_ne_one (hpack hi.code lo.code) c.codes

lemma putRegs_one : (c.putRegs hi lo).codes 1 = nibbles hi.code lo.code := by
  rw [← hpack_eq_nibbles hi.code_lt lo.code_lt]
  exact Function.update_self 1 (hpack hi.code lo.code) c.codes

lemma put_apply (h : k < pos) : (c.put pos n value).codes k = c.codes k :=
  store_apply_of_notMem (Or.inl h)

lemma slice_put : slice (c.put pos n value).codes pos n = digits n value.toNat :=
  slice_store_self

end Put

/-- `relocate` puts a symbol behind the first byte or the first two. -/
lemma patch_eq {b : BinT} {addr : Long}
    (h : IType.ofCode (high (b.codes 0)) = some .irmovq ∨
      IType.ofCode (high (b.codes 0)) = some .jmp ∨
      IType.ofCode (high (b.codes 0)) = some .call) :
    patch b addr = b.put (b.bytes - 8) 8 addr := by
  unfold patch
  rcases h with h | h | h <;> rw [h]

/-- `relocate` puts a symbol into a datum. -/
lemma patch_data {b : BinT} {addr : Long} {w : Width}
    (h : IType.ofCode (high (b.codes 0)) = some .directive) (hb : b.bytes = w.bytes) :
    patch b addr = b.put 0 w.bytes addr := by
  unfold patch
  rw [h]
  cases w <;> simp [hb, Width.bytes]

section Code

variable {addr a : Long}

/-- The code of an instruction, after relocation. -/
lemma final_instr (i : SrcInstr) :
    slice (relocated i.symbol (i.bin (startBin addr (Stmt.instr i).inst)) a).codes 0
      (Stmt.instr i).size = (i.resolve fun _ => a).encode := by
  have h0 : (startBin addr (Stmt.instr i).inst).codes 0 =
      nibbles (i.resolve fun _ => a).itype.code (i.resolve fun _ => a).ifun :=
    firstByte_eq i _
  -- the memories are those of the forms: no operands, registers, a constant, or both
  cases i with
  | halt | nop | ret => exact slice_one h0
  | cmov c src dst | opq c src dst =>
    exact slice_two ((putRegs_zero _ _ _).trans h0) (putRegs_one _ _ _)
  | pushq r | popq r =>
    exact slice_two ((putRegs_zero _ _ _).trans h0) (putRegs_one _ _ _)
  | rmmovq src disp base | mrmovq disp base dst =>
    refine slice_ten ?_ ?_ (slice_put _)
    · exact (put_apply _ Nat.two_pos).trans ((putRegs_zero _ _ _).trans h0)
    · exact (put_apply _ Nat.one_lt_two).trans (putRegs_one _ _ _)
  | irmovq v dst =>
    cases v with
    | lit v =>
      refine slice_ten ?_ (putRegs_one _ _ _) ?_
      · exact (putRegs_zero _ _ _).trans ((put_apply _ Nat.two_pos).trans h0)
      · exact (slice_update_of_notMem (Or.inl Nat.one_lt_two)).trans (slice_put _)
    | sym n =>
      have hp : relocated (SrcInstr.irmovq (.sym n) dst).symbol
          ((SrcInstr.irmovq (.sym n) dst).bin
            (startBin addr (Stmt.instr (.irmovq (.sym n) dst)).inst)) a =
          ((startBin addr (Stmt.instr (.irmovq (.sym n) dst)).inst).putRegs none
            (some dst)).put 2 8 a := by
        refine patch_eq (Or.inl ?_)
        rw [SrcInstr.bin, putRegs_zero]
        exact itype_firstByte _
      rw [hp]
      refine slice_ten ?_ ?_ (slice_put _)
      · exact (put_apply _ Nat.two_pos).trans ((putRegs_zero _ _ _).trans h0)
      · exact (put_apply _ Nat.one_lt_two).trans (putRegs_one _ _ _)
  | jmp c dest =>
    have hp : relocated (SrcInstr.jmp c dest).symbol ((SrcInstr.jmp c dest).bin
        (startBin addr (Stmt.instr (.jmp c dest)).inst)) a =
        (startBin addr (Stmt.instr (.jmp c dest)).inst).put 1 8 a :=
      patch_eq (Or.inr (Or.inl (itype_firstByte _)))
    rw [hp]
    exact slice_nine ((put_apply _ Nat.one_pos).trans h0) (slice_put _)
  | call dest =>
    have hp : relocated (SrcInstr.call dest).symbol ((SrcInstr.call dest).bin
        (startBin addr (Stmt.instr (.call dest)).inst)) a =
        (startBin addr (Stmt.instr (.call dest)).inst).put 1 8 a :=
      patch_eq (Or.inr (Or.inr (itype_firstByte _)))
    rw [hp]
    exact slice_nine ((put_apply _ Nat.one_pos).trans h0) (slice_put _)

/-- The first byte of a datum, before relocation, is that of a directive. -/
lemma directive_firstByte :
    IType.ofCode (high (hpack IType.directive.code Dtv.data.code)) = some .directive := by
  rw [high_hpack (IType.code_lt _) (by decide), IType.ofCode_code]

/-- The code of a statement, after relocation. -/
lemma final_code (sm : Stmt) :
    slice (relocated sm.symbol (sm.bin (startBin addr sm.inst)) a).codes 0 sm.size =
      sm.code fun _ => a := by
  cases sm with
  | instr i => exact final_instr i
  | data w v =>
    rw [size_data]
    cases v with
    | lit v => exact slice_store_self
    | sym n =>
      have hp : relocated (Stmt.data w (.sym n)).symbol
          ((Stmt.data w (.sym n)).bin (startBin addr (Stmt.data w (.sym n)).inst)) a =
          (startBin addr (Stmt.data w (.sym n)).inst).put 0 w.bytes a :=
        patch_data (b := startBin addr (Stmt.data w (.sym n)).inst) directive_firstByte rfl
      rw [hp]
      exact slice_store_self
  | pos v => rfl
  | align v => rfl

end Code

/-! ## Operands -/

/-- The globals after a reference to a symbol has been entered. -/
def State.addRef (st : State) (buf : Buffer) (idx : ℕ) : Option Chars → State
  | none => st
  | some name => addReloc st (nameIn buf name) idx

@[simp] lemma orErr_some {α : Type} (a : α) : orErr (some a) = .ok a := rfl

/-- Blanks before text are skipped with those that the text begins with. -/
lemma skipBlank_append_left (hb : All isBlank b) : skipBlank (b ++ s) = skipBlank s :=
  List.dropWhile_append_of_pos hb

/-- A comma ends a name, also when blanks come first. -/
lemma stops_comma (hb : All isBlank b) : Stops isName (b ++ ',' :: s) :=
  Stops.append hb isName_of_isBlank (stops_cons.2 (by decide))

/-- Two registers with a comma between them. -/
lemma parseRegReg_append {src dst : Reg} {k : Chars} (c : BinT) (hb : All isBlank b)
    (hk : Comma k) (hs : Stops isName s) :
    parseRegReg st c (b ++ (regName src ++ (k ++ (regName dst ++ s)))) =
      .ok (st, c.putRegs (some src) (some dst), s) := by
  obtain ⟨b₁, b₂, hb₁, hb₂, rfl⟩ := hk
  simp only [List.append_assoc, List.cons_append]
  have h₁ := parseReg_append (r := src) hb (stops_comma (s := b₂ ++ (regName dst ++ s)) hb₁)
  have h₂ := parseDelim_append (s := b₂ ++ (regName dst ++ s)) hb₁
  have h₃ := parseReg_append (r := dst) hb₂ hs
  simp only [parseRegReg, h₁, h₂, h₃, orErr_some, bind, Except.bind, pure, Except.pure]

/-- `putValue` with a value of the source. -/
lemma putValue_parsed (st : State) (c : BinT) (pos n : ℕ) (e : Expr) (buf : Buffer) :
    putValue idx st c pos n (e.parsed buf) =
      (st.addRef buf idx e.symbol,
        match e with
        | .lit v => c.put pos n (BitVec.ofInt 64 v)
        | .sym _ => c) := by
  cases e <;> rfl

/-- The `switch` of `parse_line` on the operands of an instruction. -/
lemma parseOperands_instr (env : Env) (idx : ℕ) (st : State) {i : SrcInstr} (c : BinT)
    (hb : All isBlank b) (ho : i.Operands LetterName o) (hs : Stops isName s) :
    ∃ r, parseOperands env idx (Stmt.instr i).inst st c (b ++ (o ++ s)) =
        .ok (st.addRef (env.symbolBuf idx) idx i.symbol, i.bin c, r) ∧
      skipBlank r = skipBlank s := by
  have hI := itype_firstByte i
  have hcode : (Stmt.instr i).inst.code = i.firstByte := rfl
  unfold parseOperands
  rw [hcode, hI]
  cases i with
  | halt | nop | ret =>
    obtain rfl : o = [] := ho
    exact ⟨_, rfl, skipBlank_append_left hb⟩
  | cmov cond src dst =>
    obtain ⟨k, hk, rfl⟩ := ho
    refine ⟨s, ?_, rfl⟩
    rw [List.append_assoc, List.append_assoc]
    exact parseRegReg_append c hb hk hs
  | opq op src dst =>
    obtain ⟨k, hk, rfl⟩ := ho
    refine ⟨s, ?_, rfl⟩
    rw [List.append_assoc, List.append_assoc]
    exact parseRegReg_append c hb hk hs
  | irmovq v dst =>
    obtain ⟨t, k, ht, ⟨b₁, b₂, hb₁, hb₂, rfl⟩, rfl⟩ := ho
    refine ⟨s, ?_, rfl⟩
    simp only [List.append_assoc, List.cons_append]
    have h₁ := parseImm_append (env.symbolBuf idx) hb ht
      (stops_comma (s := b₂ ++ (regName dst ++ s)) hb₁)
    have h₂ := parseDelim_append (s := b₂ ++ (regName dst ++ s)) hb₁
    have h₃ := parseReg_append (r := dst) hb₂ hs
    simp only [SrcInstr.resolve, Ref.Instr.itype, h₁, h₂, h₃, orErr_some, bind, Except.bind,
      pure, Except.pure, putValue_parsed]
    cases v <;> rfl
  | rmmovq src disp base =>
    obtain ⟨k, t, ⟨b₁, b₂, hb₁, hb₂, rfl⟩, ht, rfl⟩ := ho
    refine ⟨s, ?_, rfl⟩
    simp only [List.append_assoc, List.cons_append]
    have h₁ := parseReg_append (r := src) hb (stops_comma (s := b₂ ++ (t ++ s)) hb₁)
    have h₂ := parseDelim_append (s := b₂ ++ (t ++ s)) hb₁
    have h₃ := parseMem_append (s := s) hb₂ ht
    simp only [SrcInstr.resolve, Ref.Instr.itype, h₁, h₂, h₃, orErr_some, bind, Except.bind]
    rfl
  | mrmovq disp base dst =>
    obtain ⟨t, k, ht, ⟨b₁, b₂, hb₁, hb₂, rfl⟩, rfl⟩ := ho
    refine ⟨s, ?_, rfl⟩
    simp only [List.append_assoc, List.cons_append]
    have h₁ := parseMem_append (s := b₁ ++ ',' :: (b₂ ++ (regName dst ++ s))) hb ht
    have h₂ := parseDelim_append (s := b₂ ++ (regName dst ++ s)) hb₁
    have h₃ := parseReg_append (r := dst) hb₂ hs
    simp only [SrcInstr.resolve, Ref.Instr.itype, h₁, h₂, h₃, orErr_some, bind, Except.bind]
    rfl
  | jmp cond dest =>
    obtain ⟨hd, rfl⟩ := ho
    have h₁ := parseSymbol_append (env.symbolBuf idx) hb hd hs
    refine ⟨s, ?_, rfl⟩
    simp only [SrcInstr.resolve, Ref.Instr.itype, h₁, orErr_some, bind, Except.bind]
    rfl
  | call dest =>
    obtain ⟨hd, rfl⟩ := ho
    have h₁ := parseSymbol_append (env.symbolBuf idx) hb hd hs
    refine ⟨s, ?_, rfl⟩
    simp only [SrcInstr.resolve, Ref.Instr.itype, h₁, orErr_some, bind, Except.bind]
    rfl
  | pushq r =>
    obtain rfl : o = regName r := ho
    have h₁ := parseReg_append (r := r) hb hs
    refine ⟨s, ?_, rfl⟩
    simp only [SrcInstr.resolve, Ref.Instr.itype, h₁, orErr_some, bind, Except.bind]
    rfl
  | popq r =>
    obtain rfl : o = regName r := ho
    have h₁ := parseReg_append (r := r) hb hs
    refine ⟨s, ?_, rfl⟩
    simp only [SrcInstr.resolve, Ref.Instr.itype, h₁, orErr_some, bind, Except.bind]
    rfl

/-! ## Statements -/

/-- The location counter behind a statement, as `parse_line` computes it. -/
def Stmt.vmaddr (sm : Stmt) (vmaddr : Long) : Except Stop Long :=
  match sm with
  | .pos v => .ok (BitVec.ofInt 64 v)
  | .align n => do
    let r ← cMod vmaddr (BitVec.ofInt 64 n)
    return if r ≠ 0 then vmaddr + (BitVec.ofInt 64 n - r) else vmaddr
  | .instr _ | .data .. => .ok (vmaddr + BitVec.ofNat 64 sm.size)

/-- A `y64bin` is right for a statement that begins at `vmaddr`. -/
structure BinOk (sm : Stmt) (vmaddr : Long) (c : BinT) : Prop where
  bytes : c.bytes = sm.size
  addr : 0 < sm.size → c.addr = vmaddr
  code : ∀ a, slice (relocated sm.symbol c a).codes 0 sm.size = sm.code fun _ => a

/-- Reading operands changes neither the address nor the size. -/
lemma Stmt.bin_frame (sm : Stmt) (c : BinT) :
    (sm.bin c).addr = c.addr ∧ (sm.bin c).bytes = c.bytes := by
  cases sm with
  | instr i =>
    cases i with
    | irmovq v dst => cases v <;> exact ⟨rfl, rfl⟩
    | halt | nop | ret | cmov | rmmovq | mrmovq | opq | jmp | call | pushq | popq =>
      exact ⟨rfl, rfl⟩
  | data w v => cases v <;> exact ⟨rfl, rfl⟩
  | pos v => exact ⟨rfl, rfl⟩
  | align n => exact ⟨rfl, rfl⟩

/-- The size in the entry of a statement. -/
lemma Stmt.inst_bytes (sm : Stmt) : sm.inst.bytes = sm.size := by
  cases sm with
  | instr i => rfl
  | data w v => exact (size_data w v).symm
  | pos v => rfl
  | align n => rfl

/-- The code of a statement is right when its operands have been read. -/
lemma binOk_bin (sm : Stmt) (vmaddr : Long) :
    BinOk sm vmaddr (sm.bin (startBin vmaddr sm.inst)) where
  bytes := (sm.bin_frame _).2.trans sm.inst_bytes
  addr _ := (sm.bin_frame _).1
  code _ := final_code sm

/-- A directive is parsed as one. -/
lemma parseOperands_directive {inst : InstrT} {d : ℕ} (hd : d < 16)
    (h : inst.code = hpack IType.directive.code d) (c : BinT) :
    parseOperands env idx inst st c s = parseDirective env idx inst st c s := by
  unfold parseOperands
  rw [h, high_hpack (IType.code_lt _) hd, IType.ofCode_code]

/-- The branch of `case I_DIRECTIVE` for a datum. -/
lemma parseDirective_data (w : Width) (e : Expr) (c : BinT) :
    parseDirective env idx (Stmt.data w e).inst st c s = parseDataN env idx w.bytes st c s := by
  cases w <;> rfl

/-- The operand of a data directive. -/
lemma parseDataN_append {w : Width} {e : Expr} (c : BinT) (hb : All isBlank b)
    (ho : e.DataText LetterName o) (hs : Stops isName s) :
    parseDataN env idx w.bytes st c (b ++ (o ++ s)) =
      .ok (st.addRef (env.symbolBuf idx) idx e.symbol, (Stmt.data w e).bin c, s) := by
  have h := parseData_append (env.symbolBuf idx) hb ho hs
  simp only [parseDataN, h, orErr_some, bind, Except.bind, putValue_parsed, pure, Except.pure]
  cases e <;> rfl

/-- The `switch` of `parse_line` on the operands of a statement. -/
lemma parseOperands_stmt (env : Env) (idx : ℕ) {sm : Stmt} {vmaddr : Long} (hb : All isBlank b)
    (ho : sm.Operands LetterName o) (hs : Stops isName s)
    (hv : sm.vmaddr st.vmaddr = .ok vmaddr) :
    ∃ c r, parseOperands env idx sm.inst
        { st with vmaddr := st.vmaddr + BitVec.ofNat 64 sm.inst.bytes }
        (startBin st.vmaddr sm.inst) (b ++ (o ++ s)) =
        .ok ({ st with vmaddr }.addRef (env.symbolBuf idx) idx sm.symbol, c, r) ∧
      skipBlank r = skipBlank s ∧ BinOk sm st.vmaddr c := by
  cases sm with
  | instr i =>
    obtain rfl := Except.ok.inj hv
    obtain ⟨r, hr, hskip⟩ := parseOperands_instr env idx
      { st with vmaddr := st.vmaddr + BitVec.ofNat 64 (Stmt.instr i).inst.bytes }
      (startBin st.vmaddr (Stmt.instr i).inst) hb ho hs
    exact ⟨_, r, hr, hskip, binOk_bin _ _⟩
  | data w e =>
    obtain rfl := Except.ok.inj hv
    refine ⟨_, s, ?_, rfl, binOk_bin _ _⟩
    rw [parseOperands_directive (d := Dtv.data.code) (by decide) rfl, parseDirective_data,
      Stmt.inst_bytes]
    exact parseDataN_append _ hb ho hs
  | pos v =>
    obtain rfl := Except.ok.inj hv
    have h := parseDigit_append hb ho hs
    have hname : (Stmt.pos v).inst.name = ['.', 'p', 'o', 's'] := rfl
    refine ⟨{ startBin st.vmaddr (Stmt.pos v).inst with addr := BitVec.ofInt 64 v }, s, ?_, rfl,
      ⟨rfl, fun h => absurd h (Nat.lt_irrefl 0), fun _ => rfl⟩⟩
    rw [parseOperands_directive (d := Dtv.pos.code) (by decide) rfl, parseDirective,
      if_pos hname, h]
    rfl
  | align n =>
    have h := parseDigit_append hb ho hs
    have hname : (Stmt.align n).inst.name = ['.', 'a', 'l', 'i', 'g', 'n'] := rfl
    have hpos : (Stmt.align n).inst.name ≠ ['.', 'p', 'o', 's'] := by rw [hname]; decide
    have hzero : st.vmaddr + BitVec.ofNat 64 (Stmt.align n).inst.bytes = st.vmaddr :=
      BitVec.add_zero st.vmaddr
    rw [parseOperands_directive (d := Dtv.align.code) (by decide) rfl, parseDirective,
      if_neg hpos, if_pos hname, h]
    simp only [orErr_some, bind, Except.bind, hzero]
    simp only [Stmt.vmaddr, bind, Except.bind] at hv
    cases hmod : cMod st.vmaddr (BitVec.ofInt 64 n) with
    | error e => rw [hmod] at hv; cases hv
    | ok r =>
      rw [hmod] at hv
      obtain rfl := Except.ok.inj hv
      by_cases hr : r ≠ 0
      · refine ⟨{ startBin st.vmaddr (Stmt.align n).inst with
          addr := st.vmaddr + (BitVec.ofInt 64 n - r) }, s, ?_, rfl,
          ⟨rfl, fun h => absurd h (Nat.lt_irrefl 0), fun _ => rfl⟩⟩
        simp only [if_pos hr]
        rfl
      · refine ⟨startBin st.vmaddr (Stmt.align n).inst, s, ?_, rfl,
          ⟨rfl, fun h => absurd h (Nat.lt_irrefl 0), fun _ => rfl⟩⟩
        simp only [if_neg hr]
        rfl

/-! ## Lines -/

section Line

variable {e y64asm : Chars}

/-- The end of a line is one for `parse_line`. -/
lemma isEndOrComment_of_lineEnd (he : LineEnd e) : isEndOrComment e = true := by
  rcases he with rfl | ⟨t, rfl⟩ <;> rfl

/-- Blanks are skipped up to the end of the line. -/
lemma skipBlank_lineEnd (hb : All isBlank b) (he : LineEnd e) : skipBlank (b ++ e) = e := by
  refine skipBlank_append hb ?_
  rcases he with rfl | ⟨t, rfl⟩
  · exact stops_nil
  · exact stops_cons.2 (by decide)

/-- A name ends where the line ends. -/
lemma stops_lineEnd (hb : All isBlank b) (he : LineEnd e) : Stops isName (b ++ e) := by
  refine Stops.append hb isName_of_isBlank ?_
  rcases he with rfl | ⟨t, rfl⟩
  · exact stops_nil
  · exact stops_cons.2 (by decide)

/-- Text that begins with a word other than a comment is neither the end nor a comment. -/
lemma isEndOrComment_cons {c : Char} (h : c ≠ '#') : isEndOrComment (c :: s) = false := by
  simp [isEndOrComment, h]

/-- A register's name is not empty. -/
lemma regName_ne_nil (r : Reg) : regName r ≠ [] := by
  obtain ⟨n, hn, -⟩ := regName_eq r
  simp [hn]

/-- Only an instruction without operands can be written without any. -/
lemma plain_of_operands_nil {sm : Stmt} (h : sm.Operands LetterName []) : sm.plain = true := by
  have hnum : ∀ v, ¬ Number [] v := by
    intro v hv
    obtain ⟨c, u, hcu, -⟩ := literal_head hv.1
    cases hcu
  have hname : ¬ LetterName [] := fun hn => hn.1.1 rfl
  cases sm with
  | instr i =>
    cases i with
    | halt | nop | ret => rfl
    | cmov c src dst | opq c src dst =>
      obtain ⟨k, -, hk⟩ := h
      exact absurd (List.append_eq_nil_iff.1 hk.symm).1 (regName_ne_nil src)
    | irmovq v dst =>
      obtain ⟨t, k, -, -, hk⟩ := h
      exact absurd (List.append_eq_nil_iff.1 (List.append_eq_nil_iff.1 hk.symm).2).2
        (regName_ne_nil dst)
    | rmmovq src disp base =>
      obtain ⟨k, t, -, -, hk⟩ := h
      exact absurd (List.append_eq_nil_iff.1 hk.symm).1 (regName_ne_nil src)
    | mrmovq disp base dst =>
      obtain ⟨t, k, -, -, hk⟩ := h
      exact absurd (List.append_eq_nil_iff.1 (List.append_eq_nil_iff.1 hk.symm).2).2
        (regName_ne_nil dst)
    | jmp c dest | call dest =>
      obtain ⟨hd, rfl⟩ := h
      exact absurd hd hname
    | pushq r | popq r => exact absurd h.symm (regName_ne_nil r)
  | data w v =>
    cases v with
    | lit v => exact absurd h (hnum v)
    | sym n =>
      obtain ⟨hd, rfl⟩ := h
      exact absurd hd hname
  | pos v => exact absurd h (hnum v)
  | align n => exact absurd h (hnum n)

/-- `parse_instr` reads the mnemonic of a statement. -/
lemma parseInstr_stmt {sm : Stmt} {b₃ : Chars} (hb : All isBlank b) (hb₃ : All isBlank b₃)
    (he : LineEnd e) (ho : sm.Operands LetterName o) (hbo : b = [] → o = []) :
    parseInstr (sm.mnemonic ++ (b ++ (o ++ (b₃ ++ e)))) =
      some (sm.inst, b ++ (o ++ (b₃ ++ e))) := by
  have hblank : ∀ c, isBlank c = true → (!isSpace c) = false := by
    intro c hc
    rw [isBlank_iff] at hc
    rw [Bool.not_eq_false', isSpace_iff]
    omega
  by_cases hb0 : b = []
  · obtain rfl := hbo hb0
    subst hb0
    simp only [List.nil_append]
    by_cases hb3 : b₃ = []
    · subst hb3
      rcases he with rfl | ⟨t, rfl⟩
      · exact parseInstr_append sm stops_nil
      · exact parseInstr_comment sm (plain_of_operands_nil ho)
    · exact parseInstr_append sm (stops_append_of_all hb₃ hb3 hblank)
  · exact parseInstr_append sm (stops_append_of_all hb hb0 hblank)

/-- A parsed line is right for a line that begins at `vmaddr`. -/
structure LineOk (l : SrcLine) (vmaddr : Long) (line : LineT) : Prop where
  bytes : line.y64bin.bytes = l.size
  type : 0 < l.size → line.type = .ins
  addr : 0 < l.size → line.y64bin.addr = vmaddr
  code : ∀ a, slice (relocated l.symbol line.y64bin a).codes 0 l.size = l.code fun _ => a

/-- The location counter behind a line, as `parse_line` computes it. -/
def SrcLine.vmaddr (l : SrcLine) (vmaddr : Long) : Except Stop Long :=
  match l.stmt with
  | some sm => sm.vmaddr vmaddr
  | none => .ok vmaddr

/-- The globals behind a line. -/
def SrcLine.after (env : Env) (idx : ℕ) (l : SrcLine) (st : State) (vmaddr : Long) : State where
  lines := st.lines
  symtab := st.symtab ++
    (l.label.map fun n => ⟨nameIn (env.labelBuf idx) n, st.vmaddr⟩).toList
  reltab := st.reltab ++ (l.symbol.map fun n => ⟨idx, nameIn (env.symbolBuf idx) n⟩).toList
  vmaddr := vmaddr

/-- `parse_line` on the statement of a line. -/
lemma parseInstrLine_stmt (env : Env) (idx : ℕ) (st : State) (y64asm : Chars) {sm : Stmt}
    {b₃ body : Chars} {vmaddr : Long}
    (hbody : sm.Text LetterName body) (hb₃ : All isBlank b₃) (he : LineEnd e)
    (hv : sm.vmaddr st.vmaddr = .ok vmaddr) :
    ∃ line, parseInstrLine env idx y64asm st (body ++ (b₃ ++ e)) =
        .ok (line, { st with vmaddr }.addRef (env.symbolBuf idx) idx sm.symbol) ∧
      LineOk ⟨none, some sm⟩ st.vmaddr line := by
  obtain ⟨b, o, hb, ho, hbo, rfl⟩ := hbody
  obtain ⟨c, r, hr, hskip, hc⟩ := parseOperands_stmt env idx hb ho
    (stops_lineEnd hb₃ he) hv
  refine ⟨⟨.ins, c, y64asm⟩, ?_, ⟨hc.bytes, fun _ => rfl, hc.addr, hc.code⟩⟩
  have hinstr := parseInstr_stmt hb hb₃ he ho hbo
  have hend : isEndOrComment (skipBlank r) = true := by
    rw [hskip, skipBlank_lineEnd hb₃ he]
    exact isEndOrComment_of_lineEnd he
  rw [List.append_assoc, List.append_assoc]
  simp only [parseInstrLine, hinstr, orErr_some, bind, Except.bind]
  rw [show (⟨st.vmaddr, Function.update (fun _ => 0) 0 sm.inst.code, sm.inst.bytes⟩ : BinT) =
    startBin st.vmaddr sm.inst from rfl, hr]
  simp only [hend, if_true]
  rfl

/-- The text of a statement is no label. -/
lemma parseLabel_body {sm : Stmt} {b₃ body : Chars} (buf : Buffer)
    (hbody : sm.Text LetterName body) (hb₃ : All isBlank b₃) (he : LineEnd e) :
    parseLabel buf (body ++ (b₃ ++ e)) = none := by
  obtain ⟨b, o, hb, ho, hbo, rfl⟩ := hbody
  rw [List.append_assoc, List.append_assoc]
  have hmem := List.mem_of_find?_eq_some (findInstr_mnemonic sm)
  have htable : ∀ e ∈ instrSet, All isName e.name ∨ e.name.head? = some '.' := by
    decide
  rcases htable _ hmem with hname | hdot
  · rw [sm.inst_name] at hname
    have htail : Stops isName (b ++ (o ++ (b₃ ++ e))) ∧
        (b ++ (o ++ (b₃ ++ e))).head? ≠ some ':' := by
      -- behind the mnemonic there is a blank, a comment or nothing
      have key : ∀ b' : Chars, All isBlank b' → ∀ s, LineEnd s ∨ b' ≠ [] →
          Stops isName (b' ++ s) ∧ (b' ++ s).head? ≠ some ':' := by
        intro b' hb' s hs
        cases b' with
        | nil =>
          have hs := hs.resolve_right (by simp)
          refine ⟨stops_lineEnd all_nil hs, ?_⟩
          rcases hs with rfl | ⟨t, rfl⟩ <;> simp
        | cons c b' =>
          have hc := (all_cons.1 hb').1
          refine ⟨stops_cons.2 (isName_of_isBlank c hc), ?_⟩
          rintro hcolon
          obtain rfl : c = ':' := by simpa using hcolon
          cases hc
      by_cases hb0 : b = []
      · obtain rfl := hbo hb0
        subst hb0
        exact key b₃ hb₃ e (Or.inl he)
      · exact key b hb _ (Or.inr hb0)
    exact parseLabel_of_stops buf hname (mnemonic_word sm).2 htail.1 htail.2
  · rw [sm.inst_name] at hdot
    obtain ⟨m, hm⟩ : ∃ m, sm.mnemonic = '.' :: m := by
      cases hsm : sm.mnemonic with
      | nil => simp [hsm] at hdot
      | cons c m =>
        rw [hsm] at hdot
        obtain rfl : c = '.' := by simpa using hdot
        exact ⟨m, rfl⟩
    rw [hm]
    have hskip : skipBlank ('.' :: m ++ (b ++ (o ++ (b₃ ++ e)))) =
        '.' :: m ++ (b ++ (o ++ (b₃ ++ e))) :=
      dropWhile_of_stops (stops_cons.2 (by decide))
    simp only [parseLabel, hskip]
    rfl

/-- The text of a statement begins with its mnemonic. -/
lemma body_head {sm : Stmt} {body : Chars} (h : sm.Text LetterName body) :
    ∃ c u, body = c :: u ∧ isBlank c = false ∧ c ≠ '#' := by
  obtain ⟨b, o, -, -, -, rfl⟩ := h
  have hmem := List.mem_of_find?_eq_some (findInstr_mnemonic sm)
  have htable : ∀ e ∈ instrSet, e.name.head?.all (fun c => !isBlank c && c != '#') = true := by
    decide
  have hc : ∀ c ∈ (Stmt.inst sm).name.head?, isBlank c = false ∧ c ≠ '#' := by
    simpa [Option.all_eq_true] using htable _ hmem
  rw [sm.inst_name] at hc
  obtain ⟨c, m, hm⟩ := List.exists_cons_of_ne_nil (mnemonic_word sm).2
  rw [hm] at hc ⊢
  exact ⟨c, _, rfl, hc c rfl⟩

/-- `parse_line` on a line with a label. -/
lemma parseLine_label {n : Chars} (hb : All isBlank b) (hn : LetterName n) :
    parseLine env idx (b ++ (n ++ ':' :: s)) st = (do
      let st ← orErr (addSymbol st (nameIn (env.labelBuf idx) n))
      if isEndOrComment (skipBlank s) then
        return (⟨.ins, { BinT.zero with addr := st.vmaddr }, b ++ (n ++ ':' :: s)⟩, st)
      else parseInstrLine env idx (b ++ (n ++ ':' :: s)) st (skipBlank s)) := by
  obtain ⟨c, u, hc, hcl, hall⟩ := letterName_eq hn
  have hskip : skipBlank (b ++ (n ++ ':' :: s)) = n ++ ':' :: s := by
    rw [skipBlank_append_left hb, hc]
    exact dropWhile_of_stops (stops_cons.2 (isBlank_of_isName c (by simp [isName, hcl])))
  have hnot : isEndOrComment (n ++ ':' :: s) = false := by
    rw [hc]
    refine isEndOrComment_cons ?_
    rintro rfl
    cases hcl
  simp only [parseLine, hskip, hnot, parseLabel_append (env.labelBuf idx) hn]
  rfl

/-- A line with a label is accepted only when the label is new. -/
lemma findSymbol_of_parseLine {l : SrcLine} {x : LineT × State} (h : l.Text LetterName s)
    (hok : parseLine env idx s st = .ok x) :
    ∀ n ∈ l.label, findSymbol st.symtab (nameIn (env.labelBuf idx) n) = none := by
  intro n hl
  obtain ⟨_, e, ⟨b₁, lab, b₂, body, b₃, ⟨hb₁, -, -⟩, hlab, -, rfl⟩, -, rfl⟩ := h
  rw [Option.mem_def.1 hl] at hlab
  obtain ⟨hn, rfl⟩ := hlab
  have hassoc : b₁ ++ (n ++ [':'] ++ (b₂ ++ (body ++ b₃))) ++ e =
      b₁ ++ (n ++ ':' :: (b₂ ++ (body ++ b₃) ++ e)) := by simp
  rw [hassoc, parseLine_label hb₁ hn] at hok
  cases hf : findSymbol st.symtab (nameIn (env.labelBuf idx) n) with
  | none => rfl
  | some sym =>
    rw [addSymbol, hf] at hok
    cases hok

/-- `parse_line` on a line of the documented form.

**Proof sketch.** After the leading blanks the text is at its end, or at a label, or at a
statement. A label is bound to the location counter, and what follows it is again the end or a
statement. The text of a statement is no label, and its mnemonic and operands are read by
`parseInstrLine_stmt`. -/
theorem parseLine_text {l : SrcLine} {vmaddr : Long} (h : l.Text LetterName s)
    (hdup : ∀ n ∈ l.label, findSymbol st.symtab (nameIn (env.labelBuf idx) n) = none)
    (hv : l.vmaddr st.vmaddr = .ok vmaddr) :
    ∃ line, parseLine env idx s st = .ok (line, l.after env idx st vmaddr) ∧
      LineOk l st.vmaddr line := by
  obtain ⟨_, e, ⟨b₁, lab, b₂, body, b₃, ⟨hb₁, hb₂, hb₃⟩, hlab, hbody, rfl⟩, he, rfl⟩ := h
  obtain ⟨label, stmt⟩ := l
  simp only [List.append_assoc]
  cases label with
  | none =>
    obtain rfl : lab = [] := hlab
    cases stmt with
    | none =>
      obtain rfl : body = [] := hbody
      obtain rfl := Except.ok.inj hv
      have hskip : skipBlank (b₁ ++ (b₂ ++ (b₃ ++ e))) = e := by
        rw [skipBlank_append_left hb₁, skipBlank_append_left hb₂, skipBlank_lineEnd hb₃ he]
      refine ⟨⟨.comm, .zero, b₁ ++ (b₂ ++ (b₃ ++ e))⟩, ?_, ⟨rfl, fun h => ?_, fun h => ?_,
        fun _ => rfl⟩⟩
      · simp only [List.nil_append, parseLine, hskip, isEndOrComment_of_lineEnd he, if_true]
        simp [SrcLine.after, SrcLine.symbol]
      · exact absurd h (Nat.lt_irrefl 0)
      · exact absurd h (Nat.lt_irrefl 0)
    | some sm =>
      obtain ⟨c, u, hc, hcb, hch⟩ := body_head hbody
      have hskip : skipBlank (b₁ ++ (b₂ ++ (body ++ (b₃ ++ e)))) = body ++ (b₃ ++ e) := by
        rw [skipBlank_append_left hb₁, skipBlank_append_left hb₂]
        rw [hc]
        exact dropWhile_of_stops (stops_cons.2 hcb)
      have hnot : isEndOrComment (body ++ (b₃ ++ e)) = false := by
        rw [hc]
        exact isEndOrComment_cons hch
      obtain ⟨line, hline, hok⟩ := parseInstrLine_stmt env idx st
        (b₁ ++ (b₂ ++ (body ++ (b₃ ++ e)))) hbody hb₃ he hv
      refine ⟨line, ?_, hok⟩
      simp only [List.nil_append, parseLine, hskip, hnot, parseLabel_body _ hbody hb₃ he]
      rw [if_neg (by decide), hline]
      cases hsym : sm.symbol <;> simp [SrcLine.after, SrcLine.symbol, State.addRef, hsym, addReloc]
  | some n =>
    obtain ⟨hn, rfl⟩ := hlab
    have hassoc : n ++ [':'] ++ (b₂ ++ (body ++ (b₃ ++ e))) =
        n ++ ':' :: (b₂ ++ (body ++ (b₃ ++ e))) := by simp
    have hadd : addSymbol st (nameIn (env.labelBuf idx) n) =
        some { st with symtab := st.symtab ++ [⟨nameIn (env.labelBuf idx) n, st.vmaddr⟩] } := by
      rw [addSymbol, hdup n rfl]
      rfl
    rw [hassoc, parseLine_label hb₁ hn, hadd]
    simp only [orErr_some, bind, Except.bind]
    cases stmt with
    | none =>
      obtain rfl : body = [] := hbody
      obtain rfl := Except.ok.inj hv
      have hend : skipBlank (b₂ ++ ([] ++ (b₃ ++ e))) = e := by
        rw [List.nil_append, skipBlank_append_left hb₂, skipBlank_lineEnd hb₃ he]
      refine ⟨⟨.ins, { BinT.zero with addr := st.vmaddr },
        b₁ ++ (n ++ ':' :: (b₂ ++ ([] ++ (b₃ ++ e))))⟩, ?_,
        ⟨rfl, fun _ => rfl, fun _ => rfl, fun _ => rfl⟩⟩
      rw [hend, if_pos (isEndOrComment_of_lineEnd he)]
      simp [SrcLine.after, SrcLine.symbol, pure, Except.pure]
    | some sm =>
      obtain ⟨c', u', hc', hcb, hch⟩ := body_head hbody
      have hskip' : skipBlank (b₂ ++ (body ++ (b₃ ++ e))) = body ++ (b₃ ++ e) := by
        rw [skipBlank_append_left hb₂, hc']
        exact dropWhile_of_stops (stops_cons.2 hcb)
      have hnot' : isEndOrComment (body ++ (b₃ ++ e)) = false := by
        rw [hc']
        exact isEndOrComment_cons hch
      obtain ⟨line, hline, hok⟩ := parseInstrLine_stmt env idx
        { st with symtab := st.symtab ++ [⟨nameIn (env.labelBuf idx) n, st.vmaddr⟩] }
        (b₁ ++ (n ++ ':' :: (b₂ ++ (body ++ (b₃ ++ e))))) hbody hb₃ he hv
      refine ⟨line, ?_, ⟨hok.bytes, hok.type, hok.addr, hok.code⟩⟩
      simp only [hskip', hnot']
      rw [if_neg (by decide), hline]
      cases hsym : sm.symbol <;> simp [SrcLine.after, SrcLine.symbol, State.addRef, hsym, addReloc]

end Line

end Y64.Asm
