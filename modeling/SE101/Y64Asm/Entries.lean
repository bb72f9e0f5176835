import SE101.Y64Asm.Accepted
import SE101.Y64Asm.Relocation

set_option relaxedAutoImplicit false
set_option autoImplicit false

/-!
# Entries for relocation

An entry of the relocation table names a line, not a place in its code: `relocate` finds the place
again from the first byte of the code and from its length. Here an entry is traced back to the
statement that made it, and the place that `relocate` finds is the one where that statement has its
symbol.

## Main definitions

* `Y64.Asm.InstrT.symbolField` — where the symbol of a statement goes.
* `Y64.Asm.FieldReplaced` — the code of a line after a symbol has been put there, and only there.
* `Y64.Asm.RelocLaw` — what `relocate` is meant to do.

## Main results

* `Y64.Asm.parseLine_entry` — the statements that make entries.
* `Y64.Asm.patch_symbolField` — the place that `relocate` finds.
* `Y64.Asm.relocate_law` — `relocate` on any accepted lines.
-/

namespace Y64.Asm

open LittleEndian

variable {env : Env} {idx k : ℕ} {st st' : State} {b b' : BinT} {s s' y64asm : Chars}
  {inst : InstrT} {line : LineT} {lines : List LineT}

/-! ## Statements with a symbol -/

/-- Where the symbol of a statement goes: the first byte and the number of bytes. -/
def InstrT.symbolField (inst : InstrT) : Option (ℕ × ℕ) :=
  if inst.name = ['i', 'r', 'm', 'o', 'v', 'q'] then some (2, 8)
  else if inst.name ∈ [['j', 'm', 'p'], ['j', 'l', 'e'], ['j', 'l'], ['j', 'e'], ['j', 'n', 'e'],
    ['j', 'g', 'e'], ['j', 'g'], ['c', 'a', 'l', 'l']] then some (1, 8)
  else if inst.name = ['.', 'b', 'y', 't', 'e'] then some (0, 1)
  else if inst.name = ['.', 'w', 'o', 'r', 'd'] then some (0, 2)
  else if inst.name = ['.', 'l', 'o', 'n', 'g'] then some (0, 4)
  else if inst.name = ['.', 'q', 'u', 'a', 'd'] then some (0, 8)
  else none

/-- The entries that the operands of a statement make: none, or one for a symbol that was read; and
then the statement has a place for it, and the first byte of the code and its length are kept. -/
structure Enters (env : Env) (idx : ℕ) (inst : InstrT) (st st' : State) (b b' : BinT) : Prop where
  symtab : st'.symtab = st.symtab
  reltab : st'.reltab = st.reltab ∨ ∃ text name rest,
    parseSymbol (env.symbolBuf idx) text = some (name, rest) ∧
    st'.reltab = st.reltab ++ [⟨idx, name⟩] ∧ inst.symbolField.isSome = true ∧
    b'.codes 0 = b.codes 0 ∧ b'.bytes = b.bytes

/-- A statement without a symbol. -/
lemma Enters.of_eq (hs : st'.symtab = st.symtab) (hr : st'.reltab = st.reltab) :
    Enters env idx inst st st' b b' := ⟨hs, Or.inl hr⟩

/-- A symbol among the values of `parse_imm`. -/
lemma parseImm_symbol {buf : Buffer} {name rest : Chars}
    (h : parseImm buf s = some (.symbol name, rest)) :
    ∃ text, parseSymbol buf text = some (name, rest) := by
  unfold parseImm at h
  split at h
  · split_ifs at h
    cases h
  · split_ifs at h
    obtain ⟨p, hp, heq⟩ := Option.map_eq_some_iff.1 h
    cases heq
    exact ⟨_, hp⟩

/-- A symbol among the values of `parse_data`. -/
lemma parseData_symbol {buf : Buffer} {name rest : Chars}
    (h : parseData buf s = some (.symbol name, rest)) :
    ∃ text, parseSymbol buf text = some (name, rest) := by
  simp only [parseData] at h
  split_ifs at h
  · cases h
  · obtain ⟨p, hp, heq⟩ := Option.map_eq_some_iff.1 h
    cases heq
    exact ⟨_, hp⟩

/-- The statements of each kind that take a symbol have a place for it. -/
lemma symbolField_isSome (hinst : inst ∈ instrSet)
    (h : IType.ofCode (high inst.code) = some .irmovq ∨
      IType.ofCode (high inst.code) = some .jmp ∨ IType.ofCode (high inst.code) = some .call ∨
      inst.name ∈ [['.', 'b', 'y', 't', 'e'], ['.', 'w', 'o', 'r', 'd'], ['.', 'l', 'o', 'n', 'g'],
        ['.', 'q', 'u', 'a', 'd']]) : inst.symbolField.isSome = true := by
  have htable : ∀ inst ∈ instrSet, (IType.ofCode (high inst.code) = some .irmovq ∨
      IType.ofCode (high inst.code) = some .jmp ∨ IType.ofCode (high inst.code) = some .call ∨
      inst.name ∈ [['.', 'b', 'y', 't', 'e'], ['.', 'w', 'o', 'r', 'd'], ['.', 'l', 'o', 'n', 'g'],
        ['.', 'q', 'u', 'a', 'd']]) → inst.symbolField.isSome = true := by decide
  exact htable inst hinst h

/-- The operand of a data directive. -/
lemma parseDataN_enters {n : ℕ} (h : parseDataN env idx n st b s = .ok (st', b', s'))
    (hfield : inst.symbolField.isSome = true) : Enters env idx inst st st' b b' := by
  simp only [parseDataN, bind_eq_ok, orErr_eq_ok] at h
  obtain ⟨⟨v, rest⟩, hv, h⟩ := h
  cases v with
  | digit v =>
    cases h
    exact .of_eq rfl rfl
  | symbol name =>
    cases h
    obtain ⟨text, htext⟩ := parseData_symbol hv
    exact ⟨rfl, Or.inr ⟨text, name, _, htext, rfl, hfield, rfl, rfl⟩⟩

/-- The operand of a directive. -/
lemma parseDirective_enters (hinst : inst ∈ instrSet)
    (h : parseDirective env idx inst st b s = .ok (st', b', s')) :
    Enters env idx inst st st' b b' := by
  have data (hname : inst.name ∈ [['.', 'b', 'y', 't', 'e'], ['.', 'w', 'o', 'r', 'd'],
      ['.', 'l', 'o', 'n', 'g'], ['.', 'q', 'u', 'a', 'd']]) : inst.symbolField.isSome = true :=
    symbolField_isSome hinst (Or.inr (Or.inr (Or.inr hname)))
  unfold parseDirective at h
  split_ifs at h with hpos halign hbyte hword hlong hquad
  · simp only [bind_eq_ok] at h
    obtain ⟨_, -, h⟩ := h
    cases h
    exact .of_eq rfl rfl
  · simp only [bind_eq_ok] at h
    obtain ⟨_, -, _, -, h⟩ := h
    split_ifs at h <;> cases h <;> exact .of_eq rfl rfl
  · exact parseDataN_enters h (data (by simp [hbyte]))
  · exact parseDataN_enters h (data (by simp [hword]))
  · exact parseDataN_enters h (data (by simp [hlong]))
  · exact parseDataN_enters h (data (by simp [hquad]))

/-- The operands of a statement. -/
lemma parseOperands_enters (hinst : inst ∈ instrSet)
    (h : parseOperands env idx inst st b s = .ok (st', b', s')) :
    Enters env idx inst st st' b b' := by
  unfold parseOperands at h
  cases hI : IType.ofCode (high inst.code) with
  | none => rw [hI] at h; cases h
  | some t =>
    rw [hI] at h
    cases t with
    | halt | nop | ret => cases h; exact .of_eq rfl rfl
    | rrmovq | alu =>
      simp only [parseRegReg, bind_eq_ok] at h
      obtain ⟨_, -, _, -, _, -, h⟩ := h
      cases h
      exact .of_eq rfl rfl
    | irmovq =>
      simp only [bind_eq_ok, orErr_eq_ok] at h
      obtain ⟨⟨v, rest⟩, hv, _, -, _, -, h⟩ := h
      cases v with
      | digit v =>
        cases h
        exact .of_eq rfl rfl
      | symbol name =>
        cases h
        obtain ⟨text, htext⟩ := parseImm_symbol hv
        exact ⟨rfl, Or.inr ⟨text, name, rest, htext, rfl,
          symbolField_isSome hinst (Or.inl hI), rfl, rfl⟩⟩
    | rmmovq | mrmovq =>
      simp only [bind_eq_ok] at h
      obtain ⟨_, -, _, -, _, -, h⟩ := h
      cases h
      exact .of_eq rfl rfl
    | jmp =>
      simp only [bind_eq_ok, orErr_eq_ok] at h
      obtain ⟨⟨name, rest⟩, hsym, h⟩ := h
      cases h
      exact ⟨rfl, Or.inr ⟨s, name, _, hsym, rfl,
        symbolField_isSome hinst (Or.inr (Or.inl hI)), rfl, rfl⟩⟩
    | call =>
      simp only [bind_eq_ok, orErr_eq_ok] at h
      obtain ⟨⟨name, rest⟩, hsym, h⟩ := h
      cases h
      exact ⟨rfl, Or.inr ⟨s, name, _, hsym, rfl,
        symbolField_isSome hinst (Or.inr (Or.inr (Or.inl hI))), rfl, rfl⟩⟩
    | pushq | popq =>
      simp only [bind_eq_ok] at h
      obtain ⟨_, -, h⟩ := h
      cases h
      exact .of_eq rfl rfl
    | directive => exact parseDirective_enters hinst h

/-! ## Lines with a symbol -/

/-- A line whose statement has a place for a symbol, with the first byte of its code and its
length. -/
def HasField (buf : Buffer) (line : LineT) : Prop :=
  ∃ inst rest, parseInstr (behindLabel buf line.y64asm) = some (inst, rest) ∧
    inst.symbolField.isSome = true ∧ line.y64bin.codes 0 = inst.code ∧
    line.y64bin.bytes = inst.bytes

/-- The entries that a line makes. -/
structure LineEnters (env : Env) (idx : ℕ) (st st' : State) (line : LineT) : Prop where
  reltab : st'.reltab = st.reltab ∨ ∃ text name rest,
    parseSymbol (env.symbolBuf idx) text = some (name, rest) ∧
    st'.reltab = st.reltab ++ [⟨idx, name⟩] ∧ HasField (env.labelBuf idx) line
  symtab : st'.symtab = st.symtab ∨ ∃ text name rest addr,
    parseLabel (env.labelBuf idx) text = some (name, rest) ∧
    findSymbol st.symtab name = none ∧ st'.symtab = st.symtab ++ [⟨name, addr⟩]

/-- A label is entered as new. -/
lemma labelled_symtab (h : labelled env idx s st = some st') :
    st'.reltab = st.reltab ∧ (st'.symtab = st.symtab ∨ ∃ text name rest addr,
      parseLabel (env.labelBuf idx) text = some (name, rest) ∧
      findSymbol st.symtab name = none ∧ st'.symtab = st.symtab ++ [⟨name, addr⟩]) := by
  unfold labelled at h
  split at h
  · next name rest hlabel =>
    unfold addSymbol at h
    split_ifs at h with hfind
    obtain rfl := Option.some.inj h
    exact ⟨rfl, Or.inr ⟨s, name, rest, _, hlabel, Option.not_isSome_iff_eq_none.1 hfind, rfl⟩⟩
  · obtain rfl := Option.some.inj h
    exact ⟨rfl, Or.inl rfl⟩

/-- The entries that `parse_line` makes. -/
lemma parseLine_entry (h : parseLine env idx y64asm st = .ok (line, st')) :
    LineEnters env idx st st' line := by
  by_cases hend : isEndOrComment (behindLabel (env.labelBuf idx) y64asm) = true
  · obtain ⟨f, hf⟩ := parseLine_of_end st hend
    rw [hf, bind_eq_ok] at h
    obtain ⟨st₁, hlab, h⟩ := h
    cases h
    obtain ⟨hrel, hsym⟩ := labelled_symtab (orErr_eq_ok.1 hlab)
    exact ⟨Or.inl hrel, hsym⟩
  · rw [parseLine_statement ((Bool.not_eq_true _).mp hend), bind_eq_ok] at h
    obtain ⟨st₁, hlab, h⟩ := h
    obtain ⟨hrel, hsym⟩ := labelled_symtab (orErr_eq_ok.1 hlab)
    have hsource := (parseInstrLine_effect h).2
    simp only [parseInstrLine, bind_eq_ok, orErr_eq_ok] at h
    obtain ⟨⟨inst, rest⟩, hinstr, ⟨st₂, b, s₂⟩, hops, h⟩ := h
    split_ifs at h
    cases h
    obtain ⟨hsym', hrel'⟩ := parseOperands_enters (mem_of_parseInstr hinstr) hops
    constructor
    · obtain heq | ⟨text, name, rest', hread, heq, hfield, hcode, hbytes⟩ := hrel'
      · exact Or.inl (heq.trans hrel)
      · refine Or.inr ⟨text, name, rest', hread, ?_, inst, rest, hinstr, hfield, ?_, hbytes⟩
        · rw [heq, ← hrel]
        · have hfirst : Function.update (fun _ => (0 : Byte)) 0 inst.code 0 = inst.code :=
            Function.update_self _ _ _
          exact hcode.trans hfirst
    · obtain heq | ⟨text, name, rest', addr, hread, hfind, heq⟩ := hsym
      · exact Or.inl (hsym'.trans heq)
      · exact Or.inr ⟨text, name, rest', addr, hread, hfind, hsym'.trans heq⟩

/-- A line that an entry names has a place for the symbol. -/
lemma Traced.hasField (ht : Traced env st) {r : RelocT} (hr : r ∈ st.reltab)
    (hline : st.lines[r.y64bin]? = some line) : HasField (env.labelBuf r.y64bin) line := by
  obtain ⟨hlt, rfl⟩ := List.getElem?_eq_some_iff.1 hline
  obtain ⟨st₀, st₁, hparse, hno, hmem⟩ := ht.line r.y64bin hlt
  have hr₁ : r ∈ st₁.reltab := (hmem r rfl).1 hr
  obtain heq | ⟨-, -, -, -, -, hfield⟩ := (parseLine_entry hparse).reltab
  · rw [heq] at hr₁
    exact absurd rfl (hno r hr₁)
  · exact hfield

/-! ## The place that `relocate` finds -/

/-- The place that `relocate` finds in a line is the one where its statement has the symbol. -/
lemma patch_symbolField (hinst : inst ∈ instrSet) {pos n : ℕ}
    (hfield : inst.symbolField = some (pos, n)) (hcode : b.codes 0 = inst.code)
    (hbytes : b.bytes = inst.bytes) (addr : Long) :
    patch b addr = b.put pos n addr ∧ pos + n = b.bytes := by
  have htable : ∀ inst ∈ instrSet, ∀ f ∈ inst.symbolField, f.1 + f.2 = inst.bytes ∧
      ((IType.ofCode (high inst.code) ∈ [some .irmovq, some .jmp, some .call] ∧ f.2 = 8) ∨
        (IType.ofCode (high inst.code) = some .directive ∧ f.1 = 0 ∧ f.2 ∈ [1, 2, 4, 8])) := by
    decide
  obtain ⟨hsum, hkind⟩ := htable inst hinst _ hfield
  simp only at hsum hkind
  rw [← hbytes] at hsum
  refine ⟨?_, hsum⟩
  rw [patch, hcode]
  obtain ⟨htype, rfl⟩ | ⟨htype, rfl, hn⟩ := hkind
  · have hpos : b.bytes - 8 = pos := by omega
    simp only [List.mem_cons, List.not_mem_nil, or_false] at htype
    obtain h | h | h := htype <;> rw [h, hpos]
  · rw [htype]
    simp only [List.mem_cons, List.not_mem_nil, or_false] at hn
    obtain rfl | rfl | rfl | rfl := hn <;> simp [← hsum]

/-- The code of a line after an address has been put into `n` bytes from `pos` on, low byte first
and truncated to them, and nothing else has changed. -/
structure FieldReplaced (b b' : BinT) (pos n : ℕ) (addr : Long) : Prop where
  field : ∀ i < n, b'.codes (pos + i) = BitVec.ofNat 8 (addr.toNat / 256 ^ i)
  codes : ∀ i, i < pos ∨ pos + n ≤ i → b'.codes i = b.codes i
  frame : b'.addr = b.addr ∧ b'.bytes = b.bytes

/-- What `memcpy` does to a code. -/
lemma fieldReplaced_put (b : BinT) (pos n : ℕ) (addr : Long) :
    FieldReplaced b (b.put pos n addr) pos n addr :=
  ⟨fun _ => store_apply_add, fun _ => store_apply_of_notMem, rfl, rfl⟩

/-! ## The law -/

/-- A line after relocation, for an entry of the table: the symbol of that name has been put where
the statement of the line has it, which is at the end of its code. -/
def LineRelocated (env : Env) (st : State) (lines : List LineT) (r : RelocT) : Prop :=
  ∃ sym line b inst rest pos n, findSymbol st.symtab r.name = some sym ∧
    st.lines[r.y64bin]? = some line ∧
    parseInstr (behindLabel (env.labelBuf r.y64bin) line.y64asm) = some (inst, rest) ∧
    inst.symbolField = some (pos, n) ∧ pos + n = line.y64bin.bytes ∧
    lines[r.y64bin]? = some { line with y64bin := b } ∧
    FieldReplaced line.y64bin b pos n sym.addr

/-- What `relocate` is meant to do: it succeeds when every name of the table is defined, no line is
named twice, and a success puts each symbol into its place and changes no other line. -/
structure RelocLaw (env : Env) (st : State) : Prop where
  isSome : (relocate st).isSome = true ↔ ∀ r ∈ st.reltab, ∃ sym ∈ st.symtab, sym.name = r.name
  once : (st.reltab.map RelocT.y64bin).Nodup
  entry : ∀ lines, relocate st = some lines → ∀ r ∈ st.reltab, LineRelocated env st lines r
  other : ∀ lines, relocate st = some lines → lines.length = st.lines.length ∧
    ∀ k, (∀ r ∈ st.reltab, r.y64bin ≠ k) → lines[k]? = st.lines[k]?

/-- The loop of `relocate` succeeds when every name is found. -/
lemma relocateLoop_isSome {symtab : List SymbolT} {reltab : List RelocT} {lines : List LineT} :
    (relocateLoop symtab reltab lines).isSome = true ↔
      ∀ r ∈ reltab, (findSymbol symtab r.name).isSome = true := by
  induction reltab generalizing lines with
  | nil => exact iff_of_true rfl fun _ h => absurd h List.not_mem_nil
  | cons r reltab ih =>
    rw [relocateLoop, List.forall_mem_cons]
    cases findSymbol symtab r.name with
    | none => exact iff_of_false (by simp) fun h => by cases h.1
    | some sym => exact ih.trans (and_iff_right rfl).symm

/-- A symbol is found when there is one of that name. -/
lemma findSymbol_isSome {symtab : List SymbolT} {name : Chars} :
    (findSymbol symtab name).isSome = true ↔ ∃ sym ∈ symtab, sym.name = name := by
  rw [findSymbol, List.find?_isSome]
  simp

/-- The law holds of every state that the parser can leave. -/
lemma Traced.relocLaw (ht : Traced env st) : RelocLaw env st where
  isSome := relocateLoop_isSome.trans (forall₂_congr fun _ _ => findSymbol_isSome)
  once := ht.sorted.imp Nat.ne_of_lt
  entry lines h r hr := by
    obtain ⟨sym, hfind, hget⟩ := relocateLoop_getElem_of_mem h ht.sorted hr
    have hline := List.getElem?_eq_getElem (ht.bound r hr)
    obtain ⟨inst, rest, hinstr, hfield, hcode, hbytes⟩ := ht.hasField hr hline
    obtain ⟨⟨pos, n⟩, hpos⟩ := Option.isSome_iff_exists.1 hfield
    obtain ⟨hpatch, hsum⟩ :=
      patch_symbolField (mem_of_parseInstr hinstr) hpos hcode hbytes sym.addr
    refine ⟨sym, _, _, inst, rest, pos, n, hfind, hline, hinstr, hpos, hsum, ?_,
      fieldReplaced_put _ pos n sym.addr⟩
    rw [hget, hline, ← hpatch]
    rfl
  other lines h := ⟨relocate_length h, fun k hk => relocateLoop_getElem_of_notMem h hk⟩

/-- The state after lines that `parse_line` accepts, one after the other. -/
def parseLines (env : Env) (ls : List Chars) : Except Stop State :=
  ls.foldlM (fun st y64asm => giveLine env y64asm st) .init

/-- Accepted lines keep the invariant of `assemble`. -/
lemma traced_parseLines {ls : List Chars} (h : parseLines env ls = .ok st) : Traced env st := by
  have key : ∀ (ls : List Chars) (st₀ : State), Traced env st₀ →
      ls.foldlM (fun st y64asm => giveLine env y64asm st) st₀ = .ok st → Traced env st := by
    intro ls
    induction ls with
    | nil =>
      intro st₀ ht h
      obtain rfl := Except.ok.inj h
      exact ht
    | cons l ls ih =>
      intro st₀ ht h
      rw [List.foldlM_cons, bind_eq_ok] at h
      obtain ⟨st₁, hline, h⟩ := h
      exact ih st₁ (ht.giveLine hline) h
  exact key ls .init traced_init h

/-- **Relocation.** After any accepted lines, `relocate` does what is meant. -/
theorem relocate_law {ls : List Chars} (h : parseLines env ls = .ok st) : RelocLaw env st :=
  (traced_parseLines h).relocLaw

/-- A forward reference and its label. -/
def jumpLines : List Chars := [['j', 'm', 'p', ' ', 'L'], ['L', ':']]

/-- The law on these lines, where relocation has something to do and succeeds. -/
theorem relocate_law_jump : ∃ st lines, parseLines .zero jumpLines = .ok st ∧ st.reltab ≠ [] ∧
    relocate st = some lines ∧ RelocLaw .zero st := by
  have hrun : ∃ st, parseLines .zero jumpLines = .ok st ∧ st.reltab ≠ [] ∧
      (relocate st).isSome = true := ⟨_, rfl, List.cons_ne_nil _ _, rfl⟩
  obtain ⟨st, hst, hne, hsome⟩ := hrun
  obtain ⟨lines, hlines⟩ := Option.isSome_iff_exists.1 hsome
  exact ⟨st, lines, hst, hne, hlines, relocate_law hst⟩

/-- The law holds of every source that `assemble` accepts. -/
theorem relocLaw_of_assemble {input : Chars} (h : assemble env input = .ok st) : RelocLaw env st :=
  (traced_assemble h).relocLaw

end Y64.Asm
