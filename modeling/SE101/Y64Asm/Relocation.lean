import SE101.Y64Asm.Assembler

set_option relaxedAutoImplicit false
set_option autoImplicit false

/-!
# Runs of the assembler

What holds of the globals after any accepted source: every line was parsed in some state, and
the relocation table has, in the order of the lines, at most one entry for each of them. So
`relocate` puts one symbol into the code of a line that refers to one, and leaves the other
lines alone.

## Main definitions

* `Y64.Asm.Effect` — what parsing a line may do to the tables.
* `Y64.Asm.Traced` — the invariant of `assemble`.

## Main results

* `Y64.Asm.parseLine_effect` — the effect of `parse_line`.
* `Y64.Asm.traced_assemble` — the invariant holds when `assemble` returns.
* `Y64.Asm.relocate_getElem` — what `relocate` does to one line.
-/

namespace Y64.Asm

variable {env : Env} {idx : ℕ} {st st' : State} {b b' : BinT} {s s' : Chars}

/-! ## Sequencing -/

/-- A sequence of steps succeeds when both succeed. -/
lemma bind_eq_ok {α β : Type} {x : Except Stop α} {f : α → Except Stop β} {r : β} :
    (x >>= f) = .ok r ↔ ∃ a, x = .ok a ∧ f a = .ok r := by
  cases x with
  | error e => exact iff_of_false (fun h => by cases h) (by rintro ⟨a, h, -⟩; cases h)
  | ok a =>
    constructor
    · intro h; exact ⟨a, rfl, h⟩
    · rintro ⟨a', h, h'⟩; cases h; exact h'

/-- A parser that is not in error has a value. -/
lemma orErr_eq_ok {α : Type} {x : Option α} {a : α} : orErr x = .ok a ↔ x = some a := by
  cases x with
  | none => exact iff_of_false (fun h => by cases h) (by simp)
  | some a' =>
    constructor
    · intro h; cases h; rfl
    · intro h; cases h; rfl

/-! ## One line -/

/-- The effect of parsing a line: its index is entered for relocation at most once, and the
lines before it stay as they are. -/
structure Effect (idx : ℕ) (st st' : State) : Prop where
  lines : st'.lines = st.lines
  reltab : ∃ o : Option Chars, st'.reltab = st.reltab ++ (o.map fun n => ⟨idx, n⟩).toList

/-- No entry for relocation. -/
lemma Effect.of_eq (hl : st'.lines = st.lines) (hr : st'.reltab = st.reltab) :
    Effect idx st st' := ⟨hl, none, by simp [hr]⟩

/-- One entry for relocation. -/
lemma effect_addReloc (name : Chars) : Effect idx st (addReloc st name idx) :=
  ⟨rfl, some name, rfl⟩

/-- The effect of a value. -/
lemma effect_putValue (pos n : ℕ) (v : Value) :
    Effect idx st (putValue idx st b pos n v).1 := by
  cases v with
  | digit v => exact .of_eq rfl rfl
  | symbol name => exact effect_addReloc name

/-- The effect of two registers. -/
lemma parseRegReg_effect (h : parseRegReg st b s = .ok (st', b', s')) : Effect idx st st' := by
  simp only [parseRegReg, bind_eq_ok] at h
  obtain ⟨_, -, _, -, _, -, h⟩ := h
  cases h
  exact .of_eq rfl rfl

/-- The effect of the operand of a data directive. -/
lemma parseDataN_effect {n : ℕ} (h : parseDataN env idx n st b s = .ok (st', b', s')) :
    Effect idx st st' := by
  simp only [parseDataN, bind_eq_ok] at h
  obtain ⟨x, -, h⟩ := h
  cases h
  exact effect_putValue 0 n x.1

/-- The effect of a directive. -/
lemma parseDirective_effect {inst : InstrT}
    (h : parseDirective env idx inst st b s = .ok (st', b', s')) : Effect idx st st' := by
  unfold parseDirective at h
  split_ifs at h
  · simp only [bind_eq_ok] at h
    obtain ⟨_, -, h⟩ := h
    cases h
    exact .of_eq rfl rfl
  · simp only [bind_eq_ok] at h
    obtain ⟨_, -, _, -, h⟩ := h
    split_ifs at h <;> cases h <;> exact .of_eq rfl rfl
  · exact parseDataN_effect h
  · exact parseDataN_effect h
  · exact parseDataN_effect h
  · exact parseDataN_effect h

/-- The effect of the operands of an instruction. -/
lemma parseOperands_effect {inst : InstrT}
    (h : parseOperands env idx inst st b s = .ok (st', b', s')) : Effect idx st st' := by
  unfold parseOperands at h
  cases hI : IType.ofCode (high inst.code) with
  | none => rw [hI] at h; cases h
  | some t =>
    rw [hI] at h
    cases t with
    | halt | nop | ret => cases h; exact .of_eq rfl rfl
    | rrmovq | alu => exact parseRegReg_effect h
    | irmovq =>
      simp only [bind_eq_ok] at h
      obtain ⟨x, -, _, -, _, -, h⟩ := h
      cases h
      exact effect_putValue 2 8 x.1
    | rmmovq | mrmovq =>
      simp only [bind_eq_ok] at h
      obtain ⟨_, -, _, -, _, -, h⟩ := h
      cases h
      exact .of_eq rfl rfl
    | jmp | call =>
      simp only [bind_eq_ok] at h
      obtain ⟨_, -, h⟩ := h
      cases h
      exact effect_addReloc _
    | pushq | popq =>
      simp only [bind_eq_ok] at h
      obtain ⟨_, -, h⟩ := h
      cases h
      exact .of_eq rfl rfl
    | directive => exact parseDirective_effect h

/-- The effect of a statement, and the source that its line keeps. -/
lemma parseInstrLine_effect {y64asm : Chars} {line : LineT}
    (h : parseInstrLine env idx y64asm st s = .ok (line, st')) :
    Effect idx st st' ∧ line.y64asm = y64asm := by
  simp only [parseInstrLine, bind_eq_ok] at h
  obtain ⟨_, -, ⟨st₁, b₁, s₁⟩, hops, h⟩ := h
  split_ifs at h
  cases h
  have he := parseOperands_effect hops
  exact ⟨⟨he.lines, he.reltab⟩, rfl⟩

/-- The effect of `parse_line`, and the source that the line keeps. -/
lemma parseLine_effect {y64asm : Chars} {line : LineT}
    (h : parseLine env idx y64asm st = .ok (line, st')) :
    Effect idx st st' ∧ line.y64asm = y64asm := by
  unfold parseLine at h
  simp only at h
  split_ifs at h
  · cases h
    exact ⟨.of_eq rfl rfl, rfl⟩
  · split at h
    · rename_i name s₁ hlabel
      simp only [bind_eq_ok, orErr_eq_ok] at h
      obtain ⟨st₁, hadd, h⟩ := h
      have hst₁ : st₁.lines = st.lines ∧ st₁.reltab = st.reltab := by
        unfold addSymbol at hadd
        split_ifs at hadd
        cases hadd
        exact ⟨rfl, rfl⟩
      split_ifs at h
      · cases h
        exact ⟨.of_eq hst₁.1 hst₁.2, rfl⟩
      · obtain ⟨he, hy⟩ := parseInstrLine_effect h
        exact ⟨⟨he.lines.trans hst₁.1, hst₁.2 ▸ he.reltab⟩, hy⟩
    · exact parseInstrLine_effect h

/-! ## Runs -/

/-- A line was parsed in a state whose relocation table had no entry for it. -/
def LineTraced (env : Env) (st : State) (k : ℕ) (line : LineT) : Prop :=
  ∃ st₀ st₁, parseLine env k line.y64asm st₀ = .ok (line, st₁) ∧
    (∀ r ∈ st₀.reltab, r.y64bin ≠ k) ∧
    ∀ r : RelocT, r.y64bin = k → (r ∈ st.reltab ↔ r ∈ st₁.reltab)

/-- The invariant of `assemble`: entries for relocation are in the order of the lines, one for
a line at most, and every line was parsed in some state. -/
structure Traced (env : Env) (st : State) : Prop where
  sorted : (st.reltab.map RelocT.y64bin).Pairwise (· < ·)
  bound : ∀ r ∈ st.reltab, r.y64bin < st.lines.length
  line : ∀ (k : ℕ) (h : k < st.lines.length), LineTraced env st k st.lines[k]

/-- The invariant holds at the start. -/
lemma traced_init : Traced env .init where
  sorted := .nil
  bound _ h := absurd h List.not_mem_nil
  line k h := absurd h (Nat.not_lt_zero k)

/-- What `assemble` does with a line. -/
def giveLine (env : Env) (y64asm : Chars) (st : State) : Except Stop State := do
  let (line, st) ← parseLine env st.lines.length y64asm st
  return { st with lines := st.lines ++ [line] }

/-- A turn of the loop of `assemble` gives a line to `parse_line`. -/
lemma assembleLine_eq (env : Env) (asmBuf : Chars) (st : State) :
    assembleLine env asmBuf st =
      (strip env.before (cstr asmBuf) >>= fun y64asm => giveLine env y64asm st) := rfl

/-- A line that `parse_line` accepts keeps the invariant. -/
lemma Traced.giveLine {y64asm : Chars} (ht : Traced env st)
    (h : giveLine env y64asm st = .ok st') : Traced env st' := by
  simp only [Asm.giveLine, bind_eq_ok] at h
  obtain ⟨⟨line, st₁⟩, hparse, h⟩ := h
  obtain rfl := Except.ok.inj h
  obtain ⟨⟨hlines, o, hreltab⟩, hy⟩ := parseLine_effect hparse
  have hnew : ∀ r ∈ (o.map fun n => (⟨st.lines.length, n⟩ : RelocT)).toList,
      r.y64bin = st.lines.length := by
    intro r hr
    cases o with
    | none => simp at hr
    | some n =>
      obtain rfl : r = ⟨st.lines.length, n⟩ := by simpa using hr
      rfl
  refine ⟨?_, ?_, ?_⟩
  · simp only [hreltab, List.map_append]
    refine List.pairwise_append.2 ⟨ht.sorted, ?_, ?_⟩
    · cases o with
      | none => exact .nil
      | some n => exact List.pairwise_singleton _ _
    · intro a ha c hc
      obtain ⟨r, hr, rfl⟩ := List.mem_map.1 ha
      obtain ⟨r', hr', rfl⟩ := List.mem_map.1 hc
      rw [hnew r' hr']
      exact ht.bound r hr
  · intro r hr
    simp only [hreltab, hlines, List.length_append, List.length_singleton] at hr ⊢
    rcases List.mem_append.1 hr with hr | hr
    · have := ht.bound r hr
      omega
    · have := hnew r hr
      omega
  · intro k hk
    simp only [hlines, List.length_append, List.length_singleton] at hk
    by_cases hkl : k < st.lines.length
    · have hkl' : k < (st₁.lines ++ [line]).length := by simp [hlines]; omega
      have hget : (st₁.lines ++ [line])[k] = st.lines[k] := by
        simp [hlines, List.getElem_append_left, hkl]
      obtain ⟨st₀, st₂, hp, hno, hmem⟩ := ht.line k hkl
      simp only [hget]
      refine ⟨st₀, st₂, hp, hno, fun r hr => ?_⟩
      rw [← hmem r hr]
      simp only [hreltab, List.mem_append]
      refine or_iff_left fun h => ?_
      have := hnew r h
      omega
    · obtain rfl : k = st.lines.length := by omega
      have hkl' : st.lines.length < (st₁.lines ++ [line]).length := by simp [hlines]
      have hget : (st₁.lines ++ [line])[st.lines.length] = line := by
        simp [hlines]
      simp only [hget]
      refine ⟨st, st₁, hy ▸ hparse, fun r hr => ?_, fun r _ => Iff.rfl⟩
      have := ht.bound r hr
      omega

/-- One turn of the loop of `assemble` keeps the invariant. -/
lemma Traced.assembleLine {asmBuf : Chars} (ht : Traced env st)
    (h : assembleLine env asmBuf st = .ok st') : Traced env st' := by
  rw [assembleLine_eq, bind_eq_ok] at h
  obtain ⟨y64asm, -, h⟩ := h
  exact ht.giveLine h

/-- The loop of `assemble` keeps the invariant. -/
lemma Traced.assembleLoop (fuel : ℕ) : ∀ {input : Chars} {st st' : State}, Traced env st →
    assembleLoop env fuel input st = .ok st' → Traced env st' := by
  induction fuel with
  | zero =>
    intro input st st' ht h
    obtain rfl := Except.ok.inj h
    exact ht
  | succ fuel ih =>
    intro input st st' ht h
    unfold Asm.assembleLoop at h
    split at h
    · obtain rfl := Except.ok.inj h
      exact ht
    · rw [bind_eq_ok] at h
      obtain ⟨st₁, hline, h⟩ := h
      exact ih (ht.assembleLine hline) h

/-- The invariant holds when `assemble` returns. -/
theorem traced_assemble {input : Chars} (h : assemble env input = .ok st) : Traced env st :=
  traced_init.assembleLoop _ h

/-! ## Relocation -/

/-- Putting a symbol into the code keeps its address and its size. -/
lemma patch_frame (b : BinT) (addr : Long) :
    (patch b addr).addr = b.addr ∧ (patch b addr).bytes = b.bytes := by
  unfold patch
  split
  · exact ⟨rfl, rfl⟩
  · exact ⟨rfl, rfl⟩
  · exact ⟨rfl, rfl⟩
  · split_ifs <;> exact ⟨rfl, rfl⟩
  · exact ⟨rfl, rfl⟩

/-- The loop of `relocate` keeps the number of lines. -/
lemma relocateLoop_length {symtab : List SymbolT} : ∀ {reltab : List RelocT}
    {lines lines' : List LineT}, relocateLoop symtab reltab lines = some lines' →
    lines'.length = lines.length
  | [], lines, lines', h => by
    obtain rfl := Option.some.inj h
    rfl
  | r :: reltab, lines, lines', h => by
    unfold relocateLoop at h
    split at h
    · cases h
    · rw [relocateLoop_length h, List.length_modify]

/-- The loop of `relocate` leaves a line alone that it has no entry for. -/
lemma relocateLoop_getElem_of_notMem {symtab : List SymbolT} {k : ℕ} :
    ∀ {reltab : List RelocT} {lines lines' : List LineT},
      relocateLoop symtab reltab lines = some lines' → (∀ r ∈ reltab, r.y64bin ≠ k) →
      lines'[k]? = lines[k]?
  | [], lines, lines', h, _ => by
    obtain rfl := Option.some.inj h
    rfl
  | r :: reltab, lines, lines', h, hno => by
    unfold relocateLoop at h
    split at h
    · cases h
    · rw [relocateLoop_getElem_of_notMem h fun r hr => hno r (by simp [hr]),
        List.getElem?_modify_ne _ _ (hno r (by simp))]

/-- The loop of `relocate` puts a symbol into a line that it has one entry for.

**Proof sketch.** Induct on the table. The entries are in strict order, so the line's entry is
either the first one, and no later one touches the line again, or a later one, and the first
one leaves the line alone. -/
lemma relocateLoop_getElem_of_mem {symtab : List SymbolT} {r : RelocT} :
    ∀ {reltab : List RelocT} {lines lines' : List LineT},
      relocateLoop symtab reltab lines = some lines' →
      (reltab.map RelocT.y64bin).Pairwise (· < ·) → r ∈ reltab →
      ∃ sym, findSymbol symtab r.name = some sym ∧
        lines'[r.y64bin]? = lines[r.y64bin]?.map (LineT.patch · sym.addr)
  | r' :: reltab, lines, lines', h, hs, hr => by
    obtain ⟨hfirst, hs⟩ := List.pairwise_cons.1 hs
    have hlt : ∀ r₂ ∈ reltab, r'.y64bin < r₂.y64bin := fun r₂ h₂ =>
      hfirst _ (List.mem_map_of_mem h₂)
    unfold relocateLoop at h
    split at h
    · cases h
    · rename_i tempsym hsym
      rcases List.mem_cons.1 hr with rfl | hr
      · refine ⟨tempsym, hsym, ?_⟩
        rw [relocateLoop_getElem_of_notMem h fun r₂ h₂ => (hlt r₂ h₂).ne',
          List.getElem?_modify_eq]
        rfl
      · obtain ⟨sym, hfind, hget⟩ := relocateLoop_getElem_of_mem h hs hr
        refine ⟨sym, hfind, ?_⟩
        rw [hget, List.getElem?_modify_ne _ _ (hlt r hr).ne]

/-- The number of lines does not change. -/
lemma relocate_length {lines : List LineT} (h : relocate st = some lines) :
    lines.length = st.lines.length := relocateLoop_length h

end Y64.Asm
