import SE101.Y64.Encoding
import SE101.Y64Asm.Lines
import SE101.Y64Asm.Relocation

set_option relaxedAutoImplicit false
set_option autoImplicit false

/-!
# The assembler and the simulator agree on the instruction format

The code that the assembler leaves for an instruction line, put anywhere in the memory of the
simulator, is read by `nexti` as that instruction: the same type and function, each register in
the role that the source gives it, and the same constant, which is the address of the symbol
when the source has one.

## Main definitions

* `Y64.Jumps` — an instruction that does not go on with the next one.

## Main results

* `Y64.execute_pc` — where the simulator goes on otherwise.
* `Y64.Asm.line_encodes` — the code of an instruction line of an accepted program.
* `Y64.Asm.nexti_assembled` — `nexti` on that code.
-/

namespace Y64

open LittleEndian

/-- The instruction goes on elsewhere than behind itself. -/
def Jumps (sim : Y64Sim) : Ref.Instr → Prop
  | .jmp c _ => condDoit sim.cc c = true
  | .call _ | .ret => True
  | .halt | .nop | .cmov .. | .irmovq .. | .rmmovq .. | .mrmovq .. | .opq .. | .pushq _
  | .popq _ => False

/-- An instruction that does not jump goes on behind itself. -/
lemma execute_pc (sim : Y64Sim) (i : Ref.Instr) (valP : Long)
    (hok : (execute sim (i.fetched valP)).1 = .aok) (hj : ¬ Jumps sim i) :
    (execute sim (i.fetched valP)).2.pc = valP := by
  cases i with
  | halt => cases hok
  | nop | irmovq v rB => rfl
  | cmov c rA rB =>
    simp only [execute, Ref.Instr.fetched, Cond.ofCode_code]
  | opq op rA rB =>
    simp only [execute, Ref.Instr.fetched, Alu.ofCode_code]
  | jmp c dest =>
    have hc : condDoit sim.cc c = false := by simpa [Jumps] using hj
    simp [execute, Ref.Instr.fetched, Cond.ofCode_code, hc]
  | call dest | ret => exact absurd trivial hj
  | rmmovq rA d rB =>
    simp only [execute, Ref.Instr.fetched] at hok ⊢
    split at hok
    · cases hok
    · rfl
  | mrmovq d rB rA =>
    simp only [execute, Ref.Instr.fetched] at hok ⊢
    split at hok
    · cases hok
    · rfl
  | pushq rA =>
    simp only [execute, Ref.Instr.fetched] at hok ⊢
    split at hok
    · cases hok
    · rfl
  | popq rA =>
    simp only [execute, Ref.Instr.fetched] at hok ⊢
    split at hok
    · cases hok
    · rfl

namespace Asm

variable {env : Env} {input : Chars} {st : State} {lines : List LineT} {k : ℕ} {l : SrcLine}
  {i : SrcInstr}

/-- The code of an instruction line of an accepted program is the encoding of the instruction,
with the address that `relocate` found for its symbol. -/
theorem line_encodes (hasm : assemble env input = .ok st) (hrel : relocate st = some lines)
    (hk : k < lines.length) (htext : l.Text LetterName lines[k].y64asm)
    (hl : l.stmt = some (.instr i)) :
    ∃ a, (∀ n ∈ i.symbol, ∃ sym, findSymbol st.symtab (nameIn (env.symbolBuf k) n) = some sym ∧
        sym.addr = a) ∧
      lines[k].y64bin.bytes = (i.resolve fun _ => a).encode.length ∧
      slice lines[k].y64bin.codes 0 lines[k].y64bin.bytes = (i.resolve fun _ => a).encode := by
  have ht := traced_assemble hasm
  have hk' : k < st.lines.length := relocate_length hrel ▸ hk
  obtain ⟨st₀, st₁, hparse, hno, hmem⟩ := ht.line k hk'
  have hget : lines[k]? = some lines[k] := List.getElem?_eq_getElem hk
  have hget' : st.lines[k]? = some st.lines[k] := List.getElem?_eq_getElem hk'
  -- the source of the line is not changed by `relocate`
  have hsrc : ∀ a, lines[k] = st.lines[k] ∨ lines[k] = st.lines[k].patch a →
      l.Text LetterName st.lines[k].y64asm := by
    rintro a (h | h) <;> rw [h] at htext <;> exact htext
  -- what `parse_line` made of a line with this text
  have hline : l.Text LetterName st.lines[k].y64asm →
      LineOk l st₀.vmaddr st.lines[k] ∧
      ∀ r : RelocT, r.y64bin = k → (r ∈ st.reltab ↔
        ∃ n ∈ i.symbol, r = ⟨k, nameIn (env.symbolBuf k) n⟩) := by
    intro h
    obtain ⟨line, hparse', hok⟩ := parseLine_text h (findSymbol_of_parseLine h hparse)
      (show l.vmaddr st₀.vmaddr = .ok (st₀.vmaddr + BitVec.ofNat 64 (Stmt.instr i).size) by
        rw [SrcLine.vmaddr, hl]; rfl)
    rw [hparse'] at hparse
    obtain ⟨rfl, rfl⟩ := Prod.mk.inj (Except.ok.inj hparse)
    refine ⟨hok, fun r hr => ?_⟩
    have hsym : l.symbol = i.symbol := by rw [SrcLine.symbol, hl]; rfl
    rw [hmem r hr, SrcLine.after, List.mem_append, hsym, Option.mem_toList,
      Option.map_eq_some_iff]
    constructor
    · rintro (h | ⟨n, hn, rfl⟩)
      · exact absurd hr (hno r h)
      · exact ⟨n, hn, rfl⟩
    · rintro ⟨n, hn, rfl⟩
      exact Or.inr ⟨n, hn, rfl⟩
  have hsize : l.size = (Stmt.instr i).size := by rw [SrcLine.size, hl]; rfl
  have hsym : l.symbol = i.symbol := by rw [SrcLine.symbol, hl]; rfl
  have hcode : ∀ a, (l.code fun _ => a) = (i.resolve fun _ => a).encode := by
    intro a; rw [SrcLine.code, hl]; rfl
  by_cases hr : ∃ r ∈ st.reltab, r.y64bin = k
  · obtain ⟨r, hr, hrk⟩ := hr
    obtain ⟨sym, hfind, hpatch⟩ := relocateLoop_getElem_of_mem hrel ht.sorted hr
    rw [hrk, hget, hget', Option.map_some] at hpatch
    have hpatch := Option.some.inj hpatch
    obtain ⟨hok, href⟩ := hline (hsrc sym.addr (Or.inr hpatch))
    obtain ⟨n, hn, rfl⟩ := (href r hrk).1 hr
    have hb : lines[k].y64bin = relocated l.symbol st.lines[k].y64bin sym.addr := by
      rw [hpatch, relocated, hsym, Option.mem_def.1 hn]
      rfl
    have hbytes : lines[k].y64bin.bytes = (Stmt.instr i).size := by
      rw [← hsize, ← hok.bytes, hpatch]
      exact (patch_frame _ _).2
    refine ⟨sym.addr, fun n' hn' => ⟨sym, ?_, rfl⟩, ?_, ?_⟩
    · obtain rfl := Option.mem_unique hn hn'
      exact hfind
    · rw [hbytes, size_resolve]
    · rw [hbytes, hb, ← hsize, hok.code, hcode]
  · have hrel' := relocateLoop_getElem_of_notMem hrel fun r h hk => hr ⟨r, h, hk⟩
    rw [hget, hget'] at hrel'
    have hsame := Option.some.inj hrel'
    obtain ⟨hok, href⟩ := hline (hsrc 0 (Or.inl hsame))
    have hnone : i.symbol = none := by
      rw [Option.eq_none_iff_forall_not_mem]
      intro n hn
      exact hr ⟨⟨k, _⟩, (href _ rfl).2 ⟨n, hn, rfl⟩, rfl⟩
    have hbytes : lines[k].y64bin.bytes = (Stmt.instr i).size := by
      rw [hsame, hok.bytes, hsize]
    refine ⟨0, fun n hn => ?_, ?_, ?_⟩
    · rw [hnone] at hn
      cases hn
    · rw [hbytes, size_resolve]
    · have hcode0 := hok.code 0
      rw [relocated, hsym, hnone, if_neg (by decide), hcode, hsize] at hcode0
      rw [hbytes, hsame, hcode0]

/-- `nexti` on the code of an instruction line of an accepted program: it reads the instruction
of the line, with the address that `relocate` found for its symbol, does what the reference
does for that instruction, and goes on behind the code unless it jumps. -/
theorem nexti_assembled (hasm : assemble env input = .ok st) (hrel : relocate st = some lines)
    (hk : k < lines.length) (htext : l.Text LetterName lines[k].y64asm)
    (hl : l.stmt = some (.instr i)) :
    ∃ a, (∀ n ∈ i.symbol, ∃ sym, findSymbol st.symtab (nameIn (env.symbolBuf k) n) = some sym ∧
        sym.addr = a) ∧
      ∀ sim : Y64Sim,
        sim.pc.toNat + lines[k].y64bin.bytes ≤ sim.m.len →
        slice sim.m.data sim.pc.toNat lines[k].y64bin.bytes =
          slice lines[k].y64bin.codes 0 lines[k].y64bin.bytes →
        fetch sim = some ((i.resolve fun _ => a).fetched
          (sim.pc + BitVec.ofNat 64 lines[k].y64bin.bytes)) ∧
        ((∀ x, Ref.dataAddr (abs sim) (i.resolve fun _ => a) = some x → NoWrap x) →
          Matches (nexti sim) (Ref.exec (abs sim) (i.resolve fun _ => a)
            (sim.pc + BitVec.ofNat 64 lines[k].y64bin.bytes))) ∧
        ((nexti sim).1 = .aok → ¬ Jumps sim (i.resolve fun _ => a) →
          (nexti sim).2.pc = sim.pc + BitVec.ofNat 64 lines[k].y64bin.bytes) := by
  obtain ⟨a, hsym, hbytes, hcodes⟩ := line_encodes hasm hrel hk htext hl
  refine ⟨a, hsym, fun sim hin hmem => ?_⟩
  rw [hcodes] at hmem
  have hfetch := fetch_encode sim (i := i.resolve fun _ => a) (hbytes ▸ hmem) (hbytes ▸ hin)
  rw [← hbytes] at hfetch
  have hnexti : nexti sim = execute sim ((i.resolve fun _ => a).fetched
      (sim.pc + BitVec.ofNat 64 lines[k].y64bin.bytes)) := by
    rw [nexti, hfetch]
  refine ⟨hfetch, fun hw => ?_, fun hok hj => ?_⟩
  · rw [hnexti]
    exact execute_fetched sim _ _ hw
  · rw [hnexti] at hok ⊢
    exact execute_pc sim _ _ hok hj

/-- A program with one load. -/
def mrmovqSource : Chars :=
  ['m', 'r', 'm', 'o', 'v', 'q', ' ', '8', '(', '%', 'r', 'b', 'x', ')', ',', '%', 'r', 'c', 'x']

/-- Its meaning. -/
def mrmovqSrcLine : SrcLine := ⟨none, some (.instr (.mrmovq 8 .rbx .rcx))⟩

/-- The program is of the documented form. -/
lemma mrmovqSource_text : mrmovqSrcLine.Text LetterName mrmovqSource := by
  have h8 : Number ['8'] 8 :=
    ⟨.plain (@Unsigned.dec '8' [] (by decide) (by decide)), by decide,
      by decide⟩
  refine ⟨_, [], ⟨[], [], [], mrmovqSource, [], by simp, rfl, ⟨[' '], _, by decide,
    ⟨['8', '(', '%', 'r', 'b', 'x', ')'], [','], ⟨['8'], Or.inl h8, rfl⟩,
      ⟨[], [], by simp, by simp, rfl⟩, rfl⟩, by simp, rfl⟩, rfl⟩, Or.inl rfl, rfl⟩

/-- Its only line. -/
def mrmovqLine : LineT :=
  ⟨.ins, ((startBin 0 (Stmt.instr (.mrmovq 8 .rbx .rcx)).inst).putRegs (some .rcx)
    (some .rbx)).put 2 8 8, mrmovqSource⟩

/-- A machine with given code at address 0. -/
def codeSim (b : BinT) : Y64Sim where
  pc := 0
  r := ⟨128, fun _ => 0, regFile_len_lt⟩
  m := ⟨64, b.codes, smallMem_len_lt⟩
  cc := packCc true false false
  r_len := rfl

/-- The simulator reads the load, with `%rbx` as its base and `%rcx` as its destination. -/
theorem nexti_assembled_mrmovq :
    assemble .zero mrmovqSource = .ok ⟨[mrmovqLine], [], [], 10⟩ ∧
      fetch (codeSim mrmovqLine.y64bin) =
        some ((Ref.Instr.mrmovq 8 .rbx .rcx).fetched (0 + BitVec.ofNat 64 10)) := by
  have hasm : assemble .zero mrmovqSource = .ok ⟨[mrmovqLine], [], [], 10⟩ := rfl
  refine ⟨hasm, ?_⟩
  obtain ⟨a, -, h⟩ := nexti_assembled (k := 0) hasm
    (show relocate ⟨[mrmovqLine], [], [], 10⟩ = some [mrmovqLine] from rfl) (by decide)
    mrmovqSource_text rfl
  exact (h (codeSim mrmovqLine.y64bin) (by decide) rfl).1

end Asm

end Y64
