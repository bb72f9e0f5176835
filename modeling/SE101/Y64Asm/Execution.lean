import SE101.Y64.Encoding
import SE101.Y64.Faults
import SE101.Y64.Report
import SE101.Y64Asm.Machine
import SE101.Y64Asm.TwoPass

set_option relaxedAutoImplicit false
set_option autoImplicit false

/-!
# Assembled programs run as their text

A source program of the documented form is assembled, loaded and simulated. The result is the
run of the machine that executes the text of the program, as long as that machine has a meaning
for it: the same number of steps, the same status, and the same registers, flags and memory.

## Main definitions

* `Y64.Asm.CodeIn` — the code of all instructions of a program is in memory.
* `Y64.Asm.Follows` — a simulator state shows the state of the text machine.
* `Y64.Asm.Shows` — so does a report.

## Main results

* `Y64.Asm.code_image` — the image has the code of each instruction at its address.
* `Y64.Asm.forward_textStep` — one step of the simulator is one step of the text machine.
* `Y64.Asm.simMain_yas` — the report on an assembled program.
* `Y64.Asm.simMain_yas_y86` — the same with the documented flags.

## Design

The proof is a forward simulation. Its invariant is that no instruction has been overwritten, so
the instruction that is fetched from memory is the one in the text.
-/

namespace Y64.Asm

open LittleEndian Scan

variable {rule : FlagRule} {prog : List SrcLine} {loc : ℕ} {out : List Byte}

/-! ## The image -/

/-- The second pass only appends. -/
lemma prefix_emit (sym : Chars → Long) : ∀ (prog : List SrcLine) (loc : ℕ) (out : List Byte),
    out <+: emit sym loc out prog
  | [], _, _ => List.prefix_rfl
  | l :: prog, loc, out => by
    refine List.IsPrefix.trans ?_ (prefix_emit sym prog (l.next loc) _)
    rw [place]
    split_ifs
    · exact List.prefix_rfl
    · rw [List.append_assoc]
      exact List.prefix_append _ _

/-- An instruction has code. -/
lemma encode_ne_nil (i : Ref.Instr) : i.encode ≠ [] := List.cons_ne_nil _ _

/-- Bytes of a longer list. -/
lemma prefix_getD {xs ys : List Byte} (h : xs <+: ys) {k : ℕ} (hk : k < xs.length) :
    ys.getD k 0 = xs.getD k 0 := by
  obtain ⟨t, rfl⟩ := h
  exact List.getD_append _ _ _ _ hk

/-- Placing the code of a line keeps the output behind the location counter. -/
lemma length_place_le (l : SrcLine) (sym : Chars → Long) (hout : out.length ≤ loc)
    (hle : loc ≤ l.next loc) : (place loc out (l.code sym)).length ≤ l.next loc := by
  have hlen := length_lineCode l sym
  by_cases hcode : l.code sym = []
  · rw [hcode, place, if_pos rfl]
    omega
  · have hsize : 0 < l.size := by
      rw [← hlen]
      exact List.length_pos_of_ne_nil hcode
    rw [length_place hout hcode, next_of_size loc hsize, hlen]

/-- The second pass puts the code of each instruction at its address.

**Proof sketch.** Induct on the program. The code of the first line is placed at the location
counter, behind the output so far, and stays there because later lines only append. -/
lemma code_emit (sym : Chars → Long) : ∀ (prog : List SrcLine) (loc : ℕ) (out : List Byte),
    Forward loc prog → (∀ l ∈ prog, ∀ n, l.stmt = some (.align n) → 0 < n) → out.length ≤ loc →
    ∀ p ∈ instrs loc prog, p.1 + p.2.size ≤ (emit sym loc out prog).length ∧
      ∀ k < p.2.size, (emit sym loc out prog).getD (p.1 + k) 0 =
        (p.2.resolve sym).encode.getD k 0
  | [], _, _, _, _, _, p, hp => by cases hp
  | l :: prog, loc, out, hfwd, halign, hout, p, hp => by
    obtain ⟨hloc, hpos, hfwd⟩ := hfwd
    have hle := le_next hpos (halign l List.mem_cons_self)
    have ih := code_emit sym prog (l.next loc) (place loc out (l.code sym)) hfwd
      (fun l' hl' => halign l' (List.mem_cons_of_mem _ hl')) (length_place_le l sym hout hle)
    rw [instrs] at hp
    split at hp
    case h_2 => exact ih p hp
    case h_1 i hi =>
      rcases List.mem_cons.1 hp with rfl | hp
      case inr => exact ih p hp
      have hcode : l.code sym = (i.resolve sym).encode := by
        rw [SrcLine.code, hi]
        rfl
      have hlen : (l.code sym).length = i.size := by
        rw [hcode]
        exact size_resolve i sym
      have hplace := length_place hout (by rw [hcode]; exact encode_ne_nil _ : l.code sym ≠ [])
      have hpre := prefix_emit sym prog (l.next loc) (place loc out (l.code sym))
      rw [emit]
      dsimp only
      refine ⟨?_, fun k hk => ?_⟩
      · have := hpre.length_le
        omega
      · rw [prefix_getD hpre (by omega),
          getD_place hout (by rw [hcode]; exact encode_ne_nil _), if_pos (by omega), hcode,
          Nat.add_sub_cancel_left]

/-- The image has the code of each instruction at its address. -/
theorem code_image (hwf : WellFormed prog) : ∀ p ∈ instrs 0 prog,
    p.1 + p.2.size ≤ (image prog).length ∧ ∀ k < p.2.size,
      (image prog).getD (p.1 + k) 0 = (p.2.resolve (symbols prog)).encode.getD k 0 :=
  code_emit _ prog 0 [] hwf.forward hwf.align le_rfl

/-- Memory has the code of every instruction of the program. -/
def CodeIn (prog : List SrcLine) (s : Ref.State) : Prop :=
  ∀ p ∈ instrs 0 prog, p.1 + p.2.size ≤ s.len ∧
    slice s.mem p.1 p.2.size = (p.2.resolve (symbols prog)).encode

/-! ## One instruction -/

section Step

variable {s : Ref.State} {i : Ref.Instr} {valP : Long}

/-- What the memory stage can do to memory. -/
lemma memory_cases {v : Long} {mem : Memory} (h : Ref.memory s i valP = some (v, mem)) :
    mem = s.mem ∨ ∃ a w, writes i = true ∧ Ref.dataAddr s i = some a ∧ a.toNat + 8 ≤ s.len ∧
      mem = store s.mem a.toNat 8 w := by
  have hwrite {a w : Long} (h : (s.write8 a w).map (fun mem => ((0 : Long), mem)) = some (v, mem)) :
      a.toNat + 8 ≤ s.len ∧ mem = store s.mem a.toNat 8 w.toNat := by
    rw [Ref.State.write8] at h
    split_ifs at h with hb
    · cases h
      exact ⟨hb, rfl⟩
    · cases h
  have hread {a : Long} (h : (s.read8 a).map (fun w => (w, s.mem)) = some (v, mem)) :
      mem = s.mem := by
    obtain ⟨_, _, hp⟩ := Option.map_eq_some_iff.1 h
    exact (Prod.mk.inj hp).2.symm
  cases i with
  | halt | nop | cmov | irmovq | opq | jmp => exact .inl (Prod.mk.inj (Option.some.inj h)).2.symm
  | mrmovq | ret | popq => exact .inl (hread h)
  | rmmovq | call | pushq => exact .inr ⟨_, _, rfl, rfl, hwrite h⟩

/-- An allowed instruction leaves the code of the program in memory. -/
lemma CodeIn.exec (h : CodeIn prog s) (hok : AccessOk prog s i)
    (haok : (Ref.exec s i valP).1 = .aok) : CodeIn prog (Ref.exec s i valP).2 := by
  cases hm : Ref.memory s i valP with
  | none =>
    rw [exec_of_memory_none hm] at haok
    cases haok
  | some r =>
    obtain ⟨v, mem⟩ := r
    rw [exec_of_memory_some hm]
    intro p hp
    obtain ⟨hle, hslice⟩ := h p hp
    refine ⟨hle, ?_⟩
    rcases memory_cases hm with rfl | ⟨a, w, hw, haddr, hb, rfl⟩
    · exact hslice
    · rw [← hslice]
      refine slice_eq_iff.2 fun k hk => store_apply_of_notMem ?_
      -- a byte of the instruction that is written is not apart from it
      by_contra hin
      have hfalse := (hok a haddr).apart hw hb (p.1 + k - a.toNat) (by omega)
      rw [show a.toNat + (p.1 + k - a.toNat) = p.1 + k by omega, isCode,
        List.any_eq_false] at hfalse
      exact hfalse p hp (by simp only [Bool.and_eq_true, decide_eq_true_iff]; omega)

/-- The condition code after the `switch`. -/
lemma execute_cc (sim : Y64Sim) (i : Ref.Instr) (valP : Long) :
    (execute sim (i.fetched valP)).2.cc =
      match i with
      | .opq op rA rB => computeCc (some op) (getRegVal sim.r (some rA)) (getRegVal sim.r (some rB))
          (computeAlu (some op) (getRegVal sim.r (some rA)) (getRegVal sim.r (some rB)))
      | _ => sim.cc := by
  cases i with
  | halt | nop | irmovq => rfl
  | opq op rA rB => simp only [execute, Ref.Instr.fetched, Alu.ofCode_code]
  | cmov c rA rB =>
    simp only [execute, Ref.Instr.fetched, Cond.ofCode_code]
    split_ifs <;> rfl
  | jmp c dest => simp only [execute, Ref.Instr.fetched, Cond.ofCode_code]
  | rmmovq | mrmovq | call | ret | pushq | popq =>
    simp only [execute, Ref.Instr.fetched]
    split <;> rfl

/-- An instruction that does not succeed leaves all but the stack pointer alone, and that too
unless the status is `ADR`. -/
lemma execute_stop (sim : Y64Sim) (i : Ref.Instr) (valP : Long)
    (h : (execute sim (i.fetched valP)).1 ≠ .aok) :
    (execute sim (i.fetched valP)).2 = sim ∨ (execute sim (i.fetched valP)).1 = .adr ∧
      ∃ v, (execute sim (i.fetched valP)).2 = sim.setReg (some .rsp) v := by
  by_cases hpush : (i.fetched valP).icode = some .call ∨ (i.fetched valP).icode = some .pushq
  · obtain ⟨v, ⟨-, hadr⟩ | ⟨-, haok⟩⟩ := execute_push_cases sim hpush
    · rw [hadr]
      exact .inr ⟨rfl, _, rfl⟩
    · exact absurd haok h
  · rw [not_or] at hpush
    exact .inl (execute_precise sim hpush.1 hpush.2 h)

end Step

/-! ## The simulation -/

/-- A rule for flags that the simulator keeps to. -/
def FlagRule.Sound (rule : FlagRule) : Prop := ∀ op a b f, rule op a b = some f →
  f = ccFlags (computeCc (some op) a b (computeAlu (some op) a b))

/-- The simulator keeps to its own rule. -/
lemma ccRule_sound : ccRule.Sound := fun _ _ _ _ h => (Option.some.inj h).symm

/-- Where the simulator computes the documented flags, it keeps to the documented rule. -/
lemma y86Rule_sound : y86Rule.Sound := by
  intro op a b f h
  rw [y86Rule] at h
  split_ifs at h with hex
  obtain rfl := Option.some.inj h
  have halu : computeAlu (some op) a b = Ref.alu op a b := by
    cases op <;> rfl
  obtain ⟨hzf, hsf, hof⟩ := (ccCorrect_computeCc_iff a b op).2 hex
  rw [ccFlags, ← halu]
  refine Prod.ext ?_ (Prod.ext ?_ ?_)
  · rw [Bool.eq_iff_iff, hzf, decide_eq_true_iff]
  · rw [Bool.eq_iff_iff, hsf, decide_eq_true_iff]
  · rw [Bool.eq_iff_iff, hof]

/-- A simulator state shows the state of the text machine after a step with a status. The code
of the program is in memory, and after a fault the stack pointer may have moved. -/
structure Follows (prog : List SrcLine) (e : Stat) (s : Ref.State) (t : Y64Sim) : Prop where
  code : CodeIn prog s
  pc : t.pc = s.pc
  mem : t.m.data = s.mem
  len : t.m.len = s.len
  flags : ccFlags t.cc = (s.zf, s.sf, s.of)
  reg : ∀ r, e ≠ .adr ∨ r ≠ .rsp → getRegVal t.r (some r) = s.reg r

/-- While the program runs, the state that is shown is the whole state. -/
lemma Follows.abs_eq {s : Ref.State} {t : Y64Sim} (h : Follows prog .aok s t) : abs t = s := by
  obtain ⟨pc, reg, mem, len, zf, sf, of⟩ := s
  obtain ⟨-, rfl, rfl, rfl, hflags, hregs⟩ := h
  obtain ⟨rfl, rfl, rfl⟩ : getZf t.cc = zf ∧ getSf t.cc = sf ∧ getOf t.cc = of := by
    simpa [ccFlags] using hflags
  have hreg : (fun r => getRegVal t.r (some r)) = reg := by
    funext r
    exact hregs r (.inl (by decide))
  rw [abs, hreg]

/-- **One step.** The simulator takes the steps of the text machine.

**Proof sketch.** The code of the instruction in the text is at the program counter, so it is
what `nexti` fetches, and the `switch` runs the reference stages. If they succeed, the new state
is the reference's, the flags are those of the rule, and the code is still there. If not, the
machine is left alone but for the stack pointer. -/
theorem forward_textStep (hrule : rule.Sound) :
    Simulation.Forward .aok (textStep rule prog) nexti (Follows prog) := by
  intro s t e s' hR hstep
  obtain rfl := hR.abs_eq
  obtain ⟨i, hi, hstep⟩ := Option.bind_eq_some_iff.1 hstep
  split_ifs at hstep with hok
  obtain ⟨f, hf, hres⟩ := Option.map_eq_some_iff.1 hstep
  have hmem : ((abs t).pc.toNat, i) ∈ instrs 0 prog := by
    obtain ⟨l₁, l₂, hl, -⟩ := List.lookup_eq_some_iff.1 hi
    rw [hl]
    exact List.mem_append_right _ List.mem_cons_self
  obtain ⟨hin, hslice⟩ := hR.code _ hmem
  have hsize : (i.resolve (symbols prog)).encode.length = i.size := size_resolve i _
  set j := i.resolve (symbols prog) with hj
  set valP := (abs t).pc + BitVec.ofNat 64 i.size with hvalP
  have hnext : nexti t = execute t (j.fetched valP) := by
    have hfetch := fetch_encode t (i := j) (by rw [hsize]; exact hslice) (by rw [hsize]; exact hin)
    rw [nexti, hfetch, hvalP, ← hsize]
    rfl
  obtain ⟨hstat, hsame⟩ := execute_fetched t j valP fun a ha => (hok a ha).noWrap
  rw [hnext]
  by_cases haok : (Ref.exec (abs t) j valP).1 = .aok
  · rw [if_pos haok] at hres
    obtain ⟨rfl, rfl⟩ := Prod.mk.inj hres
    have hvis := hsame (hstat.trans haok)
    have hcode := hR.code.exec hok haok
    have hflags : ccFlags (execute t (j.fetched valP)).2.cc = f := by
      rw [execute_cc]
      cases hi : j with
      | opq op rA rB =>
        rw [hi] at hf
        exact (hrule op _ _ f hf).symm
      | halt | nop | cmov | irmovq | rmmovq | mrmovq | jmp | call | ret | pushq | popq =>
        rw [hi] at hf
        exact Option.some.inj hf
    exact ⟨hstat.trans haok,
      ⟨hcode, hvis.pc, hvis.mem, hvis.len, hflags, fun r _ => congrFun hvis.reg r⟩⟩
  · rw [if_neg haok] at hres
    obtain ⟨rfl, rfl⟩ := Prod.mk.inj hres
    refine ⟨hstat, ?_⟩
    rcases execute_stop t j valP (by rw [hstat]; exact haok) with heq | ⟨hadr, v, heq⟩
    · rw [heq]
      exact ⟨hR.code, rfl, rfl, rfl, rfl, fun _ _ => rfl⟩
    · rw [heq]
      refine ⟨hR.code, rfl, rfl, rfl, rfl, fun r hr => ?_⟩
      have hne : r ≠ .rsp := hr.resolve_left (not_not.2 (hstat.symm.trans hadr))
      exact (getRegVal_setRegVal t.r_len .rsp r v).trans (if_neg hne)

/-! ## Runs -/

/-- The loop of `main` is the loop on `nexti`. -/
lemma run_eq (k : ℕ) : ∀ (n : ℕ) (e : Stat) (t : Y64Sim),
    run k n e t = Simulation.run .aok nexti k n e t := by
  induction k with
  | zero => exact fun _ _ _ => rfl
  | succ k ih =>
    intro n e t
    simp only [run, Simulation.run, ih]

/-- The registers of a new simulator are zero. -/
lemma getRegVal_initMem (r : Reg) :
    getRegVal (initMem REG_SIZE (by decide)) (some r) = 0 := by
  cases r <;> decide

/-- A program that was loaded is at its start. -/
lemma follows_init (hwf : WellFormed prog) (hfit : (image prog).length < 8192) {m : MemT}
    (hm : loadBinfile (newY64sim MEM_SIZE (by decide)).m (image prog) = some m) :
    Follows prog .aok (textInit prog) { newY64sim MEM_SIZE (by decide) with m := m } := by
  have hdata : m.data = fun x => (image prog).getD x 0 := by
    unfold loadBinfile at hm
    split_ifs at hm
    cases hm
    funext x
    simp only
    split_ifs with hx
    · rfl
    · exact (List.getD_eq_default _ _ (not_lt.1 hx)).symm
  have hflags : ccFlags (packCc true false false) = (true, false, false) := by decide
  refine ⟨fun p hp => ?_, rfl, hdata, loadBinfile_len hm, hflags, fun r _ => ?_⟩
  · obtain ⟨hle, hcode⟩ := code_image hwf p hp
    have hlen : (p.2.resolve (symbols prog)).encode.length = p.2.size := size_resolve p.2 _
    refine ⟨hle.trans hfit.le, List.ext_getElem (by simp [hlen]) fun k hk hk' => ?_⟩
    rw [length_slice] at hk
    have hk'' := hcode k hk
    rw [List.getD_eq_getElem _ _ hk'] at hk''
    simp only [slice, List.getElem_map, List.getElem_range]
    exact hk''
  · exact getRegVal_initMem r

/-- The flags, and the differences from the state after loading, that a report of the text
machine lists. When the run has stopped with `ADR`, the line of `%rsp` may be different: `pushq`
and `call` move the stack pointer before they find the address to be invalid. -/
structure Shows (prog : List SrcLine) (rep : Report) (s : Ref.State) : Prop where
  pc : rep.pc = s.pc
  flags : ccFlags rep.cc = (s.zf, s.sf, s.of)
  regs : rep.stat ≠ .adr → rep.regs = (Y64.regTable.filter fun e => s.reg e.2 ≠ 0).map fun e =>
    (some e.1, 0, s.reg e.2)
  otherRegs : rep.regs.filter (·.1 ≠ some "%rsp") =
    (Y64.regTable.filter fun e => e.2 ≠ .rsp ∧ s.reg e.2 ≠ 0).map fun e => (some e.1, 0, s.reg e.2)
  mem : rep.mem = ((List.range (MEM_SIZE / 8)).filter fun i =>
      load s.mem (8 * i) 8 ≠ load (textInit prog).mem (8 * i) 8).map fun i =>
    (8 * i, BitVec.ofNat 64 (load (textInit prog).mem (8 * i) 8),
      BitVec.ofNat 64 (load s.mem (8 * i) 8))

/-- The name of `%rsp` is that of the stack pointer. -/
lemma regTable_rsp : ∀ e ∈ Y64.regTable, e.1 = "%rsp" ↔ e.2 = .rsp := by decide

/-- The lines of the other registers depend on the other registers only. -/
lemma filter_regs {reg reg' : Reg → Long} (h : ∀ r, r ≠ .rsp → reg r = reg' r) :
    ((Y64.regTable.filter fun e => reg e.2 ≠ 0).map fun e => (some e.1, (0 : Long), reg e.2)).filter
        (·.1 ≠ some "%rsp") =
      (Y64.regTable.filter fun e => e.2 ≠ .rsp ∧ reg' e.2 ≠ 0).map fun e =>
        (some e.1, 0, reg' e.2) := by
  rw [List.filter_map, List.filter_filter]
  have hfilter : (Y64.regTable.filter fun e =>
      ((fun x : Option String × Long × Long => decide (x.1 ≠ some "%rsp")) ∘
        fun e : String × Reg => (some e.1, (0 : Long), reg e.2)) e && decide (reg e.2 ≠ 0)) =
      Y64.regTable.filter fun e => e.2 ≠ .rsp ∧ reg' e.2 ≠ 0 := by
    refine List.filter_congr fun e he => ?_
    have hname := regTable_rsp e he
    by_cases hrsp : e.2 = .rsp
    · simp [hrsp, hname.2 hrsp]
    · simp [hrsp, mt hname.1 hrsp, h e.2 hrsp]
  rw [hfilter]
  refine List.map_congr_left fun e he => ?_
  obtain ⟨-, hkept⟩ := List.mem_filter.1 he
  rw [h e.2 (of_decide_eq_true hkept).1]

/-- A program that is assembled, loaded and run shows what the text machine does, under every
rule for flags that the simulator keeps to. -/
lemma shows_of_textRun {env : Env} {input : Chars} (henv : env.Cleared)
    (hprog : IsProgram LetterName prog input) (hwf : WellFormed prog)
    (hfit : (image prog).length < 8192) (hrule : rule.Sound) {maxSteps : ℤ} {n : ℕ} {e : Stat}
    {s : Ref.State} (hrun : textRun rule prog maxSteps.toNat = some (n, e, s)) :
    ∃ bytes rep, yas env input = some bytes ∧ simMain bytes maxSteps = some rep ∧
      rep.step = n ∧ rep.stat = e ∧ Shows prog rep s := by
  obtain ⟨st, lines, hasm, hrel, hbin⟩ := assemble_eq_image henv hprog hwf
  have hlen : (newY64sim MEM_SIZE (by decide)).m.len = 8192 := by decide
  obtain ⟨m, hm⟩ : ∃ m, loadBinfile (newY64sim MEM_SIZE (by decide)).m (image prog) = some m := by
    rw [loadBinfile, if_pos (by rw [hlen]; exact hfit)]
    exact ⟨_, rfl⟩
  obtain ⟨rep, sim, sim', hmain, rfl, hsim, hpc, hcc, hregs, hmems⟩ := simMain_exact hm maxSteps
  have hinit := follows_init hwf hfit hm
  obtain ⟨t, ht, hR⟩ := (forward_textStep hrule).run _ 0 .aok _ _ hinit _ hrun
  rw [run_eq, ht] at hsim
  obtain ⟨rfl, hsim⟩ := Prod.mk.inj hsim
  obtain ⟨hstat, rfl⟩ := Prod.mk.inj hsim
  refine ⟨image prog, rep, ?_, hmain, rfl, hstat.symm, hpc.trans hR.pc, by rw [hcc]; exact hR.flags,
    fun hadr => ?_, ?_, ?_⟩
  · rw [yas, hasm]
    simp only [hrel, Option.bind_some, hbin]
  · have hold (r : Reg) := hinit.reg r (.inl (by decide))
    have hnew (r : Reg) := hR.reg r (.inl (by rw [hstat]; exact hadr))
    simp only [hold, hnew] at hregs
    exact hregs
  · have hold (r : Reg) := hinit.reg r (.inl (by decide))
    simp only [hold] at hregs
    rw [hregs]
    exact filter_regs fun r hr => hR.reg r (.inr hr)
  · have hold : m.data = (textInit prog).mem := hinit.mem
    have hnew := hR.mem
    simp only [hold, hnew] at hmems
    exact hmems

/-- **Assembled programs run as their text.** Every program of the documented form whose image
fits the simulator's memory is assembled, when the buffers for names are cleared, loaded and
simulated, for every step limit, to the report of the machine that executes its text with the
flags of `compute_cc`, unless the program leaves its text, overwrites its instructions or
overflows an address check before. -/
theorem simMain_yas {env : Env} {input : Chars} (henv : env.Cleared)
    (hprog : IsProgram LetterName prog input) (hwf : WellFormed prog)
    (hfit : (image prog).length < 8192) {maxSteps : ℤ} {n : ℕ} {e : Stat} {s : Ref.State}
    (hrun : textRun ccRule prog maxSteps.toNat = some (n, e, s)) :
    ∃ bytes rep, yas env input = some bytes ∧ simMain bytes maxSteps = some rep ∧
      rep.step = n ∧ rep.stat = e ∧ Shows prog rep s :=
  shows_of_textRun henv hprog hwf hfit ccRule_sound hrun

/-- A program that tests a register and jumps. -/
def testSource : Chars := ['x', 'o', 'r', 'q', ' ', '%', 'r', 'a', 'x', ',', '%', 'r', 'a', 'x',
  '\n', 'j', 'e', ' ', 'L', '\n', 'n', 'o', 'p', '\n', 'L', ':', 'h', 'a', 'l', 't']

/-- Its meaning. -/
def testProgram : List SrcLine :=
  [⟨none, some (.instr (.opq .xor .rax .rax))⟩, ⟨none, some (.instr (.jmp .e ['L']))⟩,
    ⟨none, some (.instr .nop)⟩, ⟨some ['L'], some (.instr .halt)⟩]

/-- A line without blanks around it and without a comment. -/
lemma plainLine {P : NameClass} (l : SrcLine) {s : Chars} (lab body : Chars)
    (hlab : LabelText P l.label lab) (hbody : BodyText P l.stmt body) (hs : s = lab ++ body)
    (hlen : s.length ≤ 510) :
    (∃ t crs, l.Text P t ∧ All (· == '\r') crs ∧ s = t ++ crs) ∧ s.length ≤ 510 := by
  have hcore : l.Core P s := ⟨[], lab, [], body, [], ⟨all_nil, all_nil, all_nil⟩, hlab, hbody, by
    simp [hs]⟩
  exact ⟨⟨s, [], ⟨s, [], hcore, .inl rfl, by simp⟩, all_nil, by simp⟩, hlen⟩

/-- It is written so. -/
lemma isProgram_test : IsProgram LetterName testProgram testSource := by
  have hL : LetterName ['L'] := ⟨⟨by decide, by decide⟩, by decide⟩
  have hcomma : Comma [','] := ⟨[], [], all_nil, all_nil, rfl⟩
  refine .cons ?_ (.cons ?_ (.cons ?_ (.cons ?_ .nil)))
  · refine plainLine _ [] ['x', 'o', 'r', 'q', ' ', '%', 'r', 'a', 'x', ',', '%', 'r', 'a', 'x'] rfl
      ⟨[' '], _, by decide, ⟨[','], hcomma, rfl⟩, by decide, rfl⟩ rfl (by decide)
  · exact plainLine _ [] ['j', 'e', ' ', 'L'] rfl
      ⟨[' '], _, by decide, ⟨hL, rfl⟩, by decide, rfl⟩ rfl (by decide)
  · exact plainLine _ [] ['n', 'o', 'p'] rfl
      ⟨[], _, all_nil, rfl, fun _ => rfl, rfl⟩ rfl (by decide)
  · exact plainLine _ ['L', ':'] ['h', 'a', 'l', 't'] ⟨hL, rfl⟩
      ⟨[], _, all_nil, rfl, fun _ => rfl, rfl⟩ rfl (by decide)

/-- It is well formed. -/
lemma wellFormed_test : WellFormed testProgram := by
  have hsym : ∀ l ∈ testProgram, ∀ n ∈ l.symbol.toList, n ∈ labelNames testProgram := by decide
  have hinstr : ∀ l ∈ testProgram, ∃ i, l.stmt = some (.instr i) := by
    simp [testProgram]
  refine ⟨by decide, fun l hl n hn => hsym l hl n (Option.mem_toList.2 hn), ?_, ?_⟩
  · intro l hl n hn
    obtain ⟨i, hi⟩ := hinstr l hl
    cases hi.symm.trans hn
  · simp [testProgram, Forward, SrcLine.next, Stmt.size, Stmt.code, SrcInstr.resolve,
      Ref.Instr.encode, Ref.Instr.regids, Ref.Instr.valC, Ref.regByte, Ref.valBytes]

/-- The program is assembled and run to its `halt`, which it jumps to because `xorq` clears the
register. -/
theorem simMain_yas_test : ∃ bytes rep s, yas .zero testSource = some bytes ∧
    simMain bytes 10 = some rep ∧ rep.step = 3 ∧ rep.stat = .hlt ∧ rep.pc = 12 ∧
    Shows testProgram rep s := by
  have hrun : (textRun ccRule testProgram 10).map (fun r => (r.1, r.2.1, r.2.2.pc)) =
      some (3, .hlt, 12) := by decide
  obtain ⟨⟨n, e, s⟩, hrun, hr⟩ := Option.map_eq_some_iff.1 hrun
  obtain ⟨rfl, rfl, hpc⟩ : n = 3 ∧ e = .hlt ∧ s.pc = 12 := by simpa using hr
  obtain ⟨bytes, rep, hyas, hsim, hstep, hstat, hshows⟩ := simMain_yas cleared_zero isProgram_test
    wellFormed_test (by decide) (show textRun ccRule testProgram (10 : ℤ).toNat = _ from hrun)
  exact ⟨bytes, rep, s, hyas, hsim, hstep, hstat, hshows.pc.trans hpc, hshows⟩

/-- **Assembled programs have their documented meaning.** Every program of the documented form
whose image fits the simulator's memory is assembled, when the buffers for names are cleared,
loaded and simulated, for every step limit, to the report of the machine that executes its text
with the flags of Y86-64, as long as it applies ALU operations only to operands on which
`compute_cc` is right, and under the same conditions. -/
theorem simMain_yas_y86 {env : Env} {input : Chars} (henv : env.Cleared)
    (hprog : IsProgram LetterName prog input) (hwf : WellFormed prog)
    (hfit : (image prog).length < 8192) {maxSteps : ℤ} {n : ℕ} {e : Stat} {s : Ref.State}
    (hrun : textRun y86Rule prog maxSteps.toNat = some (n, e, s)) :
    ∃ bytes rep, yas env input = some bytes ∧ simMain bytes maxSteps = some rep ∧
      rep.step = n ∧ rep.stat = e ∧ Shows prog rep s :=
  shows_of_textRun henv hprog hwf hfit y86Rule_sound hrun

/-- The same program under the documented flags. -/
theorem simMain_yas_y86_test : ∃ bytes rep s, yas .zero testSource = some bytes ∧
    simMain bytes 10 = some rep ∧ rep.step = 3 ∧ rep.stat = .hlt ∧ rep.pc = 12 ∧
    Shows testProgram rep s := by
  have hrun : (textRun y86Rule testProgram 10).map (fun r => (r.1, r.2.1, r.2.2.pc)) =
      some (3, .hlt, 12) := by decide
  obtain ⟨⟨n, e, s⟩, hrun, hr⟩ := Option.map_eq_some_iff.1 hrun
  obtain ⟨rfl, rfl, hpc⟩ : n = 3 ∧ e = .hlt ∧ s.pc = 12 := by simpa using hr
  obtain ⟨bytes, rep, hyas, hsim, hstep, hstat, hshows⟩ := simMain_yas_y86 cleared_zero
    isProgram_test wellFormed_test (by decide)
    (show textRun y86Rule testProgram (10 : ℤ).toNat = _ from hrun)
  exact ⟨bytes, rep, s, hyas, hsim, hstep, hstat, hshows.pc.trans hpc, hshows⟩

end Y64.Asm
