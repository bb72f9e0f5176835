import SE101.Y64.Run

set_option relaxedAutoImplicit false
set_option autoImplicit false

/-!
# The final report

The loops of `diff_reg` and `diff_mem` step through the buffers by eight bytes. The register file
has sixteen such words; the last one belongs to no register and is never written.

## Main results

* `Y64.diffLoop_lines` — the words that the loop lists.
* `Y64.run_padding` — what a run leaves alone.
* `Y64.simMain_exact` — the report lists exactly the registers and words that have changed.
-/

namespace Y64

open LittleEndian

/-- The word at a position, as the loops read it. -/
def wordAt (m : MemT) (pos : ℕ) : Long := (getLongVal m (BitVec.ofNat 64 pos)).getD 0

/-- **The lines of the loop.** With an `outfile` it goes through all positions. -/
lemma diffLoop_lines {α : Type} (line : ℕ → Long → Long → α) (oldm newm : MemT) (n pos : ℕ)
    (diff : Bool) : (diffLoop line oldm newm true (pos + 8 * n) pos diff).2 =
      ((List.range' pos n 8).filter fun p => wordAt newm p ≠ wordAt oldm p).map fun p =>
        line p (wordAt oldm p) (wordAt newm p) := by
  induction n generalizing pos diff with
  | zero =>
    rw [diffLoop, if_neg (by simp)]
    rfl
  | succ n ih =>
    have hend : pos + 8 * (n + 1) = pos + 8 + 8 * n := by omega
    have hword (m : MemT) : (getLongVal m (BitVec.ofNat 64 pos)).getD 0 = wordAt m pos := rfl
    rw [diffLoop, if_pos ⟨by simp, by omega⟩, hend, List.range'_succ]
    simp only [hword]
    split_ifs with hne
    · rw [ih, List.filter_cons_of_pos (by simpa using hne), List.map_cons]
    · rw [ih, List.filter_cons_of_neg (by simpa using hne)]

/-- A word in memory is little-endian. -/
lemma wordAt_eq {m : MemT} {pos : ℕ} (h : pos + 8 ≤ m.len) :
    wordAt m pos = BitVec.ofNat 64 (load m.data pos 8) := by
  have hlen := m.len_lt
  have hpos : (BitVec.ofNat 64 pos).toNat = pos := by
    rw [BitVec.toNat_ofNat, Nat.mod_eq_of_lt (by omega)]
  have hnw : NoWrap (BitVec.ofNat 64 pos) := by
    unfold NoWrap
    rw [BitVec.toInt_eq_toNat_cond, hpos]
    split_ifs <;> omega
  rw [wordAt, getLongVal_eq m hnw, hpos, if_pos h, Option.getD_some]

/-- The word of a register. -/
lemma wordAt_reg (r : MemT) (id : Reg) : wordAt r (id.code * 8) = getRegVal r (some id) := rfl

/-- A copy has the same words. -/
lemma wordAt_dupMem {m : MemT} {h : roundBlk m.len < 2 ^ 31} (hlen : roundBlk m.len = m.len)
    {pos : ℕ} (hpos : pos + 8 ≤ m.len) : wordAt (dupMem m h) pos = wordAt m pos := by
  have hle : pos + 8 ≤ (dupMem m h).len := hpos.trans_eq hlen.symm
  rw [wordAt_eq hle, wordAt_eq hpos]
  refine congrArg _ (load_congr fun i hi => ?_)
  have hcopy : copy (initMem m.len h).data 0 m.data 0 m.len (0 + (pos + i)) =
      m.data (0 + (pos + i)) := copy_apply_add (by omega)
  rwa [Nat.zero_add] at hcopy

/-- **What a run leaves alone**: the size of memory, and the bytes behind the last register. -/
lemma run_padding (k step : ℕ) (e : Stat) (sim : Y64Sim) :
    (run k step e sim).2.2.m.len = sim.m.len ∧
    ∀ x, REG_SIZE ≤ x → (run k step e sim).2.2.r.data x = sim.r.data x := by
  induction k generalizing step e sim with
  | zero => exact ⟨rfl, fun _ _ => rfl⟩
  | succ k ih =>
    rw [run]
    split_ifs
    · obtain ⟨hm, hr⟩ := ih (step + 1) (nexti sim).1 (nexti sim).2
      have hstep : ∀ x, REG_SIZE ≤ x → (nexti sim).2.r.data x = sim.r.data x := by
        refine nexti_r (P := fun r => ∀ x, REG_SIZE ≤ x → r.data x = sim.r.data x) ?_ fun _ _ => rfl
        intro r id val hlen h x hx
        cases id with
        | none => exact h x hx
        | some id =>
          have hcode := id.code_lt
          have hsize : REG_SIZE = 120 := rfl
          rw [setRegVal_some hlen, ← h x hx]
          exact store_apply_of_notMem (by omega)
      exact ⟨hm.trans nexti_m_len, fun x hx => (hr x hx).trans (hstep x hx)⟩
    · exact ⟨rfl, fun _ _ => rfl⟩

/-- The positions of the register file are those of the registers and of the padding. -/
lemma range'_regFile : List.range' 0 16 8 = regTable.map (fun e => e.2.code * 8) ++ [120] := rfl

/-- Each register is in its place in the table. -/
lemma regTable_place : ∀ e ∈ regTable, regTable[e.2.code * 8 / 8]? = some e := by decide

/-- `diff_reg` lists the registers that differ. -/
lemma diffReg_lines {oldr newr : MemT} (hold : oldr.len = 128) (hnew : newr.len = 128)
    (hpad : wordAt newr 120 = wordAt oldr 120) : (diffReg oldr newr true).2 =
      (regTable.filter fun e => getRegVal newr (some e.2) ≠ getRegVal oldr (some e.2)).map fun e =>
        (some e.1, getRegVal oldr (some e.2), getRegVal newr (some e.2)) := by
  have hlast : ([120] : List ℕ).filter (fun p => wordAt newr p ≠ wordAt oldr p) = [] := by
    rw [List.filter_cons_of_neg (by simpa using hpad), List.filter_nil]
  have hloop := diffLoop_lines (fun pos ov nv => ((regTable[pos / 8]?).map Prod.fst, ov, nv))
    oldr newr 16 0 false
  rw [range'_regFile, List.filter_append, hlast, List.append_nil, List.filter_map,
    List.map_map] at hloop
  rw [diffReg, hold, hnew, if_neg (by decide)]
  refine hloop.trans (List.map_congr_left fun e he => ?_)
  have hplace := regTable_place e (List.mem_of_mem_filter he)
  simp only [Function.comp_apply, hplace, wordAt_reg, Option.map_some]

/-- `diff_mem` lists the words that differ. -/
lemma diffMem_lines {oldm newm : MemT} {n : ℕ} (hold : oldm.len = 8 * n) (hnew : newm.len = 8 * n) :
    (diffMem oldm newm true).2 =
      ((List.range n).filter fun i => wordAt newm (8 * i) ≠ wordAt oldm (8 * i)).map fun i =>
        (8 * i, wordAt oldm (8 * i), wordAt newm (8 * i)) := by
  have hloop := diffLoop_lines (fun pos ov nv => (pos, ov, nv)) oldm newm n 0 false
  have hrange : List.range' 0 n 8 = (List.range n).map (8 * ·) := by
    apply List.ext_getElem (by simp)
    intro i h₁ h₂
    simp
  rw [hrange, List.filter_map, List.map_map, Nat.zero_add] at hloop
  rw [diffMem, hold, hnew, if_neg (lt_irrefl _)]
  exact hloop

/-- Words are equal if their bytes are. -/
lemma wordAt_eq_iff {m m' : MemT} {pos : ℕ} (h : pos + 8 ≤ m.len) (h' : pos + 8 ≤ m'.len) :
    wordAt m' pos = wordAt m pos ↔ load m'.data pos 8 = load m.data pos 8 := by
  rw [wordAt_eq h, wordAt_eq h']
  refine ⟨fun heq => ?_, congrArg _⟩
  have hlt := load_lt m.data pos 8
  have hlt' := load_lt m'.data pos 8
  have hnat := congrArg BitVec.toNat heq
  rwa [BitVec.toNat_ofNat, BitVec.toNat_ofNat, Nat.mod_eq_of_lt (by omega),
    Nat.mod_eq_of_lt (by omega)] at hnat

/-- **The report is exact.** For every binary file that is loaded and every step limit, `main`
lists the registers that have changed, each by its name, and the aligned words of memory that have
changed, each with its old and its new value. -/
theorem simMain_exact {f : List Byte} {m : MemT}
    (h : loadBinfile (newY64sim MEM_SIZE (by decide)).m f = some m) (maxSteps : ℤ) :
    ∃ (rep : Report) (sim sim' : Y64Sim), simMain f maxSteps = some rep ∧
      sim = { newY64sim MEM_SIZE (by decide) with m := m } ∧
      run maxSteps.toNat 0 .aok sim = (rep.step, rep.stat, sim') ∧
      rep.pc = sim'.pc ∧ rep.cc = sim'.cc ∧
      rep.regs = (regTable.filter fun e =>
        getRegVal sim'.r (some e.2) ≠ getRegVal sim.r (some e.2)).map (fun e =>
          (some e.1, getRegVal sim.r (some e.2), getRegVal sim'.r (some e.2))) ∧
      rep.mem = ((List.range (MEM_SIZE / 8)).filter fun i =>
        load sim'.m.data (8 * i) 8 ≠ load sim.m.data (8 * i) 8).map (fun i =>
          (8 * i, BitVec.ofNat 64 (load sim.m.data (8 * i) 8),
            BitVec.ofNat 64 (load sim'.m.data (8 * i) 8))) := by
  obtain ⟨sim, hsim⟩ : ∃ sim : Y64Sim, sim = { newY64sim MEM_SIZE (by decide) with m := m } :=
    ⟨_, rfl⟩
  obtain ⟨⟨step, e, sim'⟩, hrun⟩ : ∃ r, run maxSteps.toNat 0 .aok sim = r := ⟨_, rfl⟩
  have hmain : simMain f maxSteps = some ⟨step, sim'.pc, e, sim'.cc,
      (diffReg (dupMem sim.r (by rw [sim.r_len]; decide)) sim'.r true).2,
      (diffMem (dupMem sim.m (by rw [hsim, loadBinfile_len h]; decide)) sim'.m true).2⟩ := by
    subst hsim
    unfold simMain
    split
    · next hnone => cases hnone.symm.trans h
    · next m' hm' =>
      obtain rfl : m' = m := Option.some.inj (hm'.symm.trans h)
      simp only [hrun]
  obtain ⟨hlen, hpad⟩ := run_padding maxSteps.toNat 0 .aok sim
  rw [hrun] at hlen hpad
  have hm : sim.m.len = 8192 := by
    rw [hsim]
    exact loadBinfile_len h
  refine ⟨_, sim, sim', hmain, hsim, hrun, rfl, rfl, ?_, ?_⟩
  · have hsize : roundBlk sim.r.len = sim.r.len := by
      rw [sim.r_len]
      rfl
    have hcopy {pos : ℕ} (hpos : pos + 8 ≤ 128) :
        wordAt (dupMem sim.r (by rw [sim.r_len]; decide)) pos = wordAt sim.r pos :=
      wordAt_dupMem hsize (by rw [sim.r_len]; exact hpos)
    have hwords (e : String × Reg) : getRegVal (dupMem sim.r (by rw [sim.r_len]; decide))
        (some e.2) = getRegVal sim.r (some e.2) := by
      have hcode := e.2.code_lt
      rw [← wordAt_reg, hcopy (by omega), wordAt_reg]
    have hpadding : wordAt sim'.r 120 = wordAt (dupMem sim.r (by rw [sim.r_len]; decide)) 120 := by
      rw [hcopy (by decide), wordAt_eq_iff (by rw [sim.r_len]) (by rw [sim'.r_len])]
      exact load_congr fun i _ => hpad _ (Nat.le_add_right 120 i)
    dsimp only
    rw [diffReg_lines (hsize.trans sim.r_len) sim'.r_len hpadding]
    simp only [hwords]
  · have hsize : roundBlk sim.m.len = sim.m.len := by
      rw [hm]
      rfl
    have hold : (dupMem sim.m (by rw [hm]; decide)).len = 8 * (MEM_SIZE / 8) := hsize.trans hm
    have hin {i : ℕ} (hi : i ∈ List.range (MEM_SIZE / 8)) : 8 * i + 8 ≤ 8192 := by
      have hi' : i < 1024 := List.mem_range.1 hi
      omega
    have hcopy {i : ℕ} (hi : i ∈ List.range (MEM_SIZE / 8)) :
        wordAt (dupMem sim.m (by rw [hm]; decide)) (8 * i) = wordAt sim.m (8 * i) :=
      wordAt_dupMem hsize (by rw [hm]; exact hin hi)
    have hnew {i : ℕ} (hi : i ∈ List.range (MEM_SIZE / 8)) : 8 * i + 8 ≤ sim'.m.len := by
      rw [hlen, hm]
      exact hin hi
    dsimp only
    rw [diffMem_lines hold (hlen.trans hm)]
    have hfilter : ((List.range (MEM_SIZE / 8)).filter fun i => wordAt sim'.m (8 * i) ≠
          wordAt (dupMem sim.m (by rw [hm]; decide)) (8 * i)) =
        (List.range (MEM_SIZE / 8)).filter fun i =>
          load sim'.m.data (8 * i) 8 ≠ load sim.m.data (8 * i) 8 := by
      refine List.filter_congr fun i hi => ?_
      rw [hcopy hi, decide_eq_decide, not_iff_not]
      exact wordAt_eq_iff (by rw [hm]; exact hin hi) (hnew hi)
    rw [hfilter]
    refine List.map_congr_left fun i hi => ?_
    have hi' := List.mem_of_mem_filter hi
    rw [hcopy hi', wordAt_eq (by rw [hm]; exact hin hi'), wordAt_eq (hnew hi')]

/-- A binary file with the instruction `irmovq $1, %rax`. -/
def smallFile : List Byte := [0x30, 0xF0, 1, 0, 0, 0, 0, 0, 0, 0]

/-- Only one register has this name. -/
lemma regTable_name : ∀ e ∈ regTable, e.1 = "%rax" → e.2 = .rax := by decide

/-- The file is loaded, and its run changes one register. -/
theorem simMain_exact_small : ∃ (rep : Report) (sim' : Y64Sim), simMain smallFile 10 = some rep ∧
    rep.regs = [(some "%rax", 0, 1)] ∧ getRegVal sim'.r (some .rax) = 1 ∧ rep.pc = sim'.pc := by
  obtain ⟨rep, sim, sim', hmain, -, -, hpc, -, hregs, -⟩ :=
    simMain_exact (f := smallFile) rfl 10
  have hrax : rep.regs = [(some "%rax", 0, 1)] := by
    have hsome : (simMain smallFile 10).map Report.regs = some [(some "%rax", 0, 1)] := by
      decide +kernel
    rw [hmain] at hsome
    exact Option.some.inj hsome
  refine ⟨rep, sim', hmain, hrax, ?_, hpc⟩
  have hmem : (some "%rax", 0, 1) ∈ rep.regs := hrax ▸ List.mem_singleton_self _
  rw [hregs] at hmem
  obtain ⟨e, he, heq⟩ := List.mem_map.1 hmem
  obtain ⟨hname, hvals⟩ := Prod.mk.inj heq
  rw [← regTable_name e (List.mem_of_mem_filter he) (Option.some.inj hname)]
  exact (Prod.mk.inj hvals).2

end Y64
