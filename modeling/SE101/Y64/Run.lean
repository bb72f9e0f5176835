import SE101.Lib.Reachability
import SE101.Y64.SimMemory

set_option relaxedAutoImplicit false
set_option autoImplicit false

/-!
# Runs of the simulator

`main` of `y64sim.c`: a binary file is loaded into an empty machine, instructions are executed up
to the step limit or the first status other than `AOK`, and the changes to registers and memory
are listed.

## Main definitions

* `Y64.initMem`, `Y64.dupMem`, `Y64.newY64sim`, `Y64.loadBinfile` — the machine before the run.
* `Y64.run` — the loop of `main`.
* `Y64.diffReg`, `Y64.diffMem` — the changes.
* `Y64.simMain` — `main` from the binary file on.
* `Y64.Loaded`, `Y64.Reachable` — the states before and during a run.

## Main results

* `Y64.nexti_r`, `Y64.nexti_m` — what one step can do to the registers and to memory.
-/

namespace Y64

open LittleEndian

/-- `BLK_SIZE`. -/
def BLK_SIZE : ℕ := 32

/-- `MEM_SIZE`. -/
def MEM_SIZE : ℕ := 1 <<< 13

/-- `REG_SIZE`. -/
def REG_SIZE : ℕ := 15 * 8

/-- `((len+BLK_SIZE-1)/BLK_SIZE)*BLK_SIZE`. -/
def roundBlk (len : ℕ) : ℕ := (len + BLK_SIZE - 1) / BLK_SIZE * BLK_SIZE

/-- The memory of a new simulator has a size that fits an `int`. -/
lemma roundBlk_MEM_SIZE : roundBlk MEM_SIZE < 2 ^ 31 := by decide

/-- `init_mem`. -/
def initMem (len : ℕ) (h : roundBlk len < 2 ^ 31) : MemT := ⟨roundBlk len, fun _ => 0, h⟩

/-- `dup_mem`. -/
def dupMem (oldm : MemT) (h : roundBlk oldm.len < 2 ^ 31) : MemT :=
  { initMem oldm.len h with data := copy (initMem oldm.len h).data 0 oldm.data 0 oldm.len }

/-- `new_y64sim`. -/
def newY64sim (slen : ℕ) (h : roundBlk slen < 2 ^ 31) : Y64Sim where
  pc := 0
  r := initMem REG_SIZE (by decide)
  m := initMem slen h
  cc := packCc true false false
  r_len := rfl

/-- `load_binfile`. The file is read without error; its end is seen only if it is shorter than
memory. -/
def loadBinfile (m : MemT) (f : List Byte) : Option MemT :=
  if f.length < m.len then
    some { m with data := fun x => if x < f.length then f.getD x 0 else m.data x }
  else none

/-- The loop of `main`: the number of steps, the last status, and the machine. -/
def run : ℕ → ℕ → Stat → Y64Sim → ℕ × Stat × Y64Sim
  | 0, step, e, sim => (step, e, sim)
  | k + 1, step, e, sim =>
    if e = .aok then run k (step + 1) (nexti sim).1 (nexti sim).2 else (step, e, sim)

/-- `reg_table`. -/
def regTable : List (String × Reg) :=
  [("%rax", .rax), ("%rcx", .rcx), ("%rdx", .rdx), ("%rbx", .rbx), ("%rsp", .rsp), ("%rbp", .rbp),
    ("%rsi", .rsi), ("%rdi", .rdi), ("%r8", .r8), ("%r9", .r9), ("%r10", .r10), ("%r11", .r11),
    ("%r12", .r12), ("%r13", .r13), ("%r14", .r14)]

/-- The loop that `diff_mem` and `diff_reg` share, from `pos` on: whether there is a difference, and
the lines that are printed if there is an `outfile`. -/
def diffLoop {α : Type} (line : ℕ → Long → Long → α) (oldm newm : MemT) (outfile : Bool)
    (len pos : ℕ) (diff : Bool) : Bool × List α :=
  if (!diff || outfile) ∧ pos < len then
    let ov := (getLongVal oldm (BitVec.ofNat 64 pos)).getD 0
    let nv := (getLongVal newm (BitVec.ofNat 64 pos)).getD 0
    if nv ≠ ov then
      let r := diffLoop line oldm newm outfile len (pos + 8) true
      (r.1, if outfile then line pos ov nv :: r.2 else r.2)
    else diffLoop line oldm newm outfile len (pos + 8) diff
  else (diff, [])
  termination_by len - pos

/-- `diff_mem`: address, old and new value of each word. -/
def diffMem (oldm newm : MemT) (outfile : Bool) : Bool × List (ℕ × Long × Long) :=
  diffLoop (fun pos ov nv => (pos, ov, nv)) oldm newm outfile
    (if newm.len < oldm.len then newm.len else oldm.len) 0 false

/-- `diff_reg`: name, old and new value of each register. The name is `none` where
`reg_table[pos/8]` is outside of the table. -/
def diffReg (oldr newr : MemT) (outfile : Bool) : Bool × List (Option String × Long × Long) :=
  diffLoop (fun pos ov nv => ((regTable[pos / 8]?).map Prod.fst, ov, nv)) oldr newr outfile
    (if newr.len < oldr.len then newr.len else oldr.len) 0 false

/-- What `main` prints. -/
structure Report where
  step : ℕ
  pc : Long
  stat : Stat
  cc : CC
  /-- "Changes to registers". -/
  regs : List (Option String × Long × Long)
  /-- "Changes to memory". -/
  mem : List (ℕ × Long × Long)

/-- Loading a file keeps the size of memory. -/
lemma loadBinfile_len {m m' : MemT} {f : List Byte} (h : loadBinfile m f = some m') :
    m'.len = m.len := by
  unfold loadBinfile at h
  split_ifs at h
  cases h
  rfl

/-- `main` with a binary file and a step limit, if the file is loaded. -/
def simMain (f : List Byte) (maxSteps : ℤ) : Option Report :=
  match h : loadBinfile (newY64sim MEM_SIZE (by decide)).m f with
  | none => none
  | some m =>
    let sim := { newY64sim MEM_SIZE (by decide) with m := m }
    let saver := dupMem sim.r (by rw [sim.r_len]; decide)
    let savem := dupMem sim.m (by rw [loadBinfile_len h]; decide)
    let (step, e, sim) := run maxSteps.toNat 0 .aok sim
    some ⟨step, sim.pc, e, sim.cc, (diffReg saver sim.r true).2, (diffMem savem sim.m true).2⟩

/-- A machine into which a binary file has been loaded. -/
def Loaded (sim : Y64Sim) : Prop := ∃ f m,
  loadBinfile (newY64sim MEM_SIZE (by decide)).m f = some m ∧
  sim = { newY64sim MEM_SIZE (by decide) with m := m }

/-- A machine that is reached from one into which a file was loaded. -/
def Reachable : Y64Sim → Prop :=
  Reachability.Reachable Loaded fun sim sim' => nexti sim = (.aok, sim')

/-! ## One step -/

variable {sim : Y64Sim}

/-- A step changes the register file by writes to registers. -/
lemma nexti_r {P : MemT → Prop} (hset : ∀ r id val, r.len = 128 → P r → P (setRegVal r id val))
    (h : P sim.r) : P (nexti sim).2.r := by
  have h₁ (id : RegId) (val : Long) : P (sim.setReg id val).r := hset _ _ _ sim.r_len h
  unfold nexti
  split
  · exact h
  next f _ =>
  obtain ⟨icode, ifun, rega, regb, imm, nextPc⟩ := f
  cases icode with
  | none => exact h
  | some t =>
    cases t with
    | halt | nop | directive => exact h
    | irmovq => exact h₁ _ _
    | rrmovq =>
      dsimp only [execute]
      split
      · exact h
      · split_ifs
        · exact h₁ _ _
        · exact h
    | rmmovq | jmp =>
      dsimp only [execute]
      split <;> exact h
    | mrmovq | alu =>
      dsimp only [execute]
      split
      · exact h
      · exact h₁ _ _
    | ret =>
      dsimp only [execute]
      split
      · exact h
      · exact h₁ (some .rsp) _
    | call | pushq =>
      dsimp only [execute]
      split <;> exact h₁ (some .rsp) _
    | popq =>
      dsimp only [execute]
      split
      · exact h
      · exact hset _ _ _ (sim.setReg _ _).r_len (h₁ _ _)

/-- A step changes memory by a write of eight bytes. -/
lemma nexti_m {P : MemT → Prop} (hset : ∀ addr val m, setLongVal sim.m addr val = some m → P m)
    (h : P sim.m) : P (nexti sim).2.m := by
  unfold nexti
  split
  · exact h
  next f _ =>
  obtain ⟨icode, ifun, rega, regb, imm, nextPc⟩ := f
  cases icode with
  | none => exact h
  | some t =>
    cases t with
    | halt | nop | directive | irmovq => exact h
    | rrmovq =>
      dsimp only [execute]
      split
      · exact h
      · split_ifs <;> exact h
    | mrmovq | alu | ret | jmp | popq =>
      dsimp only [execute]
      split <;> exact h
    | rmmovq | call | pushq =>
      dsimp only [execute]
      split
      · exact h
      · next hm => exact hset _ _ _ hm

/-- A step keeps the size of memory. -/
lemma nexti_m_len : (nexti sim).2.m.len = sim.m.len := by
  refine nexti_m (P := fun m => m.len = sim.m.len) ?_ rfl
  intro addr val m hm
  rw [← setLongVal_getD_len sim.m addr val, hm]
  rfl

end Y64
