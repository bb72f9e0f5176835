import SE101.Y64.CondCodes

set_option relaxedAutoImplicit false
set_option autoImplicit false

/-!
# Comparing with `subq` and branching

A `subq rA, rB` followed by a conditional jump or move is how Y86-64 programs compare two
numbers. The conditions read the flags that `compute_cc` left, so its two errors show here:
the sign error turns a comparison around whenever bits 31 and 63 of the difference disagree,
except where the missing overflow flag makes up for it.

## Main definitions

* `Y64.Cond.Holds` — the signed comparison that a condition stands for.
* `Y64.SubqThenBranch` — a state that executes `subq` and then a conditional jump or move.
* `Y64.CmpExact` — the operands on which the comparison comes out right.

## Main results

* `Y64.condDoit_computeCc_sub_iff` — the conditions on the flags of a subtraction.
* `Y64.branch_after_subq_iff` — the branch behind a `subq` is taken as it should be exactly on
  `CmpExact`.
-/

namespace Y64

/-- The signed comparison of `b` with `a` that a condition stands for after `subq`. -/
def Cond.Holds (c : Cond) (a b : Long) : Prop :=
  match c with
  | .yes => True
  | .le => b.toInt ≤ a.toInt
  | .l => b.toInt < a.toInt
  | .e => b = a
  | .ne => b ≠ a
  | .ge => b.toInt ≥ a.toInt
  | .g => b.toInt > a.toInt

instance (c : Cond) (a b : Long) : Decidable (c.Holds a b) := by
  cases c <;> unfold Cond.Holds <;> infer_instance

/-- Conditions and operands on which a comparison comes out right: the equality tests, and the
operands whose difference has equal bits 31 and 63, or is `0 - minLong`. -/
def CmpExact (c : Cond) (a b : Long) : Prop :=
  c = .e ∨ c = .ne ∨ (b - a).getLsbD 31 = (b - a).getLsbD 63 ∨ (a = minLong ∧ b = 0)

/-! ## The flags of a subtraction -/

variable (a b : Long)

/-- The difference is zero exactly for equal operands. -/
lemma sub_eq_zero_iff_eq : b - a = 0 ↔ b = a := by
  constructor
  · intro h
    have h' : b - a + a = 0 + a := congrArg (· + a) h
    rw [BitVec.sub_add_cancel] at h'
    exact h'.trans (BitVec.zero_add a)
  · rintro rfl
    exact BitVec.sub_self b

/-- The flags that `subq` leaves, as one comparison bit: `SF ^ OF` is signed comparison exactly
when bits 31 and 63 agree or the operands are `0` and `minLong`.

**Proof sketch.** `SF` is bit 31 of the difference, and `OF` is signed overflow except for
`0 - minLong`. With bit 63 for bit 31 the two give signed comparison, so away from
`0 - minLong` the bits have to agree. For `0 - minLong` both flags are wrong at once. -/
lemma sf_xor_of_sub_iff :
    ((decide (((b - a).setWidth 32).toInt < 0) ^^ computedOvf a b .sub) = true ↔
      b.toInt < a.toInt) ↔
      ((b - a).getLsbD 31 = (b - a).getLsbD 63 ∨ (a = minLong ∧ b = 0)) := by
  have hsf : decide (((b - a).setWidth 32).toInt < 0) = (b - a).getLsbD 31 := by
    rw [Bool.eq_iff_iff, decide_eq_true_iff, narrowed_neg_iff]
  rw [hsf, computedOvf_sub]
  by_cases h : a = minLong ∧ b = 0
  · obtain ⟨rfl, rfl⟩ := h
    decide
  · rw [decide_eq_false h, Bool.not_false, Bool.and_true, ← lt_iff_flags a b, ← Bool.eq_iff_iff,
      or_iff_left h]
    cases (b - a).getLsbD 31 <;> cases (b - a).getLsbD 63 <;> cases overflows .sub a b <;> decide

/-- **The conditions on the flags of a subtraction** are the signed comparisons exactly on
`CmpExact`. -/
lemma condDoit_computeCc_sub_iff {c : Cond} (hc : c ≠ .yes) :
    (condDoit (computeCc (some .sub) a b (computeAlu (some .sub) a b)) c = true ↔
      c.Holds a b) ↔ CmpExact c a b := by
  have hz : (b - a == 0) = decide (b = a) := by
    rw [Bool.eq_iff_iff, beq_iff_eq, decide_eq_true_iff, sub_eq_zero_iff_eq]
  have hval : computeAlu (some .sub) a b = b - a := rfl
  have hx := sf_xor_of_sub_iff a b
  have heq : b = a ↔ b.toInt = a.toInt := eq_iff_toInt_eq b a
  -- equal operands leave no sign and no overflow
  have hself : b = a → (b - a).getLsbD 31 = (b - a).getLsbD 63 := by
    rintro rfl
    rw [BitVec.sub_self]
    rfl
  have hof : getOf (computeCc (some .sub) a b (b - a)) = computedOvf a b .sub :=
    getOf_computeCc a b .sub
  generalize hX : (decide (((b - a).setWidth 32).toInt < 0) ^^ computedOvf a b .sub) = x at hx
  cases c with
  | yes => exact absurd rfl hc
  | e =>
    simp only [condDoit, Cond.Holds, CmpExact, hval, getZf_computeCc, hz]
    simp
  | ne =>
    simp only [condDoit, Cond.Holds, CmpExact, hval, getZf_computeCc, hz]
    simp
  | l =>
    simp only [condDoit, Cond.Holds, CmpExact, hval, getSf_computeCc, hof, hX]
    simpa using hx
  | ge =>
    simp only [condDoit, Cond.Holds, CmpExact, hval, getSf_computeCc, hof, hX]
    simp only [reduceCtorEq, false_or, ← hx]
    cases x <;> simp
  | le =>
    simp only [condDoit, Cond.Holds, CmpExact, hval, getZf_computeCc, getSf_computeCc, hof, hX, hz]
    simp only [reduceCtorEq, false_or, ← hx]
    by_cases h : b = a
    · have := hx.mpr (.inl (hself h))
      cases x <;> simp [h] at this ⊢
    · have h' := mt heq.mpr h
      cases x <;> simp only [h, decide_false, Bool.false_or, true_iff, false_iff,
        Bool.false_eq_true] <;> omega
  | g =>
    simp only [condDoit, Cond.Holds, CmpExact, hval, getZf_computeCc, getSf_computeCc, hof, hX, hz]
    simp only [reduceCtorEq, false_or, ← hx]
    by_cases h : b = a
    · have := hx.mpr (.inl (hself h))
      cases x <;> simp [h] at this ⊢
    · have h' := mt heq.mpr h
      cases x <;> simp only [h, decide_false, Bool.not_false, Bool.true_and, Bool.not_true,
        true_iff, false_iff, Bool.false_eq_true] <;> omega

/-! ## Two steps of the simulator -/

/-- The state executes `subq rA, rB` and then a conditional jump or move; `f` and `g` are what
the two calls of `nexti` fetch. -/
structure SubqThenBranch (sim : Y64Sim) (rA rB : Reg) (c : Cond) (f g : Fetched) : Prop where
  fetch_sub : fetch sim = some f
  sub_icode : f.icode = some .alu
  sub_ifun : Alu.ofCode f.ifun = some .sub
  sub_rega : f.rega = some rA
  sub_regb : f.regb = some rB
  fetch_branch : fetch (nexti sim).2 = some g
  branch_icode : g.icode = some .jmp ∨ g.icode = some .rrmovq
  branch_cond : Cond.ofCode g.ifun = some c
  conditional : c ≠ .yes

/-- The result of a conditional jump or move whose condition is taken or not. -/
def branch (sim : Y64Sim) (g : Fetched) (taken : Bool) : Stat × Y64Sim :=
  if g.icode = some .jmp then (.aok, { sim with pc := if taken then g.imm else g.nextPc })
  else (.aok, { (if taken then sim.setReg g.regb (getRegVal sim.r g.rega) else sim) with
    pc := g.nextPc })

variable {sim : Y64Sim} {rA rB : Reg} {c : Cond} {f g : Fetched}

/-- The condition codes after `subq`. -/
lemma SubqThenBranch.cc (h : SubqThenBranch sim rA rB c f g) :
    (nexti sim).2.cc = computeCc (some .sub) (getRegVal sim.r (some rA))
      (getRegVal sim.r (some rB))
      (computeAlu (some .sub) (getRegVal sim.r (some rA)) (getRegVal sim.r (some rB))) := by
  simp only [nexti, h.fetch_sub, execute, h.sub_icode, h.sub_ifun, h.sub_rega, h.sub_regb]

/-- The second step branches on `cond_doit` of the condition codes it finds. -/
lemma SubqThenBranch.nexti_branch (h : SubqThenBranch sim rA rB c f g) :
    nexti (nexti sim).2 = branch (nexti sim).2 g (condDoit (nexti sim).2.cc c) := by
  conv_lhs => rw [nexti, h.fetch_branch]
  rcases h.branch_icode with hi | hi <;>
    simp [execute, branch, hi, h.branch_cond]

/-- **A comparison by `subq` and a conditional jump or move** is taken as it should be exactly
on `CmpExact`: the second step takes the branch as `cond_doit` says, and `cond_doit` says the
signed comparison of the old register values if and only if they are in `CmpExact`. -/
theorem branch_after_subq_iff (h : SubqThenBranch sim rA rB c f g) :
    nexti (nexti sim).2 = branch (nexti sim).2 g (condDoit (nexti sim).2.cc c) ∧
      ((condDoit (nexti sim).2.cc c = true ↔
        c.Holds (getRegVal sim.r (some rA)) (getRegVal sim.r (some rB))) ↔
        CmpExact c (getRegVal sim.r (some rA)) (getRegVal sim.r (some rB))) := by
  refine ⟨h.nexti_branch, ?_⟩
  rw [h.cc]
  exact condDoit_computeCc_sub_iff _ _ h.conditional

/-- A machine about to compare `%rax = 0x80000001` with `%rcx = 1` and jump if less. -/
def compareSim : Y64Sim where
  pc := 0
  r := ⟨128, fun x => if x = 0 ∨ x = 8 then 1 else if x = 3 then 0x80 else 0, regFile_len_lt⟩
  m := ⟨64, fun x => if x = 0 then 0x61 else if x = 1 then 0x10 else if x = 2 then 0x72 else 0,
    smallMem_len_lt⟩
  cc := packCc true false false
  r_len := rfl

/-- The two instructions that `compareSim` fetches. -/
lemma compareSim_fetches : SubqThenBranch compareSim .rcx .rax .l
    ⟨some .alu, 1, some .rcx, some .rax, 0, 2⟩ ⟨some .jmp, 2, none, none, 0, 11⟩ where
  fetch_sub := by decide
  sub_icode := rfl
  sub_ifun := rfl
  sub_rega := rfl
  sub_regb := rfl
  fetch_branch := by decide
  branch_icode := .inl rfl
  branch_cond := rfl
  conditional := by decide

/-- The comparison of `0x80000001` with `1` comes out wrong. -/
theorem branch_after_subq_compareSim :
    (condDoit (nexti compareSim).2.cc .l = true ↔
        Cond.l.Holds (getRegVal compareSim.r (some .rcx)) (getRegVal compareSim.r (some .rax))) ↔
      CmpExact .l (getRegVal compareSim.r (some .rcx)) (getRegVal compareSim.r (some .rax)) :=
  (branch_after_subq_iff compareSim_fetches).2

/-- A `jl` behind a `subq` is not always taken as the signed comparison says. -/
theorem not_branch_after_subq :
    ¬ ∀ (sim : Y64Sim) (rA rB : Reg) (c : Cond) (f g : Fetched), SubqThenBranch sim rA rB c f g →
      (condDoit (nexti sim).2.cc c = true ↔
        c.Holds (getRegVal sim.r (some rA)) (getRegVal sim.r (some rB))) := by
  intro h
  exact absurd (h compareSim _ _ _ _ _ compareSim_fetches) (by decide)

end Y64
