import SE101.Y64.Sim

set_option relaxedAutoImplicit false
set_option autoImplicit false

/-!
# Condition codes

`compute_cc` against the definition of the Y86-64 flags. The zero flag is always right. The
sign flag is taken after narrowing the result to 32 bits, so it is bit 31 of the result
instead of bit 63. The overflow rule of addition is attached to `A_AND` by mistake, and the
rule for subtraction compares `> 0` tests and misses one pair of operands.

## Main definitions

* `Y64.overflows` — signed overflow of an ALU operation, by its exact integer result.
* `Y64.CcCorrect` — a condition code is the one that Y86-64 defines.
* `Y64.CcExact` — the operands on which `compute_cc` gets it right.

## Main results

* `Y64.ccCorrect_computeCc_iff` — `compute_cc` is right exactly on `CcExact`.
* `Y64.lt_iff_flags` — after an exact subtraction, `SF ^ OF` is signed comparison.
-/

namespace Y64

/-! ## Packing and unpacking flags -/

@[simp] lemma getZf_packCc (z s o : Bool) : getZf (packCc z s o) = z := by
  cases z <;> cases s <;> cases o <;> rfl

@[simp] lemma getSf_packCc (z s o : Bool) : getSf (packCc z s o) = s := by
  cases z <;> cases s <;> cases o <;> rfl

@[simp] lemma getOf_packCc (z s o : Bool) : getOf (packCc z s o) = o := by
  cases z <;> cases s <;> cases o <;> rfl

/-! ## The definition of the flags -/

/-- The exact integer result of an addition or subtraction; the bitwise operations have none. -/
def exactResult : Alu → Long → Long → Option ℤ
  | .add, a, b => some (b.toInt + a.toInt)
  | .sub, a, b => some (b.toInt - a.toInt)
  | .and, _, _ | .xor, _, _ => none

/-- Signed overflow: there is an exact result and it is not a 64-bit number. -/
def overflows (op : Alu) (a b : Long) : Bool :=
  (exactResult op a b).any fun r => r < -2 ^ 63 ∨ 2 ^ 63 ≤ r

/-- `cc` holds the Y86-64 flags of applying `op` to `a` and `b` with result `val`. -/
structure CcCorrect (op : Alu) (a b val : Long) (cc : CC) : Prop where
  /-- Zero flag. -/
  zf : getZf cc = true ↔ val = 0
  /-- Sign flag. -/
  sf : getSf cc = true ↔ val.toInt < 0
  /-- Overflow flag. -/
  of : getOf cc = true ↔ overflows op a b = true

/-- The smallest `long_t`. -/
abbrev minLong : Long := 0x8000000000000000

/-- Operands on which the overflow rule of `compute_cc` gives signed overflow. -/
def OvfExact (op : Alu) (a b : Long) : Prop :=
  match op with
  | .add => -2 ^ 63 ≤ b.toInt + a.toInt ∧ b.toInt + a.toInt < 2 ^ 63
  | .sub => ¬ (a = minLong ∧ b = 0)
  | .and => ¬ (0 < a.toInt ∧ 0 < b.toInt ∧ b &&& a = 0)
  | .xor => True

/-- Operands on which `compute_cc` is right: bits 31 and 63 of the result agree, and the
overflow rule gives signed overflow. -/
def CcExact (op : Alu) (a b : Long) : Prop :=
  (computeAlu (some op) a b).getLsbD 31 = (computeAlu (some op) a b).getLsbD 63 ∧
    OvfExact op a b

instance (op : Alu) (a b : Long) : Decidable (OvfExact op a b) := by
  cases op <;> unfold OvfExact <;> infer_instance

instance (op : Alu) (a b : Long) : Decidable (CcExact op a b) := by
  unfold CcExact; infer_instance

/-! ## Signed 64-bit arithmetic -/

variable (a b v : Long)

/-- The range of a `long_t`. -/
lemma toInt_range : -2 ^ 63 ≤ v.toInt ∧ v.toInt < 2 ^ 63 :=
  ⟨BitVec.le_toInt v, BitVec.toInt_lt⟩

/-- A `long_t` is negative when its bit 63 is set. -/
lemma toInt_neg_iff_bit : v.toInt < 0 ↔ v.getLsbD 63 = true := by
  have h : v.msb = v.getLsbD 63 := BitVec.msb_eq_getLsbD_last v
  rw [← h, BitVec.msb_eq_toInt, decide_eq_true_iff]

/-- The sign test after narrowing to `int` looks at bit 31. -/
lemma narrowed_neg_iff : (v.setWidth 32).toInt < 0 ↔ v.getLsbD 31 = true := by
  rw [← BitVec.msb_setWidth'' (k := 31), BitVec.msb_eq_toInt, decide_eq_true_iff]

/-- Reducing an integer to 64 bits moves it by at most one multiple of `2⁶⁴` when it is a sum
or difference of two 64-bit numbers. -/
lemma bmod_cases {r : ℤ} (hlo : -2 ^ 64 ≤ r) (hhi : r < 2 ^ 64) :
    (-2 ^ 63 ≤ r ∧ r < 2 ^ 63 ∧ r.bmod (2 ^ 64) = r) ∨
      (2 ^ 63 ≤ r ∧ r.bmod (2 ^ 64) = r - 2 ^ 64) ∨
      (r < -2 ^ 63 ∧ r.bmod (2 ^ 64) = r + 2 ^ 64) := by
  rw [Int.bmod_def]
  split_ifs <;> omega

/-- The three ways a subtraction can come out: exact, or off by `2⁶⁴` in either direction. -/
lemma toInt_sub_cases :
    (overflows .sub a b = false ∧ (b - a).toInt = b.toInt - a.toInt) ∨
      (overflows .sub a b = true ∧ 2 ^ 63 ≤ b.toInt - a.toInt ∧
        (b - a).toInt = b.toInt - a.toInt - 2 ^ 64) ∨
      (overflows .sub a b = true ∧ b.toInt - a.toInt < -2 ^ 63 ∧
        (b - a).toInt = b.toInt - a.toInt + 2 ^ 64) := by
  obtain ⟨ha, ha'⟩ := toInt_range a
  obtain ⟨hb, hb'⟩ := toInt_range b
  have h := bmod_cases (r := b.toInt - a.toInt) (by omega) (by omega)
  rw [← BitVec.toInt_sub] at h
  simp only [overflows, exactResult, Option.any_some, decide_eq_true_iff, decide_eq_false_iff_not]
  omega

/-- A `long_t` is its signed value. -/
lemma eq_iff_toInt_eq : a = b ↔ a.toInt = b.toInt := BitVec.toInt_inj.symm

/-- After a subtraction with the right sign and overflow flags, `SF ^ OF` is signed
comparison. -/
lemma lt_iff_flags :
    ((b - a).getLsbD 63 ^^ overflows .sub a b) = true ↔ b.toInt < a.toInt := by
  obtain ⟨ha, ha'⟩ := toInt_range a
  obtain ⟨hb, hb'⟩ := toInt_range b
  have hr := toInt_range (b - a)
  have hs := toInt_neg_iff_bit (b - a)
  have hc := toInt_sub_cases a b
  generalize b - a = v at hr hs hc ⊢
  rw [Bool.xor_comm, Bool.xor_iff_ne, ne_eq]
  rcases hc with ⟨ho, h⟩ | ⟨ho, h', h⟩ | ⟨ho, h', h⟩ <;> rw [ho]
  · rw [eq_comm, Bool.not_eq_false, ← hs]
    omega
  · rw [eq_comm, ← hs]
    omega
  · rw [eq_comm, ← hs]
    omega

/-! ## The overflow rule -/

/-- The overflow flag that `compute_cc` computes. -/
def computedOvf (op : Alu) : Bool :=
  let val := computeAlu (some op) a b
  (op == .and && pos a == pos b && !(pos a == pos val)) ||
    (op == .sub && !(pos a == pos b) && pos a == pos val)

@[simp] lemma getZf_computeCc (op : Alu) :
    getZf (computeCc (some op) a b v) = (v == 0) := by
  rw [computeCc, getZf_packCc]

@[simp] lemma getSf_computeCc (op : Alu) :
    getSf (computeCc (some op) a b v) = decide ((v.setWidth 32).toInt < 0) := by
  rw [computeCc, getSf_packCc]

@[simp] lemma getOf_computeCc (op : Alu) :
    getOf (computeCc (some op) a b (computeAlu (some op) a b)) = computedOvf a b op := by
  rw [computeCc, getOf_packCc]
  rfl

/-- `compute_cc` never reports overflow of an addition. -/
lemma computedOvf_add : computedOvf a b .add = false := rfl

/-- `compute_cc` never reports overflow of an exclusive or. -/
lemma computedOvf_xor : computedOvf a b .xor = false := rfl

/-- The rule for subtraction reports overflow except when the smallest number is subtracted
from zero.

**Proof sketch.** Both are decided by the three signed values involved. For operands of
opposite sign (zero counted as negative) the two rules read the same sign of the result, which
is never zero then. For operands of equal sign only `0 - minLong` overflows. -/
lemma computedOvf_sub :
    computedOvf a b .sub = (overflows .sub a b && !decide (a = minLong ∧ b = 0)) := by
  have hmin : a = minLong ↔ a.toInt = -2 ^ 63 := by
    rw [eq_iff_toInt_eq]; exact Iff.rfl
  have hzero : b = 0 ↔ b.toInt = 0 := by
    rw [eq_iff_toInt_eq]; exact Iff.rfl
  obtain ⟨ha, ha'⟩ := toInt_range a
  obtain ⟨hb, hb'⟩ := toInt_range b
  obtain ⟨hv, hv'⟩ := toInt_range (b - a)
  have hshape : computedOvf a b .sub =
      (!(pos a == pos b) && pos a == pos (b - a)) := by
    simp [computedOvf, computeAlu]
  rw [hshape, Bool.eq_iff_iff]
  simp only [pos, Bool.and_eq_true, Bool.not_eq_true', beq_iff_eq, beq_eq_false_iff_ne, ne_eq,
    decide_eq_decide, decide_eq_false_iff_not, hmin, hzero]
  have hc := toInt_sub_cases a b
  generalize (b - a).toInt = v at hv hv' hc ⊢
  -- the signs of the operands decide which of the three cases can hold
  rcases hc with ⟨ho, h⟩ | ⟨ho, h', h⟩ | ⟨ho, h', h⟩ <;> rw [ho] <;>
    by_cases hpa : 0 < a.toInt <;> by_cases hpb : 0 < b.toInt <;>
    simp only [hpa, hpb, Bool.false_eq_true, iff_self, not_true, not_false_eq_true, true_iff,
      false_iff, true_and, false_and, iff_true, iff_false] <;> omega

/-- The rule attached to `A_AND` reports overflow for two positive numbers without a common
bit. -/
lemma computedOvf_and :
    computedOvf a b .and = decide (0 < a.toInt ∧ 0 < b.toInt ∧ b &&& a = 0) := by
  have hzero : b &&& a = 0 ↔ (b &&& a).toInt = 0 := by
    rw [eq_iff_toInt_eq]; exact Iff.rfl
  have hsign : (b &&& a).toInt < 0 ↔ b.toInt < 0 ∧ a.toInt < 0 := by
    rw [toInt_neg_iff_bit, toInt_neg_iff_bit, toInt_neg_iff_bit, BitVec.getLsbD_and,
      Bool.and_eq_true]
  have ha0 : a.toInt = 0 → (b &&& a).toInt = 0 := fun h => by
    have : a = 0 := (eq_iff_toInt_eq a 0).mpr h
    rw [this]; simp
  have hb0 : b.toInt = 0 → (b &&& a).toInt = 0 := fun h => by
    have : b = 0 := (eq_iff_toInt_eq b 0).mpr h
    rw [this]; simp
  have hshape : computedOvf a b .and =
      (pos a == pos b && !(pos a == pos (b &&& a))) := by
    simp [computedOvf, computeAlu]
  rw [hshape, Bool.eq_iff_iff]
  simp only [pos, Bool.and_eq_true, Bool.not_eq_true', beq_iff_eq, beq_eq_false_iff_ne, ne_eq,
    decide_eq_decide, decide_eq_true_iff, hzero]
  omega

/-- The overflow flag is right exactly on `OvfExact`. -/
lemma computedOvf_eq_iff (op : Alu) : computedOvf a b op = overflows op a b ↔ OvfExact op a b := by
  cases op with
  | add =>
    rw [computedOvf_add, eq_comm]
    simp only [overflows, exactResult, OvfExact, Option.any_some, decide_eq_false_iff_not]
    omega
  | sub =>
    rw [computedOvf_sub, OvfExact]
    have hover : a = minLong ∧ b = 0 → overflows .sub a b = true := by
      rintro ⟨rfl, rfl⟩; decide
    by_cases h : a = minLong ∧ b = 0
    · rw [hover h, decide_eq_true h]
      exact iff_of_false (by decide) (not_not_intro h)
    · rw [decide_eq_false h, Bool.not_false, Bool.and_true]
      exact iff_of_true rfl h
  | and =>
    rw [computedOvf_and, OvfExact]
    simp [overflows, exactResult]
  | xor =>
    rw [computedOvf_xor, OvfExact]
    simp [overflows, exactResult]

/-! ## The condition codes -/

/-- **`compute_cc` yields the Y86-64 condition codes exactly on `CcExact`.** -/
theorem ccCorrect_computeCc_iff (op : Alu) :
    CcCorrect op a b (computeAlu (some op) a b)
      (computeCc (some op) a b (computeAlu (some op) a b)) ↔ CcExact op a b := by
  have hz : ((computeAlu (some op) a b == 0) = true) ↔ computeAlu (some op) a b = 0 := beq_iff_eq
  have hs : (decide (((computeAlu (some op) a b).setWidth 32).toInt < 0) = true ↔
      (computeAlu (some op) a b).toInt < 0) ↔
      (computeAlu (some op) a b).getLsbD 31 = (computeAlu (some op) a b).getLsbD 63 := by
    rw [decide_eq_true_iff, narrowed_neg_iff, toInt_neg_iff_bit]
    exact Bool.eq_iff_iff.symm
  constructor
  · rintro ⟨-, hsf, hof⟩
    rw [getSf_computeCc] at hsf
    rw [getOf_computeCc, ← Bool.eq_iff_iff] at hof
    exact ⟨hs.mp hsf, (computedOvf_eq_iff a b op).mp hof⟩
  · rintro ⟨hsf, hof⟩
    refine ⟨by rw [getZf_computeCc]; exact hz, by rw [getSf_computeCc]; exact hs.mpr hsf, ?_⟩
    rw [getOf_computeCc, ← Bool.eq_iff_iff]
    exact (computedOvf_eq_iff a b op).mpr hof

/-- `compute_cc` misses the overflow of `(2⁶³ - 1) + 1`. -/
theorem not_ccCorrect_add_overflow :
    ¬ CcCorrect .add 0x7FFFFFFFFFFFFFFF 1 (computeAlu (some .add) 0x7FFFFFFFFFFFFFFF 1)
      (computeCc (some .add) 0x7FFFFFFFFFFFFFFF 1
        (computeAlu (some .add) 0x7FFFFFFFFFFFFFFF 1)) := by
  rintro ⟨-, -, hof⟩
  exact absurd hof (by decide)

end Y64
