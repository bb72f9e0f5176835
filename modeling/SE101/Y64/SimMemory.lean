import SE101.Y64.Sim

set_option relaxedAutoImplicit false
set_option autoImplicit false

/-!
# Memory and registers of the simulator

The loops of `get_long_val` and `set_long_val` are the little-endian accesses of
`LittleEndian`, and the register file is a fifteen-entry store. Everything later about the
simulator goes through these facts; the loops are not unfolded again.

## Main results

* `Y64.getLongVal_eq`, `Y64.setLongVal_eq` — the two eight-byte accesses at addresses where
  the bound check `addr + 8 > m->len` does not overflow.
* `Y64.getRegVal_setRegVal` — reading a register after writing one.
-/

namespace Y64

open LittleEndian

/-! ## Addresses -/

/-- The address `addr` is not so close to `2⁶³` that `addr + 8` overflows. -/
def NoWrap (addr : Long) : Prop := ¬ (2 ^ 63 - 9 < addr.toInt)

/-- Byte offsets do not wrap inside an eight-byte access. -/
lemma toNat_add_ofNat {addr : Long} {i k : ℕ} (h : addr.toNat + k ≤ 2 ^ 64) (hi : i < k) :
    (addr + BitVec.ofNat 64 i).toNat = addr.toNat + i := by
  rw [BitVec.toNat_add, BitVec.toNat_ofNat, Nat.mod_eq_of_lt (a := i) (by omega),
    Nat.mod_eq_of_lt (by omega)]

/-- The bound check of the byte accesses rejects exactly the offsets past the end. -/
lemma byte_check_iff (m : MemT) (addr : Long) :
    (addr.toInt < 0 ∨ addr.toInt ≥ m.len) ↔ ¬ addr.toNat < m.len := by
  have hlen := m.len_lt
  have hlt := addr.isLt
  rw [BitVec.toInt_eq_toNat_cond]
  split_ifs <;> omega

/-- The bound check of the eight-byte accesses rejects exactly the offsets whose eight bytes
are not all there, unless `addr + 8` overflows. -/
lemma long_check_iff (m : MemT) {addr : Long} (h : NoWrap addr) :
    (addr.toInt < 0 ∨ (addr + 8).toInt > m.len) ↔ ¬ addr.toNat + 8 ≤ m.len := by
  have hlen := m.len_lt
  have hlt := addr.isLt
  simp only [NoWrap] at h
  have hadd : (addr + 8).toNat = (addr.toNat + 8) % 2 ^ 64 := by
    rw [BitVec.toNat_add]; rfl
  rw [BitVec.toInt_eq_toNat_cond] at h ⊢
  rw [BitVec.toInt_eq_toNat_cond, hadd]
  split_ifs at h ⊢ <;> omega

/-! ## The loops -/

/-- The `|`-loop of `get_long_val` adds up the bytes read so far.

**Proof sketch.** Induction on the iterations. The value so far is below `256 ^ i` and the next
byte is shifted above it, so `|` is addition. -/
lemma toNat_getLongLoop (m : MemT) {addr : Long} (h : addr.toNat + 8 ≤ 2 ^ 64) :
    ∀ i ≤ 8, (getLongLoop m addr i).toNat = load m.data addr.toNat i := by
  intro i
  induction i with
  | zero => intro _; rfl
  | succ i ih =>
    intro hi
    have hlt := load_lt m.data addr.toNat i
    have hb := (m.data (addr.toNat + i)).isLt
    have hpow : (256 : ℕ) ^ i = 2 ^ (8 * i) := by rw [pow_mul]; norm_num
    have hle : 2 ^ 8 * 2 ^ (8 * i) ≤ 2 ^ 64 := by
      rw [← pow_add]; exact Nat.pow_le_pow_right (by decide) (by omega)
    have hsh : (m.data (addr.toNat + i)).toNat <<< (8 * i) < 2 ^ 64 := by
      rw [Nat.shiftLeft_eq]
      exact lt_of_lt_of_le (Nat.mul_lt_mul_of_pos_right hb (by positivity)) hle
    rw [getLongLoop, BitVec.toNat_or, ih (by omega), BitVec.toNat_shiftLeft,
      BitVec.toNat_setWidth, toNat_add_ofNat h (by omega), Nat.mod_eq_of_lt (a := BitVec.toNat _)
      (by omega), Nat.mod_eq_of_lt hsh, Nat.or_comm,
      ← Nat.shiftLeft_add_eq_or_of_lt (by rw [← hpow]; exact hlt), Nat.shiftLeft_eq, ← hpow,
      Nat.add_comm, load]

/-- Byte `i` of a 64-bit value, reached by `i` arithmetic shifts. -/
lemma sshiftRight_low_byte (val : Long) {i : ℕ} (hi : i < 8) :
    ((val.sshiftRight (8 * i)) &&& 0xFF).setWidth 8 = BitVec.ofNat 8 (val.toNat / 256 ^ i) := by
  have hpow : (256 : ℕ) ^ i = 2 ^ (8 * i) := by rw [pow_mul]; norm_num
  rw [hpow, ← Nat.shiftRight_eq_div_pow, ← BitVec.toNat_ushiftRight]
  apply BitVec.eq_of_getLsbD_eq
  intro k hk
  have h255 : (0xFF : Long).getLsbD k = true := by
    interval_cases k <;> rfl
  rw [BitVec.getLsbD_setWidth, BitVec.getLsbD_and, h255, BitVec.getLsbD_sshiftRight,
    BitVec.getLsbD_ofNat, BitVec.testBit_toNat, BitVec.getLsbD_ushiftRight]
  simp [hk, show 8 * i + k < 64 by omega, show k < 64 by omega]

/-- The loop of `set_long_val` writes the bytes of the value one by one.

**Proof sketch.** Induction on the iterations: after `i` of them the value has been shifted
right `8 * i` times, and its low byte is byte `i` of the original. -/
lemma setLongLoop_eq (m : MemT) {addr : Long} (val : Long) (h : addr.toNat + 8 ≤ 2 ^ 64) :
    ∀ i ≤ 8, setLongLoop m addr val i =
      (store m.data addr.toNat i val.toNat, val.sshiftRight (8 * i)) := by
  intro i
  induction i with
  | zero =>
    intro _
    refine Prod.ext ?_ (by simp [setLongLoop])
    funext x
    exact (store_apply_of_notMem (by omega)).symm
  | succ i ih =>
    intro hi
    rw [setLongLoop, ih (by omega)]
    refine Prod.ext ?_ ?_
    · show Function.update _ (addr + BitVec.ofNat 64 i).toNat
        (((val.sshiftRight (8 * i)) &&& 0xFF).setWidth 8) = store m.data addr.toNat (i + 1) _
      rw [toNat_add_ofNat h (by omega), sshiftRight_low_byte val (by omega), store_succ]
    · show (val.sshiftRight (8 * i)).sshiftRight 8 = _
      rw [← BitVec.sshiftRight_add, Nat.mul_succ]

/-! ## The accesses -/

/-- `get_byte_val` returns the byte at every offset below the length. -/
lemma getByteVal_eq (m : MemT) (addr : Long) :
    getByteVal m addr = if addr.toNat < m.len then some (m.data addr.toNat) else none := by
  unfold getByteVal
  by_cases h : addr.toNat < m.len
  · rw [if_pos h, if_neg (by rw [byte_check_iff]; simpa using h)]
  · rw [if_neg h, if_pos ((byte_check_iff m addr).mpr h)]

/-- `get_long_val` reads the eight bytes from an offset little-endian. -/
lemma getLongVal_eq (m : MemT) {addr : Long} (hw : NoWrap addr) :
    getLongVal m addr = if addr.toNat + 8 ≤ m.len then
      some (BitVec.ofNat 64 (load m.data addr.toNat 8)) else none := by
  have hlen := m.len_lt
  unfold getLongVal
  by_cases h : addr.toNat + 8 ≤ m.len
  · rw [if_pos h, if_neg (by rw [long_check_iff m hw]; simpa using h),
      ← toNat_getLongLoop m (by omega) 8 le_rfl, BitVec.ofNat_toNat, BitVec.setWidth_eq]
  · rw [if_neg h, if_pos ((long_check_iff m hw).mpr h)]

/-- `set_long_val` writes the eight bytes from an offset little-endian. -/
lemma setLongVal_eq (m : MemT) {addr : Long} (val : Long) (hw : NoWrap addr) :
    setLongVal m addr val = if addr.toNat + 8 ≤ m.len then
      some { m with data := store m.data addr.toNat 8 val.toNat } else none := by
  have hlen := m.len_lt
  unfold setLongVal
  by_cases h : addr.toNat + 8 ≤ m.len
  · rw [if_pos h, if_neg (by rw [long_check_iff m hw]; simpa using h),
      setLongLoop_eq m val (by omega) 8 le_rfl]
  · rw [if_neg h, if_pos ((long_check_iff m hw).mpr h)]

/-! ## Registers -/

/-- The offset of a register. -/
lemma toNat_regOffset (id : Reg) : (BitVec.ofNat 64 (id.code * 8)).toNat = id.code * 8 := by
  have := id.code_lt
  rw [BitVec.toNat_ofNat, Nat.mod_eq_of_lt (by omega)]

/-- The offset of a register is a small address. -/
lemma noWrap_regOffset (id : Reg) : NoWrap (BitVec.ofNat 64 (id.code * 8)) := by
  have := id.code_lt
  unfold NoWrap
  rw [BitVec.toInt_eq_toNat_cond, toNat_regOffset]
  split_ifs <;> omega

/-- A register is the eight bytes at its offset in the register file. -/
lemma getRegVal_some {r : MemT} (hr : r.len = 128) (id : Reg) :
    getRegVal r (some id) = BitVec.ofNat 64 (load r.data (id.code * 8) 8) := by
  have := id.code_lt
  simp only [getRegVal]
  rw [getLongVal_eq r (noWrap_regOffset id), toNat_regOffset, if_pos (by omega), Option.getD_some]

/-- Writing a register writes the eight bytes at its offset. -/
lemma setRegVal_some {r : MemT} (hr : r.len = 128) (id : Reg) (val : Long) :
    setRegVal r (some id) val = { r with data := store r.data (id.code * 8) 8 val.toNat } := by
  have := id.code_lt
  simp only [setRegVal]
  rw [setLongVal_eq r val (noWrap_regOffset id), toNat_regOffset, if_pos (by omega),
    Option.getD_some]

@[simp] lemma getRegVal_none (r : MemT) : getRegVal r none = 0 := rfl

@[simp] lemma setRegVal_none (r : MemT) (val : Long) : setRegVal r none val = r := rfl

/-- **Reading a register after writing one**: the value written if it is the same register,
and the old value otherwise. -/
lemma getRegVal_setRegVal {r : MemT} (hr : r.len = 128) (a b : Reg) (val : Long) :
    getRegVal (setRegVal r (some a) val) (some b) =
      if b = a then val else getRegVal r (some b) := by
  rw [getRegVal_some (by simpa using hr), setRegVal_some hr]
  have hlt := val.isLt
  by_cases hab : b = a
  · subst hab
    rw [if_pos rfl, load_store_same (by norm_num; omega), BitVec.ofNat_toNat, BitVec.setWidth_eq]
  · have hne : b.code ≠ a.code := fun h => hab (Reg.code_injective h)
    rw [if_neg hab, getRegVal_some hr, load_store_of_disjoint (by omega)]

end Y64
