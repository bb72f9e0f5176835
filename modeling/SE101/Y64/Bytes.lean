import SE101.Y64.SimMemory

set_option relaxedAutoImplicit false
set_option autoImplicit false

/-!
# The bytes of a memory

`set_long_val` shifts a signed value to the right and masks it, `get_long_val` shifts bytes to the
left and joins them with `|`. Together they make the memory a little-endian store: a value is its
eight bytes, and a write changes just the bytes that it writes.

## Main definitions

* `Y64.LongInRange` — the addresses of eight bytes in memory.
* `Y64.byteOf` — a byte of a value.
* `Y64.StoreLaw` — what is read after a write.

## Main results

* `Y64.eq_iff_byteOf` — a value is its eight bytes.
* `Y64.byteOf_getLongVal` — the bytes of the value that is read are those in memory.
* `Y64.setLongVal_store` — a write obeys the law, and one to a register changes no other register.
-/

namespace Y64

open LittleEndian

/-- The eight bytes from the address on are in memory. -/
def LongInRange (m : MemT) (addr : Long) : Prop := 0 ≤ addr.toInt ∧ addr.toInt + 8 ≤ m.len

instance (m : MemT) (addr : Long) : Decidable (LongInRange m addr) :=
  inferInstanceAs (Decidable (_ ∧ _))

/-- Byte `i` of a value, the lowest first. -/
def byteOf (val : Long) (i : ℕ) : Byte := val.extractLsb' (8 * i) 8

/-- The memory `m'` is what `set_long_val(m, a, val)` makes of `m`. -/
structure StoreLaw (m : MemT) (a val : Long) (m' : MemT) : Prop where
  len : m'.len = m.len
  /-- The value is read back. -/
  same : getLongVal m' a = some val
  /-- Its bytes stand in memory one after the other. -/
  byte : ∀ i < 8, getByteVal m' (a + BitVec.ofNat 64 i) = some (byteOf val i)
  /-- A value that is read elsewhere has new bytes where it overlaps and old ones elsewhere. -/
  mixed : ∀ b, LongInRange m b → ∃ w, getLongVal m' b = some w ∧ ∀ i < 8, byteOf w i =
    if a.toNat ≤ b.toNat + i ∧ b.toNat + i < a.toNat + 8 then byteOf val (b.toNat + i - a.toNat)
    else m.data (b.toNat + i)
  /-- No other byte changes. -/
  other : ∀ x, x < a.toNat ∨ a.toNat + 8 ≤ x → m'.data x = m.data x

variable {m : MemT} {a b addr val : Long}

/-! ## Bytes of a value -/

/-- The byte as a number. -/
lemma byteOf_eq (val : Long) (i : ℕ) : byteOf val i = BitVec.ofNat 8 (val.toNat / 256 ^ i) := by
  have hpow : (256 : ℕ) ^ i = 2 ^ (8 * i) := by
    rw [pow_mul]
    norm_num
  apply BitVec.eq_of_toNat_eq
  rw [byteOf, BitVec.extractLsb'_toNat, BitVec.toNat_ofNat, Nat.shiftRight_eq_div_pow, hpow]

/-- A value is made of its bytes. -/
lemma load_byteOf (val : Long) : load (byteOf val) 0 8 = val.toNat := by
  have hdigits : slice (byteOf val) 0 8 = digits 8 val.toNat := by
    refine List.map_congr_left fun i _ => ?_
    rw [Nat.zero_add, byteOf_eq]
  have hlt := val.isLt
  rw [load_of_slice hdigits, Nat.mod_eq_of_lt (by norm_num; exact hlt)]

/-- **A value is its eight bytes.** -/
theorem eq_iff_byteOf {w : Long} : val = w ↔ ∀ i < 8, byteOf val i = byteOf w i := by
  rw [← BitVec.toNat_inj, ← load_byteOf val, ← load_byteOf w, load_eq_iff]
  simp only [Nat.zero_add]

/-- A byte of a value that is made of eight bytes. -/
lemma byteOf_load (data : Memory) (x : ℕ) {i : ℕ} (hi : i < 8) :
    byteOf (BitVec.ofNat 64 (load data x 8)) i = data (x + i) := by
  have hlt := load_lt data x 8
  apply BitVec.eq_of_toNat_eq
  rw [byteOf_eq, BitVec.toNat_ofNat, BitVec.toNat_ofNat, Nat.mod_eq_of_lt (a := load data x 8)
    (by norm_num at hlt ⊢; exact hlt)]
  exact load_div_mod hi

/-! ## Addresses in range -/

/-- Such an address is a small number. -/
lemma LongInRange.toNat_le (h : LongInRange m addr) : addr.toNat + 8 ≤ m.len := by
  obtain ⟨hpos, hle⟩ := h
  have hlen := m.len_lt
  have hlt := addr.isLt
  rw [BitVec.toInt_eq_toNat_cond] at hpos hle
  split_ifs at hpos hle <;> omega

/-- The bound check does not overflow there. -/
lemma LongInRange.noWrap (h : LongInRange m addr) : NoWrap addr := by
  have hlen := m.len_lt
  have hle := h.2
  unfold NoWrap
  omega

/-- **The bytes of a value.** The bytes of what `get_long_val` reads are those in memory. -/
theorem byteOf_getLongVal (h : LongInRange m addr) :
    ∃ w, getLongVal m addr = some w ∧ ∀ i < 8, byteOf w i = m.data (addr.toNat + i) := by
  refine ⟨_, ?_, fun i hi => byteOf_load m.data addr.toNat hi⟩
  rw [getLongVal_eq m h.noWrap, if_pos h.toNat_le]

/-! ## Writing -/

/-- A byte after a write. -/
lemma store_apply (data : Memory) (x : ℕ) :
    store data a.toNat 8 val.toNat x =
      if a.toNat ≤ x ∧ x < a.toNat + 8 then byteOf val (x - a.toNat) else data x := by
  rw [byteOf_eq, store]

/-- **A write.** `set_long_val` succeeds in range and obeys the law. -/
theorem exists_setLongVal (val : Long) (ha : LongInRange m a) :
    ∃ m', setLongVal m a val = some m' ∧ StoreLaw m a val m' := by
  have hle := ha.toNat_le
  have hlen := m.len_lt
  have hval := val.isLt
  refine ⟨{ m with data := store m.data a.toNat 8 val.toNat }, ?_, rfl, ?_, ?_, ?_, ?_⟩
  · rw [setLongVal_eq m val ha.noWrap, if_pos hle]
  · rw [getLongVal_eq _ ha.noWrap, if_pos hle, load_store_same (by norm_num; exact hval),
      BitVec.ofNat_toNat, BitVec.setWidth_eq]
  · intro i hi
    have haddr : (a + BitVec.ofNat 64 i).toNat = a.toNat + i :=
      toNat_add_ofNat (k := 8) (by omega) hi
    rw [getByteVal_eq, haddr, if_pos (by dsimp only; omega)]
    dsimp only
    rw [store_apply, if_pos (by omega), Nat.add_sub_cancel_left]
  · intro b hb
    obtain ⟨w, hw, hbytes⟩ := byteOf_getLongVal (m := { m with
      data := store m.data a.toNat 8 val.toNat }) hb
    refine ⟨w, hw, fun i hi => ?_⟩
    rw [hbytes i hi]
    exact store_apply m.data (b.toNat + i)
  · intro x hx
    exact store_apply_of_notMem hx

/-! ## Registers -/

/-- Writing a register changes no other one, however long the register file is. -/
lemma getRegVal_setRegVal_of_ne (r : MemT) {id id' : RegId} (val : Long) (h : id' ≠ id) :
    getRegVal (setRegVal r id val) id' = getRegVal r id' := by
  cases id with
  | none => rfl
  | some id =>
    cases id' with
    | none => rfl
    | some id' =>
      have hne : id'.code ≠ id.code := fun hcode => h (congrArg some (Reg.code_injective hcode))
      have hload : load (store r.data (id.code * 8) 8 val.toNat) (id'.code * 8) 8 =
          load r.data (id'.code * 8) 8 := load_store_of_disjoint (by omega)
      rw [setRegVal, setLongVal_eq r val (noWrap_regOffset id), toNat_regOffset]
      split_ifs with hin
      · rw [Option.getD_some, getRegVal, getRegVal, getLongVal_eq _ (noWrap_regOffset id'),
          getLongVal_eq _ (noWrap_regOffset id'), toNat_regOffset]
        dsimp only
        rw [hload]
      · rfl

/-- **A little-endian store.** A write to memory obeys the law, and a write to a register changes no
other register. -/
theorem setLongVal_store (m : MemT) (a val : Long) (ha : LongInRange m a) :
    (∃ m', setLongVal m a val = some m' ∧ StoreLaw m a val m') ∧
    ∀ (r : MemT) (id id' : RegId), id' ≠ id →
      getRegVal (setRegVal r id val) id' = getRegVal r id' :=
  ⟨exists_setLongVal val ha, fun r _ _ h => getRegVal_setRegVal_of_ne r val h⟩

/-- A negative value at the last address of a small memory. -/
theorem setLongVal_store_last :
    let m : MemT := ⟨64, fun _ => 0, smallMem_len_lt⟩
    LongInRange m 56 ∧
    (∃ m', setLongVal m 56 (-2) = some m' ∧ StoreLaw m 56 (-2) m') ∧
    ∀ (r : MemT) (id id' : RegId), id' ≠ id →
      getRegVal (setRegVal r id (-2)) id' = getRegVal r id' := by
  intro m
  have ha : LongInRange m 56 := by decide
  exact ⟨ha, setLongVal_store m 56 (-2) ha⟩

end Y64
