import Mathlib.Algebra.Order.Group.Nat
import Mathlib.Logic.Function.Basic
import Mathlib.Tactic.IntervalCases
import Mathlib.Tactic.NormNum
import Mathlib.Tactic.Positivity
import Mathlib.Tactic.Ring

set_option relaxedAutoImplicit false
set_option autoImplicit false

/-!
# Little-endian byte memories

A byte memory is a total function from addresses to bytes. This file has the three accesses
through which programs use one: reading an `n`-byte number, writing one, and copying a range
of bytes, all little-endian and all without alignment. Every fact about them is a fact about
single bytes, so two memories that agree on a range read the same numbers there.

## Main definitions

* `LittleEndian.load` — the number stored in the `n` bytes from an address on.
* `LittleEndian.store` — the memory after an `n`-byte number has been written.
* `LittleEndian.copy` — the memory after a range of bytes has been copied into it.
* `LittleEndian.slice`, `LittleEndian.digits` — a range of a memory, and the digits of a
  number, as lists of bytes.

## Main results

* `LittleEndian.load_store_same`, `load_store_of_disjoint` — a number just written is read
  back, and numbers elsewhere are kept.
* `LittleEndian.load_append` — a wide number is made of two narrower ones.
* `LittleEndian.load_eq_iff` — two numbers are equal exactly when their bytes are.
* `LittleEndian.slice_store_self`, `load_of_slice` — the digits of a number are what is
  written for it, and what it is read from.
-/

namespace LittleEndian

/-- A byte. -/
abbrev Byte := BitVec 8

/-- A byte memory. -/
abbrev Memory := ℕ → Byte

/-- The number stored little-endian in the `n` bytes of `m` from `a` on. -/
def load (m : Memory) (a : ℕ) : ℕ → ℕ
  | 0 => 0
  | n + 1 => load m a n + (m (a + n)).toNat * 256 ^ n

/-- The memory `m` with the low `n` bytes of `v` written little-endian from `a` on. -/
def store (m : Memory) (a n v : ℕ) : Memory := fun x =>
  if a ≤ x ∧ x < a + n then BitVec.ofNat 8 (v / 256 ^ (x - a)) else m x

/-- The memory `m` with the `n` bytes of `src` from `s` on copied to `a`. -/
def copy (m : Memory) (a : ℕ) (src : Memory) (s n : ℕ) : Memory := fun x =>
  if a ≤ x ∧ x < a + n then src (s + (x - a)) else m x

variable {m m' : Memory} {a b n k v w : ℕ}

/-! ## Single bytes -/

/-- Byte `i` of a number just written. -/
lemma store_apply_add (h : k < n) : store m a n v (a + k) = BitVec.ofNat 8 (v / 256 ^ k) := by
  simp [store, h]

/-- A write leaves every byte outside its range alone. -/
lemma store_apply_of_notMem {x : ℕ} (h : x < a ∨ a + n ≤ x) : store m a n v x = m x := by
  rw [store, if_neg (by omega)]

/-- Writing one more byte. -/
lemma store_succ :
    store m a (n + 1) v =
      Function.update (store m a n v) (a + n) (BitVec.ofNat 8 (v / 256 ^ n)) := by
  funext x
  by_cases hx : x = a + n
  · subst hx
    rw [Function.update_self, store_apply_add (by omega)]
  · rw [Function.update_of_ne hx]
    simp only [store]
    by_cases h : a ≤ x ∧ x < a + n
    · rw [if_pos h, if_pos (by omega)]
    · rw [if_neg h, if_neg (by omega)]

/-- Byte `i` of a range just copied. -/
lemma copy_apply_add {src : Memory} {s : ℕ} (h : k < n) :
    copy m a src s n (a + k) = src (s + k) := by
  simp [copy, h]

/-- A copy leaves every byte outside its target alone. -/
lemma copy_apply_of_notMem {src : Memory} {s x : ℕ} (h : x < a ∨ a + n ≤ x) :
    copy m a src s n x = m x := by
  rw [copy, if_neg (by omega)]

/-! ## Reading -/

@[simp] lemma load_zero : load m a 0 = 0 := rfl

/-- An `n`-byte number is below `256 ^ n`. -/
lemma load_lt (m : Memory) (a n : ℕ) : load m a n < 256 ^ n := by
  induction n with
  | zero => simp
  | succ n ih =>
    have hb : (m (a + n)).toNat ≤ 255 := Nat.le_of_lt_succ (m (a + n)).isLt
    have hmul : (m (a + n)).toNat * 256 ^ n ≤ 255 * 256 ^ n := Nat.mul_le_mul_right _ hb
    rw [load, pow_succ]
    omega

/-- A number depends only on the bytes it is stored in. -/
lemma load_congr (h : ∀ i < n, m' (b + i) = m (a + i)) : load m' b n = load m a n := by
  induction n with
  | zero => rfl
  | succ n ih => rw [load, load, ih fun i hi => h i (by omega), h n (by omega)]

/-- Reading past a written range. -/
lemma load_store_of_disjoint (h : b + k ≤ a ∨ a + n ≤ b) :
    load (store m a n v) b k = load m b k :=
  load_congr fun i hi => store_apply_of_notMem (by omega)

/-- The number just written, truncated to its width. -/
lemma load_store_self : load (store m a n v) a n = v % 256 ^ n := by
  have key : ∀ k ≤ n, load (store m a n v) a k = v % 256 ^ k := by
    intro k
    induction k with
    | zero => intro _; simp [Nat.mod_one]
    | succ k ih =>
      intro hk
      rw [load, ih (by omega), store_apply_add (by omega), BitVec.toNat_ofNat,
        Nat.pow_succ 256 k, Nat.mod_mul, Nat.mul_comm (256 ^ k)]
  exact key n le_rfl

/-- A number that fits its width is read back as written. -/
lemma load_store_same (h : v < 256 ^ n) : load (store m a n v) a n = v := by
  rw [load_store_self, Nat.mod_eq_of_lt h]

/-- A wide number is its low part plus its high part. -/
lemma load_append (m : Memory) (a n k : ℕ) :
    load m a (n + k) = load m a n + load m (a + n) k * 256 ^ n := by
  induction k with
  | zero => simp
  | succ k ih =>
    rw [← Nat.add_assoc, load, ih, load, Nat.add_assoc a n k, pow_add]
    ring

/-- Byte `i` of a stored number. -/
lemma load_div_mod (h : k < n) : load m a n / 256 ^ k % 256 = (m (a + k)).toNat := by
  obtain ⟨j, rfl⟩ : ∃ j, n = k + (1 + j) := ⟨n - k - 1, by omega⟩
  have hlt := load_lt m a k
  have hb := (m (a + k)).isLt
  rw [load_append, load_append m (a + k) 1 j,
    Nat.add_mul_div_right _ _ (Nat.pow_pos (by decide)), Nat.div_eq_of_lt hlt]
  simp only [load, pow_zero, Nat.add_zero, pow_one, Nat.mul_one]
  omega

/-- Two stored numbers are equal exactly when they have the same bytes. -/
lemma load_eq_iff : load m' b n = load m a n ↔ ∀ i < n, m' (b + i) = m (a + i) := by
  refine ⟨fun h i hi => ?_, load_congr⟩
  apply BitVec.eq_of_toNat_eq
  rw [← load_div_mod hi, ← load_div_mod hi, h]

/-- The highest byte of a number below `256 ^ n` by a factor of at least two is small. -/
lemma toNat_last_le (h : load m a (n + 1) < k * 256 ^ n) : (m (a + n)).toNat < k := by
  rw [load] at h
  exact Nat.lt_of_mul_lt_mul_right (Nat.lt_of_le_of_lt (Nat.le_add_left _ _) h)

/-! ## Lists of bytes -/

/-- The `n` bytes of `m` from `a` on. -/
def slice (m : Memory) (a n : ℕ) : List Byte := (List.range n).map fun i => m (a + i)

/-- The low `n` bytes of `v`, the lowest first. -/
def digits (n v : ℕ) : List Byte := (List.range n).map fun i => BitVec.ofNat 8 (v / 256 ^ i)

@[simp] lemma length_slice (m : Memory) (a n : ℕ) : (slice m a n).length = n := by simp [slice]

@[simp] lemma length_digits (n v : ℕ) : (digits n v).length = n := by simp [digits]

@[simp] lemma slice_zero (m : Memory) (a : ℕ) : slice m a 0 = [] := rfl

/-- A slice as a first byte and a shorter slice. -/
lemma slice_succ (m : Memory) (a n : ℕ) : slice m a (n + 1) = m a :: slice m (a + 1) n := by
  simp only [slice, List.range_succ_eq_map, List.map_cons, List.map_map, Nat.add_zero]
  congr 1
  exact List.map_congr_left fun i _ => congrArg m (by simp only [Nat.succ_eq_add_one]; omega)

/-- A slice as two slices. -/
lemma slice_add (m : Memory) (a n k : ℕ) :
    slice m a (n + k) = slice m a n ++ slice m (a + n) k := by
  induction n generalizing a with
  | zero => simp
  | succ n ih =>
    rw [show n + 1 + k = n + k + 1 by omega, slice_succ, slice_succ, ih, List.cons_append,
      show a + 1 + n = a + (n + 1) by omega]

/-- Equal slices have equal bytes. -/
lemma slice_eq_iff : slice m a n = slice m' b n ↔ ∀ i < n, m (a + i) = m' (b + i) := by
  simp [slice]

/-- What has just been written. -/
lemma slice_store_self : slice (store m a n v) a n = digits n v :=
  List.map_congr_left fun _ hi => store_apply_add (List.mem_range.1 hi)

/-- A slice outside of a byte that has been changed. -/
lemma slice_update_of_notMem {x : ℕ} {y : Byte} (h : x < a ∨ a + n ≤ x) :
    slice (Function.update m x y) a n = slice m a n :=
  slice_eq_iff.2 fun i hi => Function.update_of_ne (by omega) _ _

/-- The number that a slice of digits is read as. -/
lemma load_of_slice (h : slice m a n = digits n v) : load m a n = v % 256 ^ n := by
  rw [← slice_store_self (m := m) (a := a), slice_eq_iff] at h
  rw [← load_store_self (m := m) (a := a)]
  exact load_congr h

end LittleEndian
