import Mathlib.Data.Nat.Digits.Lemmas
import SE101.Lib.CString

set_option relaxedAutoImplicit false
set_option autoImplicit false

/-!
# Numerals

The decimal numeral of a number, as it is printed, and what reading it gives.

## Main definitions

* `CString.numeral` — the numeral that `%d` and `%zu` print for a number.

## Main results

* `CString.decimal_numeral` — reading a numeral gives its number.
* `CString.numeral_injective` — different numbers have different numerals.
* `CString.atoi_numeral` — `atoi` reads a numeral in front of other characters.
-/

namespace CString

open LittleEndian Scan

variable {n m : ℕ} {blanks t : List Byte}

/-- The character of a digit. -/
def digitChar (d : ℕ) : Byte := BitVec.ofNat 8 (48 + d)

/-- The decimal numeral of a number, without leading zeros. -/
def numeral (n : ℕ) : List Byte :=
  if n = 0 then [digitChar 0] else (Nat.digits 10 n).reverse.map digitChar

lemma digitChar_toNat (h : n < 10) : (digitChar n).toNat = 48 + n := by
  rw [digitChar, BitVec.toNat_ofNat]
  omega

lemma isDigit_digitChar (h : n < 10) : isDigit (digitChar n) = true := by
  rw [isDigit, digitChar_toNat h]
  simp only [Bool.and_eq_true, decide_eq_true_eq]
  omega

/-- The number that the characters of digits denote, the last digit first. -/
lemma decimal_map_digitChar {ds : List ℕ} (h : ∀ d ∈ ds, d < 10) :
    decimal (ds.reverse.map digitChar) = Nat.ofDigits 10 ds := by
  induction ds with
  | nil => rfl
  | cons d ds ih =>
    obtain ⟨hd, hds⟩ := List.forall_mem_cons.1 h
    have ih := ih hds
    rw [decimal] at ih ⊢
    rw [List.reverse_cons, List.map_append, List.foldl_append, ih, List.map_singleton,
      List.foldl_cons, List.foldl_nil, digitChar_toNat hd, Nat.ofDigits_cons]
    omega

/-- A numeral consists of digits. -/
lemma all_numeral (n : ℕ) : All isDigit (numeral n) := by
  rw [numeral]
  split_ifs with hn
  · simp [isDigit_digitChar]
  · intro c hc
    obtain ⟨d, hd, rfl⟩ := List.mem_map.1 hc
    exact isDigit_digitChar (Nat.digits_lt_base (by decide) (List.mem_reverse.1 hd))

lemma numeral_ne_nil (n : ℕ) : numeral n ≠ [] := by
  rw [numeral]
  split_ifs with hn
  · exact List.cons_ne_nil _ _
  · simpa [Nat.digits_eq_nil_iff_eq_zero] using hn

/-- **Reading a numeral.** -/
theorem decimal_numeral (n : ℕ) : decimal (numeral n) = n := by
  rw [numeral]
  split_ifs with hn
  · rw [hn]
    rfl
  · rw [decimal_map_digitChar fun d hd => Nat.digits_lt_base (by decide) hd, Nat.ofDigits_digits]

/-- Different numbers have different numerals. -/
theorem numeral_injective : Function.Injective numeral :=
  Function.LeftInverse.injective decimal_numeral

/-- A character that is no digit is in no numeral. -/
lemma notMem_numeral {c : Byte} (hc : isDigit c = false) (n : ℕ) : c ∉ numeral n := by
  intro hmem
  have hdigit := all_numeral n c hmem
  rw [hc] at hdigit
  cases hdigit

/-- A numeral in front of a character that is no digit. -/
lemma numeral_append_inj {n m : ℕ} {c : Byte} {s t : List Byte} (hc : isDigit c = false)
    (h : numeral n ++ c :: s = numeral m ++ c :: t) : n = m ∧ s = t := by
  have hstops (u : List Byte) : Stops isDigit (c :: u) := by simpa [Stops] using hc
  obtain ⟨hnum, hrest⟩ := append_inj (all_numeral n) (hstops s) (all_numeral m) (hstops t) h
  exact ⟨numeral_injective hnum, (List.cons.inj hrest).2⟩

/-- `atoi` reads a numeral. -/
lemma atoi_numeral (hb : All isSpace blanks) (ht : Stops isDigit t) (h : n < 2 ^ 31) :
    atoi (blanks ++ (numeral n ++ t)) = n := by
  have hn := decimal_numeral n
  rw [atoi_append hb (numeral_ne_nil n) (all_numeral n) ht (by rwa [hn]), hn]

example : numeral 1024 = ascii "1024" := by decide

end CString
