import Mathlib.Tactic.IntervalCases
import SE101.Lib.Scan

set_option relaxedAutoImplicit false
set_option autoImplicit false

/-!
# Hexadecimal digits

Numbers of a fixed number of digits, with leading zeros.

## Main definitions

* `Hexadecimal.hexChar`, `Hexadecimal.hexVal` — the character of a digit, and back.
* `Hexadecimal.hexDigits`, `Hexadecimal.hexValue` — the last digits of a number, and the number that
  digits denote.
* `Hexadecimal.hexPairs` — the numbers that digits denote two by two.

## Main results

* `Hexadecimal.hexValue_hexDigits`, `Hexadecimal.hexPairs_flatten` — reading what was written.
-/

namespace Hexadecimal

open Scan

/-- The character of a digit. -/
def hexChar (d : ℕ) : Char := if d < 10 then Char.ofNat (d + 48) else Char.ofNat (d - 10 + 97)

/-- The digit of a character. -/
def hexVal (c : Char) : ℕ := if c.toNat < 97 then c.toNat - 48 else c.toNat - 97 + 10

/-- The characters of digits. -/
def isHexDigit (c : Char) : Bool := ('0' ≤ c && c ≤ '9') || ('a' ≤ c && c ≤ 'f')

/-- The last digits of a number. -/
def hexDigits (v len : ℕ) : List Char :=
  (List.range len).reverse.map fun i => hexChar (v / 16 ^ i % 16)

/-- The number that digits denote. -/
def hexValue (s : List Char) : ℕ := s.foldl (fun n c => 16 * n + hexVal c) 0

/-- The numbers that digits denote, two digits each. -/
def hexPairs : List Char → List ℕ
  | c :: d :: s => hexValue [c, d] :: hexPairs s
  | _ => []

variable {v len : ℕ}

lemma hexVal_hexChar (h : v < 16) : hexVal (hexChar v) = v := by
  interval_cases v <;> rfl

lemma isHexDigit_hexChar (h : v < 16) : isHexDigit (hexChar v) = true := by
  interval_cases v <;> rfl

@[simp] lemma length_hexDigits (v len : ℕ) : (hexDigits v len).length = len := by simp [hexDigits]

/-- The first digit. -/
lemma hexDigits_succ (v len : ℕ) :
    hexDigits v (len + 1) = hexChar (v / 16 ^ len % 16) :: hexDigits v len := by
  simp [hexDigits, List.range_succ]

/-- The last digit. -/
lemma hexDigits_succ' (v len : ℕ) :
    hexDigits v (len + 1) = hexDigits (v / 16) len ++ [hexChar (v % 16)] := by
  induction len with
  | zero => simp [hexDigits]
  | succ len ih =>
    rw [hexDigits_succ, ih, hexDigits_succ (v / 16), Nat.div_div_eq_div_mul, pow_succ',
      List.cons_append]

/-- Digits are digits. -/
lemma all_hexDigits (v len : ℕ) : All isHexDigit (hexDigits v len) := by
  intro c hc
  obtain ⟨i, -, rfl⟩ := List.mem_map.1 hc
  exact isHexDigit_hexChar (Nat.mod_lt _ (by decide))

/-- **Reading the digits of a number.** -/
theorem hexValue_hexDigits (h : v < 16 ^ len) : hexValue (hexDigits v len) = v := by
  induction len generalizing v with
  | zero =>
    obtain rfl : v = 0 := by simpa using h
    rfl
  | succ len ih =>
    have hdiv : v / 16 < 16 ^ len := by
      rw [Nat.div_lt_iff_lt_mul (by decide), ← pow_succ]
      exact h
    have ih := ih hdiv
    rw [hexValue] at ih ⊢
    rw [hexDigits_succ', List.foldl_append, ih, List.foldl_cons, List.foldl_nil,
      hexVal_hexChar (Nat.mod_lt _ (by decide))]
    omega

/-- **Reading the digits of numbers**, two digits each. -/
theorem hexPairs_flatten {vs : List ℕ} (h : ∀ v ∈ vs, v < 16 ^ 2) :
    hexPairs (vs.map (hexDigits · 2)).flatten = vs := by
  induction vs with
  | nil => rfl
  | cons v vs ih =>
    obtain ⟨hv, hvs⟩ := List.forall_mem_cons.1 h
    have hshape : hexDigits v 2 = [hexChar (v / 16 ^ 1 % 16), hexChar (v / 16 ^ 0 % 16)] := rfl
    rw [List.map_cons, List.flatten_cons, hshape, List.cons_append, List.cons_append,
      List.nil_append, hexPairs, ← hshape, hexValue_hexDigits hv, ih hvs]

example : hexDigits 0x2f4 3 = ['2', 'f', '4'] := by decide

end Hexadecimal
