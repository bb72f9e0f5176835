import Mathlib.Algebra.Order.Ring.Int
import Mathlib.Data.List.TakeWhile
import SE101.Lib.LittleEndian
import SE101.Lib.Scan

set_option relaxedAutoImplicit false
set_option autoImplicit false

/-!
# Strings of bytes

What the C library computes of strings, which are lists of bytes here.

## Main definitions

* `CString.ascii` — the bytes of a literal.
* `CString.cstr` — the string that a buffer holds.
* `CString.isSpace`, `CString.isDigit` — classes of characters.
* `CString.startsWithNoCase` — comparison with a prefix in any letter case.
* `CString.strtol`, `CString.atoi` — the number that a string begins with.
-/

namespace CString

open LittleEndian

/-- The bytes of a literal. -/
def ascii (s : String) : List Byte := s.toList.map fun c => BitVec.ofNat 8 c.toNat

/-- The string that a buffer holds: what stands before its first `NUL`. -/
def cstr (s : List Byte) : List Byte := s.takeWhile (· ≠ 0)

/-- `tolower`. -/
def toLower (b : Byte) : Byte := if 65 ≤ b.toNat ∧ b.toNat ≤ 90 then b + 32 else b

/-- `!strncasecmp(s, p, strlen(p))`: `s` begins with `p` in some letter case. -/
def startsWithNoCase (p s : List Byte) : Bool := (s.take p.length).map toLower = p.map toLower

/-- `isspace`: the blank, and the characters from the tab to the carriage return. -/
def isSpace (b : Byte) : Bool := b == 32#8 || (9 ≤ b.toNat && b.toNat ≤ 13)

/-- `isdigit`. -/
def isDigit (b : Byte) : Bool := 48 ≤ b.toNat && b.toNat ≤ 57

/-- The number that decimal digits denote. -/
def decimal (ds : List Byte) : ℕ := ds.foldl (fun n d => 10 * n + (d.toNat - 48)) 0

/-- `strtol(s, NULL, 10)`: white space, a sign, and digits up to the first character that is
none. A number that is no `long` gives the nearest one. -/
def strtol (s : List Byte) : ℤ :=
  match s.dropWhile isSpace with
  | 45#8 :: s => max (-(decimal (s.takeWhile isDigit) : ℤ)) (-2 ^ 63)
  | 43#8 :: s => min (decimal (s.takeWhile isDigit) : ℤ) (2 ^ 63 - 1)
  | s => min (decimal (s.takeWhile isDigit) : ℤ) (2 ^ 63 - 1)

/-- `atoi(s)`: the number as an `int`. -/
def atoi (s : List Byte) : ℤ := (strtol s).bmod (2 ^ 32)

/-- A string without `NUL` is held as it is. -/
lemma cstr_of_notMem {s : List Byte} (h : 0 ∉ s) : cstr s = s := by
  apply List.takeWhile_eq_self_iff.2
  intro b hb
  rw [decide_eq_true_iff]
  rintro rfl
  exact h hb

/-- No string contains `NUL`. -/
lemma zero_notMem_cstr (s : List Byte) : 0 ∉ cstr s := by
  intro h
  simpa using List.mem_takeWhile_imp h

/-- A buffer that contains a `NUL` holds what stands before the first one. -/
lemma exists_eq_cstr_append {s : List Byte} (h : 0 ∈ s) : ∃ t, s = cstr s ++ 0 :: t := by
  induction s with
  | nil => cases h
  | cons b s ih =>
    by_cases hb : b = 0
    · exact ⟨s, by simp [cstr, hb]⟩
    · obtain ⟨t, ht⟩ := ih ((List.mem_cons.1 h).resolve_left (Ne.symm hb))
      refine ⟨t, ?_⟩
      have hc : cstr (b :: s) = b :: cstr s := List.takeWhile_cons_of_pos (by simpa using hb)
      rw [hc, List.cons_append, ← ht]

/-- **Lines as strings.** If a text of lines is the same as what buffers hold of the lines one after
the other, then no line contains a `NUL`, provided that there is a line that certainly does not.

**Proof sketch.** Induction on the lines. After what a buffer holds of a line with a `NUL` stands
that `NUL` in the text, but the first byte of the next string among the strings. -/
theorem zero_notMem_of_flatten_map_cstr {e : List Byte} (hne : e ≠ []) (he : 0 ∉ e)
    {t u : List Byte} {ls : List (List Byte)}
    (h : ((ls ++ [e]).map cstr).flatten ++ t = (ls ++ [e]).flatten ++ u) : ∀ l ∈ ls, 0 ∉ l := by
  induction ls with
  | nil => exact fun l hl => nomatch hl
  | cons l ls ih =>
    rw [List.cons_append, List.map_cons, List.flatten_cons, List.flatten_cons, List.append_assoc,
      List.append_assoc] at h
    by_cases hl : 0 ∈ l
    · exfalso
      obtain ⟨v, hv⟩ := exists_eq_cstr_append hl
      have h' : cstr l ++ (((ls ++ [e]).map cstr).flatten ++ t) =
          cstr l ++ (0 :: v ++ ((ls ++ [e]).flatten ++ u)) := by
        rw [h, ← List.append_assoc (cstr l), ← hv]
      have hstrings := List.append_cancel_left h'
      obtain ⟨b, w, hw⟩ : ∃ b w, ((ls ++ [e]).map cstr).flatten = b :: w := by
        apply List.exists_cons_of_ne_nil
        intro hnil
        exact hne (List.flatten_eq_nil_iff.1 hnil e (by simp [cstr_of_notMem he]))
      rw [hw] at hstrings
      have hb : b = 0 := (List.cons.inj hstrings).1
      have hmem : (0 : Byte) ∈ ((ls ++ [e]).map cstr).flatten := by
        rw [hw, hb]
        exact List.mem_cons_self
      obtain ⟨_, hs, h0⟩ := List.mem_flatten.1 hmem
      obtain ⟨s, -, rfl⟩ := List.mem_map.1 hs
      exact zero_notMem_cstr s h0
    · rw [cstr_of_notMem hl] at h
      have h' := List.append_cancel_left h
      intro m hm
      obtain rfl | hm := List.mem_cons.1 hm
      · exact hl
      · exact ih h' m hm

/-- Lines without `NUL` are held as they are. -/
lemma flatten_map_cstr {ls : List (List Byte)} (h : ∀ l ∈ ls, 0 ∉ l) :
    (ls.map cstr).flatten = ls.flatten := by
  rw [List.map_congr_left (fun l hl => cstr_of_notMem (h l hl)), List.map_id']

/-- The number that a string begins with. -/
lemma atoi_append {blanks digits t : List Byte} (hb : Scan.All isSpace blanks) (hne : digits ≠ [])
    (hd : Scan.All isDigit digits) (ht : Scan.Stops isDigit t) (hk : decimal digits < 2 ^ 31) :
    atoi (blanks ++ (digits ++ t)) = decimal digits := by
  have hdrop : (blanks ++ (digits ++ t)).dropWhile isSpace = digits ++ t :=
    Scan.dropWhile_append hb (Scan.stops_append_of_all hd hne (by decide +kernel))
  have hsign : ∀ c s, digits ++ t = c :: s → isDigit c = true := by
    intro c s h
    obtain ⟨d, ds, rfl⟩ := List.exists_cons_of_ne_nil hne
    rw [← (List.cons.inj h).1]
    exact (Scan.all_cons.1 hd).1
  have hstrtol : strtol (blanks ++ (digits ++ t)) = min (decimal digits : ℤ) (2 ^ 63 - 1) := by
    rw [strtol, hdrop]
    split
    · next s h => exact absurd (hsign _ _ h) (by decide)
    · next s h => exact absurd (hsign _ _ h) (by decide)
    · rw [Scan.takeWhile_append hd ht]
  rw [atoi, hstrtol, min_eq_left (by omega)]
  exact Int.bmod_eq_of_le (by omega) (by omega)

end CString
