import SE101.Lib.Numeral

set_option relaxedAutoImplicit false
set_option autoImplicit false

/-!
# Formatted input

What the conversions of `fscanf` read from a text, and what they leave of it. All of them skip
white space first.

## Main definitions

* `CString.scanStr`, `CString.scanInt`, `CString.scanUnsigned` — `%s`, `%d` and `%u`.
* `CString.Layout` — a text of words with white space between them.

## Main results

* `CString.Layout.scanStr`, `CString.Layout.scanInt`, `CString.Layout.scanUnsigned` — words are
  read one after the other.
-/

namespace CString

open LittleEndian Scan

/-! ## Conversions -/

/-- `%s`: a word, unless the text is at its end. -/
def scanStr (s : List Byte) : Option (List Byte) × List Byte :=
  let s := s.dropWhile isSpace
  (if s = [] then none else some (s.takeWhile (!isSpace ·)), s.dropWhile (!isSpace ·))

/-- Whether a number has a minus sign, and what stands behind its sign. -/
def scanSign : List Byte → Bool × List Byte
  | 45#8 :: s => (true, s)
  | 43#8 :: s => (false, s)
  | s => (false, s)

/-- A sign and digits. If there are no digits, there is no number, but the sign has been read. -/
def scanNumber (s : List Byte) : Option (Bool × ℕ) × List Byte :=
  let (neg, s) := scanSign (s.dropWhile isSpace)
  let ds := s.takeWhile isDigit
  (if ds = [] then none else some (neg, decimal ds), s.dropWhile isDigit)

/-- `%d`: the number as `strtol` gives it, as an `int`. -/
def scanInt (s : List Byte) : Option ℤ × List Byte :=
  let (number, s) := scanNumber s
  (number.map fun (neg, n) =>
    (if neg then max (-(n : ℤ)) (-2 ^ 63) else min (n : ℤ) (2 ^ 63 - 1)).bmod (2 ^ 32), s)

/-- `%u`: the number as `strtoul` gives it, as an `unsigned int`. -/
def scanUnsigned (s : List Byte) : Option ℕ × List Byte :=
  let (number, s) := scanNumber s
  (number.map fun (neg, n) =>
    (if 2 ^ 64 ≤ n then 2 ^ 64 - 1 else if neg then 2 ^ 64 - n else n) % 2 ^ 32, s)

variable {s t w b : List Byte} {ws : List (List Byte)} {n : ℕ}

/-! ## What is left -/

/-- A word is not empty. -/
lemma length_scanStr_lt (h : (scanStr s).1 = some w) : (scanStr s).2.length < s.length := by
  have hle : (s.dropWhile isSpace).length ≤ s.length := List.length_dropWhile_le ..
  refine lt_of_lt_of_le ?_ hle
  have hstops := stops_dropWhile isSpace s
  simp only [scanStr] at h ⊢
  cases hs : s.dropWhile isSpace with
  | nil => simp [hs] at h
  | cons c s' =>
    rw [hs] at hstops
    have hc : (!isSpace c) = true := by simpa using stops_cons.1 hstops
    have hdrop : (c :: s').dropWhile (!isSpace ·) = s'.dropWhile (!isSpace ·) :=
      List.dropWhile_cons_of_pos hc
    rw [hdrop, List.length_cons]
    exact Nat.lt_succ_of_le (List.length_dropWhile_le ..)

lemma length_scanSign (s : List Byte) : (scanSign s).2.length ≤ s.length := by
  unfold scanSign
  split <;> simp

lemma length_scanNumber (s : List Byte) : (scanNumber s).2.length ≤ s.length :=
  calc (scanNumber s).2.length
      ≤ (scanSign (s.dropWhile isSpace)).2.length := List.length_dropWhile_le ..
    _ ≤ (s.dropWhile isSpace).length := length_scanSign _
    _ ≤ s.length := List.length_dropWhile_le ..

lemma length_scanUnsigned (s : List Byte) : (scanUnsigned s).2.length ≤ s.length :=
  length_scanNumber s

/-- What is read is an `int`. -/
lemma scanInt_lt {z : ℤ} (h : (scanInt s).1 = some z) : z < 2 ^ 31 := by
  obtain ⟨_, -, rfl⟩ := Option.map_eq_some_iff.1 h
  exact Int.bmod_lt (by decide)

/-- What is read is an `unsigned int`. -/
lemma scanUnsigned_lt {m : ℕ} (h : (scanUnsigned s).1 = some m) : m < 2 ^ 32 := by
  obtain ⟨_, -, rfl⟩ := Option.map_eq_some_iff.1 h
  exact Nat.mod_lt _ (by decide)

/-! ## Words -/

/-- A text of words with white space between them, and perhaps before and behind them. -/
inductive Layout : List (List Byte) → List Byte → Prop
  | nil {s : List Byte} (h : All isSpace s) : Layout [] s
  | cons {w b s : List Byte} {ws : List (List Byte)} (hb : All isSpace b)
      (hsep : Stops (!isSpace ·) s) (hs : Layout ws s) : Layout (w :: ws) (b ++ (w ++ s))

/-- Characters that are not skipped. -/
lemma stops_isSpace (hw : All (!isSpace ·) w) (hne : w ≠ []) : Stops isSpace (w ++ t) :=
  stops_append_of_all hw hne fun c hc => by simpa using hc

lemma Layout.dropWhile (hb : All isSpace b) (hw : All (!isSpace ·) w) (hne : w ≠ []) :
    (b ++ (w ++ s)).dropWhile isSpace = w ++ s :=
  dropWhile_append hb (stops_isSpace hw hne)

/-- There is no word. -/
lemma Layout.scanStr_nil (h : Layout [] s) : CString.scanStr s = (none, []) := by
  cases h with
  | nil h => simp [CString.scanStr, List.dropWhile_eq_nil_iff.2 h]

/-- **`%s` reads the first word.** -/
theorem Layout.scanStr (h : Layout (w :: ws) s) (hw : All (!isSpace ·) w) (hne : w ≠ []) :
    ∃ s', CString.scanStr s = (some w, s') ∧ Layout ws s' := by
  cases h with
  | @cons _ b s _ hb hsep hs =>
    refine ⟨s, ?_, hs⟩
    simp only [CString.scanStr]
    rw [Layout.dropWhile hb hw hne, if_neg (by simp [hne]), takeWhile_append hw hsep,
      dropWhile_append hw hsep]

/-- Digits are not white space. -/
lemma not_isSpace_of_isDigit {c : Byte} (h : isDigit c = true) : (!isSpace c) = true := by
  revert h
  revert c
  decide +kernel

/-- A text that begins with a digit has no sign. -/
lemma scanSign_of_isDigit {c : Byte} (h : isDigit c = true) :
    scanSign (c :: s) = (false, c :: s) := by
  unfold scanSign
  split
  · next heq =>
    rw [(List.cons.inj heq).1] at h
    exact absurd h (by decide)
  · next heq =>
    rw [(List.cons.inj heq).1] at h
    exact absurd h (by decide)
  · rfl

/-- A numeral is read as its number. -/
lemma Layout.scanNumber (h : Layout (numeral n :: ws) s) :
    ∃ s', CString.scanNumber s = (some (false, n), s') ∧ Layout ws s' ∧
      Stops (!isSpace ·) s' := by
  have hdigit := all_numeral n
  have hne := numeral_ne_nil n
  cases h with
  | @cons _ b s _ hb hsep hs =>
    refine ⟨s, ?_, hs, hsep⟩
    have hstops : Stops isDigit s := by
      refine hsep.mono fun c hc => ?_
      by_contra hd
      rw [not_isSpace_of_isDigit (by simpa using hd)] at hc
      cases hc
    have hsign : scanSign (numeral n ++ s) = (false, numeral n ++ s) := by
      obtain ⟨c, ds, hcons⟩ := List.exists_cons_of_ne_nil hne
      rw [hcons] at hdigit ⊢
      exact scanSign_of_isDigit (all_cons.1 hdigit).1
    simp only [CString.scanNumber]
    rw [Layout.dropWhile hb (hdigit.mono fun _ => not_isSpace_of_isDigit) hne, hsign]
    dsimp only
    rw [takeWhile_append hdigit hstops, if_neg hne, decimal_numeral,
      dropWhile_append hdigit hstops]

/-- **`%d` reads a numeral.** -/
theorem Layout.scanInt (h : Layout (numeral n :: ws) s) (hn : n < 2 ^ 31) :
    ∃ s', CString.scanInt s = (some (n : ℤ), s') ∧ Layout ws s' := by
  obtain ⟨s', hs', hlayout, -⟩ := h.scanNumber
  refine ⟨s', ?_, hlayout⟩
  have hmin : min (n : ℤ) (2 ^ 63 - 1) = n := by omega
  have hmod : (n : ℤ).bmod (2 ^ 32) = n := Int.bmod_eq_of_le (by omega) (by omega)
  simp only [CString.scanInt, hs', Option.map_some, Bool.false_eq_true, if_false, hmin, hmod]

/-- **`%u` reads a numeral.** -/
theorem Layout.scanUnsigned (h : Layout (numeral n :: ws) s) (hn : n < 2 ^ 32) :
    ∃ s', CString.scanUnsigned s = (some n, s') ∧ Layout ws s' ∧ Stops (!isSpace ·) s' := by
  obtain ⟨s', hs', hlayout⟩ := h.scanNumber
  refine ⟨s', ?_, hlayout⟩
  have hsmall : ¬ 2 ^ 64 ≤ n := by omega
  simp only [CString.scanUnsigned, hs', Option.map_some, if_neg hsmall, Bool.false_eq_true,
    if_false, Nat.mod_eq_of_lt hn]

/-- A text is at least as long as the number of its words. -/
lemma Layout.length_le (h : Layout ws s) (hne : ∀ w ∈ ws, w ≠ []) : ws.length ≤ s.length := by
  induction h with
  | nil => exact Nat.zero_le _
  | @cons w b s ws hb hsep hs ih =>
    have hw := List.length_pos_of_ne_nil (hne w List.mem_cons_self)
    have hws := ih fun w hw => hne w (List.mem_cons_of_mem _ hw)
    simp only [List.length_append, List.length_cons]
    omega

/-- Words with one character of white space behind each. -/
lemma layout_of_separator {c : Byte} (hc : isSpace c = true) (ws : List (List Byte)) :
    Layout ws (ws.map (· ++ [c])).flatten := by
  -- the separator of a word is read as white space in front of the next one
  suffices h : Layout ws (c :: (ws.map (· ++ [c])).flatten) ∧
      Layout ws (ws.map (· ++ [c])).flatten from h.2
  induction ws with
  | nil => exact ⟨.nil (all_cons.2 ⟨hc, all_nil⟩), .nil all_nil⟩
  | cons w ws ih =>
    have hsep : Stops (!isSpace ·) (c :: (ws.map (· ++ [c])).flatten) :=
      stops_cons.2 (by rw [hc]; rfl)
    rw [List.map_cons, List.flatten_cons, List.append_assoc, List.singleton_append]
    exact ⟨.cons (b := [c]) (all_cons.2 ⟨hc, all_nil⟩) hsep ih.1,
      .cons (b := []) all_nil hsep ih.1⟩

end CString
