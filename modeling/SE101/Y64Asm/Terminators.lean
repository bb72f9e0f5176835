import Mathlib.Data.List.Induction
import SE101.Y64Asm.Reading

set_option relaxedAutoImplicit false
set_option autoImplicit false

/-!
# The loop over terminators, by index

The loop of `assemble` that strips terminators lowers an index into `asm_buf` and tests the
character before it, without a test that there is one. Here the memory is a function of the index,
and the loop keeps a record of the indices it touches. It stays inside of the buffer exactly when
the string in the buffer has a character that is no terminator.

## Main definitions

* `Y64.Asm.stripTurns` — the loop.
* `Y64.Asm.StripsIn` — what the loop is meant to do.

## Main results

* `Y64.Asm.stripsIn_iff` — the strings on which it does.
* `Y64.Asm.strip_refines` — the strings that it leaves are those of `strip`.
* `Y64.Asm.not_stripsIn` — an empty line.
-/

namespace Y64.Asm

open Scan

/-! ## The buffer -/

/-- The memory around `asm_buf`, by the index from its start. -/
abbrev Around := ℤ → Char

/-- `fgets` puts a text and a null character at the start of the buffer. -/
def fill (mem : Around) (text : Chars) : Around := fun i =>
  if 0 ≤ i ∧ i < text.length then text.getD i.toNat '\x00'
  else if i = text.length then '\x00' else mem i

/-- The string in the buffer. -/
def asmString (mem : Around) : Chars := cstr ((List.range maxInslen).map fun i : ℕ => mem i)

/-- The loop, `fuel` times at most: the memory and `slen` behind it, and the indices at which it
has read or written. -/
def stripTurns : ℕ → Around → ℤ → Option (Around × ℤ × List ℤ)
  | 0, _, _ => none
  | fuel + 1, mem, slen =>
    if isTerminator (mem (slen - 1)) then
      (stripTurns fuel (Function.update mem (slen - 1) '\x00') (slen - 1)).map
        fun (mem, slen', indices) => (mem, slen', (slen - 1) :: indices)
    else some (mem, slen, [slen - 1])

/-- What the loop is meant to do after `fgets` has returned a text: it ends, it touches the buffer
only, and it leaves the string without its terminators. -/
def StripsIn (mem : Around) (text : Chars) : Prop :=
  ∃ fuel mem' slen indices,
    stripTurns fuel (fill mem text) (asmString (fill mem text)).length =
        some (mem', slen, indices) ∧
      (∀ i ∈ indices, 0 ≤ i ∧ i < maxInslen) ∧
      asmString mem' = (asmString (fill mem text)).rdropWhile isTerminator

/-! ## Strings in memory -/

/-- The memory begins with a text. -/
def Begins (mem : Around) (s : Chars) : Prop := ∀ (i : ℕ) (c : Char), s[i]? = some c → mem i = c

variable {mem mem' : Around} {s t u text input : Chars} {c : Char} {fuel : ℕ} {slen : ℤ}
  {indices : List ℤ}

/-- The beginning of a text. -/
lemma Begins.of_append (h : Begins mem (s ++ t)) : Begins mem s := fun i c hi =>
  h i c (by rw [List.getElem?_append_left (List.getElem?_eq_some_iff.1 hi).1, hi])

/-- The last character of a text. -/
lemma Begins.last (h : Begins mem (s ++ [c])) : mem s.length = c :=
  h s.length c (by simp)

/-- A write behind a text. -/
lemma Begins.update (h : Begins mem s) {j : ℤ} (hj : s.length ≤ j) :
    Begins (Function.update mem j c) s := by
  intro i c' hi
  have hlt := (List.getElem?_eq_some_iff.1 hi).1
  rw [Function.update_of_ne (by omega)]
  exact h i c' hi

/-- `fgets` puts its text at the beginning. -/
lemma begins_fill : Begins (fill mem text) text := by
  intro i c hi
  obtain ⟨hlt, rfl⟩ := List.getElem?_eq_some_iff.1 hi
  rw [fill, if_pos ⟨by omega, by omega⟩, Int.toNat_natCast, List.getD_eq_getElem?_getD, hi]
  rfl

/-- `fgets` puts a null character behind its text. -/
lemma fill_length : fill mem text text.length = '\x00' := by
  rw [fill, if_neg (by omega), if_pos rfl]

/-- A string in the buffer ends with the first null character. -/
lemma asmString_eq (h : Begins mem s) (hlen : s.length < maxInslen) (hnul : '\x00' ∉ s)
    (hend : mem s.length = '\x00') : asmString mem = s := by
  have hbegin : (List.range s.length).map (fun i : ℕ => mem i) = s := by
    refine List.ext_getElem (by simp) fun i h₁ h₂ => ?_
    rw [List.getElem_map, List.getElem_range]
    exact h i _ (List.getElem?_eq_getElem h₂)
  obtain ⟨m, hm⟩ : ∃ m, maxInslen = s.length + (1 + m) := ⟨maxInslen - s.length - 1, by omega⟩
  have hall : All (fun c => decide (c ≠ '\x00')) s := fun c hc =>
    decide_eq_true fun h0 => hnul (h0 ▸ hc)
  rw [asmString, hm, List.range_add, List.map_append, hbegin, List.range_add, List.map_append]
  refine takeWhile_append hall (stops_cons.2 ?_)
  exact decide_eq_false (not_not.2 hend)

/-- The string that `fgets` leaves stands at the beginning, with a null character behind it. -/
lemma begins_cstr (mem : Around) (text : Chars) :
    Begins (fill mem text) (cstr text) ∧ fill mem text (cstr text).length = '\x00' := by
  have hsplit : cstr text ++ text.dropWhile (· ≠ '\x00') = text :=
    List.takeWhile_append_dropWhile
  have hbegins : Begins (fill mem text) (cstr text ++ text.dropWhile (· ≠ '\x00')) := by
    rw [hsplit]
    exact begins_fill
  refine ⟨hbegins.of_append, ?_⟩
  cases hrest : text.dropWhile (· ≠ '\x00') with
  | nil =>
    rw [hrest, List.append_nil] at hsplit
    rw [hsplit]
    exact fill_length
  | cons c u =>
    have hstop := stops_dropWhile (fun c : Char => decide (c ≠ '\x00')) text
    rw [hrest, stops_cons, decide_eq_false_iff_not, not_not] at hstop
    rw [hrest, hstop] at hbegins
    exact hbegins (cstr text).length '\x00' (by simp)

/-- A string has no null character. -/
lemma notMem_cstr : '\x00' ∉ cstr text := fun h => by simpa using List.mem_takeWhile_imp h

/-- The string that `fgets` leaves is shorter than the buffer. -/
lemma length_cstr_lt (hlen : text.length < maxInslen) : (cstr text).length < maxInslen :=
  (List.takeWhile_prefix _).length_le.trans_lt hlen

/-- The string in the buffer after `fgets`. -/
lemma asmString_fill (hlen : text.length < maxInslen) : asmString (fill mem text) = cstr text :=
  asmString_eq (begins_cstr mem text).1 (length_cstr_lt hlen) notMem_cstr (begins_cstr mem text).2

/-! ## The loop -/

/-- The loop on a string whose terminators begin behind a character that is none, be it in the
string or below the buffer.

**Proof sketch.** Induct on the terminators, from the end. Without any the loop stops, since the
character before it is none. Otherwise it overwrites the last one, and the rest of the string is
still in memory. -/
lemma stripTurns_append (hu : All isTerminator u) : ∀ mem : Around,
    isTerminator (mem (t.length - 1)) = false → Begins mem (t ++ u) →
    mem (t ++ u).length = '\x00' →
    ∃ mem' indices, stripTurns (u.length + 1) mem (t ++ u).length =
        some (mem', (t.length : ℤ), indices) ∧
      (∀ i ∈ indices, (t.length : ℤ) - 1 ≤ i ∧ i < (t ++ u).length) ∧ Begins mem' t ∧
      mem' t.length = '\x00' ∧ ∀ i < 0, mem' i = mem i := by
  induction u using List.reverseRecOn with
  | nil =>
    intro mem hstop h hend
    rw [List.append_nil] at h hend ⊢
    refine ⟨mem, [(t.length : ℤ) - 1], ?_, ?_, h, hend, fun _ _ => rfl⟩
    · rw [stripTurns, hstop]
      rfl
    · intro i hi
      obtain rfl := List.mem_singleton.1 hi
      omega
  | append_singleton u d ih =>
    intro mem hstop h hend
    obtain ⟨hu, hd⟩ := all_append.1 hu
    rw [← List.append_assoc] at h hend ⊢
    have hlen : (((t ++ u ++ [d]).length : ℕ) : ℤ) - 1 = (t ++ u).length := by
      rw [List.length_append, List.length_singleton, Nat.cast_add, Nat.cast_one,
        add_sub_cancel_right]
    have hle : (t.length : ℤ) ≤ (t ++ u).length := by
      rw [List.length_append]
      omega
    obtain ⟨mem', indices, hrun, hin, hbegins, hnul, hbelow⟩ := ih hu
      (Function.update mem (t ++ u).length '\x00')
      (by rw [Function.update_of_ne (by omega), hstop]) (h.of_append.update le_rfl)
      (Function.update_self _ _ _)
    refine ⟨mem', (t ++ u).length :: indices, ?_, ?_, hbegins, hnul, ?_⟩
    · have hfuel : (u ++ [d]).length = u.length + 1 := by simp
      rw [hfuel, stripTurns, hlen, h.last, if_pos (all_cons.1 hd).1, hrun]
      rfl
    · intro i hi
      rw [← sub_lt_sub_iff_right 1, hlen]
      obtain rfl | hi := List.mem_cons.1 hi
      · omega
      · have := hin i hi
        omega
    · intro i hi
      rw [hbelow i hi, Function.update_of_ne (by omega)]

/-- The loop on a string of terminators reads below the buffer. -/
lemma stripTurns_all (hs : All isTerminator s) : ∀ (fuel : ℕ) (mem : Around), Begins mem s →
    stripTurns fuel mem s.length = some (mem', slen, indices) → -1 ∈ indices := by
  induction s using List.reverseRecOn generalizing indices with
  | nil =>
    intro fuel mem h hrun
    cases fuel with
    | zero => cases hrun
    | succ fuel =>
      rw [stripTurns] at hrun
      split_ifs at hrun
      · obtain ⟨⟨m, l, is⟩, -, heq⟩ := Option.map_eq_some_iff.1 hrun
        obtain ⟨-, -, rfl⟩ : m = mem' ∧ l = slen ∧ _ = indices := by simpa using heq
        exact .head _
      · obtain ⟨-, -, rfl⟩ : mem = mem' ∧ _ = slen ∧ _ = indices := by simpa using hrun
        exact .head _
  | append_singleton s d ih =>
    intro fuel mem h hrun
    obtain ⟨hs, hd⟩ := all_append.1 hs
    have hlen : (((s ++ [d]).length : ℕ) : ℤ) - 1 = s.length := by
      rw [List.length_append, List.length_singleton, Nat.cast_add, Nat.cast_one,
        add_sub_cancel_right]
    cases fuel with
    | zero => cases hrun
    | succ fuel =>
      rw [stripTurns, hlen, h.last, if_pos (all_cons.1 hd).1] at hrun
      obtain ⟨⟨m, l, is⟩, hrest, heq⟩ := Option.map_eq_some_iff.1 hrun
      obtain ⟨rfl, rfl, rfl⟩ : m = mem' ∧ l = slen ∧ _ = indices := by simpa using heq
      exact List.mem_cons_of_mem _ (ih hs fuel _ (h.of_append.update le_rfl) hrest)

/-! ## Texts that `fgets` returns -/

/-- `fgets` leaves room for the null character. -/
lemma length_fgets (n : ℕ) (input : Chars) : (fgets n input).1.length ≤ n := by
  induction n generalizing input with
  | zero => exact le_rfl
  | succ n ih =>
    cases input with
    | nil => exact Nat.zero_le _
    | cons c input =>
      rw [fgets]
      split_ifs
      · exact Nat.succ_le_succ (Nat.zero_le n)
      · exact Nat.succ_le_succ (ih input)

/-- The loop leaves a part of the string that only terminators follow. -/
lemma stripTurns_fill (hlen : text.length < maxInslen) (hsplit : cstr text = t ++ u)
    (hu : All isTerminator u) (hstop : isTerminator (fill mem text (t.length - 1)) = false) :
    ∃ fuel mem' indices, stripTurns fuel (fill mem text) (asmString (fill mem text)).length =
        some (mem', (t.length : ℤ), indices) ∧
      (∀ i ∈ indices, (t.length : ℤ) - 1 ≤ i ∧ i < maxInslen) ∧ asmString mem' = t ∧
      ∀ i < 0, mem' i = mem i := by
  obtain ⟨hbegins, hend⟩ := begins_cstr mem text
  have hlt := length_cstr_lt hlen
  have hnul : '\x00' ∉ cstr text := notMem_cstr
  rw [asmString_fill hlen]
  rw [hsplit] at hbegins hend hlt hnul ⊢
  obtain ⟨mem', indices, hrun, hin, hbegins', hnul', hbelow⟩ :=
    stripTurns_append hu (fill mem text) hstop hbegins hend
  have hle : t.length ≤ (t ++ u).length := by
    rw [List.length_append]
    omega
  refine ⟨u.length + 1, mem', indices, hrun, fun i hi => ?_, ?_, fun i hi => ?_⟩
  · have := hin i hi
    omega
  · exact asmString_eq hbegins' (by omega) (fun h => hnul (List.mem_append_left _ h)) hnul'
  · rw [hbelow i hi, fill, if_neg (by omega), if_neg (by omega)]

/-- A character of the string is in memory. -/
lemma fill_last (mem : Around) {c : Char} (hsplit : cstr text = t ++ [c] ++ u) :
    fill mem text ((t ++ [c]).length - 1) = c := by
  have hbegins : Begins (fill mem text) (t ++ [c]) :=
    Begins.of_append (t := u) (hsplit ▸ (begins_cstr mem text).1)
  have hlen : (((t ++ [c]).length : ℕ) : ℤ) - 1 = t.length := by
    rw [List.length_append, List.length_singleton, Nat.cast_add, Nat.cast_one,
      add_sub_cancel_right]
  rw [hlen]
  exact hbegins.last

/-- On a string of terminators the loop leaves the buffer. -/
lemma not_stripsIn_of_all (hlen : text.length < maxInslen) (hall : All isTerminator (cstr text)) :
    ¬ StripsIn mem text := by
  rintro ⟨fuel, mem', slen, indices, hrun, hin, -⟩
  rw [asmString_fill hlen] at hrun
  have hbelow := hin _ (stripTurns_all hall fuel _ (begins_cstr _ _).1 hrun)
  exact absurd hbelow.1 (by decide)

/-- **Terminators.** The texts on which the loop does what is meant.

**Proof sketch.** When the string has a character that is no terminator, the loop stops behind the
last such character, and everything it touches lies from there on. Otherwise it goes down to the
start of the buffer, and reads below it. -/
theorem stripsIn_iff (mem : Around) (input : Chars) :
    StripsIn mem (fgets (maxInslen - 1) input).1 ↔
      ∃ c ∈ cstr (fgets (maxInslen - 1) input).1, isTerminator c = false := by
  have hlen : (fgets (maxInslen - 1) input).1.length < maxInslen :=
    Nat.lt_of_le_pred (by decide) (length_fgets _ input)
  obtain hall | ⟨t, c, u, hsplit, hc, hu, hdrop⟩ :=
    last_cases isTerminator (cstr (fgets (maxInslen - 1) input).1)
  · refine iff_of_false (not_stripsIn_of_all hlen hall) ?_
    rintro ⟨c, hmem, hc⟩
    rw [hall c hmem] at hc
    cases hc
  · refine iff_of_true ?_ ⟨c, ?_, hc⟩
    · obtain ⟨fuel, mem', indices, hrun, hin, hleft, -⟩ := stripTurns_fill hlen hsplit hu
        (by rw [fill_last mem hsplit]; exact hc)
      refine ⟨fuel, mem', _, indices, hrun, fun i hi => ?_, ?_⟩
      · have hlast := hin i hi
        rw [List.length_append, List.length_singleton] at hlast
        omega
      · rw [asmString_fill hlen, hdrop, hleft]
    · rw [hsplit]
      simp

/-- `strip` gives the string that the loop leaves, and the loop leaves what is below the buffer as
it was. -/
theorem strip_refines {l : Chars} (hlen : text.length < maxInslen)
    (h : strip (mem (-1)) (cstr text) = .ok l) :
    ∃ fuel mem' slen indices, stripTurns fuel (fill mem text) (asmString (fill mem text)).length =
        some (mem', slen, indices) ∧ asmString mem' = l ∧ ∀ i < 0, mem' i = mem i := by
  rw [strip_eq_ite] at h
  split_ifs at h with hbelow
  obtain rfl := Except.ok.inj h
  obtain hall | ⟨t, c, u, hsplit, hc, hu, hdrop⟩ := last_cases isTerminator (cstr text)
  · have hstop : isTerminator (fill mem text (([] : Chars).length - 1)) = false := by
      have hfill : fill mem text (([] : Chars).length - 1) = mem (-1) := by
        rw [fill, if_neg (by simp), if_neg (by simp)]
        rfl
      rw [hfill]
      by_contra hterm
      exact hbelow ⟨List.all_eq_true.2 hall, (Bool.not_eq_false _).mp hterm⟩
    obtain ⟨fuel, mem', indices, hrun, -, hleft, hsame⟩ :=
      stripTurns_fill hlen (List.nil_append _).symm hall hstop
    refine ⟨fuel, mem', _, indices, hrun, ?_, hsame⟩
    rw [hleft, List.rdropWhile_eq_nil_iff.2 hall]
  · obtain ⟨fuel, mem', indices, hrun, -, hleft, hsame⟩ := stripTurns_fill hlen hsplit hu
      (by rw [fill_last mem hsplit]; exact hc)
    exact ⟨fuel, mem', _, indices, hrun, by rw [hleft, hdrop], hsame⟩

/-- An empty line makes the loop read the byte below the buffer. -/
theorem not_stripsIn : ¬ StripsIn (fun _ => '\x00') (fgets (maxInslen - 1) ['\n']).1 :=
  not_stripsIn_of_all (Nat.lt_of_le_pred (by decide) (length_fgets _ _)) (by decide)

end Y64.Asm
