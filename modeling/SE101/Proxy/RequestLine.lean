import SE101.Proxy.Doit

set_option relaxedAutoImplicit false
set_option autoImplicit false

/-!
# The check for a complete request line

`doit` looks at the last two characters of the string that the first line leaves in the buffer. It
drops the request only if neither of them is what it should be, and the two are looked up from the
end of the string, which a `NUL` makes shorter than the line.

## Main definitions

* `Proxy.checkIndices` — the indices of the buffer that are read.
* `Proxy.CheckLaw` — the check stays inside of the buffer and passes only lines that are complete.
* `Proxy.Checked` — the lines for which it does.

## Main results

* `Proxy.checkLaw_iff` — the lines that are checked as they should be.
* `Proxy.not_checkLaw` — a line without a carriage return that passes, and one for which the check
  reads before the buffer.
-/

namespace Proxy

open LittleEndian CString

/-- The indices of `buf` that the check reads: those that `strlen` looks at, that of the last
character, and if this is no newline, that of the one before. -/
def checkIndices (below : ℕ → Byte) (s : List Byte) : List ℤ :=
  (List.range (s.length + 1)).map Int.ofNat ++ (s.length - 1 : ℤ) ::
    if charAt below s (s.length - 1) ≠ 10#8 then [(s.length - 2 : ℤ)] else []

/-- The check of a line reads only the buffer, and the line ends as it should if it passes. -/
structure CheckLaw (below : ℕ → Byte) (line : List Byte) : Prop where
  indices : ∀ i ∈ checkIndices below (cstr line), 0 ≤ i ∧ i < MAXLINE
  complete : incomplete below (cstr line) = false → crlf <:+ line

/-- The string has at least two characters. The line ends with `"\r\n"`, or the string ends with two
characters of which neither is the one that it should be. -/
def Checked (line : List Byte) : Prop :=
  ∃ t b c, cstr line = t ++ [b, c] ∧ (crlf <:+ line ∨ b ≠ 13#8 ∧ c ≠ 10#8)

variable {below : ℕ → Byte} {line t : List Byte} {b c : Byte}

/-! ## The last characters -/

/-- The last character. -/
lemma charAt_last (below : ℕ → Byte) (t : List Byte) (b c : Byte) :
    charAt below (t ++ [b, c]) ((t ++ [b, c]).length - 1) = c := by
  have hlen : (t ++ [b, c]).length = t.length + 2 := List.length_append
  have hi : (((t ++ [b, c]).length : ℤ) - 1).toNat = t.length + 1 := by omega
  rw [charAt, if_pos (by omega), hi]
  simp [List.getD]

/-- The last character but one. -/
lemma charAt_before (below : ℕ → Byte) (t : List Byte) (b c : Byte) :
    charAt below (t ++ [b, c]) ((t ++ [b, c]).length - 2) = b := by
  have hlen : (t ++ [b, c]).length = t.length + 2 := List.length_append
  have hi : (((t ++ [b, c]).length : ℤ) - 2).toNat = t.length := by omega
  rw [charAt, if_pos (by omega), hi]
  simp [List.getD]

/-- The check of a string of at least two characters. -/
lemma incomplete_append (below : ℕ → Byte) (t : List Byte) (b c : Byte) :
    incomplete below (t ++ [b, c]) = (c ≠ 10#8 && b ≠ 13#8) := by
  rw [incomplete, charAt_last, charAt_before]

/-- A list is short, or has two last elements. -/
lemma length_le_or_exists (s : List Byte) :
    s = [] ∨ (∃ c, s = [c]) ∨ ∃ t b c, s = t ++ [b, c] := by
  obtain rfl | ⟨s', c, rfl⟩ := List.eq_nil_or_concat' s
  · exact Or.inl rfl
  · obtain rfl | ⟨t, b, rfl⟩ := List.eq_nil_or_concat' s'
    · exact Or.inr (Or.inl ⟨c, rfl⟩)
    · exact Or.inr (Or.inr ⟨t, b, c, List.append_assoc t [b] [c]⟩)

/-- The string is not longer than the line. -/
lemma length_cstr_le (line : List Byte) : (cstr line).length ≤ line.length :=
  (List.takeWhile_prefix _).length_le

/-! ## Lines -/

/-- The check reads only the buffer if the string has two characters. -/
lemma indices_of_append (hs : cstr line = t ++ [b, c]) (hlen : line.length < MAXLINE) :
    ∀ i ∈ checkIndices below (cstr line), 0 ≤ i ∧ i < MAXLINE := by
  have hle := length_cstr_le line
  have htwo : (cstr line).length = t.length + 2 := by
    rw [hs]
    exact List.length_append
  intro i hi
  obtain hi | hi := List.mem_append.1 hi
  · obtain ⟨j, hj, rfl⟩ := List.mem_map.1 hi
    have hj' := List.mem_range.1 hj
    rw [Int.ofNat_eq_natCast]
    omega
  · obtain rfl | hi := List.mem_cons.1 hi
    · omega
    · split_ifs at hi
      · obtain rfl := List.mem_singleton.1 hi
        omega
      · cases hi

/-- A line whose string is a newline is a newline. -/
lemma eq_newline {bs : List Byte} {k : ℕ} (hline : line = Lines.line 10#8 k bs)
    (hs : cstr line = [10#8]) : line = [10#8] := by
  have hsplit : line = [] ++ 10#8 :: line.drop 1 := by
    have happ : cstr line ++ line.drop (cstr line).length = line :=
      List.prefix_iff_eq_append.1 (List.takeWhile_prefix _)
    rw [hs] at happ
    exact happ.symm
  rw [hline] at hsplit
  have hnil := Lines.eq_nil_of_line_eq hsplit
  rw [← hline] at hsplit hnil
  rw [hsplit, hnil]
  rfl

/-- A string of one character is not checked as it should be. -/
lemma not_checkLaw_singleton {bs : List Byte} {k : ℕ} (hline : line = Lines.line 10#8 k bs)
    (hs : cstr line = [c]) : ¬ CheckLaw below line := by
  intro h
  by_cases hc : c = 10#8
  · subst hc
    have hnewline := eq_newline hline hs
    have hpass : incomplete below (cstr line) = false := by
      rw [hs]
      rfl
    have hle := (h.complete hpass).length_le
    rw [hnewline] at hle
    exact absurd hle (by decide)
  · have hbefore : (-1 : ℤ) ∈ checkIndices below (cstr line) := by
      rw [hs, checkIndices]
      refine List.mem_append_right _ (List.mem_cons_of_mem _ ?_)
      have hlast : charAt below [c] (([c] : List Byte).length - 1) = c := rfl
      rw [if_pos (by rw [hlast]; exact hc)]
      exact List.mem_singleton.2 rfl
    exact absurd (h.indices _ hbefore).1 (by decide)

/-- An empty string is not checked as it should be. -/
lemma not_checkLaw_nil (hs : cstr line = []) : ¬ CheckLaw below line := by
  intro h
  have hbefore : (-1 : ℤ) ∈ checkIndices below (cstr line) := by
    rw [hs, checkIndices]
    exact List.mem_append_right _ List.mem_cons_self
  exact absurd (h.indices _ hbefore).1 (by decide)

/-- **The check.** Of the lines that `rio_readlineb` delivers, those that are checked as they should
be.

**Proof sketch.** The string in the buffer is empty, one character, or ends with two characters.
In the first two cases the check reads before the buffer, unless the character is a newline, which
passes. Otherwise it reads only the buffer, and what passes depends on the last two characters. -/
theorem checkLaw_iff {input : List Rio} (h : (readlineb (MAXLINE - 1) input).1 = some line) :
    CheckLaw below line ↔ Checked line := by
  obtain ⟨bs, hline⟩ := exists_line h
  have hlen : line.length < MAXLINE := by
    have hle : line.length ≤ MAXLINE - 1 := hline ▸ Lines.length_line_le
    have hmax : MAXLINE = 8192 := rfl
    omega
  obtain hs | ⟨c, hs⟩ | ⟨t, b, c, hs⟩ := length_le_or_exists (cstr line)
  · refine iff_of_false (not_checkLaw_nil hs) ?_
    rintro ⟨t, b, c, hs', -⟩
    rw [hs] at hs'
    simp at hs'
  · refine iff_of_false (not_checkLaw_singleton hline hs) ?_
    rintro ⟨t, b, c', hs', -⟩
    have hlength := congrArg List.length (hs.symm.trans hs')
    simp at hlength
  · constructor
    · intro hlaw
      refine ⟨t, b, c, hs, ?_⟩
      by_cases hpass : incomplete below (cstr line) = false
      · exact Or.inl (hlaw.complete hpass)
      · rw [hs, incomplete_append] at hpass
        simp only [Bool.not_eq_false, Bool.and_eq_true, decide_eq_true_eq] at hpass
        exact Or.inr hpass.symm
    · rintro ⟨t', b', c', hs', hend⟩
      refine ⟨indices_of_append hs hlen, fun hpass => ?_⟩
      refine hend.resolve_right fun hne => ?_
      rw [hs', incomplete_append] at hpass
      simp [hne] at hpass

/-- A line that is checked as it should be. -/
theorem checkLaw_iff_get :
    CheckLaw (fun _ => 0) (ascii "GET\r\n") ↔ Checked (ascii "GET\r\n") := by
  have h : (readlineb (MAXLINE - 1) (stream (ascii "GET\r\nHost"))).1 =
      some (ascii "GET\r\n") := by decide +kernel
  exact checkLaw_iff h

/-- A client whose lines end without a carriage return, and a server that can be reached. -/
def newlineNet : Net where
  conn
    | .client => ⟨stream (ascii "GET http://a/ HTTP/1.1\n\n"), [], []⟩
    | .server => ⟨[], [], []⟩
  openClientfd _ _ := 5
  below _ := 0
  calls := []

/-- The first line of that client lets the proxy connect to the server. For a line that begins with
a `NUL`, the check reads before the buffer. -/
theorem not_checkLaw :
    (∃ line, (readlineb (MAXLINE - 1) (newlineNet.conn .client).input).1 = some line ∧
      ¬ CheckLaw newlineNet.below line ∧ ¬ crlf <:+ line ∧
      .openClientfd ∈ (doit newlineNet).net.calls) ∧
    ∃ input line, (readlineb (MAXLINE - 1) input).1 = some line ∧ line ≠ [] ∧
      ∀ below, -1 ∈ checkIndices below (cstr line) ∧ ¬ CheckLaw below line := by
  constructor
  · have hend : ¬ crlf <:+ ascii "GET http://a/ HTTP/1.1\n" := by decide
    refine ⟨ascii "GET http://a/ HTTP/1.1\n", by decide +kernel, fun h => ?_, hend,
      by decide +kernel⟩
    exact hend (h.complete (by decide))
  · refine ⟨[.byte 0, .byte 10], [0, 10], by decide +kernel, by decide, fun below => ?_⟩
    have hnil : cstr [0, 10] = [] := by decide
    refine ⟨?_, not_checkLaw_nil hnil⟩
    rw [hnil, checkIndices]
    exact List.mem_append_right _ List.mem_cons_self

end Proxy
