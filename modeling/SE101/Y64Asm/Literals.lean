import SE101.Y64Asm.Tokens

set_option relaxedAutoImplicit false
set_option autoImplicit false

/-!
# What the assembler reads as a number

`parse_digit`, `parse_imm` and `parse_data` test one character and then trust `strtoul`. They look
neither at whether it has converted anything nor at whether the number was too large.

## Main definitions

* `Y64.Asm.Longest` — the longest literal that a text begins with.
* `Y64.Asm.Reads` — a number is read off a text as it should be.
* `Y64.Asm.Readable` — the text begins with a number that `strtoul` can represent.

## Main results

* `Y64.Asm.strtoul_longest` — `strtoul` reads the longest literal.
* `Y64.Asm.parse_reads_iff` — when the three functions read numbers as they should.
* `Y64.Asm.not_parse_reads` — a sign without a number.
-/

namespace Y64.Asm

open Scan

/-- The text begins with `l`, and with no literal that is longer. -/
def Longest (t l : Chars) : Prop :=
  l <+: t ∧ ∀ l' v', l' <+: t → Literal l' v' → l'.length ≤ l.length

/-- The number and the rest of the text are those of the longest literal that the text begins with,
and the magnitude of the literal fits 64 bits. -/
def Reads (t : Chars) (value : Long) (rest : Chars) : Prop :=
  ∃ l v, Literal l v ∧ Longest t l ∧ t = l ++ rest ∧ v.natAbs < 2 ^ 64 ∧ value = BitVec.ofInt 64 v

/-- A digit comes first, or behind a sign, and the literal is not too large. -/
def Readable (t : Chars) : Prop :=
  (strtoulSign t).2.head?.any (isDigitOf 10) = true ∧
  ∀ l v, Literal l v → Longest t l → v.natAbs < 2 ^ 64

variable {s t l rest : Chars} {v : ℤ} {n : ℕ} {p : Char → Bool}

/-! ## The longest literal -/

/-- A run at the beginning of a text is part of the longest one. -/
lemma length_le_takeWhile (hall : All p l) (h : l <+: s) : l.length ≤ (s.takeWhile p).length := by
  obtain ⟨r, rfl⟩ := h
  rw [List.takeWhile_append_of_pos (by exact hall), List.length_append]
  exact Nat.le_add_right _ _

/-- The longest literal without a sign. -/
def LongestUnsigned (t l : Chars) : Prop :=
  l <+: t ∧ ∀ l' n', l' <+: t → Unsigned l' n' → l'.length ≤ l.length

/-- The scan of a text that begins with a digit finds the longest literal without a sign. -/
lemma scan_longest (h : s.head?.any (isDigitOf 10) = true) :
    ∃ l n, Unsigned l n ∧ LongestUnsigned s l ∧
      s = l ++ (strtoulBase s).2.dropWhile (isDigitOf (strtoulBase s).1) ∧
      (strtoulBase s).2.takeWhile (isDigitOf (strtoulBase s).1) ≠ [] ∧
      digitsVal (strtoulBase s).1
        ((strtoulBase s).2.takeWhile (isDigitOf (strtoulBase s).1)) = n := by
  obtain _ | ⟨d, s⟩ := s
  · cases h
  have hd : isDigitOf 10 d = true := by simpa using h
  by_cases h0 : d = '0'
  · subst h0
    cases hhex : isHexRest s with
    | true =>
      obtain ⟨x, c, s, rfl⟩ : ∃ x c s', s = x :: c :: s' := by
        unfold isHexRest at hhex
        split at hhex
        · exact ⟨_, _, _, rfl⟩
        · cases hhex
      obtain ⟨hx, hc⟩ : (x = 'x' ∨ x = 'X') ∧ isDigitOf 16 c = true := by
        simpa [isHexRest] using hhex
      have hbase : strtoulBase ('0' :: x :: c :: s) = (16, c :: s) := by simp [strtoulBase, hhex]
      rw [hbase]
      have hne : (c :: s).takeWhile (isDigitOf 16) ≠ [] := by
        simp [List.takeWhile_cons_of_pos hc]
      refine ⟨'0' :: x :: (c :: s).takeWhile (isDigitOf 16), _,
        .hex hx hne fun c hc => List.mem_takeWhile_imp hc, ⟨?_, ?_⟩, ?_, hne, rfl⟩
      · simp only [List.cons_prefix_cons, true_and]
        exact List.takeWhile_prefix _
      · intro l' n' hpre hl'
        cases hl' with
        | dec hd' _ => exact absurd (List.cons_prefix_cons.1 hpre).1 hd'
        | @oct ds hds =>
          -- An octal literal ends before the `x`.
          cases ds with
          | nil => simp
          | cons d ds =>
            obtain ⟨rfl, -⟩ := List.cons_prefix_cons.1 (List.cons_prefix_cons.1 hpre).2
            obtain rfl | rfl := hx <;> exact absurd (all_cons.1 hds).1 (by decide)
        | hex _ _ hds =>
          have hpre' := (List.cons_prefix_cons.1 (List.cons_prefix_cons.1 hpre).2).2
          simpa using length_le_takeWhile hds hpre'
      · rw [List.cons_append, List.cons_append, List.takeWhile_append_dropWhile]
    | false =>
      have hbase : strtoulBase ('0' :: s) = (8, '0' :: s) := by simp [strtoulBase, hhex]
      have h8 : isDigitOf 8 '0' = true := by decide
      rw [hbase]
      simp only [List.takeWhile_cons_of_pos h8, List.dropWhile_cons_of_pos h8]
      refine ⟨'0' :: s.takeWhile (isDigitOf 8), _, .oct fun c hc => List.mem_takeWhile_imp hc,
        ⟨?_, ?_⟩, ?_, by simp, rfl⟩
      · exact List.cons_prefix_cons.2 ⟨rfl, List.takeWhile_prefix _⟩
      · intro l' n' hpre hl'
        cases hl' with
        | dec hd' _ => exact absurd (List.cons_prefix_cons.1 hpre).1 hd'
        | oct hds =>
          simpa using length_le_takeWhile hds (List.cons_prefix_cons.1 hpre).2
        | @hex x ds hx hne hds =>
          exfalso
          obtain ⟨d, ds, rfl⟩ := List.exists_cons_of_ne_nil hne
          obtain ⟨r, rfl⟩ := (List.cons_prefix_cons.1 hpre).2
          have hrest : isHexRest (x :: d :: ds ++ r) = true := by
            obtain rfl | rfl := hx <;> simp [isHexRest, (all_cons.1 hds).1]
          rw [hrest] at hhex
          cases hhex
      · rw [List.cons_append, List.takeWhile_append_dropWhile]
  · have hbase : strtoulBase (d :: s) = (10, d :: s) := by
      unfold strtoulBase
      split
      · next heq => exact absurd (List.cons.inj heq).1 h0
      · rfl
    rw [hbase]
    simp only [List.takeWhile_cons_of_pos hd, List.dropWhile_cons_of_pos hd]
    refine ⟨d :: s.takeWhile (isDigitOf 10), _, .dec h0 (all_cons.2 ⟨hd, fun c hc =>
      List.mem_takeWhile_imp hc⟩), ⟨?_, ?_⟩, ?_, by simp, rfl⟩
    · exact List.cons_prefix_cons.2 ⟨rfl, List.takeWhile_prefix _⟩
    · intro l' n' hpre hl'
      cases hl' with
      | dec _ hds =>
        simpa using length_le_takeWhile (all_cons.1 hds).2 (List.cons_prefix_cons.1 hpre).2
      | oct => exact absurd (List.cons_prefix_cons.1 hpre).1.symm h0
      | hex => exact absurd (List.cons_prefix_cons.1 hpre).1.symm h0
    · rw [List.cons_append, List.takeWhile_append_dropWhile]

/-- The sign of a text. -/
lemma strtoulSign_cases (t : Chars) :
    (∃ s, t = '-' :: s ∧ strtoulSign t = (true, s)) ∨
    (∃ s, t = '+' :: s ∧ strtoulSign t = (false, s)) ∨
    strtoulSign t = (false, t) ∧ ∀ c s, t = c :: s → c ≠ '-' ∧ c ≠ '+' := by
  unfold strtoulSign
  split
  · next s => exact .inl ⟨s, rfl, rfl⟩
  · next s => exact .inr (.inl ⟨s, rfl, rfl⟩)
  · next hminus hplus =>
    refine .inr (.inr ⟨rfl, ?_⟩)
    rintro c s rfl
    exact ⟨fun h => hminus s (by rw [h]), fun h => hplus s (by rw [h])⟩

/-- The first character of a literal without a sign is a decimal digit. -/
lemma unsigned_isDigitOf (h : Unsigned l n) : ∃ c u, l = c :: u ∧ isDigitOf 10 c = true := by
  obtain ⟨c, u, rfl, hc, hc'⟩ := unsigned_head h
  exact ⟨c, u, rfl, (isDigitOf_iff 10 c).2 (by omega)⟩

/-- A literal has a digit first, or behind its sign. -/
lemma literal_sign (h : Literal l v) (hpre : l <+: t) :
    (strtoulSign t).2.head?.any (isDigitOf 10) = true := by
  obtain ⟨r, rfl⟩ := hpre
  cases h with
  | plain h =>
    rw [strtoulSign_unsigned h]
    obtain ⟨c, u, rfl, hc⟩ := unsigned_isDigitOf h
    simpa using hc
  | plus h =>
    obtain ⟨c, u, rfl, hc⟩ := unsigned_isDigitOf h
    simpa [strtoulSign] using hc
  | minus h =>
    obtain ⟨c, u, rfl, hc⟩ := unsigned_isDigitOf h
    simpa [strtoulSign] using hc

/-- No sign is the first character of a literal without a sign. -/
lemma not_unsigned_of_sign {c : Char} (hc : c = '-' ∨ c = '+') (hpre : l <+: c :: s)
    (h : Unsigned l n) : False := by
  obtain ⟨d, u, rfl, hd⟩ := unsigned_isDigitOf h
  obtain ⟨rfl, -⟩ := List.cons_prefix_cons.1 hpre
  obtain rfl | rfl := hc <;> exact absurd hd (by decide)

/-- What `strtoul` returns of a literal. -/
lemma strtoul_eq {neg : Bool} (hspace : Stops isSpace t) (hsign : strtoulSign t = (neg, s))
    (hne : (strtoulBase s).2.takeWhile (isDigitOf (strtoulBase s).1) ≠ [])
    (hval : digitsVal (strtoulBase s).1
      ((strtoulBase s).2.takeWhile (isDigitOf (strtoulBase s).1)) = n) :
    strtoul t = (if n < 2 ^ 64 then
        if neg then -BitVec.ofNat 64 n else BitVec.ofNat 64 n
      else ulongMax, (strtoulBase s).2.dropWhile (isDigitOf (strtoulBase s).1)) := by
  simp only [strtoul, dropWhile_of_stops hspace, hsign, if_neg hne, hval]
  split_ifs <;> rfl

/-- Text that begins with a digit or a sign does not begin with white space. -/
lemma stops_isSpace_of_isDigit (h : t.head?.any isDigit = true) : Stops isSpace t := by
  intro c hc
  have hdigit : isDigit c = true := by
    rw [Option.mem_def] at hc
    simpa [hc] using h
  rw [Bool.eq_false_iff, Ne, isSpace_iff]
  rw [isDigit_iff] at hdigit
  omega

/-- **`strtoul` reads the longest literal** of a text that begins with one. -/
lemma strtoul_longest (hspace : Stops isSpace t)
    (h : (strtoulSign t).2.head?.any (isDigitOf 10) = true) :
    ∃ l v, Literal l v ∧ Longest t l ∧ t = l ++ (strtoul t).2 ∧
      (strtoul t).1 = if v.natAbs < 2 ^ 64 then BitVec.ofInt 64 v else ulongMax := by
  obtain ⟨s, rfl, hsign⟩ | ⟨s, rfl, hsign⟩ | ⟨hsign, hhead⟩ := strtoulSign_cases t
  · rw [hsign] at h
    obtain ⟨l, n, hl, ⟨hpre, hlong⟩, hs, hne, hval⟩ := scan_longest h
    rw [strtoul_eq hspace hsign hne hval]
    refine ⟨'-' :: l, -n, .minus hl, ⟨List.cons_prefix_cons.2 ⟨rfl, hpre⟩, ?_⟩, ?_, ?_⟩
    · intro l' v' hpre' hl'
      cases hl' with
      | plain hl' => exact (not_unsigned_of_sign (.inl rfl) hpre' hl').elim
      | plus => exact absurd (List.cons_prefix_cons.1 hpre').1 (by decide)
      | minus hl' =>
        simpa using hlong _ _ (List.cons_prefix_cons.1 hpre').2 hl'
    · rw [List.cons_append, ← hs]
    · simp [BitVec.ofInt_neg]
  · rw [hsign] at h
    obtain ⟨l, n, hl, ⟨hpre, hlong⟩, hs, hne, hval⟩ := scan_longest h
    rw [strtoul_eq hspace hsign hne hval]
    refine ⟨'+' :: l, n, .plus hl, ⟨List.cons_prefix_cons.2 ⟨rfl, hpre⟩, ?_⟩, ?_, ?_⟩
    · intro l' v' hpre' hl'
      cases hl' with
      | plain hl' => exact (not_unsigned_of_sign (.inr rfl) hpre' hl').elim
      | minus => exact absurd (List.cons_prefix_cons.1 hpre').1 (by decide)
      | plus hl' =>
        simpa using hlong _ _ (List.cons_prefix_cons.1 hpre').2 hl'
    · rw [List.cons_append, ← hs]
    · simp
  · rw [hsign] at h
    obtain ⟨l, n, hl, ⟨hpre, hlong⟩, hs, hne, hval⟩ := scan_longest h
    rw [strtoul_eq hspace hsign hne hval]
    refine ⟨l, n, .plain hl, ⟨hpre, ?_⟩, hs, ?_⟩
    · intro l' v' hpre' hl'
      cases hl' with
      | plain hl' => exact hlong _ _ hpre' hl'
      | plus =>
        obtain ⟨r, rfl⟩ := hpre'
        exact absurd rfl (hhead _ _ rfl).2
      | minus =>
        obtain ⟨r, rfl⟩ := hpre'
        exact absurd rfl (hhead _ _ rfl).1
    · simp

/-- `strtoul` reads nothing of a sign without a number. -/
lemma strtoul_none (h : (strtoulSign t).2.head?.any (isDigitOf 10) ≠ true)
    (hspace : Stops isSpace t) : strtoul t = (0, t) := by
  obtain ⟨neg, s, hsign⟩ : ∃ neg s, strtoulSign t = (neg, s) := ⟨_, _, rfl⟩
  rw [hsign] at h
  have hbase : strtoulBase s = (10, s) := by
    unfold strtoulBase
    split
    · exact absurd rfl h
    · rfl
  have htake : s.takeWhile (isDigitOf 10) = [] := by
    cases s with
    | nil => rfl
    | cons c s => exact List.takeWhile_cons_of_neg (by simpa using h)
  simp only [strtoul, dropWhile_of_stops hspace, hsign, hbase, htake, if_true]

/-- A literal without a sign has one value. -/
lemma unsigned_unique {n' : ℕ} (h : Unsigned l n) (h' : Unsigned l n') : n = n' := by
  cases h with
  | dec hd _ =>
    cases h' with
    | dec => rfl
    | oct => exact absurd rfl hd
    | hex => exact absurd rfl hd
  | oct hds =>
    cases h' with
    | dec hd _ => exact absurd rfl hd
    | oct => rfl
    | hex hx => obtain rfl | rfl := hx <;> exact absurd (all_cons.1 hds).1 (by decide)
  | hex hx _ _ =>
    cases h' with
    | dec hd _ => exact absurd rfl hd
    | oct hds => obtain rfl | rfl := hx <;> exact absurd (all_cons.1 hds).1 (by decide)
    | hex => rfl

/-- A literal has one value. -/
lemma literal_unique {v' : ℤ} (h : Literal l v) (h' : Literal l v') : v = v' := by
  have hsign {c : Char} {l : Chars} {n : ℕ} (hc : c = '-' ∨ c = '+') : ¬ Unsigned (c :: l) n :=
    fun h => not_unsigned_of_sign hc (List.prefix_refl _) h
  cases h with
  | plain h =>
    cases h' with
    | plain h' => rw [unsigned_unique h h']
    | plus => exact absurd h (hsign (.inr rfl))
    | minus => exact absurd h (hsign (.inl rfl))
  | plus h =>
    cases h' with
    | plain h' => exact absurd h' (hsign (.inr rfl))
    | plus h' => rw [unsigned_unique h h']
  | minus h =>
    cases h' with
    | plain h' => exact absurd h' (hsign (.inl rfl))
    | minus h' => rw [unsigned_unique h h']

/-- There is one longest literal. -/
lemma longest_unique {l' : Chars} {v' : ℤ} (hl : Literal l v) (h : Longest t l)
    (hl' : Literal l' v') (h' : Longest t l') : l = l' ∧ v = v' := by
  have hlen : l.length = l'.length := le_antisymm (h'.2 l v h.1 hl) (h.2 l' v' h'.1 hl')
  obtain rfl : l = l' := (List.prefix_of_prefix_length_le h.1 h'.1 hlen.le).eq_of_length hlen
  exact ⟨rfl, literal_unique hl hl'⟩

/-- **When `strtoul` reads a number as it should.** -/
lemma strtoul_reads_iff (hspace : Stops isSpace t) :
    Reads t (strtoul t).1 (strtoul t).2 ↔ Readable t := by
  constructor
  · rintro ⟨l, v, hl, hlong, ht, hv, -⟩
    refine ⟨literal_sign hl hlong.1, fun l' v' hl' hlong' => ?_⟩
    rwa [← (longest_unique hl hlong hl' hlong').2]
  · rintro ⟨hsign, hsmall⟩
    obtain ⟨l, v, hl, hlong, ht, hval⟩ := strtoul_longest hspace hsign
    have hv := hsmall l v hl hlong
    rw [if_pos hv] at hval
    exact ⟨l, v, hl, hlong, ht, hv, hval⟩

/-! ## The three functions -/

/-- The text at which `parse_imm` reads a number. -/
def immCursor (s : Chars) : Option Chars :=
  match skipBlank s with
  | '$' :: t => some t
  | _ => none

/-- What the three functions share: the test of one character and `strtoul`. -/
lemma reads_iff {α : Type} {r : Option α} {f : Long → Chars → α}
    (hinj : ∀ a b c d, f a b = f c d → a = c ∧ b = d)
    (hdigit : t.head?.any isDigit = true → r = some (f (strtoul t).1 (strtoul t).2))
    (hother : ¬ t.head?.any isDigit = true → ∀ value rest, r ≠ some (f value rest)) :
    (∀ value rest, r = some (f value rest) → Reads t value rest) ↔
      (t.head?.any isDigit = true → Readable t) := by
  by_cases h : t.head?.any isDigit = true
  · rw [← strtoul_reads_iff (stops_isSpace_of_isDigit h), hdigit h]
    constructor
    · exact fun hreads _ => hreads _ _ rfl
    · intro hreads value rest heq
      obtain ⟨rfl, rfl⟩ := hinj _ _ _ _ (Option.some.inj heq)
      exact hreads h
  · exact iff_of_true (fun value rest heq => absurd heq (hother h value rest))
      fun h' => absurd h' h

/-- A symbol is no number. -/
lemma parseSymbol_ne_digit (buf : Buffer) (value : Long) :
    ((parseSymbol buf s).map fun (name, s) => (Value.symbol name, s)) ≠
      some (.digit value, rest) := by
  intro h
  obtain ⟨⟨name, s'⟩, -, heq⟩ := Option.map_eq_some_iff.1 h
  cases heq

/-- **Numbers.** `parse_digit`, `parse_imm` and `parse_data` return `PARSE_DIGIT` only with the
longest literal at the cursor and its exact value if and only if the text at the cursor is
readable, provided that it begins with a digit or a sign. -/
theorem parse_reads_iff (buf : Buffer) (s : Chars) :
    ((∀ value rest, parseDigit s = some (value, rest) → Reads (skipBlank s) value rest) ↔
      ((skipBlank s).head?.any isDigit = true → Readable (skipBlank s))) ∧
    ((∀ value rest, parseImm buf s = some (.digit value, rest) →
        ∃ t ∈ immCursor s, Reads t value rest) ↔
      ∀ t ∈ immCursor s, t.head?.any isDigit = true → Readable t) ∧
    ((∀ value rest, parseData buf s = some (.digit value, rest) →
        Reads (skipBlank s) value rest) ↔
      ((skipBlank s).head?.any isDigit = true → Readable (skipBlank s))) := by
  have hpair (a : Long) (b : Chars) (c : Long) (d : Chars)
      (h : ((a, b) : Long × Chars) = (c, d)) : a = c ∧ b = d := Prod.mk.inj h
  have hvalue (a : Long) (b : Chars) (c : Long) (d : Chars)
      (h : ((.digit a, b) : Value × Chars) = (.digit c, d)) : a = c ∧ b = d := by
    obtain ⟨hv, hb⟩ := Prod.mk.inj h
    exact ⟨Value.digit.inj hv, hb⟩
  refine ⟨?_, ?_, ?_⟩
  · refine reads_iff hpair (fun h => ?_) fun h value rest => ?_
    · rw [parseDigit, if_pos h]
    · rw [parseDigit, if_neg h]
      simp
  · obtain ⟨t, ht⟩ | hnone : (∃ t, skipBlank s = '$' :: t) ∨ ∀ t, skipBlank s ≠ '$' :: t := by
      rw [← not_exists]
      exact em _
    · have hcursor : immCursor s = some t := by simp only [immCursor, ht]
      have himm : parseImm buf s = if t.head?.any isDigit = true then
          some (.digit (strtoul t).1, (strtoul t).2) else none := by simp only [parseImm, ht]
      simp only [hcursor, Option.mem_def, Option.some.injEq, exists_eq_left', forall_eq']
      refine reads_iff hvalue (fun h => ?_) fun h value rest => ?_
      · rw [himm, if_pos h]
      · rw [himm, if_neg h]
        simp
    · have hcursor : immCursor s = none := by
        unfold immCursor
        split
        · next t ht => exact absurd ht (hnone t)
        · rfl
      rw [hcursor]
      refine iff_of_true (fun value rest h => ?_) (by simp)
      exfalso
      unfold parseImm at h
      split at h
      · next t ht => exact hnone t ht
      · split_ifs at h
        exact parseSymbol_ne_digit buf value h
  · refine reads_iff hvalue (fun h => ?_) fun h value rest => ?_
    · rw [parseData, if_pos h]
    · rw [parseData, if_neg h]
      split_ifs
      · exact parseSymbol_ne_digit buf value
      · simp

/-- A sign without a number is read as zero. -/
theorem not_parse_reads : parseDigit ['-', 'x'] = some (0, ['-', 'x']) ∧
    ¬ Reads (skipBlank ['-', 'x']) 0 ['-', 'x'] := by
  refine ⟨by decide, ?_⟩
  rintro ⟨l, v, hl, hlong, -⟩
  exact absurd (literal_sign hl hlong.1) (by decide)

end Y64.Asm
