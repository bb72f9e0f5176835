import SE101.Lib.Quoting
import SE101.Tsh.Command

set_option relaxedAutoImplicit false
set_option autoImplicit false

/-!
# The arguments of a command line

`parseline` splits a line at blanks and quotes. It goes wrong on a quote without a partner, behind
which it drops the line, on a line that does not end with a newline, whose last character it drops,
and on a line with too many tokens, for which it writes behind the end of `argv`.

## Main definitions

* `Tsh.Parsed` — what `parseline` is for.
* `Tsh.Parseable` — the lines on which it does that.

## Main results

* `Tsh.args_eq` — the arguments that the loop finds are the tokens before the first open quote.
* `Tsh.parsed_iff` — the lines that are parsed.
* `Tsh.not_parsed` — a line that is not.
-/

namespace Tsh

open LittleEndian CString Quoting Scan

/-- The newline. -/
abbrev newline : Byte := 10#8

/-- `MAXARGS`: the room in `argv`. -/
abbrev MAXARGS : ℕ := 128

/-! ## What `parseline` is for -/

/-- The text of a line: a newline at its end is none of it. -/
def text (line : List Byte) : List Byte :=
  if line.getLast? = some newline then line.dropLast else line

/-- The last token begins with `&`. -/
def AsksBackground (ts : List (List Byte)) : Prop := ∃ t ∈ ts.getLast?, t.head? = some 38#8

instance (ts : List (List Byte)) : Decidable (AsksBackground ts) :=
  inferInstanceAs (Decidable (∃ t ∈ ts.getLast?, _))

/-- The arguments that the tokens are. -/
def arguments (ts : List (List Byte)) : List (List Byte) :=
  if AsksBackground ts then ts.dropLast else ts

/-- The number of entries of `argv` that `parseline` writes, with the `NULL` behind the last. -/
def entries (line : List Byte) : ℕ := (args (skipBlanks (line.dropLast ++ [blank]))).length + 1

/-- `parseline` stays within `argv`, finds the tokens of the line, and says whether the last one
asks for the background, if there is one. -/
def Parsed (line : List Byte) : Prop :=
  entries line ≤ MAXARGS ∧ ∃ ts, Tokens blank quote (text line) ts ∧
    (parseline line).1 = arguments ts ∧
    (ts ≠ [] → ((parseline line).2 = true ↔ AsksBackground ts))

/-- The last character `c` of a line with the tokens `ts` may be replaced by a blank: it is a
newline or a blank, and no quotation is left open; or it belongs to a token that begins with `&`,
and there is no other one or what is left is such a token, too. -/
def EndsWell (t : List Byte) (c : Byte) (ts : List (List Byte)) : Prop :=
  (c = newline ∨ c = blank) ∧ (∀ w ∈ ts, ¬ Opens quote w) ∨
  c ≠ newline ∧ c ≠ blank ∧ ∃ pre v, ts = pre ++ [v] ∧ v.head? = some 38#8 ∧
    (pre = [] ∨ (∀ w ∈ pre, ¬ Opens quote w) ∧
      ∃ u, u ≠ [] ∧ v = u ++ [c] ∧ Tokens blank quote t (pre ++ [u]))

/-- The line that ends with `c` has fewer than `MAXARGS` tokens and ends well. -/
def Parseable (t : List Byte) (c : Byte) : Prop :=
  ∃ ts, Tokens blank quote (text (t ++ [c])) ts ∧ ts.length < MAXARGS ∧ EndsWell t c ts

variable {t s w buf : List Byte} {c : Byte} {ts pre : List (List Byte)}

/-! ## The loop -/

/-- A delimiter behind a text without it. -/
lemma cutAt_append (hw : c ∉ w) : cutAt c (w ++ c :: s) = some (w, s) := by
  have hall : All (· ≠ c) w := all_ne_of_notMem hw
  have hstop : Stops (· ≠ c) (c :: s) := stops_cons.2 (by simp)
  rw [cutAt, if_pos (by simp), takeWhile_append hall hstop, dropWhile_append hall hstop]
  rfl

/-- One more argument. -/
lemma args_of_some {arg rest : List Byte} (h : nextArg buf = some (arg, rest)) :
    args buf = arg :: args (skipBlanks rest) := by
  rw [args]
  split
  · next arg' rest' h' =>
    cases h.symm.trans h'
    rfl
  · next h' => cases h.symm.trans h'

/-- No more arguments. -/
lemma args_of_none (h : nextArg buf = none) : args buf = [] := by
  rw [args]
  split
  · next arg rest h' => cases h.symm.trans h'
  · rfl

/-- A text that does not begin with a quote is cut at a blank. -/
lemma nextArg_of_ne (hw : w ≠ []) (hq : ¬ Opens quote w) (s : List Byte) :
    nextArg (w ++ s) = cutAt blank (w ++ s) := by
  obtain ⟨d, v, rfl⟩ := List.exists_cons_of_ne_nil hw
  rw [List.cons_append, nextArg]
  rintro buf heq
  cases heq
  exact hq rfl

/-- A text that does not begin with a blank. -/
lemma skipBlanks_append (hw : w ≠ []) (hblank : blank ∉ w) (s : List Byte) :
    skipBlanks (w ++ s) = w ++ s := by
  obtain ⟨d, v, rfl⟩ := List.exists_cons_of_ne_nil hw
  have hd : d ≠ blank := fun h => hblank (h ▸ List.mem_cons_self)
  exact List.dropWhile_cons_of_neg (by simpa using hd)

/-- **The arguments.** The loop finds the tokens before the first one that begins with a quote
without a partner.

**Proof sketch.** Induct on the tokens. The blank that replaces the last character ends the last
run. -/
theorem args_eq (h : Tokens blank quote t ts) :
    args (skipBlanks (t ++ [blank])) = ts.takeWhile fun w => ¬ Opens quote w := by
  induction h with
  | nil => exact args_of_none rfl
  | sep h ih => exact ih
  | @quoted w s ts hw h ih =>
    have hnext : nextArg (quote :: (w ++ quote :: s) ++ [blank]) = some (w, s ++ [blank]) := by
      show cutAt quote (w ++ quote :: s ++ [blank]) = _
      rw [List.append_assoc]
      exact cutAt_append hw
    have hopens : ¬ Opens quote w := fun ho => hw (List.mem_of_mem_head? ho)
    rw [List.takeWhile_cons_of_pos (by simpa using hopens), ← ih]
    exact args_of_some hnext
  | @run w s ts hne hw hs hq h ih =>
    rw [List.append_assoc, skipBlanks_append hne hw]
    by_cases hopens : Opens quote w
    · rw [List.takeWhile_cons_of_neg (by simpa using hopens)]
      obtain ⟨d, v, rfl⟩ := List.exists_cons_of_ne_nil hne
      obtain rfl : d = quote := Option.some.inj hopens
      refine args_of_none ?_
      show cutAt quote (v ++ (s ++ [blank])) = none
      rw [cutAt, if_neg]
      rw [← List.append_assoc, List.mem_append, not_or]
      exact ⟨hq v rfl, by decide⟩
    · rw [List.takeWhile_cons_of_pos (by simpa using hopens), ← ih]
      cases s with
      | nil =>
        have hnext : nextArg (w ++ ([] ++ [blank])) = some (w, []) :=
          (nextArg_of_ne hne hopens _).trans (cutAt_append hw)
        have hskip : skipBlanks ([] ++ [blank]) = skipBlanks [] := rfl
        rw [hskip]
        exact args_of_some hnext
      | cons d s =>
        obtain rfl : d = blank := by simpa using stops_cons.1 hs
        have hnext : nextArg (w ++ (blank :: s ++ [blank])) = some (w, s ++ [blank]) :=
          (nextArg_of_ne hne hopens _).trans (cutAt_append hw)
        have hskip : skipBlanks (blank :: s ++ [blank]) = skipBlanks (s ++ [blank]) := rfl
        rw [hskip]
        exact args_of_some hnext

/-! ## The arguments and the tokens -/

/-- The last of some tokens decides. -/
lemma asksBackground_append : AsksBackground (pre ++ [w]) ↔ w.head? = some 38#8 := by
  simp [AsksBackground]

/-- A last token that begins with `&` is no argument. -/
lemma arguments_append_of_head (hw : w.head? = some 38#8) : arguments (pre ++ [w]) = pre := by
  rw [arguments, if_pos (asksBackground_append.2 hw), List.dropLast_concat]

/-- Any other token is. -/
lemma arguments_append (hw : w.head? ≠ some 38#8) : arguments (pre ++ [w]) = pre ++ [w] :=
  if_neg (asksBackground_append.not.2 hw)

/-- At most the last token is no argument. -/
lemma length_arguments (ts : List (List Byte)) :
    (arguments ts).length ≤ ts.length ∧ ts.length ≤ (arguments ts).length + 1 := by
  unfold arguments
  split_ifs
  · rw [List.length_dropLast]
    omega
  · omega

/-- What `parseline` makes of the arguments that the loop finds. -/
lemma parseline_eq (line : List Byte) {us : List (List Byte)}
    (h : args (skipBlanks (line.dropLast ++ [blank])) = us) :
    (parseline line).1 = arguments us ∧
      ((parseline line).2 = true ↔ us = [] ∨ AsksBackground us) := by
  unfold parseline
  dsimp only
  rw [h]
  obtain rfl | ⟨pre, w, rfl⟩ := List.eq_nil_or_concat' us
  · exact ⟨rfl, by simp⟩
  · have hlast : (pre ++ [w]).getLast? = some w := List.getLast?_concat
    have hne : pre ++ [w] ≠ [] := by simp
    rw [asksBackground_append, hlast, or_iff_right hne]
    dsimp only
    by_cases hw : w.head? = some 38#8
    · rw [if_pos hw, arguments_append_of_head hw, List.dropLast_concat]
      exact ⟨rfl, iff_of_true rfl hw⟩
    · rw [if_neg hw, arguments_append hw]
      exact ⟨rfl, iff_of_false Bool.false_ne_true hw⟩

/-- The arguments `us` are what the tokens `ts` ask for. -/
def SameArguments (us ts : List (List Byte)) : Prop :=
  arguments us = arguments ts ∧ (ts ≠ [] → (us = [] ∨ AsksBackground us ↔ AsksBackground ts))

/-- What is read of a line, in terms of its tokens. -/
lemma parsed_iff_of_tokens {line : List Byte} {us : List (List Byte)}
    (ht : Tokens blank quote (text line) ts)
    (h : args (skipBlanks (line.dropLast ++ [blank])) = us) :
    Parsed line ↔ us.length < MAXARGS ∧ SameArguments us ts := by
  obtain ⟨hargs, hbg⟩ := parseline_eq line h
  rw [Parsed, entries, h, hargs, hbg]
  refine and_congr Iff.rfl ⟨fun hp => ?_, fun hs => ⟨ts, ht, hs⟩⟩
  obtain ⟨ts', ht', hs⟩ := hp
  rw [Tokens.unique (by decide) ht ht']
  exact hs

/-- All tokens are arguments. -/
lemma sameArguments_refl (ts : List (List Byte)) : SameArguments ts ts :=
  ⟨rfl, fun hne => or_iff_right hne⟩

/-- An argument is missing behind an open quote. -/
lemma not_sameArguments_of_opens (hw : Opens quote w) :
    ¬ SameArguments pre (pre ++ w :: ts) := by
  rintro ⟨hargs, -⟩
  have hlen := congrArg List.length hargs
  have hpre := (length_arguments pre).1
  obtain rfl | ⟨us, v, rfl⟩ := List.eq_nil_or_concat' ts
  · have hne : w.head? ≠ some 38#8 := by
      rw [hw]
      decide
    rw [arguments_append hne, List.length_append, List.length_singleton] at hlen
    omega
  · have hall := (length_arguments (pre ++ w :: (us ++ [v]))).2
    rw [← hlen] at hall
    simp only [List.length_append, List.length_cons] at hall
    omega

/-- One more token is only right if it alone asks for the background. -/
lemma sameArguments_append : SameArguments pre (pre ++ [w]) ↔ pre = [] ∧ w.head? = some 38#8 := by
  constructor
  · rintro ⟨hargs, hbg⟩
    have hw : w.head? = some 38#8 := by
      by_contra hw
      have hlen := congrArg List.length hargs
      rw [arguments_append hw, List.length_append, List.length_singleton] at hlen
      have hpre := (length_arguments pre).1
      omega
    rw [arguments_append_of_head hw] at hargs
    obtain hnil | hasks := (hbg (by simp)).2 (asksBackground_append.2 hw)
    · exact ⟨hnil, hw⟩
    · -- A token less is one argument less.
      rw [arguments, if_pos hasks] at hargs
      have hlen := congrArg List.length hargs
      rw [List.length_dropLast] at hlen
      exact ⟨List.length_eq_zero_iff.1 (by omega), hw⟩
  · rintro ⟨rfl, hw⟩
    refine ⟨(arguments_append_of_head hw).symm, fun _ => iff_of_true (Or.inl rfl) ?_⟩
    exact asksBackground_append.2 hw

/-- A last token that is cut off is only right if it asks for the background. -/
lemma sameArguments_concat {u : List Byte} (hu : u ≠ []) :
    SameArguments (pre ++ [u]) (pre ++ [u ++ [c]]) ↔ u.head? = some 38#8 := by
  have hhead : (u ++ [c]).head? = u.head? := by
    obtain ⟨d, v, rfl⟩ := List.exists_cons_of_ne_nil hu
    rfl
  constructor
  · rintro ⟨hargs, -⟩
    by_contra hne
    rw [arguments_append hne, arguments_append (hhead ▸ hne)] at hargs
    simp at hargs
  · intro hw
    refine ⟨?_, fun _ => iff_of_true (Or.inr (asksBackground_append.2 hw)) ?_⟩
    · rw [arguments_append_of_head hw, arguments_append_of_head (hhead ▸ hw)]
    · exact asksBackground_append.2 (hhead ▸ hw)

/-! ## The lines that are parsed -/

/-- The condition in terms of the tokens. -/
lemma parseable_iff_of_tokens (ht : Tokens blank quote (text (t ++ [c])) ts) :
    Parseable t c ↔ ts.length < MAXARGS ∧ EndsWell t c ts := by
  refine ⟨fun hp => ?_, fun hs => ⟨ts, ht, hs⟩⟩
  obtain ⟨ts', ht', hs⟩ := hp
  rw [Tokens.unique (by decide) ht ht']
  exact hs

/-- All quotations are closed, or the loop ends at the first open one. -/
lemma takeWhile_cases (ts : List (List Byte)) :
    ((∀ w ∈ ts, ¬ Opens quote w) ∧ (ts.takeWhile fun w => ¬ Opens quote w) = ts) ∨
    ∃ v us, Opens quote v ∧ ts = (ts.takeWhile fun w => ¬ Opens quote w) ++ v :: us := by
  have hsplit : ts = (ts.takeWhile fun w => ¬ Opens quote w) ++
      ts.dropWhile fun w => ¬ Opens quote w := List.takeWhile_append_dropWhile.symm
  have hstops := stops_dropWhile (fun w => decide (¬ Opens quote w)) ts
  cases hdrop : ts.dropWhile fun w => ¬ Opens quote w with
  | nil =>
    rw [hdrop, List.append_nil] at hsplit
    refine Or.inl ⟨fun w hw => ?_, hsplit.symm⟩
    rw [hsplit] at hw
    simpa using List.mem_takeWhile_imp hw
  | cons v us =>
    rw [hdrop] at hstops hsplit
    exact Or.inr ⟨v, us, by simpa using stops_cons.1 hstops, hsplit⟩

/-- Arguments before the end or an open quotation. -/
lemma takeWhile_append_closed (hpre : ∀ w ∈ pre, ¬ Opens quote w) (ts : List (List Byte)) :
    ((pre ++ ts).takeWhile fun w => ¬ Opens quote w) =
      pre ++ ts.takeWhile fun w => ¬ Opens quote w :=
  List.takeWhile_append_of_pos fun w hw => by simpa using hpre w hw

/-- A line that ends with a newline or a blank. -/
lemma parsed_iff_of_end (hc : c = newline ∨ c = blank) (h : Tokens blank quote t ts) :
    Parsed (t ++ [c]) ↔ Parseable t c := by
  have hargs : args (skipBlanks ((t ++ [c]).dropLast ++ [blank])) =
      ts.takeWhile fun w => ¬ Opens quote w := by
    rw [List.dropLast_concat]
    exact args_eq h
  have ht : Tokens blank quote (text (t ++ [c])) ts := by
    rw [text, List.getLast?_concat, List.dropLast_concat]
    obtain rfl | rfl := hc
    · exact h
    · exact h.concat_sep (by decide)
  rw [parsed_iff_of_tokens ht hargs, parseable_iff_of_tokens ht]
  obtain ⟨hall, hsame⟩ | ⟨v, us, hv, hsplit⟩ := takeWhile_cases ts
  · rw [hsame]
    exact and_congr Iff.rfl (iff_of_true (sameArguments_refl ts) (Or.inl ⟨hc, hall⟩))
  · refine iff_of_false (fun hp => ?_) fun hp => ?_
    · have hsame := Eq.mp (congrArg (SameArguments _) hsplit) hp.2
      exact not_sameArguments_of_opens hv hsame
    · obtain ⟨-, hall⟩ | ⟨hnewline, hblank, -⟩ := hp.2
      · refine hall v ?_ hv
        rw [hsplit]
        exact List.mem_append_right _ List.mem_cons_self
      · exact hc.elim hnewline hblank

/-- A line whose last character is a token of its own or closes a quotation. -/
lemma endsWell_append (hc : c ≠ newline ∧ c ≠ blank)
    (hcut : w.head? = some 38#8 → ∀ u, w = u ++ [c] → ¬ Tokens blank quote t (pre ++ [u])) :
    EndsWell t c (pre ++ [w]) ↔ pre = [] ∧ w.head? = some 38#8 := by
  constructor
  · rintro (⟨hend, -⟩ | ⟨-, -, pre', v, hts, hv, hrest⟩)
    · exact (hend.elim hc.1 hc.2).elim
    · obtain ⟨rfl, hwv⟩ := List.append_inj' hts rfl
      obtain rfl : w = v := List.singleton_inj.1 hwv
      obtain hnil | ⟨-, u, -, hu, ht⟩ := hrest
      · exact ⟨hnil, hv⟩
      · exact absurd ht (hcut hv u hu)
  · rintro ⟨rfl, hw⟩
    exact Or.inr ⟨hc.1, hc.2, [], w, rfl, hw, Or.inl rfl⟩

/-- The two conditions agree on such a line. -/
lemma sameArguments_append_iff
    (hends : EndsWell t c (pre ++ [w]) ↔ pre = [] ∧ w.head? = some 38#8) :
    pre.length < MAXARGS ∧ SameArguments pre (pre ++ [w]) ↔
      (pre ++ [w]).length < MAXARGS ∧ EndsWell t c (pre ++ [w]) := by
  rw [sameArguments_append, hends]
  constructor
  · rintro ⟨-, rfl, hw⟩
    exact ⟨by simp, rfl, hw⟩
  · rintro ⟨-, rfl, hw⟩
    exact ⟨by simp, rfl, hw⟩

/-- A line whose last character goes on with a token. -/
lemma endsWell_concat (hc : c ≠ newline ∧ c ≠ blank) (hpre : ∀ w ∈ pre, ¬ Opens quote w)
    {u : List Byte} (hu : u ≠ []) (h : Tokens blank quote t (pre ++ [u])) :
    EndsWell t c (pre ++ [u ++ [c]]) ↔ u.head? = some 38#8 := by
  have hhead : (u ++ [c]).head? = u.head? := by
    obtain ⟨d, v, rfl⟩ := List.exists_cons_of_ne_nil hu
    rfl
  constructor
  · rintro (⟨hend, -⟩ | ⟨-, -, pre', v, hts, hv, -⟩)
    · exact (hend.elim hc.1 hc.2).elim
    · obtain ⟨-, hwv⟩ := List.append_inj' hts rfl
      rw [← List.singleton_inj.1 hwv, hhead] at hv
      exact hv
  · intro hw
    exact Or.inr ⟨hc.1, hc.2, pre, u ++ [c], rfl, hhead.trans hw, Or.inr ⟨hpre, u, hu, rfl, h⟩⟩

/-- A line with an open quotation does not end well. -/
lemma not_endsWell_of_opens (hc : c ≠ newline ∧ c ≠ blank) (hw : Opens quote w) :
    ¬ EndsWell t c (pre ++ w :: ts) := by
  rintro (⟨hend, -⟩ | ⟨-, -, pre', v, hts, hv, hrest⟩)
  · exact hend.elim hc.1 hc.2
  · obtain rfl | ⟨us, y, rfl⟩ := List.eq_nil_or_concat' ts
    · obtain ⟨-, hwv⟩ := List.append_inj' hts rfl
      rw [← List.singleton_inj.1 hwv, hw] at hv
      exact absurd hv (by decide)
    · have hassoc : pre ++ w :: (us ++ [y]) = (pre ++ w :: us) ++ [y] := by simp
      obtain ⟨rfl, -⟩ := List.append_inj' (hassoc.symm.trans hts) rfl
      obtain hnil | ⟨hclosed, -⟩ := hrest
      · simp at hnil
      · exact hclosed w (List.mem_append_right _ List.mem_cons_self) hw

/-- A line that ends with any other character. -/
lemma parsed_iff_of_not_end (hc : c ≠ newline ∧ c ≠ blank) (h : Tokens blank quote t ts) :
    Parsed (t ++ [c]) ↔ Parseable t c := by
  have htext : text (t ++ [c]) = t ++ [c] := by
    rw [text, List.getLast?_concat, if_neg]
    simpa using hc.1
  obtain ⟨pre, us, us', hpre, rfl, h', hgrows⟩ := h.concat hc.2
  have hargs : args (skipBlanks ((t ++ [c]).dropLast ++ [blank])) =
      pre ++ us.takeWhile fun w => ¬ Opens quote w := by
    rw [List.dropLast_concat, ← takeWhile_append_closed hpre]
    exact args_eq h
  rw [← htext] at h'
  rw [parsed_iff_of_tokens h' hargs, parseable_iff_of_tokens h']
  obtain ⟨rfl, rfl⟩ | ⟨u, hu, hopens, rfl, rfl⟩ | ⟨v, vs, hv, rfl, rfl, w, hw, rfl⟩ |
    ⟨v, vs, hv, rfl, hq, v', vs', hv', rfl⟩ := hgrows
  · rw [List.append_nil] at h
    rw [List.takeWhile_nil, List.append_nil]
    refine sameArguments_append_iff (endsWell_append hc fun _ u _ ht => ?_)
    simpa using Tokens.unique (by decide) h ht
  · rw [List.takeWhile_cons_of_pos (by simpa using hopens), List.takeWhile_nil,
      sameArguments_concat hu, endsWell_concat hc hpre hu h, List.length_append, List.length_append]
    exact Iff.rfl
  · rw [List.takeWhile_cons_of_neg (by simpa using hv), List.append_nil]
    refine sameArguments_append_iff (endsWell_append hc fun hw u hu ht => ?_)
    -- The token without its last character would be the open quotation.
    obtain ⟨-, huv⟩ := List.append_inj (Tokens.unique (by decide) h ht) rfl
    rw [hu, ← (List.cons.inj huv).1, List.head?_append, hv] at hw
    exact absurd hw (by decide)
  · rw [List.takeWhile_cons_of_neg (by simpa using hv), List.append_nil]
    exact iff_of_false (fun hp => not_sameArguments_of_opens hv' hp.2)
      fun hp => not_endsWell_of_opens hc hv' hp.2

/-- **Parsing a line.** `parseline` stays within `argv` and yields the tokens of a line exactly if
there are fewer than `MAXARGS` tokens, all quotations are closed, and the last character does not
matter. -/
theorem parsed_iff (t : List Byte) (c : Byte) : Parsed (t ++ [c]) ↔ Parseable t c := by
  obtain ⟨ts, h⟩ := Tokens.exists blank quote t
  by_cases hc : c = newline ∨ c = blank
  · exact parsed_iff_of_end hc h
  · exact parsed_iff_of_not_end (not_or.1 hc) h

/-! ## Lines that are not parsed -/

/-- A line of `n` arguments that are one character long. -/
def manyArguments (n : ℕ) : List Byte := (List.replicate n (ascii "a ")).flatten

/-- Its tokens. -/
lemma tokens_manyArguments (n : ℕ) :
    Tokens blank quote (manyArguments n) (List.replicate n (ascii "a")) := by
  induction n with
  | zero => exact .nil
  | succ n ih =>
    have hrun : Tokens blank quote (ascii "a" ++ blank :: manyArguments n)
        (ascii "a" :: List.replicate n (ascii "a")) :=
      .run (by decide) (by decide) (stops_cons.2 (by decide)) (fun v hv => by cases hv) (.sep ih)
    exact hrun

/-- **Behind the end of `argv`.** A line of 128 arguments writes 129 entries. -/
theorem not_parsed : ∃ line : List Byte, line.length ≤ 1023 ∧ line.getLast? = some newline ∧
    MAXARGS < entries line ∧ ¬ Parsed line := by
  have hentries : entries (manyArguments 128 ++ [newline]) = 129 := by
    rw [entries, List.dropLast_concat, args_eq (tokens_manyArguments 128),
      List.takeWhile_replicate, if_pos (by decide), List.length_replicate]
  refine ⟨manyArguments 128 ++ [newline], by decide +kernel, List.getLast?_concat, ?_, fun hp => ?_⟩
  · rw [hentries]
    decide
  · have hfits := hp.1
    rw [hentries] at hfits
    exact absurd hfits (by decide)

end Tsh
