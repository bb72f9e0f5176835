import Mathlib.Data.List.Basic
import SE101.Lib.Scan

set_option relaxedAutoImplicit false
set_option autoImplicit false

/-!
# Words and quotations

A text is split at a separator, but what stands between a pair of quotation marks is one token. The
text is read from left to right: a quotation mark counts only at the beginning of a token, and only
if there is another one in the text that follows.

## Main definitions

* `Quoting.Tokens` — the tokens of a text.
* `Quoting.Opens` — a token begins with a quotation mark, which then has no partner.
* `Quoting.Grows` — how tokens change with one more character.

## Main results

* `Quoting.Tokens.exists`, `Quoting.Tokens.unique` — every text has exactly one list of tokens.
* `Quoting.Tokens.concat`, `Quoting.Tokens.concat_sep` — the tokens of a text with one more
  character.
-/

namespace Quoting

open Scan

variable {α : Type*} [DecidableEq α]

/-- The tokens of a text, from left to right: the text between a pair of `q`, or else a maximal run
of characters other than `sep`. -/
inductive Tokens (sep q : α) : List α → List (List α) → Prop
  | nil : Tokens sep q [] []
  | sep {s : List α} {ts : List (List α)} (h : Tokens sep q s ts) : Tokens sep q (sep :: s) ts
  | quoted {w s : List α} {ts : List (List α)} (hw : q ∉ w) (h : Tokens sep q s ts) :
    Tokens sep q (q :: (w ++ q :: s)) (w :: ts)
  | run {w s : List α} {ts : List (List α)} (hne : w ≠ []) (hw : sep ∉ w)
      (hs : Stops (· ≠ sep) s) (hq : ∀ v, w = q :: v → q ∉ v ++ s) (h : Tokens sep q s ts) :
    Tokens sep q (w ++ s) (w :: ts)

/-- A token begins with `q`. -/
def Opens (q : α) (w : List α) : Prop := w.head? = some q

instance (q : α) (w : List α) : Decidable (Opens q w) := inferInstanceAs (Decidable (_ = _))

variable {sep q c : α} {t s w : List α} {ts ts' : List (List α)}

/-- A run of characters other than `sep`. -/
lemma all_ne_of_notMem (hw : sep ∉ w) : All (· ≠ sep) w := by
  intro c hc
  rw [decide_eq_true_iff]
  rintro rfl
  exact hw hc

/-- What the tokens of a text look like. -/
lemma Tokens.inv (h : Tokens sep q t ts) :
    (t = [] ∧ ts = []) ∨ (∃ s, t = sep :: s ∧ Tokens sep q s ts) ∨
    (∃ w s us, t = q :: (w ++ q :: s) ∧ ts = w :: us ∧ q ∉ w ∧ Tokens sep q s us) ∨
    ∃ w s us, t = w ++ s ∧ ts = w :: us ∧ w ≠ [] ∧ sep ∉ w ∧ Stops (· ≠ sep) s ∧
      (∀ v, w = q :: v → q ∉ v ++ s) ∧ Tokens sep q s us := by
  cases h with
  | nil => exact Or.inl ⟨rfl, rfl⟩
  | sep h => exact Or.inr (Or.inl ⟨_, rfl, h⟩)
  | quoted hw h => exact Or.inr (Or.inr (Or.inl ⟨_, _, _, rfl, rfl, hw, h⟩))
  | run hne hw hs hq h => exact Or.inr (Or.inr (Or.inr ⟨_, _, _, rfl, rfl, hne, hw, hs, hq, h⟩))

/-- Only the empty text and separators have no tokens; the empty text has none. -/
lemma Tokens.of_nil (h : Tokens sep q [] ts) : ts = [] := by
  obtain ⟨-, h⟩ | ⟨s, h, -⟩ | ⟨w, s, us, h, -⟩ | ⟨w, s, us, h, -, hne, -⟩ := h.inv
  · exact h
  · cases h
  · cases h
  · exact absurd (List.append_eq_nil_iff.1 h.symm).1 hne

/-- Every text has tokens. -/
theorem Tokens.exists (sep q : α) (t : List α) : ∃ ts, Tokens sep q t ts := by
  induction hn : t.length using Nat.strong_induction_on generalizing t with
  | _ n ih =>
    cases t with
    | nil => exact ⟨[], .nil⟩
    | cons c s =>
      rw [List.length_cons] at hn
      by_cases hc : c = sep
      · obtain ⟨ts, h⟩ := ih s.length (by omega) s rfl
        rw [hc]
        exact ⟨ts, .sep h⟩
      · by_cases hquote : c = q ∧ q ∈ s
        · obtain ⟨rfl, hmem⟩ := hquote
          obtain ⟨w, u, rfl, hw⟩ := List.eq_append_cons_of_mem hmem
          rw [List.length_append, List.length_cons] at hn
          obtain ⟨ts, h⟩ := ih u.length (by omega) u rfl
          exact ⟨w :: ts, .quoted hw h⟩
        · -- The run has at least one character.
          have hhead : (c :: s).takeWhile (· ≠ sep) = c :: s.takeWhile (· ≠ sep) :=
            List.takeWhile_cons_of_pos (by simpa using hc)
          have hsplit : c :: s = (c :: s).takeWhile (· ≠ sep) ++ (c :: s).dropWhile (· ≠ sep) :=
            List.takeWhile_append_dropWhile.symm
          have hlen := congrArg List.length hsplit
          rw [List.length_append, hhead, List.length_cons, List.length_cons] at hlen
          obtain ⟨ts, h⟩ := ih ((c :: s).dropWhile (· ≠ sep)).length (by omega) _ rfl
          rw [hsplit]
          refine ⟨_, .run (by rw [hhead]; exact List.cons_ne_nil _ _) (fun hmem => ?_)
            (stops_dropWhile _ _) (fun v hv => ?_) h⟩
          · simpa using List.mem_takeWhile_imp hmem
          · have hv' : c :: s = q :: (v ++ (c :: s).dropWhile (· ≠ sep)) := by
              rw [← List.cons_append, ← hv]
              exact hsplit
            obtain ⟨hcq, hs⟩ := List.cons.inj hv'
            rw [← hs]
            exact fun hmem => hquote ⟨hcq, hmem⟩

/-- A text has no two lists of tokens.

**Proof sketch.** Induct on the first list. The beginning of the text decides which rule the second
one ends with, and the rule decides where the token ends. -/
theorem Tokens.unique (hsep : sep ≠ q) (h : Tokens sep q t ts) (h' : Tokens sep q t ts') :
    ts = ts' := by
  induction h generalizing ts' with
  | nil => exact h'.of_nil.symm
  | @sep s ts h ih =>
    obtain ⟨h, -⟩ | ⟨s', h, hs⟩ | ⟨w, s', us, h, -⟩ | ⟨w, s', us, h, -, hne, hw, -⟩ := h'.inv
    · cases h
    · cases h
      exact ih hs
    · exact absurd (List.cons.inj h).1 hsep
    · obtain ⟨d, v, rfl⟩ := List.exists_cons_of_ne_nil hne
      rw [(List.cons.inj h).1] at hw
      exact absurd List.mem_cons_self hw
  | @quoted w s ts hw h ih =>
    obtain ⟨h, -⟩ | ⟨s', h, -⟩ | ⟨w', s', us, h, rfl, hw', hs⟩ |
      ⟨w', s', us, h, -, hne, -, -, hq, -⟩ := h'.inv
    · cases h
    · exact absurd (List.cons.inj h).1.symm hsep
    · have hstop (s : List α) : Stops (· ≠ q) (q :: s) := stops_cons.2 (by simp)
      obtain ⟨rfl, hrest⟩ := append_inj (all_ne_of_notMem hw) (hstop s) (all_ne_of_notMem hw')
        (hstop s') (List.cons.inj h).2
      rw [ih ((List.cons.inj hrest).2 ▸ hs)]
    · obtain ⟨d, v, rfl⟩ := List.exists_cons_of_ne_nil hne
      obtain ⟨rfl, hv⟩ := List.cons.inj h
      refine absurd ?_ (hq v rfl)
      show q ∈ v ++ s'
      rw [← show w ++ q :: s = v ++ s' from hv]
      exact List.mem_append_right _ List.mem_cons_self
  | @run w s ts hne hw hs hq h ih =>
    obtain ⟨h, -⟩ | ⟨s', h, -⟩ | ⟨w', s', us, h, -⟩ |
      ⟨w', s', us, h, rfl, -, hw', hs', -, ht⟩ := h'.inv
    · exact absurd (List.append_eq_nil_iff.1 h).1 hne
    · obtain ⟨d, v, rfl⟩ := List.exists_cons_of_ne_nil hne
      rw [(List.cons.inj h).1] at hw
      exact absurd List.mem_cons_self hw
    · obtain ⟨d, v, rfl⟩ := List.exists_cons_of_ne_nil hne
      obtain ⟨rfl, hv⟩ := List.cons.inj h
      refine absurd ?_ (hq v rfl)
      rw [show v ++ s = w' ++ d :: s' from hv]
      exact List.mem_append_right _ List.mem_cons_self
    · obtain ⟨rfl, rfl⟩ := append_inj (all_ne_of_notMem hw) hs (all_ne_of_notMem hw') hs' h
      rw [ih ht]

/-- A separator at the end changes no tokens. -/
lemma Tokens.concat_sep (hsep : sep ≠ q) (h : Tokens sep q t ts) :
    Tokens sep q (t ++ [sep]) ts := by
  induction h with
  | nil => exact .sep .nil
  | sep h ih => exact .sep ih
  | @quoted w s ts hw h ih =>
    rw [List.cons_append, List.append_assoc]
    exact .quoted hw ih
  | @run w s ts hne hw hs hq h ih =>
    have hstop : Stops (· ≠ sep) (s ++ [sep]) := by
      by_cases hnil : s = []
      · rw [hnil]
        exact stops_cons.2 (by simp)
      · exact hs.append_right hnil
    rw [List.append_assoc]
    refine .run hne hw hstop (fun v hv => ?_) ih
    rw [← List.append_assoc]
    simpa [hsep.symm] using hq v hv

/-- How the tokens change where one more character `c` is read: it is a token of its own, or goes on
with the last one, or closes a quotation, or is swallowed by the text behind an open one. -/
def Grows (q c : α) (ts ts' : List (List α)) : Prop :=
  (ts = [] ∧ ts' = [[c]]) ∨
  (∃ u, u ≠ [] ∧ ¬ Opens q u ∧ ts = [u] ∧ ts' = [u ++ [c]]) ∨
  (∃ v us, Opens q v ∧ ts = v :: us ∧ c = q ∧ ∃ w, q ∉ w ∧ ts' = [w]) ∨
  (∃ v us, Opens q v ∧ ts = v :: us ∧ c ≠ q ∧ ∃ v' us', Opens q v' ∧ ts' = v' :: us')

/-- **One more character.** It leaves the tokens alone up to the end or an open quotation.

**Proof sketch.** Induct on the tokens. Only the last run, and the first one that begins with a
quotation mark, see the end of the text. -/
theorem Tokens.concat (h : Tokens sep q t ts) (hc : c ≠ sep) :
    ∃ pre us us', (∀ w ∈ pre, ¬ Opens q w) ∧ ts = pre ++ us ∧ Tokens sep q (t ++ [c]) (pre ++ us') ∧
      Grows q c us us' := by
  induction h with
  | nil =>
    have hrun : Tokens sep q ([c] ++ []) [[c]] := by
      refine .run (List.cons_ne_nil _ _) (by simpa using hc.symm) stops_nil (fun v hv => ?_) .nil
      rw [(List.cons.inj hv).2.symm]
      exact List.not_mem_nil
    exact ⟨[], [], [[c]], by simp, rfl, hrun, Or.inl ⟨rfl, rfl⟩⟩
  | sep h ih =>
    obtain ⟨pre, us, us', hpre, rfl, h', hgrows⟩ := ih
    exact ⟨pre, us, us', hpre, rfl, .sep h', hgrows⟩
  | @quoted w s ts hw h ih =>
    obtain ⟨pre, us, us', hpre, rfl, h', hgrows⟩ := ih
    refine ⟨w :: pre, us, us', List.forall_mem_cons.2 ⟨fun ho => ?_, hpre⟩, rfl, ?_, hgrows⟩
    · exact hw (List.mem_of_mem_head? ho)
    · rw [List.cons_append, List.append_assoc]
      exact .quoted hw h'
  | @run w s ts hne hw hs hq h ih =>
    have hw' : sep ∉ w ++ [c] := by simpa using ⟨hw, hc.symm⟩
    by_cases ho : Opens q w
    · obtain ⟨d, v, rfl⟩ := List.exists_cons_of_ne_nil hne
      obtain rfl : d = q := Option.some.inj ho
      have hv := hq v rfl
      by_cases hcq : c = d
      · -- The quotation is closed, and the text behind it is the token.
        subst hcq
        refine ⟨[], (c :: v) :: ts, [v ++ s], by simp, rfl, ?_,
          Or.inr (Or.inr (Or.inl ⟨_, ts, ho, rfl, rfl, _, hv, rfl⟩))⟩
        exact .quoted hv .nil
      · by_cases hnil : s = []
        · subst hnil
          refine ⟨[], (d :: v) :: ts, [d :: v ++ [c]], by simp, rfl, ?_,
            Or.inr (Or.inr (Or.inr ⟨_, ts, ho, rfl, hcq, d :: v ++ [c], [], rfl, rfl⟩))⟩
          have hrun : Tokens sep d ((d :: v ++ [c]) ++ []) [d :: v ++ [c]] := by
            refine .run (by simp) hw' stops_nil (fun u hu => ?_) .nil
            rw [← (List.cons.inj hu).2]
            simpa [Ne.symm hcq] using hv
          rw [List.append_nil] at hrun ⊢
          exact hrun
        · obtain ⟨us, hus⟩ := Tokens.exists sep d (s ++ [c])
          refine ⟨[], (d :: v) :: ts, (d :: v) :: us, by simp, rfl, ?_,
            Or.inr (Or.inr (Or.inr ⟨_, ts, ho, rfl, hcq, _, us, ho, rfl⟩))⟩
          rw [List.append_assoc]
          refine .run hne hw (hs.append_right hnil) (fun u hu => ?_) hus
          rw [← (List.cons.inj hu).2, ← List.append_assoc]
          simpa [Ne.symm hcq] using hv
    · by_cases hnil : s = []
      · subst hnil
        refine ⟨[], [w], [w ++ [c]], by simp, by rw [h.of_nil]; rfl, ?_,
          Or.inr (Or.inl ⟨w, hne, ho, rfl, rfl⟩)⟩
        have hrun : Tokens sep q ((w ++ [c]) ++ []) [w ++ [c]] := by
          refine .run (by simp) hw' stops_nil (fun u hu => ?_) .nil
          obtain ⟨d, v, rfl⟩ := List.exists_cons_of_ne_nil hne
          exact absurd (congrArg some (List.cons.inj hu).1) ho
        rw [List.append_nil] at hrun ⊢
        exact hrun
      · obtain ⟨pre, us, us', hpre, rfl, h', hgrows⟩ := ih
        refine ⟨w :: pre, us, us', List.forall_mem_cons.2 ⟨ho, hpre⟩, rfl, ?_, hgrows⟩
        rw [List.append_assoc]
        refine .run hne hw (hs.append_right hnil) (fun u hu => ?_) h'
        exact absurd (by rw [hu]; rfl) ho

end Quoting
