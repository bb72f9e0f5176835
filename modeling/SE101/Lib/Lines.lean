import Mathlib.Data.List.Basic

set_option relaxedAutoImplicit false
set_option autoImplicit false

/-!
# Lines of bounded length

A reader with a buffer of fixed size cuts a text into lines: each ends after the delimiter or
when the buffer is full, whichever comes first. A protocol that marks the end of a section by a
certain line reads the lines up to it.

## Main definitions

* `Lines.line` — the first line of a text.
* `Lines.upTo` — the lines up to the first one that is a given line, and what follows it.
* `Lines.lines` — the lines of a text, whatever their length.
* `Lines.cut` — the pieces that the reader cuts a text into.

## Main results

* `Lines.upTo_append` — a section whose last line is the mark is read to its end or to a line in
  it that looks like the mark.
* `Lines.upTo_of_lines` — short lines are read as they are.
* `Lines.upTo_spec` — the lines that are read make up the text up to the mark.
* `Lines.eq_of_flatten_map_eq` — a text with a line for each of some records determines them.
* `Lines.cut_eq_lines`, `length_cut_eq_iff` — the pieces are the lines, and as many as the lines,
  exactly when every line fits.
-/

namespace Lines

variable {α : Type*} [DecidableEq α]

/-- The first line: up to and including the first `d`, but at most `k` characters. -/
def line (d : α) : ℕ → List α → List α
  | 0, _ => []
  | _ + 1, [] => []
  | k + 1, c :: s => if c = d then [c] else c :: line d k s

variable {d : α} {k : ℕ} {s t e : List α}

/-- A line is the beginning of the text. -/
lemma line_append_drop : line d k s ++ s.drop (line d k s).length = s := by
  induction k generalizing s with
  | zero => simp [line]
  | succ k ih =>
    cases s with
    | nil => simp [line]
    | cons c s =>
      unfold line
      split_ifs with hc
      · simp
      · simp [ih]

/-- A line is not longer than the buffer. -/
lemma length_line_le : (line d k s).length ≤ k := by
  induction k generalizing s with
  | zero => exact Nat.le_refl 0
  | succ k ih =>
    cases s with
    | nil => exact Nat.zero_le _
    | cons c s =>
      rw [line]
      split_ifs
      · exact Nat.succ_le_succ (Nat.zero_le k)
      · exact Nat.succ_le_succ ih

/-- The rest after a line is shorter. -/
lemma length_drop_line (h : line d k s ≠ []) : (s.drop (line d k s).length).length < s.length := by
  have hs : (line d k s ++ s.drop (line d k s).length).length = s.length := by
    rw [line_append_drop]
  have hl := List.length_pos_iff.2 h
  rw [List.length_append] at hs
  omega

/-- A line that contains the delimiter does not depend on what follows it. -/
lemma line_append_of_mem (hd : d ∈ s) :
    line d k (s ++ t) = line d k s ∧ line d k s <+: s := by
  induction k generalizing s with
  | zero => exact ⟨by simp [line], by simp [line]⟩
  | succ k ih =>
    cases s with
    | nil => cases hd
    | cons c s =>
      rw [List.cons_append, line, line]
      split_ifs with hc
      · exact ⟨rfl, by simp⟩
      · obtain ⟨h₁, h₂⟩ := ih ((List.mem_cons.1 hd).resolve_left (Ne.symm hc))
        exact ⟨by rw [h₁], by simpa using h₂⟩

/-- A short text that ends with its only delimiter is a line. -/
lemma line_of_notMem (hd : d ∉ s) (hk : s.length < k) : line d k (s ++ d :: t) = s ++ [d] := by
  induction s generalizing k with
  | nil =>
    obtain ⟨k, rfl⟩ : ∃ j, k = j + 1 := ⟨k - 1, by simp at hk; omega⟩
    simp [line]
  | cons c s ih =>
    obtain ⟨k, rfl⟩ : ∃ j, k = j + 1 := ⟨k - 1, by simp at hk; omega⟩
    rw [List.mem_cons, not_or] at hd
    obtain ⟨hc, hs⟩ := hd
    rw [List.cons_append, line, if_neg (Ne.symm hc), ih hs (by simpa using hk)]
    rfl

/-- A long text without delimiter is cut off. -/
lemma line_of_length_le (hd : d ∉ s) (hk : k ≤ s.length) : line d k (s ++ t) = s.take k := by
  induction s generalizing k with
  | nil =>
    obtain rfl : k = 0 := Nat.le_zero.1 hk
    rfl
  | cons c s ih =>
    cases k with
    | zero => rfl
    | succ k =>
      rw [List.mem_cons, not_or] at hd
      obtain ⟨hc, hs⟩ := hd
      rw [List.cons_append, line, if_neg (Ne.symm hc), ih hs (Nat.le_of_succ_le_succ hk),
        List.take_succ_cons]

/-- A line goes no further than its delimiter. -/
lemma eq_nil_of_line_eq {p : List α} (h : line d k s = p ++ d :: t) : t = [] := by
  induction k generalizing s p with
  | zero => simp [line] at h
  | succ k ih =>
    cases s with
    | nil => simp [line] at h
    | cons c s =>
      rw [line] at h
      split_ifs at h with hc
      · cases p with
        | nil => exact (List.cons.inj h).2.symm
        | cons b p => simp at h
      · cases p with
        | nil => exact absurd (List.cons.inj h).1 hc
        | cons b p => exact ih (List.cons.inj h).2

/-- The lines up to the first one that is `e`, and what follows it. -/
def upTo (d : α) (k : ℕ) (e : List α) (s : List α) : Option (List (List α) × List α) :=
  if _h : line d k s = [] then none
  else if line d k s = e then some ([line d k s], s.drop (line d k s).length)
  else (upTo d k e (s.drop (line d k s).length)).map fun (ls, r) => (line d k s :: ls, r)
  termination_by s.length
  decreasing_by exact length_drop_line (by assumption)

/-- The lines that are read and the rest make up the text; the last line is the mark. -/
theorem upTo_spec {ls : List (List α)} {r : List α} (h : upTo d k e s = some (ls, r)) :
    ls.flatten ++ r = s ∧ ∃ ls', ls = ls' ++ [e] := by
  induction s using upTo.induct d k e generalizing ls with
  | case1 s hl =>
    rw [upTo, dif_pos hl] at h
    cases h
  | case2 s hl he =>
    rw [upTo, dif_neg hl, if_pos he] at h
    cases h
    exact ⟨by simpa using line_append_drop, [], by simp [he]⟩
  | case3 s hl he ih =>
    rw [upTo, dif_neg hl, if_neg he] at h
    obtain ⟨⟨ls', r'⟩, h', heq⟩ := Option.map_eq_some_iff.1 h
    cases heq
    obtain ⟨hs, ls'', rfl⟩ := ih h'
    refine ⟨?_, line d k s :: ls'', rfl⟩
    rw [List.flatten_cons, List.append_assoc, hs, line_append_drop]

/-- A text has a first line. -/
lemma line_ne_nil (hk : 0 < k) (hs : s ≠ []) : line d k s ≠ [] := by
  obtain ⟨k, rfl⟩ : ∃ j, k = j + 1 := ⟨k - 1, by omega⟩
  obtain ⟨c, s, rfl⟩ := List.exists_cons_of_ne_nil hs
  rw [line]
  split_ifs <;> exact List.cons_ne_nil _ _

/-- **Reading a section.** The mark `e` is found at the end of a section `s` of lines, or at a line
in it that looks like the mark.

**Proof sketch.** Induction on the length of `s`. If it is empty, then the mark is the first line.
Otherwise the first line lies inside of `s`, since a delimiter stands at its end, and what is left
of `s` is empty or still ends with the delimiter. -/
theorem upTo_append {e' : List α} (he : e = e' ++ [d]) (hd : d ∉ e') (hk : e.length ≤ k)
    (t : List α) : ∀ s : List α, (s = [] ∨ s.getLast? = some d) →
    ∃ ls r s', upTo d k e (s ++ e ++ t) = some (ls, r) ∧ s ++ e = ls.flatten ++ s' := by
  have hlen : e.length = e'.length + 1 := by rw [he, List.length_append]; rfl
  intro s
  induction hn : s.length using Nat.strongRecOn generalizing s with
  | ind n ih =>
    intro hs
    by_cases hnil : s = []
    · subst hnil
      have hline : line d k (e ++ t) = e := by
        have h := line_of_notMem (t := t) hd (k := k) (by omega)
        rw [he, List.append_assoc]
        exact h
      refine ⟨[e], t, [], ?_, by simp⟩
      rw [List.nil_append, upTo, hline, dif_neg (by simp [he]), if_pos rfl, List.drop_left]
    · have hmem : d ∈ s := List.mem_of_getLast? (hs.resolve_left hnil)
      obtain ⟨hline, s₁, hs₁⟩ := line_append_of_mem (t := e ++ t) (k := k) hmem
      have hne : line d k s ≠ [] := line_ne_nil (by omega) hnil
      have hdrop : (s ++ e ++ t).drop (line d k s).length = s₁ ++ e ++ t := by
        have hsplit : s ++ e ++ t = line d k s ++ (s₁ ++ e ++ t) := by
          rw [← List.append_assoc, ← List.append_assoc, hs₁]
        rw [hsplit, List.drop_left]
      rw [upTo, List.append_assoc, hline, dif_neg hne, ← List.append_assoc, hdrop]
      split_ifs with hmark
      · exact ⟨_, _, s₁ ++ e, rfl, by rw [List.flatten_singleton, ← List.append_assoc, hs₁]⟩
      · have hshort : s₁.length < n := by
          have hl := List.length_pos_iff.2 hne
          rw [← hn, ← hs₁, List.length_append]
          omega
        have hlast : s₁ = [] ∨ s₁.getLast? = some d := by
          by_cases h₁ : s₁ = []
          · exact .inl h₁
          · right
            rw [← hs.resolve_left hnil, ← hs₁, List.getLast?_append_of_ne_nil _ h₁]
        obtain ⟨ls, r, s', hupTo, hsplit⟩ := ih _ hshort s₁ rfl hlast
        refine ⟨line d k s :: ls, r, s', by rw [hupTo]; rfl, ?_⟩
        rw [List.flatten_cons, List.append_assoc, ← hsplit, ← List.append_assoc, hs₁]

/-- Short lines before the mark are read as they are. -/
theorem upTo_of_lines {ls : List (List α)} (hls : ∀ l ∈ ls, d ∉ l ∧ l.length < k ∧ l ++ [d] ≠ e)
    {e' : List α} (he : e = e' ++ [d]) (hd : d ∉ e') (hk : e.length ≤ k) (t : List α) :
    upTo d k e ((ls.map (· ++ [d])).flatten ++ e ++ t) = some (ls.map (· ++ [d]) ++ [e], t) := by
  induction ls with
  | nil =>
    have hline : line d k (e ++ t) = e := by
      have h := line_of_notMem (t := t) hd (k := k) (by simp [he] at hk; omega)
      rw [he, List.append_assoc]
      exact h
    rw [List.map_nil, List.flatten_nil, List.nil_append, upTo, hline, dif_neg (by simp [he]),
      if_pos rfl, List.drop_left, List.nil_append]
  | cons l ls ih =>
    obtain ⟨⟨hmem, hshort, hmark⟩, hls⟩ := List.forall_mem_cons.1 hls
    have hsplit : ((l :: ls).map (· ++ [d])).flatten ++ e ++ t =
        l ++ d :: ((ls.map (· ++ [d])).flatten ++ e ++ t) := by simp
    have hdrop (u : List α) : (l ++ d :: u).drop (l ++ [d]).length = u := by
      rw [List.append_cons l d u, List.drop_left]
    rw [hsplit, upTo, line_of_notMem hmem hshort, dif_neg (by simp), if_neg hmark, hdrop, ih hls]
    rfl

/-! ### All lines of a text -/

/-- The lines of a text, each up to and including its delimiter. -/
def lines (d : α) : List α → List (List α)
  | [] => []
  | c :: s =>
    if c = d then [c] :: lines d s
    else
      match lines d s with
      | [] => [[c]]
      | l :: ls => (c :: l) :: ls

/-- The pieces that a reader of at most `k` characters cuts a text into. -/
def cut (d : α) (k : ℕ) (s : List α) : List (List α) :=
  if _h : line d k s = [] then []
  else line d k s :: cut d k (s.drop (line d k s).length)
  termination_by s.length
  decreasing_by exact length_drop_line (by assumption)

/-- An empty text has no pieces. -/
@[simp] lemma cut_nil : cut d k ([] : List α) = [] := by
  rw [cut, dif_pos (by cases k <;> rfl)]

/-- There is no line only in an empty text. -/
@[simp] lemma lines_eq_nil : lines d s = [] ↔ s = [] := by
  cases s with
  | nil => simp [lines]
  | cons c s =>
    rw [lines]
    split_ifs
    · simp
    · split <;> simp

/-- No line is empty. -/
lemma ne_nil_of_mem_lines {l : List α} (h : l ∈ lines d s) : l ≠ [] := by
  induction s generalizing l with
  | nil => cases h
  | cons c s ih =>
    rw [lines] at h
    split_ifs at h
    · obtain rfl | h := List.mem_cons.1 h
      · exact List.cons_ne_nil _ _
      · exact ih h
    · split at h
      · obtain rfl := List.mem_singleton.1 h
        exact List.cons_ne_nil _ _
      · next l' ls hl =>
        obtain rfl | h := List.mem_cons.1 h
        · exact List.cons_ne_nil _ _
        · exact ih (hl ▸ List.mem_cons_of_mem _ h)

/-- A text without delimiter is one line. -/
lemma lines_of_notMem (hs : s ≠ []) (hd : d ∉ s) : lines d s = [s] := by
  induction s with
  | nil => exact absurd rfl hs
  | cons c s ih =>
    rw [List.mem_cons, not_or] at hd
    rw [lines, if_neg (Ne.symm hd.1)]
    by_cases hnil : s = []
    · subst hnil
      rfl
    · rw [ih hnil hd.2]

/-- The first line ends after the first delimiter. -/
lemma lines_append_cons (hd : d ∉ s) : lines d (s ++ d :: t) = (s ++ [d]) :: lines d t := by
  induction s with
  | nil => simp [lines]
  | cons c s ih =>
    rw [List.mem_cons, not_or] at hd
    rw [List.cons_append, lines, if_neg (Ne.symm hd.1), ih hd.2]
    rfl

/-- A text that was put together from lines has no others. -/
lemma lines_flatten_map {β : Type*} {f : β → List α} {xs : List β}
    (h : ∀ x ∈ xs, ∃ l, d ∉ l ∧ f x = l ++ [d]) : lines d (xs.map f).flatten = xs.map f := by
  induction xs with
  | nil => rfl
  | cons x xs ih =>
    obtain ⟨hx, hxs⟩ := List.forall_mem_cons.1 h
    obtain ⟨l, hl, hf⟩ := hx
    rw [List.map_cons, List.flatten_cons, hf, List.append_assoc, List.singleton_append,
      lines_append_cons hl, ih hxs]

/-- **Records.** A text with one line for each of some records determines the records, if a line
determines its record. -/
theorem eq_of_flatten_map_eq {β : Type*} {f : β → List α} {P : β → Prop}
    (hline : ∀ x, P x → ∃ l, d ∉ l ∧ f x = l ++ [d])
    (hinj : ∀ x y, P x → P y → f x = f y → x = y) {xs ys : List β} (hxs : ∀ x ∈ xs, P x)
    (hys : ∀ y ∈ ys, P y) (heq : (xs.map f).flatten = (ys.map f).flatten) : xs = ys := by
  have hmap : xs.map f = ys.map f := by
    rw [← lines_flatten_map fun x hx => hline x (hxs x hx), heq,
      lines_flatten_map fun y hy => hline y (hys y hy)]
  clear heq
  induction xs generalizing ys with
  | nil => exact (List.map_eq_nil_iff.1 hmap.symm).symm
  | cons x xs ih =>
    obtain ⟨y, ys, rfl, hy, hmap⟩ := List.map_eq_cons_iff.1 hmap.symm
    obtain ⟨hx, hxs⟩ := List.forall_mem_cons.1 hxs
    obtain ⟨hy', hys⟩ := List.forall_mem_cons.1 hys
    rw [hinj x y hx hy' hy.symm, ih hxs hys hmap.symm]

/-- Text without delimiter in front of a text belongs to its first line. -/
lemma lines_append {l : List α} {ls : List (List α)} (hd : d ∉ s) (ht : lines d t = l :: ls) :
    lines d (s ++ t) = (s ++ l) :: ls := by
  induction s with
  | nil => exact ht
  | cons c s ih =>
    rw [List.mem_cons, not_or] at hd
    rw [List.cons_append, lines, if_neg (Ne.symm hd.1), ih hd.2]
    rfl

/-- A short text without delimiter is read to its end. -/
lemma line_eq_self (hd : d ∉ s) (hk : s.length ≤ k) : line d k s = s := by
  induction s generalizing k with
  | nil => cases k <;> rfl
  | cons c s ih =>
    obtain ⟨k, rfl⟩ : ∃ j, k = j + 1 := ⟨k - 1, by simp at hk; omega⟩
    rw [List.mem_cons, not_or] at hd
    rw [line, if_neg (Ne.symm hd.1), ih hd.2 (Nat.le_of_succ_le_succ hk)]

/-- The first piece is the first line, or the line goes on behind it and the piece is full. -/
lemma line_cases (hs : s ≠ []) :
    ((line d k s).length ≤ k ∧
      lines d s = line d k s :: lines d (s.drop (line d k s).length)) ∨
    (d ∉ line d k s ∧ (line d k s).length = k ∧ s.drop (line d k s).length ≠ []) := by
  -- what is said of a piece that is full, when the text without delimiter is longer
  have full {p u : List α} (hp : d ∉ p) (hk : k ≤ p.length) (hne : p ++ u = s)
      (hrest : (p ++ u).length ≠ k) :
      d ∉ line d k s ∧ (line d k s).length = k ∧ s.drop (line d k s).length ≠ [] := by
    subst hne
    rw [line_of_length_le hp hk, List.length_take, Nat.min_eq_left hk]
    refine ⟨fun h => hp (List.mem_of_mem_take h), rfl, ?_⟩
    rw [ne_eq, List.drop_eq_nil_iff, List.length_append]
    rw [List.length_append] at hrest
    omega
  by_cases hd : d ∈ s
  · obtain ⟨p, t, rfl, hp⟩ := List.eq_append_cons_of_mem hd
    by_cases hfit : p.length < k
    · have hdrop : (p ++ d :: t).drop (p ++ [d]).length = t := by
        rw [List.append_cons p d t, List.drop_left]
      rw [line_of_notMem hp hfit, hdrop, lines_append_cons hp]
      refine Or.inl ⟨?_, rfl⟩
      rw [List.length_append, List.length_singleton]
      omega
    · refine Or.inr (full hp (by omega) rfl ?_)
      rw [List.length_append, List.length_cons]
      omega
  · by_cases hfit : s.length ≤ k
    · rw [line_eq_self hd hfit, List.drop_length, lines_of_notMem hs hd]
      exact Or.inl ⟨hfit, rfl⟩
    · exact Or.inr (full hd (by omega) (List.append_nil s) (by rw [List.append_nil]; omega))

/-- A text has no more lines than pieces, and as many only when every line fits.

**Proof sketch.** Induction on the length of the text. When the first piece is not the first line
it only makes the first line of the rest longer, which then does not fit. -/
lemma length_lines_le_length_cut (hk : 0 < k) (s : List α) :
    (lines d s).length ≤ (cut d k s).length ∧
      ((lines d s).length = (cut d k s).length → ∀ l ∈ lines d s, l.length ≤ k) := by
  induction hn : s.length using Nat.strongRecOn generalizing s with
  | ind n ih =>
    by_cases hs : s = []
    · subst hs
      simp [lines]
    have hne := line_ne_nil hk hs (d := d)
    obtain ⟨hle, heq⟩ := ih _ (hn ▸ length_drop_line hne) _ rfl
    rw [cut, dif_neg hne, List.length_cons]
    obtain ⟨hlen, hlines⟩ | ⟨hd, hlen, hrest⟩ := line_cases (d := d) (k := k) hs
    · rw [hlines, List.length_cons]
      refine ⟨Nat.succ_le_succ hle, fun h => ?_⟩
      exact List.forall_mem_cons.2 ⟨hlen, heq (Nat.succ.inj h)⟩
    · obtain ⟨l, ls, hlines⟩ := List.exists_cons_of_ne_nil (mt (lines_eq_nil (d := d)).1 hrest)
      have hall : lines d s = (line d k s ++ l) :: ls := by
        rw [← lines_append hd hlines, line_append_drop]
      rw [hlines, List.length_cons] at hle
      rw [hall, List.length_cons]
      exact ⟨Nat.le_succ_of_le hle, fun h => absurd h (by omega)⟩

/-- Lines that fit are the pieces. -/
theorem cut_eq_lines (hk : 0 < k) (h : ∀ l ∈ lines d s, l.length ≤ k) :
    cut d k s = lines d s := by
  induction hn : s.length using Nat.strongRecOn generalizing s with
  | ind n ih =>
    by_cases hs : s = []
    · subst hs
      simp [lines]
    have hne := line_ne_nil hk hs (d := d)
    rw [cut, dif_neg hne]
    obtain ⟨-, hlines⟩ | ⟨hd, hlen, hrest⟩ := line_cases (d := d) (k := k) hs
    · rw [hlines] at h ⊢
      rw [ih _ (hn ▸ length_drop_line hne) (List.forall_mem_cons.1 h).2 rfl]
    · obtain ⟨l, ls, hlines⟩ := List.exists_cons_of_ne_nil (mt (lines_eq_nil (d := d)).1 hrest)
      have hall : lines d s = (line d k s ++ l) :: ls := by
        rw [← lines_append hd hlines, line_append_drop]
      have hlong := h (line d k s ++ l) (by rw [hall]; exact List.mem_cons_self)
      have hl : l ≠ [] := ne_nil_of_mem_lines (hlines ▸ List.mem_cons_self)
      have := List.length_pos_iff.2 hl
      rw [List.length_append] at hlong
      omega

/-- There are as many pieces as lines exactly when every line fits. -/
theorem length_cut_eq_iff (hk : 0 < k) :
    (cut d k s).length = (lines d s).length ↔ ∀ l ∈ lines d s, l.length ≤ k := by
  constructor
  · intro h
    exact (length_lines_le_length_cut hk s).2 h.symm
  · intro h
    rw [cut_eq_lines hk h]

end Lines
