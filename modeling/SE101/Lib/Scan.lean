import Mathlib.Data.List.Basic
import Mathlib.Data.List.DropRight

set_option relaxedAutoImplicit false
set_option autoImplicit false

/-!
# Scanning maximal runs

A hand-written scanner reads the longest run of characters of one class and leaves the rest.
On text that was put together from a run and a continuation, it finds the run again exactly
when the continuation does not go on with the same class.

## Main definitions

* `Scan.All` — every character of a text is of a class.
* `Scan.Stops` — a text does not begin with a character of a class.

## Main results

* `Scan.takeWhile_append`, `Scan.dropWhile_append` — the run and the rest.
* `Scan.rdropWhile_append_cons` — stripping a text from its end stops at a character that is
  not stripped.
-/

namespace Scan

variable {α : Type*}

/-- Every character of `s` is of class `p`. -/
def All (p : α → Bool) (s : List α) : Prop := ∀ c ∈ s, p c = true

/-- `s` does not begin with a character of class `p`. -/
def Stops (p : α → Bool) (s : List α) : Prop := ∀ c ∈ s.head?, p c = false

variable {p q : α → Bool} {s t : List α} {c : α}

/-- Whether all characters are of a class is decided by going through them. -/
instance (p : α → Bool) (s : List α) : Decidable (All p s) :=
  decidable_of_iff (s.all p = true) List.all_eq_true

@[simp] lemma all_nil : All p [] := fun _ h => absurd h List.not_mem_nil

@[simp] lemma all_cons : All p (c :: s) ↔ p c = true ∧ All p s := List.forall_mem_cons

@[simp] lemma all_append : All p (s ++ t) ↔ All p s ∧ All p t := List.forall_mem_append

/-- A smaller class. -/
lemma All.mono (h : All p s) (hpq : ∀ c, p c = true → q c = true) : All q s :=
  fun c hc => hpq c (h c hc)

@[simp] lemma stops_nil : Stops p [] := fun _ h => by simp at h

@[simp] lemma stops_cons : Stops p (c :: s) ↔ p c = false := by simp [Stops]

/-- A larger class stops sooner. -/
lemma Stops.mono (h : Stops p s) (hpq : ∀ c, p c = false → q c = false) : Stops q s :=
  fun c hc => hpq c (h c hc)

/-- A text that is not empty and stops somewhere else. -/
lemma stops_append_of_all (hs : All q s) (hne : s ≠ []) (hpq : ∀ c, q c = true → p c = false) :
    Stops p (s ++ t) := by
  obtain ⟨c, s, rfl⟩ := List.exists_cons_of_ne_nil hne
  exact stops_cons.2 (hpq c (all_cons.1 hs).1)

/-- A text that is not empty stops where it did before more was added. -/
lemma Stops.append_right (hs : Stops p s) (hne : s ≠ []) : Stops p (s ++ t) := by
  obtain ⟨c, s, rfl⟩ := List.exists_cons_of_ne_nil hne
  exact stops_cons.2 (stops_cons.1 hs)

/-- A run that may be empty, then a text: both stop. -/
lemma Stops.append (hs : All q s) (hpq : ∀ c, q c = true → p c = false) (ht : Stops p t) :
    Stops p (s ++ t) := by
  by_cases hne : s = []
  · subst hne; exact ht
  · exact stops_append_of_all hs hne hpq

/-- The run before a text that does not go on with its class. -/
lemma takeWhile_append (hs : All p s) (ht : Stops p t) : (s ++ t).takeWhile p = s := by
  induction s with
  | nil =>
    cases t with
    | nil => rfl
    | cons c t => simp [stops_cons.1 ht]
  | cons c s ih =>
    obtain ⟨hc, hs⟩ := all_cons.1 hs
    rw [List.cons_append, List.takeWhile_cons_of_pos hc, ih hs]

/-- The text behind a run that it does not go on. -/
lemma dropWhile_append (hs : All p s) (ht : Stops p t) : (s ++ t).dropWhile p = t := by
  induction s with
  | nil =>
    cases t with
    | nil => rfl
    | cons c t => simp [stops_cons.1 ht]
  | cons c s ih =>
    obtain ⟨hc, hs⟩ := all_cons.1 hs
    rw [List.cons_append, List.dropWhile_cons_of_pos hc, ih hs]

/-- A text is a run and a text that does not go on with it in only one way. -/
lemma append_inj {s' t' : List α} (hs : All p s) (ht : Stops p t) (hs' : All p s')
    (ht' : Stops p t') (h : s ++ t = s' ++ t') : s = s' ∧ t = t' := by
  constructor
  · rw [← takeWhile_append hs ht, h, takeWhile_append hs' ht']
  · rw [← dropWhile_append hs ht, h, dropWhile_append hs' ht']

/-- A text that does not begin with the class loses nothing. -/
lemma dropWhile_of_stops (ht : Stops p t) : t.dropWhile p = t := dropWhile_append all_nil ht

/-- A text without its first run does not begin with the class. -/
lemma stops_dropWhile (p : α → Bool) (s : List α) : Stops p (s.dropWhile p) := by
  induction s with
  | nil => exact stops_nil
  | cons c s ih =>
    cases hc : p c with
    | true => rwa [List.dropWhile_cons_of_pos hc]
    | false =>
      rw [List.dropWhile_cons_of_neg (by simp [hc])]
      exact stops_cons.2 hc

/-- A text is its first run and the rest. -/
lemma exists_run (p : α → Bool) (s : List α) : ∃ t, All p t ∧ s = t ++ s.dropWhile p :=
  ⟨s.takeWhile p, fun _ hc => List.mem_takeWhile_imp hc, List.takeWhile_append_dropWhile.symm⟩

/-- The run at the end of a text. -/
lemma takeWhile_of_all (hs : All p s) : s.takeWhile p = s := by
  simpa using takeWhile_append hs stops_nil

/-- Stripping a text from its end stops at a character that is not stripped. -/
lemma rdropWhile_append_cons (h : p c = false) :
    ∃ t', (s ++ c :: t).rdropWhile p = s ++ c :: t' := by
  induction t using List.reverseRecOn with
  | nil => exact ⟨[], List.rdropWhile_concat_neg _ _ _ (by simp [h])⟩
  | append_singleton t x ih =>
    rw [← List.cons_append, ← List.append_assoc]
    by_cases hx : p x = true
    · rw [List.rdropWhile_concat_pos _ _ _ hx]; exact ih
    · exact ⟨t ++ [x], by rw [List.rdropWhile_concat_neg _ _ _ hx]; simp⟩

/-- Stripping a run from the end of a text that has none of its class. -/
lemma rdropWhile_append_all (hs : ∀ c ∈ s, p c = false) (ht : All p t) :
    (s ++ t).rdropWhile p = s := by
  induction t using List.reverseRecOn with
  | nil =>
    rw [List.append_nil, List.rdropWhile_eq_self_iff]
    intro hne
    simp [hs _ (List.getLast_mem hne)]
  | append_singleton t x ih =>
    obtain ⟨ht, hx⟩ := all_append.1 ht
    rw [← List.append_assoc, List.rdropWhile_concat_pos _ _ _ (hx x (by simp)), ih ht]

/-- A text is of one kind, or has a last character that is not. -/
lemma last_cases (p : α → Bool) (s : List α) :
    All p s ∨ ∃ t c u, s = t ++ [c] ++ u ∧ p c = false ∧ All p u ∧ s.rdropWhile p = t ++ [c] := by
  induction s using List.reverseRecOn with
  | nil => exact Or.inl all_nil
  | append_singleton s d ih =>
    by_cases hd : p d = true
    · obtain hall | ⟨t, c, u, rfl, hc, hu, hdrop⟩ := ih
      · exact Or.inl (all_append.2 ⟨hall, all_cons.2 ⟨hd, all_nil⟩⟩)
      · refine Or.inr ⟨t, c, u ++ [d], by simp, hc, all_append.2 ⟨hu, all_cons.2 ⟨hd, all_nil⟩⟩, ?_⟩
        rw [List.rdropWhile_concat_pos _ _ _ hd, hdrop]
    · refine Or.inr ⟨s, d, [], by simp, (Bool.not_eq_true _).mp hd, all_nil, ?_⟩
      rw [List.rdropWhile_concat_neg _ _ _ hd]

/-- A text has only one last part behind a character. -/
lemma append_cons_inj {s' t' : List α} (ht : c ∉ t) (ht' : c ∉ t')
    (h : s ++ c :: t = s' ++ c :: t') : s = s' ∧ t = t' := by
  classical
  have hall {u : List α} (hu : c ∉ u) : All (fun x => decide (x ≠ c)) u.reverse := fun x hx =>
    decide_eq_true fun hxc => hu (hxc ▸ List.mem_reverse.1 hx)
  have hstops (u : List α) : Stops (fun x => decide (x ≠ c)) (c :: u) := by
    simp [Stops]
  have hrev := congrArg List.reverse h
  simp only [List.reverse_append, List.reverse_cons, List.append_assoc, List.singleton_append]
    at hrev
  obtain ⟨hts, hss⟩ := append_inj (hall ht) (hstops _) (hall ht') (hstops _) hrev
  exact ⟨List.reverse_injective (List.cons.inj hss).2, List.reverse_injective hts⟩

end Scan
