import SE101.Lib.Lines
import SE101.Y64Asm.Reading
import SE101.Y64Asm.Relocation

set_option relaxedAutoImplicit false
set_option autoImplicit false

/-!
# The lines that the assembler is given

`assemble` reads its source with `fgets` into a buffer of `MAX_INSLEN` characters. A longer line
comes in pieces, each of which is given to `parse_line` as if it were a line, and a null character
hides what follows it in its piece. So the lines that `parse_line` gets are those of the file
exactly when every line fits the buffer and has no null character, and no line of terminators
only makes the loop go on below the buffer.

## Main definitions

* `Y64.Asm.fileLines` — the lines of a file without their terminators.
* `Y64.Asm.linesGiven` — the lines that `parse_line` is given, as long as it accepts them.
* `Y64.Asm.LinesKept` — what the loop is meant to do.

## Main results

* `Y64.Asm.assemble_of_linesGiven` — `assemble` parses the lines that it is given.
* `Y64.Asm.linesKept_iff` — the files whose lines are kept.
* `Y64.Asm.assemble_fileLines` — `assemble` on such a file.
* `Y64.Asm.not_linesKept` — a long comment whose end is code.
-/

namespace Y64.Asm

open Scan

variable {env : Env} {before : Char} {input asmBuf : Chars} {ls : List Chars} {st : State}

/-! ## The lines of a file -/

/-- The lines of a file without their terminators. -/
def fileLines (input : Chars) : List Chars :=
  (Lines.lines '\n' input).map (List.rdropWhile isTerminator)

/-- A line fits: it leaves room for the null character that `fgets` adds, has no null character
itself, and the loop that strips its terminators stops inside of the buffer or right below it. -/
def LineFits (before : Char) (l : Chars) : Prop :=
  l.length < maxInslen ∧ '\x00' ∉ l ∧ (All isTerminator l → isTerminator before = false)

/-- Every line of a file fits. -/
def Fits (before : Char) (input : Chars) : Prop :=
  ∀ l ∈ Lines.lines '\n' input, LineFits before l

/-! ## The loop of `assemble` -/

section Loop

variable {σ : Type} {give : Chars → σ → Except Stop σ}

/-- The loop of `assemble`, where `give` is what is done with the line in `asm_buf`. -/
def readLoop (before : Char) (give : Chars → σ → Except Stop σ) :
    ℕ → Chars → σ → Except Stop σ
  | 0, _, s => .ok s
  | fuel + 1, input, s =>
    match fgets (maxInslen - 1) input with
    | ([], _) => .ok s
    | (asmBuf, input) => do
      let y64asm ← strip before (cstr asmBuf)
      let s ← give y64asm s
      readLoop before give fuel input s

/-- The lines that `parse_line` is given, as long as it accepts them. -/
def linesGiven (before : Char) (input : Chars) : Except Stop (List Chars) :=
  readLoop before (fun y64asm ls => .ok (ls ++ [y64asm])) (input.length + 1) input []

/-- The loop of `assemble` gives its lines to `parse_line`. -/
lemma assembleLoop_eq (fuel : ℕ) : ∀ (input : Chars) (st : State),
    assembleLoop env fuel input st = readLoop env.before (giveLine env) fuel input st := by
  induction fuel with
  | zero =>
    intro input st
    rfl
  | succ fuel ih =>
    intro input st
    rw [assembleLoop, readLoop]
    generalize fgets (maxInslen - 1) input = r
    obtain ⟨asmBuf, rest⟩ := r
    cases asmBuf with
    | nil => rfl
    | cons c u => simp only [assembleLine, giveLine, ih, bind_assoc]

/-- `fgets` reads one piece. -/
lemma fgets_eq (n : ℕ) (input : Chars) : fgets n input =
    (Lines.line '\n' n input, input.drop (Lines.line '\n' n input).length) := by
  induction n generalizing input with
  | zero => rfl
  | succ n ih =>
    cases input with
    | nil => rfl
    | cons c input =>
      rw [fgets, Lines.line, ih]
      split_ifs <;> rfl

/-- The loop goes through the pieces of the input. -/
lemma readLoop_eq (fuel : ℕ) : ∀ (input : Chars) (s : σ), input.length < fuel →
    readLoop before give fuel input s =
      (Lines.cut '\n' (maxInslen - 1) input).foldlM
        (fun s asmBuf => strip before (cstr asmBuf) >>= fun y64asm => give y64asm s) s := by
  induction fuel with
  | zero => exact fun _ _ h => absurd h (Nat.not_lt_zero _)
  | succ fuel ih =>
    intro input s hfuel
    rw [readLoop, fgets_eq, Lines.cut]
    by_cases hnil : Lines.line '\n' (maxInslen - 1) input = []
    · rw [dif_pos hnil, hnil]
      rfl
    · have hrest := Lines.length_drop_line hnil
      obtain ⟨c, u, hcu⟩ := List.exists_cons_of_ne_nil hnil
      rw [dif_neg hnil, hcu, List.foldlM_cons]
      rw [hcu] at hrest
      simp only [bind_assoc]
      congr 1
      funext y64asm
      congr 1
      funext s'
      exact ih _ s' (by omega)

end Loop

/-- A loop that collects the results of a function. -/
lemma foldlM_append {α β ε : Type} (f : α → Except ε β) (xs : List α) (ys : List β) :
    xs.foldlM (fun ys x => f x >>= fun y => .ok (ys ++ [y])) ys =
      (ys ++ ·) <$> xs.mapM f := by
  induction xs generalizing ys with
  | nil => simp [pure, Except.pure, Functor.map, Except.map]
  | cons x xs ih =>
    rw [List.foldlM_cons, List.mapM_cons, bind_assoc, map_bind]
    congr 1
    funext y
    show xs.foldlM _ (ys ++ [y]) = _
    rw [ih, map_bind]
    cases xs.mapM f with
    | error e => rfl
    | ok zs => exact congrArg Except.ok (List.append_assoc ys [y] zs)

/-- The lines that `parse_line` is given. -/
lemma linesGiven_eq : linesGiven before input =
    (Lines.cut '\n' (maxInslen - 1) input).mapM fun asmBuf => strip before (cstr asmBuf) := by
  rw [linesGiven, readLoop_eq _ _ _ (Nat.lt_succ_self _), foldlM_append]
  cases (Lines.cut '\n' (maxInslen - 1) input).mapM fun asmBuf => strip before (cstr asmBuf) <;> rfl

/-- A loop over the results of a function. -/
lemma foldlM_of_mapM {α β σ ε : Type} {f : α → Except ε β} {g : σ → β → Except ε σ}
    {xs : List α} {ys : List β} (h : xs.mapM f = .ok ys) (s : σ) :
    xs.foldlM (fun s x => f x >>= fun y => g s y) s = ys.foldlM g s := by
  induction xs generalizing ys s with
  | nil =>
    obtain rfl := Except.ok.inj h
    rfl
  | cons x xs ih =>
    rw [List.mapM_cons] at h
    cases hx : f x with
    | error e =>
      rw [hx] at h
      cases h
    | ok y =>
      cases hxs : xs.mapM f with
      | error e =>
        rw [hx, hxs] at h
        cases h
      | ok zs =>
        rw [hx, hxs] at h
        obtain rfl := Except.ok.inj h
        rw [List.foldlM_cons, List.foldlM_cons, hx]
        show (g s y >>= _) = _
        congr 1
        funext s'
        exact ih hxs s'

/-- `assemble` parses the lines that it is given, one after the other. -/
theorem assemble_of_linesGiven (h : linesGiven env.before input = .ok ls) :
    assemble env input = ls.foldlM (fun st y64asm => giveLine env y64asm st) .init := by
  rw [assemble, assembleLoop_eq, readLoop_eq _ _ _ (Nat.lt_succ_self _)]
  exact foldlM_of_mapM (linesGiven_eq.symm.trans h) _

/-! ## One line -/

/-- The loop over terminators stays where it is safe. -/
lemma strip_eq_ok_iff {l : Chars} :
    strip before l = .ok (l.rdropWhile isTerminator) ↔
      (All isTerminator l → isTerminator before = false) := by
  have hall : l.all isTerminator = true ↔ All isTerminator l := List.all_eq_true
  rw [strip_eq_ite]
  split_ifs with h
  · refine iff_of_false (fun h => by cases h) fun hb => ?_
    exact Bool.false_ne_true ((hb (hall.1 h.1)).symm.trans h.2)
  · refine iff_of_true rfl fun hl => ?_
    by_contra hb
    exact h ⟨hall.2 hl, (Bool.not_eq_false _).mp hb⟩

/-- A line has no terminators at its end that are not stripped, and what is no terminator stays. -/
lemma mem_rdropWhile {l : Chars} {c : Char} (hc : isTerminator c = false) (hl : c ∈ l) :
    c ∈ l.rdropWhile isTerminator := by
  obtain ⟨s, t, rfl⟩ := List.append_of_mem hl
  obtain ⟨t', ht'⟩ := rdropWhile_append_cons (s := s) (t := t) hc
  rw [ht']
  exact List.mem_append_right _ List.mem_cons_self

/-- A line that fits is given to `parse_line` without its terminators. -/
lemma strip_cstr_iff {l : Chars} :
    strip before (cstr l) = .ok (l.rdropWhile isTerminator) ↔
      '\x00' ∉ l ∧ (All isTerminator l → isTerminator before = false) := by
  by_cases hnul : '\x00' ∈ l
  · refine iff_of_false (fun h => ?_) fun h => h.1 hnul
    have hmem : '\x00' ∈ (cstr l).rdropWhile isTerminator := by
      rw [strip_eq_ite] at h
      split_ifs at h
      rw [Except.ok.inj h]
      exact mem_rdropWhile (by decide) hnul
    have hcstr := List.mem_takeWhile_imp ((List.rdropWhile_prefix _ _).subset hmem)
    exact absurd rfl (of_decide_eq_true hcstr)
  · have hcstr : cstr l = l := takeWhile_of_all fun c hc => by
      rw [decide_eq_true_iff]
      rintro rfl
      exact hnul hc
    rw [hcstr, strip_eq_ok_iff, and_iff_right hnul]

/-! ## All lines -/

/-- As many results as arguments. -/
lemma length_of_mapM {α β ε : Type} {f : α → Except ε β} {xs : List α} {ys : List β}
    (h : xs.mapM f = .ok ys) : ys.length = xs.length := by
  induction xs generalizing ys with
  | nil =>
    obtain rfl := Except.ok.inj h
    rfl
  | cons x xs ih =>
    rw [List.mapM_cons] at h
    cases hx : f x with
    | error e =>
      rw [hx] at h
      cases h
    | ok y =>
      cases hxs : xs.mapM f with
      | error e =>
        rw [hx, hxs] at h
        cases h
      | ok zs =>
        rw [hx, hxs] at h
        obtain rfl := Except.ok.inj h
        rw [List.length_cons, List.length_cons, ih hxs]

/-- The results are given by a function. -/
lemma mapM_eq_map_iff {α β ε : Type} {f : α → Except ε β} {g : α → β} {xs : List α} :
    xs.mapM f = .ok (xs.map g) ↔ ∀ x ∈ xs, f x = .ok (g x) := by
  induction xs with
  | nil => exact iff_of_true rfl fun _ h => absurd h List.not_mem_nil
  | cons x xs ih =>
    rw [List.mapM_cons, List.forall_mem_cons, ← ih, List.map_cons]
    cases f x with
    | error e => exact iff_of_false (fun h => by cases h) fun h => by cases h.1
    | ok y =>
      cases xs.mapM f with
      | error e => exact iff_of_false (fun h => by cases h) fun h => by cases h.2
      | ok ys =>
        show (Except.ok (y :: ys) : Except ε (List β)) = _ ↔ _
        simp

/-- The lines that are given are those of the file. -/
lemma linesGiven_fileLines :
    linesGiven before input = .ok (fileLines input) ↔ Fits before input := by
  have hfit : (∀ l ∈ Lines.lines '\n' input, l.length ≤ maxInslen - 1) →
      (linesGiven before input = .ok (fileLines input) ↔ Fits before input) := by
    intro hlen
    rw [linesGiven_eq, Lines.cut_eq_lines (by decide) hlen, fileLines, mapM_eq_map_iff]
    refine forall₂_congr fun l hl => ?_
    have hlt : l.length < maxInslen := Nat.lt_of_le_pred (by decide) (hlen l hl)
    rw [strip_cstr_iff, LineFits, and_iff_right hlt]
  constructor
  · intro h
    refine (hfit ?_).1 h
    have hlength := length_of_mapM (linesGiven_eq.symm.trans h)
    rw [fileLines, List.length_map] at hlength
    exact (Lines.length_cut_eq_iff (by decide)).1 hlength.symm
  · intro h
    exact (hfit fun l hl => Nat.le_pred_of_lt (h l hl).1).2 h

/-- The lines of a file are not rejected as too long. -/
lemma linesGiven_ne_err : linesGiven before input ≠ .error .err := by
  rw [linesGiven_eq]
  generalize Lines.cut '\n' (maxInslen - 1) input = pieces
  induction pieces with
  | nil => exact fun h => by cases h
  | cons p pieces ih =>
    rw [List.mapM_cons, strip_eq_ite]
    split_ifs
    · exact fun h => by cases h
    · intro h
      cases hps : pieces.mapM fun asmBuf => strip before (cstr asmBuf) with
      | error e =>
        rw [hps] at h
        obtain rfl := Except.error.inj h
        exact ih hps
      | ok ys =>
        rw [hps] at h
        cases h

/-- What the loop is meant to do: the lines that `parse_line` is given are those of the file
without their terminators, or one of them is too long and that is an error. -/
def LinesKept (before : Char) (input : Chars) : Prop :=
  linesGiven before input = .ok (fileLines input) ∨
    (∃ l ∈ Lines.lines '\n' input, maxInslen ≤ l.length) ∧
      linesGiven before input = .error .err

/-- **Lines.** The files whose lines are kept.

**Proof sketch.** A line that is too long makes more pieces than lines, so all lines have to fit.
Then the pieces are the lines, and each of them must be stripped to what stands before its
terminators; a null character is no terminator, but ends the string. -/
theorem linesKept_iff : LinesKept before input ↔ Fits before input := by
  rw [LinesKept, or_iff_left fun h => linesGiven_ne_err h.2]
  exact linesGiven_fileLines

/-- `assemble` on a file whose lines fit is the parser on the lines of the file. -/
theorem assemble_fileLines (h : Fits env.before input) :
    assemble env input = (fileLines input).foldlM (fun st y64asm => giveLine env y64asm st) .init :=
  assemble_of_linesGiven (linesGiven_fileLines.2 h)

/-- A comment of `n` blanks that goes on with an instruction. -/
def commentSource (n : ℕ) : Chars := '#' :: (List.replicate n ' ' ++ ['h', 'a', 'l', 't', '\n'])

/-- The file is one line. -/
lemma lines_commentSource (n : ℕ) : Lines.lines '\n' (commentSource n) = [commentSource n] := by
  have hbody : '\n' ∉ '#' :: (List.replicate n ' ' ++ ['h', 'a', 'l', 't']) := by
    simp [List.mem_replicate]
  have hcut := Lines.lines_append_cons (t := []) hbody
  have hsource : commentSource n =
      '#' :: (List.replicate n ' ' ++ ['h', 'a', 'l', 't']) ++ '\n' :: [] := by
    simp [commentSource]
  rw [hsource, hcut]
  rfl

/-- The end of a comment that fills the buffer is assembled. -/
theorem not_linesKept : ¬ LinesKept Env.zero.before (commentSource 510) ∧
    ∃ st, assemble .zero (commentSource 510) = .ok st ∧ ∃ line ∈ st.lines, line.emits = true := by
  constructor
  · rw [LinesKept, or_iff_left fun h => linesGiven_ne_err h.2, linesGiven_fileLines]
    intro hfits
    have hlen (n : ℕ) : (commentSource n).length = n + 6 := by simp [commentSource]
    have hfit := (hfits (commentSource 510) (by rw [lines_commentSource]; exact .head _)).1
    rw [hlen] at hfit
    exact absurd hfit (by decide)
  · have hrun : ((assemble .zero (commentSource 510)).toOption.any fun st =>
        st.lines.any LineT.emits) = true := by decide +kernel
    cases hasm : assemble .zero (commentSource 510) with
    | error e =>
      rw [hasm] at hrun
      cases hrun
    | ok st =>
      rw [hasm] at hrun
      exact ⟨st, rfl, List.any_eq_true.1 hrun⟩

end Y64.Asm
