import Mathlib.Data.List.Find
import SE101.Y64Asm.Entries

set_option relaxedAutoImplicit false
set_option autoImplicit false

/-!
# Names and their spelling

`parse_label` and `parse_symbol` copy a token into a buffer from `malloc` and put no null character
behind it. So the name that `find_symbol` and `add_symbol` compare is the token with what `malloc`
left behind it, and two names are the same for the right reason exactly when what is left behind
the tokens lets them be.

## Main definitions

* `Y64.Asm.Read` — a token that one of the two functions has read.
* `Y64.Asm.BySpelling` — what the symbol table is meant to do.
* `Y64.Asm.TailsAgree` — what is left behind two tokens keeps their spellings apart.

## Main results

* `Y64.Asm.name_eq_iff` — when two names are the same for the right reason.
* `Y64.Asm.bySpelling_iff` — when all tables of some tokens find them by their spelling.
* `Y64.Asm.exists_names` — the names in the tables after any accepted lines.
* `Y64.Asm.not_bySpelling` — a label that its reference does not find.
-/

namespace Y64.Asm

/-! ## Tokens -/

/-- A token that `parse_label` or `parse_symbol` has read, given a text and a buffer. -/
structure Read where
  /-- The text. -/
  text : Chars
  /-- The buffer, as `malloc` returned it. -/
  buf : Buffer
  /-- The name. -/
  name : Chars
  /-- The text behind what was read. -/
  rest : Chars
  reads : parseLabel buf text = some (name, rest) ∨ parseSymbol buf text = some (name, rest)

/-- The characters that were copied. -/
def Read.token (r : Read) : Chars := (skipBlank r.text).takeWhile isName

/-- What `malloc` left behind them, as far as a string goes. -/
def Read.left (r : Read) : Chars := (r.buf.drop r.token.length).takeWhile (· ≠ '\x00')

/-- A label and its address. -/
abbrev Def := Read × Long

/-- The entry of the symbol table for a label. -/
def Def.entry (d : Def) : SymbolT := ⟨d.1.name, d.2⟩

/-- What the symbol table of some labels is meant to do with a token: a reference finds the label
of the same spelling, and a label is a duplicate when there is one. -/
structure BySpelling (defs : List Def) (r : Read) : Prop where
  find : findSymbol (defs.map Def.entry) r.name =
    (defs.find? fun d => d.1.token == r.token).map Def.entry
  add : ∀ st, st.symtab = defs.map Def.entry →
    (addSymbol st r.name = none ↔ ∃ d ∈ defs, d.1.token = r.token)

/-- What is left behind two tokens keeps their spellings apart: when the second goes on with `u`
where the first ends, then what is left behind the first goes on with `u`, and with what is left
behind the second, only when there is no `u`; and then it does. -/
def TailsAgree (r₁ r₂ : Read) : Prop :=
  ∀ u, r₂.token = r₁.token ++ u → (r₁.left = u ++ r₂.left ↔ u = [])

variable {r r₁ r₂ : Read} {defs : List Def}

/-! ## Two names -/

/-- A name is its token with what is left behind it. -/
lemma Read.name_eq (r : Read) : r.name = r.token ++ r.left := by
  obtain h | h := r.reads
  · simp only [parseLabel] at h
    split_ifs at h
    split at h
    · exact (congrArg Prod.fst (Option.some.inj h)).symm
    · cases h
  · simp only [parseSymbol] at h
    split_ifs at h
    exact (congrArg Prod.fst (Option.some.inj h)).symm

/-- Two names are the same for the right reason.

**Proof sketch.** When the names are the same, one token goes on where the other ends, and what is
left behind the other goes on in the same way. -/
theorem name_eq_iff : (r₁.name = r₂.name ↔ r₁.token = r₂.token) ↔
    TailsAgree r₁ r₂ ∧ TailsAgree r₂ r₁ := by
  have half {r₁ r₂ : Read} (h : r₁.name = r₂.name ↔ r₁.token = r₂.token) : TailsAgree r₁ r₂ := by
    intro u hu
    calc r₁.left = u ++ r₂.left ↔ r₁.name = r₂.name := by
          rw [r₁.name_eq, r₂.name_eq, hu, List.append_assoc, List.append_cancel_left_eq]
      _ ↔ r₁.token = r₂.token := h
      _ ↔ u = [] := by rw [hu, List.self_eq_append_right]
  constructor
  · intro h
    exact ⟨half h, half (eq_comm.trans (h.trans eq_comm))⟩
  · rintro ⟨h₁₂, h₂₁⟩
    constructor
    · intro h
      rw [r₁.name_eq, r₂.name_eq] at h
      obtain ⟨u, hu, hleft⟩ | ⟨u, hu, hleft⟩ := List.append_eq_append_iff.1 h
      · rw [hu, (h₁₂ u hu).1 hleft, List.append_nil]
      · rw [hu, (h₂₁ u hu).1 hleft, List.append_nil]
    · intro h
      have hleft := (h₁₂ [] (by rw [List.append_nil, h])).2 rfl
      rw [r₁.name_eq, r₂.name_eq, h, hleft, List.nil_append]

/-! ## Tables -/

/-- `add_symbol` looks the name up. -/
lemma addSymbol_eq_none (st : State) (name : Chars) :
    addSymbol st name = none ↔ (findSymbol st.symtab name).isSome = true := by
  unfold addSymbol
  split_ifs with h
  · exact iff_of_true rfl h
  · exact iff_of_false (fun h => by cases h) h

/-- Where every name of the table is compared as its spelling, the table finds by spelling. -/
lemma bySpelling_of (h : ∀ d ∈ defs, (d.1.name = r.name ↔ d.1.token = r.token)) :
    BySpelling defs r := by
  have hfind : findSymbol (defs.map Def.entry) r.name =
      (defs.find? fun d => d.1.token == r.token).map Def.entry := by
    rw [findSymbol, List.find?_map]
    congr 1
    refine List.find?_congr fun d hd => ?_
    rw [Bool.eq_iff_iff, beq_iff_eq, ← h d hd]
    exact beq_iff_eq
  refine ⟨hfind, fun st hst => ?_⟩
  rw [addSymbol_eq_none, hst, hfind, Option.isSome_map, List.find?_isSome]
  simp

/-- A table of one label compares the names. -/
lemma name_eq_of_bySpelling {a : Long} (h : BySpelling [(r₁, a)] r₂) :
    r₁.name = r₂.name ↔ r₁.token = r₂.token := by
  have hst := h.add ⟨[], [Def.entry (r₁, a)], [], 0⟩ rfl
  rw [addSymbol_eq_none] at hst
  simpa [findSymbol, Def.entry] using hst

/-- **Spelling.** The tokens that every table finds by their spelling. -/
theorem bySpelling_iff (R : Set Read) :
    (∀ (defs : List Def) (r : Read), (∀ d ∈ defs, d.1 ∈ R) → r ∈ R → BySpelling defs r) ↔
      ∀ r₁ ∈ R, ∀ r₂ ∈ R, TailsAgree r₁ r₂ := by
  constructor
  · intro h r₁ h₁ r₂ h₂
    refine (name_eq_iff.1 (name_eq_of_bySpelling (a := 0) (h _ r₂ (fun d hd => ?_) h₂))).1
    obtain rfl := List.mem_singleton.1 hd
    exact h₁
  · intro h defs r hdefs hr
    exact bySpelling_of fun d hd =>
      name_eq_iff.2 ⟨h d.1 (hdefs d hd) r hr, h r hr d.1 (hdefs d hd)⟩

/-! ## Runs -/

/-- The tokens that are read into the buffers of a run. -/
def Env.reads (env : Env) : Set Read :=
  {r | ∃ k, r.buf = env.labelBuf k ∨ r.buf = env.symbolBuf k}

/-- The names in the tables are those of tokens that were read. -/
structure Names (env : Env) (st : State) (defs : List Def) : Prop where
  symtab : st.symtab = defs.map Def.entry
  defs : ∀ d ∈ defs, d.1 ∈ env.reads
  refs : ∀ e ∈ st.reltab, ∃ r ∈ env.reads, r.name = e.name

variable {env : Env} {st st' : State}

/-- A line that `parse_line` accepts reads its names. -/
lemma Names.giveLine {y64asm : Chars} (hn : Names env st defs)
    (h : giveLine env y64asm st = .ok st') : ∃ defs', Names env st' defs' := by
  simp only [Asm.giveLine, bind_eq_ok] at h
  obtain ⟨⟨line, st₁⟩, hparse, h⟩ := h
  obtain rfl := Except.ok.inj h
  obtain ⟨hrel, hsym⟩ := parseLine_entry hparse
  have hrefs : ∀ e ∈ st₁.reltab, ∃ r ∈ env.reads, r.name = e.name := by
    intro e he
    obtain heq | ⟨text, name, rest, hread, heq, -⟩ := hrel
    · exact hn.refs e (heq ▸ he)
    · rw [heq] at he
      obtain he | he := List.mem_append.1 he
      · exact hn.refs e he
      · obtain rfl := List.mem_singleton.1 he
        exact ⟨⟨text, _, name, rest, Or.inr hread⟩, ⟨_, Or.inr rfl⟩, rfl⟩
  obtain heq | ⟨text, name, rest, addr, hread, -, heq⟩ := hsym
  · exact ⟨defs, heq.trans hn.symtab, hn.defs, hrefs⟩
  · refine ⟨defs ++ [(⟨text, _, name, rest, Or.inl hread⟩, addr)], ?_, ?_, hrefs⟩
    · rw [List.map_append, ← hn.symtab]
      exact heq
    · intro d hd
      obtain hd | hd := List.mem_append.1 hd
      · exact hn.defs d hd
      · obtain rfl := List.mem_singleton.1 hd
        exact ⟨_, Or.inl rfl⟩

/-- The names in the tables after any accepted lines. -/
theorem exists_names {ls : List Chars} (h : parseLines env ls = .ok st) :
    ∃ defs, Names env st defs := by
  have key : ∀ (ls : List Chars) (st₀ : State) (defs : List Def), Names env st₀ defs →
      ls.foldlM (fun st y64asm => Asm.giveLine env y64asm st) st₀ = .ok st →
      ∃ defs, Names env st defs := by
    intro ls
    induction ls with
    | nil =>
      intro st₀ defs hn h
      obtain rfl := Except.ok.inj h
      exact ⟨defs, hn⟩
    | cons l ls ih =>
      intro st₀ defs hn h
      rw [List.foldlM_cons, bind_eq_ok] at h
      obtain ⟨st₁, hline, h⟩ := h
      obtain ⟨defs', hn'⟩ := hn.giveLine hline
      exact ih st₁ defs' hn' h
  refine key ls .init [] ⟨rfl, fun _ h => absurd h List.not_mem_nil, fun _ h => ?_⟩ h
  exact absurd h List.not_mem_nil

/-- Where the buffers keep spellings apart, every reference of a run finds the label of the same
spelling, if there is one. -/
theorem Names.find (hn : Names env st defs)
    (hapart : ∀ r₁ ∈ env.reads, ∀ r₂ ∈ env.reads, TailsAgree r₁ r₂) :
    ∀ e ∈ st.reltab, ∃ r : Read, r.name = e.name ∧ findSymbol st.symtab e.name =
      (defs.find? fun d => d.1.token == r.token).map Def.entry := by
  intro e he
  obtain ⟨r, hr, hname⟩ := hn.refs e he
  have hspell : BySpelling defs r := bySpelling_of fun d hd =>
    name_eq_iff.2 ⟨hapart _ (hn.defs d hd) r hr, hapart r hr _ (hn.defs d hd)⟩
  exact ⟨r, hname, by rw [hn.symtab, ← hname, hspell.find]⟩

/-- A label in a cleared buffer. -/
def labelRead : Read :=
  ⟨['L', ':'], List.replicate maxInslen '\x00', ['L'], [], Or.inl rfl⟩

/-- A reference to it in a buffer that held something. -/
def dirtyRead : Read :=
  ⟨['L'], ['J', '2'] ++ List.replicate (maxInslen - 2) '\x00', ['L', '2'], [], Or.inr rfl⟩

/-- The label is defined, and the reference does not find it. -/
theorem not_bySpelling : labelRead.token = dirtyRead.token ∧
    ¬ BySpelling [(labelRead, 0)] dirtyRead := by
  refine ⟨rfl, fun h => ?_⟩
  have hsame : labelRead.name = dirtyRead.name := (name_eq_of_bySpelling h).2 rfl
  exact absurd hsame (by decide)

end Y64.Asm
