import SE101.Y64Asm.Assembler

set_option relaxedAutoImplicit false
set_option autoImplicit false

/-!
# The output image of the assembler

`binfile` computes the size of the image in one loop over the lines and copies their code in
another. The first loop keeps the end of the last line that has code, so the copies stay
inside the image only when no line ends behind that one.

## Main definitions

* `Y64.Asm.InImage` — the code of every line lies inside the image.
* `Y64.Asm.Written` — an output has the code of every line at its address.
* `Y64.Asm.Placed` — the condition on the addresses of the lines.

## Main results

* `Y64.Asm.filesize_eq` — the size is the end of the last line that has code.
* `Y64.Asm.fillImage_eq` — a byte of the image, when the lines that cover it agree on it.
* `Y64.Asm.binfile_contains_iff` — the output has all of the code exactly when the lines are
  placed.
-/

namespace Y64.Asm

/-! ## What an output has to contain -/

/-- The address behind the code. -/
def BinT.stop (b : BinT) : ℤ := b.addr.toInt + b.bytes

/-- Every line's code lies inside the image that `binfile` allocates. -/
def InImage (lines : List LineT) : Prop :=
  ∀ line ∈ lines, line.emits → 0 ≤ line.y64bin.addr.toInt ∧ line.y64bin.stop ≤ filesize lines

/-- An output has every line's code at the line's address. -/
def Written (lines : List LineT) (out : List Byte) : Prop :=
  ∀ line ∈ lines, line.emits → ∀ i < line.y64bin.bytes,
    out[(line.y64bin.addr.toInt + i).toNat]? = some (line.y64bin.codes i)

/-- The lines that have code are at addresses that are not negative, none of them ends behind
the last one, which ends below `2 ^ 31`, and two that overlap have the same bytes there. -/
structure Placed (lines : List LineT) : Prop where
  nonneg : ∀ line ∈ lines, line.emits → 0 ≤ line.y64bin.addr.toInt
  last : ∀ last ∈ (lines.filter LineT.emits).getLast?, last.y64bin.stop < 2 ^ 31 ∧
    ∀ line ∈ lines, line.emits → line.y64bin.stop ≤ last.y64bin.stop
  agree : ∀ line ∈ lines, line.emits → ∀ line' ∈ lines, line'.emits →
    ∀ i < line.y64bin.bytes, ∀ i' < line'.y64bin.bytes,
      line.y64bin.addr.toInt + i = line'.y64bin.addr.toInt + i' →
      line.y64bin.codes i = line'.y64bin.codes i'

/-! ## The two loops -/

variable {lines : List LineT} {line : LineT}

/-- The size is the end of the last line that has code, as an `int`. -/
lemma filesize_eq (lines : List LineT) :
    filesize lines =
      ((lines.filter LineT.emits).getLast?.map fun line => line.y64bin.endInt).getD 0 := by
  induction lines using List.reverseRecOn with
  | nil => rfl
  | append_singleton lines line ih =>
    rw [filesize, List.foldl_append, ← filesize, ih, List.filter_append]
    by_cases h : line.emits <;> simp [h]

/-- A line covers an address. -/
def BinT.Covers (b : BinT) (x : Long) : Prop := (x - b.addr).toNat < b.bytes

/-- A byte of the image, when some line covers it and all that do agree on it. -/
lemma fillImage_eq {x : Long} {v : Byte}
    (hex : ∃ line ∈ lines, line.emits ∧ line.y64bin.Covers x)
    (hall : ∀ line ∈ lines, line.emits → line.y64bin.Covers x →
      line.y64bin.codes (x - line.y64bin.addr).toNat = v) :
    fillImage lines x = v := by
  induction lines using List.reverseRecOn with
  | nil => simp at hex
  | append_singleton lines last ih =>
    rw [fillImage, List.foldl_append, ← fillImage]
    simp only [List.foldl_cons, List.foldl_nil]
    have hrest : ¬ (last.emits = true ∧ last.y64bin.Covers x) → fillImage lines x = v := by
      intro hlast
      refine ih ?_ fun line hm => hall line (by simp [hm])
      obtain ⟨line, hm, hline⟩ := hex
      rcases List.mem_append.1 hm with hm | hm
      · exact ⟨line, hm, hline⟩
      · rw [List.mem_singleton] at hm
        subst hm
        exact absurd hline hlast
    by_cases he : last.emits = true
    · rw [if_pos he, memcpyCodes]
      by_cases hc : last.y64bin.Covers x
      · exact (if_pos hc).trans (hall last (by simp) he hc)
      · exact (if_neg hc).trans (hrest fun h => hc h.2)
    · rw [if_neg he]
      exact hrest fun h => he h.1

/-! ## Addresses -/

/-- An address that is not negative is an offset. -/
lemma toNat_eq_toInt {a : Long} (h : 0 ≤ a.toInt) : (a.toNat : ℤ) = a.toInt := by
  rw [BitVec.toInt_eq_toNat_cond] at h ⊢
  split_ifs at h ⊢ <;> omega

/-- An end that fits an `int` is not changed by the narrowing. -/
lemma endInt_eq {b : BinT} (h0 : 0 ≤ b.addr.toInt) (h1 : b.stop < 2 ^ 31) :
    b.endInt = b.stop := by
  have hnat := toNat_eq_toInt h0
  unfold BinT.stop at h1 ⊢
  have hlt : b.addr.toNat + b.bytes < 2 ^ 31 := by omega
  rw [BinT.endInt, BitVec.toInt_eq_toNat_cond, BitVec.toNat_setWidth, BitVec.toNat_add,
    BitVec.toNat_ofNat, Nat.mod_eq_of_lt (a := b.bytes) (by omega),
    Nat.mod_eq_of_lt (a := b.addr.toNat + b.bytes) (by omega), Nat.mod_eq_of_lt (by omega),
    if_pos (by omega)]
  omega

/-- An `int` is below `2 ^ 31`. -/
lemma endInt_lt (b : BinT) : b.endInt < 2 ^ 31 :=
  BitVec.toInt_lt (x := (b.addr + BitVec.ofNat 64 b.bytes).setWidth 32)

/-- The size of the image fits an `int`. -/
lemma filesize_lt (lines : List LineT) : filesize lines < 2 ^ 31 := by
  rw [filesize_eq]
  cases (lines.filter LineT.emits).getLast? with
  | none => decide
  | some line => exact endInt_lt _

/-- A line that lies below `2 ^ 31` covers exactly the addresses of its bytes. -/
lemma covers_iff {b : BinT} (h0 : 0 ≤ b.addr.toInt) (h1 : b.stop < 2 ^ 31) {k : ℕ}
    (hk : k < 2 ^ 31) :
    b.Covers (BitVec.ofNat 64 k) ↔ b.addr.toInt ≤ k ∧ (k : ℤ) < b.stop := by
  have hnat := toNat_eq_toInt h0
  unfold BinT.Covers BinT.stop at *
  rw [BitVec.toNat_sub, BitVec.toNat_ofNat, Nat.mod_eq_of_lt (a := k) (by omega)]
  omega

/-- The byte of a line at an address that it covers. -/
lemma toNat_sub_addr {b : BinT} (h0 : 0 ≤ b.addr.toInt) {k i : ℕ} (hk : k < 2 ^ 31)
    (hi : b.addr.toInt + i = k) : (BitVec.ofNat 64 k - b.addr).toNat = i := by
  have hnat := toNat_eq_toInt h0
  rw [BitVec.toNat_sub, BitVec.toNat_ofNat, Nat.mod_eq_of_lt (a := k) (by omega)]
  omega

/-! ## Placed lines -/

/-- A byte of an output. -/
lemma binfile_getElem? {out : List Byte} (h : binfile lines = some out) {k : ℕ}
    (hk : (k : ℤ) < filesize lines) :
    out[k]? = some (fillImage lines (BitVec.ofNat 64 k)) := by
  unfold binfile at h
  split_ifs at h with hneg
  obtain rfl := Option.some.inj h
  simp [show k < (filesize lines).toNat by omega]

/-- The size of the image of placed lines reaches to the end of every line. -/
lemma Placed.inImage (h : Placed lines) : InImage lines := by
  intro line hm he
  refine ⟨h.nonneg line hm he, ?_⟩
  have hmem : line ∈ lines.filter LineT.emits := List.mem_filter.2 ⟨hm, he⟩
  cases hlast : (lines.filter LineT.emits).getLast? with
  | none =>
    rw [List.getLast?_eq_none_iff] at hlast
    simp [hlast] at hmem
  | some last =>
    obtain ⟨hlt, hmax⟩ := h.last last hlast
    obtain ⟨hm', he'⟩ := List.mem_filter.1 (List.mem_of_getLast? hlast)
    rw [filesize_eq, hlast]
    simp only [Option.map_some, Option.getD_some]
    rw [endInt_eq (h.nonneg last hm' he') hlt]
    exact hmax line hm he

/-- The output for placed lines has all of their code. -/
lemma Placed.written (h : Placed lines) {out : List Byte} (hout : binfile lines = some out) :
    Written lines out := by
  intro line hm he i hi
  have hin := h.inImage
  have hlt := filesize_lt lines
  obtain ⟨h0, h1⟩ := hin line hm he
  have hstop : line.y64bin.stop = line.y64bin.addr.toInt + line.y64bin.bytes := rfl
  obtain ⟨k, hk⟩ : ∃ k : ℕ, line.y64bin.addr.toInt + i = k :=
    ⟨(line.y64bin.addr.toInt + i).toNat, by omega⟩
  have hk31 : k < 2 ^ 31 := by omega
  rw [hk, Int.toNat_natCast, binfile_getElem? hout (by omega)]
  congr 1
  apply fillImage_eq
  · exact ⟨line, hm, he, (covers_iff h0 (by omega) hk31).2 (by omega)⟩
  · intro line' hm' he' hc
    obtain ⟨h0', h1'⟩ := hin line' hm' he'
    have hstop' : line'.y64bin.stop = line'.y64bin.addr.toInt + line'.y64bin.bytes := rfl
    rw [covers_iff h0' (by omega) hk31] at hc
    obtain ⟨i', hi'⟩ : ∃ i' : ℕ, line'.y64bin.addr.toInt + i' = k :=
      ⟨(k - line'.y64bin.addr.toInt).toNat, by omega⟩
    rw [toNat_sub_addr h0' hk31 hi']
    exact h.agree line' hm' he' line hm he i' (by omega) i hi (by omega)

/-- Lines that are inside the image and in the output are placed.

**Proof sketch.** The size of the image is an `int`, so every line ends below `2 ^ 31` and the
end of the last one is not changed by the narrowing: it is the size, and bounds all ends. Two
lines that overlap have both written the same byte of the output. -/
lemma placed_of_written (hin : InImage lines) {out : List Byte} (hw : Written lines out) :
    Placed lines where
  nonneg line hm he := (hin line hm he).1
  last last hlast := by
    obtain ⟨hm, he⟩ := List.mem_filter.1 (List.mem_of_getLast? hlast)
    obtain ⟨h0, h1⟩ := hin last hm he
    have hlt := filesize_lt lines
    have hsize : filesize lines = last.y64bin.stop := by
      rw [filesize_eq, Option.mem_def.1 hlast]
      exact endInt_eq h0 (by omega)
    exact ⟨by omega, fun line hm he => hsize ▸ (hin line hm he).2⟩
  agree line hm he line' hm' he' i hi i' hi' heq := by
    have h1 := hw line hm he i hi
    have h2 := hw line' hm' he' i' hi'
    rw [heq] at h1
    exact Option.some.inj (h1.symm.trans h2)

/-- The output file of a program has all of its code, inside the image that was allocated for
it, exactly when the lines are placed. -/
theorem binfile_contains_iff {env : Env} {input : Chars} {st : State} {lines : List LineT}
    (hasm : assemble env input = .ok st) (hrel : relocate st = some lines) :
    (InImage lines ∧ ∃ out, yas env input = some out ∧ Written lines out) ↔ Placed lines := by
  have hyas : yas env input = binfile lines := by
    unfold yas
    rw [hasm]
    simp only [hrel, Option.bind_some]
  rw [hyas]
  constructor
  · rintro ⟨hin, out, -, hw⟩
    exact placed_of_written hin hw
  · intro h
    refine ⟨h.inImage, ?_⟩
    have hsize : 0 ≤ filesize lines := by
      cases hlast : (lines.filter LineT.emits).getLast? with
      | none => rw [filesize_eq, hlast]; decide
      | some last =>
        obtain ⟨hm, he⟩ := List.mem_filter.1 (List.mem_of_getLast? hlast)
        obtain ⟨h0, h1⟩ := h.inImage last hm he
        have hstop : last.y64bin.stop = last.y64bin.addr.toInt + last.y64bin.bytes := rfl
        omega
    obtain ⟨out, hout⟩ : ∃ out, binfile lines = some out := by
      rw [binfile, if_neg (by omega)]
      exact ⟨_, rfl⟩
    exact ⟨out, hout, h.written hout⟩

/-- The line of a `halt` at address `a`. -/
def haltLine (a : Long) : LineT :=
  ⟨.ins, ⟨a, Function.update (fun _ => 0) 0 (hpack IType.halt.code fNone), 1⟩,
    ['h', 'a', 'l', 't']⟩

/-- The line of a `.pos` with argument `a`. -/
def posLine (a : Long) (y64asm : Chars) : LineT :=
  ⟨.ins, ⟨a, Function.update (fun _ => 0) 0 (hpack IType.directive.code Dtv.pos.code), 0⟩,
    y64asm⟩

/-- A program that places one instruction at 0 and then another one at 16. -/
def forwardSource : Chars :=
  ['h', 'a', 'l', 't', '\n', '.', 'p', 'o', 's', ' ', '1', '6', '\n', 'h', 'a', 'l', 't', '\n']

/-- The output for both instructions has their codes. -/
theorem binfile_contains_forward : ∃ st lines, assemble .zero forwardSource = .ok st ∧
    relocate st = some lines ∧ lines.length = 3 ∧ InImage lines ∧
    ∃ out, yas .zero forwardSource = some out ∧ Written lines out := by
  refine ⟨⟨_, [], [], _⟩, [haltLine 0, posLine 16 ['.', 'p', 'o', 's', ' ', '1', '6'],
    haltLine 16], rfl, rfl, rfl, (binfile_contains_iff rfl rfl).2 ⟨?_, ?_, ?_⟩⟩
  · decide
  · decide
  · decide

/-- A program that places one instruction at 16 and then another one at 0. -/
def backwardSource : Chars :=
  ['.', 'p', 'o', 's', ' ', '1', '6', '\n', 'h', 'a', 'l', 't', '\n',
   '.', 'p', 'o', 's', ' ', '0', '\n', 'h', 'a', 'l', 't', '\n']

/-- An accepted program whose first instruction lies behind the image. -/
theorem not_binfile_contains_backward : ∃ st lines, assemble .zero backwardSource = .ok st ∧
    relocate st = some lines ∧ ¬ InImage lines := by
  refine ⟨⟨_, [], [], 1⟩, [posLine 16 ['.', 'p', 'o', 's', ' ', '1', '6'], haltLine 16,
    posLine 0 ['.', 'p', 'o', 's', ' ', '0'], haltLine 0], rfl, rfl, fun h => ?_⟩
  have h16 := (h (haltLine 16) (by simp) (by decide)).2
  exact absurd h16 (by decide)

end Y64.Asm
