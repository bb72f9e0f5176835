import SE101.Y64Asm.Accepted
import SE101.Y64Asm.Relocation

set_option relaxedAutoImplicit false
set_option autoImplicit false

/-!
# Alignment

`.align n` moves the location counter by a C remainder. The remainder has the sign of the
counter, the divisor is not checked, and the sum may leave the range of a `long`; so the counter
ends on the least multiple of `n` that is not below it exactly when `n` is positive and the counter
is a multiple already, or is not negative and the multiple still fits.

## Main definitions

* `Y64.Asm.IsAlign` — a line is an `.align` with an argument.
* `Y64.Asm.AlignLaw` — what the assembler is meant to do with it.
* `Y64.Asm.AlignSafe` — when it does.

## Main results

* `Y64.Asm.isLeast_alignTo_iff` — the arithmetic.
* `Y64.Asm.alignLaw_iff` — the lines and counters on which the law holds.
* `Y64.Asm.not_alignLaw` — an argument of zero.
-/

namespace Y64.Asm

variable {env : Env} {idx : ℕ} {st st' : State} {s rest : Chars} {n v : Long} {b : BinT}

/-! ## The least multiple -/

/-- The least multiple that is not below a number is the one less than `n` above it. -/
lemma isLeast_multiple_iff {n v m : ℤ} (hn : 0 < n) :
    IsLeast {m | n ∣ m ∧ v ≤ m} m ↔ n ∣ m ∧ v ≤ m ∧ m < v + n := by
  constructor
  · rintro ⟨⟨hdvd, hle⟩, hleast⟩
    refine ⟨hdvd, hle, ?_⟩
    by_contra hlt
    have hprev : m ≤ m - n := hleast ⟨Int.dvd_sub hdvd (Int.dvd_refl n), by omega⟩
    omega
  · rintro ⟨hdvd, hle, hlt⟩
    refine ⟨⟨hdvd, hle⟩, ?_⟩
    rintro k ⟨hk, hvk⟩
    by_contra hkm
    have hpos : 0 < m - k := by omega
    have := Int.le_of_dvd hpos (Int.dvd_sub hdvd hk)
    omega

/-- The location counter after `.align`. -/
def alignTo (v n : Long) : Long := if v.srem n ≠ 0 then v + (n - v.srem n) else v

/-- Alignment reaches the least multiple without leaving the range of a `long`. -/
def AlignSafe (v n : Long) : Prop :=
  0 < n.toInt ∧
    (n.toInt ∣ v.toInt ∨ 0 ≤ v.toInt ∧ v.toInt + (n.toInt - v.toInt % n.toInt) < 2 ^ 63)

/-- The value of the location counter after `.align`. -/
lemma toInt_alignTo (h : ¬ n.toInt ∣ v.toInt) :
    (alignTo v n).toInt = (v.toInt + (n.toInt - v.toInt.tmod n.toInt)).bmod (2 ^ 64) := by
  have hr : v.srem n ≠ 0 := by
    intro hr
    have := congrArg BitVec.toInt hr
    rw [BitVec.toInt_srem] at this
    exact h (Int.dvd_of_tmod_eq_zero this)
  rw [alignTo, if_pos hr, BitVec.toInt_add, BitVec.toInt_sub, BitVec.toInt_srem,
    Int.add_bmod_bmod]

/-- The location counter stays when it is a multiple. -/
lemma alignTo_of_dvd (h : n.toInt ∣ v.toInt) : alignTo v n = v := by
  have hr : v.srem n = 0 := by
    apply BitVec.eq_of_toInt_eq
    rw [BitVec.toInt_srem]
    exact Int.tmod_eq_zero_of_dvd h
  rw [alignTo, if_neg (not_not.2 hr)]

/-- `.align` reaches the least multiple.

**Proof sketch.** A counter that is no multiple moves by `n` less the remainder. When it is not
negative this is the way up to the next multiple, and right if there is no overflow. When it is
negative the remainder is too, and the way is too long by `n`. -/
theorem isLeast_alignTo_iff (hn : 0 < n.toInt) :
    IsLeast {m : ℤ | n.toInt ∣ m ∧ v.toInt ≤ m} (alignTo v n).toInt ↔ AlignSafe v n := by
  rw [isLeast_multiple_iff hn, AlignSafe, and_iff_right hn]
  by_cases hdvd : n.toInt ∣ v.toInt
  · rw [alignTo_of_dvd hdvd]
    exact iff_of_true ⟨hdvd, le_rfl, by omega⟩ (Or.inl hdvd)
  rw [toInt_alignTo hdvd, or_iff_right hdvd]
  have hv₁ := BitVec.le_two_mul_toInt (x := v)
  have hv₂ := BitVec.two_mul_toInt_lt (x := v)
  have hn₂ := BitVec.two_mul_toInt_lt (x := n)
  have hmod := Int.emod_lt_of_pos v.toInt hn
  have hmod₀ : 0 < v.toInt % n.toInt := by
    have := Int.emod_nonneg v.toInt hn.ne'
    have : v.toInt % n.toInt ≠ 0 := fun h => hdvd (Int.dvd_of_emod_eq_zero h)
    omega
  by_cases hv : 0 ≤ v.toInt
  · rw [Int.tmod_eq_emod_of_nonneg hv]
    have hnext : n.toInt ∣ v.toInt + (n.toInt - v.toInt % n.toInt) := by
      have : v.toInt + (n.toInt - v.toInt % n.toInt) = n.toInt + (v.toInt - v.toInt % n.toInt) := by
        omega
      rw [this]
      exact Int.dvd_add (Int.dvd_refl _) (Int.dvd_self_sub_emod)
    by_cases hfit : v.toInt + (n.toInt - v.toInt % n.toInt) < 2 ^ 63
    · rw [Int.bmod_eq_of_le (by omega) (by omega)]
      exact iff_of_true ⟨hnext, by omega, by omega⟩ ⟨hv, hfit⟩
    · refine iff_of_false ?_ fun h => hfit h.2
      rintro ⟨-, hle, -⟩
      rw [Int.bmod_def] at hle
      omega
  · have htmod : v.toInt.tmod n.toInt = v.toInt % n.toInt - n.toInt := by
      rw [Int.tmod_eq_emod, if_neg (not_or.2 ⟨hv, hdvd⟩), Int.natAbs_of_nonneg hn.le]
    have hbelow : n.toInt ≤ -(v.toInt - v.toInt % n.toInt) :=
      Int.le_of_dvd (by omega) (Int.dvd_neg.2 (Int.dvd_self_sub_emod))
    refine iff_of_false ?_ fun h => hv h.1
    rw [htmod, Int.bmod_eq_of_le (by omega) (by omega)]
    omega

/-! ## The line -/

/-- Behind its label, if it has one, a line is an `.align` with argument `n`, and `rest` follows
the argument. -/
def IsAlign (buf : Buffer) (s : Chars) (n : Long) (rest : Chars) : Prop :=
  ∃ inst u, parseInstr (behindLabel buf s) = some (inst, u) ∧
    inst.name = ['.', 'a', 'l', 'i', 'g', 'n'] ∧ parseDigit u = some (n, rest)

/-- The entry of `.align` in the table. -/
def alignInst : InstrT :=
  ⟨['.', 'a', 'l', 'i', 'g', 'n'], 6, hpack IType.directive.code Dtv.align.code, 0⟩

/-- A mnemonic has one entry. -/
lemma eq_alignInst {inst : InstrT} (hinst : inst ∈ instrSet)
    (hname : inst.name = ['.', 'a', 'l', 'i', 'g', 'n']) : inst = alignInst := by
  have htable : ∀ inst ∈ instrSet, inst.name = ['.', 'a', 'l', 'i', 'g', 'n'] →
      inst = alignInst := by decide
  exact htable inst hinst hname

/-- The code of an `.align` line. -/
def alignBin (addr : Long) : BinT := ⟨addr, Function.update (fun _ => 0) 0 alignInst.code, 0⟩

/-- `.align` in the `switch` of `parse_line`. -/
lemma parseOperands_align {u : Chars} (hdigit : parseDigit u = some (n, rest)) :
    parseOperands env idx alignInst st (alignBin st.vmaddr) u = (cMod st.vmaddr n >>= fun _ =>
      .ok ({ st with vmaddr := alignTo st.vmaddr n }, alignBin (alignTo st.vmaddr n), rest)) := by
  have htype : IType.ofCode (high alignInst.code) = some .directive := by decide
  rw [parseOperands, htype]
  show parseDirective env idx alignInst st (alignBin st.vmaddr) u = _
  have hname : alignInst.name = ['.', 'a', 'l', 'i', 'g', 'n'] := rfl
  rw [parseDirective, if_neg (by decide), if_pos hname, hdigit]
  show (cMod st.vmaddr n >>= _) = _
  by_cases htrap : n = 0 ∨ (st.vmaddr = BitVec.intMin 64 ∧ n = -1)
  · rw [cMod, if_pos htrap]
    rfl
  · rw [cMod, if_neg htrap, alignTo]
    simp only [bind, Except.bind]
    split_ifs <;> rfl

/-- `parse_line` on an `.align`. -/
lemma parseLine_align (h : IsAlign (env.labelBuf idx) s n rest) :
    parseLine env idx s st = (orErr (labelled env idx s st) >>= fun st₁ =>
      cMod st.vmaddr n >>= fun _ =>
        if isEndOrComment (skipBlank rest) then
          .ok (⟨.ins, alignBin (alignTo st.vmaddr n), s⟩,
            { st₁ with vmaddr := alignTo st.vmaddr n })
        else .error .err) := by
  obtain ⟨inst, u, hinstr, hname, hdigit⟩ := h
  obtain rfl := eq_alignInst (mem_of_parseInstr hinstr) hname
  have hend : isEndOrComment (behindLabel (env.labelBuf idx) s) = false := by
    by_contra hend
    have hnone := parseInstr_of_end (isEndOrComment_iff.1 ((Bool.not_eq_false _).mp hend))
    rw [hinstr] at hnone
    cases hnone
  rw [parseLine_statement hend]
  cases hlab : labelled env idx s st with
  | none => rfl
  | some st₁ =>
    show parseInstrLine env idx s st₁ _ = (cMod st.vmaddr n >>= _)
    have hvm : st₁.vmaddr + BitVec.ofNat 64 alignInst.bytes = st₁.vmaddr := BitVec.add_zero _
    rw [← labelled_vmaddr hlab, parseInstrLine, hinstr]
    simp only [orErr, bind, Except.bind, hvm]
    rw [show (⟨st₁.vmaddr, Function.update (fun _ => 0) 0 alignInst.code, alignInst.bytes⟩ : BinT) =
      alignBin st₁.vmaddr from rfl, parseOperands_align hdigit]
    cases cMod st₁.vmaddr n <;> rfl

/-- `parse_line` on an `.align` with a new label, or none, whose division has a quotient. -/
lemma parseLine_align_of_quotient {st₁ : State} (h : IsAlign (env.labelBuf idx) s n rest)
    (hlab : labelled env idx s st = some st₁) (hquot : cMod st.vmaddr n = .ok v) :
    parseLine env idx s st =
      if isEndOrComment (skipBlank rest) then
        .ok (⟨.ins, alignBin (alignTo st.vmaddr n), s⟩,
          { st₁ with vmaddr := alignTo st.vmaddr n })
      else .error .err := by
  rw [parseLine_align h, hlab, hquot]
  rfl

/-- A parser in error does not trap. -/
lemma orErr_bind_ne {α β : Type} (o : Option α) {f : α → Except Stop β}
    (h : ∀ a, o = some a → f a ≠ .error .sigfpe) : (orErr o >>= f) ≠ .error .sigfpe := by
  cases o with
  | none => exact fun h => by cases h
  | some a => exact h a rfl

/-- Two registers do not trap. -/
lemma parseRegReg_ne (st : State) (b : BinT) (s : Chars) :
    parseRegReg st b s ≠ .error .sigfpe :=
  orErr_bind_ne _ fun _ _ => orErr_bind_ne _ fun _ _ => orErr_bind_ne _ fun _ _ h => by cases h

/-- The operand of a data directive does not trap. -/
lemma parseDataN_ne (m : ℕ) (st : State) (b : BinT) (s : Chars) :
    parseDataN env idx m st b s ≠ .error .sigfpe :=
  orErr_bind_ne _ fun _ _ h => by cases h

/-- A directive other than `.align` does not trap, nor does `.align` without an argument. -/
lemma parseDirective_ne {inst : InstrT} (s : Chars)
    (h : inst.name = ['.', 'a', 'l', 'i', 'g', 'n'] → parseDigit s = none) :
    parseDirective env idx inst st b s ≠ .error .sigfpe := by
  unfold parseDirective
  split_ifs with hpos halign
  · exact orErr_bind_ne _ fun _ _ h => by cases h
  · rw [h halign]
    exact fun h => by cases h
  · exact parseDataN_ne 1 st b s
  · exact parseDataN_ne 2 st b s
  · exact parseDataN_ne 4 st b s
  · exact parseDataN_ne 8 st b s
  · exact fun h => by cases h

/-- No other operands trap. -/
lemma parseOperands_ne {inst : InstrT} (s : Chars)
    (h : inst.name = ['.', 'a', 'l', 'i', 'g', 'n'] → parseDigit s = none) :
    parseOperands env idx inst st b s ≠ .error .sigfpe := by
  unfold parseOperands
  cases IType.ofCode (high inst.code) with
  | none => exact fun h => by cases h
  | some t =>
    cases t with
    | halt | nop | ret => exact fun h => by cases h
    | rrmovq | alu => exact parseRegReg_ne st b s
    | irmovq | rmmovq | mrmovq =>
      exact orErr_bind_ne _ fun _ _ => orErr_bind_ne _ fun _ _ => orErr_bind_ne _ fun _ _ h => by
        cases h
    | jmp | call | pushq | popq => exact orErr_bind_ne _ fun _ _ h => by cases h
    | directive => exact parseDirective_ne s h

/-- Only an `.align` with an argument traps. -/
lemma parseLine_ne (h : ∀ n rest, ¬ IsAlign (env.labelBuf idx) s n rest) :
    parseLine env idx s st ≠ .error .sigfpe := by
  by_cases hend : isEndOrComment (behindLabel (env.labelBuf idx) s) = true
  · obtain ⟨f, hf⟩ := parseLine_of_end st hend
    rw [hf]
    exact orErr_bind_ne _ fun _ _ h => by cases h
  rw [parseLine_statement ((Bool.not_eq_true _).mp hend)]
  refine orErr_bind_ne _ fun st₁ _ => orErr_bind_ne _ fun p hp => ?_
  obtain ⟨inst, u⟩ := p
  have hno : inst.name = ['.', 'a', 'l', 'i', 'g', 'n'] → parseDigit u = none := by
    intro hname
    cases hdigit : parseDigit u with
    | none => rfl
    | some q => exact absurd ⟨inst, u, hp, hname, hdigit⟩ (h q.1 q.2)
  show (parseOperands env idx inst _ _ u >>= _) ≠ _
  intro htrap
  cases hops : parseOperands env idx inst
      { st₁ with vmaddr := st₁.vmaddr + BitVec.ofNat 64 inst.bytes }
      ⟨st₁.vmaddr, Function.update (fun _ => 0) 0 inst.code, inst.bytes⟩ u with
  | error e =>
    rw [hops] at htrap
    obtain rfl := Except.error.inj htrap
    exact parseOperands_ne u hno hops
  | ok q =>
    rw [hops] at htrap
    simp only [bind, Except.bind] at htrap
    split_ifs at htrap <;> cases htrap

/-! ## The law -/

/-- What `parse_line` is meant to do: it never divides without a quotient, it rejects an argument
of `.align` that is not positive, and an `.align` that it accepts moves the location counter to the
least multiple, which is the address of the line. -/
structure AlignLaw (env : Env) (idx : ℕ) (s : Chars) (st : State) : Prop where
  quotient : parseLine env idx s st ≠ .error .sigfpe
  reject : ∀ n rest, IsAlign (env.labelBuf idx) s n rest → n.toInt ≤ 0 →
    parseLine env idx s st = .error .err
  least : ∀ n rest line st', IsAlign (env.labelBuf idx) s n rest →
    parseLine env idx s st = .ok (line, st') →
    IsLeast {m : ℤ | n.toInt ∣ m ∧ st.vmaddr.toInt ≤ m} st'.vmaddr.toInt ∧
      line.y64bin.addr = st'.vmaddr

/-- The arguments and the location counters on which the law holds. A line that has something else
behind the argument is rejected after the division. -/
def AlignOk (env : Env) (idx : ℕ) (s : Chars) (st : State) : Prop :=
  ∀ n rest, IsAlign (env.labelBuf idx) s n rest → LabelNew (env.labelBuf idx) st s →
    if isEndOrComment (skipBlank rest) then AlignSafe st.vmaddr n
    else n ≠ 0 ∧ ¬ (st.vmaddr = BitVec.intMin 64 ∧ n = -1)

/-- A division that has a quotient. -/
lemma cMod_eq_ok : cMod v n = .ok (v.srem n) ↔ n ≠ 0 ∧ ¬ (v = BitVec.intMin 64 ∧ n = -1) := by
  unfold cMod
  split_ifs with h
  · refine iff_of_false (fun h => by cases h) ?_
    rintro ⟨h₁, h₂⟩
    exact h.elim h₁ h₂
  · exact iff_of_true rfl (not_or.1 h)

/-- A division that has no quotient. -/
lemma cMod_eq_error (h : ¬ (n ≠ 0 ∧ ¬ (v = BitVec.intMin 64 ∧ n = -1))) :
    cMod v n = .error .sigfpe := by
  rw [cMod, if_pos]
  by_contra hno
  exact h (not_or.1 hno)

/-- A positive argument has a quotient. -/
lemma quotient_of_pos (hn : 0 < n.toInt) : n ≠ 0 ∧ ¬ (v = BitVec.intMin 64 ∧ n = -1) := by
  constructor
  · rintro rfl
    exact absurd hn (by decide)
  · rintro ⟨-, rfl⟩
    exact absurd hn (by decide)

/-- **Alignment.** The lines and location counters on which `parse_line` does what is meant.

**Proof sketch.** Only an `.align` with an argument divides. When its label is not new it is
rejected before that. Otherwise the division must have a quotient, and then the line is accepted
or not according to what is behind the argument; when it is accepted the argument must be positive,
and the arithmetic decides. -/
theorem alignLaw_iff : AlignLaw env idx s st ↔ AlignOk env idx s st := by
  constructor
  · intro hlaw n rest halign hnew
    obtain ⟨st₁, hlab⟩ : ∃ st₁, labelled env idx s st = some st₁ := by
      cases hlab : labelled env idx s st with
      | none => exact absurd hnew (labelled_eq_none.1 hlab)
      | some st₁ => exact ⟨st₁, rfl⟩
    have hquot : n ≠ 0 ∧ ¬ (st.vmaddr = BitVec.intMin 64 ∧ n = -1) := by
      by_contra hno
      refine hlaw.quotient ?_
      rw [parseLine_align halign, hlab, cMod_eq_error hno]
      rfl
    split_ifs with hend
    · have hline := parseLine_align_of_quotient halign hlab (cMod_eq_ok.2 hquot)
      rw [if_pos hend] at hline
      have hpos : 0 < n.toInt := by
        by_contra hneg
        have hrej := hlaw.reject n rest halign (not_lt.1 hneg)
        rw [hline] at hrej
        cases hrej
      exact (isLeast_alignTo_iff hpos).1 (hlaw.least n rest _ _ halign hline).1
    · exact hquot
  · intro hok
    -- every `.align` with an argument is rejected, or accepted with a safe argument
    have key (n : Long) (rest : Chars) (halign : IsAlign (env.labelBuf idx) s n rest) :
        parseLine env idx s st = .error .err ∨ AlignSafe st.vmaddr n ∧ ∃ st₁ : State,
          parseLine env idx s st = .ok (⟨.ins, alignBin (alignTo st.vmaddr n), s⟩,
            { st₁ with vmaddr := alignTo st.vmaddr n }) := by
      cases hlab : labelled env idx s st with
      | none =>
        rw [parseLine_align halign, hlab]
        exact Or.inl rfl
      | some st₁ =>
        have hnew : LabelNew (env.labelBuf idx) st s := by
          by_contra hold
          rw [labelled_eq_none.2 hold] at hlab
          cases hlab
        have hcond := hok n rest halign hnew
        split_ifs at hcond with hend
        · rw [parseLine_align_of_quotient halign hlab (cMod_eq_ok.2 (quotient_of_pos hcond.1)),
            if_pos hend]
          exact Or.inr ⟨hcond, st₁, rfl⟩
        · rw [parseLine_align_of_quotient halign hlab (cMod_eq_ok.2 hcond), if_neg hend]
          exact Or.inl rfl
    refine ⟨?_, ?_, ?_⟩
    · by_cases hex : ∃ n rest, IsAlign (env.labelBuf idx) s n rest
      · obtain ⟨n, rest, halign⟩ := hex
        obtain hrej | ⟨-, st₁, hacc⟩ := key n rest halign
        · rw [hrej]
          exact fun h => by cases h
        · rw [hacc]
          exact fun h => by cases h
      · exact parseLine_ne fun n rest halign => hex ⟨n, rest, halign⟩
    · intro n rest halign hneg
      obtain hrej | ⟨hsafe, -⟩ := key n rest halign
      · exact hrej
      · exact absurd hsafe.1 (not_lt.2 hneg)
    · intro n rest line st' halign hacc
      obtain hrej | ⟨hsafe, st₁, hacc'⟩ := key n rest halign
      · rw [hacc] at hrej
        cases hrej
      · rw [hacc] at hacc'
        obtain ⟨rfl, rfl⟩ := Prod.mk.inj (Except.ok.inj hacc')
        exact ⟨(isLeast_alignTo_iff hsafe.1).2 hsafe, rfl⟩

/-- An argument of zero makes the program divide by zero. -/
theorem not_alignLaw :
    ¬ AlignLaw .zero 0 ['.', 'a', 'l', 'i', 'g', 'n', ' ', '0'] .init := by
  intro hlaw
  exact hlaw.quotient rfl

end Y64.Asm
