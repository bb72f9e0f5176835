import SE101.Y64.Faults

set_option relaxedAutoImplicit false
set_option autoImplicit false

/-!
# Invalid instructions

`nexti` promises `INS` for bytes that are no instruction. It tests the instruction type, and the
function of moves, ALU operations and jumps; the function of the other types and the register
nibbles are not tested.

## Main definitions

* `Y64.ContractMet` — what the comment on `nexti` promises of its status.
* `Y64.Unchecked` — the bytes pass the tests of `nexti` and are no instruction.

## Main results

* `Y64.Ref.decode_isSome_iff` — which fields make an instruction.
* `Y64.execute_ins_iff` — when `nexti` returns `INS`.
* `Y64.contractMet_iff` — the promise is kept except for unchecked bytes.
* `Y64.not_contractMet` — unchecked bytes that are executed.
-/

namespace Y64

/-- The largest function of an instruction type. -/
def IType.maxFun : IType → ℕ
  | .rrmovq | .jmp => 6
  | .alu => 3
  | .halt | .nop | .irmovq | .rmmovq | .mrmovq | .call | .ret | .pushq | .popq | .directive => 0

/-- Which instruction types have a register in the high nibble of the register byte. -/
def IType.takesA : IType → Bool
  | .rrmovq | .rmmovq | .mrmovq | .alu | .pushq | .popq => true
  | .halt | .nop | .irmovq | .jmp | .call | .ret | .directive => false

/-- Which instruction types have a register in the low nibble of the register byte. -/
def IType.takesB : IType → Bool
  | .rrmovq | .irmovq | .rmmovq | .mrmovq | .alu => true
  | .halt | .nop | .jmp | .call | .ret | .pushq | .popq | .directive => false

/-- The register nibbles are `0` to `14` where the type has a register and `F` where it has
none. -/
def regsValid (t : IType) (nextb : Byte) : Prop :=
  (high nextb < 15 ↔ t.takesA = true) ∧ (low nextb < 15 ↔ t.takesB = true)

/-- The promise on the status of `nexti`: `AOK` and `HLT` only for an instruction, `INS` for bytes
that are none, and `ADR` if the bytes cannot be fetched. -/
structure ContractMet (sim : Y64Sim) : Prop where
  valid : (nexti sim).1 = .aok ∨ (nexti sim).1 = .hlt →
    ∃ i valP, Ref.fetch (abs sim) = .ok i valP
  ins : Ref.fetch (abs sim) = .invalid → (nexti sim).1 = .ins
  adr : Ref.fetch (abs sim) = .imemError → (nexti sim).1 = .adr

/-- The bytes at `pc` are in memory and pass the tests of `nexti`, but the function of a type that
has none is not `0`, or a register nibble is not what it should be. -/
def Unchecked (sim : Y64Sim) : Prop :=
  ∃ t, IType.ofCode (high (sim.m.data sim.pc.toNat)) = some t ∧ t ≠ .directive ∧
    sim.pc.toNat + fetchSize (some t) ≤ sim.m.len ∧
    (0 < t.maxFun → low (sim.m.data sim.pc.toNat) ≤ t.maxFun) ∧
    (t.maxFun = 0 ∧ low (sim.m.data sim.pc.toNat) ≠ 0 ∨
      t.hasRegs = true ∧ ¬ regsValid t (sim.m.data (sim.pc + 1).toNat))

/-! ## Fields -/

/-- Which nibbles are registers. -/
lemma RegId.ofCode_isSome_iff {n : ℕ} : (RegId.ofCode n).isSome = true ↔ n < 15 := by
  constructor
  · intro h
    by_contra hn
    obtain ⟨k, rfl⟩ : ∃ k, n = k + 15 := ⟨n - 15, by omega⟩
    simp [RegId.ofCode] at h
  · intro h
    interval_cases n <;> rfl

/-- Which nibbles are conditions. -/
lemma Cond.ofCode_isSome_iff {n : ℕ} : (Cond.ofCode n).isSome = true ↔ n ≤ 6 := by
  constructor
  · intro h
    by_contra hn
    obtain ⟨k, rfl⟩ : ∃ k, n = k + 7 := ⟨n - 7, by omega⟩
    simp [Cond.ofCode] at h
  · intro h
    interval_cases n <;> rfl

/-- Which nibbles are ALU operations. -/
lemma Alu.ofCode_isSome_iff {n : ℕ} : (Alu.ofCode n).isSome = true ↔ n ≤ 3 := by
  constructor
  · intro h
    by_contra hn
    obtain ⟨k, rfl⟩ : ∃ k, n = k + 4 := ⟨n - 4, by omega⟩
    simp [Alu.ofCode] at h
  · intro h
    interval_cases n <;> rfl

/-- Which fields make an instruction. -/
lemma Ref.decode_isSome_iff (t : IType) (n : ℕ) (rA rB : RegId) (v : Long) :
    (Ref.decode (some t) n rA rB v).isSome = true ↔ t ≠ .directive ∧ n ≤ t.maxFun ∧
      (t.hasRegs = true → rA.isSome = t.takesA ∧ rB.isSome = t.takesB) := by
  cases t with
  | rrmovq =>
    cases rA <;> cases rB <;>
      simp [Ref.decode, IType.maxFun, IType.hasRegs, IType.takesA, IType.takesB,
        Cond.ofCode_isSome_iff]
  | alu =>
    cases rA <;> cases rB <;>
      simp [Ref.decode, IType.maxFun, IType.hasRegs, IType.takesA, IType.takesB,
        Alu.ofCode_isSome_iff]
  | jmp => simp [Ref.decode, IType.maxFun, IType.hasRegs, Cond.ofCode_isSome_iff]
  | directive => simp [Ref.decode]
  | halt | nop | call | ret => cases n <;> simp [Ref.decode, IType.maxFun, IType.hasRegs]
  | irmovq | rmmovq | mrmovq | pushq | popq =>
    cases n <;> cases rA <;> cases rB <;>
      simp [Ref.decode, IType.maxFun, IType.hasRegs, IType.takesA, IType.takesB]

/-- The fields that are fetched. -/
lemma fetch_fields {sim : Y64Sim} {f : Fetched} (h : fetch sim = some f) :
    f.ifun = low (sim.m.data sim.pc.toNat) ∧ (f.icode.any IType.hasRegs = true →
      f.rega = RegId.ofCode (high (sim.m.data (sim.pc + 1).toNat)) ∧
      f.regb = RegId.ofCode (low (sim.m.data (sim.pc + 1).toNat))) := by
  simp only [fetch, Option.bind_eq_bind, Option.bind_eq_some_iff] at h
  obtain ⟨codefun, hb, ⟨rega, regb, nextPc⟩, hregs, ⟨imm, nextPc'⟩, -, hf⟩ := h
  cases hf
  rw [getByteVal_eq, Option.ite_none_right_eq_some] at hb
  refine ⟨by rw [Option.some.inj hb.2], fun hany => ?_⟩
  rw [fetchRegs, if_pos hany, getByteVal_eq] at hregs
  obtain ⟨nextb, hnext, heq⟩ := Option.map_eq_some_iff.1 hregs
  cases heq
  rw [Option.ite_none_right_eq_some] at hnext
  rw [Option.some.inj hnext.2]
  exact ⟨rfl, rfl⟩

/-- **When `nexti` returns `INS`.** -/
lemma execute_ins_iff (sim : Y64Sim) (f : Fetched) : (execute sim f).1 = .ins ↔
    ∀ t, f.icode = some t → t = .directive ∨ 0 < t.maxFun ∧ t.maxFun < f.ifun := by
  obtain ⟨icode, ifun, rega, regb, imm, nextPc⟩ := f
  cases icode with
  | none => exact iff_of_true rfl fun t ht => by cases ht
  | some t =>
    have hsome : (∀ t', some t = some t' → t' = .directive ∨ 0 < t'.maxFun ∧ t'.maxFun < ifun) ↔
        t = .directive ∨ 0 < t.maxFun ∧ t.maxFun < ifun := by simp
    rw [hsome]
    cases t with
    | directive => exact iff_of_true rfl (.inl rfl)
    | halt | nop | irmovq => simp [execute, IType.maxFun]
    | rmmovq | mrmovq | call | ret | pushq | popq =>
      refine iff_of_false ?_ (by simp [IType.maxFun])
      dsimp only [execute]
      split <;> simp
    | rrmovq | jmp =>
      have hcond := Cond.ofCode_isSome_iff (n := ifun)
      dsimp only [execute]
      cases hc : Cond.ofCode ifun with
      | none =>
        have hlt : 6 < ifun := by
          rw [hc] at hcond
          simpa using hcond
        exact iff_of_true rfl (.inr ⟨by decide, hlt⟩)
      | some c =>
        have hle : ifun ≤ 6 := hcond.1 (by rw [hc]; rfl)
        refine iff_of_false (by simp) ?_
        rintro (h | ⟨-, h⟩)
        · cases h
        · exact absurd h (not_lt.2 hle)
    | alu =>
      have halu := Alu.ofCode_isSome_iff (n := ifun)
      dsimp only [execute]
      cases hc : Alu.ofCode ifun with
      | none =>
        have hlt : 3 < ifun := by
          rw [hc] at halu
          simpa using halu
        exact iff_of_true rfl (.inr ⟨by decide, hlt⟩)
      | some c =>
        have hle : ifun ≤ 3 := halu.1 (by rw [hc]; rfl)
        refine iff_of_false (by simp) ?_
        rintro (h | ⟨-, h⟩)
        · cases h
        · exact absurd h (not_lt.2 hle)

/-- Fetched fields make an instruction exactly if the bytes pass all tests. -/
lemma decode_fetched_iff {sim : Y64Sim} {f : Fetched} (h : fetch sim = some f) :
    (Ref.decode f.icode f.ifun f.rega f.regb f.imm).isSome = true ↔
    ∃ t, IType.ofCode (high (sim.m.data sim.pc.toNat)) = some t ∧ t ≠ .directive ∧
      low (sim.m.data sim.pc.toNat) ≤ t.maxFun ∧
      (t.hasRegs = true → regsValid t (sim.m.data (sim.pc + 1).toNat)) := by
  obtain ⟨hifun, hregs⟩ := fetch_fields h
  rw [← fetch_icode sim h]
  cases ht : f.icode with
  | none => simp [Ref.decode]
  | some t =>
    rw [Ref.decode_isSome_iff, hifun]
    have hvalid : (t.hasRegs = true → f.rega.isSome = t.takesA ∧ f.regb.isSome = t.takesB) ↔
        (t.hasRegs = true → regsValid t (sim.m.data (sim.pc + 1).toNat)) := by
      refine imp_congr_right fun hr => ?_
      rw [ht] at hregs
      obtain ⟨ha, hb⟩ := hregs hr
      have hbool (a b : Bool) : a = b ↔ (a = true ↔ b = true) := Bool.eq_iff_iff
      rw [ha, hb, regsValid, ← RegId.ofCode_isSome_iff, ← RegId.ofCode_isSome_iff, ← hbool, ← hbool]
    rw [hvalid]
    simp

/-- **Invalid instructions.** -/
theorem contractMet_iff (sim : Y64Sim) : ContractMet sim ↔ ¬ Unchecked sim := by
  have hfetch := fetch_abs_eq sim
  cases hf : fetch sim with
  | none =>
    have hnot : ¬ Unchecked sim := by
      rintro ⟨t, ht, -, hsize, -⟩
      obtain ⟨f, hf'⟩ := (fetch_isSome_iff sim).2 (ht ▸ hsize)
      rw [hf] at hf'
      cases hf'
    rw [hf] at hfetch
    have hn : (nexti sim).1 = .adr := by rw [nexti, hf]
    exact iff_of_true ⟨fun h => by simp [hn] at h, fun h => by simp [hfetch] at h, fun _ => hn⟩
      hnot
  | some f =>
    have hn : nexti sim = execute sim f := by rw [nexti, hf]
    have hdec := decode_fetched_iff hf
    rw [hf] at hfetch
    cases hi : Ref.decode f.icode f.ifun f.rega f.regb f.imm with
    | some i =>
      rw [Option.elim_some, hi, Option.elim_some] at hfetch
      rw [hi] at hdec
      obtain ⟨t, ht, -, hfun, hregs⟩ := hdec.1 rfl
      have hnot : ¬ Unchecked sim := by
        rintro ⟨t', ht', -, -, -, ⟨h0, hne⟩ | ⟨hr, hbad⟩⟩
        · rw [Option.some.inj (ht'.symm.trans ht)] at h0
          omega
        · rw [Option.some.inj (ht'.symm.trans ht)] at hr hbad
          exact hbad (hregs hr)
      exact iff_of_true ⟨fun _ => ⟨i, f.nextPc, hfetch⟩, fun h => by simp [hfetch] at h,
        fun h => by simp [hfetch] at h⟩ hnot
    | none =>
      rw [Option.elim_some, hi, Option.elim_none] at hfetch
      have hmet : ContractMet sim ↔ (execute sim f).1 = .ins := by
        rw [← hn]
        constructor
        · exact fun h => h.ins hfetch
        · intro h
          exact ⟨fun h' => by simp [h] at h', fun _ => h, fun h' => by simp [hfetch] at h'⟩
      have hinvalid : ¬ ∃ t, IType.ofCode (high (sim.m.data sim.pc.toNat)) = some t ∧
          t ≠ .directive ∧ low (sim.m.data sim.pc.toNat) ≤ t.maxFun ∧
          (t.hasRegs = true → regsValid t (sim.m.data (sim.pc + 1).toNat)) := by
        rw [← hdec, hi]
        decide
      have hsize := (fetch_isSome_iff sim).1 ⟨f, hf⟩
      rw [hmet, execute_ins_iff, fetch_icode sim hf, (fetch_fields hf).1]
      constructor
      · rintro h ⟨t, ht, hdir, -, htested, -⟩
        obtain hd | ⟨hpos, hlt⟩ := h t ht
        · exact hdir hd
        · exact absurd (htested hpos) (not_le.2 hlt)
      · intro h t ht
        by_contra hpass
        rw [not_or, not_and, not_lt] at hpass
        refine h ⟨t, ht, hpass.1, ht ▸ hsize, hpass.2, ?_⟩
        by_contra hbad
        rw [not_or, not_and, not_not, not_and, not_not] at hbad
        refine hinvalid ⟨t, ht, hpass.1, ?_, hbad.2⟩
        obtain h0 | hpos := Nat.eq_zero_or_pos t.maxFun
        · rw [hbad.1 h0]
          exact Nat.zero_le _
        · exact hpass.2 hpos

/-- A machine with a program that begins with the byte `01`. -/
def garbageSim : Y64Sim :=
  let sim := newY64sim MEM_SIZE roundBlk_MEM_SIZE
  { sim with m := (loadBinfile sim.m [0x01]).getD sim.m }

/-- No instruction begins with that byte, but it is executed as `halt`. -/
theorem not_contractMet : Loaded garbageSim ∧ (nexti garbageSim).1 = .hlt ∧
    Ref.fetch (abs garbageSim) = .invalid :=
  ⟨⟨[0x01], _, rfl, rfl⟩, by decide +kernel, by decide +kernel⟩

end Y64
