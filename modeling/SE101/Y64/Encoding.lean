import SE101.Y64.Refinement

set_option relaxedAutoImplicit false
set_option autoImplicit false

/-!
# The Y86-64 instruction encoding

The bytes of each instruction: a byte with its type and function, a byte with its registers if
it has any, and its constant if it has one. Encoding and the fetch stage of the reference
semantics are inverse to each other.

## Main definitions

* `Y64.Ref.Instr.encode` — the bytes of an instruction.

## Main results

* `Y64.Ref.fetch_encode` — an instruction in memory is fetched, with the address behind it.
* `Y64.fetch_encode` — so does the simulator.
-/

namespace Y64

open LittleEndian

/-- The byte with two given nibbles. -/
def nibbles (hi lo : ℕ) : Byte := BitVec.ofNat 8 (16 * hi + lo)

/-- `HPACK` puts two nibbles into a byte. -/
lemma hpack_eq_nibbles {hi lo : ℕ} (hhi : hi < 16) (hlo : lo < 16) :
    hpack hi lo = nibbles hi lo := by
  have h : ∀ hi < 16, ∀ lo < 16, hpack hi lo = nibbles hi lo := by decide
  exact h hi hhi lo hlo

namespace Ref

/-! ## Fields -/

/-- The type of an instruction. -/
def Instr.itype : Instr → IType
  | .halt => .halt | .nop => .nop | .cmov .. => .rrmovq | .irmovq .. => .irmovq
  | .rmmovq .. => .rmmovq | .mrmovq .. => .mrmovq | .opq .. => .alu | .jmp .. => .jmp
  | .call _ => .call | .ret => .ret | .pushq _ => .pushq | .popq _ => .popq

/-- The function of an instruction. -/
def Instr.ifun : Instr → ℕ
  | .cmov c _ _ | .jmp c _ => c.code
  | .opq op _ _ => op.code
  | .halt | .nop | .irmovq .. | .rmmovq .. | .mrmovq .. | .call _ | .ret | .pushq _
  | .popq _ => 0

/-- The two fields of the register byte. -/
def Instr.regids : Instr → Option (RegId × RegId)
  | .cmov _ rA rB | .opq _ rA rB => some (some rA, some rB)
  | .irmovq _ rB => some (none, some rB)
  | .rmmovq rA _ rB => some (some rA, some rB)
  | .mrmovq _ rB rA => some (some rA, some rB)
  | .pushq rA | .popq rA => some (some rA, none)
  | .halt | .nop | .jmp .. | .call _ | .ret => none

/-- The constant. -/
def Instr.valC : Instr → Option Long
  | .irmovq v _ | .rmmovq _ v _ | .mrmovq v _ _ | .jmp _ v | .call v => some v
  | .halt | .nop | .cmov .. | .opq .. | .ret | .pushq _ | .popq _ => none

/-! ## Bytes -/

/-- The register byte. -/
def regByte : Option (RegId × RegId) → List Byte
  | some (rA, rB) => [nibbles rA.code rB.code]
  | none => []

/-- The bytes of the constant. -/
def valBytes : Option Long → List Byte
  | some v => digits 8 v.toNat
  | none => []

/-- The bytes of an instruction. -/
def Instr.encode (i : Instr) : List Byte :=
  nibbles i.itype.code i.ifun :: (regByte i.regids ++ valBytes i.valC)

/-- The function of an instruction fits a nibble. -/
lemma Instr.ifun_lt (i : Instr) : i.ifun < 16 := by
  cases i with
  | cmov c _ _ => exact c.code_lt
  | jmp c _ => exact c.code_lt
  | opq op _ _ => exact op.code_lt
  | halt | nop | irmovq | rmmovq | mrmovq | call | ret | pushq | popq => exact Nat.succ_pos _

/-- Which instructions have a register byte. -/
lemma Instr.isSome_regids (i : Instr) : i.regids.isSome = needRegids (some i.itype) := by
  cases i <;> rfl

/-- Which instructions have a constant. -/
lemma Instr.isSome_valC (i : Instr) : i.valC.isSome = needValC (some i.itype) := by
  cases i <;> rfl

/-- The fields of an instruction are decoded to it. -/
lemma Instr.decode_fields (i : Instr) :
    decode (some i.itype) i.ifun (i.regids.getD (none, none)).1 (i.regids.getD (none, none)).2
      (i.valC.getD 0) = some i := by
  cases i with
  | cmov c rA rB => cases c <;> rfl
  | opq op rA rB => cases op <;> rfl
  | jmp c dest => cases c <;> rfl
  | halt | nop | irmovq | rmmovq | mrmovq | call | ret | pushq | popq => rfl

/-- The nibbles of a byte made of two. -/
lemma toNat_nibbles {hi lo : ℕ} (hhi : hi < 16) (hlo : lo < 16) :
    (nibbles hi lo).toNat / 16 = hi ∧ (nibbles hi lo).toNat % 16 = lo := by
  rw [nibbles, BitVec.toNat_ofNat, Nat.mod_eq_of_lt (by omega)]
  omega

/-! ## Fetch -/

variable {s : State} {i : Instr}

/-- The address some bytes further on, inside memory. -/
lemma toNat_add_ofNat {a : Long} {k n : ℕ} (h : a.toNat + k ≤ n) (hn : n < 2 ^ 64) :
    (a + BitVec.ofNat 64 k).toNat = a.toNat + k := by
  rw [BitVec.toNat_add, BitVec.toNat_ofNat, Nat.mod_eq_of_lt (a := k) (by omega),
    Nat.mod_eq_of_lt (by omega)]

/-- The register byte of an instruction is fetched. -/
lemma fetchRegids_encode {a : Long}
    (hmem : slice s.mem a.toNat (regByte i.regids).length = regByte i.regids)
    (hin : a.toNat + (regByte i.regids).length ≤ s.len) :
    s.fetchRegids (some i.itype) a = some (i.regids.getD (none, none)) := by
  rw [State.fetchRegids, ← i.isSome_regids]
  cases hr : i.regids with
  | none => rfl
  | some p =>
    obtain ⟨rA, rB⟩ := p
    rw [hr] at hmem hin
    have hb : s.mem a.toNat = nibbles rA.code rB.code := (List.cons.inj hmem).1
    obtain ⟨hhi, hlo⟩ := toNat_nibbles rA.code_lt rB.code_lt
    have hlt : a.toNat < s.len := hin
    simp [State.read1, hlt, hb, hhi, hlo]

/-- The constant of an instruction is fetched. -/
lemma fetchValC_encode {a : Long}
    (hmem : slice s.mem a.toNat (valBytes i.valC).length = valBytes i.valC)
    (hin : a.toNat + (valBytes i.valC).length ≤ s.len) :
    s.fetchValC (some i.itype) a = some (i.valC.getD 0) := by
  rw [State.fetchValC, ← i.isSome_valC]
  cases hv : i.valC with
  | none => rfl
  | some v =>
    rw [hv] at hmem hin
    simp only [valBytes, length_digits] at hmem hin
    have hload : load s.mem a.toNat 8 = v.toNat :=
      (load_of_slice hmem).trans (Nat.mod_eq_of_lt v.isLt)
    simp [State.read8, hin, hload]

/-- An instruction in memory is fetched, with the address behind it. -/
theorem fetch_encode (hlen : s.len < 2 ^ 64)
    (hmem : slice s.mem s.pc.toNat i.encode.length = i.encode)
    (hin : s.pc.toNat + i.encode.length ≤ s.len) :
    fetch s = .ok i (s.pc + BitVec.ofNat 64 i.encode.length) := by
  have hsize : i.encode.length =
      1 + (regByte i.regids).length + (valBytes i.valC).length := by
    simp [Instr.encode]; omega
  rw [hsize, slice_add, slice_add, slice_succ, slice_zero] at hmem
  simp only [Instr.encode, List.cons_append, List.nil_append, List.cons.injEq] at hmem
  obtain ⟨h0, hrest⟩ := hmem
  obtain ⟨hregs, hval⟩ := List.append_inj hrest (by simp)
  have h1 : (s.pc + 1).toNat = s.pc.toNat + 1 := toNat_add_ofNat (k := 1) (by omega) hlen
  obtain ⟨hhi, hlo⟩ := toNat_nibbles i.itype.code_lt i.ifun_lt
  have hread : s.read1 s.pc = some (nibbles i.itype.code i.ifun) := by
    rw [State.read1, if_pos (by omega), h0]
  have hR : s.fetchRegids (some i.itype) (s.pc + 1) = some (i.regids.getD (none, none)) :=
    fetchRegids_encode (by rw [h1]; exact hregs) (by omega)
  have hpcC : s.pc + 1 + (if needRegids (some i.itype) = true then 1 else 0) =
      s.pc + BitVec.ofNat 64 (1 + (regByte i.regids).length) := by
    rw [← i.isSome_regids, BitVec.ofNat_add, ← BitVec.add_assoc]
    cases i.regids <;> rfl
  have h2 : (s.pc + BitVec.ofNat 64 (1 + (regByte i.regids).length)).toNat =
      s.pc.toNat + (1 + (regByte i.regids).length) := toNat_add_ofNat (by omega) hlen
  have hV : s.fetchValC (some i.itype) (s.pc + BitVec.ofNat 64 (1 + (regByte i.regids).length)) =
      some (i.valC.getD 0) :=
    fetchValC_encode (by rw [h2]; exact hval) (by omega)
  have hvalP : BitVec.ofNat 64 (valBytes i.valC).length =
      if needValC (some i.itype) = true then 8 else 0 := by
    rw [← i.isSome_valC]
    cases i.valC <;> rfl
  simp only [fetch, hread, hhi, hlo, IType.ofCode_code, hR, hpcC, hV, i.decode_fields]
  rw [hsize, BitVec.ofNat_add _ (valBytes i.valC).length, ← BitVec.add_assoc, hvalP]

end Ref

/-- The simulator reads the fields of an instruction in memory. -/
theorem fetch_encode (sim : Y64Sim) {i : Ref.Instr}
    (hmem : slice sim.m.data sim.pc.toNat i.encode.length = i.encode)
    (hin : sim.pc.toNat + i.encode.length ≤ sim.m.len) :
    fetch sim = some (i.fetched (sim.pc + BitVec.ofNat 64 i.encode.length)) := by
  have hlen := sim.m.len_lt
  have hf := Ref.fetch_encode (s := abs sim) (i := i) (by simp only [abs]; omega) hmem hin
  have h := fetch_abs sim
  rw [hf] at h
  exact h

end Y64
