import SE101.Lib.Hexadecimal
import SE101.Y64Asm.Accepted
import SE101.Y64Asm.Image
import SE101.Y64Asm.SourceLines

set_option relaxedAutoImplicit false
set_option autoImplicit false

/-!
# The listing

With `-v`, the assembler prints every line of the source behind its address and its code. Of the
address, only the last three digits are printed.

## Main definitions

* `Y64.Asm.printLine`, `Y64.Asm.printScreen` — what is printed.
* `Y64.Asm.readListing`, `Y64.Asm.imageOf` — the columns of a listing, and the image they denote.

## Main results

* `Y64.Asm.imageOf_listing` — the columns of the listing denote the binary file.

## Design

`hexstuff` works on an `int`, whose low 12 bits are those of the address. The columns are read
without a look at the source behind them.
-/

namespace Y64.Asm

open LittleEndian Scan Hexadecimal

/-! ## `print_screen` -/

/-- What is in the buffer for a line with code, before the digits are put into it. -/
def codeBuf : Chars := "  0x000:                      | ".toList

/-- What is in the buffer for another line. -/
def commBuf : Chars := "                              | ".toList

/-- `hexstuff`. -/
abbrev hexstuff : ℕ → ℕ → Chars := hexDigits

/-- The buffer after characters have been written to it. -/
def overwrite (buf : Chars) (pos : ℕ) (s : Chars) : Chars :=
  buf.take pos ++ s ++ buf.drop (pos + s.length)

/-- The loop of `print_line` over the first `n` bytes. -/
def putCodes (codes : Memory) (n : ℕ) (buf : Chars) : Chars :=
  (List.range n).foldl (fun buf i => overwrite buf (9 + 2 * i) (hexstuff (codes i).toNat 2)) buf

/-- The buffer of `print_line`. -/
def lineBuf (line : LineT) : Chars :=
  match line.type with
  | .ins => putCodes line.y64bin.codes line.y64bin.bytes
      (overwrite codeBuf 4 (hexstuff line.y64bin.addr.toNat 3))
  | .comm => commBuf

/-- `print_line`. -/
def printLine (line : LineT) : Chars := lineBuf line ++ line.y64asm ++ ['\n']

/-- `print_screen`. -/
def printScreen (lines : List LineT) : Chars := (lines.map printLine).flatten

/-- `main` with `-v`: what is printed, if an output file is written. -/
def listing (env : Env) (input : Chars) : Option Chars :=
  match assemble env input with
  | .error _ => none
  | .ok st => (relocate st).bind fun lines => (binfile lines).map fun _ => printScreen lines

/-! ## Reading a listing -/

/-- An address, and bytes from there on. -/
abbrev Piece := ℕ × List ℕ

/-- The columns of a line, if it has an address. -/
def readLine (l : Chars) : Option Piece :=
  if l.take 4 = "  0x".toList then
    some (hexValue ((l.drop 4).take 3), hexPairs ((l.drop 9).takeWhile isHexDigit))
  else none

/-- The columns of a listing. -/
def readListing (text : Chars) : List Piece := (Lines.lines '\n' text).filterMap readLine

/-- The size of the image: it ends with the last piece that is not empty. -/
def imageSize (pieces : List Piece) : ℕ :=
  pieces.foldl (fun size p => if p.2 ≠ [] then p.1 + p.2.length else size) 0

/-- A byte of the image: the last piece at this place has it. -/
def imageByte (pieces : List Piece) (k : ℕ) : ℕ :=
  pieces.foldl (fun v p => if p.1 ≤ k ∧ k < p.1 + p.2.length then p.2.getD (k - p.1) 0 else v) 0

/-- The image. -/
def imageOf (pieces : List Piece) : List Byte :=
  (List.range (imageSize pieces)).map fun k => BitVec.ofNat 8 (imageByte pieces k)

/-! ## A line -/

/-- A line whose columns are what they are to be: the address has three digits, there is room for
the code, and the source is one line. -/
structure LineT.Listable (line : LineT) : Prop where
  addr : line.type = .ins → line.y64bin.addr.toNat < 16 ^ 3
  bytes : line.type = .ins → line.y64bin.bytes ≤ 10
  source : '\n' ∉ line.y64asm

/-- The bytes of a line with code. -/
def LineT.codes (line : LineT) : List ℕ :=
  (List.range line.y64bin.bytes).map fun i => (line.y64bin.codes i).toNat

/-- The piece of a line with code. -/
def LineT.piece (line : LineT) : Option Piece :=
  match line.type with
  | .ins => some (line.y64bin.addr.toNat, line.codes)
  | .comm => none

variable {line : LineT} {lines : List LineT} {a b c s : Chars} {codes : Memory} {n : ℕ}

/-- Writing in the middle. -/
lemma overwrite_append (hs : s.length = b.length) :
    overwrite (a ++ (b ++ c)) a.length s = a ++ (s ++ c) := by
  rw [overwrite, List.take_left, List.append_assoc, hs, ← List.drop_drop, List.drop_left,
    List.drop_left]

/-- The code as it is printed. -/
def hexCodes (codes : Memory) (n : ℕ) : Chars :=
  ((List.range n).map fun i => hexDigits (codes i).toNat 2).flatten

@[simp] lemma length_hexCodes (codes : Memory) (n : ℕ) : (hexCodes codes n).length = 2 * n := by
  simp [hexCodes, Function.comp_def, mul_comm]

/-- The bytes are written one behind the other. -/
lemma putCodes_eq (ha : a.length = 9) (hn : n ≤ 10) :
    putCodes codes n (a ++ (List.replicate 21 ' ' ++ c)) =
      a ++ (hexCodes codes n ++ (List.replicate (21 - 2 * n) ' ' ++ c)) := by
  induction n with
  | zero => rfl
  | succ n ih =>
    have hblank : List.replicate (21 - 2 * n) ' ' =
        List.replicate 2 ' ' ++ List.replicate (21 - 2 * (n + 1)) ' ' := by
      rw [List.replicate_append_replicate]
      congr 1
      omega
    have hpos : 9 + 2 * n = (a ++ hexCodes codes n).length := by simp [ha]
    have hnext : hexCodes codes (n + 1) = hexCodes codes n ++ hexDigits (codes n).toNat 2 := by
      simp [hexCodes, List.range_succ]
    rw [putCodes] at ih ⊢
    rw [List.range_succ, List.foldl_append, ih (by omega), List.foldl_cons, List.foldl_nil, hblank,
      ← List.append_assoc a, hpos, List.append_assoc (List.replicate 2 ' '),
      overwrite_append (by simp), hnext]
    simp only [List.append_assoc]

/-- The buffer for a line with code. -/
lemma lineBuf_ins (h : line.Listable) (htype : line.type = .ins) :
    lineBuf line = "  0x".toList ++ (hexDigits line.y64bin.addr.toNat 3 ++ (": ".toList ++
      (hexCodes line.y64bin.codes line.y64bin.bytes ++
        (List.replicate (21 - 2 * line.y64bin.bytes) ' ' ++ "| ".toList)))) := by
  have haddr : overwrite codeBuf 4 (hexDigits line.y64bin.addr.toNat 3) =
      ("  0x".toList ++ hexDigits line.y64bin.addr.toNat 3 ++ ": ".toList) ++
        (List.replicate 21 ' ' ++ "| ".toList) := by
    have hbuf : codeBuf = "  0x".toList ++ ("000".toList ++ (": ".toList ++
        (List.replicate 21 ' ' ++ "| ".toList))) := by decide
    rw [hbuf, show 4 = "  0x".toList.length from rfl, overwrite_append (by simp)]
    simp only [List.append_assoc]
  rw [lineBuf, htype]
  dsimp only [hexstuff]
  rw [haddr, putCodes_eq (by simp) (h.bytes htype)]
  simp only [List.append_assoc]

/-- The code consists of digits. -/
lemma all_hexCodes (codes : Memory) (n : ℕ) : All isHexDigit (hexCodes codes n) := by
  intro c hc
  obtain ⟨ds, hds, hc⟩ := List.mem_flatten.1 hc
  obtain ⟨i, -, rfl⟩ := List.mem_map.1 hds
  exact all_hexDigits _ _ c hc

/-- There is no terminator in the buffer. -/
lemma notMem_lineBuf (h : line.Listable) : '\n' ∉ lineBuf line := by
  cases htype : line.type with
  | comm =>
    rw [lineBuf, htype]
    exact (by decide : '\n' ∉ commBuf)
  | ins =>
    have hhex {s : Chars} (hs : All isHexDigit s) : '\n' ∉ s := fun hmem =>
      absurd (hs _ hmem) (by decide)
    have hblank (k : ℕ) : '\n' ∉ List.replicate k ' ' := fun hmem =>
      absurd (List.eq_of_mem_replicate hmem) (by decide)
    rw [lineBuf_ins h htype]
    simp only [List.mem_append, not_or]
    exact ⟨by decide, hhex (all_hexDigits _ _), by decide, hhex (all_hexCodes _ _), hblank _,
      by decide⟩

/-- The code as it is read. -/
lemma hexPairs_hexCodes (codes : Memory) (n : ℕ) :
    hexPairs (hexCodes codes n) = (List.range n).map fun i => (codes i).toNat := by
  have hbyte : ∀ v ∈ (List.range n).map fun i => (codes i).toNat, v < 16 ^ 2 := by
    intro v hv
    obtain ⟨i, -, rfl⟩ := List.mem_map.1 hv
    exact (codes i).isLt
  rw [← hexPairs_flatten hbyte, List.map_map]
  rfl

/-- The digits end where the blanks begin. -/
lemma takeWhile_hexCodes (hn : n ≤ 10) :
    (hexCodes codes n ++ (List.replicate (21 - 2 * n) ' ' ++ s)).takeWhile isHexDigit =
      hexCodes codes n := by
  refine takeWhile_append (all_hexCodes codes n) ?_
  obtain ⟨k, hk⟩ : ∃ k, 21 - 2 * n = k + 1 := ⟨20 - 2 * n, by omega⟩
  rw [hk, List.replicate_succ, List.cons_append]
  exact stops_cons.2 (by decide)

/-- The columns of a line that begins like one with code. -/
lemma readLine_append (ha : a.length = 3) :
    readLine ("  0x".toList ++ (a ++ (": ".toList ++ s))) =
      some (hexValue a, hexPairs (s.takeWhile isHexDigit)) := by
  have hmark : ("  0x".toList ++ (a ++ (": ".toList ++ s))).take 4 = "  0x".toList :=
    List.take_left' rfl
  have haddr : ("  0x".toList ++ (a ++ (": ".toList ++ s))).drop 4 = a ++ (": ".toList ++ s) :=
    List.drop_left' rfl
  have hcodes : ("  0x".toList ++ (a ++ (": ".toList ++ s))).drop 9 = s := by
    rw [show 9 = 4 + (3 + 2) from rfl, ← List.drop_drop, haddr, ← List.drop_drop,
      List.drop_left' ha]
    exact List.drop_left' rfl
  rw [readLine, if_pos hmark, haddr, hcodes, List.take_left' ha]

/-- **The columns of a line** are its piece. -/
lemma readLine_printLine (h : line.Listable) : readLine (printLine line) = line.piece := by
  cases htype : line.type with
  | comm =>
    rw [printLine, lineBuf, LineT.piece, htype]
    rfl
  | ins =>
    rw [printLine, lineBuf_ins h htype]
    simp only [List.append_assoc]
    rw [readLine_append (by simp), hexValue_hexDigits (h.addr htype),
      takeWhile_hexCodes (h.bytes htype), hexPairs_hexCodes, LineT.piece, htype, LineT.codes]

/-- The columns of the listing are the pieces of its lines. -/
lemma readListing_printScreen (h : ∀ line ∈ lines, line.Listable) :
    readListing (printScreen lines) = lines.filterMap LineT.piece := by
  have hlines : Lines.lines '\n' (printScreen lines) = lines.map printLine := by
    refine Lines.lines_flatten_map fun line hline => ⟨_, ?_, rfl⟩
    rw [List.mem_append, not_or]
    exact ⟨notMem_lineBuf (h line hline), (h line hline).source⟩
  rw [readListing, hlines, List.filterMap_map]
  exact List.filterMap_congr fun line hline => readLine_printLine (h line hline)

/-! ## The image -/

/-- The address of a line with code. -/
lemma LineT.Listable.toInt_addr (h : line.Listable) (htype : line.type = .ins) :
    line.y64bin.addr.toInt = line.y64bin.addr.toNat := by
  have := h.addr htype
  rw [BitVec.toInt_eq_toNat_cond, if_pos (by omega)]

/-- The end of a line with code. -/
lemma LineT.Listable.stop_lt (h : line.Listable) (htype : line.type = .ins) :
    line.y64bin.stop < 2 ^ 31 := by
  have := h.addr htype
  have := h.bytes htype
  rw [BinT.stop, h.toInt_addr htype]
  omega

@[simp] lemma LineT.length_codes (line : LineT) : line.codes.length = line.y64bin.bytes := by
  simp [LineT.codes]

lemma LineT.piece_ins (htype : line.type = .ins) :
    line.piece = some (line.y64bin.addr.toNat, line.codes) := by
  rw [LineT.piece, htype]

lemma LineT.piece_comm (htype : line.type = .comm) : line.piece = none := by
  rw [LineT.piece, htype]

lemma LineT.emits_ins (htype : line.type = .ins) :
    line.emits = true ↔ line.y64bin.bytes ≠ 0 := by
  simp [LineT.emits, htype, Nat.pos_iff_ne_zero]

lemma LineT.emits_comm (htype : line.type = .comm) : line.emits = false := by
  simp [LineT.emits, htype]

/-- One turn of the loop for the size. -/
lemma endInt_eq_piece (h : line.Listable) (htype : line.type = .ins) (size : ℕ) :
    (if line.emits then line.y64bin.endInt else (size : ℤ)) =
      ((if line.codes ≠ [] then line.y64bin.addr.toNat + line.codes.length else size : ℕ) : ℤ) := by
  have haddr := h.toInt_addr htype
  have hne : line.codes ≠ [] ↔ line.y64bin.bytes ≠ 0 := by
    rw [ne_eq, ← List.length_eq_zero_iff, LineT.length_codes]
  by_cases hbytes : line.y64bin.bytes = 0
  · rw [if_neg ((LineT.emits_ins htype).not.2 (not_not_intro hbytes)),
      if_neg (hne.not.2 (not_not_intro hbytes))]
  · rw [if_pos ((LineT.emits_ins htype).2 hbytes), if_pos (hne.2 hbytes), LineT.length_codes,
      endInt_eq (by omega) (h.stop_lt htype), BinT.stop, haddr, Nat.cast_add]

/-- The size. -/
lemma filesize_eq_imageSize (h : ∀ line ∈ lines, line.Listable) :
    filesize lines = imageSize (lines.filterMap LineT.piece) := by
  have hfold (size : ℕ) :
      lines.foldl (fun filesize line => if line.emits then line.y64bin.endInt else filesize)
          (size : ℤ) =
        ((lines.filterMap LineT.piece).foldl
          (fun size p => if p.2 ≠ [] then p.1 + p.2.length else size) size : ℕ) := by
    induction lines generalizing size with
    | nil => rfl
    | cons line lines ih =>
      obtain ⟨hline, hlines⟩ := List.forall_mem_cons.1 h
      rw [List.foldl_cons]
      cases htype : line.type with
      | comm =>
        rw [List.filterMap_cons_none (LineT.piece_comm htype), LineT.emits_comm htype]
        exact ih hlines size
      | ins =>
        rw [List.filterMap_cons_some (LineT.piece_ins htype), List.foldl_cons,
          endInt_eq_piece hline htype]
        exact ih hlines _
  exact hfold 0

/-- One turn of the loop for the image. -/
lemma memcpyCodes_eq_piece (h : line.Listable) (htype : line.type = .ins) {image : Image}
    {k v : ℕ} (hk : k < 2 ^ 31) (hv : image (BitVec.ofNat 64 k) = BitVec.ofNat 8 v) :
    (if line.emits then memcpyCodes image line.y64bin else image) (BitVec.ofNat 64 k) =
      BitVec.ofNat 8
        (if line.y64bin.addr.toNat ≤ k ∧ k < line.y64bin.addr.toNat + line.codes.length then
          line.codes.getD (k - line.y64bin.addr.toNat) 0 else v) := by
  have haddr := h.toInt_addr htype
  have hcovers := covers_iff (by omega) (h.stop_lt htype) hk
  rw [BinT.Covers, BinT.stop, haddr] at hcovers
  rw [LineT.length_codes]
  by_cases hin : line.y64bin.addr.toNat ≤ k ∧ k < line.y64bin.addr.toNat + line.y64bin.bytes
  · obtain ⟨i, hi⟩ := Nat.exists_eq_add_of_le hin.1
    have hoff := toNat_sub_addr (by omega) hk (show line.y64bin.addr.toInt + i = k by omega)
    have hget : line.codes.getD i 0 = (line.y64bin.codes i).toNat := by
      simp [LineT.codes, List.getD_eq_getElem?_getD, show i < line.y64bin.bytes by omega]
    rw [if_pos ((LineT.emits_ins htype).2 (by omega)), memcpyCodes,
      if_pos (hcovers.2 (by omega)), if_pos hin, hoff, show k - line.y64bin.addr.toNat = i by omega,
      hget, BitVec.ofNat_toNat, BitVec.setWidth_eq]
  · rw [if_neg hin, ← hv]
    split_ifs with he
    · rw [memcpyCodes]
      exact if_neg fun hc => hin (by have := hcovers.1 hc; omega)
    · rfl

/-- A byte. -/
lemma fillImage_eq_imageByte (h : ∀ line ∈ lines, line.Listable) {k : ℕ} (hk : k < 2 ^ 31) :
    fillImage lines (BitVec.ofNat 64 k) =
      BitVec.ofNat 8 (imageByte (lines.filterMap LineT.piece) k) := by
  have hfold (image : Image) (v : ℕ) (hv : image (BitVec.ofNat 64 k) = BitVec.ofNat 8 v) :
      lines.foldl (fun image line => if line.emits then memcpyCodes image line.y64bin else image)
          image (BitVec.ofNat 64 k) =
        BitVec.ofNat 8 ((lines.filterMap LineT.piece).foldl
          (fun v p => if p.1 ≤ k ∧ k < p.1 + p.2.length then p.2.getD (k - p.1) 0 else v) v) := by
    induction lines generalizing image v with
    | nil => exact hv
    | cons line lines ih =>
      obtain ⟨hline, hlines⟩ := List.forall_mem_cons.1 h
      rw [List.foldl_cons]
      cases htype : line.type with
      | comm =>
        rw [List.filterMap_cons_none (LineT.piece_comm htype), LineT.emits_comm htype]
        exact ih hlines image v hv
      | ins =>
        rw [List.filterMap_cons_some (LineT.piece_ins htype), List.foldl_cons]
        exact ih hlines _ _ (memcpyCodes_eq_piece hline htype hk hv)
  exact hfold _ 0 rfl

/-- **The columns of the lines denote the binary file.** -/
lemma binfile_eq_imageOf (h : ∀ line ∈ lines, line.Listable) :
    binfile lines = some (imageOf (lines.filterMap LineT.piece)) := by
  have hsize := filesize_eq_imageSize h
  have hlt := filesize_lt lines
  rw [binfile, if_neg (by omega), imageOf, hsize, Int.toNat_natCast]
  refine congrArg some (List.map_congr_left fun k hk => ?_)
  have hkey := List.mem_range.1 hk
  exact fillImage_eq_imageByte h (by omega)

/-! ## The lines of a source -/

section Source

variable {env : Env} {idx : ℕ} {st st' : State} {bin bin' : BinT} {s' y64asm asmBuf : Chars}
  {lines' : List LineT}

/-- What `assemble` and `relocate` know of a line: there is room for its code, and its source is
one line. -/
structure LineT.Fitting (line : LineT) : Prop where
  bytes : line.y64bin.bytes ≤ 10
  source : '\n' ∉ line.y64asm

/-- The size of the code is that of the instruction: two registers. -/
lemma parseRegReg_bytes (h : parseRegReg st bin s = .ok (st', bin', s')) :
    bin'.bytes = bin.bytes := by
  simp only [parseRegReg, bind_eq_ok] at h
  obtain ⟨_, -, _, -, _, -, h⟩ := h
  cases h
  rfl

lemma putValue_bytes (pos n : ℕ) (v : Value) :
    (putValue idx st bin pos n v).2.bytes = bin.bytes := by
  cases v <;> rfl

/-- The operand of a data directive. -/
lemma parseDataN_bytes (h : parseDataN env idx n st bin s = .ok (st', bin', s')) :
    bin'.bytes = bin.bytes := by
  simp only [parseDataN, bind_eq_ok] at h
  obtain ⟨x, -, h⟩ := h
  cases h
  exact putValue_bytes 0 n x.1

/-- A directive. -/
lemma parseDirective_bytes {inst : InstrT}
    (h : parseDirective env idx inst st bin s = .ok (st', bin', s')) : bin'.bytes = bin.bytes := by
  unfold parseDirective at h
  split_ifs at h
  · simp only [bind_eq_ok] at h
    obtain ⟨_, -, h⟩ := h
    cases h
    rfl
  · simp only [bind_eq_ok] at h
    obtain ⟨_, -, _, -, h⟩ := h
    split_ifs at h <;> cases h <;> rfl
  · exact parseDataN_bytes h
  · exact parseDataN_bytes h
  · exact parseDataN_bytes h
  · exact parseDataN_bytes h

/-- The operands of an instruction. -/
lemma parseOperands_bytes {inst : InstrT}
    (h : parseOperands env idx inst st bin s = .ok (st', bin', s')) : bin'.bytes = bin.bytes := by
  unfold parseOperands at h
  cases hI : IType.ofCode (high inst.code) with
  | none => rw [hI] at h; cases h
  | some t =>
    rw [hI] at h
    cases t with
    | halt | nop | ret => cases h; rfl
    | rrmovq | alu => exact parseRegReg_bytes h
    | irmovq =>
      simp only [bind_eq_ok] at h
      obtain ⟨x, -, _, -, _, -, h⟩ := h
      cases h
      exact putValue_bytes 2 8 x.1
    | rmmovq | mrmovq =>
      simp only [bind_eq_ok] at h
      obtain ⟨_, -, _, -, _, -, h⟩ := h
      cases h
      rfl
    | jmp | call | pushq | popq =>
      simp only [bind_eq_ok] at h
      obtain ⟨_, -, h⟩ := h
      cases h
      rfl
    | directive => exact parseDirective_bytes h

/-- A statement. -/
lemma parseInstrLine_bytes (h : parseInstrLine env idx y64asm st s = .ok (line, st')) :
    line.y64bin.bytes ≤ 10 := by
  simp only [parseInstrLine, bind_eq_ok, orErr_eq_ok] at h
  obtain ⟨⟨inst, s₁⟩, hinstr, ⟨st₁, bin₁, s₂⟩, hops, h⟩ := h
  split_ifs at h
  cases h
  have htable : ∀ inst ∈ instrSet, inst.bytes ≤ 10 := by decide
  exact (parseOperands_bytes hops).trans_le (htable inst (mem_of_parseInstr hinstr))

/-- `parse_line`. -/
lemma parseLine_bytes (h : parseLine env idx y64asm st = .ok (line, st')) :
    line.y64bin.bytes ≤ 10 := by
  unfold parseLine at h
  simp only at h
  split_ifs at h
  · cases h
    exact Nat.zero_le _
  · split at h
    · simp only [bind_eq_ok, orErr_eq_ok] at h
      obtain ⟨st₁, -, h⟩ := h
      split_ifs at h
      · cases h
        exact Nat.zero_le _
      · exact parseInstrLine_bytes h
    · exact parseInstrLine_bytes h

/-- What has been stripped has no terminator left, if the only one was at the end. -/
lemma notMem_of_strip (hend : ∀ t u, asmBuf = t ++ '\n' :: u → u = [])
    (h : strip env.before (cstr asmBuf) = .ok y64asm) : '\n' ∉ y64asm := by
  rw [strip_eq_ite] at h
  split_ifs at h
  obtain rfl := Except.ok.inj h
  intro hmem
  obtain ⟨t, u, htu⟩ := List.append_of_mem hmem
  obtain ⟨v, hv⟩ := (List.rdropWhile_prefix isTerminator (cstr asmBuf)).trans
    (List.takeWhile_prefix _)
  rw [htu, List.append_assoc, List.cons_append] at hv
  obtain ⟨rfl, -⟩ := List.append_eq_nil_iff.1 (hend t _ hv.symm)
  have hlast := List.rdropWhile_last_not isTerminator (cstr asmBuf) (by simp [htu])
  simp only [htu, List.getLast_append_singleton] at hlast
  exact hlast rfl

/-- One turn of the loop of `assemble`. -/
lemma fitting_of_assembleLine (hend : ∀ t u, asmBuf = t ++ '\n' :: u → u = [])
    (h : assembleLine env asmBuf st = .ok st') (hst : ∀ line ∈ st.lines, line.Fitting) :
    ∀ line ∈ st'.lines, line.Fitting := by
  simp only [assembleLine, bind_eq_ok] at h
  obtain ⟨y64asm, hstrip, ⟨line, st₁⟩, hparse, h⟩ := h
  obtain rfl := Except.ok.inj h
  obtain ⟨heffect, hsource⟩ := parseLine_effect hparse
  have hline : line.Fitting := ⟨parseLine_bytes hparse, hsource ▸ notMem_of_strip hend hstrip⟩
  intro l hl
  rcases List.mem_append.1 hl with hl | hl
  · exact hst l (heffect.lines ▸ hl)
  · obtain rfl := List.mem_singleton.1 hl
    exact hline

/-- The loop of `assemble`. -/
lemma fitting_of_assembleLoop {fuel : ℕ} {input : Chars}
    (h : assembleLoop env fuel input st = .ok st') (hst : ∀ line ∈ st.lines, line.Fitting) :
    ∀ line ∈ st'.lines, line.Fitting := by
  induction fuel generalizing input st with
  | zero =>
    obtain rfl := Except.ok.inj h
    exact hst
  | succ fuel ih =>
    rw [assembleLoop, fgets_eq] at h
    split at h
    · obtain rfl := Except.ok.inj h
      exact hst
    · next heq =>
      have hend (t u : Chars) (ht : _ = t ++ '\n' :: u) : u = [] :=
        Lines.eq_nil_of_line_eq ((congrArg Prod.fst heq).trans ht)
      rw [bind_eq_ok] at h
      obtain ⟨st₁, hline, h⟩ := h
      exact ih h (fitting_of_assembleLine hend hline hst)

/-- Relocation keeps addresses, sizes and sources. -/
lemma fitting_of_relocateLoop {symtab : List SymbolT} {reltab : List RelocT}
    (h : relocateLoop symtab reltab lines = some lines') (hst : ∀ line ∈ lines, line.Fitting) :
    ∀ line ∈ lines', line.Fitting := by
  induction reltab generalizing lines with
  | nil =>
    obtain rfl := Option.some.inj h
    exact hst
  | cons r reltab ih =>
    unfold relocateLoop at h
    split at h
    · cases h
    · next sym hsym =>
      refine ih h fun line hline => ?_
      obtain ⟨k, hk, rfl⟩ := List.mem_iff_getElem.1 hline
      rw [List.length_modify] at hk
      have hfit := hst _ (List.getElem_mem hk)
      rw [List.getElem_modify]
      split_ifs
      · exact ⟨(patch_frame _ _).2.trans_le hfit.bytes, hfit.source⟩
      · exact hfit

/-! ## The binary file -/

/-- Addresses that have three digits. -/
def Addressed (env : Env) (input : Chars) : Prop :=
  ∀ lines ∈ (assemble env input).toOption.bind relocate,
    ∀ line ∈ lines, line.type = .ins → line.y64bin.addr.toNat < 16 ^ 3

instance (env : Env) (input : Chars) : Decidable (Addressed env input) :=
  inferInstanceAs (Decidable (∀ lines ∈ (assemble env input).toOption.bind relocate,
    ∀ line ∈ lines, line.type = .ins → line.y64bin.addr.toNat < 16 ^ 3))

-- At 4096 the digits start again.
example : hexstuff 0x1000 3 = hexstuff 0 3 := by decide

/-- **The columns of the listing denote the binary file**, for every source that is assembled and
whose addresses have three digits.

**Proof sketch.** A line of the listing ends with its only terminator, and the columns of a line
are in the same places whatever its code. So the columns are read back as the address and the bytes
of the line. The two loops of `binfile` do with the lines what is done with the columns. -/
theorem imageOf_listing {input text : Chars} (h : listing env input = some text)
    (haddr : Addressed env input) : yas env input = some (imageOf (readListing text)) := by
  unfold listing at h
  rw [yas]
  cases hasm : assemble env input with
  | error e =>
    rw [hasm] at h
    cases h
  | ok st =>
    rw [hasm] at h
    obtain ⟨lines, hrel, h⟩ := Option.bind_eq_some_iff.1 h
    obtain ⟨out, -, rfl⟩ := Option.map_eq_some_iff.1 h
    have hfit := fitting_of_relocateLoop hrel
      (fitting_of_assembleLoop hasm fun _ hline => nomatch hline)
    have hmem : lines ∈ (assemble env input).toOption.bind relocate := by
      rw [hasm]
      exact hrel
    have hlist : ∀ line ∈ lines, line.Listable := fun line hline =>
      ⟨haddr lines hmem line hline, fun _ => (hfit line hline).bytes,
        (hfit line hline).source⟩
    rw [readListing_printScreen hlist, ← binfile_eq_imageOf hlist]
    exact congrArg (Option.bind · binfile) hrel

/-- A program with one instruction, at 16. -/
def placedSource : Chars := ".pos 16\nhalt # stop\n".toList

/-- Its listing. -/
def placedListing : Chars :=
  "  0x010:                      | .pos 16\n  0x010: 00                   | halt # stop\n".toList

/-- The listing of a program with one instruction, and its file. -/
theorem imageOf_listing_placed : listing .zero placedSource = some placedListing ∧
    yas .zero placedSource = some (imageOf (readListing placedListing)) :=
  ⟨by decide +kernel, imageOf_listing (by decide +kernel) (by decide +kernel)⟩

end Source

end Y64.Asm
