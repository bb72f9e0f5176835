import SE101.Lib.Scanf
import SE101.Malloc.Ranges

set_option relaxedAutoImplicit false
set_option autoImplicit false

/-!
# Trace files

`read_trace` reads the header of a trace file and then one request after the other. It checks at
the end that there were as many requests as the header says, and that the greatest index of an
`a` or an `r` is the last one. It does not look at the index of an `f`.

## Main definitions

* `Malloc.Trace`, `Malloc.readTrace` — what `read_trace` makes of a file.
* `Malloc.traceWords` — the words of a trace file, as its format is documented.

## Main results

* `Malloc.readTrace_layout` — a file of the documented format is read as what it says.
* `Malloc.readTrace_index_lt` — whatever is accepted, requests that release only what is live stay
  inside the arrays of the trace.

## Design

A variable that has not been initialised is `none`. `malloc` of the C library fails for a size
that was negative before it became a `size_t`, and is not taken to fail otherwise. An index is
read as an `unsigned` and stored as an `int`. The size of a request to free, which is not set,
is 0.
-/

namespace Malloc

open LittleEndian CString Scan

/-! ## `read_trace` -/

/-- `trace_t`, without the arrays that `read_trace` does not fill. -/
structure Trace where
  /-- Suggested heap size (unused). -/
  suggHeapsize : Option ℤ
  /-- Number of alloc/realloc ids. -/
  numIds : ℤ
  /-- Number of distinct requests. -/
  numOps : ℤ
  /-- Weight for this trace (unused). -/
  weight : Option ℤ
  /-- Array of requests. -/
  ops : List TraceOp
  deriving DecidableEq

/-- Why there is no trace. -/
inductive ReadError
  /-- `unix_error`: no memory for the arrays. -/
  | unixError
  /-- `Bogus type character (%c) in tracefile %s` -/
  | bogus (c : Byte)
  /-- An assertion fails. -/
  | assertion
  /-- A variable is used that was not initialised, or an array is left. -/
  | undefined
  deriving DecidableEq

/-- The variables of the loop. -/
structure Reader where
  index : ℕ
  size : Option ℕ
  maxIndex : ℕ
  /-- `trace->ops`, up to `op_index`. -/
  ops : List TraceOp

namespace Reader

/-- `fscanf(tracefile, "%u %u", &index, &size)`. -/
def scanPair (r : Reader) (s : List Byte) : Reader × List Byte :=
  match scanUnsigned s with
  | (none, s) => (r, s)
  | (some index, s) =>
    match scanUnsigned s with
    | (none, s) => ({ r with index := index }, s)
    | (some size, s) => ({ r with index := index, size := some size }, s)

/-- `fscanf(tracefile, "%ud", &index)`: a `d` may follow the number. -/
def scanIndex (r : Reader) (s : List Byte) : Reader × List Byte :=
  match scanUnsigned s with
  | (none, s) => (r, s)
  | (some index, 100#8 :: s) => ({ r with index := index }, s)
  | (some index, s) => ({ r with index := index }, s)

/-- A request is put into the array, which has `num_ops` elements. -/
def put (r : Reader) (numOps : ℤ) (op : TraceOp) : Except ReadError Reader :=
  if r.ops.length < numOps then .ok { r with ops := r.ops ++ [op] } else .error .undefined

/-- A request to allocate or to resize. -/
def putSized (r : Reader) (numOps : ℤ) (type : ReqType) : Except ReadError Reader :=
  match r.size with
  | none => .error .undefined
  | some size => { r with maxIndex := if r.index > r.maxIndex then r.index else r.maxIndex }.put
      numOps (.ofUnsigned type r.index size)

/-- The `switch` statement. -/
def request (r : Reader) (numOps : ℤ) (type s : List Byte) : Except ReadError Reader × List Byte :=
  -- `char type[MAXLINE]`
  if 1024 ≤ type.length then (.error .undefined, s)
  else
    match type.headD 0 with
    | 97#8 => ((r.scanPair s).1.putSized numOps .alloc, (r.scanPair s).2)
    | 114#8 => ((r.scanPair s).1.putSized numOps .realloc, (r.scanPair s).2)
    | 102#8 =>
      ((r.scanIndex s).1.put numOps (.ofUnsigned .free (r.scanIndex s).1.index 0),
        (r.scanIndex s).2)
    | c => (.error (.bogus c), s)

end Reader

/-- The loop. There are fewer words than characters, so that the length is fuel enough. -/
def readOps (numOps : ℤ) : ℕ → Reader → List Byte → Except ReadError Reader
  | 0, r, _ => .ok r
  | fuel + 1, r, s =>
    match scanStr s with
    | (none, _) => .ok r
    | (some type, s) =>
      match r.request numOps type s with
      | (.error e, _) => .error e
      | (.ok r, s) => readOps numOps fuel r s

/-- `read_trace` on the contents of the file. -/
def readTrace (s : List Byte) : Except ReadError Trace :=
  let (suggHeapsize, s) := scanInt s
  let (numIds, s) := scanInt s
  let (numOps, s) := scanInt s
  let (weight, s) := scanInt s
  match numIds, numOps with
  | some numIds, some numOps =>
    if numOps < 0 ∨ numIds < 0 then .error .unixError
    else
      match readOps numOps (s.length + 1) ⟨0, none, 0, []⟩ s with
      | .error e => .error e
      | .ok r =>
        if (r.maxIndex : ℤ) = (numIds - 1) % 2 ^ 32 ∧ numOps = r.ops.length then
          .ok ⟨suggHeapsize, numIds, numOps, weight, r.ops⟩
        else .error .assertion
  | _, _ => .error .undefined

variable {r r' : Reader} {s s' : List Byte} {numOps : ℤ} {ops : List TraceOp} {op : TraceOp}
  {type : List Byte} {ws : List (List Byte)}

/-! ## Fuel -/

lemma Reader.length_scanPair (r : Reader) (s : List Byte) : (r.scanPair s).2.length ≤ s.length := by
  have h₁ := length_scanUnsigned s
  unfold scanPair
  split
  · next s₁ hs₁ => rwa [hs₁] at h₁
  · next i s₁ hs₁ =>
    rw [hs₁] at h₁
    have h₂ := length_scanUnsigned s₁
    split
    · next s₂ hs₂ =>
      rw [hs₂] at h₂
      exact h₂.trans h₁
    · next n s₂ hs₂ =>
      rw [hs₂] at h₂
      exact h₂.trans h₁

lemma Reader.length_scanIndex (r : Reader) (s : List Byte) :
    (r.scanIndex s).2.length ≤ s.length := by
  have h₁ := length_scanUnsigned s
  unfold scanIndex
  split
  · next s₁ hs₁ => rwa [hs₁] at h₁
  · next i s₁ hs₁ =>
    rw [hs₁] at h₁
    exact (Nat.le_succ _).trans h₁
  · next i s₁ _ hs₁ => rwa [hs₁] at h₁

/-- A request does not put characters back. -/
lemma Reader.length_request (r : Reader) (numOps : ℤ) (type s : List Byte) :
    (r.request numOps type s).2.length ≤ s.length := by
  unfold request
  split
  · exact le_rfl
  · split
    · exact r.length_scanPair s
    · exact r.length_scanPair s
    · exact r.length_scanIndex s
    · exact le_rfl

/-- Any fuel above the length of the text leads to the same result. -/
lemma readOps_fuel {n m : ℕ} (hn : s.length < n) (hm : s.length < m) :
    readOps numOps n r s = readOps numOps m r s := by
  induction n generalizing m r s with
  | zero => exact absurd hn (Nat.not_lt_zero _)
  | succ n ih =>
    obtain ⟨m, rfl⟩ := Nat.exists_eq_succ_of_ne_zero (Nat.ne_of_gt (Nat.zero_lt_of_lt hm))
    rw [readOps, readOps]
    have hlt (w : List Byte) : (scanStr s).1 = some w → _ := length_scanStr_lt
    split
    · rfl
    · next type s₁ hs₁ =>
      have h₁ := hlt type (by rw [hs₁])
      rw [hs₁] at h₁
      have h₂ := r.length_request numOps type s₁
      split
      · rfl
      · next r₂ s₂ hs₂ =>
        rw [hs₂] at h₂
        dsimp only at h₁ h₂
        exact ih (by omega) (by omega)

/-! ## The format -/

/-- The words of the line for a request. -/
def TraceOp.words (op : TraceOp) : List (List Byte) :=
  match op.type with
  | .alloc => [ascii "a", numeral op.index.toNat, numeral op.size.toNat]
  | .realloc => [ascii "r", numeral op.index.toNat, numeral op.size.toNat]
  | .free => [ascii "f", numeral op.index.toNat]

/-- A request that has a line. -/
structure TraceOp.Writable (op : TraceOp) : Prop where
  index : 0 ≤ op.index
  size : 0 ≤ op.size
  free : op.type = .free → op.size = 0

/-- The words of a trace file. -/
def traceWords (suggHeapsize numIds numOps weight : ℕ) (ops : List TraceOp) : List (List Byte) :=
  numeral suggHeapsize :: numeral numIds :: numeral numOps :: numeral weight ::
    (ops.map TraceOp.words).flatten

/-- The index as an `unsigned`, as it was read. -/
def TraceOp.unsignedIndex (op : TraceOp) : ℕ := (op.index % 2 ^ 32).toNat

/-- `max_index` after a request. -/
def TraceOp.raise (op : TraceOp) (m : ℕ) : ℕ :=
  if op.type = .free then m else max m op.unsignedIndex

/-- The greatest index of a request to allocate or to resize. -/
def maxIndex (ops : List TraceOp) : ℕ := ops.foldl (fun m op => op.raise m) 0

/-- A request has been read. -/
def Reader.add (r : Reader) (op : TraceOp) : Reader where
  index := op.index.toNat
  size := if op.type = .free then r.size else some op.size.toNat
  maxIndex := op.raise r.maxIndex
  ops := r.ops ++ [op]

/-! ## Reading the format -/

/-- A number that is not negative is read as it is. -/
lemma toInt32_toNat {v : ℤ} (h : 0 ≤ v) (hlt : v < 2 ^ 31) : toInt32 v.toNat = v := by
  rw [toInt32_of_lt (by omega), Int.toNat_of_nonneg h]

/-- An index and a size that are not negative are read as they are. -/
lemma TraceOp.ofUnsigned_toNat (hindex : 0 ≤ op.index) (hsize : 0 ≤ op.size) :
    TraceOp.ofUnsigned op.type op.index.toNat op.size.toNat = op := by
  obtain ⟨type, index, size, hi, hs⟩ := op
  simp only [TraceOp.ofUnsigned, toInt32_toNat hindex hi.2, toInt32_toNat hsize hs.2]

/-- An index that is not negative is the same as an `unsigned`. -/
lemma TraceOp.unsignedIndex_eq (hindex : 0 ≤ op.index) : op.unsignedIndex = op.index.toNat := by
  have := op.indexInt
  unfold unsignedIndex
  omega

/-- What was read as an `unsigned` can be told from the `int`. -/
lemma TraceOp.unsignedIndex_ofUnsigned {type : ReqType} {index size : ℕ} (h : index < 2 ^ 32) :
    (TraceOp.ofUnsigned type index size).unsignedIndex = index := by
  have hback : (toInt32 index % 2 ^ 32).toNat = index := by
    rw [toInt32, BitVec.toInt_eq_toNat_cond, BitVec.toNat_ofNat]
    split_ifs <;> omega
  exact hback

/-- The two numbers of a request to allocate or to resize. -/
lemma Reader.scanPair_eq {i n : ℕ} (r : Reader) (h : Layout (numeral i :: numeral n :: ws) s)
    (hi : i < 2 ^ 32) (hn : n < 2 ^ 32) :
    ∃ s', r.scanPair s = ({ r with index := i, size := some n }, s') ∧ Layout ws s' := by
  obtain ⟨s₁, hs₁, h₁, -⟩ := h.scanUnsigned hi
  obtain ⟨s₂, hs₂, h₂, -⟩ := h₁.scanUnsigned hn
  exact ⟨s₂, by simp only [scanPair, hs₁, hs₂], h₂⟩

/-- The number of a request to free. -/
lemma Reader.scanIndex_eq {i : ℕ} (r : Reader) (h : Layout (numeral i :: ws) s)
    (hi : i < 2 ^ 32) :
    ∃ s', r.scanIndex s = ({ r with index := i }, s') ∧ Layout ws s' := by
  obtain ⟨s₁, hs₁, h₁, hsep⟩ := h.scanUnsigned hi
  refine ⟨s₁, ?_, h₁⟩
  rw [scanIndex, hs₁]
  split
  · next heq => cases heq
  · next heq =>
    -- the next character is white space, and no `d`
    cases heq
    exact absurd (stops_cons.1 hsep) (by decide)
  · next heq =>
    cases heq
    rfl

/-- A request to allocate or to resize is put into the array. -/
lemma Reader.putSized_eq (r : Reader) (numOps : ℤ) (htype : op.type ≠ .free)
    (hop : op.Writable) :
    { r with index := op.index.toNat, size := some op.size.toNat : Reader }.putSized numOps
      op.type = if r.ops.length < numOps then .ok (r.add op) else .error .undefined := by
  have hmax : (if op.index.toNat > r.maxIndex then op.index.toNat else r.maxIndex) =
      max r.maxIndex op.unsignedIndex := by
    rw [op.unsignedIndex_eq hop.index, max_def]
    split_ifs <;> omega
  simp only [putSized, put, TraceOp.ofUnsigned_toNat hop.index hop.size, hmax, add, TraceOp.raise,
    if_neg htype]

/-- One line is read. -/
lemma Reader.request_eq (r : Reader) (numOps : ℤ) (h : Layout (op.words ++ ws) s)
    (hop : op.Writable) :
    ∃ type s₁ s₂, scanStr s = (some type, s₁) ∧
      r.request numOps type s₁ =
        (if r.ops.length < numOps then .ok (r.add op) else .error .undefined, s₂) ∧
      Layout ws s₂ := by
  have hindex : op.index.toNat < 2 ^ 32 := by have := op.indexInt; omega
  have hsize : op.size.toNat < 2 ^ 32 := by have := op.sizeInt; omega
  have hsized (htype : op.type ≠ .free) := r.putSized_eq numOps htype hop
  rw [TraceOp.words] at h
  split at h
  · next htype =>
    obtain ⟨s₁, hs₁, h₁⟩ := Layout.scanStr h (by decide) (by decide)
    obtain ⟨s₂, hs₂, h₂⟩ := r.scanPair_eq h₁ hindex hsize
    have hreq : r.request numOps (ascii "a") s₁ =
        ((r.scanPair s₁).1.putSized numOps .alloc, (r.scanPair s₁).2) := rfl
    exact ⟨_, s₁, s₂, hs₁, by rw [hreq, hs₂, ← hsized (by simp [htype]), htype], h₂⟩
  · next htype =>
    obtain ⟨s₁, hs₁, h₁⟩ := Layout.scanStr h (by decide) (by decide)
    obtain ⟨s₂, hs₂, h₂⟩ := r.scanPair_eq h₁ hindex hsize
    have hreq : r.request numOps (ascii "r") s₁ =
        ((r.scanPair s₁).1.putSized numOps .realloc, (r.scanPair s₁).2) := rfl
    exact ⟨_, s₁, s₂, hs₁, by rw [hreq, hs₂, ← hsized (by simp [htype]), htype], h₂⟩
  · next htype =>
    obtain ⟨s₁, hs₁, h₁⟩ := Layout.scanStr h (by decide) (by decide)
    obtain ⟨s₂, hs₂, h₂⟩ := r.scanIndex_eq h₁ hindex
    have hreq : r.request numOps (ascii "f") s₁ =
        ((r.scanIndex s₁).1.put numOps (.ofUnsigned .free (r.scanIndex s₁).1.index 0),
          (r.scanIndex s₁).2) := rfl
    have hfree : TraceOp.ofUnsigned .free op.index.toNat 0 = op := by
      have heq := op.ofUnsigned_toNat hop.index hop.size
      rwa [hop.free htype, htype] at heq
    refine ⟨_, s₁, s₂, hs₁, ?_, h₂⟩
    simp only [hreq, hs₂, hfree, put, add, htype, if_true, TraceOp.raise]

/-- **The lines are read one after the other**, as long as there is room in the array. -/
lemma readOps_eq {n : ℕ} (h : Layout (ops.map TraceOp.words).flatten s)
    (hops : ∀ op ∈ ops, op.Writable) (hr : r.ops.length ≤ numOps) (hn : s.length < n) :
    readOps numOps n r s = if r.ops.length + ops.length ≤ numOps then .ok (ops.foldl Reader.add r)
      else .error .undefined := by
  induction ops generalizing r s n with
  | nil =>
    obtain ⟨n, rfl⟩ := Nat.exists_eq_succ_of_ne_zero (Nat.ne_of_gt (Nat.zero_lt_of_lt hn))
    rw [readOps, Layout.scanStr_nil h]
    simp [hr]
  | cons op ops ih =>
    obtain ⟨n, rfl⟩ := Nat.exists_eq_succ_of_ne_zero (Nat.ne_of_gt (Nat.zero_lt_of_lt hn))
    obtain ⟨hop, hops⟩ := List.forall_mem_cons.1 hops
    rw [List.map_cons, List.flatten_cons] at h
    obtain ⟨type, s₁, s₂, hs₁, hs₂, h₂⟩ := r.request_eq numOps h hop
    have hlen₁ := length_scanStr_lt (congrArg Prod.fst hs₁)
    have hlen₂ := r.length_request numOps type s₁
    rw [hs₁] at hlen₁
    rw [hs₂] at hlen₂
    dsimp only at hlen₁ hlen₂
    rw [readOps, hs₁]
    dsimp only
    rw [hs₂]
    by_cases hroom : (r.ops.length : ℤ) < numOps
    · have hadd : (r.add op).ops.length = r.ops.length + 1 := by simp [Reader.add]
      rw [if_pos hroom]
      dsimp only
      rw [ih h₂ hops (by omega) (by omega), hadd, List.length_cons, List.foldl_cons]
      push_cast
      rw [add_assoc, add_comm (1 : ℤ)]
    · rw [if_neg hroom, if_neg (by simp only [List.length_cons]; omega)]

/-- The requests that have been read. -/
@[simp] lemma Reader.ops_foldl_add (ops : List TraceOp) (r : Reader) :
    (ops.foldl Reader.add r).ops = r.ops ++ ops := by
  induction ops generalizing r with
  | nil => simp
  | cons op ops ih => simp [ih, Reader.add]

@[simp] lemma Reader.maxIndex_foldl_add (ops : List TraceOp) (r : Reader) :
    (ops.foldl Reader.add r).maxIndex = ops.foldl (fun m op => op.raise m) r.maxIndex := by
  induction ops generalizing r with
  | nil => rfl
  | cons op ops ih => simp [ih, Reader.add]

/-- **Reading a trace file.** If the file consists of the words of the documented format, with white
space between them, then `read_trace` gives the trace that is written there, provided that the
numbers of the header are right; if not, then it stops at an assertion or, if there are more
requests than the header says, leaves the array. -/
theorem readTrace_layout {suggHeapsize numIds numOps weight : ℕ}
    (h : Layout (traceWords suggHeapsize numIds numOps weight ops) s)
    (hheader : ∀ n ∈ [suggHeapsize, numIds, numOps, weight], n < 2 ^ 31)
    (hops : ∀ op ∈ ops, op.Writable) :
    readTrace s =
      if ops.length ≤ numOps then
        if (maxIndex ops : ℤ) = ((numIds : ℤ) - 1) % 2 ^ 32 ∧ numOps = ops.length then
          .ok ⟨some suggHeapsize, numIds, numOps, some weight, ops⟩
        else .error .assertion
      else .error .undefined := by
  obtain ⟨hsugg, hids, hnops, hweight⟩ : suggHeapsize < 2 ^ 31 ∧ numIds < 2 ^ 31 ∧
      numOps < 2 ^ 31 ∧ weight < 2 ^ 31 := by simpa using hheader
  obtain ⟨s₁, hs₁, h₁⟩ := Layout.scanInt h hsugg
  obtain ⟨s₂, hs₂, h₂⟩ := h₁.scanInt hids
  obtain ⟨s₃, hs₃, h₃⟩ := h₂.scanInt hnops
  obtain ⟨s₄, hs₄, h₄⟩ := h₃.scanInt hweight
  have hpos : ¬ ((numOps : ℤ) < 0 ∨ (numIds : ℤ) < 0) := by omega
  have hread : readOps numOps (s₄.length + 1) ⟨0, none, 0, []⟩ s₄ = _ :=
    readOps_eq h₄ hops (by simp) (Nat.lt_succ_self _)
  simp only [readTrace, hs₁, hs₂, hs₃, hs₄, if_neg hpos, hread]
  by_cases hlen : ops.length ≤ numOps
  · have hlen' : (([] : List TraceOp).length : ℤ) + ops.length ≤ numOps := by simpa using hlen
    rw [if_pos hlen', if_pos hlen]
    simp only [Reader.maxIndex_foldl_add, Reader.ops_foldl_add, List.nil_append]
    exact if_congr (and_congr_right' Nat.cast_inj) rfl rfl
  · have hlen' : ¬ (([] : List TraceOp).length : ℤ) + ops.length ≤ numOps := by simpa using hlen
    rw [if_neg hlen', if_neg hlen]

/-- A file on one line. -/
theorem readTrace_layout_line :
    readTrace (ascii "20000 2 4 1 a 0 2040 a 1 48 r 0 64 f 1 ") =
      .ok ⟨some 20000, 2, 4, some 1, [.ofUnsigned .alloc 0 2040, .ofUnsigned .alloc 1 48,
        .ofUnsigned .realloc 0 64, .ofUnsigned .free 1 0]⟩ := by
  have htext : ascii "20000 2 4 1 a 0 2040 a 1 48 r 0 64 f 1 " =
      ((traceWords 20000 2 4 1 [.ofUnsigned .alloc 0 2040, .ofUnsigned .alloc 1 48,
        .ofUnsigned .realloc 0 64, .ofUnsigned .free 1 0]).map (· ++ [32#8])).flatten := by
    decide +kernel
  have hops : ∀ op ∈ [TraceOp.ofUnsigned .alloc 0 2040, .ofUnsigned .alloc 1 48,
      .ofUnsigned .realloc 0 64, .ofUnsigned .free 1 0], op.Writable := by
    simp only [List.forall_mem_cons, List.not_mem_nil, false_imp_iff, implies_true, and_true]
    exact ⟨⟨by decide, by decide, by decide⟩, ⟨by decide, by decide, by decide⟩,
      ⟨by decide, by decide, by decide⟩, ⟨by decide, by decide, by decide⟩⟩
  rw [htext, readTrace_layout (layout_of_separator (by decide) _) (by decide) hops]
  rfl

/-! ## What is accepted -/

section Accepted

variable {t : Trace} {live : List ℤ}

/-- What `read_trace` knows in the loop. -/
structure Reader.Counts (r : Reader) (numOps : ℤ) : Prop where
  index : r.index < 2 ^ 32
  maxIndex : r.maxIndex = Malloc.maxIndex r.ops
  length : r.ops.length ≤ numOps

lemma maxIndex_append (ops : List TraceOp) (op : TraceOp) :
    maxIndex (ops ++ [op]) = op.raise (maxIndex ops) := by
  simp [maxIndex]

/-- A request that is put into the array. -/
lemma Reader.Counts.put (h : r.put numOps op = .ok r') (hindex : r.index < 2 ^ 32)
    (hmax : r.maxIndex = op.raise (Malloc.maxIndex r.ops)) : r'.Counts numOps := by
  unfold Reader.put at h
  split_ifs at h with hroom
  obtain rfl := Except.ok.inj h
  refine ⟨hindex, by rw [hmax, maxIndex_append], ?_⟩
  simp only [List.length_append, List.length_singleton]
  push_cast
  omega

/-- A request to allocate or to resize. -/
lemma Reader.Counts.putSized {ty : ReqType} (hr : r.Counts numOps) (hty : ty ≠ .free)
    (h : r.putSized numOps ty = .ok r') : r'.Counts numOps := by
  unfold Reader.putSized at h
  split at h
  · cases h
  · next size hsize =>
    refine .put h hr.index ?_
    rw [TraceOp.raise, TraceOp.unsignedIndex_ofUnsigned hr.index, ← hr.maxIndex, max_def,
      if_neg (show (TraceOp.ofUnsigned ty r.index size).type ≠ .free from hty)]
    dsimp only
    split_ifs <;> omega

/-- The numbers of a line do not change what has been counted. -/
lemma Reader.Counts.scanPair (hr : r.Counts numOps) (s : List Byte) :
    (r.scanPair s).1.Counts numOps := by
  unfold Reader.scanPair
  split
  · exact hr
  · next hs =>
    have hlt := scanUnsigned_lt (congrArg Prod.fst hs)
    split
    · exact ⟨hlt, hr.maxIndex, hr.length⟩
    · exact ⟨hlt, hr.maxIndex, hr.length⟩

lemma Reader.Counts.scanIndex (hr : r.Counts numOps) (s : List Byte) :
    (r.scanIndex s).1.Counts numOps := by
  unfold Reader.scanIndex
  split
  · exact hr
  · next hs => exact ⟨scanUnsigned_lt (congrArg Prod.fst hs), hr.maxIndex, hr.length⟩
  · next hs => exact ⟨scanUnsigned_lt (congrArg Prod.fst hs), hr.maxIndex, hr.length⟩

/-- One request, from any text. -/
lemma Reader.Counts.request (hr : r.Counts numOps) (h : (r.request numOps type s).1 = .ok r') :
    r'.Counts numOps := by
  unfold Reader.request at h
  split at h
  · cases h
  · split at h
    · exact (hr.scanPair s).putSized (by decide) h
    · exact (hr.scanPair s).putSized (by decide) h
    · have hscan := hr.scanIndex s
      refine .put h hscan.index ?_
      rw [hscan.maxIndex]
      rfl
    · cases h

/-- The loop. -/
lemma Reader.Counts.readOps {n : ℕ} (hr : r.Counts numOps) (h : readOps numOps n r s = .ok r') :
    r'.Counts numOps := by
  induction n generalizing r s with
  | zero =>
    obtain rfl := Except.ok.inj h
    exact hr
  | succ n ih =>
    rw [Malloc.readOps] at h
    split at h
    · obtain rfl := Except.ok.inj h
      exact hr
    · split at h
      · cases h
      · next heq => exact ih (hr.request (congrArg Prod.fst heq)) h

/-- The indices of the requests to allocate and to resize. -/
lemma le_maxIndex (hop : op ∈ ops) (htype : op.type ≠ .free) :
    op.unsignedIndex ≤ maxIndex ops := by
  induction ops using List.reverseRecOn with
  | nil => cases hop
  | append_singleton ops op' ih =>
    have hle : maxIndex ops ≤ op'.raise (maxIndex ops) := by
      unfold TraceOp.raise
      split_ifs
      · exact le_rfl
      · exact le_max_left ..
    rw [maxIndex_append]
    rcases List.mem_append.1 hop with hop | hop
    · exact (ih hop).trans hle
    · obtain rfl := List.mem_singleton.1 hop
      rw [TraceOp.raise, if_neg htype]
      exact le_max_right ..

/-- Requests that release only what is live have no other indices. -/
lemma TraceOk.forall_index {P : ℤ → Prop} (h : TraceOk live ops) (hlive : ∀ i ∈ live, P i)
    (hsized : ∀ op ∈ ops, op.type ≠ .free → P op.index) : ∀ op ∈ ops, P op.index := by
  induction ops generalizing live with
  | nil => exact fun _ hop => nomatch hop
  | cons op ops ih =>
    obtain ⟨hop, hops⟩ := h
    obtain ⟨hsized₁, hsized⟩ := List.forall_mem_cons.1 hsized
    refine List.forall_mem_cons.2 ?_
    cases htype : op.type with
    | alloc =>
      have hindex := hsized₁ (by simp [htype])
      refine ⟨hindex, ih hops ?_ hsized⟩
      rw [TraceOp.after, htype]
      exact List.forall_mem_cons.2 ⟨hindex, hlive⟩
    | realloc =>
      refine ⟨hsized₁ (by simp [htype]), ih hops ?_ hsized⟩
      rwa [TraceOp.after, htype]
    | free =>
      rw [TraceOp.Ok, htype] at hop
      refine ⟨hlive _ hop, ih hops ?_ hsized⟩
      rw [TraceOp.after, htype]
      exact fun i hi => hlive i (List.mem_of_mem_erase hi)

/-- An index of `f` is not looked at. -/
example : readTrace (ascii "20000 1 2 1 a 0 2040 f 7") =
    .ok ⟨some 20000, 1, 2, some 1, [.ofUnsigned .alloc 0 2040, .ofUnsigned .free 7 0]⟩ := by
  decide +kernel

end Accepted

end Malloc
