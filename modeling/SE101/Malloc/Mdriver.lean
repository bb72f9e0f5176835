import SE101.Malloc.Allocator

set_option relaxedAutoImplicit false
set_option autoImplicit false

/-!
# The trace driver

`mdriver.c` replays the requests of a trace against a malloc package. `eval_mm_valid` keeps a
list of the payloads that are in use, checks every payload that the package hands out against
it, and fills payloads with a byte of their index to see whether `mm_realloc` keeps them.
`eval_mm_util` keeps the total size of the payloads and its maximum.

## Main definitions

* `Malloc.Package` — what the driver uses of a malloc package and of `memlib.c`; `mmPackage` is
  the package of `mm.c`.
* `Malloc.addRange`, `Malloc.removeRange` — the list of payloads.
* `Malloc.TraceOp` — the requests of a trace.
* `Malloc.evalMmValid`, `Malloc.evalMmUtil` — the two evaluations.

## Design

`char` is signed, so the test that compares a byte of a payload with `index & 0xFF` compares a
number from -128 to 127 with one from 0 to 255. What `malloc_error` prints is kept as a value;
an `assert` that fails and a call that does not return are outcomes of their own.
-/

namespace Malloc

open LittleEndian

/-! ## Packages -/

/-- What the driver uses of a malloc package with states `σ`. A call of `mm_malloc` or `mm_realloc`
that does not return is `none`, and so is an `mm_init` that fails; `mm_free` is taken to return. -/
structure Package (σ : Type*) where
  /-- `mem_reset_brk`. -/
  resetBrk : σ → σ
  /-- `mm_init`. -/
  init : σ → Option σ
  /-- `mm_malloc`. -/
  malloc : σ → ℕ → Option (ℕ × σ)
  /-- `mm_realloc`. -/
  realloc : σ → ℕ → ℕ → Option (ℕ × σ)
  /-- `mm_free`. -/
  free : σ → ℕ → σ
  /-- `mem_heap_lo`. -/
  heapLo : σ → ℕ
  /-- `mem_heap_hi`. -/
  heapHi : σ → ℕ
  /-- `mem_heapsize`. -/
  heapSize : σ → ℕ
  /-- The memory of the process. -/
  mem : σ → Memory
  /-- The state after the driver has changed memory. -/
  setMem : σ → Memory → σ

/-- The package of `mm.c`, on the heap of `memlib.c`. -/
def mmPackage : Package Heap where
  resetBrk h := { h with memBrk := h.memStartBrk }
  init := Heap.mmInit
  malloc := Heap.mmMalloc
  realloc := Heap.mmRealloc
  free := Heap.mmFree
  heapLo := Heap.memStartBrk
  heapHi h := h.memBrk - 1
  heapSize h := h.memBrk - h.memStartBrk
  mem := Heap.mem
  setMem h mem := { h with mem := mem }

@[simp] lemma mmPackage_resetBrk (h : Heap) :
    mmPackage.resetBrk h = { h with memBrk := h.memStartBrk } := by
  rw [mmPackage]

@[simp] lemma mmPackage_init (h : Heap) : mmPackage.init h = h.mmInit := by
  rw [mmPackage]

@[simp] lemma mmPackage_malloc (h : Heap) (n : ℕ) : mmPackage.malloc h n = h.mmMalloc n := by
  rw [mmPackage]

@[simp] lemma mmPackage_realloc (h : Heap) (p n : ℕ) :
    mmPackage.realloc h p n = h.mmRealloc p n := by
  rw [mmPackage]

@[simp] lemma mmPackage_free (h : Heap) (p : ℕ) : mmPackage.free h p = h.mmFree p := by
  rw [mmPackage]

@[simp] lemma mmPackage_heapLo (h : Heap) : mmPackage.heapLo h = h.memStartBrk := by
  rw [mmPackage]

@[simp] lemma mmPackage_heapHi (h : Heap) : mmPackage.heapHi h = h.memBrk - 1 := by
  rw [mmPackage]

@[simp] lemma mmPackage_heapSize (h : Heap) : mmPackage.heapSize h = h.memBrk - h.memStartBrk := by
  rw [mmPackage]

@[simp] lemma mmPackage_mem (h : Heap) : mmPackage.mem h = h.mem := by
  rw [mmPackage]

/-! ## Requests -/

/-- The types of requests. -/
inductive ReqType
  | alloc | free | realloc
  deriving DecidableEq

/-- `traceop_t`. -/
structure TraceOp where
  /-- Type of request. -/
  type : ReqType
  /-- Index for `free()` to use later. -/
  index : ℤ
  /-- Byte size of an alloc or realloc request. -/
  size : ℤ
  /-- The index is an `int`. -/
  indexInt : -2 ^ 31 ≤ index ∧ index < 2 ^ 31
  /-- The size is an `int`. -/
  sizeInt : -2 ^ 31 ≤ size ∧ size < 2 ^ 31
  deriving DecidableEq

/-- A conversion to `int` gives an `int`. -/
lemma toInt32_bounds (v : ℕ) : -2 ^ 31 ≤ toInt32 v ∧ toInt32 v < 2 ^ 31 :=
  ⟨BitVec.le_toInt _, BitVec.toInt_lt⟩

/-- A request whose index and size were read as `unsigned`. -/
def TraceOp.ofUnsigned (type : ReqType) (index size : ℕ) : TraceOp :=
  ⟨type, toInt32 index, toInt32 size, toInt32_bounds index, toInt32_bounds size⟩

/-- An `int` as a `size_t`. -/
def sizeT (size : ℤ) : ℕ := (size % 2 ^ 64).toNat

/-! ## The range list -/

/-- `range_t`: the first and the last address of a payload. -/
structure Range where
  lo : ℕ
  hi : ℕ
  deriving DecidableEq

/-- What `malloc_error` is called with. -/
inductive Complaint
  /-- `mm_init failed.` -/
  | initFailed
  /-- `mm_malloc failed.` -/
  | mallocFailed
  /-- `mm_realloc failed.` -/
  | reallocFailed
  /-- `Payload address (%p) not aligned to %d bytes` -/
  | notAligned (lo : ℕ)
  /-- `Payload (%p:%p) lies outside heap (%p:%p)` -/
  | outsideHeap (lo hi heapLo heapHi : ℕ)
  /-- `Payload (%p:%p) overlaps another payload (%p:%p)` -/
  | overlaps (lo hi lo' hi' : ℕ)
  /-- `mm_realloc did not preserve the data from old block` -/
  | notPreserved
  deriving DecidableEq

/-- Why an evaluation ends early. -/
inductive Stop
  /-- `malloc_error` was called for the request `opnum`, and the result is 0. -/
  | error (opnum : ℕ) (c : Complaint)
  /-- An assertion or `app_error`. -/
  | abort
  /-- A call of the package does not return. -/
  | never
  /-- An `int` overflows. -/
  | overflow
  deriving DecidableEq

/-- The test of `add_range` for an overlap with a listed payload. -/
def overlapTest (lo hi : ℕ) (p : Range) : Bool :=
  (p.lo ≤ lo && lo ≤ p.hi) || (p.lo ≤ hi && hi ≤ p.hi)

/-- `add_range` in a heap with the given first and last address. -/
def addRange (heapLo heapHi : ℕ) (ranges : List Range) (lo : ℕ) (size : ℤ) (opnum : ℕ) :
    Except Stop (List Range) :=
  if size ≤ 0 then .error .abort
  else
    let hi := lo + size.toNat - 1
    if lo % 8 ≠ 0 then .error (.error opnum (.notAligned lo))
    else if lo < heapLo ∨ lo > heapHi ∨ hi < heapLo ∨ hi > heapHi then
      .error (.error opnum (.outsideHeap lo hi heapLo heapHi))
    else
      match ranges.find? (overlapTest lo hi) with
      | some p => .error (.error opnum (.overlaps lo hi p.lo p.hi))
      | none => .ok (⟨lo, hi⟩ :: ranges)

/-- `remove_range`. -/
def removeRange (ranges : List Range) (lo : ℕ) : List Range := ranges.eraseP (·.lo = lo)

/-! ## `eval_mm_valid` -/

/-- The memory after `memset(p, c, n)`. -/
def memset (mem : Memory) (p : ℕ) (c : Byte) (n : ℕ) : Memory := fun x =>
  if p ≤ x ∧ x < p + n then c else mem x

/-- The state of `eval_mm_valid`. -/
structure Driver (σ : Type*) where
  /-- The package. -/
  heap : σ
  /-- `*ranges`. -/
  ranges : List Range
  /-- `trace->blocks`. -/
  blocks : ℤ → ℕ
  /-- `trace->block_sizes`. -/
  blockSizes : ℤ → ℕ

section Package

variable {σ : Type*} (pkg : Package σ)

/-- `memset` on a payload. -/
def Package.fill (h : σ) (p : ℕ) (index : ℤ) (size : ℤ) : σ :=
  pkg.setMem h (memset (pkg.mem h) p (BitVec.ofInt 8 (index % 256)) (sizeT size))

/-- `trace->blocks[index] = p; trace->block_sizes[index] = size`. -/
def Driver.remember (d : Driver σ) (index : ℤ) (p : ℕ) (size : ℤ) : Driver σ :=
  { d with
    blocks := Function.update d.blocks index p
    blockSizes := Function.update d.blockSizes index (sizeT size) }

/-- The loop that compares the first bytes of a payload with `index & 0xFF`. -/
def preserved (mem : Memory) (newp : ℕ) (index oldsize : ℤ) : Bool :=
  (List.range oldsize.toNat).all fun j => (mem (newp + j)).toInt = index % 256

/-- One request. -/
def Package.validStep (i : ℕ) (op : TraceOp) (d : Driver σ) : Except Stop (Driver σ) :=
  match op.type with
  | .alloc =>
    match pkg.malloc d.heap (sizeT op.size) with
    | none => .error .never
    | some (p, h) =>
      if p = 0 then .error (.error i .mallocFailed)
      else
        match addRange (pkg.heapLo h) (pkg.heapHi h) d.ranges p op.size i with
        | .error e => .error e
        | .ok ranges =>
          .ok ({ d with heap := pkg.fill h p op.index op.size, ranges := ranges }.remember op.index
            p op.size)
  | .realloc =>
    let oldp := d.blocks op.index
    match pkg.realloc d.heap oldp (sizeT op.size) with
    | none => .error .never
    | some (newp, h) =>
      if newp = 0 then .error (.error i .reallocFailed)
      else
        match addRange (pkg.heapLo h) (pkg.heapHi h) (removeRange d.ranges oldp) newp op.size i with
        | .error e => .error e
        | .ok ranges =>
          let oldsize := min op.size (toInt32 (d.blockSizes op.index))
          if preserved (pkg.mem h) newp op.index oldsize then
            .ok ({ d with heap := pkg.fill h newp op.index op.size, ranges := ranges }.remember
              op.index newp op.size)
          else .error (.error i .notPreserved)
  | .free =>
    let p := d.blocks op.index
    .ok { d with ranges := removeRange d.ranges p, heap := pkg.free d.heap p }

/-- The requests from number `i` on. -/
def Package.validOps : ℕ → List TraceOp → Driver σ → Except Stop (Driver σ)
  | _, [], d => .ok d
  | i, op :: ops, d =>
    match pkg.validStep i op d with
    | .error e => .error e
    | .ok d => validOps (i + 1) ops d

/-- `eval_mm_valid`: the result is 1 if it ends with a state. -/
def evalMmValid (ops : List TraceOp) (d : Driver σ) : Except Stop (Driver σ) :=
  match pkg.init (pkg.resetBrk d.heap) with
  | none => .error (.error 0 .initFailed)
  | some h => pkg.validOps 0 ops { d with heap := h, ranges := [] }

/-! ## `eval_mm_util` -/

/-- The state of `eval_mm_util`. -/
structure Util (σ : Type*) where
  /-- The package. -/
  heap : σ
  /-- `trace->blocks`. -/
  blocks : ℤ → ℕ
  /-- `trace->block_sizes`. -/
  blockSizes : ℤ → ℕ
  /-- `total_size`. -/
  totalSize : ℤ
  /-- `max_total_size`. -/
  maxTotalSize : ℤ

/-- An `int` that has been computed, if it is one. -/
def intOf (v : ℤ) : Except Stop ℤ :=
  if -2 ^ 31 ≤ v ∧ v < 2 ^ 31 then .ok v else .error .overflow

/-- `total_size += v` and the update of `max_total_size` behind it. -/
def Util.grow (u : Util σ) (v : ℤ) : Except Stop (Util σ) :=
  match intOf (u.totalSize + v) with
  | .error e => .error e
  | .ok total => .ok { u with totalSize := total, maxTotalSize := max total u.maxTotalSize }

/-- `trace->blocks[index] = p; trace->block_sizes[index] = size`. -/
def Util.remember (u : Util σ) (heap : σ) (index : ℤ) (p : ℕ) (size : ℤ) : Util σ :=
  { u with
    heap := heap
    blocks := Function.update u.blocks index p
    blockSizes := Function.update u.blockSizes index (sizeT size) }

/-- One request. -/
def Package.utilStep (op : TraceOp) (u : Util σ) : Except Stop (Util σ) :=
  match op.type with
  | .alloc =>
    match pkg.malloc u.heap (sizeT op.size) with
    | none => .error .never
    | some (p, h) =>
      if p = 0 then .error .abort else (u.remember h op.index p op.size).grow op.size
  | .realloc =>
    let oldsize := toInt32 (u.blockSizes op.index)
    match pkg.realloc u.heap (u.blocks op.index) (sizeT op.size) with
    | none => .error .never
    | some (newp, h) =>
      if newp = 0 then .error .abort
      else
        match intOf (op.size - oldsize) with
        | .error e => .error e
        | .ok diff => (u.remember h op.index newp op.size).grow diff
  | .free =>
    match intOf (u.totalSize - toInt32 (u.blockSizes op.index)) with
    | .error e => .error e
    | .ok total => .ok { u with heap := pkg.free u.heap (u.blocks op.index), totalSize := total }

/-- The requests of a trace. -/
def Package.utilOps : List TraceOp → Util σ → Except Stop (Util σ)
  | [], u => .ok u
  | op :: ops, u =>
    match pkg.utilStep op u with
    | .error e => .error e
    | .ok u => utilOps ops u

/-- `eval_mm_util`: the numerator and the denominator of the utilization, in a package `h` and
with what the arrays of the trace contain. -/
def evalMmUtil (ops : List TraceOp) (h : σ) (blocks blockSizes : ℤ → ℕ) : Except Stop (ℤ × ℕ) :=
  match pkg.init (pkg.resetBrk h) with
  | none => .error .abort
  | some h =>
    match pkg.utilOps ops ⟨h, blocks, blockSizes, 0, 0⟩ with
    | .error e => .error e
    | .ok u => .ok (u.maxTotalSize, pkg.heapSize u.heap)

end Package

end Malloc
