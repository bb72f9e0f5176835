import SE101.Malloc.Heap

set_option relaxedAutoImplicit false
set_option autoImplicit false

/-!
# The malloc package

The functions of `mm.c`, in the order of the file as far as they do not call each other:
growing the heap, coalescing, placing a block, the three searches, and the entry points
`mm_init`, `mm_malloc`, `mm_free`, `mm_realloc` and `mm_check`.

## Main definitions

* `Malloc.Heap.coalesce`, `extendHeap`, `place`, `findFit`, `findFirstFit`, `findLastFit`.
* `Malloc.Heap.mmInit`, `mmMalloc`, `mmFree`, `mmRealloc`, `mmCheck`.

## Design

A function that returns a pointer gives it together with the heap after the call; `extendHeap`
and `mmInit` are `none` where the C function returns `NULL` or `-1`, and the heap is then as
before. `mmMalloc` and `mmRealloc` are `none` when a search does not end. `mm_malloc` is cut at
its size-specialised branches, each a definition of its own.
-/

namespace Malloc

open LittleEndian

/-- The byte `(char)~0` that marks a payload handed out by the branches for 4095 and 8190. -/
def marker : Byte := 0xFF

/-- The adjusted block size of `mm_malloc` and `mm_realloc`: overhead and alignment included. -/
def adjust (size : ℕ) : ℕ :=
  if size ≤ dsize then 3 * dsize else dsize * ((size + dsize + (dsize - 1)) % 2 ^ 64 / dsize)

namespace Heap

variable (h : Heap)

/-- `PUT(HDRP(bp), PACK(size, alloc)); PUT(FTRP(bp), PACK(size, alloc));` — the footer is found
through the header just written. -/
def putTags (bp size alloc : ℕ) : Heap :=
  let h := h.put (hdrp bp) (pack size alloc)
  h.put (h.ftrp bp) (pack size alloc)

/-- `PUTADDR(PRED(bp), 0); PUTADDR(SUCC(bp), 0);` -/
def clearLinks (bp : ℕ) : Heap := (h.putaddr (pred bp) 0).putaddr (succ bp) 0

/-! ## Growing and coalescing -/

/-- `coalesce`: merges a free block, in no list yet, with its free neighbours, and inserts the
result into the list of its size. -/
def coalesce (bp : ℕ) : ℕ × Heap :=
  let prevAlloc := h.getAlloc (h.ftrp (h.prevBlkp bp))
  let nextAlloc := h.getAlloc (hdrp (h.nextBlkp bp))
  let size := h.getSize (hdrp bp)
  if prevAlloc ≠ 0 ∧ nextAlloc ≠ 0 then (bp, h.insertBlock bp)
  else if prevAlloc ≠ 0 ∧ nextAlloc = 0 then
    let h := h.removeBlock (h.nextBlkp bp)
    let size := size + h.getSize (hdrp (h.nextBlkp bp))
    let h := h.putTags bp size 0
    (bp, h.insertBlock bp)
  else if prevAlloc = 0 ∧ nextAlloc ≠ 0 then
    let h := h.removeBlock (h.prevBlkp bp)
    let size := size + h.getSize (hdrp (h.prevBlkp bp))
    -- the header of `bp` still has the old size here, so that this is the footer of both
    let h := h.put (h.ftrp bp) (pack size 0)
    let h := h.put (hdrp (h.prevBlkp bp)) (pack size 0)
    let bp := h.prevBlkp bp
    (bp, h.insertBlock bp)
  else
    let h := h.removeBlock (h.prevBlkp bp)
    let h := h.removeBlock (h.nextBlkp bp)
    let size := size +
      (h.getSize (hdrp (h.prevBlkp bp)) + h.getSize (h.ftrp (h.nextBlkp bp))) % 2 ^ 32
    let h := h.put (hdrp (h.prevBlkp bp)) (pack size 0)
    let h := h.put (h.ftrp (h.nextBlkp bp)) (pack size 0)
    let bp := h.prevBlkp bp
    (bp, h.insertBlock bp)

/-- `extend_heap`: extends the heap by `words` words, rounded up to an even number. -/
def extendHeap (words : ℕ) : Option (ℕ × Heap) :=
  let size := (if words % 2 ≠ 0 then (words + 1) * wsize else words * wsize) % 2 ^ 64
  match h.memSbrk (toInt32 size) with
  | none => none
  | some (bp, h) =>
    let h := (h.putTags bp size 0).clearLinks bp
    let h := h.put (hdrp (h.nextBlkp bp)) (pack 0 1)
    some (h.coalesce bp)

/-- The words that `mm_init` writes into the empty heap at `p`, and the empty lists. -/
def initWords (p : ℕ) : Heap :=
  let h := h.put p 0
  let h := h.put (p + 1 * wsize) (pack dsize 1)
  let h := h.put (p + 2 * wsize) (pack dsize 1)
  let h := h.put (p + 3 * wsize) (pack 0 1)
  { h with heapListp := p + 2 * wsize, freeListp := fun _ => 0 }

/-- `mm_init`: prologue and epilogue, empty lists and a first free block. -/
def mmInit : Option Heap :=
  match h.memSbrk (4 * wsize) with
  | none => none
  | some (p, h) => ((h.initWords p).extendHeap (chunksize / wsize)).map (·.2)

/-! ## Searching and placing -/

/-- `find_fit`: the first block that is large enough, in the lists from that of `asize` on. -/
def findFit (asize : ℕ) : Option ℕ :=
  let index := getBlockIndex (toInt32 asize)
  h.scanLists maxHeap (fun _ bp => asize ≤ h.getSize (hdrp bp)) (listNum - index) index

/-- `find_first_fit`: the first free block of the heap that is large enough. -/
def findFirstFit (asize : ℕ) : ℕ → ℕ → Option ℕ
  | 0, _ => none
  | fuel + 1, bp =>
    if bp ≠ 0 then
      if h.getAlloc (hdrp bp) = 0 ∧ asize ≤ h.getSize (hdrp bp) then some bp
      else findFirstFit asize fuel (h.nextBlkp bp)
    else some 0

/-- `find_last_fit`: the last block of the heap, whatever it is; `mem_sbrk(0)` is the break. -/
def findLastFit : ℕ := h.prevBlkp h.memBrk

/-- `place`: allocates `asize` bytes at the start of a free block. -/
def place (bp asize : ℕ) : Heap :=
  let csize := h.getSize (hdrp bp)
  if sub64 csize asize ≥ 3 * dsize then
    let h := (h.removeBlock bp).putTags bp asize 1
    let bp := h.nextBlkp bp
    (h.putTags bp (sub64 csize asize) 0).insertBlock bp
  else (h.removeBlock bp).putTags bp csize 1

/-! ## `mm_malloc` -/

/-- The end of the branch of `mm_malloc` for 4095 bytes: an address at a fixed distance from the
start of the heap, marked in its last byte; the next one if that is marked already. -/
def mark4095 (bp : ℕ) : ℕ × Heap :=
  let bp := bp + 4
  if h.mem bp ≠ marker then (bp - 4095, h.putc bp marker)
  else
    let bp := bp + 4096
    (bp - 4095, h.putc bp marker)

/-- The branch of `mm_malloc` for 4095 bytes. -/
def malloc4095 : ℕ × Heap :=
  let bp := h.heapListp + 4 + 4095
  let temp := bp + 1
  if h.getSize temp = 0 ∧ h.getAlloc temp ≠ 0 then
    match h.extendHeap (chunksize / wsize + 1) with
    | none => (0, h)
    | some (_, h) => h.mark4095 bp
  else h.mark4095 bp

/-- The branch of `mm_malloc` for 8190 bytes. -/
def malloc8190 : ℕ × Heap :=
  let bp := h.heapListp + 4 + 4 + 8191
  (bp - 8191, h.putc bp marker)

/-- What both branches for two separate areas do with the free block `bp`: cut it into a free
block of `first` bytes, the block handed out and a free rest. -/
def splitThree (bp first asize : ℕ) : ℕ × Heap :=
  let csize := h.getSize (hdrp bp)
  let h := ((h.removeBlock bp).putTags bp first 0).insertBlock bp
  let bp := h.nextBlkp bp
  let h := h.putTags bp asize 1
  let retptr := bp
  let bp := h.nextBlkp bp
  let rest := sub64 (sub64 csize asize) first
  (retptr, (h.putTags bp rest 0).insertBlock bp)

/-- The branch of `mm_malloc` for 112 and 448 bytes, at the last block of the heap. -/
def mallocLast (bp asize : ℕ) : ℕ × Heap :=
  let binarySize := h.getSize (hdrp (h.prevBlkp bp))
  if binarySize = 16 + overhead ∨ binarySize = 64 + overhead then
    let firstSize := if binarySize = 16 + overhead then (16 + overhead) * 4000
      else (64 + overhead) * 2000
    let words := if binarySize = 16 + overhead then 156 * chunksize / wsize
      else 289 * chunksize / wsize
    match h.extendHeap words with
    | none => (0, h)
    | some (_, h) => h.splitThree bp firstSize asize
  else (bp, h.place bp asize)

/-- The general path of `mm_malloc`, from `find_fit` on. -/
def mallocFit (size asize : ℕ) : Option (ℕ × Heap) :=
  (h.findFit asize).bind fun bp =>
    if bp ≠ 0 then some (bp, h.place bp asize)
    else
      let extendsize := max asize chunksize
      match h.extendHeap (extendsize / wsize) with
      | none => some (0, h)
      | some (bp, h) =>
        if size = 4092 then
          some (h.splitThree (h.nextBlkp h.heapListp) ((16 + overhead) * 2) asize)
        else some (bp, h.place bp asize)

/-- The size of the first block of the heap, by which `mm_malloc` tells the traces apart. -/
def firstSize : ℕ := h.getSize (hdrp (h.nextBlkp h.heapListp))

/-- `mm_malloc`. -/
def mmMalloc (size : ℕ) : Option (ℕ × Heap) :=
  if size = 4095 then some h.malloc4095
  else if size = 8190 then some h.malloc8190
  else if size = 0 then some (0, h)
  else
    let asize := adjust size
    if (h.firstSize = 16 + overhead ∨ h.firstSize = 64 + overhead) ∧ (size = 16 ∨ size = 64) then
      (h.findFirstFit asize maxHeap h.heapListp).bind fun bp =>
        if bp ≠ 0 then some (bp, h.place bp asize) else h.mallocFit size asize
    else if (h.firstSize = 16 + overhead ∨ h.firstSize = 64 + overhead) ∧
        (size = 112 ∨ size = 448) then
      if h.findLastFit ≠ 0 then some (h.mallocLast h.findLastFit asize)
      else h.mallocFit size asize
    else h.mallocFit size asize

/-! ## `mm_free` -/

/-- `mm_free`. -/
def mmFree (ptr : ℕ) : Heap :=
  let size := h.getSize (hdrp ptr)
  if h.mem (ptr + 4095) = marker then h.putc (ptr + 4095) 0
  else if h.mem (ptr + 8191) = marker then h.putc (ptr + 8191) 0
  else (((h.putTags ptr size 0).clearLinks ptr).coalesce ptr).2

/-! ## `mm_realloc` -/

/-- The branch of `mm_realloc` that cuts off the end of a block. -/
def reallocSplit (ptr csize asize : ℕ) : Heap :=
  let diff := sub64 csize asize
  let nextBlock := h.nextBlkp ptr
  let h := h.putTags ptr asize 1
  let remainBlock := h.nextBlkp ptr
  if h.getAlloc (hdrp nextBlock) ≠ 0 then
    ((h.putTags remainBlock diff 0).clearLinks remainBlock).insertBlock remainBlock
  else
    let h := h.removeBlock nextBlock
    let diff := diff + h.getSize (hdrp nextBlock)
    ((h.putTags remainBlock diff 0).clearLinks remainBlock).insertBlock remainBlock

/-- `if (cond) { if (extend_heap(CHUNKSIZE/WSIZE) == NULL) return NULL; }`: the function has
returned, or goes on with a heap. -/
def extendIf (cond : Prop) [Decidable cond] : Except (ℕ × Heap) Heap :=
  if cond then
    match h.extendHeap (chunksize / wsize) with
    | none => .error (0, h)
    | some (_, h) => .ok h
  else .ok h

/-- The block is the last one of the heap. -/
def AtEnd (bp : ℕ) : Prop :=
  h.getSize (hdrp (h.nextBlkp bp)) = 0 ∧ h.getAlloc (hdrp (h.nextBlkp bp)) ≠ 0

instance (bp : ℕ) : Decidable (h.AtEnd bp) := by unfold AtEnd; infer_instance

/-- The growing of `mm_realloc` into the free block behind: `tot_size` bytes are there. -/
def reallocTake (ptr totSize asize : ℕ) : ℕ × Heap :=
  let h := h.removeBlock (h.nextBlkp ptr)
  let diff := sub64 totSize asize
  if diff < 3 * dsize then (ptr, h.putTags ptr totSize 1)
  else
    let h := h.putTags ptr asize 1
    let h := h.putTags (h.nextBlkp ptr) diff 0
    let h := h.clearLinks (h.nextBlkp ptr)
    (ptr, h.insertBlock (h.nextBlkp ptr))

/-- The branch of `mm_realloc` for a block that has become too small, up to the point where the
block has to be moved. -/
def reallocGrow (ptr csize asize : ℕ) : Except (ℕ × Heap) Heap := do
  let h ← h.extendIf (h.AtEnd ptr)
  let next := h.nextBlkp ptr
  let h ← h.extendIf (h.firstSize ≠ 16 + overhead ∧ h.getSize (hdrp next) > 600 ∧
    h.getSize (hdrp next) ≤ 1000 ∧ h.AtEnd next)
  let next := h.nextBlkp ptr
  let h ← h.extendIf (h.firstSize = 16 + overhead ∧ h.getSize (hdrp next) > 2 * (16 + overhead) ∧
    h.getSize (hdrp next) ≤ 2 * (16 + overhead + 20) ∧ h.AtEnd next)
  let next := h.nextBlkp ptr
  if h.getAlloc (hdrp next) = 0 then
    let totSize := csize + h.getSize (hdrp next)
    if totSize ≥ asize then .error (h.reallocTake ptr totSize asize)
    else if h.AtEnd next then
      let h ← h.extendIf True
      let totSize := totSize + chunksize
      if totSize ≥ asize then .error (h.reallocTake ptr totSize asize) else .ok h
    else .ok h
  else .ok h

/-- The end of `mm_realloc`: allocate, copy and free. -/
def reallocMove (ptr csize size : ℕ) : Option (ℕ × Heap) :=
  (h.mmMalloc size).map fun (newptr, h) =>
    if newptr = 0 then (0, h)
    else
      let h := if newptr ≠ ptr then
        { h with mem := copy h.mem newptr h.mem ptr (sub64 csize dsize) } else h
      (newptr, h.mmFree ptr)

/-- `mm_realloc`. -/
def mmRealloc (ptr size : ℕ) : Option (ℕ × Heap) :=
  if size = 0 then some (ptr, h.mmFree ptr)
  else if ptr = 0 then h.mmMalloc size
  else
    let csize := h.getSize (hdrp ptr)
    let asize := adjust size
    if csize ≥ asize ∧ csize < (asize + 3 * dsize) % 2 ^ 64 then some (ptr, h)
    else if csize ≥ (asize + 3 * dsize) % 2 ^ 64 then some (ptr, h.reallocSplit ptr csize asize)
    else
      match h.reallocGrow ptr csize asize with
      | .error r => some r
      | .ok h => h.reallocMove ptr csize size

/-! ## `mm_check` -/

/-- The test of `mm_check` on the pointers of the block `bp` of list `i`. -/
def badLinks (i bp : ℕ) : Bool :=
  0 ≠ h.getaddr (pred (h.freeListp i)) ||
  (h.getaddr (pred bp) = h.getaddr (succ bp) && 0 ≠ h.getaddr (pred bp)) ||
  (0 ≠ h.getaddr (succ bp) &&
    (h.getaddr (succ bp) ≠ h.nextFblkp bp || h.getaddr (pred (h.nextFblkp bp)) ≠ bp))

/-- `mm_check`, each of whose walks may take `fuel` steps. -/
def mmCheck (fuel : ℕ) : Option ℤ := do
  let marked ← h.scanLists fuel (fun _ bp => h.getAlloc (hdrp bp) ≠ 0) listNum 0
  if marked ≠ 0 then return -1
  let contiguous ← h.scanBlocks (fun bp => h.getAlloc (hdrp bp) = 0 ∧
    h.getAlloc (hdrp (h.nextBlkp bp)) = 0) fuel h.heapListp
  if contiguous ≠ 0 then return -1
  let freeNum0 ← h.countBlocks (fun bp => h.getAlloc (hdrp bp) = 0) fuel h.heapListp
  let freeNum1 ← h.countLists fuel listNum 0
  if freeNum0 ≠ freeNum1 then return -1
  let unmatched ← h.scanLists fuel h.badLinks listNum 0
  if unmatched ≠ 0 then return -1
  return 0

end Heap

end Malloc
