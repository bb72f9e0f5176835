import Mathlib.Logic.Function.Basic
import SE101.Lib.LittleEndian

set_option relaxedAutoImplicit false
set_option autoImplicit false

/-!
# The heap of the malloc package

The state behind `mm.c` and `memlib.c`: the memory, the pointer `heap_listp`, the sixteen list
heads `free_listp` and the three pointers of the simulated break. Below it are the macros of
`mm.c` through which all of the package reads and writes that state, the two operations on the
segregated free lists, and the loops that the package runs over a list and over the blocks.

## Main definitions

* `Malloc.Heap` — the state.
* `Malloc.Heap.getSize`, `getAlloc`, `ftrp`, `nextBlkp`, `prevBlkp`, … — the macros.
* `Malloc.Heap.insertBlock`, `Malloc.Heap.removeBlock` — the two free list operations.
* `Malloc.Heap.memSbrk` — the simulated break.
* `Malloc.Heap.scanLists`, `Malloc.Heap.scanBlocks`, … — the loops.

## Design

Pointers, `size_t` values and header words are natural numbers; where the C types wrap or
truncate, the definitions say so (`sub64`, `toInt32`, the width of a `store`). `NULL` is `0`. A
loop takes fuel and is `none` when the fuel runs out. A walk that stays inside a heap of at most
`maxHeap` bytes and takes more than `maxHeap` steps comes back to where it was and never ends,
so `maxHeap` is fuel enough.
-/

namespace Malloc

open LittleEndian

/-! ## Constants and machine arithmetic -/

/-- `WSIZE`: the size of a header or footer. -/
def wsize : ℕ := 4

/-- `DSIZE`: the size of a double word. -/
def dsize : ℕ := 8

/-- `CHUNKSIZE`: the heap is extended by at least this many bytes. -/
def chunksize : ℕ := 4096

/-- `OVERHEAD`: the space overhead in every block. -/
def overhead : ℕ := 8

/-- `LIST_NUM`: the number of free lists. -/
def listNum : ℕ := 16

/-- `MAX_HEAP` of `config.h`: the largest size of the simulated heap. -/
def maxHeap : ℕ := 20 * 2 ^ 20

/-- Subtraction of `size_t` values. -/
def sub64 (a b : ℕ) : ℕ := (a + 2 ^ 64 - b) % 2 ^ 64

/-- Conversion to `int`. -/
def toInt32 (v : ℕ) : ℤ := (BitVec.ofNat 32 v).toInt

/-- `PACK(size, alloc)`: a size and an allocated bit in one word. -/
def pack (size alloc : ℕ) : ℕ := size ||| alloc

/-- `get_block_index`: the list in which a free block of the given size belongs. -/
def getBlockIndex (size : ℤ) : ℕ :=
  if size ≤ 40 then 0
  else if size ≤ 128 then 1
  else if size ≤ 256 then 2
  else if size ≤ 512 then 3
  else if size ≤ 1024 then 4
  else if size ≤ 2048 then 5
  else if size ≤ 4096 then 6
  else if size ≤ 8192 then 7
  else if size ≤ 16384 then 8
  else if size ≤ 32768 then 9
  else if size ≤ 65536 then 10
  else if size ≤ 131072 then 11
  else if size ≤ 262144 then 12
  else if size ≤ 524288 then 13
  else if size ≤ 1048576 then 14
  else 15

/-! ## The state -/

/-- The memory and the static variables of `mm.c` and `memlib.c`. -/
structure Heap where
  /-- The memory of the process. -/
  mem : Memory
  /-- `heap_listp`: the start of the heap. -/
  heapListp : ℕ
  /-- `free_listp`: the heads of the free lists. -/
  freeListp : ℕ → ℕ
  /-- `mem_start_brk`: the first byte of the simulated heap. -/
  memStartBrk : ℕ
  /-- `mem_brk`: the byte behind the last one in use. -/
  memBrk : ℕ
  /-- `mem_max_addr`: the byte behind the last one there is. -/
  memMaxAddr : ℕ

/-- `HDRP(bp)`: the address of the header. -/
def hdrp (bp : ℕ) : ℕ := bp - wsize

/-- `PRED(bp)`: the address of the pointer to the previous free block. -/
def pred (bp : ℕ) : ℕ := bp

/-- `SUCC(bp)`: the address of the pointer to the next free block. -/
def succ (bp : ℕ) : ℕ := bp + dsize

namespace Heap

variable (h : Heap)

/-- `GET(p)`: the word at `p`. -/
def get (p : ℕ) : ℕ := load h.mem p 4

/-- `PUT(p, val)`: writes the word at `p`. -/
def put (p val : ℕ) : Heap := { h with mem := store h.mem p 4 val }

/-- `GETADDR(p)`: the address stored at `p`. -/
def getaddr (p : ℕ) : ℕ := load h.mem p 8

/-- `PUTADDR(p, val)`: writes the address at `p`. -/
def putaddr (p val : ℕ) : Heap := { h with mem := store h.mem p 8 val }

/-- `*p = val` for a `char *p`. -/
def putc (p : ℕ) (val : Byte) : Heap := { h with mem := Function.update h.mem p val }

/-- `free_listp[i] = bp`. -/
def setFreeListp (i bp : ℕ) : Heap := { h with freeListp := Function.update h.freeListp i bp }

/-- `GET_SIZE(p)`: the word at `p` with its low three bits cleared. -/
def getSize (p : ℕ) : ℕ := h.get p / 8 * 8

/-- `GET_ALLOC(p)`: the lowest bit of the word at `p`. -/
def getAlloc (p : ℕ) : ℕ := h.get p % 2

/-- `FTRP(bp)`: the address of the footer. -/
def ftrp (bp : ℕ) : ℕ := bp + h.getSize (hdrp bp) - dsize

/-- `NEXT_BLKP(bp)`: the next block. -/
def nextBlkp (bp : ℕ) : ℕ := bp + h.getSize (bp - wsize)

/-- `PREV_BLKP(bp)`: the previous block. -/
def prevBlkp (bp : ℕ) : ℕ := bp - h.getSize (bp - dsize)

/-- `NEXT_FBLKP(bp)`: the next block of the free list. -/
def nextFblkp (bp : ℕ) : ℕ := h.getaddr (succ bp)

/-- `PREV_FBLKP(bp)`: the previous block of the free list. -/
def prevFblkp (bp : ℕ) : ℕ := h.getaddr (pred bp)

/-! ### What the accesses leave alone -/

@[simp] lemma put_mem (p v : ℕ) : (h.put p v).mem = store h.mem p 4 v := rfl
@[simp] lemma put_freeListp (p v : ℕ) : (h.put p v).freeListp = h.freeListp := rfl
@[simp] lemma putaddr_mem (p v : ℕ) : (h.putaddr p v).mem = store h.mem p 8 v := rfl
@[simp] lemma putaddr_freeListp (p v : ℕ) : (h.putaddr p v).freeListp = h.freeListp := rfl
@[simp] lemma putc_mem (p : ℕ) (v : Byte) : (h.putc p v).mem = Function.update h.mem p v := rfl
@[simp] lemma putc_freeListp (p : ℕ) (v : Byte) : (h.putc p v).freeListp = h.freeListp := rfl
@[simp] lemma setFreeListp_mem (i bp : ℕ) : (h.setFreeListp i bp).mem = h.mem := rfl
@[simp] lemma setFreeListp_freeListp (i bp : ℕ) :
    (h.setFreeListp i bp).freeListp = Function.update h.freeListp i bp := rfl

/-- Writing a word leaves the sizes elsewhere alone. -/
lemma getSize_put_of_disjoint {p q v : ℕ} (hd : q + 4 ≤ p ∨ p + 4 ≤ q) :
    (h.put p v).getSize q = h.getSize q := by
  rw [getSize, get, put_mem, load_store_of_disjoint hd, getSize, get]

/-- Writing a word leaves the footer in front of a block alone. -/
lemma prevBlkp_put_of_disjoint {p v bp : ℕ} (hd : bp - 8 + 4 ≤ p ∨ p + 4 ≤ bp - 8) :
    (h.put p v).prevBlkp bp = h.prevBlkp bp := by
  rw [prevBlkp, dsize, getSize_put_of_disjoint h hd, prevBlkp, dsize]

/-- The two heaps have the same start and the same break. -/
structure SameArena (h h' : Heap) : Prop where
  heapListp : h'.heapListp = h.heapListp
  memStartBrk : h'.memStartBrk = h.memStartBrk
  memBrk : h'.memBrk = h.memBrk
  memMaxAddr : h'.memMaxAddr = h.memMaxAddr

variable {h}

lemma SameArena.refl (h : Heap) : SameArena h h := ⟨rfl, rfl, rfl, rfl⟩

lemma SameArena.trans {h₁ h₂ h₃ : Heap} (h : SameArena h₁ h₂) (h' : SameArena h₂ h₃) :
    SameArena h₁ h₃ :=
  ⟨h'.heapListp.trans h.heapListp, h'.memStartBrk.trans h.memStartBrk,
    h'.memBrk.trans h.memBrk, h'.memMaxAddr.trans h.memMaxAddr⟩

lemma sameArena_put (p v : ℕ) : SameArena h (h.put p v) := ⟨rfl, rfl, rfl, rfl⟩
lemma sameArena_putaddr (p v : ℕ) : SameArena h (h.putaddr p v) := ⟨rfl, rfl, rfl, rfl⟩
lemma sameArena_setFreeListp (i bp : ℕ) : SameArena h (h.setFreeListp i bp) :=
  ⟨rfl, rfl, rfl, rfl⟩
lemma sameArena_putc (p : ℕ) (v : Byte) : SameArena h (h.putc p v) := ⟨rfl, rfl, rfl, rfl⟩

variable (h)

/-- `mem_sbrk`: extends the heap by `incr` bytes and returns the old break, or fails. -/
def memSbrk (incr : ℤ) : Option (ℕ × Heap) :=
  if incr < 0 ∨ (h.memBrk : ℤ) + incr > h.memMaxAddr then none
  else some (h.memBrk, { h with memBrk := ((h.memBrk : ℤ) + incr).toNat })

/-! ## Free lists -/

/-- `insert_block`: inserts a free block in front of the list of its size. -/
def insertBlock (bp : ℕ) : Heap :=
  if bp = 0 then h
  else
    let csize := toInt32 (h.getSize (hdrp bp))
    let index := getBlockIndex csize
    let listp := h.freeListp index
    let h :=
      if listp = 0 then h.putaddr (succ bp) 0
      else (h.putaddr (succ bp) listp).putaddr (pred listp) bp
    (h.putaddr (pred bp) 0).setFreeListp index bp

/-- `remove_block`: removes a free block from the list of its size. -/
def removeBlock (bp : ℕ) : Heap :=
  if bp = 0 then h
  else
    let csize := toInt32 (h.getSize (hdrp bp))
    let index := getBlockIndex csize
    let prev := h.prevFblkp bp
    let next := h.nextFblkp bp
    let h :=
      if prev = 0 ∧ next = 0 then h.setFreeListp index 0
      else if prev = 0 ∧ next ≠ 0 then (h.putaddr (pred next) 0).setFreeListp index next
      else if prev ≠ 0 ∧ next = 0 then h.putaddr (succ prev) 0
      else
        let h := h.putaddr (succ prev) (h.getaddr (succ bp))
        h.putaddr (pred next) (h.getaddr (pred bp))
    (h.putaddr (pred bp) 0).putaddr (succ bp) 0

/-! ## Loops -/

/-- `for (; bp != NULL; bp = NEXT_FBLKP(bp))`, left at the first block with the property `p`;
`0` when there is none. -/
def scanList (p : ℕ → Bool) : ℕ → ℕ → Option ℕ
  | 0, _ => none
  | fuel + 1, bp =>
    if bp = 0 then some 0
    else if p bp then some bp
    else scanList p fuel (h.nextFblkp bp)

/-- The previous loop over `n` lists from list `i` on. -/
def scanLists (fuel : ℕ) (p : ℕ → ℕ → Bool) : ℕ → ℕ → Option ℕ
  | 0, _ => some 0
  | n + 1, i =>
    (h.scanList (p i) fuel (h.freeListp i)).bind fun bp =>
      if bp ≠ 0 then some bp else scanLists fuel p n (i + 1)

/-- The number of rounds of `for (; bp != NULL; bp = NEXT_FBLKP(bp))`. -/
def countList : ℕ → ℕ → Option ℕ
  | 0, _ => none
  | fuel + 1, bp => if bp = 0 then some 0 else (countList fuel (h.nextFblkp bp)).map (· + 1)

/-- The rounds of the previous loop over `n` lists from list `i` on. -/
def countLists (fuel : ℕ) : ℕ → ℕ → Option ℕ
  | 0, _ => some 0
  | n + 1, i =>
    (h.countList fuel (h.freeListp i)).bind fun k => (countLists fuel n (i + 1)).map (k + ·)

/-- `for (; GET_SIZE(HDRP(bp)) > 0; bp = NEXT_BLKP(bp))`, left at the first block with the
property `p`; `0` when there is none. -/
def scanBlocks (p : ℕ → Bool) : ℕ → ℕ → Option ℕ
  | 0, _ => none
  | fuel + 1, bp =>
    if h.getSize (hdrp bp) > 0 then
      if p bp then some bp else scanBlocks p fuel (h.nextBlkp bp)
    else some 0

/-- The blocks with the property `p` in `for (; GET_SIZE(HDRP(bp)) > 0; bp = NEXT_BLKP(bp))`. -/
def countBlocks (p : ℕ → Bool) : ℕ → ℕ → Option ℕ
  | 0, _ => none
  | fuel + 1, bp =>
    if h.getSize (hdrp bp) > 0 then
      (countBlocks p fuel (h.nextBlkp bp)).map ((if p bp then 1 else 0) + ·)
    else some 0

end Heap

end Malloc
