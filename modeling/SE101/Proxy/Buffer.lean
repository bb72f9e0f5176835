import SE101.Proxy.Rio

set_option relaxedAutoImplicit false
set_option autoImplicit false

/-!
# The buffer behind the reads

`rio_read` asks the kernel for as many bytes as fit into its buffer and hands them out as they are
asked for. The kernel may give any number of them at a time and may be interrupted. What comes out
of the functions on top of it depends only on the bytes, not on how they arrive.

## Main definitions

* `Proxy.ReadResult` — what a call of `read` gives.
* `Proxy.RioT`, `Proxy.RioT.input` — `rio_t`, and the input of single bytes that it stands for.
* `Proxy.rioRead`, `Proxy.rioReadlineb`, `Proxy.rioReadnb` — `rio_read` and the two loops over it.

## Main results

* `Proxy.rioReadlineb_refines`, `Proxy.rioReadnb_refines` — the loops read single bytes of the
  input.
* `Proxy.rioReadlineb_chunks` — a line of a stream, however the stream is cut into reads.
-/

namespace Proxy

open LittleEndian

/-- What `read` gives. -/
inductive ReadResult
  /-- Some bytes, or none at the end of the stream. -/
  | bytes (bs : List Byte)
  /-- It was interrupted by a signal: `EINTR`. -/
  | intr
  /-- Another error. -/
  | error

/-- `rio_t`, with what the next calls of `read` will give. -/
structure RioT where
  /-- The bytes in the buffer that have not been handed out. -/
  unread : List Byte
  reads : List ReadResult

/-- `rio_read` for `n` bytes: the buffer is filled again while it is empty. The result is `none`
where the C code returns `-1`. -/
def rioRead (n : ℕ) : List Byte → List ReadResult → Option (List Byte) × RioT
  | b :: bs, rs => (some ((b :: bs).take n), ⟨(b :: bs).drop n, rs⟩)
  | [], [] => (some [], ⟨[], []⟩)
  | [], .intr :: rs => rioRead n [] rs
  | [], .error :: rs => (none, ⟨[], rs⟩)
  | [], .bytes [] :: rs => (some [], ⟨[], rs⟩)
  | [], .bytes (b :: bs) :: rs => (some ((b :: bs).take n), ⟨(b :: bs).drop n, rs⟩)

/-- The loop of `rio_readlineb` for at most `k` bytes. -/
def rioReadlineb : ℕ → RioT → Option (List Byte) × RioT
  | 0, rp => (some [], rp)
  | k + 1, rp =>
    match rioRead 1 rp.unread rp.reads with
    | (none, rp) => (none, rp)
    | (some [], rp) => (some [], rp)
    | (some (c :: _), rp) =>
      if c = 10#8 then (some [c], rp)
      else ((rioReadlineb k rp).1.map (c :: ·), (rioReadlineb k rp).2)

/-- The loop of `rio_readnb` for `n` bytes. -/
def rioReadnb (n : ℕ) (rp : RioT) : Option (List Byte) × RioT :=
  if _h : n = 0 then (some [], rp)
  else
    match rioRead n rp.unread rp.reads with
    | (none, rp) => (none, rp)
    | (some [], rp) => (some [], rp)
    | (some (c :: cs), rp) =>
      ((rioReadnb (n - (cs.length + 1)) rp).1.map (c :: cs ++ ·),
        (rioReadnb (n - (cs.length + 1)) rp).2)
  termination_by n
  decreasing_by all_goals omega

/-- The results for single bytes that a result of `read` stands for. -/
def ReadResult.input : ReadResult → List Rio
  | .bytes [] => [.eof]
  | .bytes (b :: bs) => stream (b :: bs)
  | .intr => []
  | .error => [.error]

/-- The results for single bytes that are to come. -/
def RioT.input (rp : RioT) : List Rio := stream rp.unread ++ rp.reads.flatMap ReadResult.input

variable {rp rp' : RioT} {k : ℕ}

/-! ## Single bytes -/

/-- **A byte.** `rio_read` gives the next byte of the input. -/
theorem rioRead_one (bs : List Byte) (rs : List ReadResult) :
    (rioRead 1 bs rs).1 = (readnb 1 (RioT.input ⟨bs, rs⟩)).1 ∧
    (rioRead 1 bs rs).2.input = (readnb 1 (RioT.input ⟨bs, rs⟩)).2 := by
  induction bs, rs using rioRead.induct with
  | case1 b bs rs =>
    rw [rioRead]
    exact ⟨rfl, rfl⟩
  | case2 => exact ⟨rfl, rfl⟩
  | case3 rs ih => exact ih
  | case4 rs => exact ⟨rfl, rfl⟩
  | case5 rs => exact ⟨rfl, rfl⟩
  | case6 b bs rs =>
    rw [rioRead]
    exact ⟨rfl, rfl⟩

/-- A line begins with a byte. -/
lemma readlineb_succ (k : ℕ) (s : List Rio) : readlineb (k + 1) s =
    match readnb 1 s with
    | (none, s) => (none, s)
    | (some [], s) => (some [], s)
    | (some (c :: _), s) =>
      if c = 10#8 then (some [c], s)
      else ((readlineb k s).1.map (c :: ·), (readlineb k s).2) := by
  match s with
  | [] => rfl
  | .eof :: s => rfl
  | .error :: s => rfl
  | .byte c :: s => rfl

/-! ## The loops -/

/-- **Lines.** `rio_readlineb` reads a line of the input.

**Proof sketch.** Induction on the room in the buffer. Each turn reads one byte, and `rio_read`
leaves the rest of the input. -/
theorem rioReadlineb_refines (k : ℕ) (rp : RioT) :
    (rioReadlineb k rp).1 = (readlineb k rp.input).1 ∧
    (rioReadlineb k rp).2.input = (readlineb k rp.input).2 := by
  induction k generalizing rp with
  | zero => exact ⟨rfl, rfl⟩
  | succ k ih =>
    obtain ⟨hbyte, hrest⟩ := rioRead_one rp.unread rp.reads
    rw [rioReadlineb, readlineb_succ]
    generalize rioRead 1 rp.unread rp.reads = r at hbyte hrest ⊢
    change r.1 = (readnb 1 rp.input).1 at hbyte
    change r.2.input = (readnb 1 rp.input).2 at hrest
    generalize readnb 1 rp.input = r' at hbyte hrest ⊢
    obtain ⟨b, rp₁⟩ := r
    obtain ⟨b', s⟩ := r'
    dsimp only at hbyte hrest
    subst hbyte hrest
    match b with
    | none => exact ⟨rfl, rfl⟩
    | some [] => exact ⟨rfl, rfl⟩
    | some (c :: cs) =>
      obtain ⟨hline, hrest⟩ := ih rp₁
      dsimp only
      split_ifs with hc
      · exact ⟨rfl, rfl⟩
      · exact ⟨congrArg (Option.map _) hline, hrest⟩

/-- Bytes that have arrived are read first, as many of them as are asked for. -/
lemma readnb_stream_append (n : ℕ) (bs : List Byte) (s : List Rio) :
    readnb n (stream bs ++ s) =
      ((readnb (n - (bs.take n).length) (stream (bs.drop n) ++ s)).1.map (bs.take n ++ ·),
        (readnb (n - (bs.take n).length) (stream (bs.drop n) ++ s)).2) := by
  induction n generalizing bs with
  | zero => rfl
  | succ n ih =>
    cases bs with
    | nil => simp
    | cons b bs =>
      change readnb (n + 1) (.byte b :: (stream bs ++ s)) = _
      rw [readnb, ih]
      simp [Function.comp_def]

/-- `rio_readnb` goes on after what `rio_read` has given it. -/
lemma readnb_eq_rioRead {n : ℕ} (hn : n ≠ 0) (bs : List Byte) (rs : List ReadResult) :
    readnb n (RioT.input ⟨bs, rs⟩) =
    match rioRead n bs rs with
    | (none, rp) => (none, rp.input)
    | (some [], rp) => (some [], rp.input)
    | (some (c :: cs), rp) =>
      ((readnb (n - (cs.length + 1)) rp.input).1.map (c :: cs ++ ·),
        (readnb (n - (cs.length + 1)) rp.input).2) := by
  obtain ⟨m, rfl⟩ := Nat.exists_eq_succ_of_ne_zero hn
  induction bs, rs using rioRead.induct with
  | case1 b bs rs =>
    rw [rioRead]
    exact readnb_stream_append (m + 1) (b :: bs) _
  | case2 => rfl
  | case3 rs ih => exact ih
  | case4 rs => rfl
  | case5 rs => rfl
  | case6 b bs rs =>
    rw [rioRead]
    exact readnb_stream_append (m + 1) (b :: bs) _

/-- **Bytes.** `rio_readnb` reads bytes of the input one after the other.

**Proof sketch.** Strong induction on the number of bytes that are asked for. Each turn reads at
least one of them. -/
theorem rioReadnb_refines (n : ℕ) (rp : RioT) :
    (rioReadnb n rp).1 = (readnb n rp.input).1 ∧
    (rioReadnb n rp).2.input = (readnb n rp.input).2 := by
  induction n using Nat.strong_induction_on generalizing rp with
  | _ n ih =>
    by_cases hn : n = 0
    · rw [rioReadnb, dif_pos hn, hn]
      exact ⟨rfl, rfl⟩
    have hread := readnb_eq_rioRead hn rp.unread rp.reads
    rw [rioReadnb, dif_neg hn]
    generalize rioRead n rp.unread rp.reads = r at hread ⊢
    obtain ⟨b, rp₁⟩ := r
    change readnb n rp.input = _ at hread
    rw [hread]
    match b with
    | none => exact ⟨rfl, rfl⟩
    | some [] => exact ⟨rfl, rfl⟩
    | some (c :: cs) =>
      obtain ⟨hbytes, hrest⟩ := ih (n - (cs.length + 1)) (by omega) rp₁
      exact ⟨congrArg (Option.map _) hbytes, hrest⟩

/-- A stream that arrives in chunks. -/
lemma input_chunks {chunks : List (List Byte)} (h : ∀ bs ∈ chunks, bs ≠ []) :
    RioT.input ⟨[], chunks.map .bytes⟩ = stream chunks.flatten := by
  induction chunks with
  | nil => rfl
  | cons bs chunks ih =>
    obtain ⟨hbs, hrest⟩ := List.forall_mem_cons.1 h
    obtain ⟨b, bs, rfl⟩ := List.exists_cons_of_ne_nil hbs
    have ih' : (chunks.map ReadResult.bytes).flatMap ReadResult.input = stream chunks.flatten :=
      ih hrest
    have hinput : RioT.input ⟨[], ((b :: bs) :: chunks).map .bytes⟩ =
        stream (b :: bs) ++ (chunks.map ReadResult.bytes).flatMap ReadResult.input := rfl
    rw [hinput, ih', List.flatten_cons, stream, stream, stream, List.map_append]

/-- **However a stream arrives.** The first line of a stream does not depend on the chunks in which
the kernel gives it. -/
theorem rioReadlineb_chunks {chunks : List (List Byte)} (h : ∀ bs ∈ chunks, bs ≠ []) (k : ℕ) :
    (rioReadlineb k ⟨[], chunks.map .bytes⟩).1 = some (Lines.line 10#8 k chunks.flatten) := by
  rw [(rioReadlineb_refines k _).1, input_chunks h, readlineb_stream]

end Proxy
