import Mathlib.Logic.Function.Basic
import SE101.Lib.CString
import SE101.Lib.Lines

set_option relaxedAutoImplicit false
set_option autoImplicit false

/-!
# Reading and writing on connections

The proxy reads from and writes to two connections through the `rio` functions, which may fail at
any time. What they return is given beforehand; what they do is recorded.

## Main definitions

* `Proxy.Rio` — what `rio_read` gives for one byte.
* `Proxy.Conn`, `Proxy.Net` — a connection, and all that `doit` can see and do.
* `Proxy.readlineb`, `Proxy.readnb` — `rio_readlineb` and `rio_readnb`.
* `Proxy.Net.readLine`, `Proxy.Net.readByte`, `Proxy.Net.write` — the wrappers that `doit` calls.

## Main results

* `Proxy.readlineb_stream` — a line of a stream of bytes.
* `Proxy.exists_line` — what is delivered of any input is a line.

## Design

`rio_read` is asked for one byte at a time. Its buffer hides how the kernel cuts the stream
(`Proxy.rioRead_one`), so the input of a connection is a list of results for single bytes. A list
that has come to its end stands for the end of the stream.
-/

namespace Proxy

open LittleEndian CString

/-- `MAXLINE`: the size of a buffer for a line. -/
def MAXLINE : ℕ := 8192

/-- What `rio_read` gives for one byte. -/
inductive Rio
  /-- The next byte. -/
  | byte (c : Byte)
  /-- The end of the stream. -/
  | eof
  /-- An error. -/
  | error

/-- `rio_readlineb` with a buffer for `k` bytes and a `NUL`: bytes up to and including a newline,
but at most `k`. The result is `none` where the C code returns `-1`. -/
def readlineb : ℕ → List Rio → Option (List Byte) × List Rio
  | 0, s => (some [], s)
  | _ + 1, [] => (some [], [])
  | _ + 1, .eof :: s => (some [], s)
  | _ + 1, .error :: s => (none, s)
  | k + 1, .byte c :: s =>
    if c = 10#8 then (some [c], s)
    else ((readlineb k s).1.map (c :: ·), (readlineb k s).2)

/-- `rio_readnb` for `n` bytes. What has been read before an error is not given. -/
def readnb : ℕ → List Rio → Option (List Byte) × List Rio
  | 0, s => (some [], s)
  | _ + 1, [] => (some [], [])
  | _ + 1, .eof :: s => (some [], s)
  | _ + 1, .error :: s => (none, s)
  | n + 1, .byte c :: s => ((readnb n s).1.map (c :: ·), (readnb n s).2)

/-- The connections of the proxy. -/
inductive Fd
  /-- The client, which has sent a request. -/
  | client
  /-- The server, to which the request is relayed. -/
  | server
  deriving DecidableEq

/-- A connection. -/
structure Conn where
  /-- What the next reads will give. -/
  input : List Rio
  /-- What the next writes will give: all bytes are written, or an error occurs after some of them.
  When the list has come to its end, writes succeed. -/
  outcomes : List (Option ℕ)
  /-- The bytes that were written. -/
  sent : List Byte

/-- `rio_writen`: the number of bytes, or `-1` for an error. -/
def Conn.writen (c : Conn) (bs : List Byte) : ℤ × Conn :=
  if bs = [] then (0, c)
  else match c.outcomes with
  | some k :: os => (-1, { c with outcomes := os, sent := c.sent ++ bs.dropLast.take k })
  | none :: os => (bs.length, { c with outcomes := os, sent := c.sent ++ bs })
  | [] => (bs.length, { c with sent := c.sent ++ bs })

/-- A write leaves alone what is to be read. -/
lemma Conn.writen_input (c : Conn) (bs : List Byte) : (c.writen bs).2.input = c.input := by
  unfold writen
  split_ifs
  · rfl
  · split <;> rfl

/-- What `doit` does with the connections. -/
inductive Call
  | read (fd : Fd)
  | write (fd : Fd)
  | openClientfd
  | close (fd : Fd)
  deriving DecidableEq

/-- All that `doit` can see and do. -/
structure Net where
  conn : Fd → Conn
  /-- The result of `open_clientfd` for a host name and a port: a descriptor, or a negative number
  if the name is not resolved or no connection is made. -/
  openClientfd : List Byte → List Byte → ℤ
  /-- The bytes that stand before the buffer in memory, the nearest one first. -/
  below : ℕ → Byte
  /-- What was done, the last first. -/
  calls : List Call

namespace Net

variable (net : Net) (fd : Fd)

/-- Something is done with a connection. -/
def update (call : Call) (c : Conn) : Net :=
  { net with conn := Function.update net.conn fd c, calls := call :: net.calls }

/-- `Rio_readlineb_w(&rio, buf, MAXLINE)`: a line, which is empty at the end of the stream and for
an error. -/
def readLine : List Byte × Net :=
  let r := readlineb (MAXLINE - 1) (net.conn fd).input
  (r.1.getD [], net.update fd (.read fd) { net.conn fd with input := r.2 })

/-- `Rio_readnb_w(&rio, buf, 1)`: a byte, or none at the end of the stream and for an error. -/
def readByte : List Byte × Net :=
  let r := readnb 1 (net.conn fd).input
  (r.1.getD [], net.update fd (.read fd) { net.conn fd with input := r.2 })

/-- `Rio_writen_w(fd, buf, n)`. -/
def write (bs : List Byte) : ℤ × Net :=
  let r := (net.conn fd).writen bs
  (r.1, net.update fd (.write fd) r.2)

/-- `Close(fd)`, which is taken to succeed. -/
def close : Net := { net with calls := .close fd :: net.calls }

variable {net fd} {fd' : Fd} {bs : List Byte}

@[simp] lemma readLine_fst : (net.readLine fd).1 =
    (readlineb (MAXLINE - 1) (net.conn fd).input).1.getD [] := rfl

@[simp] lemma readLine_conn_self : (net.readLine fd).2.conn fd =
    { net.conn fd with input := (readlineb (MAXLINE - 1) (net.conn fd).input).2 } := by
  simp [readLine, update]

@[simp] lemma readLine_below : (net.readLine fd).2.below = net.below := rfl

@[simp] lemma readLine_openClientfd : (net.readLine fd).2.openClientfd = net.openClientfd := rfl

lemma readLine_conn_of_ne (h : fd' ≠ fd) : (net.readLine fd).2.conn fd' = net.conn fd' := by
  simp [readLine, update, h]

@[simp] lemma readByte_fst : (net.readByte fd).1 =
    (readnb 1 (net.conn fd).input).1.getD [] := rfl

@[simp] lemma readByte_conn_self : (net.readByte fd).2.conn fd =
    { net.conn fd with input := (readnb 1 (net.conn fd).input).2 } := by
  simp [readByte, update]

lemma readByte_conn_of_ne (h : fd' ≠ fd) : (net.readByte fd).2.conn fd' = net.conn fd' := by
  simp [readByte, update, h]

@[simp] lemma write_fst : (net.write fd bs).1 = ((net.conn fd).writen bs).1 := rfl

@[simp] lemma write_conn_self :
    (net.write fd bs).2.conn fd = ((net.conn fd).writen bs).2 := by
  simp [write, update]

lemma write_conn_of_ne (h : fd' ≠ fd) : (net.write fd bs).2.conn fd' = net.conn fd' := by
  simp [write, update, h]

@[simp] lemma close_conn : (net.close fd).conn = net.conn := rfl

end Net

/-! ## Streams of bytes -/

/-- A stream of bytes that comes to its end without an error. -/
def stream (bs : List Byte) : List Rio := bs.map .byte

/-- **A line of a stream.** -/
theorem readlineb_stream (k : ℕ) (bs : List Byte) : readlineb k (stream bs) =
    (some (Lines.line 10#8 k bs), stream (bs.drop (Lines.line 10#8 k bs).length)) := by
  induction k generalizing bs with
  | zero => rfl
  | succ k ih =>
    cases bs with
    | nil => rfl
    | cons c bs =>
      change readlineb (k + 1) (.byte c :: stream bs) = _
      rw [readlineb, Lines.line, ih]
      split_ifs <;> rfl

/-- **Lines.** What `rio_readlineb` delivers is a line of some bytes. -/
theorem exists_line {k : ℕ} {s : List Rio} {l : List Byte} (h : (readlineb k s).1 = some l) :
    ∃ bs, l = Lines.line 10#8 k bs := by
  induction k generalizing s l with
  | zero =>
    cases h
    exact ⟨[], rfl⟩
  | succ k ih =>
    match s with
    | [] =>
      cases h
      exact ⟨[], rfl⟩
    | .eof :: s =>
      cases h
      exact ⟨[], rfl⟩
    | .error :: s => cases h
    | .byte c :: s =>
      rw [readlineb] at h
      split_ifs at h with hc
      · cases h
        exact ⟨[c], by rw [Lines.line, if_pos hc]⟩
      · obtain ⟨l', hl', rfl⟩ := Option.map_eq_some_iff.1 h
        obtain ⟨bs, rfl⟩ := ih hl'
        exact ⟨c :: bs, by rw [Lines.line, if_neg hc]⟩

/-- Reading a line does not lengthen the input. -/
lemma length_readlineb_le (k : ℕ) (s : List Rio) : (readlineb k s).2.length ≤ s.length := by
  induction k generalizing s with
  | zero => exact le_rfl
  | succ k ih =>
    match s with
    | [] => exact le_rfl
    | .eof :: s => exact Nat.le_succ _
    | .error :: s => exact Nat.le_succ _
    | .byte c :: s =>
      rw [readlineb]
      split_ifs with hc
      · exact Nat.le_succ _
      · exact (ih s).trans (Nat.le_succ _)

/-- A line uses up input. -/
lemma length_readlineb_lt {k : ℕ} {s : List Rio} (h : (readlineb k s).1.getD [] ≠ []) :
    (readlineb k s).2.length < s.length := by
  match k, s with
  | 0, s => exact absurd rfl h
  | k + 1, [] => exact absurd rfl h
  | k + 1, .eof :: s => exact absurd rfl h
  | k + 1, .error :: s => exact absurd rfl h
  | k + 1, .byte c :: s =>
    rw [readlineb]
    split_ifs with hc
    · exact Nat.lt_succ_self _
    · exact Nat.lt_succ_of_le (length_readlineb_le k s)

end Proxy
