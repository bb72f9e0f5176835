import SE101.Lib.Interaction
import SE101.Proxy.Buffer

set_option relaxedAutoImplicit false
set_option autoImplicit false

/-!
# Connections as the kernel serves them

`rio_writen` calls `write` until all bytes are written, and the kernel may take any number of them
at a time, be interrupted, or fail. Together with the buffer behind the reads this is all that is
between `doit` and the kernel. A program that uses it cannot tell it from the connections of
`Proxy.Conn`, which read single bytes and write everything or fail.

## Main definitions

* `Proxy.WriteResult`, `Proxy.rioWriten` — what `write` gives, and the loop over it.
* `Proxy.Sock` — a connection with what the kernel will give.
* `Proxy.IoCall`, `Proxy.Sock.call`, `Proxy.Conn.call` — the calls of a program, at both levels.

## Main results

* `Proxy.rioWriten_refines` — one call of `rio_writen`.
* `Proxy.sockets_refine` — every program.
-/

namespace Proxy

open LittleEndian

/-- What `write` gives for at least one byte. -/
inductive WriteResult
  /-- It takes this many bytes and one more, or all if there are fewer. -/
  | wrote (k : ℕ)
  /-- It was interrupted by a signal: `EINTR`. -/
  | intr
  /-- It returns `0`; `errno` is what an earlier call has left, `EINTR` or not. -/
  | zero (stale : Bool)
  /-- Another error. -/
  | error

/-- The loop of `rio_writen`: whether all bytes are written, and the bytes that are. When the list
of results has come to its end, all is written at once. -/
def rioWriten (bs : List Byte) : List WriteResult → Bool × List Byte × List WriteResult
  | [] => (true, bs, [])
  | w :: ws =>
    if bs = [] then (true, [], w :: ws)
    else match w with
    | .wrote k =>
      let r := rioWriten (bs.drop (k + 1)) ws
      (r.1, bs.take (k + 1) ++ r.2.1, r.2.2)
    | .intr => rioWriten bs ws
    | .zero stale => if stale then rioWriten bs ws else (false, [], ws)
    | .error => (false, [], ws)

/-- The bytes that are written are all, or the first ones and not all. -/
lemma rioWriten_sent (bs : List Byte) (ws : List WriteResult) :
    (rioWriten bs ws).1 = true ∧ (rioWriten bs ws).2.1 = bs ∨
    (rioWriten bs ws).1 = false ∧ (rioWriten bs ws).2.1 <+: bs ∧
      (rioWriten bs ws).2.1.length < bs.length := by
  induction ws generalizing bs with
  | nil => exact .inl ⟨rfl, rfl⟩
  | cons w ws ih =>
    rw [rioWriten.eq_def]
    dsimp only
    by_cases hbs : bs = []
    · rw [if_pos hbs, hbs]
      exact .inl ⟨rfl, rfl⟩
    have hpos := List.length_pos_iff.2 hbs
    rw [if_neg hbs]
    cases w with
    | wrote k =>
      dsimp only
      rcases ih (bs.drop (k + 1)) with ⟨hall, hsent⟩ | ⟨hpart, hsent, hlt⟩
      · exact .inl ⟨hall, by rw [hsent, List.take_append_drop]⟩
      · refine .inr ⟨hpart, ?_, ?_⟩
        · conv_rhs => rw [← List.take_append_drop (k + 1) bs]
          exact (List.prefix_append_right_inj _).2 hsent
        · rw [List.length_drop] at hlt
          rw [List.length_append, List.length_take]
          omega
    | intr => exact ih bs
    | zero stale =>
      cases stale with
      | true => exact ih bs
      | false => exact .inr ⟨rfl, List.nil_prefix, hpos⟩
    | error => exact .inr ⟨rfl, List.nil_prefix, hpos⟩

/-- A connection with what the kernel will give. -/
structure Sock where
  rp : RioT
  writes : List WriteResult
  sent : List Byte

/-- `rio_writen`. -/
def Sock.writen (s : Sock) (bs : List Byte) : ℤ × Sock :=
  let r := rioWriten bs s.writes
  (if r.1 then bs.length else -1, { s with writes := r.2.2, sent := s.sent ++ r.2.1 })

/-- The connection of single bytes, when it is known what becomes of the writes. -/
def Sock.conn (s : Sock) (outcomes : List (Option ℕ)) : Conn := ⟨s.rp.input, outcomes, s.sent⟩

/-- **One call of `rio_writen`** is one write that succeeds, or fails after some bytes. -/
theorem rioWriten_refines (s : Sock) (bs : List Byte) (outcomes : List (Option ℕ)) :
    ∃ outcomes', (s.conn outcomes').writen bs =
      ((s.writen bs).1, (s.writen bs).2.conn outcomes) := by
  rw [Sock.writen]
  by_cases hbs : bs = []
  · have hnil : rioWriten [] s.writes = (true, [], s.writes) := by
      cases s.writes <;> rfl
    refine ⟨outcomes, ?_⟩
    rw [Conn.writen, if_pos hbs, hbs, hnil]
    simp [Sock.conn]
  rcases rioWriten_sent bs s.writes with ⟨hall, hsent⟩ | ⟨hpart, hsent, hlt⟩
  · refine ⟨none :: outcomes, ?_⟩
    rw [Conn.writen, if_neg hbs]
    simp [Sock.conn, hall, hsent]
  · refine ⟨some (rioWriten bs s.writes).2.1.length :: outcomes, ?_⟩
    have htake : bs.dropLast.take (rioWriten bs s.writes).2.1.length =
        (rioWriten bs s.writes).2.1 := by
      rw [List.dropLast_eq_take, List.take_take, min_eq_left (by omega)]
      exact (List.prefix_iff_eq_take.1 hsent).symm
    rw [Conn.writen, if_neg hbs]
    simp [Sock.conn, hpart, htake]

/-! ## Programs -/

variable {ι : Type*} [DecidableEq ι]

/-- What a program asks for, of one of its connections. -/
inductive IoCall (ι : Type*)
  /-- `rio_readlineb` with a buffer for `k` bytes and a `NUL`. -/
  | line (fd : ι) (k : ℕ)
  /-- `rio_readnb` for `n` bytes. -/
  | bytes (fd : ι) (n : ℕ)
  /-- `rio_writen`. -/
  | write (fd : ι) (bs : List Byte)

/-- What it is given. -/
inductive IoResult
  /-- Bytes, or `-1`. -/
  | read (bs : Option (List Byte))
  /-- The number of bytes, or `-1`. -/
  | written (n : ℤ)

/-- A call, served by the kernel. -/
def Sock.call : IoCall ι → (ι → Sock) → IoResult × (ι → Sock)
  | .line fd k, socks =>
    let r := rioReadlineb k (socks fd).rp
    (.read r.1, Function.update socks fd { socks fd with rp := r.2 })
  | .bytes fd n, socks =>
    let r := rioReadnb n (socks fd).rp
    (.read r.1, Function.update socks fd { socks fd with rp := r.2 })
  | .write fd bs, socks =>
    let r := (socks fd).writen bs
    (.written r.1, Function.update socks fd r.2)

/-- A call on connections of single bytes. -/
def Conn.call : IoCall ι → (ι → Conn) → IoResult × (ι → Conn)
  | .line fd k, conns =>
    let r := readlineb k (conns fd).input
    (.read r.1, Function.update conns fd { conns fd with input := r.2 })
  | .bytes fd n, conns =>
    let r := readnb n (conns fd).input
    (.read r.1, Function.update conns fd { conns fd with input := r.2 })
  | .write fd bs, conns =>
    let r := (conns fd).writen bs
    (.written r.1, Function.update conns fd r.2)

/-- The connections of single bytes. -/
def conns (socks : ι → Sock) (outcomes : ι → List (Option ℕ)) : ι → Conn := fun fd =>
  (socks fd).conn (outcomes fd)

/-- One connection has changed. -/
lemma conns_update (socks : ι → Sock) (outcomes : ι → List (Option ℕ)) (fd : ι) (s : Sock)
    (os os' : List (Option ℕ)) (h : outcomes fd = os) :
    Function.update (conns socks (Function.update outcomes fd os')) fd (s.conn os) =
      conns (Function.update socks fd s) outcomes := by
  funext fd'
  by_cases hfd : fd' = fd
  · subst hfd
    simp [conns, h]
  · simp [conns, hfd]

/-- A call at both levels. -/
lemma call_refines (c : IoCall ι) (socks : ι → Sock) (outcomes : ι → List (Option ℕ)) :
    ∃ outcomes', Conn.call c (conns socks outcomes') =
      ((Sock.call c socks).1, conns (Sock.call c socks).2 outcomes) := by
  cases c with
  | line fd k =>
    obtain ⟨hline, hrest⟩ := rioReadlineb_refines k (socks fd).rp
    refine ⟨outcomes, ?_⟩
    have hconns := conns_update socks outcomes fd
      { socks fd with rp := (rioReadlineb k (socks fd).rp).2 } _ (outcomes fd) rfl
    rw [Function.update_eq_self] at hconns
    rw [Sock.call, ← hconns]
    simp [Conn.call, conns, Sock.conn, hline, hrest]
  | bytes fd n =>
    obtain ⟨hbytes, hrest⟩ := rioReadnb_refines n (socks fd).rp
    refine ⟨outcomes, ?_⟩
    have hconns := conns_update socks outcomes fd
      { socks fd with rp := (rioReadnb n (socks fd).rp).2 } _ (outcomes fd) rfl
    rw [Function.update_eq_self] at hconns
    rw [Sock.call, ← hconns]
    simp [Conn.call, conns, Sock.conn, hbytes, hrest]
  | write fd bs =>
    obtain ⟨os, hos⟩ := rioWriten_refines (socks fd) bs (outcomes fd)
    refine ⟨Function.update outcomes fd os, ?_⟩
    rw [Sock.call, ← conns_update socks outcomes fd _ _ os rfl, Conn.call]
    have hconn : conns socks (Function.update outcomes fd os) fd = (socks fd).conn os := by
      simp [conns]
    rw [hconn, hos]

/-- **The layer below the proxy.** For every program that reads lines and any numbers of bytes from
any number of connections and writes to them, and that may go on in different ways depending on what
it is given, and for everything that the kernel may give: there are outcomes of the writes for which
the program is given the same results by the connections of single bytes, has sent the same bytes at
the end, and finds the same input. -/
theorem sockets_refine (program : List IoResult → Option (IoCall ι)) (n : ℕ) (socks : ι → Sock) :
    ∃ outcomes, Interaction.run Conn.call program n [] (conns socks outcomes) =
      ((Interaction.run Sock.call program n [] socks).1,
        conns (Interaction.run Sock.call program n [] socks).2 fun _ => []) :=
  Interaction.exists_run_eq conns (fun _ => []) call_refines program n [] socks

end Proxy
