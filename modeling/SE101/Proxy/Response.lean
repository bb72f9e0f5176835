import SE101.Proxy.Transparency

set_option relaxedAutoImplicit false
set_option autoImplicit false

/-!
# Relaying a response

The head of a response is relayed line by line, its body byte by byte, and the bytes are counted
apart from the writes. When the server's bytes form a response and all writes succeed, then the
client gets the response, and the count is the number of bytes that it gets.

## Main definitions

* `Proxy.Response`, `Proxy.Response.head` — a response, and its bytes up to the empty line.
* `Proxy.Response.Valid` — what is assumed of a response.

## Main results

* `Proxy.relayResponseHead_append`, `Proxy.relayBody_append` — the two loops.
* `Proxy.sendResponse_append` — the response.
* `Proxy.exists_sendResponse` — where `doit` relays a response.
* `Proxy.doit_response` — what the client gets, and what `*size` is.
-/

namespace Proxy

open LittleEndian CString Request

/-- A response: header lines without the ends of the lines, and what follows the empty line. -/
structure Response where
  headers : List (List Byte)
  body : List Byte

/-- The header of a response: its lines and the empty one. -/
def Response.head (r : Response) : List Byte := (r.headers.map (· ++ crlf)).flatten ++ crlf

/-- Header lines are short text, those that begin with `Content-Length` declare `k` bytes, which is
an `int`, and so many bytes there are. -/
structure Response.Valid (r : Response) (k : ℕ) : Prop where
  text : ∀ h ∈ r.headers, h ≠ [] ∧ 0 ∉ h ∧ 10#8 ∉ h ∧ h.length + 2 ≤ MAXLINE - 1
  length : ∀ h ∈ r.headers, isContentLength h = true → declared h = some k
  declares : ∃ h ∈ r.headers, declared h = some k
  int : k < 2 ^ 31
  enough : k ≤ r.body.length

variable {net : Net} {src dst : Fd} {s : List Rio} {l bs : List Byte} {k : ℕ}

/-! ## The loops -/

/-- A short line is read, whatever follows it. -/
lemma readlineb_append (hl : 10#8 ∉ l) (hk : l.length < k) :
    readlineb k (stream (l ++ [10#8]) ++ s) = (some (l ++ [10#8]), s) := by
  induction l generalizing k with
  | nil =>
    obtain ⟨k, rfl⟩ : ∃ j, k = j + 1 := ⟨k - 1, by simp at hk; omega⟩
    rfl
  | cons c l ih =>
    obtain ⟨k, rfl⟩ : ∃ j, k = j + 1 := ⟨k - 1, by simp at hk; omega⟩
    rw [List.mem_cons, not_or] at hl
    have hc : c ≠ 10#8 := Ne.symm hl.1
    change readlineb (k + 1) (.byte c :: (stream (l ++ [10#8]) ++ s)) = _
    rw [readlineb, if_neg hc, ih hl.2 (Nat.lt_of_succ_lt_succ hk)]
    rfl

/-- Counting on modulo `2 ^ 32`. -/
lemma addInt_bmod (a b : ℤ) : addInt (a.bmod (2 ^ 32)) b = (a + b).bmod (2 ^ 32) :=
  Int.bmod_add_bmod

/-- One line of the head. -/
lemma relayResponseHead_line (hinput : (net.conn .server).input = stream (l ++ [10#8]) ++ s)
    (hl : 10#8 ∉ l) (hlen : l.length < MAXLINE - 1) (hzero : 0 ∉ l)
    (hw : (net.conn .client).Writable) (respSize total : ℤ) : ∃ net' : Net,
      (net'.conn .server).input = s ∧
      (net'.conn .client).sent = (net.conn .client).sent ++ (l ++ [10#8]) ∧
      (net'.conn .client).Writable ∧
      relayResponseHead net respSize total = if l ++ [10#8] = crlf
        then (some (announced respSize (l ++ [10#8]), addInt total (l ++ [10#8]).length), net')
        else relayResponseHead net' (announced respSize (l ++ [10#8]))
          (addInt total (l ++ [10#8]).length) := by
  have hread := readlineb_append (s := s) hl hlen
  have hline : (net.readLine .server).1 = l ++ [10#8] := by
    rw [Net.readLine_fst, hinput, hread]
    rfl
  have hstring : cstr (l ++ [10#8]) = l ++ [10#8] := by
    apply cstr_of_notMem
    intro h0
    obtain h0 | h0 := List.mem_append.1 h0
    · exact hzero h0
    · exact absurd h0 (by decide)
  have hclient : (net.readLine .server).2.conn .client = net.conn .client :=
    Net.readLine_conn_of_ne (by decide)
  rw [← hclient] at hw
  obtain ⟨-, hsent, hw'⟩ := hw.writen (l ++ [10#8])
  refine ⟨((net.readLine .server).2.write .client (l ++ [10#8])).2, ?_, ?_, ?_, ?_⟩
  · rw [Net.write_conn_of_ne (by decide), Net.readLine_conn_self, hinput, hread]
  · rw [Net.write_conn_self, hsent, hclient]
  · rw [Net.write_conn_self]
    exact hw'
  · have hne : l ++ [10#8] ≠ [] := by simp
    rw [relayResponseHead]
    simp only [hline, dif_neg hne, hstring]

/-- **The head.** Its lines are relayed as they are, and counted.

**Proof sketch.** Induction on the header lines. A header line is not empty, so the loop goes on
behind it, and the empty line ends the loop. -/
theorem relayResponseHead_append {hs : List (List Byte)}
    (hhs : ∀ h ∈ hs, h ≠ [] ∧ 0 ∉ h ∧ 10#8 ∉ h ∧ h.length + 2 ≤ MAXLINE - 1)
    (hinput : (net.conn .server).input = stream ((hs.map (· ++ crlf)).flatten ++ crlf) ++ s)
    (hw : (net.conn .client).Writable) (respSize total : ℤ) : ∃ net' : Net,
      (net'.conn .server).input = s ∧
      (net'.conn .client).sent =
        (net.conn .client).sent ++ ((hs.map (· ++ crlf)).flatten ++ crlf) ∧
      (net'.conn .client).Writable ∧
      relayResponseHead net respSize (total.bmod (2 ^ 32)) =
        (some ((hs.map (· ++ crlf) ++ [crlf]).foldl announced respSize,
          (total + ((hs.map (· ++ crlf)).flatten ++ crlf).length).bmod (2 ^ 32)), net') := by
  induction hs generalizing net respSize total with
  | nil =>
    have hcr : (10#8 : Byte) ∉ [13#8] := by decide
    obtain ⟨net', hserver, hsent, hw', hhead⟩ := relayResponseHead_line (l := [13#8]) hinput hcr
      (by decide) (by decide) hw respSize (total.bmod (2 ^ 32))
    refine ⟨net', hserver, hsent, hw', ?_⟩
    have hcrlf : [13#8] ++ [10#8] = crlf := rfl
    rw [hhead, if_pos hcrlf, addInt_bmod]
    rfl
  | cons h hs ih =>
    obtain ⟨⟨hne, hzero, hnewline, hshort⟩, hhs⟩ := List.forall_mem_cons.1 hhs
    have hline : h ++ [13#8] ++ [10#8] = h ++ crlf := List.append_assoc h [13#8] [10#8]
    have hsplit : stream (((h :: hs).map (· ++ crlf)).flatten ++ crlf) ++ s =
        stream (h ++ [13#8] ++ [10#8]) ++
          (stream ((hs.map (· ++ crlf)).flatten ++ crlf) ++ s) := by
      simp [stream]
    have hnot : h ++ [13#8] ++ [10#8] ≠ crlf := by
      intro heq
      have hlen := congrArg List.length heq
      simp only [List.length_append, List.length_cons, List.length_nil] at hlen
      exact hne (List.length_eq_zero_iff.1 (by omega))
    have hlen : (h ++ [13#8]).length < MAXLINE - 1 := by
      rw [List.length_append, List.length_singleton]
      omega
    rw [hsplit] at hinput
    obtain ⟨net₁, hserver, hsent, hw₁, hhead⟩ := relayResponseHead_line hinput
      (by simp [hnewline]) hlen (by simpa using hzero) hw respSize (total.bmod (2 ^ 32))
    rw [if_neg hnot, addInt_bmod, hline] at hhead
    obtain ⟨net', hserver', hsent', hw', hhead'⟩ := ih hhs hserver hw₁
      (announced respSize (h ++ crlf)) (total + (h ++ crlf).length)
    refine ⟨net', hserver', ?_, hw', ?_⟩
    · rw [hsent', hsent, hline]
      simp
    · rw [hhead, hhead', List.map_cons, List.cons_append, List.foldl_cons, List.flatten_cons,
        List.append_assoc (h ++ crlf), @List.length_append _ (h ++ crlf), Nat.cast_add,
        add_assoc]

/-- **The body.** Bytes that are there are relayed as they are. -/
theorem relayBody_append (hne : dst ≠ src) (hinput : (net.conn src).input = stream bs ++ s)
    (hw : (net.conn dst).Writable) : ∃ net' : Net,
      (net'.conn src).input = s ∧ (net'.conn dst).sent = (net.conn dst).sent ++ bs ∧
      relayBody src dst bs.length net = (true, net') := by
  induction bs generalizing net with
  | nil => exact ⟨net, hinput, (List.append_nil _).symm, rfl⟩
  | cons c bs ih =>
    have hone : (net.readByte src).1 = [c] := by
      rw [Net.readByte_fst, hinput]
      rfl
    have hrest : ((net.readByte src).2.conn src).input = stream bs ++ s := by
      rw [Net.readByte_conn_self, hinput]
      rfl
    have hdst : (net.readByte src).2.conn dst = net.conn dst := Net.readByte_conn_of_ne hne
    rw [← hdst] at hw
    obtain ⟨hm, hsent, hw'⟩ := hw.writen [c]
    have hm' : ((net.readByte src).2.write dst [c]).1 = 1 := hm
    rw [← Net.write_conn_of_ne hne.symm] at hrest
    rw [← Net.write_conn_self] at hw'
    obtain ⟨net', hsrc, hsent', hbody⟩ := ih hrest hw'
    refine ⟨net', hsrc, ?_, ?_⟩
    · rw [hsent', Net.write_conn_self, hsent, hdst, List.append_assoc]
      rfl
    · rw [List.length_cons, relayBody]
      simp only [hone, List.cons_ne_nil, if_false, hm', ne_eq, not_true_eq_false]
      exact hbody

/-! ## The response -/

/-- **The response.** The client gets the header and as many bytes as it declares, and these are
counted with an `int`. -/
theorem sendResponse_append {r : Response} (hr : r.Valid k)
    (hinput : (net.conn .server).input = stream (r.head ++ r.body) ++ s)
    (hw : (net.conn .client).Writable) : ∃ net' : Net,
      (net'.conn .client).sent = (net.conn .client).sent ++ (r.head ++ r.body.take k) ∧
      sendResponse net = (some ((r.head.length + k : ℤ).bmod (2 ^ 32) % 2 ^ 64).toNat, net') := by
  have hlen : (r.body.take k).length = k := List.length_take_of_le hr.enough
  have hsplit : stream (r.head ++ r.body) ++ s =
      stream r.head ++ (stream (r.body.take k) ++ (stream (r.body.drop k) ++ s)) := by
    rw [← List.append_assoc (stream (r.body.take k)), ← List.append_assoc (stream r.head)]
    simp only [stream, ← List.map_append, List.take_append_drop]
  rw [hsplit] at hinput
  obtain ⟨net₁, hserver, hsent, hw₁, hhead⟩ := relayResponseHead_append hr.text hinput hw 0 0
  have hfold := foldl_announced_headers hr.int hr.length fun _ => hr.declares
  have hzero : (0 : ℤ).bmod (2 ^ 32) = 0 := rfl
  rw [hzero, zero_add, hfold, ← Response.head] at hhead
  obtain ⟨net₂, -, hsent₂, hbody⟩ := relayBody_append (by decide) hserver hw₁
  rw [hlen] at hbody
  refine ⟨net₂, ?_, ?_⟩
  · rw [hsent₂, hsent, List.append_assoc]
    rfl
  · have htotal : (if 0 < (k : ℤ) then addInt ((r.head.length : ℤ).bmod (2 ^ 32)) k
        else (r.head.length : ℤ).bmod (2 ^ 32)) = (r.head.length + k : ℤ).bmod (2 ^ 32) := by
      split_ifs with hpos
      · exact addInt_bmod _ _
      · obtain rfl : k = 0 := by omega
        rw [Nat.cast_zero, add_zero]
    unfold sendResponse
    rw [hhead]
    dsimp only
    rw [Int.toNat_natCast, hbody]
    dsimp only
    rw [htotal]

/-- A count that is an `int` is not changed on its way to a `size_t`. -/
lemma toNat_bmod {n : ℕ} (h : n < 2 ^ 31) : ((n : ℤ).bmod (2 ^ 32) % 2 ^ 64).toNat = n := by
  have hbmod : (n : ℤ).bmod (2 ^ 32) = n := Int.bmod_eq_of_le (by omega) (by omega)
  have hmod : (n : ℤ) % 2 ^ 64 = n := Int.emod_eq_of_lt (by omega) (by omega)
  rw [hbmod, hmod, Int.toNat_natCast]

/-! ## Where `doit` relays a response -/

/-- A call that is no part of a transfer from the client to the server was made before it. -/
lemma read_server_of_transfers {net' : Net} (h : Transfers .client .server net net')
    (hread : .read .server ∈ net'.calls) : .read .server ∈ net.calls := by
  obtain ⟨cs, hcs, hall⟩ := h.calls
  rw [hcs] at hread
  refine (List.mem_append.1 hread).resolve_left fun hmem => ?_
  obtain heq | heq := hall _ hmem <;> cases heq

/-- **The relay of a response.** When `doit` reads from the server, it has done nothing before that
the client or the server's input would show. -/
theorem exists_sendResponse (hcalls : net.calls = [])
    (hread : .read .server ∈ (doit net).net.calls) : ∃ net₁ : Net,
      (net₁.conn .client).sent = (net.conn .client).sent ∧
      (net₁.conn .client).outcomes = (net.conn .client).outcomes ∧
      (net₁.conn .server).input = (net.conn .server).input ∧
      ∀ size net₂, sendResponse net₁ = (some size, net₂) →
        (doit net).size = size ∧ (doit net).net.conn = net₂.conn := by
  have hline : Transfers .client .server net (net.readLine .client).2 :=
    .readLine (by decide) net
  have hnone : .read .server ∉ (net.readLine .client).2.calls := by
    intro hmem
    have hbefore := read_server_of_transfers hline hmem
    rw [hcalls] at hbefore
    cases hbefore
  have hopened : .read .server ∉ (net.readLine .client).2.opened.calls := by
    intro hmem
    obtain heq | hmem := List.mem_cons.1 hmem
    · cases heq
    · exact hnone hmem
  have hclose (net' : Net) (fd : Fd) (h : .read .server ∈ (net'.close fd).calls) :
      .read .server ∈ net'.calls := by
    obtain heq | hmem := List.mem_cons.1 h
    · cases heq
    · exact hmem
  obtain ⟨method, uri, hostname, pathname, port, hnames⟩ | ⟨urlLog, hdoit⟩ := doit_cases net
  · rw [doit_of_names hnames] at hread ⊢
    split_ifs at hread ⊢ with hneg hzero
    · exact absurd hread hopened
    · exact absurd (hclose _ _ hread) hopened
    · dsimp only at hread ⊢
      have hreq := sendRequest_transfers (net.readLine .client).2.opened
        (requestLine method pathname (ascii "HTTP/1.1"))
      rw [relay_eq] at hread ⊢
      generalize sendRequest (net.readLine .client).2.opened
        (requestLine method pathname (ascii "HTTP/1.1")) = r at hreq hread ⊢
      obtain ⟨done, net₁⟩ := r
      cases done with
      | false =>
        have hmem := hclose _ _ (hclose _ _ hread)
        exact absurd (read_server_of_transfers hreq hmem) hopened
      | true =>
        refine ⟨net₁, hreq.sent.trans hline.sent, hreq.outcomes.trans hline.outcomes,
          hreq.input.trans hline.input, fun size net₂ hresp => ?_⟩
        dsimp only
        rw [hresp]
        exact ⟨rfl, rfl⟩
  · rw [hdoit] at hread
    exact absurd (hclose _ _ hread) hnone

/-- **Relaying a response.** If the server sends a response, `doit` comes to read it, and all writes
to the client succeed, then the client gets the header with its empty line and the `k` bytes that
are declared, and `*size` is the number of bytes that it gets. What the server sends after that does
not matter. -/
theorem doit_response {r : Response} (hr : r.Valid k) (hint : r.head.length + k < 2 ^ 31)
    (hcalls : net.calls = [])
    (hinput : (net.conn .server).input = stream (r.head ++ r.body) ++ s)
    (hw : (net.conn .client).Writable) (hread : .read .server ∈ (doit net).net.calls) :
    ((doit net).net.conn .client).sent =
      (net.conn .client).sent ++ (r.head ++ r.body.take k) ∧
    (doit net).size = (r.head ++ r.body.take k).length := by
  obtain ⟨net₁, hsent, houtcomes, hserver, hdoit⟩ := exists_sendResponse hcalls hread
  have hw₁ : (net₁.conn .client).Writable := by
    unfold Conn.Writable
    rw [houtcomes]
    exact hw
  obtain ⟨net₂, hsent₂, hresp⟩ := sendResponse_append hr (hserver.trans hinput) hw₁
  obtain ⟨hsize, hconn⟩ := hdoit _ _ hresp
  have hlen : (r.head ++ r.body.take k).length = r.head.length + k := by
    rw [List.length_append, List.length_take_of_le hr.enough]
  rw [hsent] at hsent₂
  rw [hconn, hsize, hlen, ← Nat.cast_add, toNat_bmod hint]
  exact ⟨hsent₂, rfl⟩

/-- A response whose body has two bytes. -/
def shortResponse : Response :=
  ⟨[ascii "HTTP/1.1 200 OK", ascii "content-length: 2"], ascii "hi!"⟩

/-- A client that sends a request, and a server that sends the response and then fails. -/
def responseNet : Net where
  conn
    | .client => ⟨stream (ascii "GET http://a/ HTTP/1.1\r\n\r\n"), [], []⟩
    | .server => ⟨stream (shortResponse.head ++ shortResponse.body) ++ [.error], [], []⟩
  openClientfd _ _ := 5
  below _ := 0
  calls := []

/-- The client gets the response without what follows its body. -/
theorem doit_response_short :
    ((doit responseNet).net.conn .client).sent =
      (responseNet.conn .client).sent ++ (shortResponse.head ++ shortResponse.body.take 2) ∧
    (doit responseNet).size = (shortResponse.head ++ shortResponse.body.take 2).length := by
  have hr : shortResponse.Valid 2 := by
    constructor <;> decide
  have hread : .read .server ∈ (doit responseNet).net.calls := by decide +kernel
  exact doit_response hr (by decide) rfl rfl (fun _ ho => absurd ho List.not_mem_nil) hread

end Proxy
