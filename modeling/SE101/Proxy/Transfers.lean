import SE101.Proxy.Doit

set_option relaxedAutoImplicit false
set_option autoImplicit false

/-!
# What a request does with the connections

`doit` relays a request from the client to the server and then a response from the server to the
client. Each of the two only reads from one connection and only writes to the other, whatever
comes of the reads and the writes.

## Main definitions

* `Proxy.Transfers` — only reading from one connection and writing to the other.
* `Proxy.sendRequest`, `Proxy.sendResponse` — the two halves of a relay.
* `Proxy.Net.Names` — the first line is accepted.

## Main results

* `Proxy.sendRequest_transfers`, `Proxy.sendResponse_transfers` — the halves are transfers.
* `Proxy.relay_eq` — the relay in terms of its halves.
* `Proxy.doit_cases`, `Proxy.doit_of_names` — what `doit` makes of the first line.
-/

namespace Proxy

open LittleEndian CString

/-- From `net` to `net'`, bytes were only read from `src` and written to `dst`. -/
structure Transfers (src dst : Fd) (net net' : Net) : Prop where
  calls : ∃ cs, net'.calls = cs ++ net.calls ∧ ∀ c ∈ cs, c = .read src ∨ c = .write dst
  sent : (net'.conn src).sent = (net.conn src).sent
  outcomes : (net'.conn src).outcomes = (net.conn src).outcomes
  input : (net'.conn dst).input = (net.conn dst).input

/-- "Send request": the request line, the head and the body are relayed to the server. The result
is `false` if that is given up. -/
def sendRequest (net : Net) (request : List Byte) : Bool × Net :=
  match relayRequestHead (net.write .server request).2 0 with
  | (none, net) => (false, net)
  | (some reqSize, net) => relayBody .client .server reqSize.toNat net

/-- "Send response": the head and the body are relayed to the client. The result is the value of
`*size`, or `none` if that is given up. -/
def sendResponse (net : Net) : Option ℕ × Net :=
  match relayResponseHead net 0 0 with
  | (none, net) => (none, net)
  | (some (respSize, total), net) =>
    match relayBody .server .client respSize.toNat net with
    | (false, net) => (none, net)
    | (true, net) =>
      let total := if 0 < respSize then addInt total respSize else total
      (some (total % 2 ^ 64).toNat, net)

/-- The first line from the client is accepted, and these are its parts. -/
structure Net.Names (net : Net) (method uri hostname pathname port : List Byte) : Prop where
  line : (net.readLine .client).1 ≠ []
  complete : incomplete net.below (cstr (net.readLine .client).1) = false
  words : scan (cstr (net.readLine .client).1) = some (method, uri, ascii "HTTP/1.1")
  parts : parseUri uri = some (hostname, pathname, port)

/-- `open_clientfd` is called. -/
def Net.opened (net : Net) : Net := { net with calls := .openClientfd :: net.calls }

variable {net net₁ net₂ : Net} {src dst fd : Fd} {method uri hostname pathname port : List Byte}

@[simp] lemma Net.opened_conn : net.opened.conn = net.conn := rfl

@[simp] lemma Net.opened_calls : net.opened.calls = .openClientfd :: net.calls := rfl

/-! ## Transfers -/

namespace Transfers

/-- Nothing is done. -/
lemma refl (src dst : Fd) (net : Net) : Transfers src dst net net :=
  ⟨⟨[], rfl, fun _ h => absurd h (List.not_mem_nil)⟩, rfl, rfl, rfl⟩

/-- One transfer after the other. -/
lemma trans (h₁ : Transfers src dst net net₁) (h₂ : Transfers src dst net₁ net₂) :
    Transfers src dst net net₂ := by
  obtain ⟨cs₁, hcs₁, hall₁⟩ := h₁.calls
  obtain ⟨cs₂, hcs₂, hall₂⟩ := h₂.calls
  refine ⟨⟨cs₂ ++ cs₁, ?_, ?_⟩, h₂.sent.trans h₁.sent, h₂.outcomes.trans h₁.outcomes,
    h₂.input.trans h₁.input⟩
  · rw [hcs₂, hcs₁, List.append_assoc]
  · intro c hc
    obtain hc | hc := List.mem_append.1 hc
    · exact hall₂ c hc
    · exact hall₁ c hc

/-- Reading a line. -/
lemma readLine (hne : dst ≠ src) (net : Net) : Transfers src dst net (net.readLine src).2 := by
  refine ⟨⟨[.read src], rfl, fun c hc => Or.inl (List.mem_singleton.1 hc)⟩, ?_, ?_, ?_⟩
  · rw [Net.readLine_conn_self]
  · rw [Net.readLine_conn_self]
  · rw [Net.readLine_conn_of_ne hne]

/-- Reading a byte. -/
lemma readByte (hne : dst ≠ src) (net : Net) : Transfers src dst net (net.readByte src).2 := by
  refine ⟨⟨[.read src], rfl, fun c hc => Or.inl (List.mem_singleton.1 hc)⟩, ?_, ?_, ?_⟩
  · rw [Net.readByte_conn_self]
  · rw [Net.readByte_conn_self]
  · rw [Net.readByte_conn_of_ne hne]

/-- Writing. -/
lemma write (hne : dst ≠ src) (net : Net) (bs : List Byte) :
    Transfers src dst net (net.write dst bs).2 := by
  refine ⟨⟨[.write dst], rfl, fun c hc => Or.inr (List.mem_singleton.1 hc)⟩, ?_, ?_, ?_⟩
  · rw [Net.write_conn_of_ne hne.symm]
  · rw [Net.write_conn_of_ne hne.symm]
  · rw [Net.write_conn_self, Conn.writen_input]

/-- A line is read and something is written. -/
lemma line (hne : dst ≠ src) (net : Net) (bs : List Byte) :
    Transfers src dst net ((net.readLine src).2.write dst bs).2 :=
  (readLine hne net).trans (write hne _ bs)

end Transfers

/-- Relaying the head of a request. -/
lemma relayRequestHead_transfers (net : Net) (reqSize : ℤ) :
    Transfers .client .server net (relayRequestHead net reqSize).2 := by
  have hne : Fd.server ≠ .client := by decide
  induction net, reqSize using relayRequestHead.induct with
  | case1 net reqSize r h =>
    rw [relayRequestHead, dif_pos h]
    exact .readLine hne net
  | case2 net reqSize r h w hm =>
    rw [relayRequestHead, dif_neg h]
    dsimp only
    rw [if_pos hm]
    exact .line hne net _
  | case3 net reqSize r h w hm he =>
    rw [relayRequestHead, dif_neg h]
    dsimp only
    rw [if_neg hm, if_pos he]
    exact .line hne net _
  | case4 net reqSize r h w hm he ih =>
    rw [relayRequestHead, dif_neg h]
    dsimp only
    rw [if_neg hm, if_neg he]
    exact (Transfers.line hne net _).trans ih

/-- Relaying the head of a response. -/
lemma relayResponseHead_transfers (net : Net) (respSize total : ℤ) :
    Transfers .server .client net (relayResponseHead net respSize total).2 := by
  have hne : Fd.client ≠ .server := by decide
  induction net, respSize, total using relayResponseHead.induct with
  | case1 net respSize total r h =>
    rw [relayResponseHead, dif_pos h]
    exact .readLine hne net
  | case2 net respSize total r h he =>
    rw [relayResponseHead, dif_neg h]
    dsimp only
    rw [if_pos he]
    exact .line hne net _
  | case3 net respSize total r h w total' he ih =>
    rw [relayResponseHead, dif_neg h]
    dsimp only
    rw [if_neg he]
    exact (Transfers.line hne net _).trans ih

/-- Relaying a body. -/
lemma relayBody_transfers (hne : dst ≠ src) (n : ℕ) (net : Net) :
    Transfers src dst net (relayBody src dst n net).2 := by
  induction n generalizing net with
  | zero => exact .refl src dst net
  | succ n ih =>
    have hread := Transfers.readByte hne net
    have hwrite := hread.trans (.write hne _ (net.readByte src).1)
    rw [relayBody]
    dsimp only
    split_ifs with hb hm
    · exact hread
    · exact hwrite
    · exact hwrite.trans (ih _)

/-- **The request.** Only bytes from the client are read, and only the server is sent any. -/
theorem sendRequest_transfers (net : Net) (request : List Byte) :
    Transfers .client .server net (sendRequest net request).2 := by
  have hne : Fd.server ≠ .client := by decide
  have hline := Transfers.write hne net request
  have hhead := hline.trans (relayRequestHead_transfers _ 0)
  unfold sendRequest
  split
  · next net' h =>
    rw [h] at hhead
    exact hhead
  · next reqSize net' h =>
    rw [h] at hhead
    exact hhead.trans (relayBody_transfers hne reqSize.toNat net')

/-- **The response.** Only bytes from the server are read, and only the client is sent any. -/
theorem sendResponse_transfers (net : Net) :
    Transfers .server .client net (sendResponse net).2 := by
  have hne : Fd.client ≠ .server := by decide
  have hhead := relayResponseHead_transfers net 0 0
  unfold sendResponse
  split
  · next net' h =>
    rw [h] at hhead
    exact hhead
  · next respSize total net' h =>
    rw [h] at hhead
    have hbody := hhead.trans (relayBody_transfers hne respSize.toNat net')
    split
    · next net'' h' =>
      rw [h'] at hbody
      exact hbody
    · next net'' h' =>
      rw [h'] at hbody
      exact hbody

/-- **The relay.** The request, the response if all of the request is relayed, and then both
connections are closed. -/
theorem relay_eq (net : Net) (request : List Byte) : relay net request =
    match sendRequest net request with
    | (false, net) => (0, (net.close .client).close .server)
    | (true, net) =>
      match sendResponse net with
      | (none, net) => (0, (net.close .client).close .server)
      | (some size, net) => (size, (net.close .server).close .client) := by
  unfold relay sendRequest sendResponse
  cases relayRequestHead (net.write .server request).2 0 with
  | mk reqSize net₁ =>
    cases reqSize with
    | none => rfl
    | some reqSize =>
      dsimp only
      cases relayBody .client .server reqSize.toNat net₁ with
      | mk done net₂ =>
        cases done with
        | false => rfl
        | true =>
          dsimp only
          cases relayResponseHead net₂ 0 0 with
          | mk head net₃ =>
            cases head with
            | none => rfl
            | some head =>
              dsimp only
              cases relayBody .server .client head.1.toNat net₃ with
              | mk done net₄ => cases done <;> rfl

/-! ## The first line -/

/-- **A line that is accepted.** -/
theorem doit_of_names (h : net.Names method uri hostname pathname port) : doit net =
    if net.openClientfd hostname port < 0 then
      ⟨(net.readLine .client).2.opened, some uri, 0, true⟩
    else if net.openClientfd hostname port ≤ 0 then
      dropRequest (net.readLine .client).2.opened (some uri)
    else
      let r := relay (net.readLine .client).2.opened
        (requestLine method pathname (ascii "HTTP/1.1"))
      ⟨r.2, some uri, r.1, false⟩ := by
  obtain ⟨hline, hcomplete, hwords, hparts⟩ := h
  have hcomplete' : incomplete (net.readLine .client).2.below (cstr (net.readLine .client).1) =
      false := hcomplete
  unfold doit
  dsimp only
  rw [if_neg hline, hcomplete', if_neg Bool.false_ne_true, hwords]
  dsimp only
  rw [if_neg (not_not.2 rfl), hparts]
  rfl

/-- **The first line.** It is accepted, or the request is dropped. -/
theorem doit_cases (net : Net) :
    (∃ method uri hostname pathname port, net.Names method uri hostname pathname port) ∨
    ∃ urlLog, doit net = dropRequest (net.readLine .client).2 urlLog := by
  refine or_iff_not_imp_left.2 fun h => ?_
  unfold doit
  dsimp only
  split_ifs with hline hcomplete
  · exact ⟨none, rfl⟩
  · exact ⟨none, rfl⟩
  · split
    · exact ⟨none, rfl⟩
    · next method uri version hwords =>
      split_ifs with hversion
      · exact ⟨some uri, rfl⟩
      · rw [ne_eq, not_not] at hversion
        subst hversion
        split
        · exact ⟨some uri, rfl⟩
        · next hostname pathname port hparts =>
          exact absurd ⟨method, uri, hostname, pathname, port, hline,
            Bool.not_eq_true _ ▸ hcomplete, hwords, hparts⟩ h

end Proxy
