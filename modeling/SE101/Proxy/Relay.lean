import SE101.Proxy.Transfers

set_option relaxedAutoImplicit false
set_option autoImplicit false

/-!
# What the server gets

If all writes to the server succeed, then what `doit` sends is determined by the bytes that the
client sends.

## Main definitions

* `Proxy.Conn.Writable` — all writes succeed.

## Main results

* `Proxy.relayRequestHead_stream` — the head is relayed line by line, each up to its first `NUL`.
* `Proxy.relayBody_stream` — the body is relayed as it is.
* `Proxy.relay_sent` — what the server gets of a request.
-/

namespace Proxy

open LittleEndian CString

/-- All writes succeed. -/
def Conn.Writable (c : Conn) : Prop := ∀ o ∈ c.outcomes, o = none

variable {net : Net} {fd src dst : Fd} {s : List Byte}

/-- A write that succeeds. -/
lemma Conn.Writable.writen {c : Conn} (hc : c.Writable) (bs : List Byte) :
    (c.writen bs).1 = bs.length ∧ (c.writen bs).2.sent = c.sent ++ bs ∧
    (c.writen bs).2.Writable := by
  unfold Conn.writen
  by_cases hbs : bs = []
  · rw [if_pos hbs]
    exact ⟨by simp [hbs], by simp [hbs], hc⟩
  · rw [if_neg hbs]
    split
    · next k os h =>
      have hk := hc (some k) (by rw [h]; exact List.mem_cons_self)
      cases hk
    · next os h =>
      refine ⟨rfl, rfl, fun o ho => hc o ?_⟩
      rw [h]
      exact List.mem_cons_of_mem _ ho
    · exact ⟨rfl, rfl, hc⟩

/-- A line from the client. -/
lemma readLine_client (h : (net.conn .client).input = stream s) :
    (net.readLine .client).1 = Lines.line 10#8 (MAXLINE - 1) s ∧
    ((net.readLine .client).2.conn .client).input =
      stream (s.drop (Lines.line 10#8 (MAXLINE - 1) s).length) := by
  rw [Net.readLine_fst, Net.readLine_conn_self, h, readlineb_stream]
  exact ⟨rfl, rfl⟩

/-- A line holds the empty line only if it is the empty line. -/
lemma cstr_line_eq_crlf {k : ℕ} :
    cstr (Lines.line 10#8 k s) = crlf ↔ Lines.line 10#8 k s = crlf := by
  constructor
  · intro h
    by_cases hzero : 0 ∈ Lines.line 10#8 k s
    · obtain ⟨t, ht⟩ := exists_eq_cstr_append hzero
      have hnil := Lines.eq_nil_of_line_eq (p := [13#8]) (t := 0 :: t) (by rw [ht, h]; rfl)
      cases hnil
    · rwa [cstr_of_notMem hzero] at h
  · intro h
    rw [h]
    rfl

/-- One line of the head. -/
lemma relayRequestHead_line (hinput : (net.conn .client).input = stream s)
    (hw : (net.conn .server).Writable) (hl : Lines.line 10#8 (MAXLINE - 1) s ≠ [])
    (reqSize : ℤ) : ∃ net' : Net,
      (net'.conn .client).input = stream (s.drop (Lines.line 10#8 (MAXLINE - 1) s).length) ∧
      (net'.conn .server).sent =
        (net.conn .server).sent ++ cstr (Lines.line 10#8 (MAXLINE - 1) s) ∧
      (net'.conn .server).Writable ∧
      relayRequestHead net reqSize = if Lines.line 10#8 (MAXLINE - 1) s = crlf
        then (some (announced reqSize (Lines.line 10#8 (MAXLINE - 1) s)), net')
        else relayRequestHead net' (announced reqSize (Lines.line 10#8 (MAXLINE - 1) s)) := by
  obtain ⟨hline, hclient⟩ := readLine_client hinput
  have hserver : (net.readLine .client).2.conn .server = net.conn .server :=
    Net.readLine_conn_of_ne (by decide)
  rw [← hserver] at hw
  obtain ⟨hm, hsent, hw'⟩ := hw.writen (cstr (Lines.line 10#8 (MAXLINE - 1) s))
  refine ⟨((net.readLine .client).2.write .server (cstr (Lines.line 10#8 (MAXLINE - 1) s))).2,
    ?_, ?_, ?_, ?_⟩
  · rw [Net.write_conn_of_ne (by decide)]
    exact hclient
  · rw [Net.write_conn_self, hsent, hserver]
  · rw [Net.write_conn_self]
    exact hw'
  · rw [relayRequestHead]
    simp only [hline, dif_neg hl, Net.write_fst, hm, ne_eq, not_true_eq_false, if_false,
      cstr_line_eq_crlf]

/-- **The head.** Each line is relayed up to its first `NUL`. -/
theorem relayRequestHead_stream {ls : List (List Byte)} {rest : List Byte}
    (hs : Lines.upTo 10#8 (MAXLINE - 1) crlf s = some (ls, rest))
    (hinput : (net.conn .client).input = stream s) (hw : (net.conn .server).Writable)
    (reqSize : ℤ) : ∃ net',
      relayRequestHead net reqSize = (some (ls.foldl announced reqSize), net') ∧
      (net'.conn .client).input = stream rest ∧
      (net'.conn .server).sent = (net.conn .server).sent ++ (ls.map cstr).flatten ∧
      (net'.conn .server).Writable := by
  induction s using Lines.upTo.induct 10#8 (MAXLINE - 1) crlf generalizing net ls reqSize with
  | case1 s hl =>
    rw [Lines.upTo, dif_pos hl] at hs
    cases hs
  | case2 s hl he =>
    rw [Lines.upTo, dif_neg hl, if_pos he] at hs
    cases hs
    obtain ⟨net', hclient, hsent, hw', hhead⟩ := relayRequestHead_line hinput hw hl reqSize
    rw [if_pos he] at hhead
    exact ⟨net', hhead, hclient, by simpa using hsent, hw'⟩
  | case3 s hl he ih =>
    rw [Lines.upTo, dif_neg hl, if_neg he] at hs
    obtain ⟨⟨ls', rest'⟩, hs', heq⟩ := Option.map_eq_some_iff.1 hs
    cases heq
    obtain ⟨net₁, hclient, hsent, hw₁, hhead⟩ := relayRequestHead_line hinput hw hl reqSize
    rw [if_neg he] at hhead
    obtain ⟨net', hhead', hclient', hsent', hw'⟩ := ih hs' hclient hw₁
      (announced reqSize (Lines.line 10#8 (MAXLINE - 1) s))
    refine ⟨net', hhead.trans hhead', hclient', ?_, hw'⟩
    rw [hsent', hsent, List.map_cons, List.flatten_cons, List.append_assoc]

/-- **The body.** The server gets as many bytes as there are, but at most `n`. -/
theorem relayBody_stream (n : ℕ) (hinput : (net.conn .client).input = stream s)
    (hw : (net.conn .server).Writable) :
    ((relayBody .client .server n net).2.conn .server).sent =
      (net.conn .server).sent ++ s.take n := by
  induction n generalizing net s with
  | zero => simp [relayBody]
  | succ n ih =>
    have hserver : (net.readByte .client).2.conn .server = net.conn .server :=
      Net.readByte_conn_of_ne (by decide)
    cases s with
    | nil =>
      have hnone : (net.readByte .client).1 = [] := by
        rw [Net.readByte_fst, hinput]
        rfl
      rw [relayBody]
      simp only [hnone, if_true, hserver, List.take_nil, List.append_nil]
    | cons c s =>
      have hone : (net.readByte .client).1 = [c] := by
        rw [Net.readByte_fst, hinput]
        rfl
      have hrest : ((net.readByte .client).2.conn .client).input = stream s := by
        rw [Net.readByte_conn_self, hinput]
        rfl
      rw [← hserver] at hw
      obtain ⟨hm, hsent, hw'⟩ := hw.writen [c]
      have hm' : ((net.readByte .client).2.write .server [c]).1 = 1 := hm
      rw [relayBody]
      simp only [hone, List.cons_ne_nil, if_false, hm', ne_eq, not_true_eq_false]
      rw [ih (s := s), Net.write_conn_self, hsent, hserver, List.append_assoc]
      · rfl
      · rw [Net.write_conn_of_ne (by decide)]
        exact hrest
      · rw [Net.write_conn_self]
        exact hw'

/-- **What the server gets.** The line that `doit` composes, the lines up to the first empty one,
each up to its first `NUL`, and as many bytes as were announced. -/
theorem relay_sent {ls : List (List Byte)} {rest request : List Byte}
    (hs : Lines.upTo 10#8 (MAXLINE - 1) crlf s = some (ls, rest))
    (hinput : (net.conn .client).input = stream s) (hw : (net.conn .server).Writable) :
    ((relay net request).2.conn .server).sent = (net.conn .server).sent ++ request ++
      (ls.map cstr).flatten ++ rest.take (ls.foldl announced 0).toNat := by
  obtain ⟨-, hsent, hw₁⟩ := hw.writen request
  have hclient : ((net.write .server request).2.conn .client).input = stream s := by
    rw [Net.write_conn_of_ne (by decide)]
    exact hinput
  rw [← Net.write_conn_self] at hsent hw₁
  obtain ⟨net₂, hhead, hclient₂, hsent₂, hw₂⟩ := relayRequestHead_stream hs hclient hw₁ 0
  have hbody := relayBody_stream (ls.foldl announced 0).toNat hclient₂ hw₂
  rw [hsent₂, hsent] at hbody
  have hreq : sendRequest net request =
      relayBody .client .server (ls.foldl announced 0).toNat net₂ := by
    unfold sendRequest
    rw [hhead]
  rw [relay_eq, hreq, ← hbody]
  generalize relayBody .client .server (ls.foldl announced 0).toNat net₂ = r
  obtain ⟨done, net₃⟩ := r
  cases done with
  | false => rfl
  | true =>
    -- Relaying the response sends the server nothing.
    have hresp := (sendResponse_transfers net₃).sent
    dsimp only
    rw [← hresp]
    generalize sendResponse net₃ = r'
    obtain ⟨size, net₄⟩ := r'
    cases size <;> rfl

end Proxy
