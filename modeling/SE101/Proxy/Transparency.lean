import SE101.Proxy.Request

set_option relaxedAutoImplicit false
set_option autoImplicit false

/-!
# When the relay is transparent

A request is relayed through a buffer for a line, as strings, and with the number that `atoi` reads.
The server gets what the client has sent if and only if none of these garbles it.

## Main definitions

* `Proxy.Request.Relayable` — nothing garbles the request.
* `Proxy.Request.Declares` — the length of the body by its header.
* `Proxy.Request.Ordinary` — a request like those that browsers send.

## Main results

* `Proxy.doit_sent_iff` — `doit` is transparent exactly for relayable requests.
* `Proxy.Request.Ordinary.relayable` — ordinary requests are relayable.
* `Proxy.not_doit_sent` — a request that loses its body.
-/

namespace Proxy

open LittleEndian CString Scan

namespace Request

/-- The request line fits into the buffer and its URI has a port or a path. The lines that
`rio_readlineb` cuts the rest into have no `NUL` up to the first one that is `"\r\n"`. Those lines
and as many bytes as the last of them that begins with `Content-Length` announces are as long as
the head and `k` bytes. -/
structure Relayable (r : Request) (body : List Byte) (k : ℕ) : Prop where
  fits : r.line.length ≤ MAXLINE - 1
  named : r.port.isSome ∨ r.path.isSome
  framed : ∃ ls rest,
    Lines.upTo 10#8 (MAXLINE - 1) crlf (r.head ++ crlf ++ body) = some (ls, rest) ∧
    (∀ l ∈ ls, 0 ∉ l) ∧
    ls.flatten.length + min (ls.foldl announced 0).toNat rest.length = r.head.length + 2 + k

/-- The length of the body that a header line declares: `Content-Length`, a colon, blanks, the
number, and blanks. -/
def declared (h : List Byte) : Option ℕ :=
  let s := (h.drop 15).dropWhile (· == 32#8)
  if startsWithNoCase (ascii "Content-Length:") h ∧ s.takeWhile isDigit ≠ [] ∧
      All (· == 32#8) (s.dropWhile isDigit) then
    some (decimal (s.takeWhile isDigit))
  else none

/-- The request declares that its body has `k` bytes. Without a declaration it has none. -/
def Declares (r : Request) (k : ℕ) : Prop :=
  (∀ h ∈ r.headers, declared h = none ∨ declared h = some k) ∧
  (k ≠ 0 → ∃ h ∈ r.headers, declared h = some k)

instance (r : Request) (k : ℕ) : Decidable (r.Declares k) :=
  inferInstanceAs (Decidable (_ ∧ _))

/-- Header lines are short text, those that begin with `Content-Length` declare the length of the
body, and that length is an `int`. -/
structure Ordinary (r : Request) (k : ℕ) : Prop where
  fits : r.line.length ≤ MAXLINE - 1
  named : r.port.isSome ∨ r.path.isSome
  text : ∀ h ∈ r.headers, h ≠ [] ∧ 0 ∉ h ∧ 10#8 ∉ h ∧ h.length + 2 ≤ MAXLINE - 1
  length : ∀ h ∈ r.headers, isContentLength h = true → declared h = some k
  declares : r.Declares k
  int : k < 2 ^ 31

variable {r : Request} {body : List Byte} {k : ℕ}

/-- The header lines are empty or end with a newline. -/
lemma head_eq_nil_or : r.head = [] ∨ r.head.getLast? = some 10#8 := by
  by_cases h : r.headers = []
  · exact .inl (by simp [head, h])
  · right
    obtain ⟨hs, h', heq⟩ := List.eq_nil_or_concat' r.headers |>.resolve_left h
    simp [head, heq, List.getLast?_append]

/-- What `atoi` makes of a declaration. -/
lemma announced_of_declared {h : List Byte} (hk : k < 2 ^ 31) (hd : declared h = some k) (n : ℤ) :
    isContentLength (h ++ crlf) = true ∧ announced n (h ++ crlf) = k := by
  obtain ⟨s, hs⟩ : ∃ s, s = (h.drop 15).dropWhile (· == 32#8) := ⟨_, rfl⟩
  obtain ⟨⟨hname, hne, hblanks'⟩, hdecimal⟩ : (startsWithNoCase (ascii "Content-Length:") h = true ∧
      s.takeWhile isDigit ≠ [] ∧ All (· == 32#8) (s.dropWhile isDigit)) ∧
      decimal (s.takeWhile isDigit) = k := by
    rw [declared, ← hs, Option.ite_none_right_eq_some] at hd
    exact ⟨hd.1, Option.some.inj hd.2⟩
  have h15 : (h.take 15).map toLower = ascii "content-length:" := by
    rw [startsWithNoCase, decide_eq_true_iff] at hname
    exact hname
  have hlen : 15 ≤ h.length := by
    have := congrArg List.length h15
    rw [List.length_map, List.length_take] at this
    have hlen15 : (ascii "content-length:").length = 15 := rfl
    omega
  have hlength : isContentLength (h ++ crlf) = true := by
    have h14 : (h.take 14).map toLower = (ascii "content-length:").take 14 := by
      rw [← h15, ← List.map_take, List.take_take]
      rfl
    rw [isContentLength, startsWithNoCase, decide_eq_true_iff]
    exact (congrArg _ (List.take_append_of_le_length (by omega : 14 ≤ h.length))).trans h14
  refine ⟨hlength, ?_⟩
  have hdrop : (h ++ crlf).drop 15 = (h.drop 15).takeWhile (· == 32#8) ++
      (s.takeWhile isDigit ++ (s.dropWhile isDigit ++ crlf)) := by
    rw [List.drop_append_of_le_length hlen, ← List.append_assoc (s.takeWhile isDigit),
      List.takeWhile_append_dropWhile, ← List.append_assoc, hs, List.takeWhile_append_dropWhile]
  have hblanks : All isSpace ((h.drop 15).takeWhile (· == 32#8)) := by
    intro c hc
    have hc' : (c == 32#8) = true := List.mem_takeWhile_imp (p := (· == 32#8)) hc
    rw [beq_iff_eq.1 hc']
    rfl
  have hdigits : All isDigit (s.takeWhile isDigit) := fun c hc => List.mem_takeWhile_imp hc
  have hstop : Stops isDigit (s.dropWhile isDigit ++ crlf) :=
    Stops.append hblanks' (by decide +kernel) (stops_cons.2 (by decide))
  rw [announced, if_pos hlength, hdrop, atoi_append hblanks hne hdigits hstop (hdecimal ▸ hk),
    hdecimal]

/-- The end of a line is no part of the name of a header. -/
lemma isContentLength_of_append {h : List Byte} (hc : isContentLength (h ++ crlf) = true) :
    isContentLength h = true := by
  have h14 : (ascii "Content-Length").length = 14 := rfl
  rw [isContentLength, startsWithNoCase, h14, decide_eq_true_iff] at hc ⊢
  have hlen : 14 ≤ h.length := by
    by_contra hshort
    have hmem : 13#8 ∈ (h ++ crlf).take 14 := by
      rw [List.take_append, List.take_of_length_le (by omega)]
      obtain ⟨j, hj⟩ : ∃ j, 14 - h.length = j + 1 := ⟨13 - h.length, by omega⟩
      simp [hj]
    have hmem' := List.mem_map_of_mem (f := toLower) hmem
    rw [hc] at hmem'
    exact absurd hmem' (by decide)
  rwa [List.take_append_of_le_length hlen] at hc

/-- The number of the last header that announces one. -/
lemma foldl_announced {ls : List (List Byte)} {v : ℤ}
    (h : ∀ l ∈ ls, isContentLength l = true → ∀ n, announced n l = v) (n : ℤ) :
    ls.foldl announced n = if ls.any isContentLength then v else n := by
  induction ls generalizing n with
  | nil => rfl
  | cons l ls ih =>
    obtain ⟨hl, hls⟩ := List.forall_mem_cons.1 h
    rw [List.foldl_cons, ih hls, List.any_cons]
    by_cases hc : isContentLength l = true
    · simp [hc, hl hc]
    · simp [hc, announced]

/-- The number that header lines announce when each `Content-Length` among them declares it. -/
lemma foldl_announced_headers {hs : List (List Byte)} (hk : k < 2 ^ 31)
    (hlength : ∀ h ∈ hs, isContentLength h = true → declared h = some k)
    (hdeclares : k ≠ 0 → ∃ h ∈ hs, declared h = some k) :
    (hs.map (· ++ crlf) ++ [crlf]).foldl announced 0 = k := by
  have hannounced : ∀ l ∈ hs.map (· ++ crlf),
      isContentLength l = true → ∀ n, announced n l = k := by
    intro l hl hc n
    obtain ⟨h, hh, rfl⟩ := List.mem_map.1 hl
    exact (announced_of_declared hk (hlength h hh (isContentLength_of_append hc)) n).2
  have hcrlf (n : ℤ) : [crlf].foldl announced n = n := rfl
  rw [List.foldl_append, foldl_announced hannounced, hcrlf, ite_eq_left_iff]
  intro hnone
  by_contra hk0
  obtain ⟨h, hh, hdeclared⟩ := hdeclares (by omega)
  have hname := (announced_of_declared hk hdeclared 0).1
  exact hnone (List.any_eq_true.2 ⟨h ++ crlf, List.mem_map.2 ⟨h, hh, rfl⟩, hname⟩)

/-- **Ordinary requests are relayed as they are.** -/
theorem Ordinary.relayable (hr : r.Ordinary k) (hk : k ≤ body.length) : r.Relayable body k := by
  have hhead : r.head = ((r.headers.map (· ++ [13#8])).map (· ++ [10#8])).flatten := by
    rw [head, List.map_map]
    simp [Function.comp_def]
  have hlines : ∀ l ∈ r.headers.map (· ++ [13#8]),
      10#8 ∉ l ∧ l.length < MAXLINE - 1 ∧ l ++ [10#8] ≠ crlf := by
    intro l hl
    obtain ⟨h, hh, rfl⟩ := List.mem_map.1 hl
    obtain ⟨hne, -, hnewline, hshort⟩ := hr.text h hh
    refine ⟨by simp [hnewline], by rw [List.length_append, List.length_singleton]; omega, ?_⟩
    intro heq
    have hlen := congrArg List.length heq
    simp only [List.length_append, List.length_cons, List.length_nil] at hlen
    exact hne (List.length_eq_zero_iff.1 (by omega))
  have hcrlf : crlf = [13#8] ++ [10#8] := rfl
  have hupTo := Lines.upTo_of_lines hlines hcrlf (by decide) (by decide) body
  rw [← hhead] at hupTo
  have hmem : ∀ l ∈ (r.headers.map (· ++ [13#8])).map (· ++ [10#8]),
      ∃ h ∈ r.headers, l = h ++ crlf := by
    intro l hl
    obtain ⟨l', hl', rfl⟩ := List.mem_map.1 hl
    obtain ⟨h, hh, rfl⟩ := List.mem_map.1 hl'
    exact ⟨h, hh, List.append_assoc _ _ _⟩
  refine ⟨hr.fits, hr.named, _, _, hupTo, ?_, ?_⟩
  · intro l hl
    obtain hl | hl := List.mem_append.1 hl
    · obtain ⟨h, hh, rfl⟩ := hmem l hl
      intro h0
      obtain h0 | h0 := List.mem_append.1 h0
      · exact (hr.text h hh).2.1 h0
      · exact absurd h0 (by decide)
    · rw [List.mem_singleton.1 hl]
      decide
  · have hmap : (r.headers.map (· ++ [13#8])).map (· ++ [10#8]) = r.headers.map (· ++ crlf) := by
      rw [List.map_map]
      exact List.map_congr_left fun h _ => List.append_assoc h [13#8] [10#8]
    have hfold := foldl_announced_headers hr.int hr.length hr.declares.2
    rw [← hmap] at hfold
    rw [hfold, List.flatten_append, ← hhead, List.length_append, Int.toNat_natCast, min_eq_left hk]
    rfl

end Request

variable {net : Net} {r : Request} {body : List Byte} {k : ℕ}

/-- **Transparent relay.** The server gets the request line without the host name, the header lines,
the empty line and the first `k` bytes of the body if and only if the request is relayable. -/
theorem doit_sent_iff (hr : r.Valid) (hk : k ≤ body.length)
    (hinput : (net.conn .client).input = stream (r.line ++ (r.head ++ crlf ++ body)))
    (hw : (net.conn .server).Writable)
    (hconn : 0 < net.openClientfd r.host (r.port.getD (ascii "80"))) :
    ((doit net).net.conn .server).sent =
      (net.conn .server).sent ++ r.rewritten ++ (r.head ++ crlf ++ body.take k) ↔
    r.Relayable body k := by
  have hcrlf : crlf = [13#8] ++ [10#8] := rfl
  have hshort : crlf.length ≤ MAXLINE - 1 := by decide
  obtain ⟨ls, rest, s', hupTo, hsection⟩ := Lines.upTo_append hcrlf (by decide) hshort body
    r.head Request.head_eq_nil_or
  obtain ⟨htext, ls', hlast⟩ := Lines.upTo_spec hupTo
  by_cases hfit : r.line.length ≤ MAXLINE - 1 ∧ (r.port.isSome ∨ r.path.isSome)
  · obtain ⟨net', hdoit, hclient, hserver⟩ :=
      Request.doit_eq hr hinput hfit.1 hfit.2 hconn
    rw [hdoit, relay_sent hupTo hclient (hserver ▸ hw), hserver,
      List.append_assoc _ _ (rest.take _), List.append_cancel_left_eq]
    constructor
    · intro h
      have hzero : ∀ l ∈ ls', 0 ∉ l := by
        refine zero_notMem_of_flatten_map_cstr (e := crlf) (by decide) (by decide)
          (t := rest.take (ls.foldl announced 0).toNat) (u := s' ++ body.take k) ?_
        rw [← hlast, h, hsection, List.append_assoc]
      have hzero' : ∀ l ∈ ls, 0 ∉ l := by
        intro l hl
        rw [hlast] at hl
        obtain hl | hl := List.mem_append.1 hl
        · exact hzero l hl
        · rw [List.mem_singleton.1 hl]
          decide
      rw [flatten_map_cstr hzero'] at h
      have hlen := congrArg List.length h
      simp only [List.length_append, List.length_take, min_eq_left hk] at hlen
      exact ⟨hfit.1, hfit.2, ls, rest, hupTo, hzero', hlen⟩
    · rintro ⟨-, -, ls₁, rest₁, hupTo₁, hzero, hlen⟩
      obtain ⟨rfl, rfl⟩ := Prod.mk.inj (Option.some.inj (hupTo.symm.trans hupTo₁))
      rw [flatten_map_cstr hzero]
      -- Both are the beginning of what the client sends after the request line.
      have hpre : ls.flatten ++ rest.take (ls.foldl announced 0).toNat <+:
          r.head ++ crlf ++ body := by
        rw [← htext]
        exact (List.prefix_append_right_inj _).2 (List.take_prefix _ _)
      have hpre' : r.head ++ crlf ++ body.take k <+: r.head ++ crlf ++ body :=
        (List.prefix_append_right_inj _).2 (List.take_prefix _ _)
      have hlen' : (ls.flatten ++ rest.take (ls.foldl announced 0).toNat).length =
          (r.head ++ crlf ++ body.take k).length := by
        simp only [List.length_append, List.length_take, min_eq_left hk]
        exact hlen
      exact (List.prefix_of_prefix_length_le hpre hpre' hlen'.le).eq_of_length hlen'
  · rw [Request.doit_sent_of_dropped hr hinput hfit]
    constructor
    · intro h
      simp [Request.rewritten, requestLine] at h
    · intro h
      exact absurd ⟨h.fits, h.named⟩ hfit

/-- A client that sends the request, and a server that can be reached. -/
def requestNet (r : Request) (body : List Byte) : Net where
  conn
    | .client => ⟨stream (r.line ++ (r.head ++ crlf ++ body)), [], []⟩
    | .server => ⟨[], [], []⟩
  openClientfd _ _ := 3
  below _ := 0
  calls := []

/-- A request whose body has two bytes. -/
def postRequest : Request :=
  ⟨ascii "POST", ascii "http://", ascii "a", none, some (ascii "b"), [ascii "Content-Length: 2"]⟩

/-- The request is relayed as it is. -/
theorem doit_sent_iff_postRequest :
    ((doit (requestNet postRequest (ascii "hi"))).net.conn .server).sent =
      postRequest.rewritten ++ (postRequest.head ++ crlf ++ ascii "hi") := by
  have hr : postRequest.Valid := by
    constructor <;> decide
  have hordinary : postRequest.Ordinary 2 := by
    constructor <;> decide
  have hk : 2 ≤ (ascii "hi").length := by decide
  have hconn : (0 : ℤ) < 3 := by decide
  have hinput : ((requestNet postRequest (ascii "hi")).conn .client).input =
      stream (postRequest.line ++ (postRequest.head ++ crlf ++ ascii "hi")) := rfl
  exact (doit_sent_iff hr hk hinput (fun _ h => nomatch h) hconn).2 (hordinary.relayable hk)

/-- The same request with another header, whose name only begins like the first. -/
def extendedRequest : Request :=
  { postRequest with headers := postRequest.headers ++ [ascii "Content-Length-X: 1"] }

/-- The request loses its body: the second header is taken for another `Content-Length`. -/
theorem not_doit_sent : extendedRequest.Valid ∧ extendedRequest.Declares 2 ∧
    ((doit (requestNet extendedRequest (ascii "hi"))).net.conn .server).sent ≠
      extendedRequest.rewritten ++ (extendedRequest.head ++ crlf ++ ascii "hi") := by
  refine ⟨by constructor <;> decide, by decide, ?_⟩
  decide +kernel

end Proxy
