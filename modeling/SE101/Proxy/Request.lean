import SE101.Proxy.Relay
import SE101.Proxy.RequestLine
import SE101.Proxy.UriParts

set_option relaxedAutoImplicit false
set_option autoImplicit false

/-!
# Valid requests

A request to a proxy, what its bytes are, and how `doit` reads its first line.

## Main definitions

* `Proxy.Request`, `Proxy.Request.Valid` — a request, and what its parts must be.
* `Proxy.Request.line`, `Proxy.Request.head` — its bytes.

## Main results

* `Proxy.Request.doit_eq` — `doit` accepts a valid request that fits into the buffer and whose URI
  has a port or a path.
* `Proxy.Request.doit_sent_of_dropped` — it sends nothing otherwise.
-/

namespace Proxy

open LittleEndian CString Scan

/-- A request: method, URI and header lines without the ends of the lines. -/
structure Request where
  method : List Byte
  /-- `http://` in some letter case. -/
  scheme : List Byte
  host : List Byte
  port : Option (List Byte)
  /-- The path without its leading slash. -/
  path : Option (List Byte)
  headers : List (List Byte)

/-- A character of a word: neither white space nor `NUL`. -/
def isWord (b : Byte) : Bool := !isSpace b && b ≠ 0

namespace Request

variable (r : Request)

/-- The parts of a request are what they should be. -/
structure Valid : Prop where
  method_ne : r.method ≠ []
  method : All isWord r.method
  scheme : r.scheme.map toLower = ascii "http://"
  host_ne : r.host ≠ []
  host : All (fun b => isWord b && !isHostEnd b) r.host
  port_ne : ∀ p ∈ r.port, p ≠ []
  port : ∀ p ∈ r.port, All isDigit p
  path : ∀ p ∈ r.path, All isWord p

/-- What follows the host in the URI. -/
def tail : List Byte :=
  (match r.port with
    | some p => 58#8 :: p
    | none => []) ++
  match r.path with
    | some p => 47#8 :: p
    | none => []

/-- The URI. -/
def uri : List Byte := r.scheme ++ (r.host ++ r.tail)

/-- The request line without its end. -/
def text : List Byte := r.method ++ (ascii " " ++ (r.uri ++ (ascii " " ++ ascii "HTTP/1.1")))

/-- The request line. -/
def line : List Byte := r.text ++ crlf

/-- The header lines. -/
def head : List Byte := (r.headers.map (· ++ crlf)).flatten

/-- The request line that the server is to get. -/
def rewritten : List Byte := requestLine r.method (r.path.getD []) (ascii "HTTP/1.1")

variable {r} {below : ℕ → Byte}

/-! ## Reading the request line -/

/-- Digits are characters of words, and none of them ends a host name. -/
lemma isWord_of_isDigit {b : Byte} (h : isDigit b = true) :
    isWord b = true ∧ isHostEnd b = false := by
  revert b
  decide +kernel

/-- Letters of the scheme are characters of words. -/
lemma isWord_of_toLower {b : Byte} (h : isWord (toLower b) = true) : isWord b = true := by
  revert b
  decide +kernel

/-- A character of a word is no white space. -/
lemma isSpace_of_isWord {b : Byte} (h : isWord b = true) : (!isSpace b) = true := by
  rw [isWord, Bool.and_eq_true] at h
  exact h.1

namespace Valid

/-- The scheme is a word. -/
lemma scheme_isWord (hr : r.Valid) : All isWord r.scheme := by
  intro b hb
  apply isWord_of_toLower
  have hmem : toLower b ∈ ascii "http://" := by
    rw [← hr.scheme]
    exact List.mem_map_of_mem hb
  have hall : All isWord (ascii "http://") := by decide
  exact hall _ hmem

/-- What follows the host is a word. -/
lemma tail_isWord (hr : r.Valid) : All isWord r.tail := by
  unfold tail
  refine all_append.2 ⟨?_, ?_⟩
  · cases hport : r.port with
    | none => exact all_nil
    | some p =>
      exact all_cons.2 ⟨by decide, (hr.port p hport).mono fun b hb => (isWord_of_isDigit hb).1⟩
  · cases hpath : r.path with
    | none => exact all_nil
    | some p => exact all_cons.2 ⟨by decide, hr.path p hpath⟩

/-- The URI is a word. -/
lemma uri_isWord (hr : r.Valid) : All isWord r.uri :=
  all_append.2 ⟨hr.scheme_isWord, all_append.2 ⟨hr.host.mono fun b hb => by
    rw [Bool.and_eq_true] at hb
    exact hb.1, hr.tail_isWord⟩⟩

/-- The line is text without control characters. -/
lemma text_all (hr : r.Valid) : All (fun b => b ≠ 0 && b ≠ 10#8 && b ≠ 13#8) r.text := by
  have hword : ∀ b, isWord b = true → (b ≠ 0 && b ≠ 10#8 && b ≠ 13#8) = true := by decide +kernel
  refine all_append.2 ⟨hr.method.mono hword, all_append.2 ⟨by decide, all_append.2
    ⟨hr.uri_isWord.mono hword, by decide⟩⟩⟩

end Valid

/-- Reading a word. -/
lemma scanWord_append {w s : List Byte} (hw : All isWord w) (hne : w ≠ [])
    (hs : Stops (!isSpace ·) s) : scanWord (w ++ s) = (w, s) := by
  have hw' : All (!isSpace ·) w := hw.mono fun b hb => isSpace_of_isWord hb
  have hstop : (w ++ s).dropWhile isSpace = w ++ s := by
    refine dropWhile_of_stops (stops_append_of_all hw' hne ?_)
    intro b hb
    simpa using hb
  unfold scanWord
  simp only [hstop, takeWhile_append hw' hs, dropWhile_append hw' hs]

/-- White space before a word is skipped. -/
lemma scanWord_blank (s : List Byte) : scanWord (ascii " " ++ s) = scanWord s := by
  have hblank : (ascii " " ++ s).dropWhile isSpace = s.dropWhile isSpace :=
    List.dropWhile_cons_of_pos (by decide)
  unfold scanWord
  rw [hblank]

/-- The words of the request line. -/
lemma scan_line (hr : r.Valid) : scan r.line = some (r.method, r.uri, ascii "HTTP/1.1") := by
  have hblank : ∀ s, Stops (!isSpace ·) (ascii " " ++ s) := fun s => stops_cons.2 (by decide)
  have huri : r.uri ≠ [] := by
    intro h
    have hscheme := hr.scheme
    rw [(List.append_eq_nil_iff.1 h).1] at hscheme
    cases hscheme
  have hversion : scanWord (ascii "HTTP/1.1" ++ crlf) = (ascii "HTTP/1.1", crlf) :=
    scanWord_append (by decide) (by decide) (stops_cons.2 (by decide))
  unfold scan line text
  simp only [List.append_assoc]
  rw [scanWord_append hr.method hr.method_ne (hblank _)]
  simp only []
  rw [scanWord_blank, scanWord_append hr.uri_isWord huri (hblank _)]
  simp only []
  rw [scanWord_blank, hversion, if_neg (by decide)]

/-- The line has no `NUL`. -/
lemma cstr_line (hr : r.Valid) : cstr r.line = r.line := by
  apply cstr_of_notMem
  intro h
  obtain h | h := List.mem_append.1 h
  · simpa using hr.text_all 0 h
  · simp at h

/-- The line is not cut off. -/
lemma incomplete_line : incomplete below r.line = false := by
  rw [line, incomplete_append]
  rfl

/-- The parts of the URI. -/
def uriParts (r : Request) : UriParts := ⟨r.scheme, r.host, r.port, r.path⟩

/-- The parts of the URI of a request are what they should be. -/
lemma Valid.uriParts (hr : r.Valid) : r.uriParts.Valid where
  scheme := hr.scheme
  host_ne := hr.host_ne
  host := hr.host.mono fun b hb => by
    rw [Bool.and_eq_true] at hb
    exact hb.2
  port_ne := hr.port_ne
  port := hr.port

/-- The URI that `parse_uri` accepts has a port or a path. -/
lemma parseUri_uri (hr : r.Valid) : parseUri r.uri =
    if r.port.isSome ∨ r.path.isSome then
      some (r.host, r.path.getD [], r.port.getD (ascii "80")) else none :=
  UriParts.parseUri_text hr.uriParts

/-! ## What `doit` does with a valid request -/

/-- There is no newline before the end of the line. -/
lemma newline_notMem (hr : r.Valid) : 10#8 ∉ r.text ++ [13#8] := by
  intro h
  obtain h | h := List.mem_append.1 h
  · simpa using hr.text_all _ h
  · simp at h

/-- The first line that is read. -/
lemma line_append (hr : r.Valid) (hfit : r.line.length ≤ MAXLINE - 1) (s : List Byte) :
    Lines.line 10#8 (MAXLINE - 1) (r.line ++ s) = r.line := by
  have hlen : r.line.length = r.text.length + 2 := List.length_append
  have hshort : (r.text ++ [13#8]).length < MAXLINE - 1 := by
    rw [List.length_append, List.length_singleton]
    omega
  have hassoc : r.line ++ s = r.text ++ [13#8] ++ 10#8 :: s := by simp [line]
  rw [hassoc, Lines.line_of_notMem (newline_notMem hr) hshort, line, List.append_assoc]
  rfl

/-- The first line is accepted. -/
lemma names {net : Net} {s : List Byte} (hr : r.Valid)
    (hinput : (net.conn .client).input = stream (r.line ++ s))
    (hfit : r.line.length ≤ MAXLINE - 1) (hnamed : r.port.isSome ∨ r.path.isSome) :
    net.Names r.method r.uri r.host (r.path.getD []) (r.port.getD (ascii "80")) := by
  obtain ⟨hline, -⟩ := readLine_client hinput
  rw [line_append hr hfit] at hline
  refine ⟨?_, ?_, ?_, ?_⟩
  · rw [hline]
    simp [line]
  · rw [hline, cstr_line hr]
    exact incomplete_line
  · rw [hline, cstr_line hr]
    exact scan_line hr
  · rw [parseUri_uri hr, if_pos hnamed]

/-- **A request that is relayed.** `doit` reads the first line and connects to the server. -/
theorem doit_eq {net : Net} {s : List Byte} (hr : r.Valid)
    (hinput : (net.conn .client).input = stream (r.line ++ s))
    (hfit : r.line.length ≤ MAXLINE - 1) (hnamed : r.port.isSome ∨ r.path.isSome)
    (hconn : 0 < net.openClientfd r.host (r.port.getD (ascii "80"))) :
    ∃ net' : Net, (doit net).net = (relay net' r.rewritten).2 ∧
      (net'.conn .client).input = stream s ∧ net'.conn .server = net.conn .server := by
  obtain ⟨-, hclient⟩ := readLine_client hinput
  rw [line_append hr hfit, List.drop_left] at hclient
  have hserver : (net.readLine .client).2.conn .server = net.conn .server :=
    Net.readLine_conn_of_ne (by decide)
  refine ⟨(net.readLine .client).2.opened, ?_, hclient, hserver⟩
  rw [doit_of_names (names hr hinput hfit hnamed), if_neg hconn.not_gt, if_neg hconn.not_ge]
  rfl

/-- A line that does not fit into the buffer is cut off. -/
lemma incomplete_of_not_fits (below : ℕ → Byte) (hr : r.Valid)
    (hfit : ¬ r.line.length ≤ MAXLINE - 1) (s : List Byte) :
    incomplete below (cstr (Lines.line 10#8 (MAXLINE - 1) (r.line ++ s))) = true := by
  have hlen : r.line.length = r.text.length + 2 := List.length_append
  have hassoc : r.line ++ s = r.text ++ [13#8] ++ 10#8 :: s := by simp [line]
  have hmax : MAXLINE = 8192 := rfl
  have htext : (r.text ++ [13#8]).length = r.text.length + 1 := List.length_append
  obtain ⟨piece, hpiece⟩ : ∃ piece, piece = (r.text ++ [13#8]).take (MAXLINE - 1) := ⟨_, rfl⟩
  have hpieceLen : piece.length = MAXLINE - 1 := by
    rw [hpiece, List.length_take, htext]
    omega
  have hmem : ∀ b ∈ piece, b ∈ r.text ++ [13#8] := fun b hb =>
    List.mem_of_mem_take (hpiece ▸ hb)
  have hzero : 0 ∉ piece := by
    intro h
    obtain h | h := List.mem_append.1 (hmem 0 h)
    · simpa using hr.text_all 0 h
    · simp at h
  rw [hassoc, Lines.line_of_length_le (newline_notMem hr) (by omega), ← hpiece,
    cstr_of_notMem hzero]
  obtain hs | ⟨c, hs⟩ | ⟨t, b, c, hs⟩ := length_le_or_exists piece
  · rw [hs, List.length_nil] at hpieceLen
    omega
  · rw [hs, List.length_singleton] at hpieceLen
    omega
  · -- The last byte is no newline, and the one before belongs to the text.
    have hcut : t ++ [b] ++ [c] <+: r.text ++ [13#8] := by
      rw [← List.append_cons t b [c], ← hs, hpiece]
      exact List.take_prefix _ _
    have hle : (t ++ [b]).length ≤ r.text.length := by
      have htwo := congrArg List.length hs
      simp only [List.length_append, List.length_cons, List.length_nil] at htwo ⊢
      omega
    have hpre : t ++ [b] <+: r.text :=
      List.prefix_of_prefix_length_le ((List.prefix_append _ _).trans hcut)
        (List.prefix_append _ _) hle
    have hc : c ≠ 10#8 := by
      rintro rfl
      exact newline_notMem hr (hmem _ (by simp [hs]))
    have hb : b ≠ 13#8 := by
      rintro rfl
      simpa using hr.text_all 13#8 (hpre.subset (by simp))
    rw [hs, incomplete_append]
    simp [hc, hb]

/-- **A request that is dropped.** -/
theorem doit_sent_of_dropped {net : Net} {s : List Byte} (hr : r.Valid)
    (hinput : (net.conn .client).input = stream (r.line ++ s))
    (hdrop : ¬ (r.line.length ≤ MAXLINE - 1 ∧ (r.port.isSome ∨ r.path.isSome))) :
    ((doit net).net.conn .server).sent = (net.conn .server).sent := by
  have hserver : (net.readLine .client).2.conn .server = net.conn .server :=
    Net.readLine_conn_of_ne (by decide)
  obtain ⟨hline, -⟩ := readLine_client hinput
  obtain ⟨method, uri, hostname, pathname, port, hnames⟩ | ⟨urlLog, hdoit⟩ := doit_cases net
  · exfalso
    by_cases hfit : r.line.length ≤ MAXLINE - 1
    · have hnamed : ¬ (r.port.isSome ∨ r.path.isSome) := fun h => hdrop ⟨hfit, h⟩
      have hwords := hnames.words
      rw [hline, line_append hr hfit, cstr_line hr, scan_line hr] at hwords
      cases hwords
      have hparts := hnames.parts
      rw [parseUri_uri hr, if_neg hnamed] at hparts
      cases hparts
    · have hcut := incomplete_of_not_fits net.below hr hfit s
      rw [← hline, hnames.complete] at hcut
      cases hcut
  · rw [hdoit]
    exact congrArg Conn.sent hserver

end Request

end Proxy
