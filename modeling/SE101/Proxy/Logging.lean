import SE101.Proxy.Transfers

set_option relaxedAutoImplicit false
set_option autoImplicit false

/-!
# What is logged

`thread` logs every connection, whether or not `doit` has come to the place where it stores the URI
in the buffer that `thread` has for it.

## Main definitions

* `Proxy.RequestUri` — a URI from a request line.
* `Proxy.LogLaw` — whenever a log entry is made, the buffer holds the URI of the request.

## Main results

* `Proxy.doit_urlLog` — when `doit` stores a URI, and which one.
* `Proxy.logLaw_iff` — the requests whose log entry is made of what was stored.
* `Proxy.not_logLaw` — a client that sends nothing.
-/

namespace Proxy

open LittleEndian CString

/-- The second word of a line, as a string that fits into a buffer with its `NUL`. -/
structure RequestUri (line uri : List Byte) : Prop where
  word : ∃ method version, scan (cstr line) = some (method, uri, version)
  part : uri <:+: line
  ne_nil : uri ≠ []
  string : 0 ∉ uri
  fits : uri.length < MAXLINE

/-- Whenever `format_log_entry` is called, `url_log` holds the URI of the request line. -/
def LogLaw (net : Net) : Prop :=
  ∀ net' urlLog size, thread net = some (net', urlLog, size) →
    ∃ uri, urlLog = some uri ∧ RequestUri (net.readLine .client).1 uri

variable {net : Net} {line s method uri version : List Byte}

/-! ## The words of a line -/

/-- A word is followed by the rest, and stands behind blanks. -/
lemma scanWord_spec (s : List Byte) :
    s.takeWhile isSpace ++ ((scanWord s).1 ++ (scanWord s).2) = s := by
  rw [scanWord]
  dsimp only
  rw [List.takeWhile_append_dropWhile, List.takeWhile_append_dropWhile]

/-- There is no word only at the end. -/
lemma scanWord_eq_nil (h : (scanWord s).1 = []) : (scanWord s).2 = [] := by
  unfold scanWord at h ⊢
  dsimp only at h ⊢
  cases hs : s.dropWhile isSpace with
  | nil => rfl
  | cons c t =>
    have hc : isSpace c = false := by
      have hhead := List.head_dropWhile_not isSpace (l := s) (by simp [hs])
      simpa [hs] using hhead
    rw [hs, List.takeWhile_cons, hc] at h
    cases h

/-- The URI is part of the string. -/
lemma scan_uri (h : scan s = some (method, uri, version)) : uri <:+: s ∧ uri ≠ [] := by
  unfold scan at h
  dsimp only at h
  split_ifs at h with hversion
  cases h
  constructor
  · have hfirst := scanWord_spec s
    have hsecond := scanWord_spec (scanWord s).2
    refine ⟨s.takeWhile isSpace ++ ((scanWord s).1 ++ (scanWord s).2.takeWhile isSpace),
      (scanWord (scanWord s).2).2, ?_⟩
    rw [List.append_assoc, List.append_assoc, List.append_assoc, hsecond, hfirst]
  · intro hnil
    have hrest := scanWord_eq_nil hnil
    rw [hrest] at hversion
    exact hversion rfl

/-- **The URI.** The second word of a line that `rio_readlineb` delivers. -/
theorem requestUri_of_scan {k : ℕ} {bs : List Byte} (hk : k < MAXLINE)
    (hline : line = Lines.line 10#8 k bs) (h : scan (cstr line) = some (method, uri, version)) :
    RequestUri line uri := by
  obtain ⟨hpart, hne⟩ := scan_uri h
  have hpre : cstr line <+: line := List.takeWhile_prefix _
  have hlen : line.length ≤ k := hline ▸ Lines.length_line_le
  refine ⟨⟨method, version, h⟩, hpart.trans hpre.isInfix, hne, ?_, ?_⟩
  · intro hzero
    exact zero_notMem_cstr line (hpart.subset hzero)
  · have hle := (hpart.trans hpre.isInfix).length_le
    omega

/-! ## What `doit` stores -/

/-- **Storing the URI.** The URI is stored once the line has passed the check and has three
words. -/
theorem doit_urlLog (net : Net) : (doit net).urlLog =
    if (net.readLine .client).1 = [] then none
    else if incomplete net.below (cstr (net.readLine .client).1) then none
    else (scan (cstr (net.readLine .client).1)).map fun words => words.2.1 := by
  unfold doit
  dsimp only
  rw [Net.readLine_below]
  by_cases hline : (net.readLine .client).1 = []
  · rw [if_pos hline, if_pos hline]
    rfl
  · rw [if_neg hline, if_neg hline]
    by_cases hinc : incomplete net.below (cstr (net.readLine .client).1) = true
    · rw [if_pos hinc, if_pos hinc]
      rfl
    · rw [if_neg hinc, if_neg hinc]
      split
      · next hwords =>
        rw [hwords]
        rfl
      · next method uri version hwords =>
        rw [hwords]
        split_ifs
        · rfl
        · split
          · rfl
          · split_ifs <;> rfl

/-- A URI is stored only if there are three words. -/
lemma doit_urlLog_eq_some (h : (net.readLine .client).1 ≠ [])
    (hinc : incomplete net.below (cstr (net.readLine .client).1) = false)
    (hwords : scan (cstr (net.readLine .client).1) = some (method, uri, version)) :
    (doit net).urlLog = some uri := by
  rw [doit_urlLog, if_neg h, hinc, if_neg Bool.false_ne_true, hwords]
  rfl

/-- The process exits only after the URI is stored. -/
lemma exists_urlLog_of_exited (h : (doit net).exited = true) :
    ∃ uri, (doit net).urlLog = some uri := by
  obtain ⟨method, uri, hostname, pathname, port, hnames⟩ | ⟨urlLog, hdoit⟩ := doit_cases net
  · rw [doit_of_names hnames]
    refine ⟨uri, ?_⟩
    split_ifs <;> rfl
  · rw [hdoit] at h
    cases h

/-- **Logging.** Log entries are made of what was stored if and only if the client has sent a line
that passes the check and has three words.

**Proof sketch.** Such a line is stored before the process can exit. Without it `doit` drops the
request, and the connection is logged all the same. -/
theorem logLaw_iff (net : Net) : LogLaw net ↔
    (net.readLine .client).1 ≠ [] ∧
    incomplete net.below (cstr (net.readLine .client).1) = false ∧
    scan (cstr (net.readLine .client).1) ≠ none := by
  constructor
  · intro hlaw
    have hstored : ∃ uri, (doit net).urlLog = some uri := by
      by_cases hexit : (doit net).exited = true
      · exact exists_urlLog_of_exited hexit
      · obtain ⟨uri, huri, -⟩ := hlaw (doit net).net (doit net).urlLog (doit net).size
          (by unfold thread; dsimp only; rw [if_neg hexit])
        exact ⟨uri, huri⟩
    obtain ⟨uri, huri⟩ := hstored
    rw [doit_urlLog] at huri
    split_ifs at huri with hline hinc
    refine ⟨hline, Bool.not_eq_true _ ▸ hinc, fun hnone => ?_⟩
    rw [hnone] at huri
    cases huri
  · rintro ⟨hline, hinc, hwords⟩ net' urlLog size hthread
    obtain ⟨⟨method, uri, version⟩, hscan⟩ := Option.ne_none_iff_exists'.1 hwords
    have hstored := doit_urlLog_eq_some hline hinc hscan
    unfold thread at hthread
    dsimp only at hthread
    split_ifs at hthread
    cases hthread
    refine ⟨uri, hstored, ?_⟩
    obtain ⟨l, hl⟩ : ∃ l, (readlineb (MAXLINE - 1) (net.conn .client).input).1 = some l := by
      cases hr : (readlineb (MAXLINE - 1) (net.conn .client).input).1 with
      | none =>
        rw [Net.readLine_fst, hr] at hline
        exact absurd rfl hline
      | some l => exact ⟨l, rfl⟩
    obtain ⟨bs, hbs⟩ := exists_line hl
    rw [Net.readLine_fst, hl] at hscan ⊢
    exact requestUri_of_scan (by decide) hbs hscan

/-- A client that sends nothing. -/
def silentNet : Net where
  conn _ := ⟨[], [], []⟩
  openClientfd _ _ := 5
  below _ := 0
  calls := []

/-- Its log entry is made of what the buffer has held before. -/
theorem not_logLaw : (thread silentNet).map (fun r => r.2.1) = some none ∧ ¬ LogLaw silentNet := by
  have hthread : (thread silentNet).map (fun r => r.2.1) = some none := by decide +kernel
  refine ⟨hthread, fun hlaw => ?_⟩
  obtain ⟨⟨net', urlLog, size⟩, hr, hnone⟩ := Option.map_eq_some_iff.1 hthread
  obtain ⟨uri, huri, -⟩ := hlaw net' urlLog size hr
  cases huri.symm.trans hnone

end Proxy
