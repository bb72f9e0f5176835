import SE101.Lib.Scan
import SE101.Proxy.Uri

set_option relaxedAutoImplicit false
set_option autoImplicit false

/-!
# Reading a URI back

`parse_uri` looks for the end of the host, for the digits of the port and for the first slash, each
on its own. The three agree on every URI with a port or a path. A URI that ends with the host is
rejected: the end of a string is among the characters that `strpbrk` is to look for, but only
terminates their list.

## Main definitions

* `Proxy.UriParts`, `Proxy.UriParts.text` — the parts of a URI, and the URI.

## Main results

* `Proxy.UriParts.parseUri_text` — what `parse_uri` makes of a URI.
* `Proxy.UriParts.parseUri_text_iff` — the URIs that it takes apart.
* `Proxy.length_parseUri` — its results fit into buffers of the size of the URI.
-/

namespace Proxy

open LittleEndian CString Scan

/-- The parts of a URI. -/
structure UriParts where
  /-- `http://` in some letter case. -/
  scheme : List Byte
  host : List Byte
  port : Option (List Byte)
  /-- The path without its leading slash. -/
  path : Option (List Byte)

namespace UriParts

variable (u : UriParts)

/-- No part contains what would end it. -/
structure Valid : Prop where
  scheme : u.scheme.map toLower = ascii "http://"
  host_ne : u.host ≠ []
  host : All (!isHostEnd ·) u.host
  port_ne : ∀ p ∈ u.port, p ≠ []
  port : ∀ p ∈ u.port, All isDigit p

/-- What follows the host. -/
def tail : List Byte :=
  (match u.port with
    | some p => 58#8 :: p
    | none => []) ++
  match u.path with
    | some p => 47#8 :: p
    | none => []

/-- The URI. -/
def text : List Byte := u.scheme ++ (u.host ++ u.tail)

variable {u}

/-- The URI begins with the scheme. -/
lemma Valid.startsWith (hu : u.Valid) :
    startsWithNoCase (ascii "http://") u.text = true ∧ u.text.drop 7 = u.host ++ u.tail := by
  have hlen : u.scheme.length = 7 := by
    have hlower := congrArg List.length hu.scheme
    rwa [List.length_map] at hlower
  constructor
  · have h7 : (ascii "http://").length = u.scheme.length := by
      rw [hlen]
      rfl
    have htake : u.text.take (ascii "http://").length = u.scheme := by
      rw [h7]
      exact List.take_left
    rw [startsWithNoCase, htake, hu.scheme]
    decide
  · rw [← hlen]
    exact List.drop_left

/-- The host has no slash. -/
lemma Valid.host_slash (hu : u.Valid) : All (· ≠ 47#8) u.host := hu.host.mono (by decide +kernel)

/-- The host and the port have no slash. -/
lemma Valid.port_slash (hu : u.Valid) {p : List Byte} (hport : u.port = some p) :
    All (· ≠ 47#8) (u.host ++ 58#8 :: p) := by
  have hdigits : All isDigit p := hu.port p hport
  exact all_append.2 ⟨hu.host_slash, all_cons.2 ⟨by decide, hdigits.mono (by decide +kernel)⟩⟩

/-- **Reading a URI.** `parse_uri` finds the parts of a URI that has a port or a path, and rejects
one that has neither. -/
theorem parseUri_text (hu : u.Valid) : parseUri u.text =
    if u.port.isSome ∨ u.path.isSome then
      some (u.host, u.path.getD [], u.port.getD (ascii "80")) else none := by
  obtain ⟨hstart, hdrop⟩ := hu.startsWith
  have hhost := hu.host
  have hslash := hu.host_slash
  rw [parseUri, if_pos hstart, hdrop]
  cases hport : u.port with
  | none =>
    cases hpath : u.path with
    | none =>
      have htail : u.tail = [] := by simp [tail, hport, hpath]
      rw [htail, List.append_nil]
      simp [List.dropWhile_eq_nil_iff.2 hhost]
    | some q =>
      have htail : u.tail = 47#8 :: q := by simp [tail, hport, hpath]
      have hstop : Stops (!isHostEnd ·) (47#8 :: q) := stops_cons.2 (by decide)
      have hstop' : Stops (· ≠ 47#8) (47#8 :: q) := stops_cons.2 (by decide)
      simp only [htail, dropWhile_append hhost hstop, takeWhile_append hhost hstop,
        dropWhile_append hslash hstop']
      rfl
  | some p =>
    have hdigits : All isDigit p := hu.port p hport
    have hslash' := hu.port_slash hport
    have hstop (s : List Byte) : Stops (!isHostEnd ·) (58#8 :: s) := stops_cons.2 (by decide)
    cases hpath : u.path with
    | none =>
      have htail : u.tail = 58#8 :: p := by simp [tail, hport, hpath]
      simp only [htail, dropWhile_append hhost (hstop p), takeWhile_append hhost (hstop p),
        takeWhile_of_all hdigits, List.dropWhile_eq_nil_iff.2 hslash']
      rfl
    | some q =>
      have htail : u.tail = 58#8 :: (p ++ 47#8 :: q) := by simp [tail, hport, hpath]
      have hstop₁ : Stops isDigit (47#8 :: q) := stops_cons.2 (by decide)
      have hstop₂ : Stops (· ≠ 47#8) (47#8 :: q) := stops_cons.2 (by decide)
      have hpathname : (u.host ++ 58#8 :: (p ++ 47#8 :: q)).dropWhile (· ≠ 47#8) = 47#8 :: q := by
        have hassoc : u.host ++ 58#8 :: (p ++ 47#8 :: q) = (u.host ++ 58#8 :: p) ++ 47#8 :: q := by
          simp
        rw [hassoc, dropWhile_append hslash' hstop₂]
      simp only [htail, dropWhile_append hhost (hstop _), takeWhile_append hhost (hstop _),
        takeWhile_append hdigits hstop₁, hpathname]
      rfl

/-- **The round trip.** `parse_uri` takes a URI apart again exactly if it has a port or a path. -/
theorem parseUri_text_iff (hu : u.Valid) :
    parseUri u.text = some (u.host, u.path.getD [], u.port.getD (ascii "80")) ↔
      u.port ≠ none ∨ u.path ≠ none := by
  rw [parseUri_text hu]
  cases u.port <;> cases u.path <;> simp

/-- A URI with all parts. -/
theorem parseUri_text_iff_all :
    parseUri (text ⟨ascii "HTTP://", ascii "h.org", some (ascii "8080"), some (ascii "a/b")⟩) =
      some (ascii "h.org", ascii "a/b", ascii "8080") ↔
    some (ascii "8080") ≠ none ∨ some (ascii "a/b") ≠ none :=
  parseUri_text_iff (u := ⟨ascii "HTTP://", ascii "h.org", some (ascii "8080"),
    some (ascii "a/b")⟩)
    ⟨by decide, by decide, by decide, by decide, by decide⟩

/-- A URI that ends with the host is rejected. -/
theorem not_parseUri_text :
    ∃ u : UriParts, u.Valid ∧ u.text.length < MAXLINE ∧ parseUri u.text = none := by
  refine ⟨⟨ascii "http://", ascii "h.org", none, none⟩, ?_, by decide, by decide⟩
  exact ⟨by decide, by decide, by decide, by decide, by decide⟩

end UriParts

/-- **Buffers.** What `parse_uri` stores is no longer than the URI. -/
theorem length_parseUri {uri hostname pathname port : List Byte}
    (h : parseUri uri = some (hostname, pathname, port)) :
    hostname.length ≤ uri.length ∧ pathname.length ≤ uri.length ∧ port.length ≤ uri.length := by
  unfold parseUri at h
  by_cases hstart : startsWithNoCase (ascii "http://") uri = true
  · rw [if_pos hstart] at h
    have h7 : 7 ≤ uri.length := by
      have htake := congrArg List.length (of_decide_eq_true hstart)
      rw [List.length_map, List.length_map, List.length_take] at htake
      exact min_eq_left_iff.1 htake
    have hdrop : (uri.drop 7).length = uri.length - 7 := List.length_drop
    have hhost : ((uri.drop 7).takeWhile (!isHostEnd ·)).length ≤ (uri.drop 7).length :=
      (List.takeWhile_prefix _).length_le
    have hpath : ((uri.drop 7).dropWhile (· ≠ 47#8)).length ≤ (uri.drop 7).length :=
      (List.dropWhile_suffix _).length_le
    have hrest : ((uri.drop 7).dropWhile (!isHostEnd ·)).length ≤ (uri.drop 7).length :=
      (List.dropWhile_suffix _).length_le
    dsimp only at h
    split at h
    · cases h
    · next c p hp =>
      cases h
      have hdigits : (p.takeWhile isDigit).length ≤ p.length := (List.takeWhile_prefix _).length_le
      rw [hp, List.length_cons] at hrest
      refine ⟨by omega, ?_, ?_⟩
      · rw [List.length_tail]
        omega
      · split_ifs
        · omega
        · have h80 : (ascii "80").length = 2 := rfl
          omega
  · rw [if_neg hstart] at h
    cases h

end Proxy
