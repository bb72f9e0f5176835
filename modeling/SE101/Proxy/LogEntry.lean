import SE101.Lib.Numeral
import SE101.Proxy.Uri

set_option relaxedAutoImplicit false
set_option autoImplicit false

/-!
# Log entries

`format_log_entry` puts the time, the address of the client, the URI and the number of bytes into
one line. URIs come from `sscanf` and have no white space, so that the parts can be told apart.

## Main definitions

* `Proxy.formatLogEntry` — the entry.

## Main results

* `Proxy.formatLogEntry_inj` — the entry determines its parts.
-/

namespace Proxy

open LittleEndian CString Scan

/-- The address of the client in dotted decimal form. -/
def dotted (host : BitVec 32) : List Byte :=
  let host := host.toNat
  let a := host / 2 ^ 24 % 256
  let b := host / 2 ^ 16 % 256
  let c := host / 2 ^ 8 % 256
  let d := host % 256
  numeral a ++ ascii "." ++ numeral b ++ ascii "." ++ numeral c ++ ascii "." ++ numeral d

/-- `format_log_entry`, when `strftime` has given the time string:
`sprintf(logstring, "%s: %d.%d.%d.%d %s %zu", time_str, a, b, c, d, uri, size)`. A string that does
not fit into `log_string[MAXLINE]` is not cut off, and what `sprintf` would overwrite behind it is
not modelled. -/
def formatLogEntry (timeStr : List Byte) (host : BitVec 32) (uri : List Byte) (size : ℕ) :
    List Byte :=
  timeStr ++ ascii ": " ++ dotted host ++ ascii " " ++ uri ++ ascii " " ++ numeral size

variable {timeStr timeStr' uri uri' : List Byte} {host host' : BitVec 32} {size size' : ℕ}

/-- Different addresses have different dotted forms. -/
theorem dotted_injective : Function.Injective dotted := by
  intro host host' h
  simp only [dotted, ascii, List.append_assoc] at h
  obtain ⟨ha, h⟩ := numeral_append_inj (by decide) h
  obtain ⟨hb, h⟩ := numeral_append_inj (by decide) h
  obtain ⟨hc, h⟩ := numeral_append_inj (by decide) h
  have hd := numeral_injective h
  apply BitVec.eq_of_toNat_eq
  have := host.isLt
  have := host'.isLt
  omega

/-- There is no blank in the dotted form of an address. -/
lemma notMem_dotted (host : BitVec 32) : 32#8 ∉ dotted host := by
  simp only [dotted, List.mem_append, not_or, ascii]
  have hnum (n : ℕ) := notMem_numeral (c := 32#8) (by decide) n
  exact ⟨⟨⟨⟨⟨⟨hnum _, by decide⟩, hnum _⟩, by decide⟩, hnum _⟩, by decide⟩, hnum _⟩

/-- **An entry determines its parts**, if the URIs have no white space: entries that agree are of
the same time, the same address, the same URI and the same number of bytes.

**Proof sketch.** From the end of the entry, the number is what stands behind the last blank, then
the URI and the address are found behind the blanks that are last then. What is left is the time
string with a colon. -/
theorem formatLogEntry_inj (huri : All (!isSpace ·) uri) (huri' : All (!isSpace ·) uri')
    (h : formatLogEntry timeStr host uri size = formatLogEntry timeStr' host' uri' size') :
    timeStr = timeStr' ∧ host = host' ∧ uri = uri' ∧ size = size' := by
  have hblank {s : List Byte} (hs : All (!isSpace ·) s) : 32#8 ∉ s := fun hmem =>
    absurd (hs _ hmem) (by decide)
  have hshape (t : List Byte) (a : BitVec 32) (u : List Byte) (n : ℕ) : formatLogEntry t a u n =
      (((t ++ [58#8]) ++ 32#8 :: dotted a) ++ 32#8 :: u) ++ 32#8 :: numeral n := by
    simp [formatLogEntry, ascii]
  rw [hshape, hshape] at h
  obtain ⟨h, hsize⟩ := append_cons_inj (notMem_numeral (by decide) _)
    (notMem_numeral (by decide) _) h
  obtain ⟨h, hu⟩ := append_cons_inj (hblank huri) (hblank huri') h
  obtain ⟨h, ha⟩ := append_cons_inj (notMem_dotted _) (notMem_dotted _) h
  exact ⟨List.append_cancel_right h, dotted_injective ha, hu, numeral_injective hsize⟩

/-- An entry, and what it is read back as. -/
theorem formatLogEntry_inj_example :
    formatLogEntry (ascii "Sun 27 Oct 2002 02:51:02 EST") 0x80029e02#32
      (ascii "http://www.cs.cmu.edu/") 34314 =
        ascii "Sun 27 Oct 2002 02:51:02 EST: 128.2.158.2 http://www.cs.cmu.edu/ 34314" ∧
    ∀ host size, formatLogEntry (ascii "Sun 27 Oct 2002 02:51:02 EST") 0x80029e02#32
      (ascii "http://www.cs.cmu.edu/") 34314 =
        formatLogEntry (ascii "Sun 27 Oct 2002 02:51:02 EST") host
          (ascii "http://www.cs.cmu.edu/") size → host = 0x80029e02#32 ∧ size = 34314 := by
  refine ⟨by decide +kernel, fun host size h => ?_⟩
  obtain ⟨-, hhost, -, hsize⟩ := formatLogEntry_inj (by decide +kernel) (by decide +kernel) h
  exact ⟨hhost.symm, hsize.symm⟩

end Proxy
