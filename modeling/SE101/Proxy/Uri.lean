import SE101.Proxy.Rio

set_option relaxedAutoImplicit false
set_option autoImplicit false

/-!
# The request line

What the proxy makes of the first line that it reads from a client.

## Main definitions

* `Proxy.incomplete` — the check that the line is cut off.
* `Proxy.scan` — the three words of the line.
* `Proxy.parseUri` — `parse_uri`.
-/

namespace Proxy

open LittleEndian CString

/-- `buf[i]`, where the buffer holds the string `s`. An index that is negative reads what stands
before the buffer. -/
def charAt (below : ℕ → Byte) (s : List Byte) (i : ℤ) : Byte :=
  if 0 ≤ i then s.getD i.toNat 0 else below (-i - 1).toNat

/-- `buf[strlen(buf)-1] != '\n' && buf[strlen(buf)-2] != '\r'`. -/
def incomplete (below : ℕ → Byte) (s : List Byte) : Bool :=
  charAt below s (s.length - 1) ≠ 10#8 && charAt below s (s.length - 2) ≠ 13#8

/-- A conversion `%s` of `sscanf`: white space is skipped, and a word is read. -/
def scanWord (s : List Byte) : List Byte × List Byte :=
  let s := s.dropWhile isSpace
  (s.takeWhile (!isSpace ·), s.dropWhile (!isSpace ·))

/-- `sscanf(buf, "%s %s %s", method, uri, version)`, if it reads all three words. -/
def scan (s : List Byte) : Option (List Byte × List Byte × List Byte) :=
  let (method, s) := scanWord s
  let (uri, s) := scanWord s
  let (version, _) := scanWord s
  if version = [] then none else some (method, uri, version)

/-- The characters that end a host name: the argument of `strpbrk`. -/
def isHostEnd (b : Byte) : Bool := b ∈ [32#8, 58#8, 47#8, 13#8, 10#8]

/-- `parse_uri`: host name, path name without its leading slash, and port. The result is `none`
where the C code returns `-1`. -/
def parseUri (uri : List Byte) : Option (List Byte × List Byte × List Byte) :=
  if startsWithNoCase (ascii "http://") uri then
    let hostbegin := uri.drop 7
    match hostbegin.dropWhile (!isHostEnd ·) with
    | [] => none
    | c :: p => some (hostbegin.takeWhile (!isHostEnd ·),
        (hostbegin.dropWhile (· ≠ 47#8)).tail,
        if c = 58#8 then p.takeWhile isDigit else ascii "80")
  else none

end Proxy
