import SE101.Proxy.Uri

set_option relaxedAutoImplicit false
set_option autoImplicit false

/-!
# Serving a request

`thread` serves one connection: `doit` reads a request from the client, relays it to the server
that it names, and relays the response to the client; then a log entry is made.

## Main definitions

* `Proxy.relayRequestHead`, `Proxy.relayResponseHead` — the loops over the lines of a head.
* `Proxy.relayBody` — the loop over the bytes of a body.
* `Proxy.relay`, `Proxy.doit`, `Proxy.thread` — serving a request.

## Design

The buffer always holds a line that was just read, so it is passed on as that line. `atoi` is
applied to what follows the first 15 bytes of the line. A line of 14 bytes that begins with
`Content-Length` has no such bytes and `atoi` is given what an earlier line has left in the
buffer; such a line is the last thing that the stream gives, and the number is not used.
-/

namespace Proxy

open LittleEndian CString

/-- The empty line. -/
abbrev crlf : List Byte := [13#8, 10#8]

/-- `!strncasecmp(buf, "Content-Length", 14)`. -/
def isContentLength (line : List Byte) : Bool := startsWithNoCase (ascii "Content-Length") line

/-- `atoi(buf + 15)` if the line is a `Content-Length` header, otherwise the number so far. -/
def announced (size : ℤ) (line : List Byte) : ℤ :=
  if isContentLength line then atoi (line.drop 15) else size

/-- An `int` after an addition. -/
def addInt (a b : ℤ) : ℤ := (a + b).bmod (2 ^ 32)

/-- A line uses up input of the connection. -/
lemma length_readLine {net : Net} {fd : Fd} (h : (net.readLine fd).1 ≠ []) :
    ((net.readLine fd).2.conn fd).input.length < (net.conn fd).input.length := by
  rw [Net.readLine_conn_self]
  exact length_readlineb_lt h

/-- "Send request header": lines are relayed to the server up to the empty one. The result is the
number of the last `Content-Length` header, or `none` if there is no further line or a write has
failed. -/
def relayRequestHead (net : Net) (reqSize : ℤ) : Option ℤ × Net :=
  let r := net.readLine .client
  if _h : r.1 = [] then (none, r.2)
  else
    let w := r.2.write .server (cstr r.1)
    if w.1 ≠ (cstr r.1).length then (none, w.2)
    else if cstr r.1 = crlf then (some (announced reqSize r.1), w.2)
    else relayRequestHead w.2 (announced reqSize r.1)
  termination_by (net.conn .client).input.length
  decreasing_by
    rw [Net.write_conn_of_ne (by decide)]
    exact length_readLine (by assumption)

/-- "Send response header": lines are relayed to the client up to the empty one, whether or not the
writes succeed. The result is the number of the last `Content-Length` header and the number of
bytes that were read, or `none` if there is no further line. -/
def relayResponseHead (net : Net) (respSize total : ℤ) : Option (ℤ × ℤ) × Net :=
  let r := net.readLine .server
  if _h : r.1 = [] then (none, r.2)
  else
    let w := r.2.write .client (cstr r.1)
    let total := addInt total r.1.length
    if cstr r.1 = crlf then (some (announced respSize r.1, total), w.2)
    else relayResponseHead w.2 (announced respSize r.1) total
  termination_by (net.conn .server).input.length
  decreasing_by
    rw [Net.write_conn_of_ne (by decide)]
    exact length_readLine (by assumption)

/-- "Send request body" and "Send response body": a number of bytes are relayed one by one. The
result is `false` if there is no further byte or a write has failed, which the two loops test as
`m != 1` and as `m <= 0`. -/
def relayBody (src dst : Fd) : ℕ → Net → Bool × Net
  | 0, net => (true, net)
  | n + 1, net =>
    let r := net.readByte src
    if r.1 = [] then (false, r.2)
    else
      let w := r.2.write dst r.1
      if w.1 ≠ 1 then (false, w.2) else relayBody src dst n w.2

/-- The rest of `doit` after the connection to the server is made. The result is `*size`. -/
def relay (net : Net) (request : List Byte) : ℕ × Net :=
  match relayRequestHead (net.write .server request).2 0 with
  | (none, net) => (0, (net.close .client).close .server)
  | (some reqSize, net) =>
    match relayBody .client .server reqSize.toNat net with
    | (false, net) => (0, (net.close .client).close .server)
    | (true, net) =>
      match relayResponseHead net 0 0 with
      | (none, net) => (0, (net.close .client).close .server)
      | (some (respSize, total), net) =>
        match relayBody .server .client respSize.toNat net with
        | (false, net) => (0, (net.close .client).close .server)
        | (true, net) =>
          -- An `int` becomes a `size_t`.
          let total := if 0 < respSize then addInt total respSize else total
          ((total % 2 ^ 64).toNat, (net.close .server).close .client)

/-- The line that `doit` sends to the server:
`sprintf(buf, "%s /%s %s\r\n", method, pathname, version)`. -/
def requestLine (method pathname version : List Byte) : List Byte :=
  method ++ ascii " /" ++ pathname ++ ascii " " ++ version ++ crlf

/-- What `doit` leaves behind. -/
structure Served where
  net : Net
  /-- `url_log`, if it was written. -/
  urlLog : Option (List Byte)
  /-- `*size`. -/
  size : ℕ
  /-- The process has exited. -/
  exited : Bool

/-- The request is dropped: `Close(clientfd)`. -/
def dropRequest (net : Net) (urlLog : Option (List Byte)) : Served :=
  ⟨net.close .client, urlLog, 0, false⟩

/-- `doit`. -/
def doit (net : Net) : Served :=
  let (line, net) := net.readLine .client
  if line = [] then dropRequest net none
  else if incomplete net.below (cstr line) then dropRequest net none
  else match scan (cstr line) with
  | none => dropRequest net none
  | some (method, uri, version) =>
    if version ≠ ascii "HTTP/1.1" then dropRequest net (some uri)
    else match parseUri uri with
    | none => dropRequest net (some uri)
    | some (hostname, pathname, port) =>
      let serverfd := net.openClientfd hostname port
      let net := { net with calls := .openClientfd :: net.calls }
      -- `Open_clientfd` calls `unix_error`, which calls `exit`.
      if serverfd < 0 then ⟨net, some uri, 0, true⟩
      else if serverfd ≤ 0 then dropRequest net (some uri)
      else
        let (size, net) := relay net (requestLine method pathname version)
        ⟨net, some uri, size, false⟩

/-- `thread`: what `format_log_entry` is given, unless the process has exited. That an entry may not
fit into `log_string[MAXLINE]` is not modelled. -/
def thread (net : Net) : Option (Net × Option (List Byte) × ℕ) :=
  let r := doit net
  if r.exited then none else some (r.net, r.urlLog, r.size)

end Proxy
