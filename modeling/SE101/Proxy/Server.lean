import SE101.Lib.Reachability
import SE101.Proxy.Doit
import SE101.Proxy.LogEntry

set_option relaxedAutoImplicit false
set_option autoImplicit false

/-!
# The concurrent proxy

`main` accepts one connection after the other and creates a thread for each. It hands the address
and the descriptor of the client over in a block of memory, which the thread copies and frees. The
threads serve their connections at the same time and print one log entry each, between `P` and `V`
of a semaphore.

## Main definitions

* `Proxy.Listener`, `Proxy.Thread` — the next thing that `main` and a thread do.
* `Proxy.Server` — the state of the process.
* `Proxy.MainStep`, `Proxy.ThreadStep`, `Proxy.ServerStep` — the steps.
* `Proxy.ReachableServer` — the states of all runs.

## Design

Connections are numbered in the order in which they are accepted, and threads in the order in which
they are created. Memory that is not allocated and descriptors that are not open may be given out
again at any time, so using them leads to a location of its own. What `doit` does is seen by nobody
else before the descriptor of the client is closed; it closes the descriptor once and does not use
it after that (`Proxy.closing_doit`), so that it is one step. `printf` prints byte by byte, and the
steps of other threads may come between any two bytes.
-/

namespace Proxy

open LittleEndian CString Reachability

/-- `struct addr_arg`. -/
structure AddrArg where
  clientaddr : BitVec 32
  connfd : ℕ

/-- A connection, and what the rest of the system gives while it is served. -/
structure Client where
  /-- The address of the client. -/
  addr : BitVec 32
  /-- All that `doit` can see and do. -/
  net : Net
  /-- What `strftime` gives when the entry is made. -/
  timeStr : List Byte
  /-- The string in `url_log` before anything is stored there. -/
  garbage : List Byte

/-- The line that `thread` prints for a connection, unless the process exits. -/
def logLine (client : Client) (clientaddr : BitVec 32) : Option (List Byte) :=
  (thread client.net).map fun (_, urlLog, size) =>
    formatLogEntry client.timeStr clientaddr (urlLog.getD client.garbage) size ++ [10#8]

/-- The next thing that `main` does. -/
inductive Listener
  /-- `Malloc`. -/
  | malloc
  /-- `Accept`, into this block. -/
  | accept (clientaddrArg : ℕ)
  /-- `Pthread_create`. -/
  | create (clientaddrArg : ℕ)

/-- The next thing that a thread does. -/
inductive Thread
  /-- Copy the argument. -/
  | started (vargp : ℕ)
  /-- `Free(vargp)`. -/
  | copied (vargp : ℕ) (clientaddrArg : AddrArg)
  /-- `doit` and `format_log_entry`. -/
  | serving (clientaddrArg : AddrArg)
  /-- `P(&mutex)`. -/
  | locking (logString : List Byte)
  /-- `printf`: what is left to print. -/
  | printing (rest : List Byte)
  /-- `V(&mutex)`. -/
  | unlocking
  /-- The thread has returned. -/
  | returned
  /-- It has used memory that is not allocated or a descriptor that is not open. -/
  | stray

/-- The state of the process. -/
structure Server where
  main : Listener
  /-- The allocated blocks, and what was written to them. -/
  args : ℕ → Option (Option AddrArg)
  /-- The open descriptors, and their connections. -/
  fds : ℕ → Option ℕ
  /-- The number of connections that were accepted. -/
  accepted : ℕ
  threads : ℕ → Option Thread
  /-- The number of threads that were created. -/
  created : ℕ
  mutex : ℕ
  /-- What was printed. -/
  out : List Byte
  exited : Bool

namespace Server

/-- The proxy after `Sem_init(&mutex, 0, 1)`. -/
def start : Server := ⟨.malloc, fun _ => none, fun _ => none, 0, fun _ => none, 0, 1, [], false⟩

variable (s : Server) (k : ℕ) (t : Thread)

/-- A thread goes on. -/
def goto : Server := { s with threads := Function.update s.threads k (some t) }

/-- The process exits. -/
def exit : Server := { s with exited := true }

end Server

/-! ## Steps -/

/-- The steps of `main`. -/
inductive MainStep (clients : ℕ → Client) (s : Server) : Server → Prop
  | malloc (p : ℕ) (h : s.main = .malloc) (hnew : s.args p = none) :
    MainStep clients s { s with
      main := .accept p
      args := Function.update s.args p (some none) }
  /-- The kernel gives the connection a descriptor that is not open. -/
  | accept {p : ℕ} (fd : ℕ) (h : s.main = .accept p) (hnew : s.fds fd = none) :
    MainStep clients s { s with
      main := .create p
      args := Function.update s.args p (some (some ⟨(clients s.accepted).addr, fd⟩))
      fds := Function.update s.fds fd (some s.accepted)
      accepted := s.accepted + 1 }
  | create {p : ℕ} (h : s.main = .create p) :
    MainStep clients s { s.goto s.created (.started p) with
      main := .malloc
      created := s.created + 1 }
  /-- A wrapper calls `unix_error` or `posix_error`. -/
  | error : MainStep clients s s.exit

/-- The steps of thread `k`. -/
inductive ThreadStep (clients : ℕ → Client) (k : ℕ) (s : Server) : Server → Prop
  | copy {p : ℕ} {a : AddrArg} (h : s.threads k = some (.started p))
      (hp : s.args p = some (some a)) : ThreadStep clients k s (s.goto k (.copied p a))
  | copyStray {p : ℕ} (h : s.threads k = some (.started p))
      (hp : ∀ a, s.args p ≠ some (some a)) : ThreadStep clients k s (s.goto k .stray)
  | free {p : ℕ} {a : AddrArg} (h : s.threads k = some (.copied p a)) (hp : s.args p ≠ none) :
    ThreadStep clients k s { s.goto k (.serving a) with args := Function.update s.args p none }
  | freeStray {p : ℕ} {a : AddrArg} (h : s.threads k = some (.copied p a))
      (hp : s.args p = none) : ThreadStep clients k s (s.goto k .stray)
  | serve {a : AddrArg} {c : ℕ} {line : List Byte} (h : s.threads k = some (.serving a))
      (hfd : s.fds a.connfd = some c) (hline : logLine (clients c) a.clientaddr = some line) :
    ThreadStep clients k s { s.goto k (.locking line) with
      fds := Function.update s.fds a.connfd none }
  /-- `Open_clientfd` exits. -/
  | serveExit {a : AddrArg} {c : ℕ} (h : s.threads k = some (.serving a))
      (hfd : s.fds a.connfd = some c) (hline : logLine (clients c) a.clientaddr = none) :
    ThreadStep clients k s s.exit
  | serveStray {a : AddrArg} (h : s.threads k = some (.serving a))
      (hfd : s.fds a.connfd = none) : ThreadStep clients k s (s.goto k .stray)
  /-- `sem_wait` returns. -/
  | lock {line : List Byte} {v : ℕ} (h : s.threads k = some (.locking line))
      (hv : s.mutex = v + 1) :
    ThreadStep clients k s { s.goto k (.printing line) with mutex := v }
  | print {b : Byte} {rest : List Byte} (h : s.threads k = some (.printing (b :: rest))) :
    ThreadStep clients k s { s.goto k (.printing rest) with out := s.out ++ [b] }
  | printed (h : s.threads k = some (.printing [])) :
    ThreadStep clients k s (s.goto k .unlocking)
  | unlock (h : s.threads k = some .unlocking) :
    ThreadStep clients k s { s.goto k .returned with mutex := s.mutex + 1 }

/-- The steps of the process, in any order, until it exits. -/
inductive ServerStep (clients : ℕ → Client) (s : Server) : Server → Prop
  | main {s' : Server} (hrun : s.exited = false) (h : MainStep clients s s') :
    ServerStep clients s s'
  | thread {s' : Server} (k : ℕ) (hrun : s.exited = false) (h : ThreadStep clients k s s') :
    ServerStep clients s s'

/-- The states of all runs. -/
def ReachableServer (clients : ℕ → Client) : Server → Prop :=
  Reachable (· = Server.start) (ServerStep clients)

end Proxy
