import SE101.Lib.Lifecycle
import SE101.Proxy.Transfers

set_option relaxedAutoImplicit false
set_option autoImplicit false

/-!
# Closing the connections

`doit` returns at more than ten places, and each of them has to close what is open there.

## Main definitions

* `Proxy.event`, `Proxy.Net.phase` — the lifecycle of a connection.
* `Proxy.Closing` — each connection that was open is closed once, and not used after that.

## Main results

* `Proxy.closing_doit` — `doit` returns with its connections closed.

## Design

A connection is a resource. The client's is open when `doit` begins, and the server's is opened by
`open_clientfd`. All but the places where `doit` returns keep both of them open.
-/

namespace Proxy

open LittleEndian CString Lifecycle

/-- What a call does to a connection. -/
def event (fd : Fd) : Call → Option Event
  | .read fd' => if fd' = fd then some .uses else none
  | .write fd' => if fd' = fd then some .uses else none
  | .openClientfd => if fd = .server then some .opens else none
  | .close fd' => if fd' = fd then some .closes else none

/-- The phase in which `doit` finds a connection. -/
def firstPhase : Fd → Phase
  | .client => .live
  | .server => .idle

/-- The phase of a connection after what `doit` has done. -/
def Net.phase (net : Net) (fd : Fd) : Option Phase :=
  after (firstPhase fd) (net.calls.filterMap (event fd))

/-- The descriptor of the client is closed once, that of the server once if it was opened, and
nothing is read from or written to a descriptor after it was closed. The last call stands first. -/
structure Closing (calls : List Call) : Prop where
  client : calls.count (.close .client) = 1
  server : calls.count (.close .server) = if .openClientfd ∈ calls then 1 else 0
  unused : ∀ fd post pre, calls = post ++ .close fd :: pre → .read fd ∉ post ∧ .write fd ∉ post

variable {net net' : Net} {src dst fd : Fd} {q : Phase}

/-! ## Phases -/

/-- The phase after one more call. -/
lemma phase_cons {c : Call} (h : net'.calls = c :: net.calls) (fd : Fd) :
    net'.phase fd = (event fd c).elim (net.phase fd) fun e => (net.phase fd).bind (step · e) := by
  unfold Net.phase
  rw [h, List.filterMap_cons]
  cases event fd c <;> rfl

/-- The phase after closing a descriptor. -/
lemma close_phase (net : Net) (fd fd' : Fd) : (net.close fd').phase fd =
    if fd' = fd then (net.phase fd).bind (step · .closes) else net.phase fd := by
  have hevent : event fd (.close fd') = if fd' = fd then some .closes else none := rfl
  rw [phase_cons rfl, hevent]
  split_ifs <;> rfl

/-- A transfer keeps open what is open. -/
lemma Transfers.phase (h : Transfers src dst net net') (hfd : net.phase fd = some .live) :
    net'.phase fd = some .live := by
  obtain ⟨cs, hcs, hall⟩ := h.calls
  unfold Net.phase
  rw [hcs, List.filterMap_append]
  refine after_uses hfd fun e he => ?_
  obtain ⟨c, hc, hevent⟩ := List.mem_filterMap.1 he
  obtain rfl | rfl := hall c hc
  · have huses : src = fd ∧ e = .uses := by simpa [event, eq_comm] using hevent
    exact huses.2
  · have huses : dst = fd ∧ e = .uses := by simpa [event, eq_comm] using hevent
    exact huses.2

/-- How often a descriptor was closed. -/
lemma count_close (calls : List Call) (fd : Fd) :
    calls.count (.close fd) = (calls.filterMap (event fd)).count .closes := by
  rw [List.count_filterMap, List.count]
  refine List.countP_congr fun c _ => ?_
  cases c <;> simp [event]

/-- The server's descriptor was opened if `open_clientfd` was called. -/
lemma mem_openClientfd (calls : List Call) :
    .openClientfd ∈ calls ↔ .opens ∈ calls.filterMap (event .server) := by
  rw [List.mem_filterMap]
  constructor
  · intro h
    exact ⟨_, h, rfl⟩
  · rintro ⟨c, hc, hevent⟩
    cases c <;> simp [event] at hevent
    exact hc

/-- **From lifecycles to calls.** A client that is closed and a server that is not open have been
closed as they should be. -/
theorem closing_of_phase (hclient : net.phase .client = some .done)
    (hserver : net.phase .server = some q) (hq : q ≠ .live) : Closing net.calls := by
  refine ⟨?_, ?_, ?_⟩
  · rw [count_close, count_closes (by decide) hclient, if_pos rfl]
  · have hopens : .openClientfd ∈ net.calls ↔ q ≠ .idle := by
      rw [mem_openClientfd, ← List.count_pos_iff, count_opens hserver]
      cases q <;> simp
    rw [count_close, count_closes (by decide) hserver]
    cases q with
    | idle => rw [if_neg (by decide), if_neg (mt hopens.1 (by simp))]
    | live => exact absurd rfl hq
    | done => rw [if_pos rfl, if_pos (hopens.2 (by decide))]
  · intro fd post pre hcalls
    have hphase : ∃ q', net.phase fd = some q' := by
      cases fd with
      | client => exact ⟨_, hclient⟩
      | server => exact ⟨_, hserver⟩
    obtain ⟨q', hphase⟩ := hphase
    have hclose : event fd (.close fd) = some .closes := if_pos rfl
    unfold Net.phase at hphase
    rw [hcalls, List.filterMap_append, List.filterMap_cons, hclose] at hphase
    have hpost : ∀ c ∈ post, event fd c = none :=
      List.filterMap_eq_nil_iff.1 (eq_nil_of_closes hphase)
    constructor
    · intro hmem
      simpa [event] using hpost _ hmem
    · intro hmem
      simpa [event] using hpost _ hmem

/-! ## The places where `doit` returns -/

/-- Both descriptors are closed after a relay. -/
lemma relay_phase (request : List Byte) (h : ∀ fd, net.phase fd = some .live) (fd : Fd) :
    (relay net request).2.phase fd = some .done := by
  have hboth (net' : Net) (h' : ∀ fd, net'.phase fd = some .live) :
      ((net'.close .client).close .server).phase fd = some .done ∧
      ((net'.close .server).close .client).phase fd = some .done := by
    cases fd with
    | client => simp [close_phase, h', step]
    | server => simp [close_phase, h', step]
  have hreq (fd : Fd) : (sendRequest net request).2.phase fd = some .live :=
    (sendRequest_transfers net request).phase (h fd)
  rw [relay_eq]
  split
  · next net₁ hsend =>
    rw [hsend] at hreq
    exact (hboth net₁ hreq).1
  · next net₁ hsend =>
    rw [hsend] at hreq
    have hresp (fd : Fd) : (sendResponse net₁).2.phase fd = some .live :=
      (sendResponse_transfers net₁).phase (hreq fd)
    split
    · next net₂ hsend₂ =>
      rw [hsend₂] at hresp
      exact (hboth net₂ hresp).1
    · next size net₂ hsend₂ =>
      rw [hsend₂] at hresp
      exact (hboth net₂ hresp).2

/-- **Closing.** Whatever the client sends and whatever becomes of the reads and writes, `doit`
returns, with the client's descriptor closed once and the server's once if it was opened, and after
that uses neither. `Open_clientfd` is taken to return a descriptor; that is not 0, which has been in
use since before the first connection. -/
theorem closing_doit (net : Net) (h : net.calls = [])
    (hfd : ∀ hostname port, 0 < net.openClientfd hostname port) :
    (doit net).exited = false ∧ Closing (doit net).net.calls := by
  have hclient : (net.readLine .client).2.phase .client = some .live := by
    rw [phase_cons rfl, Net.phase, h]
    rfl
  have hserver : (net.readLine .client).2.phase .server = some .idle := by
    rw [phase_cons rfl, Net.phase, h]
    rfl
  obtain ⟨method, uri, hostname, pathname, port, hnames⟩ | ⟨urlLog, hdoit⟩ := doit_cases net
  · have hpos := hfd hostname port
    rw [doit_of_names hnames, if_neg hpos.not_gt, if_neg hpos.not_ge]
    refine ⟨rfl, ?_⟩
    have hopen (fd : Fd) : (net.readLine .client).2.opened.phase fd = some .live := by
      cases fd with
      | client => rw [phase_cons rfl, hclient]; rfl
      | server => rw [phase_cons rfl, hserver]; rfl
    exact closing_of_phase (relay_phase _ hopen .client) (relay_phase _ hopen .server) (by decide)
  · rw [hdoit]
    refine ⟨rfl, closing_of_phase (q := .idle) ?_ ?_ (by decide)⟩
    · rw [dropRequest, phase_cons rfl, hclient]
      rfl
    · rw [dropRequest, phase_cons rfl, hserver]
      rfl

/-- A client whose request is relayed, and that gets no response. -/
def unansweredNet : Net where
  conn
    | .client => ⟨stream (ascii "GET http://a/ HTTP/1.1\r\n\r\n"), [], []⟩
    | .server => ⟨[.error], [], []⟩
  openClientfd _ _ := 5
  below _ := 0
  calls := []

/-- Its descriptors are closed. -/
theorem closing_doit_unanswered :
    (doit unansweredNet).exited = false ∧ Closing (doit unansweredNet).net.calls :=
  closing_doit unansweredNet rfl fun _ _ => (by decide : (0 : ℤ) < 5)

end Proxy
