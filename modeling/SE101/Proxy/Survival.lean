import SE101.Proxy.Transfers

set_option relaxedAutoImplicit false
set_option autoImplicit false

/-!
# Requests that end the proxy

`Open_clientfd` exits when the server cannot be reached. Nothing else that `doit` calls does.

## Main definitions

* `Proxy.Net.Connects` — the request makes `doit` connect to a server.

## Main results

* `Proxy.thread_returns_iff` — the thread returns if and only if no connection attempt fails.
* `Proxy.not_thread_returns` — a request that ends the proxy.
-/

namespace Proxy

open CString

/-- The first line from the client is accepted and names this host and port. -/
def Net.Connects (net : Net) (hostname port : List LittleEndian.Byte) : Prop :=
  let line := (net.readLine .client).1
  line ≠ [] ∧ incomplete net.below (cstr line) = false ∧
  ∃ method uri pathname, scan (cstr line) = some (method, uri, ascii "HTTP/1.1") ∧
    parseUri uri = some (hostname, pathname, port)

/-- The process exits only when the server of the request cannot be reached. -/
lemma doit_exited_iff (net : Net) : (doit net).exited = true ↔
    ∃ hostname port, net.Connects hostname port ∧ net.openClientfd hostname port < 0 := by
  constructor
  · intro h
    obtain ⟨method, uri, hostname, pathname, port, hnames⟩ | ⟨urlLog, hdoit⟩ := doit_cases net
    · refine ⟨hostname, port, ⟨hnames.line, hnames.complete, method, uri, pathname, hnames.words,
        hnames.parts⟩, ?_⟩
      by_contra hneg
      rw [doit_of_names hnames, if_neg hneg] at h
      split_ifs at h
      cases h
    · rw [hdoit] at h
      cases h
  · rintro ⟨hostname, port, ⟨hline, hcomplete, method, uri, pathname, hwords, hparts⟩, hneg⟩
    rw [doit_of_names ⟨hline, hcomplete, hwords, hparts⟩, if_pos hneg]

/-- **Surviving a request.** Whatever the client sends and whatever becomes of the reads and writes,
the thread returns if and only if the server can be reached, provided that the request makes `doit`
connect to one. -/
theorem thread_returns_iff (net : Net) : (thread net).isSome = true ↔
    ∀ hostname port, net.Connects hostname port → 0 ≤ net.openClientfd hostname port := by
  have h := doit_exited_iff net
  have hthread : (thread net).isSome = true ↔ ¬ (doit net).exited = true := by
    unfold thread
    dsimp only
    split_ifs with hexit <;> simp [hexit]
  rw [hthread, h]
  constructor
  · intro hne hostname port hc
    by_contra hneg
    exact hne ⟨hostname, port, hc, by omega⟩
  · rintro hall ⟨hostname, port, hc, hneg⟩
    have := hall hostname port hc
    omega

/-- A client that sends one line, while no host name is resolved. -/
def unresolvedNet : Net where
  conn _ := ⟨stream (ascii "GET http://a/ HTTP/1.1\r\n"), [], []⟩
  openClientfd _ _ := -2
  below _ := 0
  calls := []

/-- A host name that is not resolved ends the proxy. -/
theorem not_thread_returns : (thread unresolvedNet).isSome = false := by
  decide +kernel

end Proxy
