import SE101.Lib.Semaphore
import SE101.Proxy.Logging
import SE101.Proxy.Server

set_option relaxedAutoImplicit false
set_option autoImplicit false

/-!
# Serving connections at the same time

Each connection is served by one thread, which gets the address and the descriptor of that
connection and nobody else's, and logs it in a line of its own.

## Main definitions

* `Proxy.Server.Owns` — the argument of a connection.
* `Proxy.Dispatch` — the invariant of arguments and descriptors.
* `Proxy.Transcript` — the invariant of the log.

## Main results

* `Proxy.Dispatch.step`, `Proxy.Transcript.step` — every step keeps them.
* `Proxy.dispatch_of_reachable` — no thread ever uses what is not its own, and nothing is left over.
* `Proxy.log_of_reachable` — the log is made of whole lines, one for each connection.

## Design

The descriptor table says which connection a descriptor is of. A block with the descriptor of
connection `k` can only be the argument of thread `k`, so that it need not be said that the blocks
and the descriptors of different threads are different.
-/

namespace Proxy

open LittleEndian CString Semaphore

variable {clients : ℕ → Client} {s s' : Server} {j k p fd : ℕ} {t t' : Thread} {a : AddrArg}

/-! ## Arguments and descriptors -/

/-- The argument is that of connection `k`, whose descriptor is open. -/
def Server.Owns (clients : ℕ → Client) (s : Server) (k : ℕ) (a : AddrArg) : Prop :=
  a.clientaddr = (clients k).addr ∧ s.fds a.connfd = some k

/-- What thread `k` has of its connection. -/
def Thread.Fits (clients : ℕ → Client) (s : Server) (k : ℕ) : Thread → Prop
  | .started p => ∃ a, s.args p = some (some a) ∧ s.Owns clients k a
  | .copied p a => s.args p = some (some a) ∧ s.Owns clients k a
  | .serving a => s.Owns clients k a
  | .locking line => logLine (clients k) (clients k).addr = some line
  | .stray => False
  | _ => True

/-- What `main` has of the connection that it deals with. -/
def Listener.Fits (clients : ℕ → Client) (s : Server) : Listener → Prop
  | .malloc => s.accepted = s.created
  | .accept p => s.accepted = s.created ∧ s.args p = some none
  | .create p => s.accepted = s.created + 1 ∧
      ∃ a, s.args p = some (some a) ∧ s.Owns clients s.created a

/-- The thread has the block. -/
def Thread.Needs (p : ℕ) : Thread → Prop
  | .started q => q = p
  | .copied q _ => q = p
  | _ => False

/-- `main` has the block. -/
def Listener.Needs (p : ℕ) : Listener → Prop
  | .malloc => False
  | .accept q => q = p
  | .create q => q = p

/-- The thread has the descriptor. -/
def Thread.Serves (s : Server) (fd : ℕ) : Thread → Prop
  | .started p => ∃ a, s.args p = some (some a) ∧ a.connfd = fd
  | .copied _ a => a.connfd = fd
  | .serving a => a.connfd = fd
  | _ => False

/-- `main` has the descriptor. -/
def Listener.Serves (s : Server) (fd : ℕ) : Listener → Prop
  | .create p => ∃ a, s.args p = some (some a) ∧ a.connfd = fd
  | _ => False

/-- Everybody has what is theirs, and nothing is left over. -/
structure Dispatch (clients : ℕ → Client) (s : Server) : Prop where
  created : ∀ k, s.threads k ≠ none ↔ k < s.created
  main : s.main.Fits clients s
  thread : ∀ k t, s.threads k = some t → t.Fits clients s k
  args : ∀ p, s.args p ≠ none → s.main.Needs p ∨ ∃ k t, s.threads k = some t ∧ t.Needs p
  fds : ∀ fd k, s.fds fd = some k → k = s.created ∧ s.main.Serves s fd ∨
    ∃ t, s.threads k = some t ∧ t.Serves s fd

namespace Dispatch

/-- At the beginning there is nothing. -/
lemma start : Dispatch clients Server.start where
  created k := by simp [Server.start]
  main := rfl
  thread k t h := nomatch h
  args p h := absurd rfl h
  fds fd k h := nomatch h

/-- Only one connection has an argument. -/
lemma owns_inj (h : s.Owns clients j a) (h' : s.Owns clients k a) : j = k :=
  Option.some.inj (h.2.symm.trans h'.2)

/-- What belongs to a connection stays with it. -/
lemma fits_of_keeps (h : t.Fits clients s k) (hfds : ∀ fd, s.fds fd = some k → s'.fds fd = some k)
    (hargs : ∀ p a, s.args p = some (some a) → s.Owns clients k a → s'.args p = some (some a)) :
    t.Fits clients s' k := by
  have howns {a : AddrArg} (ha : s.Owns clients k a) : s'.Owns clients k a :=
    ⟨ha.1, hfds _ ha.2⟩
  cases t with
  | started p =>
    obtain ⟨a, hp, ha⟩ := h
    exact ⟨a, hargs p a hp ha, howns ha⟩
  | copied p a => exact ⟨hargs p a h.1 h.2, howns h.2⟩
  | serving a => exact howns h
  | _ => exact h

/-- A thread has the same descriptor while its argument stays. -/
lemma serves_of_keeps (h : t.Serves s fd)
    (hargs : ∀ p a, s.args p = some (some a) → s'.args p = some (some a)) : t.Serves s' fd := by
  cases t with
  | started p =>
    obtain ⟨a, hp, ha⟩ := h
    exact ⟨a, hargs p a hp, ha⟩
  | _ => exact h

/-! ## Steps of `main` -/

/-- `Malloc` and `Accept` write to a block that has no argument in it, and may open a descriptor. -/
lemma of_write (hs : Dispatch clients s) {v : Option AddrArg} (hp : ∀ a, s.args p ≠ some (some a))
    (hthreads : s'.threads = s.threads) (hcreated : s'.created = s.created)
    (hargs : s'.args = Function.update s.args p (some v)) (hmain : s'.main.Fits clients s')
    (hneeds : ∀ q, s.main.Needs q → q = p) (hneeds' : s'.main.Needs p)
    (hserves : ∀ fd, ¬ s.main.Serves s fd)
    (hfds : ∀ fd k, s.fds fd = some k → s'.fds fd = some k)
    (hnew : ∀ fd k, s'.fds fd = some k → s.fds fd = some k ∨
      k = s'.created ∧ s'.main.Serves s' fd) : Dispatch clients s' := by
  have hkeep (q : ℕ) (a : AddrArg) (hq : s.args q = some (some a)) :
      s'.args q = some (some a) := by
    rw [hargs, Function.update_of_ne, hq]
    rintro rfl
    exact hp a hq
  refine ⟨fun k => ?_, hmain, fun k t ht => ?_, fun q hq => ?_, fun fd k hfd => ?_⟩
  · rw [hthreads, hcreated]
    exact hs.created k
  · rw [hthreads] at ht
    exact fits_of_keeps (hs.thread k t ht) (fun fd => hfds fd k) fun q a hq _ => hkeep q a hq
  · by_cases hqp : q = p
    · exact .inl (hqp ▸ hneeds')
    · have hold : s.args q ≠ none := by
        rwa [hargs, Function.update_of_ne hqp] at hq
      rw [hthreads]
      exact .inr ((hs.args q hold).resolve_left fun hm => hqp (hneeds q hm))
  · rcases hnew fd k hfd with hold | hmain
    · obtain ⟨t, ht, hfd⟩ := (hs.fds fd k hold).resolve_left fun hm => hserves fd hm.2
      exact .inr ⟨t, hthreads ▸ ht, serves_of_keeps hfd hkeep⟩
    · exact .inl hmain

/-- `Pthread_create` hands the argument over to a thread that did not exist. -/
lemma create (hs : Dispatch clients s) (h : s.main = .create p) :
    Dispatch clients { s.goto s.created (.started p) with
      main := .malloc
      created := s.created + 1 } := by
  have hmain := hs.main
  rw [h] at hmain
  obtain ⟨hacc, a, hp, ha⟩ := hmain
  have hnone : s.threads s.created = none := by
    by_contra hne
    exact absurd ((hs.created _).1 hne) (lt_irrefl _)
  have hold {k : ℕ} (hk : k ≠ s.created) :
      Function.update s.threads s.created (some (.started p)) k = s.threads k :=
    Function.update_of_ne hk _ _
  have hself : Function.update s.threads s.created (some (.started p)) s.created =
      some (.started p) := Function.update_self ..
  have hthread {k : ℕ} {t : Thread} (ht : s.threads k = some t) :
      Function.update s.threads s.created (some (.started p)) k = some t := by
    rw [hold, ht]
    rintro rfl
    rw [hnone] at ht
    cases ht
  refine ⟨fun k => ?_, hacc, fun k t ht => ?_, fun q hq => .inr ?_, fun fd k hfd => .inr ?_⟩
  · by_cases hk : k = s.created
    · subst hk
      simp [Server.goto]
    · refine ((iff_of_eq (congrArg (· ≠ none) (hold hk))).trans (hs.created k)).trans ?_
      dsimp only
      omega
  · by_cases hk : k = s.created
    · subst hk
      obtain rfl := Option.some.inj (hself.symm.trans ht)
      exact ⟨a, hp, ha⟩
    · exact fits_of_keeps (hs.thread k t ((hold hk).symm.trans ht)) (fun _ => id)
        fun _ _ hq _ => hq
  · rcases hs.args q hq with hm | ⟨k, t, ht, hneeds⟩
    · rw [h] at hm
      exact ⟨s.created, _, hself, hm⟩
    · exact ⟨k, t, hthread ht, hneeds⟩
  · rcases hs.fds fd k hfd with ⟨rfl, hm⟩ | ⟨t, ht, hserves⟩
    · rw [h] at hm
      exact ⟨_, hself, hm⟩
    · exact ⟨t, hthread ht, serves_of_keeps hserves fun _ _ => id⟩

/-- A step of `main`. -/
lemma mainStep (hs : Dispatch clients s) (h : MainStep clients s s') : Dispatch clients s' := by
  have hmain := hs.main
  cases h with
  | malloc p h hnew =>
    rw [h] at hmain
    refine hs.of_write (by simp [hnew]) rfl rfl rfl ⟨hmain, Function.update_self ..⟩ ?_ rfl ?_
      (fun _ _ => id) fun _ _ => .inl
    · rw [h]
      exact fun q hq => hq.elim
    · rw [h]
      exact fun fd hfd => hfd
  | @accept p fd h hnew =>
    rw [h] at hmain
    obtain ⟨hacc, hp⟩ := hmain
    have hfd : Function.update s.fds fd (some s.accepted) fd = some s.created := by
      rw [Function.update_self, hacc]
    refine hs.of_write (by simp [hp]) rfl rfl rfl ?_ ?_ rfl ?_ (fun fd' k hk => ?_)
      fun fd' k hk => ?_
    · exact ⟨congrArg (· + 1) hacc, _, Function.update_self .., congrArg (fun i => (clients i).addr)
        hacc, hfd⟩
    · rw [h]
      exact fun q hq => hq.symm
    · rw [h]
      exact fun fd hfd => hfd
    · refine (Function.update_of_ne ?_ _ _).trans hk
      rintro rfl
      rw [hnew] at hk
      cases hk
    · by_cases hne : fd' = fd
      · subst hne
        refine .inr ⟨Option.some.inj (hk.symm.trans hfd), _, Function.update_self .., rfl⟩
      · exact .inl ((Function.update_of_ne hne _ _).symm.trans hk)
  | create h => exact hs.create h
  | error => exact ⟨hs.created, hs.main, hs.thread, hs.args, hs.fds⟩

/-! ## Steps of threads -/

/-- Thread `k` goes from one location to another. It may free its argument and close its
descriptor, but it does not touch what others have. -/
structure Goes (s : Server) (k : ℕ) (t t' : Thread) (s' : Server) : Prop where
  before : s.threads k = some t
  threads : s'.threads = Function.update s.threads k (some t')
  main : s'.main = s.main
  accepted : s'.accepted = s.accepted
  created : s'.created = s.created
  args : ∀ p, s'.args p = s.args p ∨ s'.args p = none ∧ ∃ a, t = .copied p a
  fds : ∀ fd, s'.fds fd = s.fds fd ∨ s'.fds fd = none ∧ s.fds fd = some k

/-- A step of a thread, seen by the others.

**Proof sketch.** A block that is freed has the descriptor of connection `k` in it, and a descriptor
that is closed is of that connection. What belongs to another connection is not affected. -/
lemma of_goes (hs : Dispatch clients s) (hg : Goes s k t t' s') (hfits : t'.Fits clients s' k)
    (hneeds : ∀ p, s'.args p ≠ none → t.Needs p → t'.Needs p)
    (hserves : ∀ fd, s'.fds fd = some k → t.Serves s fd → t'.Serves s' fd) :
    Dispatch clients s' := by
  have ht := hs.thread k t hg.before
  have hself : s'.threads k = some t' := by rw [hg.threads, Function.update_self]
  have hother {j : ℕ} (hj : j ≠ k) : s'.threads j = s.threads j := by
    rw [hg.threads, Function.update_of_ne hj]
  have hk : k < s.created := (hs.created k).1 (by simp [hg.before])
  have hkept {p : ℕ} {a : AddrArg} {j : ℕ} (hj : j ≠ k) (hp : s.args p = some (some a))
      (ha : s.Owns clients j a) : s'.args p = some (some a) := by
    rcases hg.args p with heq | ⟨-, b, rfl⟩
    · rw [heq, hp]
    · obtain ⟨hpb, hb⟩ := ht
      obtain rfl : a = b := by simpa [hp] using hpb
      exact absurd (owns_inj ha hb) hj
  have hopen {fd j : ℕ} (hj : j ≠ k) (hfd : s.fds fd = some j) : s'.fds fd = some j := by
    rcases hg.fds fd with heq | ⟨-, hcl⟩
    · rw [heq, hfd]
    · rw [hfd] at hcl
      exact absurd (Option.some.inj hcl) hj
  have hold {fd j : ℕ} (hfd : s'.fds fd = some j) : s.fds fd = some j := by
    rcases hg.fds fd with heq | ⟨hnone, -⟩
    · rw [← heq, hfd]
    · rw [hnone] at hfd
      cases hfd
  refine ⟨fun j => ?_, ?_, fun j t₁ hj => ?_, fun p hp => ?_, fun fd j hfd => ?_⟩
  · by_cases hj : j = k
    · subst hj
      simp [hself, hg.created, hk]
    · rw [hother hj, hg.created, hs.created]
  · have hmain := hs.main
    rw [hg.main]
    cases hm : s.main with
    | malloc =>
      rw [hm] at hmain
      exact hg.accepted.trans (hmain.trans hg.created.symm)
    | accept p =>
      rw [hm] at hmain
      obtain ⟨hacc, hp⟩ := hmain
      refine ⟨hg.accepted.trans (hacc.trans hg.created.symm), ?_⟩
      rcases hg.args p with heq | ⟨-, b, rfl⟩
      · rw [heq, hp]
      · have hpb := ht.1
        rw [hp] at hpb
        cases hpb
    | create p =>
      rw [hm] at hmain
      obtain ⟨hacc, a, hp, ha⟩ := hmain
      rw [← hg.created] at hk ha
      refine ⟨by rw [hg.accepted, hg.created, hacc], a, hkept hk.ne' hp ha, ha.1, hopen hk.ne' ha.2⟩
  · by_cases hjk : j = k
    · subst hjk
      obtain rfl := Option.some.inj (hself.symm.trans hj)
      exact hfits
    · rw [hother hjk] at hj
      exact fits_of_keeps (hs.thread j t₁ hj) (fun fd => hopen hjk) fun p a hp ha => hkept hjk hp ha
  · have hp' : s.args p ≠ none := by
      rcases hg.args p with heq | ⟨hnone, -⟩
      · rwa [heq] at hp
      · exact absurd hnone hp
    rw [hg.main]
    refine (hs.args p hp').imp_right ?_
    rintro ⟨j, t₁, hj, hn⟩
    by_cases hjk : j = k
    · subst hjk
      obtain rfl := Option.some.inj (hg.before.symm.trans hj)
      exact ⟨j, t', hself, hneeds p hp hn⟩
    · exact ⟨j, t₁, by rw [hother hjk, hj], hn⟩
  · have hfd' := hold hfd
    rw [hg.main, hg.created]
    rcases hs.fds fd j hfd' with ⟨rfl, hm⟩ | ⟨t₁, hj, hserv⟩
    · refine .inl ⟨rfl, ?_⟩
      have hmain := hs.main
      cases hcr : s.main with
      | create p =>
        rw [hcr] at hm hmain
        obtain ⟨-, a, hp, ha⟩ := hmain
        obtain ⟨b, hpb, hb⟩ := hm
        obtain rfl : a = b := by simpa [hp] using hpb
        exact ⟨a, hkept hk.ne' hp ha, hb⟩
      | _ =>
        rw [hcr] at hm
        exact hm.elim
    · by_cases hjk : j = k
      · subst hjk
        obtain rfl := Option.some.inj (hg.before.symm.trans hj)
        exact .inr ⟨t', hself, hserves fd hfd hserv⟩
      · refine .inr ⟨t₁, by rw [hother hjk, hj], ?_⟩
        have hfits₁ := hs.thread j t₁ hj
        cases t₁ with
        | started p =>
          obtain ⟨a, hp, ha⟩ := hfits₁
          obtain ⟨b, hpb, hb⟩ := hserv
          obtain rfl : a = b := by simpa [hp] using hpb
          exact ⟨a, hkept hjk hp ha, hb⟩
        | _ => exact hserv

/-- A step of a thread that only goes on. -/
lemma goes_of_goto (h : s.threads k = some t) (hargs : s'.args = s.args) (hfds : s'.fds = s.fds)
    (hthreads : s'.threads = (s.goto k t').threads) (hmain : s'.main = s.main)
    (haccepted : s'.accepted = s.accepted) (hcreated : s'.created = s.created) :
    Goes s k t t' s' :=
  ⟨h, hthreads, hmain, haccepted, hcreated, fun _ => .inl (by rw [hargs]),
    fun _ => .inl (by rw [hfds])⟩

/-- A step of a thread. -/
lemma threadStep (hs : Dispatch clients s) (h : ThreadStep clients k s s') :
    Dispatch clients s' := by
  cases h with
  | @copy p a h hp =>
    obtain ⟨b, hpb, hb⟩ := hs.thread k _ h
    obtain rfl : a = b := by simpa [hp] using hpb
    refine hs.of_goes (goes_of_goto h rfl rfl rfl rfl rfl rfl) ⟨hp, hb⟩ (fun _ _ => id) ?_
    rintro fd - ⟨b, hpb, hb⟩
    obtain rfl : a = b := by simpa [hp] using hpb
    exact hb
  | copyStray h hp =>
    obtain ⟨b, hpb, -⟩ := hs.thread k _ h
    exact absurd hpb (hp b)
  | @free p a h hp =>
    obtain ⟨hpa, ha⟩ := hs.thread k _ h
    refine hs.of_goes ⟨h, rfl, rfl, rfl, rfl, fun q => ?_, fun _ => .inl rfl⟩ ha (fun q hq hn => ?_)
      fun fd _ hfd => hfd
    · by_cases hqp : q = p
      · exact .inr ⟨by simp [hqp], a, by rw [hqp]⟩
      · exact .inl (Function.update_of_ne hqp _ _)
    · obtain rfl : p = q := hn
      exact absurd (Function.update_self ..) hq
  | freeStray h hp =>
    have hpa := (hs.thread k _ h).1
    rw [hp] at hpa
    cases hpa
  | @serve a c line h hfd hline =>
    obtain ⟨haddr, hown⟩ := hs.thread k _ h
    obtain rfl : c = k := Option.some.inj (hfd.symm.trans hown)
    rw [haddr] at hline
    refine hs.of_goes ⟨h, rfl, rfl, rfl, rfl, fun _ => .inl rfl, fun fd => ?_⟩
      hline (fun _ _ hn => hn.elim) fun fd hfd' hserv => ?_
    · by_cases hne : fd = a.connfd
      · exact .inr ⟨by simp [hne], hne ▸ hown⟩
      · exact .inl (Function.update_of_ne hne _ _)
    · obtain rfl : a.connfd = fd := hserv
      have hclosed := Function.update_self a.connfd none s.fds
      rw [show Function.update s.fds a.connfd none a.connfd = some c from hfd'] at hclosed
      cases hclosed
  | serveExit h hfd hline => exact ⟨hs.created, hs.main, hs.thread, hs.args, hs.fds⟩
  | serveStray h hfd =>
    have hown := (hs.thread k _ h).2
    rw [hfd] at hown
    cases hown
  | lock h hv =>
    exact hs.of_goes (goes_of_goto h rfl rfl rfl rfl rfl rfl) trivial (fun _ _ => id)
      fun _ _ => id
  | print h =>
    exact hs.of_goes (goes_of_goto h rfl rfl rfl rfl rfl rfl) trivial (fun _ _ => id)
      fun _ _ => id
  | printed h =>
    exact hs.of_goes (goes_of_goto h rfl rfl rfl rfl rfl rfl) trivial (fun _ _ => id)
      fun _ _ => id
  | unlock h =>
    exact hs.of_goes (goes_of_goto h rfl rfl rfl rfl rfl rfl) trivial (fun _ _ => id)
      fun _ _ => id

/-- **Dispatching.** Every step of the process leaves everybody what is theirs. -/
theorem step (hs : Dispatch clients s) (h : ServerStep clients s s') : Dispatch clients s' := by
  cases h with
  | main hrun h => exact hs.mainStep h
  | thread k hrun h => exact hs.threadStep h

end Dispatch

/-! ## The log -/

/-- The line of a connection. -/
def entryLine (clients : ℕ → Client) (k : ℕ) : List Byte :=
  (logLine (clients k) (clients k).addr).getD []

/-- The thread is between `P` and `V`. -/
def Thread.Inside : Thread → Prop
  | .printing _ => True
  | .unlocking => True
  | _ => False

/-- The thread has printed its line. -/
def Thread.Logged : Thread → Prop
  | .unlocking => True
  | .returned => True
  | _ => False

/-- What was printed are the lines of the threads that have printed theirs, in some order, and
the part that is printed already of the line of the one thread that is printing. -/
structure Transcript (clients : ℕ → Client) (s : Server) (order : List ℕ) (part : List Byte) :
    Prop where
  out : s.out = (order.map (entryLine clients)).flatten ++ part
  nodup : order.Nodup
  mem_iff : ∀ k, k ∈ order ↔ ∃ t, s.threads k = some t ∧ t.Logged
  printing : ∀ k rest, s.threads k = some (.printing rest) → part ++ rest = entryLine clients k
  quiet : (∀ k rest, s.threads k ≠ some (.printing rest)) → part = []
  mutex : Guards s.mutex 1 fun k => ∃ t, s.threads k = some t ∧ t.Inside

namespace Transcript

variable {order : List ℕ} {part : List Byte}

/-- Nothing is printed at the beginning. -/
lemma start : Transcript clients Server.start [] [] where
  out := rfl
  nodup := List.nodup_nil
  mem_iff k := by simp [Server.start]
  printing k rest h := nomatch h
  quiet _ := rfl
  mutex := guards_of_none fun k => by simp [Server.start]

/-- The class of a thread does not change when it goes on within the class. -/
lemma exists_update_iff {threads : ℕ → Option Thread} {P : Thread → Prop}
    (h : ∀ t, threads k = some t → (P t ↔ P t')) (hnone : threads k = none → ¬ P t') (j : ℕ) :
    (∃ t, Function.update threads k (some t') j = some t ∧ P t) ↔
      ∃ t, threads j = some t ∧ P t := by
  by_cases hj : j = k
  · subst hj
    cases hk : threads j with
    | none => simpa using hnone hk
    | some t => simpa using (h t hk).symm
  · rw [Function.update_of_ne hj]

/-- A step of a thread outside of the critical section. -/
lemma of_outside (hs : Transcript clients s order part)
    (hthreads : s'.threads = Function.update s.threads k (some t')) (hout : s'.out = s.out)
    (hmutex : s'.mutex = s.mutex) (hold : ∀ t, s.threads k = some t → ¬ t.Inside ∧ ¬ t.Logged)
    (hnew : ¬ t'.Inside ∧ ¬ t'.Logged) : Transcript clients s' order part := by
  have hprint (j : ℕ) (rest : List Byte) :
      s'.threads j = some (.printing rest) ↔ s.threads j = some (.printing rest) := by
    rw [hthreads]
    by_cases hj : j = k
    · subst hj
      rw [Function.update_self]
      refine iff_of_false ?_ fun h => (hold _ h).1 trivial
      rintro ⟨⟩
      exact hnew.1 trivial
    · rw [Function.update_of_ne hj]
  refine ⟨hout.trans hs.out, hs.nodup, fun j => ?_, fun j rest h => hs.printing j rest
    ((hprint j rest).1 h), fun h => hs.quiet fun j rest hj => h j rest ((hprint j rest).2 hj), ?_⟩
  · rw [hs.mem_iff, hthreads]
    exact (exists_update_iff (fun t ht => iff_of_false (hold t ht).2 hnew.2) (fun _ => hnew.2)
      j).symm
  · rw [hmutex, hthreads]
    exact hs.mutex.congr fun j => exists_update_iff
      (fun t ht => iff_of_false (hold t ht).1 hnew.1) (fun _ => hnew.1) j

/-- Only one thread prints. -/
lemma printing_unique (hs : Transcript clients s order part) (hk : s.threads k = some t)
    (ht : t.Inside) {rest : List Byte} (hj : s.threads j = some (.printing rest)) : j = k :=
  hs.mutex.mutex ⟨_, hj, trivial⟩ ⟨t, hk, ht⟩

/-- `P`: nobody is printing, and the thread begins. -/
lemma lock (hs : Transcript clients s order part) {l : List Byte} {v : ℕ}
    (h : s.threads k = some (.locking l)) (hv : s.mutex = v + 1) (hl : entryLine clients k = l) :
    Transcript clients { s.goto k (.printing l) with mutex := v } order part := by
  have hguards := hs.mutex
  rw [hv] at hguards
  have hnone := hguards.none_inside
  have hpart : part = [] := hs.quiet fun j rest hj => hnone j ⟨_, hj, trivial⟩
  have hself : Function.update s.threads k (some (.printing l)) k = some (.printing l) :=
    Function.update_self ..
  refine ⟨hs.out, hs.nodup, fun j => (hs.mem_iff j).trans (exists_update_iff (fun t ht => ?_)
    (fun hn => ?_) j).symm, fun j rest hj => ?_, fun hno => absurd hself (hno k l), ?_⟩
  · obtain rfl := Option.some.inj (h.symm.trans ht)
    exact Iff.rfl
  · rw [h] at hn
    cases hn
  · by_cases hjk : j = k
    · subst hjk
      have hrest := Option.some.inj (hself.symm.trans hj)
      cases hrest
      rw [hpart, hl, List.nil_append]
    · exact absurd ⟨_, (Function.update_of_ne hjk _ _).symm.trans hj, trivial⟩ (hnone j)
  · refine hguards.enter (hnone k) fun j => ?_
    by_cases hjk : j = k
    · subst hjk
      exact iff_of_true ⟨_, hself, trivial⟩ (.inl rfl)
    · have hsame : Function.update s.threads k (some (.printing l)) j = s.threads j :=
        Function.update_of_ne hjk _ _
      simp only [Server.goto, hsame, hjk, false_or]

/-- `printf`: one byte. -/
lemma print (hs : Transcript clients s order part) {b : Byte} {rest : List Byte}
    (h : s.threads k = some (.printing (b :: rest))) :
    Transcript clients { s.goto k (.printing rest) with out := s.out ++ [b] } order
      (part ++ [b]) := by
  have hself : Function.update s.threads k (some (.printing rest)) k = some (.printing rest) :=
    Function.update_self ..
  have hsame (P : Thread → Prop) (hP : P (.printing (b :: rest)) ↔ P (.printing rest)) (j : ℕ) :
      (∃ t, Function.update s.threads k (some (.printing rest)) j = some t ∧ P t) ↔
        ∃ t, s.threads j = some t ∧ P t :=
    exists_update_iff (fun t ht => by rwa [← Option.some.inj (h.symm.trans ht)])
      (fun hn => by rw [h] at hn; cases hn) j
  refine ⟨?_, hs.nodup, fun j => (hs.mem_iff j).trans (hsame _ Iff.rfl j).symm,
    fun j rest' hj => ?_, fun hno => absurd hself (hno k rest),
    hs.mutex.congr fun j => hsame _ Iff.rfl j⟩
  · rw [hs.out, List.append_assoc]
  · by_cases hjk : j = k
    · subst hjk
      have hrest := Option.some.inj (hself.symm.trans hj)
      cases hrest
      rw [List.append_assoc, List.singleton_append]
      exact hs.printing j _ h
    · have hold := (Function.update_of_ne hjk _ _).symm.trans hj
      exact absurd (hs.printing_unique h trivial hold) hjk

/-- `printf` returns. -/
lemma printed (hs : Transcript clients s order part) (h : s.threads k = some (.printing [])) :
    Transcript clients (s.goto k .unlocking) (order ++ [k]) [] := by
  have hself : Function.update s.threads k (some .unlocking) k = some .unlocking :=
    Function.update_self ..
  have hline := hs.printing k [] h
  have hnot : k ∉ order := by
    intro hmem
    obtain ⟨t, ht, hl⟩ := (hs.mem_iff k).1 hmem
    obtain rfl := Option.some.inj (h.symm.trans ht)
    exact hl
  have hno (j : ℕ) (rest : List Byte) :
      Function.update s.threads k (some .unlocking) j ≠ some (.printing rest) := by
    intro hj
    by_cases hjk : j = k
    · subst hjk
      cases hself.symm.trans hj
    · exact hjk (hs.printing_unique h trivial ((Function.update_of_ne hjk _ _).symm.trans hj))
  refine ⟨?_, List.nodup_append.2 ⟨hs.nodup, List.nodup_singleton k, ?_⟩, fun j => ?_,
    fun j rest hj => absurd hj (hno j rest), fun _ => rfl, ?_⟩
  · rw [List.append_nil] at hline
    rw [List.map_append, List.flatten_append, List.map_singleton, List.flatten_singleton,
      List.append_nil, ← hline]
    exact hs.out
  · rintro i hi j hj rfl
    exact hnot (List.mem_singleton.1 hj ▸ hi)
  · rw [List.mem_append, List.mem_singleton, hs.mem_iff]
    by_cases hjk : j = k
    · subst hjk
      exact iff_of_true (.inr rfl) ⟨_, hself, trivial⟩
    · have hsame : Function.update s.threads k (some .unlocking) j = s.threads j :=
        Function.update_of_ne hjk _ _
      simp only [Server.goto, hsame, hjk, or_false]
  · exact hs.mutex.congr fun j => exists_update_iff (fun t ht => by
      obtain rfl := Option.some.inj (h.symm.trans ht)
      exact Iff.rfl) (fun hn => by rw [h] at hn; cases hn) j

/-- `V`. -/
lemma unlock (hs : Transcript clients s order part) (h : s.threads k = some .unlocking) :
    Transcript clients { s.goto k .returned with mutex := s.mutex + 1 } order part := by
  have hself : Function.update s.threads k (some .returned) k = some .returned :=
    Function.update_self ..
  have hother {j : ℕ} (hjk : j ≠ k) :
      Function.update s.threads k (some .returned) j = s.threads j := Function.update_of_ne hjk _ _
  have hprint (j : ℕ) (rest : List Byte) :
      Function.update s.threads k (some .returned) j = some (.printing rest) ↔
        s.threads j = some (.printing rest) := by
    by_cases hjk : j = k
    · subst hjk
      rw [hself, h]
      simp
    · rw [hother hjk]
  refine ⟨hs.out, hs.nodup, fun j => (hs.mem_iff j).trans (exists_update_iff (fun t ht => ?_)
    (fun hn => ?_) j).symm, fun j rest hj => hs.printing j rest ((hprint j rest).1 hj),
    fun hno => hs.quiet fun j rest hj => hno j rest ((hprint j rest).2 hj), ?_⟩
  · obtain rfl := Option.some.inj (h.symm.trans ht)
    exact Iff.rfl
  · rw [h] at hn
    cases hn
  · refine hs.mutex.leave ⟨_, h, trivial⟩ fun j => ?_
    by_cases hjk : j = k
    · subst hjk
      simp [Server.goto, Thread.Inside]
    · simp only [Server.goto, hother hjk, ne_eq, hjk, not_false_eq_true, true_and]

/-- **Logging.** Every step of the process keeps the log in order. -/
theorem step (hs : Transcript clients s order part) (hd : Dispatch clients s)
    (h : ServerStep clients s s') : ∃ order' part', Transcript clients s' order' part' := by
  cases h with
  | main hrun h =>
    cases h with
    | create h =>
      have hnone : s.threads s.created = none := by
        by_contra hne
        exact absurd ((hd.created _).1 hne) (lt_irrefl _)
      refine ⟨order, part, hs.of_outside (k := s.created) rfl rfl rfl (fun t ht => ?_)
        ⟨id, id⟩⟩
      rw [hnone] at ht
      cases ht
    | _ => exact ⟨order, part, hs.out, hs.nodup, hs.mem_iff, hs.printing, hs.quiet, hs.mutex⟩
  | thread k hrun h =>
    have hgo {t t' : Thread} (h : s.threads k = some t) (ht : ¬ t.Inside ∧ ¬ t.Logged)
        (ht' : ¬ t'.Inside ∧ ¬ t'.Logged) (hthreads : s'.threads = (s.goto k t').threads)
        (hout : s'.out = s.out) (hmutex : s'.mutex = s.mutex) : Transcript clients s' order part :=
      hs.of_outside hthreads hout hmutex
        (fun t₁ ht₁ => Option.some.inj (h.symm.trans ht₁) ▸ ht) ht'
    cases h with
    | copy h => exact ⟨_, _, hgo h ⟨id, id⟩ ⟨id, id⟩ rfl rfl rfl⟩
    | copyStray h => exact ⟨_, _, hgo h ⟨id, id⟩ ⟨id, id⟩ rfl rfl rfl⟩
    | free h => exact ⟨_, _, hgo h ⟨id, id⟩ ⟨id, id⟩ rfl rfl rfl⟩
    | freeStray h => exact ⟨_, _, hgo h ⟨id, id⟩ ⟨id, id⟩ rfl rfl rfl⟩
    | serve h => exact ⟨_, _, hgo h ⟨id, id⟩ ⟨id, id⟩ rfl rfl rfl⟩
    | serveExit h => exact ⟨order, part, hs.out, hs.nodup, hs.mem_iff, hs.printing, hs.quiet,
        hs.mutex⟩
    | serveStray h => exact ⟨_, _, hgo h ⟨id, id⟩ ⟨id, id⟩ rfl rfl rfl⟩
    | lock h hv =>
      have hl : logLine (clients k) (clients k).addr = some _ := hd.thread k _ h
      exact ⟨_, _, hs.lock h hv (by rw [entryLine, hl, Option.getD_some])⟩
    | print h => exact ⟨_, _, hs.print h⟩
    | printed h => exact ⟨_, _, hs.printed h⟩
    | unlock h => exact ⟨_, _, hs.unlock h⟩

end Transcript

/-! ## Runs -/

/-- The invariants hold in every run. -/
lemma invariant_of_reachable (h : ReachableServer clients s) :
    Dispatch clients s ∧ ∃ order part, Transcript clients s order part := by
  refine Reachability.Reachable.invariant (P := fun s =>
    Dispatch clients s ∧ ∃ order part, Transcript clients s order part) ?_ ?_ h
  · rintro s rfl
    exact ⟨.start, _, _, .start⟩
  · rintro s s' - ⟨hd, order, part, ht⟩ hstep
    exact ⟨hd.step hstep, ht.step hd hstep⟩

/-- A step of `main` goes on with a run. -/
lemma ReachableServer.main (h : ReachableServer clients s) (hrun : s.exited = false)
    (hs : MainStep clients s s') : ReachableServer clients s' :=
  Reachability.Reachable.tail h (.main hrun hs)

/-- A step of a thread goes on with a run. -/
lemma ReachableServer.thread (h : ReachableServer clients s) (k : ℕ) (hrun : s.exited = false)
    (hs : ThreadStep clients k s s') : ReachableServer clients s' :=
  Reachability.Reachable.tail h (.thread k hrun hs)

namespace Dispatch

/-- Threads are those of connections that were accepted. -/
lemma lt_accepted (hd : Dispatch clients s) (ht : s.threads k = some t) : k < s.accepted := by
  refine ((hd.created k).1 (by simp [ht])).trans_le ?_
  have hmain := hd.main
  cases hm : s.main with
  | malloc =>
    rw [hm] at hmain
    exact hmain.ge
  | accept p =>
    rw [hm] at hmain
    exact hmain.1.ge
  | create p =>
    rw [hm] at hmain
    have := hmain.1
    omega

/-- When all threads have returned and `main` begins a new round, every connection has had its
thread. -/
lemma returned (hd : Dispatch clients s) (hm : s.main = .malloc)
    (hret : ∀ k t, s.threads k = some t → t = .returned) (hk : k < s.accepted) :
    s.threads k = some .returned := by
  have hmain := hd.main
  rw [hm] at hmain
  have hacc : s.accepted = s.created := hmain
  obtain ⟨t, ht⟩ := Option.ne_none_iff_exists'.1 ((hd.created k).2 (hacc ▸ hk))
  rw [ht, hret k t ht]

end Dispatch

/-- **Connections do not get mixed up.** In every run of `main` and any number of threads, in any
order of their steps, thread `k` serves the `k`-th connection, with the address of its client; no
thread uses a block that is not allocated or a descriptor that is not open; and when `main` begins
a new round and all threads have returned, every connection that was accepted has had its thread,
all blocks are freed and all descriptors are closed. -/
theorem dispatch_of_reachable (h : ReachableServer clients s) :
    (∀ k t, s.threads k = some t → k < s.accepted ∧ t ≠ .stray ∧ ∀ a, t = .serving a →
      a.clientaddr = (clients k).addr ∧ s.fds a.connfd = some k) ∧
    (s.main = .malloc → (∀ k t, s.threads k = some t → t = .returned) →
      (∀ k < s.accepted, s.threads k = some .returned) ∧ (∀ p, s.args p = none) ∧
        ∀ fd, s.fds fd = none) := by
  obtain ⟨hd, -⟩ := invariant_of_reachable h
  refine ⟨fun k t ht => ⟨hd.lt_accepted ht, ?_, ?_⟩,
    fun hm hret => ⟨fun k hk => hd.returned hm hret hk, fun p => ?_, fun fd => ?_⟩⟩
  · rintro rfl
    exact hd.thread k _ ht
  · rintro a rfl
    exact hd.thread k _ ht
  · by_contra hp
    rcases hd.args p hp with hn | ⟨k, t, ht, hn⟩
    · rw [hm] at hn
      exact hn
    · rw [hret k t ht] at hn
      exact hn
  · by_contra hfd
    obtain ⟨k, hk⟩ := Option.ne_none_iff_exists'.1 hfd
    rcases hd.fds fd k hk with ⟨-, hn⟩ | ⟨t, ht, hn⟩
    · rw [hm] at hn
      exact hn
    · rw [hret k t ht] at hn
      exact hn

/-- A client that sends nothing. -/
def silentClient : Client := ⟨0x7f000001#32, silentNet, ascii "T", []⟩

/-- Two connections have been accepted, and the thread of the second one is ahead. -/
lemma exists_ahead : ∃ s, ReachableServer (fun _ => silentClient) s ∧ s.accepted = 2 ∧
    s.threads 0 = some (.started 0) ∧ s.threads 1 = some (.serving ⟨0x7f000001#32, 6⟩) ∧
    s.fds 6 = some 1 ∧ s.mutex = 1 ∧ s.out = [] ∧ s.exited = false := by
  have h₀ : ReachableServer (fun _ => silentClient) Server.start :=
    Reachability.Reachable.of_init rfl
  have h₁ := h₀.main rfl (.malloc 0 rfl rfl)
  have h₂ := h₁.main rfl (.accept 5 rfl rfl)
  have h₃ := h₂.main rfl (.create rfl)
  have h₄ := h₃.main rfl (.malloc 1 rfl rfl)
  have h₅ := h₄.main rfl (.accept 6 rfl rfl)
  have h₆ := h₅.main rfl (.create rfl)
  have h₇ := h₆.thread 1 rfl (.copy rfl rfl)
  have h₈ := h₇.thread 1 rfl (.free rfl (Option.some_ne_none _))
  exact ⟨_, h₈, rfl, rfl, rfl, rfl, rfl, rfl, rfl⟩

/-- The second thread serves the second connection, while the first one has not begun. -/
theorem dispatch_of_reachable_ahead : ∃ s : Server, s.threads 0 = some (.started 0) ∧
    s.threads 1 = some (.serving ⟨0x7f000001#32, 6⟩) ∧ 1 < s.accepted ∧ s.fds 6 = some 1 := by
  obtain ⟨s, hs, -, h0, h1, -⟩ := exists_ahead
  obtain ⟨hlt, -, hserving⟩ := (dispatch_of_reachable hs).1 1 _ h1
  exact ⟨s, h0, h1, hlt, (hserving _ rfl).2⟩

/-- **Log lines do not get mixed up.** In every run, what was printed are whole lines of different
connections, one for each thread that has got so far, and behind them at most a part of the line
of the one thread that is printing, which has the rest still to print. When `main` begins a new
round and all threads have returned, every connection that was accepted has its line in the log
once. -/
theorem log_of_reachable (h : ReachableServer clients s) : ∃ (order : List ℕ) (part : List Byte),
    s.out = (order.map (entryLine clients)).flatten ++ part ∧ order.Nodup ∧
    (∀ k, k ∈ order ↔ s.threads k = some .unlocking ∨ s.threads k = some .returned) ∧
    (part ≠ [] → ∃ k rest, s.threads k = some (.printing rest) ∧
      (∀ j t, s.threads j = some t → t.Inside → j = k) ∧ k ∉ order ∧ k < s.accepted ∧
      part ++ rest = entryLine clients k) ∧
    (s.main = .malloc → (∀ k t, s.threads k = some t → t = .returned) →
      part = [] ∧ order.Perm (List.range s.accepted)) := by
  obtain ⟨hd, order, part, ht⟩ := invariant_of_reachable h
  have hmem (k : ℕ) :
      k ∈ order ↔ s.threads k = some .unlocking ∨ s.threads k = some .returned := by
    rw [ht.mem_iff]
    constructor
    · rintro ⟨t, hk, hl⟩
      cases t with
      | unlocking => exact .inl hk
      | returned => exact .inr hk
      | _ => exact hl.elim
    · rintro (hk | hk)
      · exact ⟨_, hk, trivial⟩
      · exact ⟨_, hk, trivial⟩
  refine ⟨order, part, ht.out, ht.nodup, hmem, fun hpart => ?_, fun hm hret => ⟨?_, ?_⟩⟩
  · obtain ⟨k, rest, hk⟩ : ∃ k rest, s.threads k = some (.printing rest) := by
      by_contra hno
      exact hpart (ht.quiet fun k rest hk => hno ⟨k, rest, hk⟩)
    refine ⟨k, rest, hk, fun j t hj hin => ht.mutex.mutex ⟨t, hj, hin⟩ ⟨_, hk, trivial⟩,
      fun hko => ?_, hd.lt_accepted hk, ht.printing k rest hk⟩
    rw [hmem, hk] at hko
    rcases hko with hko | hko <;> cases hko
  · exact ht.quiet fun k rest hk => nomatch hret k _ hk
  · refine (List.perm_ext_iff_of_nodup ht.nodup List.nodup_range).2 fun k => ?_
    rw [hmem, List.mem_range]
    constructor
    · rintro (hk | hk)
      · exact hd.lt_accepted hk
      · exact hd.lt_accepted hk
    · exact fun hk => .inr (hd.returned hm hret hk)

/-- The second thread has printed the first byte of its line, and has the others to print. -/
theorem log_of_reachable_ahead : ∃ (s : Server) (rest : List Byte), s.out = [84#8] ∧
    s.threads 0 = some (.started 0) ∧ s.threads 1 = some (.printing rest) ∧
      [84#8] ++ rest = entryLine (fun _ => silentClient) 1 := by
  obtain ⟨s, hs, hacc, h0, h1, hfd, hmutex, hout, hrun⟩ := exists_ahead
  obtain ⟨rest, hline⟩ : ∃ rest, logLine silentClient 0x7f000001#32 = some (84#8 :: rest) := by
    have hsome : (thread silentNet).isSome = true := by decide +kernel
    obtain ⟨r, hr⟩ := Option.isSome_iff_exists.1 hsome
    refine ⟨(formatLogEntry (ascii "T") 0x7f000001#32 (r.2.1.getD []) r.2.2 ++ [10#8]).tail, ?_⟩
    rw [logLine, show thread silentClient.net = some r from hr]
    rfl
  obtain ⟨s', hs', hout', h1', hsame⟩ : ∃ s', ReachableServer (fun _ => silentClient) s' ∧
      s'.out = [84#8] ∧ s'.threads 1 = some (.printing rest) ∧
      ∀ j, j ≠ 1 → s'.threads j = s.threads j := by
    have h₁ := hs.thread 1 hrun (.serve h1 hfd hline)
    have h₂ := h₁.thread 1 hrun (.lock rfl hmutex)
    refine ⟨_, h₂.thread 1 hrun (.print rfl), congrArg (· ++ [84#8]) hout, rfl, fun j hj => ?_⟩
    simp only [Server.goto, Function.update_of_ne hj]
  obtain ⟨order, part, hpart, -, hmem, hlast, -⟩ := log_of_reachable hs'
  have hnil : order = [] := by
    refine List.eq_nil_iff_forall_not_mem.2 fun k hk => ?_
    have hk' := (hmem k).1 hk
    by_cases hk1 : k = 1
    · simp [hk1, h1'] at hk'
    · rw [hsame k hk1] at hk'
      have hstarted (t : Thread) (ht : s.threads k = some t) : t = .started 0 := by
        have := (invariant_of_reachable hs).1.lt_accepted ht
        obtain rfl : k = 0 := by omega
        exact Option.some.inj (ht.symm.trans h0)
      rcases hk' with hk' | hk'
      · cases hstarted _ hk'
      · cases hstarted _ hk'
  obtain rfl : part = [84#8] := by
    rw [hnil, hout', List.map_nil, List.flatten_nil, List.nil_append] at hpart
    exact hpart.symm
  obtain ⟨k, rest', hk, honly, -, -, hrest⟩ := hlast (List.cons_ne_nil _ _)
  obtain rfl : 1 = k := honly 1 _ h1' trivial
  exact ⟨s', rest', hout', (hsame 0 (by decide)).trans h0, hk, hrest⟩

end Proxy
