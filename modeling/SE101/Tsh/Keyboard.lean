import SE101.Tsh.Foreground

set_option relaxedAutoImplicit false
set_option autoImplicit false

/-!
# Signals from the keyboard

`sigint_handler` and `sigtstp_handler` read the pid of the foreground job and send the signal on
to its process group. Both may be interrupted in between, by each other and by `sigchld_handler`,
while `main` waits. The kernel refuses the signal if there is no such group: a child gets a group
of its own only when it calls `setpgid` itself, and when it is reaped the group may be gone.

## Main definitions

* `Tsh.Key`, `Tsh.Keyed` — the two signals, and the shell with the two handlers.
* `Tsh.KeyedStep` — the steps.
* `Tsh.Main.Waits` — the locations of `main` at which a signal may be sent on.
* `Tsh.Keyed.Forwards` — which pid a handler may have read.
* `Tsh.Keyed.Orderly` — the condition on the states from which a run goes on.

## Main results

* `Tsh.forwards_of_reachable` — whom signals are sent to.
* `Tsh.reaches_of_orderly` — when they are never refused.
* `Tsh.exists_refused` — a run in which one is, and the shell exits.
-/

namespace Tsh

open LittleEndian CString Reachability

/-- The signals from the keyboard. -/
inductive Key
  /-- `SIGINT`: ctrl-c. -/
  | int
  /-- `SIGTSTP`: ctrl-z. -/
  | tstp
  deriving DecidableEq

/-- The shell and the handlers of the keyboard signals. -/
structure Keyed where
  shell : Shell
  /-- `temp_pid`, if the handler runs and has called `fgpid`. -/
  tempPid : Key → Option ℕ
  /-- The children that have called `setpgid`. -/
  grouped : ℕ → Bool

namespace Keyed

/-- Before the first command line. -/
def start : Keyed := ⟨.start, fun _ => none, fun _ => false⟩

/-- There is a process group of this child. -/
def HasGroup (x : Keyed) (p : ℕ) : Prop := x.shell.children p ≠ none ∧ x.grouped p = true

end Keyed

/-! ## Steps -/

/-- The steps of the shell, of the handlers and of the children. -/
inductive KeyedStep (x : Keyed) : Keyed → Prop
  /-- `main` waits while a handler runs. A pid that is given to a new child has no group yet. -/
  | main {s : Shell} (hkeys : ∀ g, x.tempPid g = none) (hidle : x.shell.handler = .idle)
      (h : MainStep x.shell s) :
    KeyedStep x { x with
      shell := s
      grouped := fun p => x.grouped p && (x.shell.children p).isSome }
  | handler {s : Shell} (hrun : x.shell.main ≠ .exited) (h : HandlerStep x.shell s) :
    KeyedStep x { x with shell := s }
  | kernel {s : Shell} (h : KernelStep x.shell s) : KeyedStep x { x with shell := s }
  /-- A child calls `setpgid`. -/
  | setpgid (p : ℕ) (h : x.shell.children p = some .running) :
    KeyedStep x { x with grouped := Function.update x.grouped p true }
  /-- The handler is started and calls `fgpid`. All signals are blocked while a job is added. -/
  | fgpid (g : Key) (hrun : x.shell.main ≠ .exited) (hmask : ∀ b p, x.shell.main ≠ .unblock b p)
      (h : x.tempPid g = none) :
    KeyedStep x { x with tempPid := Function.update x.tempPid g (some x.shell.jobs.fgpid) }
  /-- `temp_pid` is 0, and the handler returns. -/
  | skip (g : Key) (h : x.tempPid g = some 0) :
    KeyedStep x { x with tempPid := Function.update x.tempPid g none }
  /-- `kill(-temp_pid, sig)` succeeds, and the handler returns. -/
  | kill (g : Key) {p : ℕ} (h : x.tempPid g = some p) (hp : p ≠ 0) :
    KeyedStep x { x with tempPid := Function.update x.tempPid g none }
  /-- There is no such group, and the shell exits. -/
  | killError (g : Key) {p : ℕ} (h : x.tempPid g = some p) (hp : p ≠ 0) (hno : ¬ x.HasGroup p) :
    KeyedStep x { x with shell := x.shell.exit, tempPid := fun _ => none }
  /-- `sigquit_handler`. -/
  | quit : KeyedStep x { x with shell := x.shell.exit, tempPid := fun _ => none }

/-- The states of all runs whose steps meet `ok`. -/
def KeyedReachableIf (ok : Keyed → Keyed → Prop) : Keyed → Prop :=
  Reachability.Reachable (· = Keyed.start) fun x x' => ok x x' ∧ KeyedStep x x'

variable {ok : Keyed → Keyed → Prop} {x x' : Keyed} {g : Key} {p : ℕ}

/-- What the handlers of the keyboard signals do is seen by the shell as nothing or as its end. -/
lemma KeyedStep.shell (h : KeyedStep x x') : x'.shell = x.shell ∨ Step x.shell x'.shell := by
  cases h with
  | main hkeys hidle h => exact .inr (.main hidle h)
  | handler hrun h => exact .inr (.handler hrun h)
  | kernel h => exact .inr (.kernel h)
  | killError => exact .inr (.signal .quit)
  | quit => exact .inr (.signal .quit)
  | _ => exact .inl rfl

/-- The shell is in a state of a run of its own. -/
lemma KeyedReachableIf.shell (h : KeyedReachableIf ok x) : Reachable x.shell := by
  refine Reachability.Reachable.invariant (P := fun x => Reachable x.shell) ?_ ?_ h
  · rintro x rfl
    exact .start
  · rintro x x' - hx ⟨-, hstep⟩
    rcases hstep.shell with heq | hstep
    · rwa [heq]
    · exact hx.step trivial hstep

/-- A step goes on with a run. -/
lemma KeyedReachableIf.step (h : KeyedReachableIf ok x) (hok : ok x x') (hs : KeyedStep x x') :
    KeyedReachableIf ok x' :=
  Reachability.Reachable.tail h ⟨hok, hs⟩

/-! ## The user types ctrl-c -/

/-- In this step, a job is added only if the child has called `setpgid`, and `sigchld_handler` does
not run between the search for a foreground job and the sending of the signal. -/
structure Keyed.Orderly (x x' : Keyed) : Prop where
  added : ∀ c b p, x.shell.main = .add c b p → x'.shell.main = .unblock b p → x.grouped p = true
  alone : ∀ g p, x.tempPid g = some p → p ≠ 0 → x.shell.handler = .idle

/-- A step while no handler of a keyboard signal runs. -/
lemma Keyed.Orderly.of_none (hnone : ∀ g, x.tempPid g = none)
    (hadd : ∀ c b p, x.shell.main = .add c b p → x.grouped p = true) : x.Orderly x' where
  added c b p h _ := hadd c b p h
  alone g p h := by rw [hnone g] at h; cases h

/-- `main` goes on, and the children keep their groups. -/
lemma KeyedReachableIf.mainStep {s s' : Shell} {grouped : ℕ → Bool}
    (h : KeyedReachableIf ok ⟨s, fun _ => none, grouped⟩)
    (hok : ∀ x', ok ⟨s, fun _ => none, grouped⟩ x') (hidle : s.handler = .idle)
    (hstep : MainStep s s') :
    ∃ grouped', KeyedReachableIf ok ⟨s', fun _ => none, grouped'⟩ ∧
      ∀ p, grouped' p = (grouped p && (s.children p).isSome) :=
  ⟨_, h.step (hok _) (.main (fun _ => rfl) hidle hstep), fun _ => rfl⟩

/-- `eval` has forked a child for `/bin/ls`. -/
def Shell.forked : Shell :=
  { Shell.start.setChild 1 .running with
    main := .add (ascii "/bin/ls\n") false 1
    blocked := true }

/-- So far everything is orderly, and the child has no group. -/
lemma exists_forked : ∃ grouped,
    KeyedReachableIf Keyed.Orderly ⟨.forked, fun _ => none, grouped⟩ ∧ grouped 1 = false := by
  have hok (s : Shell) (grouped : ℕ → Bool) (h : ∀ c b p, s.main ≠ .add c b p) (x : Keyed) :
      (⟨s, fun _ => none, grouped⟩ : Keyed).Orderly x :=
    .of_none (fun _ => rfl) fun c b p hadd => absurd hadd (h c b p)
  have h₀ : KeyedReachableIf Keyed.Orderly ⟨.start, fun _ => none, fun _ => false⟩ :=
    Reachability.Reachable.of_init rfl
  obtain ⟨_, h₁, -⟩ := h₀.mainStep (hok _ _ (by simp [Shell.start])) rfl
    (.read (ascii "/bin/ls\n") rfl)
  obtain ⟨_, h₂, -⟩ := h₁.mainStep (hok _ _ (by simp [eval_ls])) rfl (.block eval_ls)
  obtain ⟨_, h₃, hg₃⟩ := h₂.mainStep (hok _ _ (by simp)) rfl (.fork 1 rfl (by decide) rfl)
  exact ⟨_, h₃, (hg₃ 1).trans (Bool.and_false _)⟩

/-- The job is added, `main` waits, and the user types ctrl-c. -/
lemma exists_interrupted {grouped : ℕ → Bool}
    (h : KeyedReachableIf ok ⟨.forked, fun _ => none, grouped⟩)
    (hok : ∀ s grouped', (∀ c b p, s.main = .add c b p → p = 1 ∧ grouped' = grouped) →
      ∀ x, ok ⟨s, fun _ => none, grouped'⟩ x) :
    ∃ x, KeyedReachableIf ok x ∧ x.tempPid .int = some 1 ∧ x.shell.handler = .idle ∧
      x.shell.main ≠ .exited ∧ x.grouped 1 = grouped 1 := by
  obtain ⟨_, h₁, hg₁⟩ := h.mainStep (hok _ _ (by simp [Shell.forked])) rfl (.add rfl)
  obtain ⟨_, h₂, hg₂⟩ := h₁.mainStep (hok _ _ (by simp)) rfl (.unblock rfl)
  obtain ⟨_, h₃, hg₃⟩ := h₂.mainStep (hok _ _ (by simp)) rfl (.reset rfl)
  have h₄ := h₃.step (hok _ _ (by simp) _) (.fgpid .int (by simp) (by simp) rfl)
  have hfg : (Shell.start.jobs.addjob 1 .fg (ascii "/bin/ls\n")).2.fgpid = 1 := by decide +kernel
  refine ⟨_, h₄, congrArg some hfg, rfl, by simp, ?_⟩
  calc _ = _ := hg₃ 1
    _ = _ := Bool.and_true _
    _ = _ := hg₂ 1
    _ = _ := Bool.and_true _
    _ = _ := hg₁ 1
    _ = _ := Bool.and_true _

/-- The child has called `setpgid` before. -/
lemma exists_orderly : ∃ x, KeyedReachableIf Keyed.Orderly x ∧ x.tempPid .int = some 1 ∧
    x.shell.handler = .idle ∧ x.shell.main ≠ .exited := by
  obtain ⟨grouped, h, -⟩ := exists_forked
  have hgroup := h.step ⟨fun _ _ _ _ h => (by simp [Shell.forked] at h), fun _ _ h => nomatch h⟩
    (.setpgid 1 rfl)
  obtain ⟨x, hx, hread, hidle, hrun, -⟩ := exists_interrupted hgroup fun s grouped' hadd x =>
    .of_none (fun _ => rfl) fun c b p hmain => by
      obtain ⟨rfl, rfl⟩ := hadd c b p hmain
      exact Function.update_self 1 true grouped
  exact ⟨x, hx, hread, hidle, hrun⟩

/-! ## Whom signals are sent to -/

/-- `waitfg` runs, or will be called when `do_bgfg` has continued the job. -/
def Main.Waits : Main → Prop
  | .resume cmd _ => cmd = .fg
  | .reset _ => True
  | .wait _ => True
  | _ => False

/-- Besides these locations there is a job in the foreground only while a new one is added, and
after the shell has exited. -/
lemma Main.waits_of_not_quiet {m : Main} (h : ¬ m.Quiet) (hmask : ∀ b p, m ≠ .unblock b p)
    (hrun : m ≠ .exited) : m.Waits := by
  cases m with
  | unblock b p => exact absurd rfl (hmask b p)
  | resume cmd i =>
    cases cmd with
    | fg => rfl
    | bg => exact absurd rfl h
  | reset c => trivial
  | wait c => trivial
  | exited => exact absurd rfl hrun
  | _ => exact absurd trivial h

/-- Unless it has exited, the shell waits for a foreground job, and the job with this pid, if it
still is in the list, is not in the background. -/
structure Keyed.Forwards (x : Keyed) (p : ℕ) : Prop where
  waits : x.shell.main ≠ .exited → x.shell.main.Waits
  state : ∀ i, (x.shell.jobs.slots i).pid = p →
    (x.shell.jobs.slots i).state = .fg ∨ (x.shell.jobs.slots i).state = .st

/-- The pid that `fgpid` finds. -/
lemma Keyed.forwards_fgpid (hone : OneForeground x.shell) (ht : Tracked x.shell)
    (hmask : ∀ b p, x.shell.main ≠ .unblock b p) (hp : x.shell.jobs.fgpid ≠ 0) :
    x.Forwards x.shell.jobs.fgpid := by
  have hpos : 0 < x.shell.jobs.fgpid := Nat.pos_of_ne_zero hp
  obtain ⟨i, hi, hpid⟩ := JobList.exists_of_fgpid rfl hpos
  refine ⟨Main.waits_of_not_quiet (fun hq => hone.quiet hq i hi) hmask, fun j hj => .inl ?_⟩
  rw [ht.distinct j i (by rwa [hj]) (hj.trans hpid.symm)]
  exact hi

/-- `sigchld_handler` puts no job into the background. -/
lemma Keyed.Forwards.handlerStep (hx : x.Forwards p) (ht : Tracked x.shell) (hp : p ≠ 0)
    {s : Shell} (h : HandlerStep x.shell s) :
    ({ x with shell := s } : Keyed).Forwards p := by
  cases h with
  | waitpidError h hnone => exact ⟨fun hrun => absurd rfl hrun, hx.state⟩
  | @markStopped pid i h hi =>
    refine ⟨hx.waits, fun j hj => ?_⟩
    by_cases hji : j = i
    · subst hji
      exact .inr (by simp)
    · have hslot : (x.shell.jobs.setState .st i).slots j = x.shell.jobs.slots j :=
        Function.update_of_ne hji _ _
      dsimp only at hj ⊢
      rw [hslot] at hj ⊢
      exact hx.state j hj
  | @delete pid h =>
    have hpos := (ht.noted h).1
    refine ⟨hx.waits, fun j hj => ?_⟩
    dsimp only at hj ⊢
    by_cases hjp : (x.shell.jobs.slots j).pid = pid
    · -- the slot has been cleared
      obtain ⟨i, hi, hslots⟩ | ⟨hne, -⟩ := JobList.deletejob_cases x.shell.jobs hpos
      · obtain rfl : j = i := ht.distinct j i (by omega) (hjp.trans hi.symm)
        rw [hslots, Function.update_self] at hj
        exact absurd hj.symm hp
      · exact absurd hjp (hne j)
    · rw [JobList.deletejob_slots hpos hjp] at hj ⊢
      exact hx.state j hj
  | _ => exact ⟨hx.waits, hx.state⟩

/-- One handler has another pid. -/
lemma update_eq_some {f : Key → Option ℕ} {g g' : Key} {v : Option ℕ}
    (h : Function.update f g' v g = some p) : v = some p ∨ f g = some p := by
  by_cases hg : g = g'
  · subst hg
    rw [Function.update_self] at h
    exact .inl h
  · rw [Function.update_of_ne hg] at h
    exact .inr h

/-- A step of the shell, of the handlers and of the children. -/
lemma KeyedStep.forwards (h : KeyedStep x x') (hone : OneForeground x.shell)
    (ht : Tracked x.shell) (hx : ∀ g p, x.tempPid g = some p → p ≠ 0 → x.Forwards p) (g : Key)
    (p : ℕ) (hg : x'.tempPid g = some p) (hp : p ≠ 0) : x'.Forwards p := by
  cases h with
  | main hkeys hidle h =>
    have hnone := hkeys g
    rw [show x.tempPid g = some p from hg] at hnone
    cases hnone
  | handler hrun h => exact (hx g p hg hp).handlerStep ht hp h
  | kernel h =>
    obtain ⟨hwaits, hstate⟩ := hx g p hg hp
    cases h with
    | stop q h => exact ⟨hwaits, hstate⟩
    | terminate q h hst => exact ⟨hwaits, hstate⟩
    | cont q notify => exact ⟨by simpa using hwaits, by simpa using hstate⟩
  | setpgid q h => exact ⟨(hx g p hg hp).waits, (hx g p hg hp).state⟩
  | fgpid g' hrun hmask h =>
    rcases update_eq_some hg with hnew | hold
    · obtain rfl := Option.some.inj hnew
      have hf := Keyed.forwards_fgpid hone ht hmask hp
      exact ⟨hf.waits, hf.state⟩
    · exact ⟨(hx g p hold hp).waits, (hx g p hold hp).state⟩
  | skip g' h =>
    have hold := (update_eq_some hg).resolve_left (fun h => nomatch h)
    exact ⟨(hx g p hold hp).waits, (hx g p hold hp).state⟩
  | kill g' h hq =>
    have hold := (update_eq_some hg).resolve_left (fun h => nomatch h)
    exact ⟨(hx g p hold hp).waits, (hx g p hold hp).state⟩
  | killError => cases hg
  | quit => cases hg

/-- **Whom signals are sent to.** In every run, and wherever the handlers interrupt each other:
when `sigint_handler` or `sigtstp_handler` is about to send a signal and the shell has not exited,
`waitfg` runs or `do_bgfg` is about to call it for a job that it continues; and the process group
is that of a job that was in the foreground when the handler looked for it and that has at most
stopped or ended since. Nothing is sent while the shell reads a command line, and nothing is ever
sent to a job in the background. -/
theorem forwards_of_reachable (h : KeyedReachableIf ok x) (hread : x.tempPid g = some p)
    (hp : p ≠ 0) : (x.shell.main ≠ .exited → x.shell.main.Waits) ∧
      ∀ i, (x.shell.jobs.slots i).pid = p →
        (x.shell.jobs.slots i).state = .fg ∨ (x.shell.jobs.slots i).state = .st := by
  have hinv : ∀ g p, x.tempPid g = some p → p ≠ 0 → x.Forwards p := by
    refine Reachability.Reachable.invariant
      (P := fun x => ∀ g p, x.tempPid g = some p → p ≠ 0 → x.Forwards p) ?_ ?_ h
    · rintro x rfl g p hg
      cases hg
    · rintro x x' hreach hx ⟨-, hstep⟩
      have hshell : Reachable x.shell := KeyedReachableIf.shell hreach
      exact hstep.forwards (ReachableIf.oneForeground hshell) (ReachableIf.tracked hshell) hx
  exact ⟨(hinv g p hread hp).waits, (hinv g p hread hp).state⟩

/-- The user types ctrl-c while `/bin/ls` runs. -/
theorem forwards_of_reachable_ls : ∃ x : Keyed, x.tempPid .int = some 1 ∧
    x.shell.main.Waits ∧ ∀ i, (x.shell.jobs.slots i).pid = 1 →
      (x.shell.jobs.slots i).state = .fg ∨ (x.shell.jobs.slots i).state = .st := by
  obtain ⟨x, h, hread, -, hrun⟩ := exists_orderly
  obtain ⟨hwaits, hstate⟩ := forwards_of_reachable h hread (by decide)
  exact ⟨x, hread, hwaits hrun, hstate⟩

/-! ## When signals are refused -/

/-- Jobs have their groups, and so does the one that a handler has found. -/
structure Keyed.Reaches (x : Keyed) : Prop where
  jobs : ∀ i, (x.shell.jobs.slots i).pid ≠ 0 →
    x.shell.children (x.shell.jobs.slots i).pid ≠ none →
      x.grouped (x.shell.jobs.slots i).pid = true
  found : ∀ g p, x.tempPid g = some p → p ≠ 0 → x.shell.handler = .idle → x.HasGroup p

/-- `main` puts no pid into the list but that of a new job. -/
lemma MainStep.pid_cases {s s' : Shell} (ht : Tracked s) (h : MainStep s s') (i : Fin MAXJOBS) :
    (s'.jobs.slots i).pid = (s.jobs.slots i).pid ∨
      ∃ c b, s.main = .add c b (s'.jobs.slots i).pid ∧
        s'.main = .unblock b (s'.jobs.slots i).pid := by
  cases h with
  | @add cmdline bg pid h =>
    obtain ⟨hchild, -⟩ := ht.adding cmdline bg pid h
    obtain ⟨j, hj, hslots⟩ | ⟨-, hjobs⟩ :=
      JobList.addjob_cases s.jobs (if bg then .bg else .fg) cmdline (ht.pos pid hchild)
    · dsimp only
      rw [hslots]
      by_cases hij : i = j
      · subst hij
        exact .inr ⟨cmdline, bg, by simpa using h, by simp⟩
      · rw [Function.update_of_ne hij]
        exact .inl rfl
    · exact .inl (by rw [hjobs])
  | mark h => exact .inl JobList.setState_pid
  | raise h => exact .inl JobList.setState_pid
  | resume notify h => exact .inl (by simp)
  | _ => exact .inl rfl

/-- `sigchld_handler` puts no pid into the list. -/
lemma HandlerStep.pid_cases {s s' : Shell} (ht : Tracked s) (h : HandlerStep s s')
    (i : Fin MAXJOBS) : (s'.jobs.slots i).pid = (s.jobs.slots i).pid ∨
      (s'.jobs.slots i).pid = 0 := by
  cases h with
  | markStopped h hi => exact .inl JobList.setState_pid
  | @delete pid h =>
    have hpos := (ht.noted h).1
    by_cases hp : (s.jobs.slots i).pid = pid
    · obtain ⟨j, hj, hslots⟩ | ⟨hne, -⟩ := JobList.deletejob_cases s.jobs hpos
      · obtain rfl : i = j := ht.distinct i j (by omega) (hp.trans hj.symm)
        refine .inr ?_
        dsimp only
        rw [hslots, Function.update_self]
        rfl
      · exact absurd hp (hne i)
    · exact .inl (by rw [JobList.deletejob_slots hpos hp])
  | _ => exact .inl rfl

/-- `sigchld_handler` creates no child, and reaps none when it is entered. -/
lemma HandlerStep.children_of_ne_none {s s' : Shell} (h : HandlerStep s s') {p : ℕ}
    (hp : s'.children p ≠ none) : s.children p ≠ none := by
  cases h with
  | stopped pid h hpid => exact (Shell.setChild_eq_none (by simp [hpid]) p).not.1 hp
  | terminated pid h hpid =>
    intro hnone
    refine hp ?_
    change Function.update s.children pid none p = none
    by_cases hpp : p = pid
    · rw [hpp, Function.update_self]
    · rw [Function.update_of_ne hpp, hnone]
  | _ => exact hp

/-- The kernel neither creates nor reaps a child. -/
lemma KernelStep.children_eq_none {s s' : Shell} (h : KernelStep s s') (p : ℕ) :
    s'.children p = none ↔ s.children p = none := by
  cases h with
  | stop pid h => exact Shell.setChild_eq_none (by simp [h]) p
  | terminate pid h hst => exact Shell.setChild_eq_none (by simp [h]) p
  | cont pid notify => exact Shell.signalCont_children_eq_none p

/-- The kernel leaves the job list and the handler alone. -/
lemma KernelStep.same {s s' : Shell} (h : KernelStep s s') :
    s'.jobs = s.jobs ∧ s'.handler = s.handler := by
  cases h with
  | cont pid notify => simp
  | _ => exact ⟨rfl, rfl⟩

/-- The job that `fgpid` finds while `sigchld_handler` does not run has its group. -/
lemma Keyed.Reaches.fgpid (hx : x.Reaches) (ht : Tracked x.shell)
    (hidle : x.shell.handler = .idle) (hp : x.shell.jobs.fgpid ≠ 0) :
    x.HasGroup x.shell.jobs.fgpid := by
  have hpos : 0 < x.shell.jobs.fgpid := Nat.pos_of_ne_zero hp
  obtain ⟨i, -, hpid⟩ := JobList.exists_of_fgpid rfl hpos
  rw [← hpid] at hp ⊢
  have hchild := ht.child hidle hp
  exact ⟨hchild, hx.jobs i hp hchild⟩

/-- An orderly step. -/
lemma Keyed.Reaches.step (hx : x.Reaches) (ht : Tracked x.shell) (hok : x.Orderly x')
    (h : KeyedStep x x') : x'.Reaches := by
  cases h with
  | @main s hkeys hidle h =>
    refine ⟨fun i hi _ => ?_, fun g p hg => ?_⟩
    · dsimp only at hi ⊢
      rw [Bool.and_eq_true, Option.isSome_iff_ne_none]
      rcases h.pid_cases ht i with heq | ⟨c, b, hadd, hadded⟩
      · rw [heq] at hi ⊢
        have hchild := ht.child hidle hi
        exact ⟨hx.jobs i hi hchild, hchild⟩
      · exact ⟨hok.added c b _ hadd hadded, (ht.adding c b _ hadd).1⟩
    · rw [show x.tempPid g = none from hkeys g] at hg
      cases hg
  | @handler s hrun h =>
    refine ⟨fun i hi hc => ?_, fun g p hg hp hidle' => ?_⟩
    · rcases h.pid_cases ht i with heq | hzero
      · dsimp only at hi hc ⊢
        rw [heq] at hi hc ⊢
        exact hx.jobs i hi (h.children_of_ne_none hc)
      · exact absurd hzero hi
    · have hidle := hok.alone g p hg hp
      cases h with
      | enter => cases hidle'
      | unchanged h =>
        rw [hidle] at h
        cases h
      | waitpidError h =>
        rw [hidle] at h
        cases h
      | markStopped h =>
        rw [hidle] at h
        cases h
      | delete h =>
        rw [hidle] at h
        cases h
      | _ => cases hidle'
  | @kernel s h =>
    obtain ⟨hjobs, hhandler⟩ := h.same
    refine ⟨fun i hi hc => ?_, fun g p hg hp hidle => ?_⟩
    · dsimp only at hi hc ⊢
      rw [hjobs] at hi hc ⊢
      exact hx.jobs i hi ((h.children_eq_none _).not.1 hc)
    · obtain ⟨hc, hgroup⟩ := hx.found g p hg hp (hhandler ▸ hidle)
      exact ⟨(h.children_eq_none p).not.2 hc, hgroup⟩
  | setpgid q h =>
    have hmore (p : ℕ) (hp : x.grouped p = true) : Function.update x.grouped q true p = true := by
      by_cases hpq : p = q
      · rw [hpq, Function.update_self]
      · rw [Function.update_of_ne hpq, hp]
    refine ⟨fun i hi hc => hmore _ (hx.jobs i hi hc), fun g p hg hp hidle => ?_⟩
    obtain ⟨hc, hgroup⟩ := hx.found g p hg hp hidle
    exact ⟨hc, hmore p hgroup⟩
  | fgpid g' hrun hmask h =>
    refine ⟨hx.jobs, fun g p hg hp hidle => ?_⟩
    rcases update_eq_some hg with hnew | hold
    · obtain rfl := Option.some.inj hnew
      exact hx.fgpid ht hidle hp
    · exact hx.found g p hold hp hidle
  | skip g' h =>
    exact ⟨hx.jobs, fun g p hg hp => hx.found g p
      ((update_eq_some hg).resolve_left fun h => nomatch h) hp⟩
  | kill g' h hq =>
    exact ⟨hx.jobs, fun g p hg hp => hx.found g p
      ((update_eq_some hg).resolve_left fun h => nomatch h) hp⟩
  | killError => exact ⟨hx.jobs, fun g p hg => nomatch hg⟩
  | quit => exact ⟨hx.jobs, fun g p hg => nomatch hg⟩

/-- **No signal is refused** in a run in which every child has called `setpgid` before its job is
added and `sigchld_handler` does not run between the search for a foreground job and the sending
of the signal: the job that a handler has found has not been reaped, and its group exists. -/
theorem reaches_of_orderly (h : KeyedReachableIf Keyed.Orderly x) (hidle : x.shell.handler = .idle)
    (hread : x.tempPid g = some p) (hp : p ≠ 0) : x.HasGroup p := by
  have hx : x.Reaches := by
    refine Reachability.Reachable.invariant (P := Keyed.Reaches) ?_ ?_ h
    · rintro x rfl
      exact ⟨fun i hi => absurd rfl hi, fun g p hg => nomatch hg⟩
    · rintro x x' hreach hx ⟨hok, hstep⟩
      have hshell : Reachable x.shell := KeyedReachableIf.shell hreach
      exact hx.step (ReachableIf.tracked hshell) hok hstep
  exact hx.found g p hread hp hidle

/-- The user types ctrl-c while `/bin/ls` runs. -/
theorem reaches_of_orderly_ls : ∃ x : Keyed, x.tempPid .int = some 1 ∧ x.HasGroup 1 := by
  obtain ⟨x, h, hread, hidle, -⟩ := exists_orderly
  exact ⟨x, hread, reaches_of_orderly h hidle hread (by decide)⟩

/-- The child has not called `setpgid` yet, the signal is refused, and the shell exits. -/
theorem exists_refused : ∃ x x', KeyedReachableIf (fun _ _ => True) x ∧
    x.tempPid .int = some 1 ∧ KeyedStep x x' ∧ x'.shell.main = .exited := by
  obtain ⟨grouped, h, hnone⟩ := exists_forked
  have hrun : KeyedReachableIf (fun _ _ => True) ⟨.forked, fun _ => none, grouped⟩ :=
    Reachability.Reachable.mono (fun _ _ hstep => ⟨trivial, hstep.2⟩) h
  obtain ⟨x, hx, hread, hidle, -, hgroup⟩ := exists_interrupted hrun fun _ _ _ _ => trivial
  have hno : ¬ x.HasGroup 1 := by
    rintro ⟨-, hyes⟩
    rw [hgroup, hnone] at hyes
    cases hyes
  exact ⟨x, _, hx, hread, .killError .int hread (by decide) hno, rfl⟩

end Tsh
