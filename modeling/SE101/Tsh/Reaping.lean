import SE101.Tsh.Pids

set_option relaxedAutoImplicit false
set_option autoImplicit false

/-!
# Lost state changes of children

The kernel keeps one bit for any number of changes, and the handler asks for one of them. If no
two changes wait for the handler, then none is lost: whenever the handler has nothing to do, the
job list says what has become of the children.

## Main definitions

* `Tsh.Collected` — the job list says what has become of the children.
* `Tsh.ReportsAlone`, `Tsh.RaisesReported` — conditions on the states from which a run goes on.
* `Tsh.Announced`, `Tsh.Noticed` — the invariants.

## Main results

* `Tsh.collected_of_alone` — in a run that meets the conditions, no change is lost.
* `Tsh.exists_not_collected` — a run that loses one.

## Design

`do_bgfg` writes the new state of a stopped job before it sends `SIGCONT`. In between, at the
location `Main.resume`, a stopped child has a job that is not stopped.
-/

namespace Tsh

open CString

/-- Every child that has terminated is reaped, every child that is reaped is deleted from the job
list, and every child that has stopped has a job that is stopped. -/
structure Collected (s : Shell) : Prop where
  reaped : ∀ p, s.children p ≠ some .zombie
  deleted : ∀ i, (s.jobs.slots i).pid ≠ 0 → s.children (s.jobs.slots i).pid ≠ none
  stopped : ∀ p b, s.children p = some (.stopped b) →
    ∃ i, (s.jobs.slots i).pid = p ∧ (s.jobs.slots i).state = .st

/-- When the handler calls `waitpid`, only one child has an unreported change, or the next
`SIGCHLD` is pending already. -/
def ReportsAlone (s : Shell) : Prop := s.handler = .entered → s.pending = true ∨
  ∀ p q, s.Unreported p → s.Unreported q → p = q

/-- When `fg` puts a background job into the foreground, the handler has not been told in the
meantime that it has stopped. -/
def RaisesRunning (s : Shell) : Prop :=
  ∀ i, s.main = .raise i → s.children (s.jobs.slots i).pid ≠ some (.stopped true)

/-- A change that the handler does not know of will be announced to it. -/
def Announced (s : Shell) : Prop :=
  ∀ p, s.Unreported p → s.pending = true ∨ s.handler = .entered

/-- A child whose stop was reported has a job that is stopped, unless the handler or `main` are
about to change one or the other. -/
def Noticed (s : Shell) : Prop :=
  ∀ p, s.children p = some (.stopped true) →
    (∃ i, (s.jobs.slots i).pid = p ∧ (s.jobs.slots i).state = .st) ∨
    s.handler.Handles p true ∨ s.handler = .crashed ∨ s.main = .exited ∨
    ∃ cmd i, s.main = .resume cmd i ∧ (s.jobs.slots i).pid = p

variable {s s' : Shell}

/-! ## Announcements -/

namespace Announced

/-- No change is unreported before the first command. -/
lemma start : Announced Shell.start := by
  rintro p ⟨st, h, -⟩
  cases h

/-- A step that makes no change and leaves the handler alone. -/
lemma of_same (hs : Announced s) (hpending : s.pending = true → s'.pending = true)
    (hhandler : s'.handler = s.handler)
    (hchildren : ∀ p, s'.Unreported p → s.Unreported p) : Announced s' := by
  intro p hp
  rw [hhandler]
  exact (hs p (hchildren p hp)).imp_left hpending

/-- A running child has no unreported change. -/
lemma unreported_setChild_running {p pid : ℕ} (h : (s.setChild pid .running).Unreported p) :
    s.Unreported p := by
  obtain ⟨st, hst, hu⟩ := h
  by_cases hp : p = pid
  · have he : Status.running = st := by simpa [Shell.setChild, hp] using hst
    rw [← he] at hu
    exact hu.elim
  · exact ⟨st, by simpa [Shell.setChild, hp] using hst, hu⟩

/-- `SIGCONT` makes no change. -/
lemma unreported_signalCont {p pid : ℕ} {notify : Bool}
    (h : (s.signalCont pid notify).Unreported p) : s.Unreported p := by
  obtain ⟨st, hst, hu⟩ := h
  obtain he | ⟨-, -, he⟩ := Shell.signalCont_children s pid notify p
  · exact ⟨st, by rw [← he]; exact hst, hu⟩
  · rw [he] at hst
    cases hst
    exact hu.elim

/-- A step after `waitpid` that makes no change. -/
lemma of_handler (hs : Announced s) (hhandler : s.handler ≠ .entered)
    (hpending : s'.pending = s.pending) (hchildren : s'.children = s.children) :
    Announced s' := by
  rintro p ⟨st, hst, hu⟩
  rw [hpending]
  exact .inl ((hs p ⟨st, by rw [← hchildren]; exact hst, hu⟩).resolve_right hhandler)

/-- `waitpid` returns the only child with an unreported change. -/
lemma of_report {pid : ℕ}
    (halone : s.pending = true ∨ ∀ p q, s.Unreported p → s.Unreported q → p = q)
    (hpid : s.Unreported pid) (hpending : s'.pending = s.pending) (hself : ¬ s'.Unreported pid)
    (hother : ∀ p, p ≠ pid → s'.children p = s.children p) : Announced s' := by
  intro p hp
  rw [hpending]
  refine .inl (halone.resolve_right fun hone => ?_)
  by_cases hpp : p = pid
  · exact hself (hpp ▸ hp)
  · obtain ⟨st, hst, hu⟩ := hp
    exact hpp (hone p pid ⟨st, by rw [← hother p hpp]; exact hst, hu⟩ hpid)

/-- A step of `main`. -/
lemma mainStep (hs : Announced s) (h : MainStep s s') : Announced s' := by
  cases h with
  | fork pid h hpos hnew => exact hs.of_same id rfl fun _ => unreported_setChild_running
  | resume notify h =>
    exact hs.of_same Shell.signalCont_pending Shell.signalCont_handler
      fun _ => unreported_signalCont
  | _ => exact hs.of_same id rfl fun _ => id

/-- A step of the handler. -/
lemma handlerStep (hs : Announced s) (halone : ReportsAlone s) (h : HandlerStep s s') :
    Announced s' := by
  cases h with
  | enter h hp hb => exact fun _ _ => .inr rfl
  | stopped pid h hpid =>
    refine of_report (halone h) ⟨_, hpid, rfl⟩ rfl ?_ fun p hp => by simp [Shell.setChild, hp]
    rintro ⟨st, hst, hu⟩
    have he : Status.stopped true = st := by simpa [Shell.setChild] using hst
    rw [← he] at hu
    cases hu
  | terminated pid h hpid =>
    refine of_report (halone h) ⟨_, hpid, trivial⟩ rfl ?_ fun p hp => by simp [Shell.reap, hp]
    rintro ⟨st, hst, -⟩
    simp [Shell.reap] at hst
  | unchanged h hpid hnone => exact fun p hp => absurd hp (hnone p)
  | waitpidError h hnone =>
    rintro p ⟨st, hst, -⟩
    have hp : s.children p = some st := hst
    rw [hnone p] at hp
    cases hp
  | note h => exact hs.of_handler (by simp [h]) rfl rfl
  | markStopped h hi => exact hs.of_handler (by simp [h]) rfl rfl
  | crash h hi => exact hs.of_handler (by simp [h]) rfl rfl
  | delete h => exact hs.of_handler (by simp [h]) rfl rfl

/-- **Announcements.** Every step keeps unreported changes announced, if `waitpid` does not leave
one behind. -/
theorem step (hs : Announced s) (halone : ReportsAlone s) (h : Step s s') : Announced s' := by
  cases h with
  | main hidle h => exact hs.mainStep h
  | handler hrun h => exact hs.handlerStep halone h
  | signal h => cases h <;> exact hs.of_same id rfl fun _ => id
  | kernel h =>
    cases h with
    | stop pid h => exact fun _ _ => .inl rfl
    | terminate pid h hst => exact fun _ _ => .inl rfl
    | cont pid notify =>
      exact hs.of_same Shell.signalCont_pending Shell.signalCont_handler
        fun _ => unreported_signalCont

end Announced

/-! ## Stopped jobs -/

namespace Noticed

/-- No child has stopped before the first command. -/
lemma start : Noticed Shell.start := fun _ h => nomatch h

/-- A step that stops no child and leaves the slots of stopped children alone. -/
lemma of_same (hs : Noticed s)
    (hchildren : ∀ p, s'.children p = some (.stopped true) → s.children p = some (.stopped true))
    (hslots : ∀ p i, s'.children p = some (.stopped true) → (s.jobs.slots i).pid = p →
      s'.jobs.slots i = s.jobs.slots i)
    (hhandles : ∀ p, s.handler.Handles p true → s'.handler.Handles p true)
    (hcrash : s.handler = .crashed → s'.handler = .crashed)
    (hexit : s.main = .exited → s'.main = .exited)
    (hresume : ∀ cmd i, s.main = .resume cmd i → s'.main = .resume cmd i) : Noticed s' := by
  intro p hp
  obtain ⟨i, hi, hst⟩ | h | h | h | ⟨cmd, i, h, hi⟩ := hs p (hchildren p hp)
  · exact .inl ⟨i, by rw [hslots p i hp hi]; exact ⟨hi, hst⟩⟩
  · exact .inr (.inl (hhandles p h))
  · exact .inr (.inr (.inl (hcrash h)))
  · exact .inr (.inr (.inr (.inl (hexit h))))
  · exact .inr (.inr (.inr (.inr ⟨cmd, i, hresume cmd i h, by rw [hslots p i hp hi]; exact hi⟩)))

/-- A step of `main` that changes nothing but its location. -/
lemma of_main (hs : Noticed s) (hchildren : s'.children = s.children) (hjobs : s'.jobs = s.jobs)
    (hhandler : s'.handler = s.handler)
    (hmain : s.main ≠ .exited ∧ ∀ cmd i, s.main ≠ .resume cmd i) : Noticed s' := by
  refine hs.of_same (fun p hp => by rw [← hchildren]; exact hp) (fun p i _ _ => by rw [hjobs])
    (fun p => by rw [hhandler]; exact id) (fun h => by rw [hhandler]; exact h)
    (fun h => absurd h hmain.1) (fun cmd i h => absurd h (hmain.2 cmd i))

/-- A child whose stop was reported has a job that is stopped. -/
lemma slot (hs : Noticed s) (hidle : s.handler = .idle)
    (hmain : s.main ≠ .exited ∧ ∀ cmd i, s.main ≠ .resume cmd i) {p : ℕ}
    (hp : s.children p = some (.stopped true)) :
    ∃ i, (s.jobs.slots i).pid = p ∧ (s.jobs.slots i).state = .st := by
  obtain h | h | h | h | ⟨cmd, i, h, -⟩ := hs p hp
  · exact h
  · rw [hidle] at h
    exact h.elim
  · rw [hidle] at h
    cases h
  · exact absurd h hmain.1
  · exact absurd h (hmain.2 cmd i)

/-- A child that is forked runs. -/
lemma fork (hs : Noticed s) (hidle : s.handler = .idle)
    (hmain : s.main ≠ .exited ∧ ∀ cmd i, s.main ≠ .resume cmd i) {pid : ℕ} {m : Main} :
    Noticed { s.setChild pid .running with main := m } := by
  intro p hp
  have hp' : s.children p = some (.stopped true) := by
    by_cases hpp : p = pid
    · simp [Shell.setChild, hpp] at hp
    · simpa [Shell.setChild, hpp] using hp
  exact .inl (hs.slot hidle hmain hp')

/-- A job is added to a free slot. -/
lemma add (hs : Noticed s) (ht : Tracked s) (hidle : s.handler = .idle)
    {cmdline : List LittleEndian.Byte} {bg : Bool} {pid : ℕ} (h : s.main = .add cmdline bg pid)
    {state : JobState} : Noticed { s with
      main := .unblock bg pid
      jobs := (s.jobs.addjob pid state cmdline).2 } := by
  intro p hp
  obtain ⟨i, hi, hst⟩ := hs.slot hidle (by simp [h]) hp
  refine .inl ⟨i, ?_⟩
  obtain ⟨j, hj, hslots⟩ | ⟨-, hjobs⟩ :=
        JobList.addjob_cases s.jobs state cmdline (ht.pos pid (ht.adding cmdline bg pid h).1)
  · have hij : i ≠ j := by
      rintro rfl
      have := ht.pos p (by rw [show s.children p = _ from hp]; simp)
      omega
    dsimp only
    rw [hslots, Function.update_of_ne hij]
    exact ⟨hi, hst⟩
  · rw [hjobs]
    exact ⟨hi, hst⟩

/-- The job of a stopped child is marked, and `main` is about to continue the child. -/
lemma mark (hs : Noticed s) (hidle : s.handler = .idle) {cmd : Bgfg} {i : Fin MAXJOBS}
    (h : s.main = .mark cmd i) : Noticed { s with
      main := .resume cmd i
      jobs := s.jobs.setState cmd.state i } := by
  intro p hp
  obtain ⟨j, hj, hst⟩ := hs.slot hidle (by simp [h]) hp
  by_cases hji : j = i
  · subst hji
    exact .inr (.inr (.inr (.inr ⟨cmd, j, rfl, JobList.setState_pid.trans hj⟩)))
  · refine .inl ⟨j, ?_⟩
    dsimp only
    rw [JobList.setState_slots, Function.update_of_ne hji]
    exact ⟨hj, hst⟩

/-- The job of a child whose stop was not reported is put into the foreground. -/
lemma raise (hs : Noticed s) (hidle : s.handler = .idle) {i : Fin MAXJOBS} (h : s.main = .raise i)
    (hraise : s.children (s.jobs.slots i).pid ≠ some (.stopped true)) : Noticed { s with
      main := .reset .doBgfg
      jobs := s.jobs.setState .fg i } := by
  intro p hp
  obtain ⟨j, hj, hst⟩ := hs.slot hidle (by simp [h]) hp
  have hji : j ≠ i := by
    rintro rfl
    exact hraise (hj ▸ hp)
  refine .inl ⟨j, ?_⟩
  dsimp only
  rw [JobList.setState_slots, Function.update_of_ne hji]
  exact ⟨hj, hst⟩

/-- `SIGCONT` stops no child. -/
lemma stopped_of_signalCont {p pid : ℕ} {notify b : Bool}
    (hp : (s.signalCont pid notify).children p = some (.stopped b)) :
    s.children p = some (.stopped b) ∧ p ≠ pid := by
  have hne : p ≠ pid := by
    rintro rfl
    exact Shell.signalCont_self b hp
  obtain he | ⟨he, -⟩ := Shell.signalCont_children s pid notify p
  · exact ⟨he ▸ hp, hne⟩
  · exact absurd he hne

/-- The child whose job was marked is continued. -/
lemma resume (hs : Noticed s) (hidle : s.handler = .idle) {cmd : Bgfg} {i : Fin MAXJOBS}
    {notify : Bool} {m : Main} (h : s.main = .resume cmd i) :
    Noticed { s.signalCont (s.jobs.slots i).pid notify with main := m } := by
  intro p hp
  obtain ⟨hp, hne⟩ := stopped_of_signalCont hp
  left
  dsimp only
  rw [Shell.signalCont_jobs]
  obtain h' | h' | h' | h' | ⟨cmd', j, h', hj⟩ := hs p hp
  · exact h'
  · rw [hidle] at h'
    exact h'.elim
  · rw [hidle] at h'
    cases h'
  · rw [h] at h'
    cases h'
  · rw [h] at h'
    cases h'
    exact absurd hj.symm hne

/-- A step of `main`. -/
lemma mainStep (hs : Noticed s) (hraise : RaisesRunning s) (ht : Tracked s)
    (hidle : s.handler = .idle) (h : MainStep s s') : Noticed s' := by
  cases h with
  | read cmdline h => exact hs.of_main rfl rfl rfl (by simp [h])
  | eof h => exact hs.of_main rfl rfl rfl (by simp [h])
  | block h => exact hs.of_main rfl rfl rfl (by simp [h])
  | fork pid h hpos hnew => exact hs.fork hidle (by simp [h])
  | forkError h => exact hs.of_main rfl rfl rfl (by simp [h])
  | add h => exact hs.add ht hidle h
  | unblock h => exact hs.of_main rfl rfl rfl (by simp [h])
  | lookup h => exact hs.of_main rfl rfl rfl (by simp [h])
  | switch h => exact hs.of_main rfl rfl rfl (by simp [h])
  | mark h => exact hs.mark hidle h
  | raise h => exact hs.raise hidle h (hraise _ h)
  | resume notify h => exact hs.resume hidle h
  | killError h => exact fun _ _ => .inr (.inr (.inr (.inl rfl)))
  | reset h => exact hs.of_main rfl rfl rfl (by simp [h])
  | sleep h hr => exact hs
  | wake h hr => exact hs.of_main rfl rfl rfl (by simp [h])

/-- `waitpid` returns a child, which the handler deals with if it has stopped. -/
lemma of_report (hs : Noticed s) {pid : ℕ} {stopped : Bool} (h : s.handler = .entered)
    (hhandler : s'.handler = .reported pid stopped) (hmain : s'.main = s.main)
    (hjobs : s'.jobs = s.jobs) (hself : s'.children pid = some (.stopped true) → stopped = true)
    (hother : ∀ p, p ≠ pid → s'.children p = s.children p) : Noticed s' := by
  intro p hp
  rw [hjobs, hmain]
  by_cases hpp : p = pid
  · subst hpp
    rw [hhandler, hself hp]
    exact .inr (.inl ⟨rfl, rfl⟩)
  · rw [hother p hpp] at hp
    obtain h' | h' | h' | h' := hs p hp
    · exact .inl h'
    · rw [h] at h'
      exact h'.elim
    · rw [h] at h'
      cases h'
    · exact .inr (.inr (.inr h'))

/-- The handler changes the slot of the child that it deals with. -/
lemma of_noted (hs : Noticed s) {pid : ℕ} {stopped : Bool} (h : s.handler = .noted pid stopped)
    (hmain : s'.main = s.main) (hchildren : s'.children = s.children)
    (hother : ∀ i, (s.jobs.slots i).pid ≠ pid → s'.jobs.slots i = s.jobs.slots i)
    (hself : s.children pid ≠ some (.stopped true) ∨
      ∃ i, (s'.jobs.slots i).pid = pid ∧ (s'.jobs.slots i).state = .st) : Noticed s' := by
  intro p hp
  rw [hchildren] at hp
  rw [hmain]
  by_cases hpp : p = pid
  · subst hpp
    exact .inl (hself.resolve_left (not_not_intro hp))
  · obtain ⟨i, hi, hst⟩ | h' | h' | h' | ⟨cmd, i, h', hi⟩ := hs p hp
    · exact .inl ⟨i, by rw [hother i (by omega)]; exact ⟨hi, hst⟩⟩
    · rw [h] at h'
      exact absurd h'.1.symm hpp
    · rw [h] at h'
      cases h'
    · exact .inr (.inr (.inr (.inl h')))
    · exact .inr (.inr (.inr (.inr ⟨cmd, i, h', by rw [hother i (by omega)]; exact hi⟩)))

/-- A step of the handler. -/
lemma handlerStep (hs : Noticed s) (ht : Tracked s) (h : HandlerStep s s') : Noticed s' := by
  cases h with
  | enter h hp hb =>
    exact hs.of_same (fun _ => id) (fun _ _ _ _ => rfl) (fun p => by rw [h]; exact id) (by simp [h])
      id fun _ _ => id
  | @stopped pid h hpid =>
    exact hs.of_report h rfl rfl rfl (fun _ => rfl) fun p hp => by simp [Shell.setChild, hp]
  | @terminated pid h hpid =>
    refine hs.of_report h rfl rfl rfl (fun hp => ?_) fun p hp => by simp [Shell.reap, hp]
    simp [Shell.reap] at hp
  | unchanged h hpid hnone =>
    exact hs.of_same (fun _ => id) (fun _ _ _ _ => rfl) (fun p => by rw [h]; exact id) (by simp [h])
      id fun _ _ => id
  | waitpidError h hnone => exact fun _ _ => .inr (.inr (.inr (.inl rfl)))
  | note h =>
    exact hs.of_same (fun _ => id) (fun _ _ _ _ => rfl) (fun p => by rw [h]; exact id) (by simp [h])
      id fun _ _ => id
  | @markStopped pid i h hi =>
    refine hs.of_noted h rfl rfl (fun _ => JobList.setState_slots_of_pid_ne hi) (.inr ⟨i, ?_⟩)
    exact ⟨JobList.setState_pid.trans (JobList.pid_of_getjobpid hi), by simp⟩
  | crash h hi => exact fun _ _ => .inr (.inr (.inl rfl))
  | @delete pid h =>
    obtain ⟨hpos, hnone⟩ := ht.noted h
    exact hs.of_noted h rfl rfl (fun _ => JobList.deletejob_slots hpos)
      (.inl (by simp [hnone.2 rfl]))

/-- A child gets a status other than that of a reported stop. -/
lemma of_setChild (hs : Noticed s) {pid : ℕ} {st : Status} (hst : st ≠ .stopped true)
    {pending : Bool} : Noticed { s.setChild pid st with pending := pending } := by
  refine hs.of_same (fun p hp => ?_) (fun _ _ _ _ => rfl) (fun _ => id) id id fun _ _ => id
  by_cases hpp : p = pid
  · exact absurd (by simpa [Shell.setChild, hpp] using hp) hst
  · simpa [Shell.setChild, hpp] using hp

/-- **Stopped jobs.** Every step keeps the jobs of the children whose stop was reported stopped, if
`fg` does not overwrite the state of one. -/
theorem step (hs : Noticed s) (hraise : RaisesRunning s) (ht : Tracked s) (h : Step s s') :
    Noticed s' := by
  cases h with
  | main hidle h => exact hs.mainStep hraise ht hidle h
  | handler hrun h => exact hs.handlerStep ht h
  | signal h => cases h <;> exact fun _ _ => .inr (.inr (.inr (.inl rfl)))
  | kernel h =>
    cases h with
    | stop pid h => exact hs.of_setChild (by simp)
    | terminate pid h hst => exact hs.of_setChild (by simp)
    | cont pid notify =>
      exact hs.of_same (fun p hp => (stopped_of_signalCont hp).1) (by simp) (by simp) (by simp)
        (by simp) (by simp)

end Noticed

/-- **No lost change.** In a run in which `waitpid` never leaves a change behind and `fg` never
overwrites the state of a job that has just stopped, the job list says what has become of the
children, whenever the handler has nothing to do and `main` is not about to continue a child. -/
theorem collected_of_alone (s : Shell)
    (h : ReachableIf (fun s => ReportsAlone s ∧ RaisesRunning s) s)
    (hmain : s.main ≠ .exited ∧ ∀ cmd i, s.main ≠ .resume cmd i) (hpending : s.pending = false)
    (hidle : s.handler = .idle) : Collected s := by
  have ht := h.tracked
  have hs : Announced s ∧ Noticed s := by
    apply h.invariant ⟨Announced.start, Noticed.start⟩
    rintro s s' ⟨halone, hraise⟩ ht ⟨ha, hn⟩ hstep
    exact ⟨ha.step halone hstep, hn.step hraise ht hstep⟩
  have hreported : ∀ p, ¬ s.Unreported p := by
    intro p hp
    obtain h | h := hs.1 p hp
    · rw [hpending] at h
      cases h
    · rw [hidle] at h
      cases h
  refine ⟨fun p hp => hreported p ⟨_, hp, trivial⟩, fun i => ht.child hidle, fun p b hp => ?_⟩
  cases b with
  | false => exact absurd ⟨_, hp, rfl⟩ (hreported p)
  | true => exact hs.2.slot hidle hmain hp

/-- A child that has terminated and was reaped. -/
theorem collected_of_alone_reaped : ∃ s, s.children 1 = none ∧
    s.jobs.slots 0 = Job.clear ∧ Collected s := by
  have hok : ∀ s', s'.jobs = Shell.start.jobs → s'.handler = .idle → (∀ i, s'.main ≠ .raise i) →
      ReportsAlone s' ∧ RaisesRunning s' := by
    intro s' _ hidle hraise
    exact ⟨fun h => by simp [hidle] at h, fun i h => absurd h (hraise i)⟩
  have h₀ := ReachableIf.start.launch 1 hok rfl rfl eval_ls_bg (by decide) rfl
  have h₁ := h₀.step ⟨by rintro ⟨⟩, by rintro _ ⟨⟩⟩ (.main rfl (.unblock rfl))
  have h₂ := h₁.step ⟨by rintro ⟨⟩, by rintro _ ⟨⟩⟩ (.kernel (.terminate 1 rfl (by decide)))
  have h₃ := h₂.step ⟨by rintro ⟨⟩, by rintro _ ⟨⟩⟩ (.handler (by rintro ⟨⟩) (.enter rfl rfl rfl))
  -- There is no other child.
  have hone : ∀ p, p ≠ 1 → ((Shell.start.launched (ascii "/bin/ls &\n") true 1).setChild 1
      .zombie).children p = none := by
    intro p hp
    simp [Shell.setChild, Shell.launched, Shell.start, hp]
  have h₄ := h₃.step ⟨fun _ => .inr ?_, by rintro _ ⟨⟩⟩
    (.handler (by rintro ⟨⟩) (.terminated 1 rfl rfl))
  · have h₅ := h₄.step ⟨by rintro ⟨⟩, by rintro _ ⟨⟩⟩ (.handler (by rintro ⟨⟩) (.note rfl))
    have h₆ := h₅.step ⟨by rintro ⟨⟩, by rintro _ ⟨⟩⟩ (.handler (by rintro ⟨⟩) (.delete rfl))
    have hmain := collected_of_alone _ h₆ ⟨by rintro ⟨⟩, by rintro _ _ ⟨⟩⟩ rfl rfl
    exact ⟨_, rfl, by decide +kernel, hmain⟩
  · rintro p q ⟨st, hp, -⟩ ⟨st', hq, -⟩
    have hp' : p = 1 := by
      by_contra hne
      cases hp.symm.trans (hone p hne)
    have hq' : q = 1 := by
      by_contra hne
      cases hq.symm.trans (hone q hne)
    rw [hp', hq']

/-! ## A run that loses a change -/

/-- **A lost change.** Two children terminate before the handler runs; it runs once and reaps one
of them. -/
theorem exists_not_collected : ∃ s, Reachable s ∧
    (s.main ≠ .exited ∧ ∀ cmd i, s.main ≠ .resume cmd i) ∧ s.pending = false ∧
    s.handler = .idle ∧ ¬ Collected s := by
  have h₀ := ReachableIf.start.launch 1 (fun _ _ _ _ => trivial) rfl rfl eval_ls_bg (by decide) rfl
  have h₁ := h₀.step trivial (.main rfl (.unblock rfl))
  have h₂ := h₁.launch 2 (fun _ _ _ _ => trivial) rfl rfl eval_ls_bg (by decide) rfl
  have h₃ := h₂.step trivial (.main rfl (.unblock rfl))
  have h₄ := h₃.step trivial (.kernel (.terminate 1 rfl (by decide)))
  have h₅ := h₄.step trivial (.kernel (.terminate 2 rfl (by decide)))
  have h₆ := h₅.step trivial (.handler nofun (.enter rfl rfl rfl))
  have h₇ := h₆.step trivial (.handler nofun (.terminated 1 rfl rfl))
  have h₈ := h₇.step trivial (.handler nofun (.note rfl))
  have h₉ := h₈.step trivial (.handler nofun (.delete rfl))
  exact ⟨_, h₉, ⟨nofun, nofun⟩, rfl, rfl, fun hs => hs.reaped 2 rfl⟩

end Tsh
