import SE101.Tsh.Shell

set_option relaxedAutoImplicit false
set_option autoImplicit false

/-!
# The pids in the job list

The job list names no process that is gone: a pid in a slot is the pid of a child that has not
been reaped, or of the one whose end the handler is about to enter in the list. Hence a new child
is in no slot, and no two slots have the same pid.

## Main definitions

* `Tsh.Handler.Handles` — the handler deals with a child.
* `Tsh.Main.Critical` — `main` is in the critical section of `eval`.
* `Tsh.Tracked` — the invariant.

## Main results

* `Tsh.Tracked.step` — every step keeps it.
-/

namespace Tsh

open LittleEndian

/-- `waitpid` has returned the child to the handler, which has not changed the job list yet. -/
def Handler.Handles : Handler → ℕ → Bool → Prop
  | .reported p b, pid, stopped => p = pid ∧ b = stopped
  | .noted p b, pid, stopped => p = pid ∧ b = stopped
  | _, _, _ => False

/-- `main` is between blocking and unblocking `SIGCHLD`. -/
def Main.Critical : Main → Prop
  | .fork _ _ => True
  | .add _ _ _ => True
  | .unblock _ _ => True
  | _ => False

/-- The job list and the kernel agree on the pids. -/
structure Tracked (s : Shell) : Prop where
  pos : ∀ p, s.children p ≠ none → 0 < p
  distinct : ∀ i j, (s.jobs.slots i).pid ≠ 0 → (s.jobs.slots i).pid = (s.jobs.slots j).pid → i = j
  listed : ∀ i, (s.jobs.slots i).pid ≠ 0 →
    s.children (s.jobs.slots i).pid ≠ none ∨ s.handler.Handles (s.jobs.slots i).pid false
  handled : ∀ p b, s.handler.Handles p b → 0 < p ∧ (s.children p = none ↔ b = false)
  adding : ∀ c b p, s.main = .add c b p → s.children p ≠ none ∧ ∀ i, (s.jobs.slots i).pid ≠ p
  critical : s.main.Critical → s.blocked = true ∧ s.handler = .idle

namespace Tracked

variable {s s' : Shell}

/-- Nothing is listed before the first command. -/
lemma start : Tracked Shell.start where
  pos _ h := absurd rfl h
  distinct _ _ h _ := absurd rfl h
  listed _ h := absurd rfl h
  handled _ _ h := h.elim
  adding _ _ _ h := by cases h
  critical h := h.elim

/-- A step that neither changes a pid in the list nor creates or reaps a child. -/
lemma of_same (hs : Tracked s)
    (hpid : ∀ i, (s'.jobs.slots i).pid = (s.jobs.slots i).pid)
    (hchildren : ∀ p, s'.children p = none ↔ s.children p = none)
    (hreaped : ∀ p, s.handler.Handles p false → s'.handler.Handles p false)
    (hhandled : ∀ p b, s'.handler.Handles p b → 0 < p ∧ (s.children p = none ↔ b = false))
    (hadd : ∀ c b p, s'.main = .add c b p → s.main = .add c b p)
    (hcritical : s'.main.Critical → s'.blocked = true ∧ s'.handler = .idle) : Tracked s' where
  pos p h := hs.pos p ((hchildren p).not.1 h)
  distinct i j hi hij := by
    rw [hpid i] at hi hij
    rw [hpid j] at hij
    exact hs.distinct i j hi hij
  listed i hi := by
    rw [hpid i] at hi ⊢
    exact (hs.listed i hi).imp (hchildren _).not.2 (hreaped _)
  handled p b h := by
    rw [hchildren p]
    exact hhandled p b h
  adding c b p h := by
    obtain ⟨hp, hne⟩ := hs.adding c b p (hadd c b p h)
    exact ⟨(hchildren p).not.2 hp, fun i => by rw [hpid i]; exact hne i⟩
  critical := hcritical

/-- The child that `waitpid` has returned. -/
lemma reported (hs : Tracked s) {pid : ℕ} {stopped : Bool}
    (h : s.handler = .reported pid stopped) :
    0 < pid ∧ (s.children pid = none ↔ stopped = false) :=
  hs.handled pid stopped (by rw [h]; exact ⟨rfl, rfl⟩)

/-- The child whose job is about to be changed. -/
lemma noted (hs : Tracked s) {pid : ℕ} {stopped : Bool} (h : s.handler = .noted pid stopped) :
    0 < pid ∧ (s.children pid = none ↔ stopped = false) :=
  hs.handled pid stopped (by rw [h]; exact ⟨rfl, rfl⟩)

/-- While the handler does not run, every pid in the list is that of a child. -/
lemma child (hs : Tracked s) (hidle : s.handler = .idle) {i : Fin MAXJOBS}
    (hi : (s.jobs.slots i).pid ≠ 0) : s.children (s.jobs.slots i).pid ≠ none := by
  refine (hs.listed i hi).resolve_right ?_
  rw [hidle]
  exact id

/-- A step of `main` that changes nothing but its location, which is outside of the critical
section. -/
lemma of_main (hs : Tracked s) (hjobs : s'.jobs = s.jobs) (hchildren : s'.children = s.children)
    (hhandler : s'.handler = s.handler) (hmain : ¬ s'.main.Critical) : Tracked s' := by
  refine hs.of_same (fun i => by rw [hjobs]) (fun p => by rw [hchildren])
    (fun p => by rw [hhandler]; exact id) (fun p b => by rw [hhandler]; exact hs.handled p b)
    (fun c b p h => ?_) (fun h => absurd h hmain)
  exact absurd (by rw [h]; trivial) hmain

/-- A new child is in no slot. -/
lemma fork (hs : Tracked s) (hidle : s.handler = .idle) {cmdline : List Byte} {bg : Bool} {pid : ℕ}
    (hmain : s.main = .fork cmdline bg) (hpos : 0 < pid) (hnew : s.children pid = none) :
    Tracked { s.setChild pid .running with main := .add cmdline bg pid } where
  pos p hp := by
    by_cases hpp : p = pid
    · rw [hpp]; exact hpos
    · exact hs.pos p (by simpa [Shell.setChild, hpp] using hp)
  distinct := hs.distinct
  listed i hi := by
    left
    have hc := hs.child hidle hi
    have hne : (s.jobs.slots i).pid ≠ pid := fun he => hc (he ▸ hnew)
    simpa [Shell.setChild, hne] using hc
  handled p b h := by
    exact absurd h (by simp [Shell.setChild, hidle, Handler.Handles])
  adding c b p h := by
    cases h
    refine ⟨by simp [Shell.setChild], fun i he => ?_⟩
    have hi : (s.jobs.slots i).pid = pid := he
    exact hs.child hidle (by omega) (hi ▸ hnew)
  critical _ := ⟨(hs.critical (by rw [hmain]; trivial)).1, hidle⟩

/-- The new child takes a free slot. -/
lemma add (hs : Tracked s) {cmdline : List Byte} {bg : Bool} {pid : ℕ}
    (hmain : s.main = .add cmdline bg pid) {state : JobState} : Tracked { s with
      main := .unblock bg pid
      jobs := (s.jobs.addjob pid state cmdline).2 } := by
  have hcrit := hs.critical (by rw [hmain]; trivial)
  obtain ⟨hchild, hfresh⟩ := hs.adding cmdline bg pid hmain
  obtain ⟨i, hi, hslots⟩ | ⟨-, hjobs⟩ :=
        JobList.addjob_cases s.jobs state cmdline (hs.pos pid hchild)
  · refine ⟨hs.pos, fun j k hj hjk => ?_, fun j hj => ?_, hs.handled, fun c b p h => (nomatch h),
      fun _ => hcrit⟩
    · have hk := hjk ▸ hj
      rw [hslots] at hj hjk hk
      exact JobList.distinct_update (fun j k hj _ => hs.distinct j k hj) (fun _ j _ => hfresh j) j k
        hj hk hjk
    · rw [hslots] at hj ⊢
      by_cases hji : j = i
      · subst hji
        simpa using Or.inl hchild
      · simpa [hji] using hs.listed j (by simpa [hji] using hj)
  · rw [hjobs]
    exact hs.of_same (fun _ => rfl) (fun _ => Iff.rfl) (fun _ => id) hs.handled
      (fun c b p h => by cases h) (fun _ => hcrit)

/-- A step of `main`. -/
lemma mainStep (hs : Tracked s) (hidle : s.handler = .idle) (h : MainStep s s') : Tracked s' := by
  cases h with
  | read cmdline h =>
    refine hs.of_main rfl rfl rfl ?_
    obtain he | he | ⟨cmd, para, he⟩ | ⟨bg, he⟩ := eval_cases cmdline
    all_goals
      change ¬ (eval cmdline).Critical
      rw [he]
      exact id
  | eof h => exact hs.of_main rfl rfl rfl id
  | block h =>
    exact hs.of_same (fun _ => rfl) (fun _ => Iff.rfl) (fun _ => id) hs.handled
      (fun c b p h => by cases h) (fun _ => ⟨rfl, hidle⟩)
  | fork pid h hpos hnew => exact hs.fork hidle h hpos hnew
  | forkError h => exact hs.of_main rfl rfl rfl id
  | add h => exact hs.add h
  | @unblock bg pid h =>
    refine hs.of_main rfl rfl rfl ?_
    cases bg <;> exact id
  | @lookup cmd para h =>
    refine hs.of_main rfl rfl rfl ?_
    dsimp only
    split <;> exact id
  | @switch cmd i h =>
    refine hs.of_main rfl rfl rfl ?_
    obtain he | he | ⟨-, he⟩ | ⟨-, he⟩ := doBgfgSwitch_cases i cmd (s.jobs.slots i).state
    all_goals
      change ¬ (doBgfgSwitch i cmd (s.jobs.slots i).state).Critical
      rw [he]
      exact id
  | mark h =>
    exact hs.of_same (fun _ => JobList.setState_pid) (fun _ => Iff.rfl) (fun _ => id) hs.handled
      (fun _ _ _ he => nomatch he) (fun hc => hc.elim)
  | raise h =>
    exact hs.of_same (fun _ => JobList.setState_pid) (fun _ => Iff.rfl) (fun _ => id) hs.handled
      (fun _ _ _ he => nomatch he) (fun hc => hc.elim)
  | @resume cmd i notify h =>
    refine hs.of_same (fun j => by simp) Shell.signalCont_children_eq_none (fun _ => by simp)
      (fun p b hp => hs.handled p b (by simpa using hp)) ?_ ?_
    · intro c b p he
      cases cmd <;> cases he
    · intro he
      cases cmd <;> exact he.elim
  | killError h => exact hs.of_main rfl rfl rfl id
  | reset h => exact hs.of_main rfl rfl rfl id
  | sleep h hr => exact hs
  | wake h hr => exact hs.of_main rfl rfl rfl id

/-- A reaped child is the one that the handler deals with. -/
lemma terminated (hs : Tracked s) {pid : ℕ} (h : s.handler = .entered)
    (hpid : s.children pid = some .zombie) :
    Tracked { s.reap pid with handler := .reported pid false } where
  pos p hp := by
    by_cases hpp : p = pid
    · exact absurd (by simp [Shell.reap, hpp]) hp
    · exact hs.pos p (by simpa [Shell.reap, hpp] using hp)
  distinct := hs.distinct
  listed i hi := by
    by_cases hip : (s.jobs.slots i).pid = pid
    · exact .inr ⟨hip.symm, rfl⟩
    · refine .inl ?_
      have hc := (hs.listed i hi).resolve_right (by rw [h]; exact id)
      simpa [Shell.reap, hip] using hc
  handled p b hp := by
    obtain ⟨rfl, rfl⟩ := hp
    exact ⟨hs.pos pid (by simp [hpid]), by simp [Shell.reap]⟩
  adding c b p hp := by
    -- The handler does not run in the critical section.
    have hidle := (hs.critical (by rw [show s.main = .add c b p from hp]; trivial)).2
    rw [h] at hidle
    cases hidle
  critical hp := by
    have hidle := (hs.critical hp).2
    rw [h] at hidle
    cases hidle

/-- The slot of a reaped child is cleared. -/
lemma delete (hs : Tracked s) {pid : ℕ} (h : s.handler = .noted pid false) :
    Tracked { s with handler := .idle, jobs := (s.jobs.deletejob pid).2 } := by
  have hcrit : ¬ s.main.Critical := by
    intro hc
    have hidle := (hs.critical hc).2
    rw [h] at hidle
    cases hidle
  have hadd : ∀ c b p, s.main ≠ .add c b p := fun c b p he => hcrit (by rw [he]; trivial)
  obtain ⟨hpos, -⟩ := hs.noted h
  have hlisted : ∀ i, (s.jobs.slots i).pid ≠ 0 → (s.jobs.slots i).pid ≠ pid →
      s.children (s.jobs.slots i).pid ≠ none := by
    intro i hi hne
    refine (hs.listed i hi).resolve_right fun hh => ?_
    rw [h] at hh
    exact hne hh.1.symm
  obtain ⟨i, hi, hslots⟩ | ⟨hne, hjobs⟩ := JobList.deletejob_cases s.jobs hpos
  · have hslot : ∀ j, ((s.jobs.deletejob pid).2.slots j).pid ≠ 0 →
        j ≠ i ∧ ((s.jobs.deletejob pid).2.slots j).pid = (s.jobs.slots j).pid := by
      intro j hj
      rw [hslots] at hj ⊢
      by_cases hji : j = i
      · exact absurd (by simp [hji, Job.clear]) hj
      · exact ⟨hji, by simp [hji]⟩
    refine ⟨hs.pos, fun j k hj hjk => ?_, fun j hj => ?_, fun p b hp => hp.elim,
      fun c b p hp => absurd hp (hadd c b p), fun hp => absurd hp hcrit⟩
    · have hk := hjk ▸ hj
      rw [hslots] at hj hjk hk
      exact JobList.distinct_update (fun j k hj _ => hs.distinct j k hj) (fun h => absurd rfl h) j k
        hj hk hjk
    · obtain ⟨hji, hjs⟩ := hslot j hj
      left
      rw [hjs] at hj ⊢
      exact hlisted j hj fun he => hji (hs.distinct j i hj (he.trans hi.symm))
  · rw [hjobs]
    exact ⟨hs.pos, hs.distinct, fun j hj => .inl (hlisted j hj (hne j)), fun p b hp => hp.elim,
      fun c b p hp => absurd hp (hadd c b p), fun hp => absurd hp hcrit⟩

/-- While the handler runs, `main` is not in the critical section. -/
lemma not_critical (hs : Tracked s) (h : s.handler ≠ .idle) : ¬ s.main.Critical :=
  fun hc => h (hs.critical hc).2

/-- A step of the handler. -/
lemma handlerStep (hs : Tracked s) (h : HandlerStep s s') : Tracked s' := by
  cases h with
  | enter h hp hb =>
    refine hs.of_same (fun _ => rfl) (fun _ => Iff.rfl) (fun p => by rw [h]; exact id)
      (fun _ _ hh => hh.elim) (fun _ _ _ => id) fun hc => ?_
    have hb' := (hs.critical hc).1
    rw [hb] at hb'
    cases hb'
  | stopped pid h hpid =>
    refine hs.of_same (fun _ => rfl) (Shell.setChild_eq_none (by simp [hpid]))
      (fun p => by rw [h]; exact False.elim) (fun p b hp => ?_)
      (fun _ _ _ => id) fun hc => absurd hc (hs.not_critical (by simp [h]))
    obtain ⟨rfl, rfl⟩ := hp
    exact ⟨hs.pos pid (by simp [hpid]), by simp [hpid]⟩
  | terminated pid h hpid => exact hs.terminated h hpid
  | unchanged h hpid hnone =>
    exact hs.of_same (fun _ => rfl) (fun _ => Iff.rfl) (fun p => by rw [h]; exact id)
      (fun _ _ hh => hh.elim) (fun _ _ _ => id) fun hc => absurd hc (hs.not_critical (by simp [h]))
  | waitpidError h hnone =>
    exact hs.of_same (fun _ => rfl) (fun _ => Iff.rfl) (fun p => by rw [h]; exact id)
      (fun _ _ hh => hh.elim) (fun _ _ _ he => nomatch he) fun hc => hc.elim
  | @note pid stopped h =>
    exact hs.of_same (fun _ => rfl) (fun _ => Iff.rfl) (fun p => by rw [h]; exact id)
      (fun p b hp => hs.handled p b (by rw [h]; exact hp)) (fun _ _ _ => id)
      fun hc => absurd hc (hs.not_critical (by simp [h]))
  | @markStopped pid i h hi =>
    refine hs.of_same (fun _ => JobList.setState_pid) (fun _ => Iff.rfl) (fun p hp => ?_)
      (fun _ _ hh => hh.elim) (fun _ _ _ => id) fun hc => absurd hc (hs.not_critical (by simp [h]))
    rw [h] at hp
    cases hp.2
  | @crash pid h hi =>
    refine hs.of_same (fun _ => rfl) (fun _ => Iff.rfl) (fun p hp => ?_)
      (fun _ _ hh => hh.elim) (fun _ _ _ => id) fun hc => absurd hc (hs.not_critical (by simp [h]))
    rw [h] at hp
    cases hp.2
  | delete h => exact hs.delete h

/-- A step of the kernel. -/
lemma kernelStep (hs : Tracked s) (h : KernelStep s s') : Tracked s' := by
  cases h with
  | stop pid h =>
    exact hs.of_same (fun _ => rfl) (Shell.setChild_eq_none (by simp [h])) (fun _ => id) hs.handled
      (fun _ _ _ => id) hs.critical
  | terminate pid h hst =>
    exact hs.of_same (fun _ => rfl) (Shell.setChild_eq_none (by simp [h])) (fun _ => id) hs.handled
      (fun _ _ _ => id) hs.critical
  | cont pid notify =>
    exact hs.of_same (fun _ => by simp) Shell.signalCont_children_eq_none (fun _ => by simp)
      (fun p b hp => hs.handled p b (by simpa using hp)) (fun _ _ _ => by simp)
      (by simpa using hs.critical)

/-- **The pids.** Every step keeps the job list and the kernel in agreement. -/
theorem step (hs : Tracked s) (h : Step s s') : Tracked s' := by
  cases h with
  | main hidle h => exact hs.mainStep hidle h
  | handler hrun h => exact hs.handlerStep h
  | signal h => cases h <;> exact hs.of_main rfl rfl rfl id
  | kernel h => exact hs.kernelStep h

end Tracked

/-- The job list and the kernel agree in every run. -/
theorem ReachableIf.tracked {ok : Shell → Prop} {s : Shell} (h : ReachableIf ok s) :
    Tracked s := by
  apply Reachability.Reachable.invariant ?_ ?_ h
  · rintro s rfl
    exact Tracked.start
  · intro s s' _ hs hstep
    exact hs.step hstep.2

/-- **Invariants of runs.** What holds at the start, and is preserved by every step from a state
that meets the condition, holds in every state that is reached. -/
theorem ReachableIf.invariant {ok P : Shell → Prop} {s : Shell} (hstart : P Shell.start)
    (hstep : ∀ s s', ok s → Tracked s → P s → Step s s' → P s') (h : ReachableIf ok s) : P s := by
  apply Reachability.Reachable.invariant ?_ ?_ h
  · rintro s rfl
    exact hstart
  · intro s s' hs hp hss'
    have ht : Tracked s := ReachableIf.tracked hs
    exact hstep s s' hss'.1 ht hp hss'.2

end Tsh
