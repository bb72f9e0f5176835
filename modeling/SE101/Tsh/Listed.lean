import Mathlib.Data.Fintype.Pigeonhole
import SE101.Tsh.Pids

set_option relaxedAutoImplicit false
set_option autoImplicit false

/-!
# Every child has a job

A child is in the job list from the end of `eval`'s critical section until it is reaped, provided
that there was a free slot for it. `eval` does not look at the result of `addjob`, so a child that
found none is in no slot.

## Main definitions

* `Tsh.Listed` — every child has a job, and `eval` and the handler find the jobs they need.
* `Tsh.Complete` — the invariant.

## Main results

* `Tsh.listed_of_hasRoom` — in a run that adds jobs to free slots only, every child has a job.
* `Tsh.exists_not_listed` — a run in which a child has none.
-/

namespace Tsh

open CString

/-- While `SIGCHLD` is not blocked, every child has exactly one job; the job that `eval` waits for
is in the foreground unless the handler has dealt with it; the handler finds the jobs of the
children that have stopped. -/
structure Listed (s : Shell) : Prop where
  job : s.blocked = false → s.handler = .idle →
    ∀ p, s.children p ≠ none → ∃! i, (s.jobs.slots i).pid = p
  marked : ∀ p, s.main = .unblock false p →
    ∃ i, (s.jobs.slots i).pid = p ∧ (s.jobs.slots i).state = .fg
  waits : ∀ p, s.main = .reset (.eval p) ∨ s.main = .wait (.eval p) → s.children p = none ∨
    ∃ i, (s.jobs.slots i).pid = p ∧ ((s.jobs.slots i).state = .fg ∨ (s.jobs.slots i).state = .st)
  found : ∀ p, s.handler = .noted p true → s.jobs.getjobpid p ≠ none

/-- Every child has a job or is about to get one, unless the shell exits before that, and `eval`
waits for a job. -/
structure Complete (s : Shell) : Prop where
  job : ∀ p, s.children p ≠ none → (∃ i, (s.jobs.slots i).pid = p) ∨
    (∃ c b, s.main = .add c b p) ∨ s.main = .exited ∧ s.blocked = true ∧ s.handler = .idle
  marked : ∀ p, s.main = .unblock false p →
    ∃ i, (s.jobs.slots i).pid = p ∧ (s.jobs.slots i).state = .fg
  waits : ∀ p, s.main = .reset (.eval p) ∨ s.main = .wait (.eval p) → s.children p = none ∨
    ∃ i, (s.jobs.slots i).pid = p ∧ ((s.jobs.slots i).state = .fg ∨ (s.jobs.slots i).state = .st)

namespace Complete

variable {s s' : Shell}

/-- There are no children before the first command. -/
lemma start : Complete Shell.start where
  job _ h := absurd rfl h
  marked _ h := nomatch h
  waits _ h := by obtain h | h := h <;> cases h

/-- Outside of the critical section, every child has a job. -/
lemma slot (hs : Complete s) (hadd : ∀ c b p, s.main ≠ .add c b p) (hrun : s.main ≠ .exited)
    {p : ℕ} (hp : s.children p ≠ none) : ∃ i, (s.jobs.slots i).pid = p := by
  obtain h | ⟨c, b, h⟩ | ⟨h, -⟩ := hs.job p hp
  · exact h
  · exact absurd h (hadd c b p)
  · exact absurd h hrun

/-- What the invariant says to the rest of the shell. -/
lemma listed (hs : Complete s) (ht : Tracked s) : Listed s where
  job hblocked _ p hp := by
    have hjob : ∃ i, (s.jobs.slots i).pid = p := by
      obtain h | ⟨c, b, h⟩ | ⟨-, hb, -⟩ := hs.job p hp
      · exact h
      · have hb := (ht.critical (by rw [h]; trivial)).1
        rw [hblocked] at hb
        cases hb
      · rw [hblocked] at hb
        cases hb
    obtain ⟨i, hi⟩ := hjob
    have hpos := ht.pos p hp
    exact ⟨i, hi, fun j hj => ht.distinct j i (by omega) (hj.trans hi.symm)⟩
  marked := hs.marked
  waits := hs.waits
  found p h hnone := by
    obtain ⟨hpos, hp⟩ := ht.noted h
    obtain ⟨i, hi⟩ | ⟨c, b, hadd⟩ | ⟨-, -, hidle⟩ := hs.job p (by simp [hp])
    · exact JobList.pid_ne_of_getjobpid hpos hnone hi
    · have hidle := (ht.critical (by rw [hadd]; trivial)).2
      rw [h] at hidle
      cases hidle
    · rw [h] at hidle
      cases hidle

/-- A step that leaves the pids in the job list alone and creates no child, to a location at which
`eval` does not wait. -/
lemma of_main (hs : Complete s) (hpid : ∀ i, (s'.jobs.slots i).pid = (s.jobs.slots i).pid)
    (hchildren : ∀ p, s'.children p = none ↔ s.children p = none)
    (hadd : ∀ c b p, s.main ≠ .add c b p ∧ s.main ≠ .exited)
    (hmarked : ∀ p, s'.main ≠ .unblock false p)
    (hwaits : ∀ p, s'.main ≠ .reset (.eval p) ∧ s'.main ≠ .wait (.eval p)) : Complete s' where
  job p hp := by
    left
    simp only [hpid]
    exact hs.slot (fun c b p => (hadd c b p).1) (hadd [] true 0).2 ((hchildren p).not.1 hp)
  marked p h := absurd h (hmarked p)
  waits p h := by
    obtain h | h := h
    · exact absurd h (hwaits p).1
    · exact absurd h (hwaits p).2

/-- `addjob` finds room for the new child. -/
lemma add {cmdline : List LittleEndian.Byte} {bg : Bool} {pid : ℕ} (hs : Complete s)
    (hroom : HasRoom s) (ht : Tracked s) (h : s.main = .add cmdline bg pid) :
    Complete { s with
      main := .unblock bg pid
      jobs := (s.jobs.addjob pid (if bg then .bg else .fg) cmdline).2 } := by
  obtain ⟨hchild, -⟩ := ht.adding cmdline bg pid h
  obtain ⟨i, hi, hslots⟩ | ⟨hfull, -⟩ :=
      JobList.addjob_cases s.jobs (if bg then .bg else .fg) cmdline (ht.pos pid hchild)
  · have hnew : ((s.jobs.addjob pid (if bg then .bg else .fg) cmdline).2.slots i) =
        ⟨pid, s.jobs.nextjid, if bg then .bg else .fg, cmdline⟩ := by
      rw [hslots, Function.update_self]
    refine ⟨fun p hp => .inl ?_, fun p hp => ⟨i, ?_⟩, fun _ h => ?_⟩
    · obtain ⟨j, hj⟩ | ⟨c, b, hadd⟩ | ⟨hexit, -⟩ := hs.job p hp
      · -- The slot of another child is not free.
        have hji : j ≠ i := by
          rintro rfl
          have := ht.pos p hp
          omega
        exact ⟨j, by rw [hslots, Function.update_of_ne hji]; exact hj⟩
      · rw [h] at hadd
        cases hadd
        exact ⟨i, by rw [hnew]⟩
      · rw [h] at hexit
        cases hexit
    · cases hp
      exact ⟨by rw [hnew], by rw [hnew]; rfl⟩
    · obtain h | h := h <;> cases h
  · obtain ⟨i, hi⟩ := hroom cmdline bg pid h
    exact absurd hi (hfull i)

/-- A step of `main`. -/
lemma mainStep (hs : Complete s) (hroom : HasRoom s) (ht : Tracked s) (h : MainStep s s') :
    Complete s' := by
  cases h with
  | read cmdline h =>
    obtain he | he | ⟨cmd, para, he⟩ | ⟨bg, he⟩ := eval_cases cmdline
    all_goals
      exact hs.of_main (fun _ => rfl) (fun _ => Iff.rfl) (by simp [h]) (by simp [he])
        (by simp [he])
  | eof h =>
    exact hs.of_main (fun _ => rfl) (fun _ => Iff.rfl) (by simp [h]) (by simp [Shell.exit])
      (by simp [Shell.exit])
  | block h => exact hs.of_main (fun _ => rfl) (fun _ => Iff.rfl) (by simp [h]) (by simp) (by simp)
  | @fork cmdline bg pid h hpos hnew =>
    refine ⟨fun p hp => ?_, fun _ h => (by cases h), fun _ h => ?_⟩
    · by_cases hpid : p = pid
      · exact .inr (.inl ⟨cmdline, bg, by rw [hpid]⟩)
      · have hp' : s.children p ≠ none := by simpa [Shell.setChild, hpid] using hp
        exact .inl (hs.slot (by simp [h]) (by simp [h]) hp')
    · obtain h | h := h <;> cases h
  | forkError h =>
    exact hs.of_main (fun _ => rfl) (fun _ => Iff.rfl) (by simp [h]) (by simp [Shell.exit])
      (by simp [Shell.exit])
  | add h => exact hs.add hroom ht h
  | @unblock bg pid h =>
    cases bg with
    | true =>
      exact hs.of_main (fun _ => rfl) (fun _ => Iff.rfl) (by simp [h]) (by simp) (by simp)
    | false =>
      refine ⟨fun p hp => .inl (hs.slot (by simp [h]) (by simp [h]) hp), fun _ h => (by cases h),
        fun p hp => .inr ?_⟩
      obtain hp | hp := hp
      · cases hp
        obtain ⟨i, hi, hfg⟩ := hs.marked pid h
        exact ⟨i, hi, .inl hfg⟩
      · cases hp
  | @lookup cmd para h =>
    refine hs.of_main (fun _ => rfl) (fun _ => Iff.rfl) (by simp [h]) ?_ ?_
    · intro p
      dsimp only
      split <;> simp
    · intro p
      dsimp only
      split <;> simp
  | @switch cmd i h =>
    obtain he | he | ⟨-, he⟩ | ⟨-, he⟩ := doBgfgSwitch_cases i cmd (s.jobs.slots i).state
    all_goals
      exact hs.of_main (fun _ => rfl) (fun _ => Iff.rfl) (by simp [h]) (by simp [he])
        (by simp [he])
  | mark h =>
    exact hs.of_main (fun _ => JobList.setState_pid) (fun _ => Iff.rfl) (by simp [h]) (by simp)
      (by simp)
  | raise h =>
    exact hs.of_main (fun _ => JobList.setState_pid) (fun _ => Iff.rfl) (by simp [h]) (by simp)
      (by simp)
  | @resume cmd i notify h =>
    refine hs.of_main (by simp) Shell.signalCont_children_eq_none (by simp [h]) ?_ ?_
    · intro p
      cases cmd <;> simp
    · intro p
      cases cmd <;> simp
  | killError h =>
    exact hs.of_main (fun _ => rfl) (fun _ => Iff.rfl) (by simp [h]) (by simp [Shell.exit])
      (by simp [Shell.exit])
  | @reset caller h =>
    refine ⟨fun p hp => .inl (hs.slot (by simp [h]) (by simp [h]) hp), fun _ h => (by cases h),
      fun p hp => ?_⟩
    obtain hp | hp := hp
    · cases hp
    · cases hp
      exact hs.waits p (.inl h)
  | sleep h hr => exact hs
  | wake h hr =>
    exact hs.of_main (fun _ => rfl) (fun _ => Iff.rfl) (by simp [h]) (by simp) (by simp)

/-- The shell exits. -/
lemma exit (hs : Complete s) (ht : Tracked s) : Complete s.exit := by
  refine ⟨fun p hp => ?_, fun _ h => (by cases h), fun _ h => ?_⟩
  · obtain h | ⟨c, b, h⟩ | ⟨-, h⟩ := hs.job p hp
    · exact .inl h
    · exact .inr (.inr ⟨rfl, ht.critical (by rw [h]; trivial)⟩)
    · exact .inr (.inr ⟨rfl, h⟩)
  · obtain h | h := h <;> cases h

/-- A step that leaves the job list and `main` alone and creates no child. -/
lemma of_same (hs : Complete s) (hmain : s'.main = s.main) (hjobs : s'.jobs = s.jobs)
    (hexit : s.main = .exited → s'.blocked = s.blocked ∧ s'.handler = s.handler)
    (hchildren : ∀ p, s.children p = none → s'.children p = none) : Complete s' where
  job p hp := by
    rw [hmain, hjobs]
    obtain h | h | ⟨h, hidle⟩ := hs.job p fun hnone => hp (hchildren p hnone)
    · exact .inl h
    · exact .inr (.inl h)
    · rw [(hexit h).1, (hexit h).2]
      exact .inr (.inr ⟨h, hidle⟩)
  marked p h := by
    rw [hjobs]
    exact hs.marked p (by rw [← hmain]; exact h)
  waits p h := by
    rw [hmain] at h
    rw [hjobs]
    exact (hs.waits p h).imp_left (hchildren p)

/-- The handler has dealt with a child: it has stopped, or it is none any more. -/
lemma of_noted (hs : Complete s) (ht : Tracked s) {pid : ℕ} {stopped : Bool}
    (hrun : s.main ≠ .exited) (h : s.handler = .noted pid stopped) (hmain : s'.main = s.main)
    (hchildren : s'.children = s.children)
    (hother : ∀ i, (s.jobs.slots i).pid ≠ pid → s'.jobs.slots i = s.jobs.slots i)
    (hself : s.children pid = none ∨ ∃ i, (s'.jobs.slots i).pid = pid ∧
      (s'.jobs.slots i).state = .st) : Complete s' := by
  have hcrit : ¬ s.main.Critical := ht.not_critical (by simp [h])
  refine ⟨fun p hp => .inl ?_, fun p hp => ?_, fun p hp => ?_⟩
  · rw [hchildren] at hp
    obtain ⟨i, hi⟩ := hs.slot (fun c b p hadd => hcrit (by rw [hadd]; trivial)) hrun hp
    by_cases hpid : p = pid
    · subst hpid
      obtain ⟨j, hj, -⟩ := hself.resolve_left hp
      exact ⟨j, hj⟩
    · exact ⟨i, by rw [hother i (by omega)]; exact hi⟩
  · rw [hmain] at hp
    exact absurd (by rw [hp]; trivial) hcrit
  · rw [hmain] at hp
    rw [hchildren]
    by_cases hpid : p = pid
    · subst hpid
      exact hself.imp_right fun ⟨i, hi, hst⟩ => ⟨i, hi, .inr hst⟩
    · obtain hnone | ⟨i, hi, hst⟩ := hs.waits p hp
      · exact .inl hnone
      · exact .inr ⟨i, by rw [hother i (by omega)]; exact ⟨hi, hst⟩⟩

/-- A step of the handler. -/
lemma handlerStep (hs : Complete s) (ht : Tracked s) (hrun : s.main ≠ .exited)
    (h : HandlerStep s s') : Complete s' := by
  cases h with
  | enter h hp hb => exact hs.of_same rfl rfl (fun h => absurd h hrun) fun _ => id
  | stopped pid h hpid =>
    exact hs.of_same rfl rfl (fun h => absurd h hrun)
      fun p => (Shell.setChild_eq_none (by simp [hpid]) p).2
  | terminated pid h hpid =>
    refine hs.of_same rfl rfl (fun h => absurd h hrun) fun p hp => ?_
    by_cases hpp : p = pid
    · simp [Shell.reap, hpp]
    · simpa [Shell.reap, hpp] using hp
  | unchanged h hpid hnone => exact hs.of_same rfl rfl (fun h => absurd h hrun) fun _ => id
  | waitpidError h hnone =>
    exact ⟨fun p hp => absurd (hnone p) hp, fun _ h => (by cases h), fun p _ => .inl (hnone p)⟩
  | note h => exact hs.of_same rfl rfl (fun h => absurd h hrun) fun _ => id
  | @markStopped pid i h hi =>
    refine hs.of_noted ht hrun h rfl rfl (fun _ => JobList.setState_slots_of_pid_ne hi)
      (.inr ⟨i, ?_⟩)
    exact ⟨JobList.setState_pid.trans (JobList.pid_of_getjobpid hi), by simp⟩
  | crash h hi => exact hs.of_same rfl rfl (fun h => absurd h hrun) fun _ => id
  | @delete pid h =>
    obtain ⟨hpos, hnone⟩ := ht.noted h
    exact hs.of_noted ht hrun h rfl rfl (fun _ => JobList.deletejob_slots hpos) (.inl (hnone.2 rfl))

/-- **The jobs.** Every step that adds a job to a free slot, if it adds one, keeps every child in
the job list. -/
theorem step (hs : Complete s) (hroom : HasRoom s) (ht : Tracked s) (h : Step s s') :
    Complete s' := by
  cases h with
  | main hidle h => exact hs.mainStep hroom ht h
  | handler hrun h => exact hs.handlerStep ht hrun h
  | signal h => cases h <;> exact hs.exit ht
  | kernel h =>
    cases h with
    | stop pid h =>
      exact hs.of_same rfl rfl (fun _ => ⟨rfl, rfl⟩)
        fun p => (Shell.setChild_eq_none (by simp [h]) p).2
    | terminate pid h hst =>
      exact hs.of_same rfl rfl (fun _ => ⟨rfl, rfl⟩)
        fun p => (Shell.setChild_eq_none (by simp [h]) p).2
    | cont pid notify =>
      exact hs.of_same (by simp) (by simp) (by simp)
        fun p => (Shell.signalCont_children_eq_none p).2

end Complete

/-- **Every child has a job.** In a run that adds jobs to free slots only, every child has exactly
one job while `SIGCHLD` is not blocked, `eval` waits for jobs in the foreground, and the handler
finds the jobs of the children that have stopped. -/
theorem listed_of_hasRoom (s : Shell) (h : ReachableIf HasRoom s) : Listed s := by
  have hs : Complete s := by
    apply h.invariant Complete.start
    intro s s' hroom ht hs hstep
    exact hs.step hroom ht hstep
  exact hs.listed h.tracked

/-- A child that runs in the background. -/
theorem listed_of_hasRoom_background : ∃ s, s.children 1 = some .running ∧ s.blocked = false ∧
    Listed s := by
  have hroom : ∀ s', s'.jobs = Shell.start.jobs → s'.handler = .idle → (∀ i, s'.main ≠ .raise i) →
      HasRoom s' := by
    intro s' hs' _ _ cmdline bg pid _
    exact ⟨0, by rw [hs']; rfl⟩
  have h₀ := ReachableIf.start.launch 1 hroom rfl rfl eval_ls_bg (by decide) rfl
  have h₁ := h₀.step nofun (.main rfl (.unblock rfl))
  exact ⟨_, rfl, rfl, listed_of_hasRoom _ h₁⟩

/-! ## A run in which a child has no job -/

/-- Any number of jobs can be launched in the background. -/
lemma exists_children (n : ℕ) : ∃ s, Reachable s ∧ s.main = .prompt ∧ s.handler = .idle ∧
    s.blocked = false ∧ ∀ p, s.children p ≠ none ↔ 0 < p ∧ p ≤ n := by
  induction n with
  | zero => exact ⟨Shell.start, ReachableIf.start, rfl, rfl, rfl, fun p => by
      simp only [Shell.start, ne_eq, not_true_eq_false, false_iff]
      omega⟩
  | succ n ih =>
    obtain ⟨s, h, hmain, hidle, -, hchildren⟩ := ih
    have hnew : s.children (n + 1) = none := by
      by_contra hne
      have := (hchildren (n + 1)).1 hne
      omega
    have h₀ := h.launch (n + 1) (fun _ _ _ _ => trivial) hidle hmain eval_ls_bg (by omega) hnew
    have h₁ := h₀.step trivial (.main hidle (.unblock rfl))
    refine ⟨_, h₁, rfl, hidle, rfl, fun p => ?_⟩
    by_cases hp : p = n + 1
    · simp [Shell.launched, Shell.setChild, hp]
    · have hp' : 0 < p ∧ p ≤ n + 1 ↔ 0 < p ∧ p ≤ n := by omega
      rw [hp', ← hchildren p]
      simp [Shell.launched, Shell.setChild, hp]

/-- **A child without a job.** After `MAXJOBS + 1` jobs have been launched, not all of the children
can have jobs of their own. -/
theorem exists_not_listed : ∃ s, Reachable s ∧ ¬ Listed s := by
  obtain ⟨s, h, hmain, hidle, hblocked, hchildren⟩ := exists_children (MAXJOBS + 1)
  refine ⟨s, h, fun hs => ?_⟩
  have hjob : ∀ k : Fin (MAXJOBS + 1), ∃ i, (s.jobs.slots i).pid = k.val + 1 := by
    intro k
    exact (hs.job hblocked hidle (k + 1) ((hchildren _).2 (by omega))).exists
  choose i hi using hjob
  obtain ⟨k, l, hne, hkl⟩ := Fintype.exists_ne_map_eq_of_card_lt i (by simp)
  apply hne
  have hk := hi k
  have hl := hi l
  rw [hkl] at hk
  omega

end Tsh
