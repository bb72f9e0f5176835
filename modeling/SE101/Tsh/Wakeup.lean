import SE101.Tsh.Foreground

set_option relaxedAutoImplicit false
set_option autoImplicit false

/-!
# Lost wake-ups

`waitfg` sleeps until the handler has set `chld_reaped`, which it resets on entry. If the handler
deals with the foreground job before that, the flag is lost and the shell sleeps for ever. If it
never does, then the shell is woken up.

## Main definitions

* `Tsh.Main.Marked` — the foreground job is marked as such, and the flag has not been reset.
* `Tsh.Stuck` — the shell sleeps and nothing is left that could wake it up.
* `Tsh.ReportsInTime` — the condition on the states from which a run goes on.

## Main results

* `Tsh.not_stuck` — a run in which the handler never comes too early does not get stuck.
* `Tsh.exists_stuck` — a run that gets stuck.
-/

namespace Tsh

open LittleEndian CString

/-- A job has been put into the foreground, and `waitfg` has not reset the flag yet. -/
def Main.Marked : Main → Prop
  | .unblock bg _ => bg = false
  | .resume cmd _ => cmd = .fg
  | .reset _ => True
  | _ => False

/-- The foreground job is not reported between the time it is marked and the reset of the flag. -/
def ReportsInTime (s : Shell) : Prop :=
  ∀ pid stopped, s.handler = .reported pid stopped → pid = s.jobs.fgpid → ¬ s.main.Marked

/-- `main` sleeps in the loop of `waitfg`, there is no foreground job, and nothing is going to set
the flag. -/
def Stuck (s : Shell) : Prop :=
  (∃ caller, s.main = .wait caller) ∧ s.chldReaped = false ∧
  (∀ i, (s.jobs.slots i).state ≠ .fg) ∧ (∀ pid, ¬ s.Unreported pid) ∧ s.pending = false

/-- While `main` is about to sleep, or sleeps and is not woken up, there is a job in the
foreground that the handler is not about to remove from there. -/
def Awaited (s : Shell) : Prop :=
  s.main.Marked ∨ (∃ caller, s.main = .wait caller) ∧ s.chldReaped = false →
    ∃ i, s.InForeground i ∧ ∀ b, s.handler ≠ .noted (s.jobs.slots i).pid b

namespace Awaited

variable {s s' : Shell}

/-- The shell does not sleep before the first command. -/
lemma start : Awaited Shell.start := fun h => by
  obtain h | ⟨⟨_, h⟩, -⟩ := h
  · exact h.elim
  · cases h

/-- `main` neither is about to sleep nor sleeps. -/
lemma of_main (hmarked : ¬ s'.main.Marked) (hwait : ∀ c, s'.main ≠ .wait c) : Awaited s' :=
  fun h => by
    obtain h | ⟨⟨c, h⟩, -⟩ := h
    · exact absurd h hmarked
    · exact absurd h (hwait c)

/-- The job list stays, and the handler is not about to change it. -/
lemma of_same (hs : Awaited s) (hmain : s'.main.Marked ∨ (∃ caller, s'.main = .wait caller) ∧
      s'.chldReaped = false → s.main.Marked ∨ (∃ caller, s.main = .wait caller) ∧
      s.chldReaped = false)
    (hjobs : s'.jobs = s.jobs)
    (hhandler : ∀ p b, s'.handler = .noted p b → s.handler = .noted p b) : Awaited s' := by
  intro h
  obtain ⟨i, hi, hne⟩ := hs (hmain h)
  refine ⟨i, ?_, fun b hb => ?_⟩
  · unfold Shell.InForeground
    rw [hjobs]
    exact hi
  · rw [hjobs] at hb
    exact hne b (hhandler _ b hb)

/-- A job has come to the foreground. -/
lemma of_foreground {i : Fin MAXJOBS} (hi : s'.InForeground i) (hidle : s'.handler = .idle) :
    Awaited s' := fun _ => ⟨i, hi, fun b => by simp [hidle]⟩

/-- A step of `main`. -/
lemma mainStep (hs : Awaited s) (hroom : HasRoom s) (ht : Tracked s) (hidle : s.handler = .idle)
    (h : MainStep s s') : Awaited s' := by
  cases h with
  | read cmdline h =>
    obtain he | he | ⟨cmd, para, he⟩ | ⟨bg, he⟩ := eval_cases cmdline
    all_goals exact of_main (by simp [he, Main.Marked]) (by simp [he])
  | eof h => exact of_main id (by simp [Shell.exit])
  | block h => exact of_main id (by simp)
  | fork pid h hpos hnew => exact of_main id (by simp)
  | forkError h => exact of_main id (by simp [Shell.exit])
  | @add cmdline bg pid h =>
    cases bg with
    | true => exact of_main (by simp [Main.Marked]) (by simp)
    | false =>
      obtain ⟨hchild, -⟩ := ht.adding cmdline false pid h
      obtain ⟨i, hi, hslots⟩ | ⟨hfull, -⟩ :=
        JobList.addjob_cases s.jobs .fg cmdline (ht.pos pid hchild)
      · exact of_foreground (i := i) (by simp [Shell.InForeground, hslots]) hidle
      · obtain ⟨i, hi⟩ := hroom cmdline false pid h
        exact absurd hi (hfull i)
  | @unblock bg pid h =>
    cases bg with
    | true => exact of_main id (by simp)
    | false => exact hs.of_same (fun _ => .inl (by rw [h]; rfl)) rfl fun _ _ => id
  | @lookup cmd para h =>
    refine of_main ?_ ?_
    · dsimp only
      split <;> exact id
    · intro c
      dsimp only
      split <;> simp
  | @switch cmd i h =>
    obtain he | he | ⟨-, he⟩ | ⟨-, he⟩ := doBgfgSwitch_cases i cmd (s.jobs.slots i).state
    all_goals exact of_main (by simp [he, Main.Marked]) (by simp [he])
  | @mark cmd i h =>
    cases cmd with
    | fg => exact of_foreground (i := i) (by simp [Shell.InForeground, Bgfg.state]) hidle
    | bg => exact of_main (by simp [Main.Marked]) (by simp)
  | @raise i h => exact of_foreground (i := i) (by simp [Shell.InForeground]) hidle
  | @resume cmd i notify h =>
    cases cmd with
    | fg => exact hs.of_same (fun _ => .inl (by rw [h]; rfl)) (by simp) (by simp)
    | bg => exact of_main id (by simp)
  | killError h => exact of_main id (by simp [Shell.exit])
  | reset h => exact hs.of_same (fun _ => .inl (by rw [h]; trivial)) rfl fun _ _ => id
  | sleep h hr => exact hs
  | wake h hr => exact of_main id (by simp)

/-- The handler changes the slot of another job. -/
lemma of_noted (hs : Awaited s) {pid : ℕ} {stopped : Bool} (h : s.handler = .noted pid stopped)
    (hmain : s'.main = s.main) (hflag : s'.chldReaped = s.chldReaped)
    (hhandler : ∀ p b, s'.handler ≠ .noted p b)
    (hslots : ∀ i, (s.jobs.slots i).pid ≠ pid → s'.jobs.slots i = s.jobs.slots i) :
    Awaited s' := by
  intro hw
  rw [hmain, hflag] at hw
  obtain ⟨i, hi, hne⟩ := hs hw
  refine ⟨i, ?_, fun b => hhandler _ b⟩
  unfold Shell.InForeground
  rw [hslots i fun he => hne stopped (by rw [h, he])]
  exact hi

/-- A step of the handler. -/
lemma handlerStep (hs : Awaited s) (htime : ReportsInTime s) (ht : Tracked s)
    (hf : OneForeground s) (h : HandlerStep s s') : Awaited s' := by
  cases h with
  | enter h hp hb => exact hs.of_same id rfl (by simp)
  | stopped pid h hpid => exact hs.of_same id rfl (by simp)
  | terminated pid h hpid => exact hs.of_same id rfl (by simp)
  | unchanged h hpid hnone => exact hs.of_same id rfl (by simp)
  | waitpidError h hnone => exact of_main id (by simp [Shell.exit])
  | @note pid stopped h =>
    -- The flag has not been set, or the handler has come in time: it is another job.
    have hother : s.main.Marked ∨ (∃ caller, s.main = .wait caller) ∧
        (if pid = s.jobs.fgpid then true else s.chldReaped) = false →
        pid ≠ s.jobs.fgpid := by
      rintro (hmarked | ⟨-, hflag⟩) he
      · exact htime pid stopped h he hmarked
      · simp [he] at hflag
    intro hw
    have hpid := hother hw
    obtain ⟨i, hi, -⟩ := hs (by simpa [hpid] using hw)
    refine ⟨i, hi, fun b hb => hpid ?_⟩
    rw [(Handler.noted.inj hb).1]
    exact (JobList.fgpid_eq hf.only hi).symm
  | markStopped h hi =>
    exact hs.of_noted h rfl rfl (by simp) fun _ => JobList.setState_slots_of_pid_ne hi
  | crash h hi => exact hs.of_same id rfl (by simp)
  | @delete pid h =>
    have hpos := (ht.noted h).1
    exact hs.of_noted h rfl rfl (by simp) fun _ => JobList.deletejob_slots hpos

/-- **Waiting.** Every step from a state in which the handler does not come too early keeps a job
in the foreground that `main` waits for. -/
theorem step (hs : Awaited s) (hroom : HasRoom s) (htime : ReportsInTime s) (ht : Tracked s)
    (hf : OneForeground s) (h : Step s s') : Awaited s' := by
  cases h with
  | main hidle h => exact hs.mainStep hroom ht hidle h
  | handler hrun h => exact hs.handlerStep htime ht hf h
  | signal h => cases h <;> exact of_main id (by simp [Shell.exit])
  | kernel h =>
    cases h with
    | stop pid h => exact hs.of_same id rfl fun _ _ => id
    | terminate pid h hst => exact hs.of_same id rfl fun _ _ => id
    | cont pid notify => exact hs.of_same (by simp) (by simp) (by simp)

end Awaited

/-- **No lost wake-up.** A run in which the handler never reports the foreground job between the
time it is marked and the reset of the flag does not get stuck. -/
theorem not_stuck (s : Shell) (h : ReachableIf (fun s => HasRoom s ∧ ReportsInTime s) s) :
    ¬ Stuck s := by
  have hs : OneForeground s ∧ Awaited s := by
    apply h.invariant ⟨OneForeground.start, Awaited.start⟩
    rintro s s' ⟨hroom, htime⟩ ht ⟨hf, hs⟩ hstep
    exact ⟨hf.step ht hstep, hs.step hroom htime ht hf hstep⟩
  rintro ⟨hwait, hflag, hnone, -, -⟩
  obtain ⟨i, hi, -⟩ := hs.2 (.inr ⟨hwait, hflag⟩)
  exact hnone i hi

/-- A shell that waits for a foreground job. -/
theorem not_stuck_waiting : ∃ s, (∃ caller, s.main = .wait caller) ∧ ¬ Stuck s := by
  have hok : ∀ s', s'.jobs = Shell.start.jobs → s'.handler = .idle → (∀ i, s'.main ≠ .raise i) →
      HasRoom s' ∧ ReportsInTime s' := by
    intro s' hs' hidle _
    exact ⟨fun _ _ _ _ => ⟨0, by rw [hs']; rfl⟩, fun _ _ h => by simp [hidle] at h⟩
  have h₀ := ReachableIf.start.launch 1 hok rfl rfl eval_ls (by decide) rfl
  have h₁ := h₀.step ⟨nofun, nofun⟩ (.main rfl (.unblock rfl))
  have h₂ := h₁.step ⟨nofun, nofun⟩ (.main rfl (.reset rfl))
  exact ⟨_, ⟨_, rfl⟩, not_stuck _ h₂⟩

/-! ## Being stuck -/

/-- The shell has exited, or sleeps without a job in the foreground. -/
def Forsaken (s : Shell) : Prop := s.main = .exited ∨
  (∃ caller, s.main = .wait caller) ∧ s.chldReaped = false ∧ ∀ i, ¬ s.InForeground i

namespace Forsaken

variable {s s' : Shell}

/-- A step that leaves `main` and the flag alone and puts no job into the foreground. -/
lemma of_same (hs : Forsaken s) (hmain : s'.main = s.main)
    (hflag : s.chldReaped = false → (∀ i, ¬ s.InForeground i) → s'.chldReaped = false)
    (hsub : ∀ i, s'.InForeground i → s.InForeground i) : Forsaken s' := by
  obtain h | ⟨⟨c, h⟩, hr, hnone⟩ := hs
  · exact .inl (hmain.trans h)
  · exact .inr ⟨⟨c, hmain.trans h⟩, hflag hr hnone, fun i hi => hnone i (hsub i hi)⟩

/-- A step of the handler. -/
lemma handlerStep (hs : Forsaken s) (ht : Tracked s) (h : HandlerStep s s') : Forsaken s' := by
  cases h with
  | enter h hp hb => exact hs.of_same rfl (fun hr _ => hr) fun _ => id
  | stopped pid h hpid => exact hs.of_same rfl (fun hr _ => hr) fun _ => id
  | terminated pid h hpid => exact hs.of_same rfl (fun hr _ => hr) fun _ => id
  | unchanged h hpid hnone => exact hs.of_same rfl (fun hr _ => hr) fun _ => id
  | waitpidError h hnone => exact .inl rfl
  | @note pid stopped h =>
    refine hs.of_same rfl (fun hr hnone => ?_) fun _ => id
    have hpos := (ht.reported h).1
    have hne : pid ≠ s.jobs.fgpid := by
      rw [JobList.fgpid_eq_zero hnone]
      omega
    simp [hne, hr]
  | markStopped h hi =>
    exact hs.of_same rfl (fun hr _ => hr) fun _ hj =>
      (OneForeground.foreground_of_update (by simp) JobList.setState_slots hj).1
  | crash h hi => exact hs.of_same rfl (fun hr _ => hr) fun _ => id
  | @delete pid h =>
    have hpos := (ht.noted h).1
    refine hs.of_same rfl (fun hr _ => hr) fun j hj => ?_
    obtain ⟨i, -, hslots⟩ | ⟨-, hjobs⟩ := JobList.deletejob_cases s.jobs hpos
    · exact (OneForeground.foreground_of_update (by simp [Job.clear]) hslots hj).1
    · unfold Shell.InForeground at hj
      rw [hjobs] at hj
      exact hj

/-- **Sleeping for ever.** No step wakes the shell up. -/
theorem step (hs : Forsaken s) (ht : Tracked s) (h : Step s s') : Forsaken s' := by
  cases h with
  | main hidle h =>
    obtain hexit | ⟨⟨c, hwait⟩, hr, hnone⟩ := hs
    · cases h <;> simp_all
    · cases h with
      | sleep h hr' => exact .inr ⟨⟨c, hwait⟩, hr, hnone⟩
      | wake h hr' =>
        rw [hr] at hr'
        cases hr'
      | _ => simp_all
  | handler hrun h => exact hs.handlerStep ht h
  | signal h => cases h <;> exact .inl rfl
  | kernel h =>
    cases h with
    | stop pid h => exact hs.of_same rfl (fun hr _ => hr) fun _ => id
    | terminate pid h hst => exact hs.of_same rfl (fun hr _ => hr) fun _ => id
    | cont pid notify =>
      refine hs.of_same (by simp) (fun hr _ => ?_) (by simp [Shell.InForeground])
      rw [Shell.signalCont_chldReaped]
      exact hr

end Forsaken

/-- **A stuck shell is stuck for ever.** Whatever happens, it sleeps on or exits. -/
theorem Stuck.forever {s s' : Shell} (h : Reachable s) (hs : Stuck s)
    (hrun : Relation.ReflTransGen (StepIf fun _ => True) s s') :
    s'.main = .exited ∨ ∃ caller, s'.main = .wait caller := by
  have hf : Forsaken s' := by
    induction hrun with
    | refl => exact .inr ⟨hs.1, hs.2.1, hs.2.2.1⟩
    | tail hrun hstep ih =>
      have ht := ReachableIf.tracked (Reachability.Reachable.trans h hrun)
      exact ih.step ht hstep.2
  exact hf.imp_right fun ⟨hwait, _⟩ => hwait

/-! ## A run that gets stuck -/

/-- **A lost wake-up.** The child terminates before `eval` unblocks `SIGCHLD`; the handler runs
when it does, and then `waitfg` resets the flag. -/
theorem exists_stuck : ∃ s, ReachableIf HasRoom s ∧ Stuck s := by
  have hroom : ∀ s', s'.jobs = Shell.start.jobs → s'.handler = .idle → (∀ i, s'.main ≠ .raise i) →
      HasRoom s' := by
    intro s' hs' _ _ cmdline bg pid _
    exact ⟨0, by rw [hs']; rfl⟩
  have h₀ := ReachableIf.start.launch 1 hroom rfl rfl eval_ls (by decide) rfl
  have h₁ := h₀.step nofun (.kernel (.terminate 1 rfl (by decide)))
  have h₂ := h₁.step nofun (.main rfl (.unblock rfl))
  have h₃ := h₂.step nofun (.handler nofun (.enter rfl rfl rfl))
  have h₄ := h₃.step nofun (.handler nofun (.terminated 1 rfl rfl))
  have h₅ := h₄.step nofun (.handler nofun (.note rfl))
  have h₆ := h₅.step nofun (.handler nofun (.delete rfl))
  have h₇ := h₆.step nofun (.main rfl (.reset rfl))
  refine ⟨_, h₇, ⟨_, rfl⟩, rfl, ?_, ?_, rfl⟩
  · show ∀ i, (((JobList.initjobs.addjob 1 .fg (ascii "/bin/ls\n")).2.deletejob 1).2.slots
      i).state ≠ .fg
    decide +kernel
  · rintro pid ⟨st, hst, -⟩
    by_cases hpid : pid = 1 <;> simp [Shell.reap, Shell.setChild, Shell.launched, Shell.start,
      hpid] at hst

end Tsh
