import SE101.Tsh.Pids

set_option relaxedAutoImplicit false
set_option autoImplicit false

/-!
# The foreground job

At most one job is in the foreground, and there is none when the shell reads a command line.

## Main definitions

* `Tsh.Main.Quiet` — the locations of `main` at which no job is in the foreground.
* `Tsh.OneForeground` — the invariant.

## Main results

* `Tsh.OneForeground.step` — every step keeps it.
* `Tsh.reachable_foreground` — what it says of the job list.

## Design

`main` puts a job into the foreground only at locations where there is none, and goes on to
`waitfg`. It leaves `waitfg` when `chld_reaped` is set. The flag is reset on entry, and the
handler sets it when it deals with the foreground job, which it then removes from the foreground
before `main` goes on. So the flag, the handler and the job list must be looked at together: if
the flag is set in the loop, then a job that still is in the foreground is the one that the
handler deals with.
-/

namespace Tsh

/-- No job is in the foreground at this location. -/
def Main.Quiet : Main → Prop
  | .unblock bg _ => bg = true
  | .resume cmd _ => cmd = .bg
  | .reset _ => False
  | .wait _ => False
  | .exited => False
  | _ => True

/-- Job `i` is in the foreground. -/
def Shell.InForeground (s : Shell) (i : Fin MAXJOBS) : Prop := (s.jobs.slots i).state = .fg

/-- The foreground job, the flag and the handler fit together. -/
structure OneForeground (s : Shell) : Prop where
  only : ∀ i j, s.InForeground i → s.InForeground j → i = j
  quiet : s.main.Quiet → ∀ i, ¬ s.InForeground i
  woken : ∀ c, s.main = .wait c → s.chldReaped = true →
    ∀ i, s.InForeground i → ∃ b, s.handler = .noted (s.jobs.slots i).pid b

namespace OneForeground

variable {s s' : Shell}

/-- No job is in the foreground before the first command. -/
lemma start : OneForeground Shell.start where
  only _ _ hi := nomatch hi
  quiet _ _ hi := nomatch hi
  woken _ h := nomatch h

/-- No job comes to the foreground, and `main` does not enter the loop. -/
lemma of_subset (hs : OneForeground s) (hsub : ∀ i, s'.InForeground i → s.InForeground i)
    (hquiet : s'.main.Quiet → s.main.Quiet) (hwait : ∀ c, s'.main ≠ .wait c) :
    OneForeground s' where
  only i j hi hj := hs.only i j (hsub i hi) (hsub j hj)
  quiet h i hi := hs.quiet (hquiet h) i (hsub i hi)
  woken c h := absurd h (hwait c)

/-- A job comes to the foreground, at a location without one. -/
lemma of_quiet (hs : OneForeground s) (hmain : s.main.Quiet) {i : Fin MAXJOBS} {job : Job}
    (hslots : s'.jobs.slots = Function.update s.jobs.slots i job)
    (hquiet : s'.main.Quiet → job.state ≠ .fg) (hwait : ∀ c, s'.main ≠ .wait c) :
    OneForeground s' := by
  have hnone := hs.quiet hmain
  have hfg : ∀ j, s'.InForeground j → j = i ∧ job.state = .fg := by
    intro j hj
    unfold Shell.InForeground at hj
    rw [hslots] at hj
    by_cases hji : j = i
    · exact ⟨hji, by simpa [hji] using hj⟩
    · rw [Function.update_of_ne hji] at hj
      exact absurd hj (hnone j)
  refine ⟨fun j k hj hk => ?_, fun h j hj => hquiet h (hfg j hj).2, fun c h => absurd h (hwait c)⟩
  rw [(hfg j hj).1, (hfg k hk).1]

/-- A step of `main`. -/
lemma mainStep (hs : OneForeground s) (hidle : s.handler = .idle) (ht : Tracked s)
    (h : MainStep s s') : OneForeground s' := by
  cases h with
  | read cmdline h =>
    refine hs.of_subset (fun _ => id) (fun _ => by rw [h]; trivial) ?_
    intro c
    obtain he | he | ⟨cmd, para, he⟩ | ⟨bg, he⟩ := eval_cases cmdline
    all_goals simp [he]
  | eof h => exact hs.of_subset (fun _ => id) (fun h => h.elim) (by simp [Shell.exit])
  | block h => exact hs.of_subset (fun _ => id) (fun _ => by rw [h]; trivial) (by simp)
  | fork pid h hpos hnew =>
    exact hs.of_subset (fun _ => id) (fun _ => by rw [h]; trivial) (by simp)
  | forkError h => exact hs.of_subset (fun _ => id) (fun h => h.elim) (by simp [Shell.exit])
  | @add cmdline bg pid h =>
    obtain ⟨hchild, -⟩ := ht.adding cmdline bg pid h
    have hmain : s.main.Quiet := by rw [h]; trivial
    obtain ⟨i, hi, hslots⟩ | ⟨-, hjobs⟩ :=
        JobList.addjob_cases s.jobs (if bg then .bg else .fg) cmdline (ht.pos pid hchild)
    · refine hs.of_quiet hmain hslots ?_ (by simp)
      intro hbg
      simp [show bg = true from hbg]
    · rw [hjobs]
      exact hs.of_subset (fun _ => id) (fun _ => hmain) (by simp)
  | @unblock bg pid h =>
    cases bg with
    | true => exact hs.of_subset (fun _ => id) (fun _ => by rw [h]; rfl) (by simp)
    | false => exact hs.of_subset (fun _ => id) (fun h => h.elim) (by simp)
  | @lookup cmd para h =>
    refine hs.of_subset (fun _ => id) (fun _ => by rw [h]; trivial) ?_
    intro c
    dsimp only
    split <;> simp
  | @switch cmd i h =>
    refine hs.of_subset (fun _ => id) (fun _ => by rw [h]; trivial) ?_
    intro c
    obtain he | he | ⟨-, he⟩ | ⟨-, he⟩ := doBgfgSwitch_cases i cmd (s.jobs.slots i).state
    all_goals simp [he]
  | @mark cmd i h =>
    refine hs.of_quiet (by rw [h]; trivial) JobList.setState_slots ?_ (by simp)
    intro hq
    have hcmd : cmd = .bg := hq
    simp [hcmd, Bgfg.state]
  | raise h =>
    exact hs.of_quiet (by rw [h]; trivial) JobList.setState_slots (fun hq => hq.elim) (by simp)
  | @resume cmd i notify h =>
    refine hs.of_subset (fun j hj => by simpa [Shell.InForeground] using hj) ?_ ?_
    · intro hq
      cases cmd with
      | fg => exact hq.elim
      | bg => rw [h]; rfl
    · intro c
      cases cmd <;> simp
  | killError h => exact hs.of_subset (fun _ => id) (fun h => h.elim) (by simp [Shell.exit])
  | @reset caller h =>
    exact ⟨hs.only, fun h => h.elim, fun c _ hr => nomatch hr⟩
  | sleep h hr => exact hs
  | @wake caller h hr =>
    refine ⟨hs.only, fun _ i hi => ?_, fun c h => nomatch h⟩
    obtain ⟨b, hb⟩ := hs.woken caller h hr i hi
    rw [hidle] at hb
    cases hb

/-- A step that changes neither the job list nor `main`, while the handler does not change the
job list. -/
lemma of_handler (hs : OneForeground s) (hmain : s'.main = s.main) (hjobs : s'.jobs = s.jobs)
    (hflag : s'.chldReaped = s.chldReaped) (hhandler : ∀ p b, s.handler ≠ .noted p b) :
    OneForeground s' := by
  have hfg : ∀ i, s'.InForeground i ↔ s.InForeground i := by
    intro i
    unfold Shell.InForeground
    rw [hjobs]
  refine ⟨fun i j hi hj => hs.only i j ((hfg i).1 hi) ((hfg j).1 hj), fun hq i hi => ?_,
    fun c hc hr i hi => ?_⟩
  · exact hs.quiet (hmain ▸ hq) i ((hfg i).1 hi)
  · obtain ⟨b, hb⟩ := hs.woken c (hmain ▸ hc) (hflag ▸ hr) i ((hfg i).1 hi)
    exact absurd hb (hhandler _ b)

/-- The handler changes the job list, so that the child that it deals with is not in the
foreground afterwards. -/
lemma of_noted (hs : OneForeground s) {pid : ℕ} {stopped : Bool}
    (h : s.handler = .noted pid stopped) (hmain : s'.main = s.main)
    (hflag : s'.chldReaped = s.chldReaped)
    (hsub : ∀ j, s'.InForeground j → s.InForeground j ∧ (s.jobs.slots j).pid ≠ pid) :
    OneForeground s' := by
  refine ⟨fun j k hj hk => hs.only j k (hsub j hj).1 (hsub k hk).1,
    fun hq j hj => hs.quiet (hmain ▸ hq) j (hsub j hj).1, fun c hc hr j hj => ?_⟩
  obtain ⟨hj, hne⟩ := hsub j hj
  obtain ⟨b, hb⟩ := hs.woken c (hmain ▸ hc) (hflag ▸ hr) j hj
  rw [h] at hb
  cases hb
  exact absurd rfl hne

/-- A slot that leaves the foreground. -/
lemma foreground_of_update {i j : Fin MAXJOBS} {job : Job} (hjob : job.state ≠ .fg)
    (hslots : s'.jobs.slots = Function.update s.jobs.slots i job) (hj : s'.InForeground j) :
    s.InForeground j ∧ j ≠ i := by
  unfold Shell.InForeground at hj
  rw [hslots] at hj
  by_cases hji : j = i
  · exact absurd (by simpa [hji] using hj) hjob
  · rw [Function.update_of_ne hji] at hj
    exact ⟨hj, hji⟩

/-- The slot of the child that the handler deals with leaves the foreground. -/
lemma foreground_of_handled (ht : Tracked s) {i j : Fin MAXJOBS} {job : Job}
    (hpos : 0 < (s.jobs.slots i).pid) (hjob : job.state ≠ .fg)
    (hslots : s'.jobs.slots = Function.update s.jobs.slots i job) (hj : s'.InForeground j) :
    s.InForeground j ∧ (s.jobs.slots j).pid ≠ (s.jobs.slots i).pid := by
  obtain ⟨hj, hji⟩ := foreground_of_update hjob hslots hj
  exact ⟨hj, fun he => hji (ht.distinct j i (by omega) he)⟩

/-- A step of the handler. -/
lemma handlerStep (hs : OneForeground s) (ht : Tracked s) (h : HandlerStep s s') :
    OneForeground s' := by
  cases h with
  | enter h hp hb => exact hs.of_handler rfl rfl rfl (by simp [h])
  | stopped pid h hpid => exact hs.of_handler rfl rfl rfl (by simp [h])
  | terminated pid h hpid => exact hs.of_handler rfl rfl rfl (by simp [h])
  | unchanged h hpid hnone => exact hs.of_handler rfl rfl rfl (by simp [h])
  | waitpidError h hnone =>
    exact hs.of_subset (fun _ => id) (fun h => h.elim) (by simp [Shell.exit])
  | @note pid stopped h =>
    refine ⟨hs.only, hs.quiet, fun c hc hr i hi => ⟨stopped, ?_⟩⟩
    by_cases hpid : pid = s.jobs.fgpid
    · -- The child is the only job in the foreground.
      rw [hpid, JobList.fgpid_eq hs.only hi]
    · obtain ⟨b, hb⟩ := hs.woken c hc (by simpa [hpid] using hr) i hi
      rw [h] at hb
      cases hb
  | @markStopped pid i h hi =>
    have hpid := JobList.pid_of_getjobpid hi
    have hpos := (ht.noted h).1
    refine hs.of_noted h rfl rfl fun j hj => ?_
    rw [← hpid] at hpos ⊢
    exact foreground_of_handled ht hpos (by simp) JobList.setState_slots hj
  | @crash pid h hi =>
    have hpos := (ht.noted h).1
    exact hs.of_noted h rfl rfl fun j hj => ⟨hj, JobList.pid_ne_of_getjobpid hpos hi⟩
  | @delete pid h =>
    have hpos := (ht.noted h).1
    refine hs.of_noted h rfl rfl fun j hj => ?_
    obtain ⟨i, rfl, hslots⟩ | ⟨hne, hjobs⟩ := JobList.deletejob_cases s.jobs hpos
    · exact foreground_of_handled ht hpos (by simp [Job.clear]) hslots hj
    · unfold Shell.InForeground at hj
      rw [hjobs] at hj
      exact ⟨hj, hne j⟩

/-- A step that changes neither the job list nor the flag, `main` and the handler. -/
lemma of_same (hs : OneForeground s) (hmain : s'.main = s.main) (hjobs : s'.jobs = s.jobs)
    (hflag : s'.chldReaped = s.chldReaped) (hhandler : s'.handler = s.handler) :
    OneForeground s' := by
  cases s
  cases s'
  cases hmain
  cases hjobs
  cases hflag
  cases hhandler
  exact ⟨hs.only, hs.quiet, hs.woken⟩

/-- **The foreground.** Every step keeps at most one job in the foreground. -/
theorem step (hs : OneForeground s) (ht : Tracked s) (h : Step s s') : OneForeground s' := by
  cases h with
  | main hidle h => exact hs.mainStep hidle ht h
  | handler hrun h => exact hs.handlerStep ht h
  | signal h =>
    cases h with
    | killError h => exact hs.of_subset (fun _ => id) (fun h => h.elim) (by simp [Shell.exit])
    | quit => exact hs.of_subset (fun _ => id) (fun h => h.elim) (by simp [Shell.exit])
  | kernel h =>
    cases h with
    | stop pid h => exact hs.of_same rfl rfl rfl rfl
    | terminate pid h hst => exact hs.of_same rfl rfl rfl rfl
    | cont pid notify => exact hs.of_same (by simp) (by simp) (by simp) (by simp)

end OneForeground

/-- At most one job is in the foreground in every run. -/
theorem ReachableIf.oneForeground {ok : Shell → Prop} {s : Shell} (h : ReachableIf ok s) :
    OneForeground s :=
  h.invariant OneForeground.start fun _ _ _ ht hs hstep => hs.step ht hstep

/-- **One foreground job.** In every run, at most one job is in the foreground, and none is when
the shell is about to read a command line or to look at the state of the job that `fg` or `bg`
names. -/
theorem reachable_foreground (s : Shell) (h : Reachable s) :
    (∀ i j, (s.jobs.slots i).state = .fg → (s.jobs.slots j).state = .fg → i = j) ∧
    (s.main = .prompt → ∀ i, (s.jobs.slots i).state ≠ .fg) ∧
    (∀ cmd i, s.main = .switch cmd i → (s.jobs.slots i).state ≠ .fg) := by
  have hs := ReachableIf.oneForeground h
  refine ⟨hs.only, fun hmain i => ?_, fun cmd i hmain => ?_⟩
  · exact hs.quiet (by rw [hmain]; trivial) i
  · exact hs.quiet (by rw [hmain]; trivial) i

/-- A shell that waits for a job in the foreground. -/
theorem reachable_foreground_waiting : ∃ s : Shell, s.main = .wait (.eval 1) ∧
    (s.jobs.slots 0).state = .fg ∧ (s.main = .prompt → ∀ i, (s.jobs.slots i).state ≠ .fg) := by
  have h₀ := ReachableIf.start.launch 1 (fun _ _ _ _ => trivial) rfl rfl eval_ls (by decide) rfl
  have h₁ := h₀.step trivial (.main rfl (.unblock rfl))
  have h₂ := h₁.step trivial (.main rfl (.reset rfl))
  exact ⟨_, rfl, by decide +kernel, (reachable_foreground _ h₂).2.1⟩

end Tsh
