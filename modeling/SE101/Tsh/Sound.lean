import SE101.Tsh.Pids

set_option relaxedAutoImplicit false
set_option autoImplicit false

/-!
# Sound slots

A free slot of the job list has no job id, so that `fg` and `bg` do not find it, and a used one has
a state.

## Main definitions

* `Tsh.Job.Sound`, `Tsh.Shell.Sound` — the invariant.

## Main results

* `Tsh.Shell.Sound.step` — every step keeps it.
* `Tsh.JobList.pid_ne_of_lookup` — what `do_bgfg` finds is in use.
-/

namespace Tsh

open LittleEndian

/-- A free slot has no job id, and a used one has a state. -/
structure Job.Sound (job : Job) : Prop where
  free : job.pid = 0 → job.jid = 0
  used : job.pid ≠ 0 → job.state ≠ .undef

variable {s s' : Shell}

/-- A cleared slot is sound. -/
lemma Job.sound_clear : Job.clear.Sound := ⟨fun _ => rfl, fun h => absurd rfl h⟩

namespace JobList

variable {jobs : JobList} {i : Fin MAXJOBS} {state : JobState} {pid : ℕ} {cmdline : List Byte}

/-- Writing a state. -/
lemma sound_setState (hs : ∀ j, (jobs.slots j).Sound) (hstate : state ≠ .undef)
    (j : Fin MAXJOBS) : ((jobs.setState state i).slots j).Sound := by
  have hjob : Job.Sound { jobs.slots i with state := state } := ⟨(hs i).free, fun _ => hstate⟩
  exact forall_update hs hjob j

/-- Adding a job. -/
lemma sound_addjob (hs : ∀ j, (jobs.slots j).Sound) (hstate : state ≠ .undef) (hpid : 0 < pid)
    (j : Fin MAXJOBS) : ((jobs.addjob pid state cmdline).2.slots j).Sound := by
  obtain ⟨i, -, hslots⟩ | ⟨-, hsame⟩ := addjob_cases jobs state cmdline hpid
  · have hjob : Job.Sound ⟨pid, jobs.nextjid, state, cmdline⟩ :=
      ⟨fun h => absurd h hpid.ne', fun _ => hstate⟩
    rw [hslots]
    exact forall_update hs hjob j
  · rw [hsame]
    exact hs j

/-- Deleting a job. -/
lemma sound_deletejob (hs : ∀ j, (jobs.slots j).Sound) (hpid : 0 < pid) (j : Fin MAXJOBS) :
    ((jobs.deletejob pid).2.slots j).Sound := by
  obtain ⟨i, -, hslots⟩ | ⟨-, hsame⟩ := deletejob_cases jobs hpid
  · rw [hslots]
    exact forall_update hs Job.sound_clear j
  · rw [hsame]
    exact hs j

/-- The slot that `do_bgfg` finds is in use. -/
lemma pid_ne_of_lookup {para : Option (List Byte)} (hs : ∀ j, (jobs.slots j).Sound)
    (h : jobs.lookup para = some i) : (jobs.slots i).pid ≠ 0 := by
  unfold lookup at h
  split at h
  · cases h
  · split_ifs at h
    unfold getjobjid at h
    split_ifs at h with hjid
    have hfound := (Fin.find?_eq_some_iff.1 h).1
    intro hpid
    rw [beq_iff_eq, (hs i).free hpid] at hfound
    omega
  · split_ifs at h
    have hfound := pid_of_getjobpid h
    unfold getjobpid at h
    split_ifs at h with hpid
    omega

end JobList

/-- The slots of a shell are sound. -/
def Shell.Sound (s : Shell) : Prop := ∀ j, (s.jobs.slots j).Sound

/-- **Sound slots.** Every step keeps the slots sound. -/
theorem Shell.Sound.step (hs : s.Sound) (ht : Tracked s) (h : Step s s') : s'.Sound := by
  have hstate : ∀ cmd : Bgfg, cmd.state ≠ .undef := by
    intro cmd
    cases cmd <;> exact nofun
  cases h with
  | main hidle h =>
    cases h with
    | @add cmdline bg pid h =>
      have hpid := ht.pos pid (ht.adding cmdline bg pid h).1
      exact JobList.sound_addjob hs (by cases bg <;> exact nofun) hpid
    | @mark cmd i h => exact JobList.sound_setState hs (hstate cmd)
    | raise h => exact JobList.sound_setState hs nofun
    | @resume cmd i notify h =>
      show ∀ j, ((s.signalCont (s.jobs.slots i).pid notify).jobs.slots j).Sound
      rw [Shell.signalCont_jobs]
      exact hs
    | _ => exact hs
  | handler hrun h =>
    cases h with
    | markStopped h hi => exact JobList.sound_setState hs nofun
    | @delete pid h =>
      exact JobList.sound_deletejob hs (ht.noted h).1
    | _ => exact hs
  | signal h => cases h <;> exact hs
  | kernel h =>
    cases h with
    | cont pid notify =>
      show ∀ j, ((s.signalCont pid notify).jobs.slots j).Sound
      rw [Shell.signalCont_jobs]
      exact hs
    | _ => exact hs

/-- The slots are sound in every run. -/
theorem ReachableIf.sound {ok : Shell → Prop} (h : ReachableIf ok s) : s.Sound :=
  h.invariant (fun _ => Job.sound_clear) fun _ _ _ ht hs hstep => hs.step ht hstep

end Tsh
