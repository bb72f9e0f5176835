import Mathlib.Data.Fintype.Pi
import SE101.Lib.LittleEndian

set_option relaxedAutoImplicit false
set_option autoImplicit false

/-!
# The job list of the shell

The shell keeps its jobs in a table of `MAXJOBS` slots; a slot whose pid is `0` is free. The
helper routines go through the slots in order and stop at the first one that fits.

## Main definitions

* `Tsh.Job`, `Tsh.JobList` — a slot, and the slots together with the next job id.
* `Tsh.JobList.addjob`, `Tsh.JobList.deletejob` — the routines that change the list.
* `Tsh.JobList.fgpid`, `Tsh.JobList.getjobpid`, `Tsh.JobList.getjobjid` — the searches.

## Main results

* `Tsh.JobList.addjob_cases`, `Tsh.JobList.deletejob_cases` — which slot they change.
-/

namespace Tsh

open LittleEndian

/-- `MAXJOBS`: the most jobs at any point in time. -/
abbrev MAXJOBS : ℕ := 16

/-- The states of a job. -/
inductive JobState
  /-- `UNDEF`: undefined. -/
  | undef
  /-- `FG`: running in foreground. -/
  | fg
  /-- `BG`: running in background. -/
  | bg
  /-- `ST`: stopped. -/
  | st
  deriving DecidableEq, Repr

/-- `struct job_t`. -/
structure Job where
  pid : ℕ
  jid : ℕ
  state : JobState
  cmdline : List Byte
  deriving DecidableEq

/-- `clearjob`. -/
def Job.clear : Job := ⟨0, 0, .undef, []⟩

/-- `jobs` and `nextjid`. -/
structure JobList where
  slots : Fin MAXJOBS → Job
  nextjid : ℕ

namespace JobList

/-- `initjobs`, before any job was added. -/
def initjobs : JobList := ⟨fun _ => Job.clear, 1⟩

variable (jobs : JobList) (pid jid : ℕ) (state : JobState) (cmdline : List Byte)
  (i j : Fin MAXJOBS)

/-- `maxjid`: the largest allocated job id. -/
def maxjid : ℕ := (List.finRange MAXJOBS).foldl (fun m i => max m (jobs.slots i).jid) 0

/-- A slot with a new content. -/
def set (job : Job) : JobList := { jobs with slots := Function.update jobs.slots i job }

/-- `job->state = state`. -/
def setState : JobList := jobs.set i { jobs.slots i with state := state }

/-- `addjob`: the first free slot takes the job and the next job id. Without a free slot, and for
a pid that is none, the list stays and the result is `false`. -/
def addjob : Bool × JobList :=
  if pid < 1 then (false, jobs)
  else match Fin.find? fun i => (jobs.slots i).pid == 0 with
  | some i => (true,
    { slots := Function.update jobs.slots i ⟨pid, jobs.nextjid, state, cmdline⟩,
      nextjid := if jobs.nextjid + 1 > MAXJOBS then 1 else jobs.nextjid + 1 })
  | none => (false, jobs)

/-- `deletejob`: the first slot with the pid is cleared, and the next job id is one more than the
largest. -/
def deletejob : Bool × JobList :=
  if pid < 1 then (false, jobs)
  else match Fin.find? fun i => (jobs.slots i).pid == pid with
  | some i => (true, { jobs.set i Job.clear with nextjid := (jobs.set i Job.clear).maxjid + 1 })
  | none => (false, jobs)

/-- `fgpid`: the pid of the first slot in the foreground, `0` if there is none. -/
def fgpid : ℕ :=
  match Fin.find? fun i => (jobs.slots i).state == .fg with
  | some i => (jobs.slots i).pid
  | none => 0

/-- `getjobpid`: the first slot with the pid. -/
def getjobpid : Option (Fin MAXJOBS) :=
  if pid < 1 then none else Fin.find? fun i => (jobs.slots i).pid == pid

/-- `getjobjid`: the first slot with the job id. -/
def getjobjid : Option (Fin MAXJOBS) :=
  if jid < 1 then none else Fin.find? fun i => (jobs.slots i).jid == jid

/-- `pid2jid`: the job id of the first slot with the pid, `0` if there is none. -/
def pid2jid : ℕ :=
  match jobs.getjobpid pid with
  | some i => (jobs.slots i).jid
  | none => 0

variable {jobs pid jid state cmdline i j}

@[simp] lemma set_slots (job : Job) :
    (jobs.set i job).slots = Function.update jobs.slots i job := rfl

@[simp] lemma setState_slots : (jobs.setState state i).slots =
    Function.update jobs.slots i { jobs.slots i with state := state } := rfl

/-- Writing a state changes no pid. -/
@[simp] lemma setState_pid : ((jobs.setState state i).slots j).pid = (jobs.slots j).pid := by
  by_cases hj : j = i
  · subst hj; simp
  · simp [hj]

/-- What holds of all slots still holds when it holds of the new content of one. -/
lemma forall_update {P : Job → Prop} {slots : Fin MAXJOBS → Job} {job : Job}
    (h : ∀ j, P (slots j)) (hjob : P job) (j : Fin MAXJOBS) :
    P (Function.update slots i job j) := by
  by_cases hji : j = i
  · rw [hji, Function.update_self]
    exact hjob
  · rw [Function.update_of_ne hji]
    exact h j

/-- Slots in use still differ in `f` when the new content of one is free or differs from the
others. -/
lemma distinct_update {f : Job → ℕ} {slots : Fin MAXJOBS → Job} {job : Job}
    (h : ∀ j k, (slots j).pid ≠ 0 → (slots k).pid ≠ 0 → f (slots j) = f (slots k) → j = k)
    (hjob : job.pid ≠ 0 → ∀ j, (slots j).pid ≠ 0 → f (slots j) ≠ f job) (j k : Fin MAXJOBS)
    (hj : (Function.update slots i job j).pid ≠ 0) (hk : (Function.update slots i job k).pid ≠ 0)
    (hjk : f (Function.update slots i job j) = f (Function.update slots i job k)) : j = k := by
  by_cases hji : j = i <;> by_cases hki : k = i
  · rw [hji, hki]
  · subst hji
    rw [Function.update_self] at hj hjk
    rw [Function.update_of_ne hki] at hk hjk
    exact absurd hjk.symm (hjob hj k hk)
  · subst hki
    rw [Function.update_self] at hk hjk
    rw [Function.update_of_ne hji] at hj hjk
    exact absurd hjk (hjob hk j hj)
  · rw [Function.update_of_ne hji] at hj hjk
    rw [Function.update_of_ne hki] at hk hjk
    exact h j k hj hk hjk

/-- A job that was found by its pid has that pid. -/
lemma pid_of_getjobpid (h : jobs.getjobpid pid = some i) : (jobs.slots i).pid = pid := by
  unfold getjobpid at h
  split_ifs at h
  simpa using (Fin.find?_eq_some_iff.1 h).1

/-- A pid that was not found is in no slot. -/
lemma pid_ne_of_getjobpid (hpid : 0 < pid) (h : jobs.getjobpid pid = none) :
    (jobs.slots i).pid ≠ pid := by
  unfold getjobpid at h
  rw [if_neg (by omega)] at h
  simpa using Fin.find?_eq_none_iff.1 h i

/-- **Adding a job** fills a free slot or, if there is none, changes nothing. -/
theorem addjob_cases (jobs : JobList) (state : JobState) (cmdline : List Byte)
    (hpid : 0 < pid) :
    (∃ i, (jobs.slots i).pid = 0 ∧ (jobs.addjob pid state cmdline).2.slots =
      Function.update jobs.slots i ⟨pid, jobs.nextjid, state, cmdline⟩) ∨
    ((∀ i, (jobs.slots i).pid ≠ 0) ∧ (jobs.addjob pid state cmdline).2 = jobs) := by
  unfold addjob
  rw [if_neg (by omega)]
  split
  · next i hi =>
    left
    exact ⟨i, by simpa using (Fin.find?_eq_some_iff.1 hi).1, rfl⟩
  · next hi =>
    right
    exact ⟨fun i => by simpa using Fin.find?_eq_none_iff.1 hi i, rfl⟩

/-- **Deleting a job** clears a slot with its pid or, if there is none, changes nothing. -/
theorem deletejob_cases (jobs : JobList) (hpid : 0 < pid) :
    (∃ i, (jobs.slots i).pid = pid ∧ (jobs.deletejob pid).2.slots =
      Function.update jobs.slots i Job.clear) ∨
    ((∀ i, (jobs.slots i).pid ≠ pid) ∧ (jobs.deletejob pid).2 = jobs) := by
  unfold deletejob
  rw [if_neg (by omega)]
  split
  · next i hi =>
    left
    exact ⟨i, by simpa using (Fin.find?_eq_some_iff.1 hi).1, rfl⟩
  · next hi =>
    right
    exact ⟨fun i => by simpa using Fin.find?_eq_none_iff.1 hi i, rfl⟩

/-- Deleting a job leaves the slots of other jobs alone. -/
lemma deletejob_slots (hpid : 0 < pid) (hi : (jobs.slots i).pid ≠ pid) :
    (jobs.deletejob pid).2.slots i = jobs.slots i := by
  obtain ⟨j, hj, hslots⟩ | ⟨-, hjobs⟩ := deletejob_cases jobs hpid
  · rw [hslots, Function.update_of_ne]
    rintro rfl
    exact hi hj
  · rw [hjobs]

/-- Writing the state of a job leaves the slots of other jobs alone. -/
lemma setState_slots_of_pid_ne (h : jobs.getjobpid pid = some i) (hj : (jobs.slots j).pid ≠ pid) :
    (jobs.setState state i).slots j = jobs.slots j := by
  rw [setState_slots, Function.update_of_ne]
  rintro rfl
  exact hj (pid_of_getjobpid h)

/-- There is no job in the foreground. -/
lemma fgpid_eq_zero (h : ∀ i, (jobs.slots i).state ≠ .fg) : jobs.fgpid = 0 := by
  unfold fgpid
  split
  · next i hi => exact absurd (by simpa using (Fin.find?_eq_some_iff.1 hi).1) (h i)
  · rfl

/-- The job that `fgpid` finds is in the foreground. -/
lemma exists_of_fgpid (h : jobs.fgpid = pid) (hpid : 0 < pid) :
    ∃ i, (jobs.slots i).state = .fg ∧ (jobs.slots i).pid = pid := by
  unfold fgpid at h
  split at h
  · next i hi => exact ⟨i, by simpa using (Fin.find?_eq_some_iff.1 hi).1, h⟩
  · omega

/-- The only job in the foreground is the one that `fgpid` finds. -/
lemma fgpid_eq (honly : ∀ i j, (jobs.slots i).state = .fg → (jobs.slots j).state = .fg → i = j)
    (hi : (jobs.slots i).state = .fg) : jobs.fgpid = (jobs.slots i).pid := by
  unfold fgpid
  split
  · next j hj =>
    rw [honly j i (by simpa using (Fin.find?_eq_some_iff.1 hj).1) hi]
  · next hj =>
    simpa [hi] using Fin.find?_eq_none_iff.1 hj i

end JobList

end Tsh
