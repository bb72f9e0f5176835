import SE101.Tsh.Jobs

set_option relaxedAutoImplicit false
set_option autoImplicit false

/-!
# Job ids

`addjob` gives a job the next job id and starts again at `1` behind `MAXJOBS`, whether or not `1` is
in use; `deletejob` sets the counter behind the largest job id. So job ids stay distinct exactly as
long as the counter is not the id of a job when a job is added, which a job that outlives `MAXJOBS`
others breaks.

## Main definitions

* `Tsh.JobCall` — a call of `addjob` or `deletejob`.
* `Tsh.JobList.JidLaw` — job ids are distinct, and lead back to the slot of a pid.
* `Tsh.JobCall.JidFree` — the job id that the call gives is not in use.

## Main results

* `Tsh.JobCall.jidsDistinct_run` — what one call does.
* `Tsh.jidLaw_iff` — the sequences of calls that keep the law.
* `Tsh.not_jidLaw` — a first job that is still there when the seventeenth is added.
-/

namespace Tsh

open LittleEndian

namespace JobList

/-- Jobs have different job ids. -/
def JidsDistinct (jobs : JobList) : Prop :=
  ∀ i j, (jobs.slots i).pid ≠ 0 → (jobs.slots j).pid ≠ 0 →
    (jobs.slots i).jid = (jobs.slots j).jid → i = j

/-- Jobs have different job ids, and the job id of a listed pid leads back to its slot. -/
structure JidLaw (jobs : JobList) : Prop where
  distinct : jobs.JidsDistinct
  found : ∀ i, (jobs.slots i).pid ≠ 0 →
    jobs.getjobjid (jobs.pid2jid (jobs.slots i).pid) = some i

/-- What every sequence of calls keeps. -/
structure Kept (jobs : JobList) : Prop where
  nextjid : 0 < jobs.nextjid
  free : ∀ i, (jobs.slots i).pid = 0 → (jobs.slots i).jid = 0
  used : ∀ i, (jobs.slots i).pid ≠ 0 → 0 < (jobs.slots i).jid
  pids : ∀ i j, (jobs.slots i).pid ≠ 0 → (jobs.slots i).pid = (jobs.slots j).pid → i = j

variable {jobs : JobList} {pid : ℕ} {state : JobState} {cmdline : List Byte} {i : Fin MAXJOBS}

/-- The empty list is kept. -/
lemma kept_initjobs : initjobs.Kept where
  nextjid := Nat.one_pos
  free _ _ := rfl
  used _ h := absurd rfl h
  pids _ _ h _ := absurd rfl h

/-- A pid is found in its slot. -/
lemma Kept.getjobpid (hk : jobs.Kept) (hi : (jobs.slots i).pid ≠ 0) :
    jobs.getjobpid (jobs.slots i).pid = some i := by
  unfold JobList.getjobpid
  rw [if_neg (by omega)]
  refine Fin.find?_eq_some_iff.2 ⟨beq_self_eq_true _, fun j hj => ?_⟩
  have hne : (jobs.slots j).pid ≠ (jobs.slots i).pid := fun h => hj.ne (hk.pids i j hi h.symm).symm
  simpa using hne

/-- Distinct job ids lead back to their slots. -/
lemma Kept.jidLaw_iff_distinct (hk : jobs.Kept) : jobs.JidLaw ↔ jobs.JidsDistinct := by
  refine ⟨JidLaw.distinct, fun hd => ⟨hd, fun i hi => ?_⟩⟩
  have hjid := hk.used i hi
  rw [pid2jid, hk.getjobpid hi]
  unfold getjobjid
  rw [if_neg (by simpa using hjid.ne')]
  refine Fin.find?_eq_some_iff.2 ⟨beq_self_eq_true _, fun j hj => ?_⟩
  have hne : (jobs.slots j).jid ≠ (jobs.slots i).jid := by
    intro h
    have hj0 : (jobs.slots j).pid ≠ 0 := by
      intro h0
      rw [hk.free j h0] at h
      omega
    exact hj.ne (hd j i hj0 hi h)
  simpa using hne

end JobList

/-! ## One call -/

/-- A call that changes the list. -/
inductive JobCall
  /-- `addjob`. -/
  | add (pid : ℕ) (state : JobState) (cmdline : List Byte)
  /-- `deletejob`. -/
  | delete (pid : ℕ)

namespace JobCall

/-- The list after the call. -/
def run (jobs : JobList) : JobCall → JobList
  | add pid state cmdline => (jobs.addjob pid state cmdline).2
  | delete pid => (jobs.deletejob pid).2

/-- A job is added with a pid that is none of the list's. -/
def Legal (jobs : JobList) : JobCall → Prop
  | add pid _ _ => 0 < pid ∧ ∀ i, (jobs.slots i).pid ≠ pid
  | delete _ => True

/-- When a slot is free for a new job, the next job id is not in use. -/
def JidFree (jobs : JobList) : JobCall → Prop
  | add _ _ _ => (∃ i, (jobs.slots i).pid = 0) →
      ∀ i, (jobs.slots i).pid ≠ 0 → (jobs.slots i).jid ≠ jobs.nextjid
  | delete _ => True

instance (jobs : JobList) : (call : JobCall) → Decidable (call.Legal jobs)
  | add _ _ _ => inferInstanceAs (Decidable (_ ∧ _))
  | delete _ => inferInstanceAs (Decidable True)

instance (jobs : JobList) : (call : JobCall) → Decidable (call.JidFree jobs)
  | add _ _ _ => inferInstanceAs (Decidable (_ → _))
  | delete _ => inferInstanceAs (Decidable True)

variable {jobs : JobList} {call : JobCall}

/-- The next job id is positive. -/
lemma nextjid_run (h : 0 < jobs.nextjid) (call : JobCall) : 0 < (call.run jobs).nextjid := by
  cases call with
  | add pid state cmdline =>
    show 0 < (jobs.addjob pid state cmdline).2.nextjid
    unfold JobList.addjob
    by_cases hpid : pid < 1
    · rw [if_pos hpid]
      exact h
    · rw [if_neg hpid]
      cases Fin.find? fun i => (jobs.slots i).pid == 0 with
      | none => exact h
      | some i =>
        show 0 < if jobs.nextjid + 1 > MAXJOBS then 1 else jobs.nextjid + 1
        split_ifs
        · exact Nat.one_pos
        · exact Nat.succ_pos _
  | delete pid =>
    show 0 < (jobs.deletejob pid).2.nextjid
    unfold JobList.deletejob
    by_cases hpid : pid < 1
    · rw [if_pos hpid]
      exact h
    · rw [if_neg hpid]
      cases Fin.find? fun i => (jobs.slots i).pid == pid with
      | none => exact h
      | some i => exact Nat.succ_pos _

/-- A call fills a free slot, or clears a slot, or changes no slot. -/
lemma run_cases (hlegal : call.Legal jobs) :
    (∃ i pid state cmdline, call = add pid state cmdline ∧ (jobs.slots i).pid = 0 ∧
      (call.run jobs).slots =
        Function.update jobs.slots i ⟨pid, jobs.nextjid, state, cmdline⟩) ∨
    (∃ i, call.JidFree jobs ∧ (call.run jobs).slots = Function.update jobs.slots i Job.clear) ∨
    (call.JidFree jobs ∧ (call.run jobs).slots = jobs.slots) := by
  cases call with
  | add pid state cmdline =>
    obtain ⟨i, hi, hslots⟩ | ⟨hfull, hsame⟩ := JobList.addjob_cases jobs state cmdline hlegal.1
    · exact Or.inl ⟨i, pid, state, cmdline, rfl, hi, hslots⟩
    · refine Or.inr (Or.inr ⟨?_, congrArg JobList.slots hsame⟩)
      rintro ⟨i, hi⟩
      exact absurd hi (hfull i)
  | delete pid =>
    by_cases hpid : 0 < pid
    · obtain ⟨i, -, hslots⟩ | ⟨-, hsame⟩ := JobList.deletejob_cases jobs hpid
      · exact Or.inr (Or.inl ⟨i, trivial, hslots⟩)
      · exact Or.inr (Or.inr ⟨trivial, congrArg JobList.slots hsame⟩)
    · refine Or.inr (Or.inr ⟨trivial, ?_⟩)
      rw [run, JobList.deletejob, if_pos (by omega)]

/-- A call keeps what is kept. -/
lemma kept_run (hk : jobs.Kept) (hlegal : call.Legal jobs) : (call.run jobs).Kept := by
  have hnext := nextjid_run hk.nextjid call
  have hpids : ∀ j k, (jobs.slots j).pid ≠ 0 → (jobs.slots k).pid ≠ 0 →
      (jobs.slots j).pid = (jobs.slots k).pid → j = k := fun j k hj _ => hk.pids j k hj
  obtain ⟨i, pid, state, cmdline, rfl, hi, hslots⟩ | ⟨i, -, hslots⟩ | ⟨-, hslots⟩ :=
    run_cases hlegal
  · refine ⟨hnext, fun j => ?_, fun j => ?_, fun j k hj hjk => ?_⟩
    · rw [hslots]
      exact JobList.forall_update (P := fun job => job.pid = 0 → job.jid = 0) hk.free
        (fun h => absurd h hlegal.1.ne') j
    · rw [hslots]
      exact JobList.forall_update (P := fun job => job.pid ≠ 0 → 0 < job.jid) hk.used
        (fun _ => hk.nextjid) j
    · have hk0 := hjk ▸ hj
      rw [hslots] at hj hk0 hjk
      exact JobList.distinct_update hpids (fun _ j _ => hlegal.2 j) j k hj hk0 hjk
  · refine ⟨hnext, fun j => ?_, fun j => ?_, fun j k hj hjk => ?_⟩
    · rw [hslots]
      exact JobList.forall_update (P := fun job => job.pid = 0 → job.jid = 0) hk.free
        (fun _ => rfl) j
    · rw [hslots]
      exact JobList.forall_update (P := fun job => job.pid ≠ 0 → 0 < job.jid) hk.used
        (fun h => absurd rfl h) j
    · have hk0 := hjk ▸ hj
      rw [hslots] at hj hk0 hjk
      exact JobList.distinct_update hpids (fun h => absurd rfl h) j k hj hk0 hjk
  · exact ⟨hnext, hslots ▸ hk.free, hslots ▸ hk.used, hslots ▸ hk.pids⟩

/-- Job ids stay distinct exactly when the new one is not in use. -/
lemma jidsDistinct_run (hd : jobs.JidsDistinct) (hlegal : call.Legal jobs) :
    (call.run jobs).JidsDistinct ↔ call.JidFree jobs := by
  unfold JobList.JidsDistinct
  obtain ⟨i, pid, state, cmdline, rfl, hi, hslots⟩ | ⟨i, hfree, hslots⟩ | ⟨hfree, hslots⟩ :=
    run_cases hlegal
  · rw [hslots]
    constructor
    · intro h _ j hj hjid
      have hji : j ≠ i := fun h => hj (h ▸ hi)
      refine hji (h j i ?_ ?_ ?_)
      · rwa [Function.update_of_ne hji]
      · rw [Function.update_self]
        exact hlegal.1.ne'
      · rw [Function.update_self, Function.update_of_ne hji, hjid]
    · intro hfree
      exact JobList.distinct_update hd fun _ j hj => hfree ⟨i, hi⟩ j hj
  · rw [hslots]
    exact iff_of_true (JobList.distinct_update hd fun h => absurd rfl h) hfree
  · rw [hslots]
    exact iff_of_true hd hfree

end JobCall

/-! ## Sequences of calls -/

/-- Every call of a sequence meets a condition on the list before it. -/
def Calls (P : JobList → JobCall → Prop) : JobList → List JobCall → Prop
  | _, [] => True
  | jobs, call :: calls => P jobs call ∧ Calls P (call.run jobs) calls

instance decidableCalls {P : JobList → JobCall → Prop} [∀ jobs call, Decidable (P jobs call)] :
    (jobs : JobList) → (calls : List JobCall) → Decidable (Calls P jobs calls)
  | _, [] => inferInstanceAs (Decidable True)
  | jobs, call :: calls =>
    have := decidableCalls (P := P) (call.run jobs) calls
    inferInstanceAs (Decidable (_ ∧ _))

/-- The list after a sequence of calls. -/
def runCalls (jobs : JobList) (calls : List JobCall) : JobList := calls.foldl JobCall.run jobs

variable {jobs : JobList} {calls : List JobCall}

/-- What holds after every part of a sequence holds at first and after every call. -/
lemma forall_prefix_iff {P : JobList → Prop} :
    (∀ pre, pre <+: calls → P (runCalls jobs pre)) ↔
      P jobs ∧ Calls (fun jobs call => P (call.run jobs)) jobs calls := by
  induction calls generalizing jobs with
  | nil => simp [Calls, runCalls]
  | cons call calls ih =>
    have hcons : (∀ pre, pre <+: call :: calls → P (runCalls jobs pre)) ↔
        P jobs ∧ ∀ pre, pre <+: calls → P (runCalls (call.run jobs) pre) := by
      constructor
      · intro h
        exact ⟨h [] List.nil_prefix, fun pre hpre => h _ (List.cons_prefix_cons.2 ⟨rfl, hpre⟩)⟩
      · rintro ⟨h, hrest⟩ pre hpre
        cases pre with
        | nil => exact h
        | cons c pre =>
          obtain ⟨rfl, htail⟩ := List.cons_prefix_cons.1 hpre
          exact hrest pre htail
    rw [hcons, ih, Calls]

/-- The law along a sequence, from any list that is kept.

**Proof sketch.** Induct on the sequence. On lists that are kept the law says that job ids are
distinct, and one call decides it for the next list. -/
lemma jidLaw_calls_iff (hk : jobs.Kept) (hd : jobs.JidsDistinct)
    (hlegal : Calls (fun jobs call => call.Legal jobs) jobs calls) :
    Calls (fun jobs call => (call.run jobs).JidLaw) jobs calls ↔
      Calls (fun jobs call => call.JidFree jobs) jobs calls := by
  induction calls generalizing jobs with
  | nil => exact Iff.rfl
  | cons call calls ih =>
    obtain ⟨hcall, hcalls⟩ := hlegal
    have hk' := JobCall.kept_run hk hcall
    rw [Calls, Calls, hk'.jidLaw_iff_distinct, JobCall.jidsDistinct_run hd hcall]
    refine and_congr_right fun hfree => ?_
    exact ih hk' ((JobCall.jidsDistinct_run hd hcall).2 hfree) hcalls

/-- **Job ids.** The sequences of calls after every part of which job ids are distinct and lead
back to their slots. -/
theorem jidLaw_iff (hlegal : Calls (fun jobs call => call.Legal jobs) .initjobs calls) :
    (∀ pre, pre <+: calls → (runCalls .initjobs pre).JidLaw) ↔
      Calls (fun jobs call => call.JidFree jobs) .initjobs calls := by
  have hd : JobList.initjobs.JidsDistinct := fun _ _ h => absurd rfl h
  rw [forall_prefix_iff, and_iff_right (JobList.kept_initjobs.jidLaw_iff_distinct.2 hd)]
  exact jidLaw_calls_iff JobList.kept_initjobs hd hlegal

/-- Two jobs at once, the first of which ends before a third one is added. -/
def overlappingCalls : List JobCall := [.add 7 .fg [], .add 9 .bg [], .delete 7, .add 11 .bg []]

/-- The law holds after each of the calls, and after the second one there are two jobs. -/
theorem jidLaw_iff_two :
    ((runCalls .initjobs (overlappingCalls.take 2)).slots 0).pid = 7 ∧
      ((runCalls .initjobs (overlappingCalls.take 2)).slots 1).pid = 9 ∧
      ∀ pre, pre <+: overlappingCalls → (runCalls .initjobs pre).JidLaw :=
  ⟨by decide +kernel, by decide +kernel, (jidLaw_iff (by decide +kernel)).2 (by decide +kernel)⟩

/-- Fifteen jobs are added, one that is not the first is deleted, and two more are added. -/
def wrappingCalls : List JobCall :=
  (List.range 15).map (fun k => .add (k + 1) .bg []) ++
    [.delete 2, .add 16 .bg [], .add 17 .bg []]

/-- The last job has the id of the first. -/
theorem not_jidLaw : Calls (fun jobs call => call.Legal jobs) .initjobs wrappingCalls ∧
    ¬ (runCalls .initjobs wrappingCalls).JidLaw := by
  refine ⟨by decide +kernel, fun h => ?_⟩
  have hsame : (0 : Fin MAXJOBS) = 15 :=
    h.distinct 0 15 (by decide +kernel) (by decide +kernel) (by decide +kernel)
  exact absurd hsame (by decide)

end Tsh
