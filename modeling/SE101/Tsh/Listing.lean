import SE101.Lib.Lines
import SE101.Lib.Numeral
import SE101.Tsh.Foreground
import SE101.Tsh.Parseline
import SE101.Tsh.Sound

set_option relaxedAutoImplicit false
set_option autoImplicit false

/-!
# What `jobs` prints

`listjobs` prints one line for each job, which ends with the command line of the job.

## Main definitions

* `Tsh.JobList.listjobs` — what is printed.

## Main results

* `Tsh.listjobs_inj` — the listing determines the jobs.
* `Tsh.bgfg_of_listed` — `fg` and `bg` take the pids that are listed.

## Design

Nothing keeps `sigchld_handler` from changing the job list while it is printed. The listing here
is the one of a list that stays as it is.
-/

namespace Tsh

open LittleEndian CString Scan Quoting

/-! ## `listjobs` -/

/-- What is printed for the state of the job in slot `i`. -/
def JobState.shown (i : Fin MAXJOBS) : JobState → List Byte
  | .bg => ascii "Running "
  | .fg => ascii "Foreground "
  | .st => ascii "Stopped "
  | .undef => ascii "listjobs: Internal error: job[" ++ numeral i ++ ascii "].state=" ++
      numeral 0 ++ ascii " "

/-- What is printed for the job in slot `i`. -/
def Job.shown (i : Fin MAXJOBS) (job : Job) : List Byte :=
  ascii "[" ++ numeral job.jid ++ ascii "] (" ++ numeral job.pid ++ ascii ") " ++
    job.state.shown i ++ job.cmdline

namespace JobList

variable (jobs : JobList)

/-- `listjobs`. -/
def listjobs : List Byte :=
  ((List.finRange MAXJOBS).map fun i =>
    if (jobs.slots i).pid ≠ 0 then (jobs.slots i).shown i else []).flatten

/-- The jobs in the list. -/
def listed : List Job := ((List.finRange MAXJOBS).map jobs.slots).filter (·.pid ≠ 0)

end JobList

/-! ## The listing determines the jobs -/

/-- A job that has a state, with a command line that is a line. -/
structure Job.Listable (job : Job) : Prop where
  state : job.state ≠ .undef
  cmdline : ∃ s, newline ∉ s ∧ job.cmdline = s ++ [newline]

variable {job job' : Job} {jobs jobs' : JobList} {i j : Fin MAXJOBS}

/-- The slot is printed only if there is no state. -/
lemma JobState.shown_eq {state : JobState} (h : state ≠ .undef) (i j : Fin MAXJOBS) :
    state.shown i = state.shown j := by
  cases state with
  | undef => exact absurd rfl h
  | _ => rfl

/-- The words for the states differ in their first characters. -/
lemma JobState.shown_append_inj {state state' : JobState} {s s' : List Byte}
    (h : state ≠ .undef) (h' : state' ≠ .undef)
    (heq : state.shown i ++ s = state'.shown i ++ s') : state = state' ∧ s = s' := by
  by_cases hstate : state = state'
  · subst hstate
    exact ⟨rfl, List.append_cancel_left heq⟩
  · exfalso
    cases state <;> cases state' <;>
      first | exact h rfl | exact h' rfl | exact hstate rfl | simp [shown, ascii] at heq

/-- The parts of a line. -/
lemma Job.shown_eq (i : Fin MAXJOBS) (job : Job) : job.shown i = 91#8 :: (numeral job.jid ++
    93#8 :: 32#8 :: 40#8 :: (numeral job.pid ++
      41#8 :: 32#8 :: (job.state.shown i ++ job.cmdline))) := by
  simp [Job.shown, ascii]

/-- **A line determines its job.** -/
lemma Job.shown_inj (h : job.Listable) (h' : job'.Listable) (heq : job.shown i = job'.shown i) :
    job = job' := by
  rw [Job.shown_eq, Job.shown_eq] at heq
  obtain ⟨hjid, heq⟩ := numeral_append_inj (by decide) (List.cons.inj heq).2
  obtain ⟨hpid, heq⟩ := numeral_append_inj (c := 41#8) (by decide) (by simpa using heq)
  obtain ⟨hstate, hcmdline⟩ := JobState.shown_append_inj h.state h'.state (by simpa using heq)
  obtain ⟨pid, jid, state, cmdline⟩ := job
  obtain ⟨pid', jid', state', cmdline'⟩ := job'
  simp only at hpid hjid hstate hcmdline
  rw [hpid, hjid, hstate, hcmdline]

/-- The line without its end. -/
lemma Job.Listable.exists_line (h : job.Listable) (i : Fin MAXJOBS) :
    ∃ l, newline ∉ l ∧ job.shown i = l ++ [newline] := by
  obtain ⟨s, hs, hcmdline⟩ := h.cmdline
  have hnum (n : ℕ) : newline ∉ numeral n := notMem_numeral (by decide) n
  have hstate : newline ∉ job.state.shown i := by
    cases hst : job.state with
    | undef => exact absurd hst h.state
    | bg => exact (by decide : newline ∉ ascii "Running ")
    | fg => exact (by decide : newline ∉ ascii "Foreground ")
    | st => exact (by decide : newline ∉ ascii "Stopped ")
  refine ⟨_, ?_, by rw [Job.shown, hcmdline, ← List.append_assoc]⟩
  simp only [List.mem_append, not_or]
  exact ⟨⟨⟨⟨⟨⟨by decide, hnum _⟩, by decide⟩, hnum _⟩, by decide⟩, hstate⟩, hs⟩

/-- The listing in terms of the jobs. -/
lemma JobList.listjobs_eq (h : ∀ job ∈ jobs.listed, job.Listable) (i : Fin MAXJOBS) :
    jobs.listjobs = (jobs.listed.map (Job.shown i)).flatten := by
  have hslots (is : List (Fin MAXJOBS)) :
      (is.map fun j => if (jobs.slots j).pid ≠ 0 then (jobs.slots j).shown j else []).flatten =
        (((is.map jobs.slots).filter (·.pid ≠ 0)).map (Job.shown i)).flatten := by
    induction is with
    | nil => rfl
    | cons j is ih =>
      simp only [List.map_cons, List.flatten_cons, ih]
      by_cases hj : (jobs.slots j).pid = 0
      · rw [if_neg (not_not_intro hj), List.filter_cons_of_neg (by simpa using hj), List.nil_append]
      · have hmem : jobs.slots j ∈ jobs.listed :=
          List.mem_filter.2 ⟨List.mem_map_of_mem (List.mem_finRange j), by simpa using hj⟩
        rw [if_pos hj, List.filter_cons_of_pos (by simpa using hj), List.map_cons,
          List.flatten_cons, Job.shown, JobState.shown_eq (h _ hmem).state j i, Job.shown]
  exact hslots _

/-- **The listing determines the jobs**: their pids, job ids, states and command lines, and the
order of their slots. -/
theorem listjobs_inj (h : ∀ job ∈ jobs.listed, job.Listable)
    (h' : ∀ job ∈ jobs'.listed, job.Listable) (heq : jobs.listjobs = jobs'.listjobs) :
    jobs.listed = jobs'.listed := by
  rw [JobList.listjobs_eq h 0, JobList.listjobs_eq h' 0] at heq
  exact Lines.eq_of_flatten_map_eq (fun _ hjob => hjob.exists_line 0)
    (fun _ _ hjob hjob' => Job.shown_inj hjob hjob') h h' heq

/-- A job that has moved to another slot. -/
theorem listjobs_inj_moved :
    let job : Job := ⟨5, 1, .bg, ascii "/bin/ls &\n"⟩
    (JobList.initjobs.set 0 job).listed = (JobList.initjobs.set 3 job).listed := by
  intro job
  have hjob : job.Listable := ⟨by decide, ascii "/bin/ls &", by decide, rfl⟩
  have h₀ : (JobList.initjobs.set 0 job).listed = [job] := by decide +kernel
  have h₃ : (JobList.initjobs.set 3 job).listed = [job] := by decide +kernel
  refine listjobs_inj ?_ ?_ (by decide +kernel)
  · rw [h₀]
    exact List.forall_mem_singleton.2 hjob
  · rw [h₃]
    exact List.forall_mem_singleton.2 hjob

/-! ## `fg` and `bg` -/

/-- The command `fg` or `bg`. -/
def Bgfg.name : Bgfg → List Byte
  | .fg => ascii "fg"
  | .bg => ascii "bg"

/-- A command line with a number. -/
def Bgfg.typed (cmd : Bgfg) (n : ℕ) : List Byte := cmd.name ++ [blank] ++ numeral n ++ [newline]

/-- A numeral is one token. -/
lemma tokens_numeral (n : ℕ) : Tokens blank quote (numeral n) [numeral n] := by
  have hquote : quote ∉ numeral n := notMem_numeral (by decide) n
  have h : Tokens blank quote (numeral n ++ []) [numeral n] :=
    .run (numeral_ne_nil n) (notMem_numeral (by decide) n) stops_nil
      (fun v hv => absurd (hv ▸ List.mem_cons_self) hquote) .nil
  rwa [List.append_nil] at h

/-- What `eval` makes of the command line. -/
lemma eval_typed (cmd : Bgfg) (n : ℕ) : eval (cmd.typed n) = .lookup cmd (some (numeral n)) := by
  have htokens : Tokens blank quote (cmd.name ++ blank :: numeral n) [cmd.name, numeral n] := by
    have hrest : Tokens blank quote (blank :: numeral n) [numeral n] := .sep (tokens_numeral n)
    have hstops : Stops (· ≠ blank) (blank :: numeral n) := stops_cons.2 (by decide)
    cases cmd with
    | fg => exact .run (by decide) (by decide) hstops (fun v hv => nomatch hv) hrest
    | bg => exact .run (by decide) (by decide) hstops (fun v hv => nomatch hv) hrest
  have hline : (cmd.typed n).dropLast = cmd.name ++ blank :: numeral n := by
    rw [Bgfg.typed, List.dropLast_concat, List.append_assoc, List.singleton_append]
  have hquote : quote ∉ numeral n := notMem_numeral (by decide) n
  have hname : ¬ Opens quote cmd.name := by cases cmd <;> decide
  have hclosed : ∀ w ∈ [cmd.name, numeral n], decide (¬ Opens quote w) = true := by
    simp only [List.forall_mem_cons, decide_eq_true_eq]
    exact ⟨hname, fun ho => hquote (List.mem_of_mem_head? ho), by simp⟩
  have hargs : args (skipBlanks ((cmd.typed n).dropLast ++ [blank])) = [cmd.name, numeral n] := by
    rw [hline, args_eq htokens, takeWhile_of_all hclosed]
  obtain ⟨hargv, -⟩ := parseline_eq (cmd.typed n) hargs
  have hamp : (numeral n).head? ≠ some 38#8 := fun ha =>
    notMem_numeral (by decide) n (List.mem_of_mem_head? ha)
  have harguments : arguments ([cmd.name] ++ [numeral n]) = [cmd.name] ++ [numeral n] :=
    arguments_append hamp
  rw [show [cmd.name, numeral n] = [cmd.name] ++ [numeral n] from rfl, harguments] at hargv
  unfold eval
  split
  · next heq =>
    rw [heq] at hargv
    cases hargv
  · next heq =>
    rw [heq] at hargv
    cases hargv
    cases cmd <;> rfl

/-- A pid leads to its job. -/
lemma Tracked.getjobpid {s : Shell} (ht : Tracked s) (hi : (s.jobs.slots i).pid ≠ 0) :
    s.jobs.getjobpid (s.jobs.slots i).pid = some i := by
  unfold JobList.getjobpid
  rw [if_neg (by omega)]
  refine Fin.find?_eq_some_iff.2 ⟨beq_self_eq_true _, fun j hj => ?_⟩
  have hne : (s.jobs.slots j).pid ≠ (s.jobs.slots i).pid := fun he =>
    hj.ne (ht.distinct i j hi he.symm).symm
  simpa using hne

/-- The numeral of a pid leads to its job. -/
lemma lookup_numeral {pid : ℕ} (hint : pid < 2 ^ 31) (h : jobs.getjobpid pid = some i) :
    jobs.lookup (some (numeral pid)) = some i := by
  have hatoi : atoi ([] ++ (numeral pid ++ [])) = pid := atoi_numeral all_nil stops_nil hint
  rw [List.append_nil, List.nil_append] at hatoi
  unfold JobList.lookup
  split
  · next heq => cases heq
  · next para heq =>
    have hpercent := notMem_numeral (c := 37#8) (by decide) pid
    rw [Option.some.inj heq] at hpercent
    exact absurd List.mem_cons_self hpercent
  · next heq =>
    have hpos : pid ≠ 0 := by
      rintro rfl
      cases h
    rw [← Option.some.inj heq, hatoi, if_neg (by omega), Int.toNat_natCast, h]

/-- **Pids that are listed are taken by `fg` and `bg`.** In every run, when the shell is about to
read a command line and `sigchld_handler` does not run, every job that is listed runs in the
background or is stopped, and is that of a child that has not been reaped; and `fg` or `bg` with
the pid that is listed finds that job. -/
theorem bgfg_of_listed {s : Shell} (h : Reachable s) (hmain : s.main = .prompt)
    (hidle : s.handler = .idle) (hi : (s.jobs.slots i).pid ≠ 0) :
    ((s.jobs.slots i).state = .bg ∨ (s.jobs.slots i).state = .st) ∧
    s.children (s.jobs.slots i).pid ≠ none ∧
    ((s.jobs.slots i).pid < 2 ^ 31 → ∀ cmd, ∃ s₁ s₂, MainStep s s₁ ∧ MainStep s₁ s₂ ∧
      s₁.main = eval (cmd.typed (s.jobs.slots i).pid) ∧ s₂ = { s with main := .switch cmd i }) := by
  have ht := ReachableIf.tracked h
  have hquiet := (ReachableIf.oneForeground h).quiet (by rw [hmain]; trivial) i
  have hstate := (ReachableIf.sound h i).used hi
  refine ⟨?_, ht.child hidle hi, fun hint cmd => ?_⟩
  · cases hst : (s.jobs.slots i).state with
    | undef => exact absurd hst hstate
    | fg => exact absurd hst hquiet
    | bg => exact .inl rfl
    | st => exact .inr rfl
  · have hlookup := lookup_numeral hint (ht.getjobpid hi)
    refine ⟨_, _, .read (cmd.typed (s.jobs.slots i).pid) hmain, .lookup (eval_typed ..), rfl, ?_⟩
    dsimp only
    rw [hlookup]

/-- A job that runs in the background. -/
theorem bgfg_of_listed_background : ∃ s s₁ s₂ : Shell, (s.jobs.slots 0).pid = 1 ∧
    (s.jobs.slots 0).state = .bg ∧ MainStep s s₁ ∧ MainStep s₁ s₂ ∧
      s₁.main = eval (Bgfg.fg.typed 1) ∧ s₂ = { s with main := .switch .fg 0 } := by
  have h₀ := ReachableIf.start.launch 1 (fun _ _ _ _ => trivial) rfl rfl eval_ls_bg (by decide) rfl
  have h₁ := h₀.step trivial (.main rfl (.unblock rfl))
  have hpid : ((Shell.start.launched (ascii "/bin/ls &\n") true 1).jobs.slots 0).pid = 1 := by
    decide +kernel
  obtain ⟨-, -, hfound⟩ := bgfg_of_listed h₁ rfl rfl (i := 0) (by rw [hpid]; decide)
  obtain ⟨s₁, s₂, hs₁, hs₂, hmain, heq⟩ := hfound (by rw [hpid]; decide) .fg
  refine ⟨_, s₁, s₂, ?_, ?_, hs₁, hs₂, hmain.trans (by rw [hpid]), heq⟩
  · exact hpid
  · decide +kernel

end Tsh
