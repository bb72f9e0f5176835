import Mathlib.Logic.Function.Basic
import SE101.Lib.Reachability
import SE101.Tsh.Command

set_option relaxedAutoImplicit false
set_option autoImplicit false

/-!
# The shell, its signal handler and its children

The shell runs `main`, which evaluates one command line after the other, and is interrupted by
`sigchld_handler`. The kernel keeps the children and one bit for a pending `SIGCHLD`. The three
take steps in any order, except that `main` waits while the handler runs, and that the handler
starts only if `SIGCHLD` is pending and not blocked.

## Main definitions

* `Tsh.Status` — what the kernel knows of a child.
* `Tsh.Main`, `Tsh.Handler` — the next thing that `main` and the handler do.
* `Tsh.Shell` — the state of it all.
* `Tsh.MainStep`, `Tsh.HandlerStep`, `Tsh.SignalStep`, `Tsh.KernelStep`, `Tsh.Step` — the steps.
* `Tsh.ReachableIf` — the states of all runs whose steps start in states that meet a condition.

## Design

A step of `main` or of the handler reads or writes at most one thing that the other one writes
too, so that the handler may come between any two accesses. The searches in the job list are one
step each: while `main` searches, the handler at most clears slots, which never fit, or changes
the state of one, which no search of `main` looks at. What is printed is left out, and so are the
calls that block the other signals, whose handlers only read the job list.
-/

namespace Tsh

open LittleEndian CString Reachability

/-! ## The children -/

/-- What the kernel knows of a child that has not been reaped. -/
inductive Status
  /-- It runs. -/
  | running
  /-- It is stopped, and `waitpid` has reported this or has not. -/
  | stopped (reported : Bool)
  /-- It has terminated. -/
  | zombie
  deriving DecidableEq

/-- `waitpid(-1, &status, WNOHANG|WUNTRACED)` may return a child of this status. -/
def Status.Unreported : Status → Prop
  | running => False
  | stopped reported => reported = false
  | zombie => True

/-! ## The program locations -/

/-- Who called `waitfg`. -/
inductive Caller
  /-- `eval`, with the pid of the child that it has forked. -/
  | eval (pid : ℕ)
  /-- `do_bgfg`. -/
  | doBgfg

/-- The next thing that `main` does. -/
inductive Main
  /-- `main`: read a command line. -/
  | prompt
  /-- `eval`: block `SIGCHLD`. -/
  | block (cmdline : List Byte) (bg : Bool)
  /-- `eval`: `fork`. -/
  | fork (cmdline : List Byte) (bg : Bool)
  /-- `eval`: `addjob`. -/
  | add (cmdline : List Byte) (bg : Bool) (pid : ℕ)
  /-- `eval`: unblock `SIGCHLD`. -/
  | unblock (bg : Bool) (pid : ℕ)
  /-- `do_bgfg`: find the job. -/
  | lookup (cmd : Bgfg) (para : Option (List Byte))
  /-- `do_bgfg`: read the state of the job. -/
  | switch (cmd : Bgfg) (i : Fin MAXJOBS)
  /-- `do_bgfg`, `case ST`: write the state of the job. -/
  | mark (cmd : Bgfg) (i : Fin MAXJOBS)
  /-- `do_bgfg`, `case BG` of `fg`: write the state of the job. -/
  | raise (i : Fin MAXJOBS)
  /-- `do_bgfg`: send `SIGCONT`. -/
  | resume (cmd : Bgfg) (i : Fin MAXJOBS)
  /-- `waitfg`: `chld_reaped = 0`. -/
  | reset (caller : Caller)
  /-- `waitfg`: test `chld_reaped`. -/
  | wait (caller : Caller)
  /-- The shell has exited. -/
  | exited

/-- The next thing that `sigchld_handler` does. -/
inductive Handler
  /-- It does not run. -/
  | idle
  /-- Call `waitpid`. -/
  | entered
  /-- Compare the pid that `waitpid` returned with the foreground job. The child has stopped or
  has terminated. -/
  | reported (pid : ℕ) (stopped : Bool)
  /-- Change the job list. -/
  | noted (pid : ℕ) (stopped : Bool)
  /-- It has written through a null pointer. -/
  | crashed

/-- The shell and its children. -/
structure Shell where
  main : Main
  handler : Handler
  jobs : JobList
  chldReaped : Bool
  /-- `SIGCHLD` is in the signal mask of `main`. -/
  blocked : Bool
  /-- A `SIGCHLD` is pending. -/
  pending : Bool
  /-- The children that have not been reaped. -/
  children : ℕ → Option Status

/-- The shell before the first command line. -/
def Shell.start : Shell := ⟨.prompt, .idle, .initjobs, false, false, false, fun _ => none⟩

namespace Shell

variable (s : Shell) (pid : ℕ)

/-- `exit`. -/
def exit : Shell := { s with main := .exited }

/-- A child gets a status. -/
def setChild (st : Status) : Shell := { s with children := Function.update s.children pid st }

/-- A child is reaped. -/
def reap : Shell := { s with children := Function.update s.children pid none }

/-- `SIGCONT` is sent to the child. If it was stopped, the kernel may send a `SIGCHLD`. -/
def signalCont (notify : Bool) : Shell :=
  match s.children pid with
  | some (.stopped _) => { s.setChild pid .running with pending := s.pending || notify }
  | _ => s

/-- A child has an unreported change. -/
def Unreported : Prop := ∃ st, s.children pid = some st ∧ st.Unreported

variable {s pid} {notify : Bool}

@[simp] lemma signalCont_main : (s.signalCont pid notify).main = s.main := by
  unfold signalCont; split <;> rfl

@[simp] lemma signalCont_handler : (s.signalCont pid notify).handler = s.handler := by
  unfold signalCont; split <;> rfl

@[simp] lemma signalCont_jobs : (s.signalCont pid notify).jobs = s.jobs := by
  unfold signalCont; split <;> rfl

@[simp] lemma signalCont_chldReaped :
    (s.signalCont pid notify).chldReaped = s.chldReaped := by
  unfold signalCont; split <;> rfl

@[simp] lemma signalCont_blocked : (s.signalCont pid notify).blocked = s.blocked := by
  unfold signalCont; split <;> rfl

/-- A child that gets another status is not reaped. -/
lemma setChild_eq_none {st : Status} (h : s.children pid ≠ none) (p : ℕ) :
    (s.setChild pid st).children p = none ↔ s.children p = none := by
  by_cases hp : p = pid
  · subst hp; simp [setChild, h]
  · simp [setChild, hp]

/-- A pending signal stays pending. -/
lemma signalCont_pending (h : s.pending = true) : (s.signalCont pid notify).pending = true := by
  unfold signalCont
  split
  · simp [h]
  · exact h

/-- The child runs, or nothing has changed. -/
lemma signalCont_children (s : Shell) (pid : ℕ) (notify : Bool) (p : ℕ) :
    (s.signalCont pid notify).children p = s.children p ∨
    p = pid ∧ (∃ b, s.children p = some (.stopped b)) ∧
      (s.signalCont pid notify).children p = some .running := by
  unfold signalCont
  split
  · next b hb =>
    by_cases hp : p = pid
    · subst hp
      exact .inr ⟨rfl, ⟨b, hb⟩, by simp [setChild]⟩
    · exact .inl (by simp [setChild, hp])
  · exact .inl rfl

/-- A child that is signalled is not stopped. -/
lemma signalCont_self (b : Bool) : (s.signalCont pid notify).children pid ≠ some (.stopped b) := by
  unfold signalCont
  split
  · simp [setChild]
  · next h => exact h b

/-- A child that is signalled is not reaped. -/
lemma signalCont_children_eq_none (p : ℕ) :
    (s.signalCont pid notify).children p = none ↔ s.children p = none := by
  obtain h | ⟨-, ⟨b, hb⟩, h⟩ := signalCont_children s pid notify p
  · rw [h]
  · simp [h, hb]

end Shell

/-- What `eval` does first. -/
def eval (cmdline : List Byte) : Main :=
  match parseline cmdline with
  | ([], _) => .prompt
  | (cmd :: argv, bg) =>
    match builtinCmd cmd argv.head? with
    | .exit => .exited
    | .done => .prompt
    | .bgfg cmd para => .lookup cmd para
    | .none => .block cmdline bg

/-- The `switch` statements of `do_bgfg`: which state leads where. -/
def doBgfgSwitch (i : Fin MAXJOBS) : Bgfg → JobState → Main
  | cmd, .st => .mark cmd i
  | .fg, .bg => .raise i
  | .bg, .bg => .prompt
  | _, .fg => .exited
  | _, .undef => .exited

/-- What a command line may lead to. -/
lemma eval_cases (cmdline : List Byte) : eval cmdline = .prompt ∨ eval cmdline = .exited ∨
    (∃ cmd para, eval cmdline = .lookup cmd para) ∨
    ∃ bg, eval cmdline = .block cmdline bg := by
  unfold eval
  split
  · exact .inl rfl
  · split
    · exact .inr (.inl rfl)
    · exact .inl rfl
    · exact .inr (.inr (.inl ⟨_, _, rfl⟩))
    · exact .inr (.inr (.inr ⟨_, rfl⟩))

/-- What the state of a job may lead to. -/
lemma doBgfgSwitch_cases (i : Fin MAXJOBS) (cmd : Bgfg) (state : JobState) :
    doBgfgSwitch i cmd state = .prompt ∨ doBgfgSwitch i cmd state = .exited ∨
    (state = .st ∧ doBgfgSwitch i cmd state = .mark cmd i) ∨
    (state = .bg ∧ doBgfgSwitch i cmd state = .raise i) := by
  cases state with
  | undef => exact .inr (.inl (by cases cmd <;> rfl))
  | fg => exact .inr (.inl (by cases cmd <;> rfl))
  | st => exact .inr (.inr (.inl ⟨rfl, by cases cmd <;> rfl⟩))
  | bg =>
    cases cmd with
    | fg => exact .inr (.inr (.inr ⟨rfl, rfl⟩))
    | bg => exact .inl rfl

/-! ## Steps -/

/-- The steps of `main`. -/
inductive MainStep (s : Shell) : Shell → Prop
  /-- Read a command line and begin to evaluate it. -/
  | read (cmdline : List Byte) (h : s.main = .prompt) : MainStep s { s with main := eval cmdline }
  /-- There is no command line left. -/
  | eof (h : s.main = .prompt) : MainStep s s.exit
  /-- Block `SIGCHLD`. -/
  | block {cmdline : List Byte} {bg : Bool} (h : s.main = .block cmdline bg) :
    MainStep s { s with main := .fork cmdline bg, blocked := true }
  /-- `fork` gives a new child a pid that no other child has. -/
  | fork {cmdline : List Byte} {bg : Bool} (pid : ℕ) (h : s.main = .fork cmdline bg)
      (hpos : 0 < pid) (hnew : s.children pid = none) :
    MainStep s { s.setChild pid .running with main := .add cmdline bg pid }
  /-- `fork` fails. -/
  | forkError {cmdline : List Byte} {bg : Bool} (h : s.main = .fork cmdline bg) :
    MainStep s s.exit
  /-- Add the job. The result of `addjob` is not looked at. -/
  | add {cmdline : List Byte} {bg : Bool} {pid : ℕ} (h : s.main = .add cmdline bg pid) :
    MainStep s { s with
      main := .unblock bg pid
      jobs := (s.jobs.addjob pid (if bg then .bg else .fg) cmdline).2 }
  /-- Unblock `SIGCHLD`. -/
  | unblock {bg : Bool} {pid : ℕ} (h : s.main = .unblock bg pid) :
    MainStep s { s with
      main := if bg then .prompt else .reset (.eval pid)
      blocked := false }
  /-- Find the job that `fg` or `bg` names. -/
  | lookup {cmd : Bgfg} {para : Option (List Byte)} (h : s.main = .lookup cmd para) :
    MainStep s { s with main := match s.jobs.lookup para with
      | some i => .switch cmd i
      | none => .prompt }
  /-- Read its state. -/
  | switch {cmd : Bgfg} {i : Fin MAXJOBS} (h : s.main = .switch cmd i) :
    MainStep s { s with main := doBgfgSwitch i cmd (s.jobs.slots i).state }
  /-- Write the state of a job that was stopped. -/
  | mark {cmd : Bgfg} {i : Fin MAXJOBS} (h : s.main = .mark cmd i) :
    MainStep s { s with main := .resume cmd i, jobs := s.jobs.setState cmd.state i }
  /-- Write the state of a job that ran in the background. -/
  | raise {i : Fin MAXJOBS} (h : s.main = .raise i) :
    MainStep s { s with main := .reset .doBgfg, jobs := s.jobs.setState .fg i }
  /-- Continue the process group of the job. -/
  | resume {cmd : Bgfg} {i : Fin MAXJOBS} (notify : Bool) (h : s.main = .resume cmd i) :
    MainStep s { s.signalCont (s.jobs.slots i).pid notify with
      main := match cmd with
        | .fg => .reset .doBgfg
        | .bg => .prompt }
  /-- `kill` fails. -/
  | killError {cmd : Bgfg} {i : Fin MAXJOBS} (h : s.main = .resume cmd i) : MainStep s s.exit
  /-- Reset `chld_reaped`. -/
  | reset {caller : Caller} (h : s.main = .reset caller) :
    MainStep s { s with main := .wait caller, chldReaped := false }
  /-- Go on sleeping. -/
  | sleep {caller : Caller} (h : s.main = .wait caller) (hr : s.chldReaped = false) : MainStep s s
  /-- Return from `waitfg`, `do_bgfg` and `eval`. -/
  | wake {caller : Caller} (h : s.main = .wait caller) (hr : s.chldReaped = true) :
    MainStep s { s with main := .prompt }

/-- The steps of `sigchld_handler`. -/
inductive HandlerStep (s : Shell) : Shell → Prop
  /-- The kernel starts the handler and clears the pending bit. -/
  | enter (h : s.handler = .idle) (hp : s.pending = true) (hb : s.blocked = false) :
    HandlerStep s { s with handler := .entered, pending := false }
  /-- `waitpid` returns a child that has stopped. -/
  | stopped (pid : ℕ) (h : s.handler = .entered)
      (hpid : s.children pid = some (.stopped false)) :
    HandlerStep s { s.setChild pid (.stopped true) with handler := .reported pid true }
  /-- `waitpid` returns a child that has terminated. -/
  | terminated (pid : ℕ) (h : s.handler = .entered) (hpid : s.children pid = some .zombie) :
    HandlerStep s { s.reap pid with handler := .reported pid false }
  /-- `waitpid` returns `0`: there are children, but none has changed. -/
  | unchanged {pid : ℕ} (h : s.handler = .entered) (hpid : s.children pid ≠ none)
      (hnone : ∀ pid, ¬ s.Unreported pid) :
    HandlerStep s { s with handler := .idle }
  /-- `waitpid` fails: there are no children. -/
  | waitpidError (h : s.handler = .entered) (hnone : ∀ pid, s.children pid = none) :
    HandlerStep s { s.exit with handler := .idle }
  /-- `chld_reaped = 1` if the child is the foreground job. -/
  | note {pid : ℕ} {stopped : Bool} (h : s.handler = .reported pid stopped) :
    HandlerStep s { s with
      handler := .noted pid stopped
      chldReaped := if pid = s.jobs.fgpid then true else s.chldReaped }
  /-- The job of a child that has stopped gets the state `ST`. -/
  | markStopped {pid : ℕ} {i : Fin MAXJOBS} (h : s.handler = .noted pid true)
      (hi : s.jobs.getjobpid pid = some i) :
    HandlerStep s { s with handler := .idle, jobs := s.jobs.setState .st i }
  /-- There is no such job, and `getjobpid` has returned `NULL`. -/
  | crash {pid : ℕ} (h : s.handler = .noted pid true) (hi : s.jobs.getjobpid pid = none) :
    HandlerStep s { s with handler := .crashed }
  /-- The job of a child that has terminated is deleted. -/
  | delete {pid : ℕ} (h : s.handler = .noted pid false) :
    HandlerStep s { s with handler := .idle, jobs := (s.jobs.deletejob pid).2 }

/-- The other signals whose handlers may end the shell. -/
inductive SignalStep (s : Shell) : Shell → Prop
  /-- `sigint_handler` or `sigtstp_handler`, with a `kill` that fails. If it succeeds, it is up
  to the foreground job what follows. -/
  | killError (h : s.jobs.fgpid ≠ 0) : SignalStep s s.exit
  /-- `sigquit_handler`. -/
  | quit : SignalStep s s.exit

/-- What happens to the children. -/
inductive KernelStep (s : Shell) : Shell → Prop
  /-- A child stops. -/
  | stop (pid : ℕ) (h : s.children pid = some .running) :
    KernelStep s { s.setChild pid (.stopped false) with pending := true }
  /-- A child terminates. -/
  | terminate (pid : ℕ) {st : Status} (h : s.children pid = some st) (hst : st ≠ .zombie) :
    KernelStep s { s.setChild pid .zombie with pending := true }
  /-- Somebody else continues a child. -/
  | cont (pid : ℕ) (notify : Bool) : KernelStep s (s.signalCont pid notify)

/-- The steps of the shell and its children. -/
inductive Step (s : Shell) : Shell → Prop
  | main {s' : Shell} (hidle : s.handler = .idle) (h : MainStep s s') : Step s s'
  | handler {s' : Shell} (hrun : s.main ≠ .exited) (h : HandlerStep s s') : Step s s'
  | signal {s' : Shell} (h : SignalStep s s') : Step s s'
  | kernel {s' : Shell} (h : KernelStep s s') : Step s s'

/-! ## Runs -/

/-- A step from a state that meets the condition `ok`. -/
def StepIf (ok : Shell → Prop) (s s' : Shell) : Prop := ok s ∧ Step s s'

/-- The states of all runs from the start whose steps start in states that meet `ok`. -/
def ReachableIf (ok : Shell → Prop) : Shell → Prop := Reachable (· = Shell.start) (StepIf ok)

/-- A job is added only if there are fewer than `MAXJOBS`. -/
def HasRoom (s : Shell) : Prop :=
  ∀ cmdline bg pid, s.main = .add cmdline bg pid → ∃ i, (s.jobs.slots i).pid = 0

/-- The states of all runs from the start. -/
abbrev Reachable : Shell → Prop := ReachableIf fun _ => True

variable {ok : Shell → Prop} {s s' : Shell}

/-- The start is reachable. -/
lemma ReachableIf.start : ReachableIf ok Shell.start := Reachable.of_init rfl

/-- A step goes on with a run. -/
lemma ReachableIf.step (h : ReachableIf ok s) (hok : ok s) (hs : Step s s') : ReachableIf ok s' :=
  Reachable.tail h ⟨hok, hs⟩

/-- `eval` has forked a child and added the job, and is about to unblock `SIGCHLD`. -/
def Shell.launched (s : Shell) (cmdline : List Byte) (bg : Bool) (pid : ℕ) : Shell :=
  { s.setChild pid .running with
    main := .unblock bg pid
    jobs := (s.jobs.addjob pid (if bg then .bg else .fg) cmdline).2
    blocked := true }

/-- A command line that is no builtin command. -/
lemma eval_ls : eval (ascii "/bin/ls\n") = .block (ascii "/bin/ls\n") false := by
  have hparse : parseline (ascii "/bin/ls\n") = ([ascii "/bin/ls"], false) := by decide +kernel
  have hcmd : builtinCmd (ascii "/bin/ls") none = .none := rfl
  simp [eval, hparse, hcmd]

/-- The same, to run in the background. -/
lemma eval_ls_bg : eval (ascii "/bin/ls &\n") = .block (ascii "/bin/ls &\n") true := by
  have hparse : parseline (ascii "/bin/ls &\n") = ([ascii "/bin/ls"], true) := by decide +kernel
  have hcmd : builtinCmd (ascii "/bin/ls") none = .none := rfl
  simp [eval, hparse, hcmd]

/-- A command line that is no builtin command launches a job. -/
lemma ReachableIf.launch {cmdline : List Byte} {bg : Bool} (pid : ℕ) (h : ReachableIf ok s)
    (hok : ∀ s', s'.jobs = s.jobs → s'.handler = .idle → (∀ i, s'.main ≠ .raise i) → ok s')
    (hidle : s.handler = .idle) (hmain : s.main = .prompt)
    (heval : eval cmdline = .block cmdline bg) (hpos : 0 < pid) (hnew : s.children pid = none) :
    ReachableIf ok (s.launched cmdline bg pid) := by
  have h₁ := h.step (hok _ rfl hidle (by simp [hmain])) (.main hidle (.read cmdline hmain))
  have h₂ := h₁.step (hok _ rfl hidle (by simp [heval])) (.main hidle (.block heval))
  have h₃ := h₂.step (hok _ rfl hidle (by simp)) (.main hidle (.fork pid rfl hpos hnew))
  exact h₃.step (hok _ rfl hidle (by simp)) (.main hidle (.add rfl))

end Tsh
