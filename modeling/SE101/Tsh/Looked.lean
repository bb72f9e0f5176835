import SE101.Tsh.Foreground
import SE101.Tsh.Sound
import SE101.Tsh.Waitpid

set_option relaxedAutoImplicit false
set_option autoImplicit false

/-!
# The job of `fg` and `bg`

`do_bgfg` looks a job up once and goes on to use its slot, with `SIGCHLD` not blocked. If the job
terminates in the meantime, the handler clears the slot.

## Main definitions

* `Tsh.Looked` — a state of the shell, with the slot that was looked up.
* `Tsh.Looked.Safe` — the command is carried out on the job that was looked up.
* `Tsh.Looked.EndsInTime` — the condition on the states from which a run goes on.
* `Tsh.Looked.Held`, `Tsh.Looked.Heard` — the invariants.

## Main results

* `Tsh.MainStep.command_cases` — the steps of a command.
* `Tsh.Looked.Held.step` — the slot is not cleared as long as it is needed.
* `Tsh.Looked.Heard.step` — a signal is left for the end of the job that is waited for.

## Design

At the locations `reset` and `wait` the shell does not name the slot any more, and the slot may be
cleared. So a state is recorded together with the slot that the last command has looked up, which
no step depends on.
-/

namespace Tsh

open LittleEndian

variable {s s' : Shell}

/-! ## The slot that was looked up -/

/-- The slot that `do_bgfg` is about to read or write. -/
def Main.names : Main → Option (Fin MAXJOBS)
  | .switch _ i => some i
  | .mark _ i => some i
  | .raise i => some i
  | .resume _ i => some i
  | _ => none

/-- `do_bgfg` has looked a job up, and `waitfg` has not reset the flag yet. -/
def Main.Uses : Main → Prop
  | .switch _ _ => True
  | .mark _ _ => True
  | .raise _ => True
  | .resume _ _ => True
  | .reset .doBgfg => True
  | _ => False

/-- The same, for the command `fg`. -/
def Main.Foregrounds : Main → Prop
  | .switch cmd _ => cmd = .fg
  | .mark cmd _ => cmd = .fg
  | .raise _ => True
  | .resume cmd _ => cmd = .fg
  | .reset .doBgfg => True
  | _ => False

/-- A state of the shell, with the slot that the last `fg` or `bg` has looked up. -/
structure Looked where
  shell : Shell
  slot : Fin MAXJOBS

namespace Looked

variable (x : Looked)

/-- The content of the slot. -/
def job : Job := x.shell.jobs.slots x.slot

/-- The next state of the shell, with the slot that it names or the old one. -/
def next (s' : Shell) : Looked := ⟨s', s'.main.names.getD x.slot⟩

/-- `waitfg` sleeps and has not been woken up. -/
def Waits : Prop := x.shell.main = .wait .doBgfg ∧ x.shell.chldReaped = false

/-- The slot is still to be used or waited for. -/
def Needs : Prop := x.shell.main.Uses ∨ x.Waits

/-- The shell waits for the job in the foreground, or is going to. -/
def Awaits : Prop := x.shell.main.Foregrounds ∨ x.Waits

/-- The command is carried out on the job that was looked up, and its end does no harm. -/
structure Safe : Prop where
  /-- The `switch` does not lead to `unix_error`. -/
  switch : ∀ cmd i, x.shell.main = .switch cmd i →
    doBgfgSwitch i cmd (x.shell.jobs.slots i).state ≠ .exited
  /-- The slot that is read, written or signalled is in use. -/
  named : ∀ i, x.shell.main.names = some i → (x.shell.jobs.slots i).pid ≠ 0
  /-- The slot that `waitfg` waits for is in use. -/
  waits : x.shell.main = .reset .doBgfg ∨ x.Waits → x.job.pid ≠ 0
  /-- `SIGCONT` goes to a child, so that `kill` does not fail. -/
  signals : ∀ cmd i, x.shell.main = .resume cmd i → x.shell.handler = .idle →
    x.shell.children (x.shell.jobs.slots i).pid ≠ none
  /-- The shell does not sleep on when the job has terminated and no signal is left. -/
  woken : x.Waits → x.shell.handler = .idle → x.shell.pending = false →
    x.shell.children x.job.pid ≠ some .zombie
  /-- The handler does not end the shell. -/
  runs : x.shell.main.Uses ∨ x.shell.main = .wait .doBgfg → ¬ WaitpidFails x.shell

/-- The end of the job comes when the shell can deal with it. -/
structure EndsInTime : Prop where
  /-- The handler collects the job that is needed only when it is waited for in the foreground. -/
  outside : ∀ pid, x.shell.handler = .reported pid false → pid = x.job.pid → x.Needs →
    x.shell.main = .wait .doBgfg ∧ x.job.state = .fg
  /-- The last run of the handler collects no other child than the job that is waited for, if that
  has terminated. -/
  alone : x.shell.handler = .entered → x.shell.pending = false → x.Awaits →
    x.shell.children x.job.pid = some .zombie → ∀ p, x.shell.Unreported p → p = x.job.pid
  /-- `fg` finds no job that has terminated without a signal being left. -/
  noticed : ∀ para i, x.shell.main = .lookup .fg para → x.shell.handler = .idle →
    x.shell.jobs.lookup para = some i →
    x.shell.children (x.shell.jobs.slots i).pid = some .zombie → x.shell.pending = true
  /-- While `waitfg` sleeps, the handler leaves a child for the next signal. -/
  leaves : x.shell.main = .wait .doBgfg → LeavesChild x.shell

/-- The slot belongs to the job that was looked up, and the handler is not about to clear it. -/
structure Held : Prop where
  names : ∀ i, x.shell.main.names = some i → x.slot = i
  used : x.Needs → x.job.pid ≠ 0
  noted : ∀ pid, x.shell.handler = .noted pid false → x.Needs → pid ≠ x.job.pid

/-- The handler will be told of the end of the job that is waited for. -/
def Heard : Prop := x.Awaits → x.shell.children x.job.pid = some .zombie →
  x.shell.pending = true ∨ x.shell.handler = .entered

end Looked

/-- A step from a state that meets the condition `ok`. -/
def LookedStep (ok : Looked → Prop) (x y : Looked) : Prop :=
  ok x ∧ Step x.shell y.shell ∧ y = x.next y.shell

/-- The states of all runs from the start whose steps start in states that meet `ok`. -/
def LookedIf (ok : Looked → Prop) : Looked → Prop :=
  Reachability.Reachable (fun x => x.shell = Shell.start) (LookedStep ok)

/-- A location that names a slot uses it. -/
lemma Main.uses_of_names {main : Main} {i : Fin MAXJOBS} (h : main.names = some i) :
    main.Uses := by
  cases main with
  | switch cmd j => trivial
  | mark cmd j => trivial
  | raise j => trivial
  | resume cmd j => trivial
  | _ => cases h

/-- A location on the way to the foreground uses its slot. -/
lemma Main.Foregrounds.uses {main : Main} (h : main.Foregrounds) : main.Uses := by
  cases main with
  | switch cmd j => trivial
  | mark cmd j => trivial
  | raise j => trivial
  | resume cmd j => trivial
  | reset caller => cases caller <;> exact h
  | _ => exact h.elim

variable {x : Looked}

/-- What is waited for is needed. -/
lemma Looked.Awaits.needs (h : x.Awaits) : x.Needs := h.imp_left Main.Foregrounds.uses

/-- A step that leaves `main` and the flag alone needs no other slot. -/
lemma Looked.needs_of_next (hmain : s'.main = x.shell.main)
    (hflag : s'.chldReaped = false → x.shell.chldReaped = false) (h : (x.next s').Needs) :
    x.Needs := by
  obtain huses | ⟨hwait, hr⟩ := h
  · exact Or.inl (hmain ▸ huses)
  · exact Or.inr ⟨hmain ▸ hwait, hflag hr⟩

/-- The same for what is waited for. -/
lemma Looked.awaits_of_next (hmain : s'.main = x.shell.main)
    (hflag : s'.chldReaped = false → x.shell.chldReaped = false) (h : (x.next s').Awaits) :
    x.Awaits := by
  obtain hfg | ⟨hwait, hr⟩ := h
  · exact Or.inl (hmain ▸ hfg)
  · exact Or.inr ⟨hmain ▸ hwait, hflag hr⟩

/-! ## Steps of a command -/

/-- A step of a command that has looked its job up. -/
structure Continues (s s' : Shell) : Prop where
  uses : s.main.Uses
  names : ∀ i, s'.main.names = some i → s.main.names = some i
  foregrounds : s'.main.Foregrounds ∨ s'.main = .wait .doBgfg → s.main.Foregrounds
  pid : ∀ j, (s'.jobs.slots j).pid = (s.jobs.slots j).pid
  zombie : ∀ p, s'.children p = some .zombie → s.children p = some .zombie
  children : ∀ p, s'.children p = none ↔ s.children p = none
  pending : s.pending = true → s'.pending = true
  handler : s'.handler = s.handler

/-- A step that changes neither pids nor children nor signals. -/
lemma Continues.of_main (huses : s.main.Uses)
    (hnames : ∀ i, s'.main.names = some i → s.main.names = some i)
    (hfg : s'.main.Foregrounds ∨ s'.main = .wait .doBgfg → s.main.Foregrounds)
    (hpid : ∀ j, (s'.jobs.slots j).pid = (s.jobs.slots j).pid)
    (hchildren : s'.children = s.children) (hpending : s'.pending = s.pending)
    (hhandler : s'.handler = s.handler) : Continues s s' where
  uses := huses
  names := hnames
  foregrounds := hfg
  pid := hpid
  zombie p h := hchildren ▸ h
  children p := by rw [hchildren]
  pending h := hpending.trans h
  handler := hhandler

/-- `SIGCONT` ends no child. -/
lemma Shell.zombie_of_signalCont {pid p : ℕ} {notify : Bool}
    (h : (s.signalCont pid notify).children p = some .zombie) : s.children p = some .zombie := by
  obtain he | ⟨-, -, he⟩ := Shell.signalCont_children s pid notify p
  · rwa [he] at h
  · rw [he] at h
    cases h

/-- **The steps of a command.** A step of `main` leads away from the slot, looks a job up, goes on
with a command, or sleeps. -/
theorem MainStep.command_cases (h : MainStep s s') :
    (¬ s'.main.Uses ∧ s'.main ≠ .wait .doBgfg) ∨
    (∃ cmd para i, s.main = .lookup cmd para ∧ s.jobs.lookup para = some i ∧
      s' = { s with main := .switch cmd i }) ∨
    Continues s s' ∨ s' = s := by
  cases h with
  | read cmdline h =>
    left
    obtain he | he | ⟨cmd, para, he⟩ | ⟨bg, he⟩ := eval_cases cmdline
    all_goals simp [he, Main.Uses]
  | @unblock bg pid h =>
    left
    cases bg <;> simp [Main.Uses]
  | @lookup cmd para h =>
    cases hlookup : s.jobs.lookup para with
    | none => exact Or.inl ⟨id, by simp⟩
    | some i => exact Or.inr (Or.inl ⟨cmd, para, i, h, hlookup, rfl⟩)
  | @switch cmd i h =>
    have huses : s.main.Uses := by rw [h]; trivial
    obtain he | he | ⟨-, he⟩ | ⟨hstate, he⟩ := doBgfgSwitch_cases i cmd (s.jobs.slots i).state
    · exact Or.inl (by simp [he, Main.Uses])
    · exact Or.inl (by simp [he, Main.Uses])
    · refine Or.inr (Or.inr (Or.inl (.of_main huses (by simp [he, h, Main.names]) ?_ (fun _ => rfl)
        rfl rfl rfl)))
      simp [he, h, Main.Foregrounds]
    · refine Or.inr (Or.inr (Or.inl (.of_main huses (by simp [he, h, Main.names]) ?_ (fun _ => rfl)
        rfl rfl rfl)))
      -- Only `fg` goes on with a job that runs.
      cases cmd with
      | fg => simp [h, Main.Foregrounds]
      | bg => rw [hstate] at he; cases he
  | @mark cmd i h =>
    refine Or.inr (Or.inr (Or.inl (.of_main (by rw [h]; trivial) (by simp [h, Main.names]) ?_
      (fun _ => JobList.setState_pid) rfl rfl rfl)))
    simp [h, Main.Foregrounds]
  | @raise i h =>
    refine Or.inr (Or.inr (Or.inl (.of_main (by rw [h]; trivial) (by simp [Main.names]) ?_
      (fun _ => JobList.setState_pid) rfl rfl rfl)))
    simp [h, Main.Foregrounds]
  | @resume cmd i notify h =>
    cases cmd with
    | fg =>
      refine Or.inr (Or.inr (Or.inl ⟨by rw [h]; trivial, by simp [Main.names], ?_, by simp,
        fun p => Shell.zombie_of_signalCont, Shell.signalCont_children_eq_none,
        Shell.signalCont_pending, by simp⟩))
      simp [h, Main.Foregrounds]
    | bg => exact Or.inl ⟨id, by simp⟩
  | @reset caller h =>
    cases caller with
    | eval pid => exact Or.inl ⟨id, by simp⟩
    | doBgfg =>
      refine Or.inr (Or.inr (Or.inl (.of_main (by rw [h]; trivial) (by simp [Main.names]) ?_
        (fun _ => rfl) rfl rfl rfl)))
      simp [h, Main.Foregrounds]
  | sleep h hr => exact Or.inr (Or.inr (Or.inr rfl))
  | _ => exact Or.inl ⟨id, by simp [Shell.exit]⟩

namespace Looked.Held

/-- A location that neither uses a slot nor waits. -/
lemma of_rest (huses : ¬ s'.main.Uses) (hwait : s'.main ≠ .wait .doBgfg) : (x.next s').Held where
  names i h := absurd (Main.uses_of_names h) huses
  used h := absurd h (by rintro (h | ⟨h, -⟩); exacts [huses h, hwait h])
  noted _ _ h := absurd h (by rintro (h | ⟨h, -⟩); exacts [huses h, hwait h])

/-- The slot stays the same as long as it is named. -/
lemma slot_next (hs : x.Held)
    (hnames : ∀ i, s'.main.names = some i → x.shell.main.names = some i) :
    (x.next s').slot = x.slot := by
  show s'.main.names.getD x.slot = x.slot
  cases h : s'.main.names with
  | none => rfl
  | some i => exact (hs.names i (hnames i h)).symm

/-- A step that changes no pid in the job list. -/
lemma of_same (hs : x.Held)
    (hnames : ∀ i, s'.main.names = some i → x.shell.main.names = some i)
    (hneeds : (x.next s').Needs → x.Needs)
    (hpid : ∀ j, (s'.jobs.slots j).pid = (x.shell.jobs.slots j).pid)
    (hnoted : ∀ p, s'.handler = .noted p false → x.shell.handler = .noted p false) :
    (x.next s').Held := by
  have hslot := hs.slot_next hnames
  have hjob : (x.next s').job.pid = x.job.pid := by
    rw [job, hslot]
    exact hpid x.slot
  refine ⟨fun i h => ?_, fun h => ?_, fun p hp h => ?_⟩
  · rw [hslot]
    exact hs.names i (hnames i h)
  · rw [hjob]
    exact hs.used (hneeds h)
  · rw [hjob]
    exact hs.noted p (hnoted p hp) (hneeds h)

/-- A step of `main`. -/
lemma mainStep (hs : x.Held) (hidle : x.shell.handler = .idle) (hsound : x.shell.Sound)
    (h : MainStep x.shell s') : (x.next s').Held := by
  obtain ⟨huses, hwait⟩ | ⟨cmd, para, i, -, hlookup, rfl⟩ | hc | rfl := h.command_cases
  · exact of_rest huses hwait
  · refine ⟨fun j hj => ?_, fun _ => ?_, fun p hp => ?_⟩
    · cases hj
      rfl
    · exact JobList.pid_ne_of_lookup hsound hlookup
    · rw [show x.shell.handler = .noted p false from hp] at hidle
      cases hidle
  · exact hs.of_same hc.names (fun _ => Or.inl hc.uses) hc.pid fun p hp => hc.handler.symm.trans hp
  · exact hs.of_same (fun _ => id) id (fun _ => rfl) fun _ => id

/-- A step of the handler that leaves the job list and the flag alone. -/
lemma of_handler (hs : x.Held) (hmain : s'.main = x.shell.main)
    (hflag : s'.chldReaped = x.shell.chldReaped) (hjobs : s'.jobs = x.shell.jobs)
    (hhandler : ∀ p, s'.handler ≠ .noted p false) : (x.next s').Held := by
  refine hs.of_same (fun i h => hmain ▸ h) (needs_of_next hmain (fun h => hflag ▸ h))
    (fun j => by rw [hjobs]) fun p hp => absurd hp (hhandler p)

/-- The handler has collected the job while it is waited for in the foreground, and wakes the shell
up. -/
lemma note (hs : x.Held) (hone : OneForeground x.shell) (htime : x.EndsInTime) {pid : ℕ}
    {stopped : Bool} (h : x.shell.handler = .reported pid stopped)
    (hmain : s'.main = x.shell.main) (hjobs : s'.jobs = x.shell.jobs)
    (hhandler : s'.handler = .noted pid stopped)
    (hflag : s'.chldReaped = if pid = x.shell.jobs.fgpid then true else x.shell.chldReaped) :
    (x.next s').Held := by
  have hneeds : (x.next s').Needs → x.Needs := by
    refine needs_of_next hmain fun hf => ?_
    rw [hflag] at hf
    split_ifs at hf
    exact hf
  have hslot := hs.slot_next fun i hi => hmain ▸ hi
  have hjob : (x.next s').job = x.job := by
    rw [job, hslot]
    exact congrFun (congrArg JobList.slots hjobs) x.slot
  refine ⟨fun i hi => hslot.trans (hs.names i (hmain ▸ hi)), fun hn => ?_, fun p hp hn heq => ?_⟩
  · rw [hjob]
    exact hs.used (hneeds hn)
  · cases hhandler.symm.trans hp
    have hpid : pid = x.job.pid := heq.trans (congrArg Job.pid hjob)
    obtain ⟨hwait, hfg⟩ := htime.outside pid h hpid (hneeds hn)
    -- The flag is set, so that the shell does not wait any more.
    have hset : pid = x.shell.jobs.fgpid := hpid.trans (JobList.fgpid_eq hone.only hfg).symm
    rw [if_pos hset] at hflag
    obtain huses | ⟨-, hr⟩ := hn
    · rw [show (x.next s').shell.main = .wait .doBgfg from hmain.trans hwait] at huses
      exact huses
    · cases hflag.symm.trans hr

/-- The handler deletes a job that is not needed. -/
lemma delete (hs : x.Held) (hmain : s'.main = x.shell.main) {pid : ℕ} (hpos : 0 < pid)
    (h : x.shell.handler = .noted pid false) (hflag : s'.chldReaped = x.shell.chldReaped)
    (hidle : s'.handler = .idle) (hjobs : s'.jobs = (x.shell.jobs.deletejob pid).2) :
    (x.next s').Held := by
  have hneeds : (x.next s').Needs → x.Needs := needs_of_next hmain fun hf => hflag ▸ hf
  have hslot := hs.slot_next fun i hi => hmain ▸ hi
  refine ⟨fun i hi => hslot.trans (hs.names i (hmain ▸ hi)), fun hn => ?_, fun p hp => ?_⟩
  · have hne := hs.noted pid h (hneeds hn)
    have hjob : (x.next s').job = x.job := by
      rw [job, hslot]
      show s'.jobs.slots x.slot = x.job
      rw [hjobs]
      exact JobList.deletejob_slots hpos hne.symm
    rw [hjob]
    exact hs.used (hneeds hn)
  · cases hidle.symm.trans hp

/-- A step of the handler. -/
lemma handlerStep (hs : x.Held) (ht : Tracked x.shell) (hone : OneForeground x.shell)
    (htime : x.EndsInTime) (h : HandlerStep x.shell s') : (x.next s').Held := by
  cases h with
  | enter h hp hb => exact hs.of_handler rfl rfl rfl (by simp)
  | stopped pid h hpid => exact hs.of_handler rfl rfl rfl (by simp)
  | terminated pid h hpid => exact hs.of_handler rfl rfl rfl (by simp)
  | unchanged h hpid hnone => exact hs.of_handler rfl rfl rfl (by simp)
  | waitpidError h hnone => exact of_rest id (by simp [Shell.exit])
  | note h => exact hs.note hone htime h rfl rfl rfl rfl
  | markStopped h hi =>
    exact hs.of_same (fun _ => id) (needs_of_next rfl id) (fun _ => JobList.setState_pid)
      (by simp)
  | crash h hi => exact hs.of_handler rfl rfl rfl (by simp)
  | @delete pid h =>
    have hpos := (ht.noted h).1
    exact hs.delete rfl hpos h rfl rfl rfl

/-- **The slot is held.** Every step from a state that meets the condition keeps the slot that was
looked up as long as it is needed. -/
theorem step (hs : x.Held) (ht : Tracked x.shell) (hone : OneForeground x.shell)
    (hsound : x.shell.Sound) (htime : x.EndsInTime) (h : Step x.shell s') :
    (x.next s').Held := by
  cases h with
  | main hidle h => exact hs.mainStep hidle hsound h
  | handler hrun h => exact hs.handlerStep ht hone htime h
  | signal h => cases h <;> exact of_rest id (by simp [Shell.exit])
  | kernel h =>
    cases h with
    | cont pid notify =>
      exact hs.of_same (by simp) (needs_of_next (by simp) (by simp)) (by simp) (by simp)
    | _ => exact hs.of_same (fun _ => id) (needs_of_next rfl id) (fun _ => rfl) fun _ => id

end Looked.Held

/-! ## The end of the job -/

namespace Looked.Heard

/-- A location that neither uses a slot nor waits. -/
lemma of_rest (huses : ¬ s'.main.Uses) (hwait : s'.main ≠ .wait .doBgfg) : (x.next s').Heard := by
  rintro (h | ⟨h, -⟩)
  · exact absurd h.uses huses
  · exact absurd h hwait

/-- A step that changes no pid in the job list and ends no child. -/
lemma of_same (hs : x.Heard) (hheld : x.Held)
    (hnames : ∀ i, s'.main.names = some i → x.shell.main.names = some i)
    (hawaits : (x.next s').Awaits → x.Awaits)
    (hpid : ∀ j, (s'.jobs.slots j).pid = (x.shell.jobs.slots j).pid)
    (hzombie : ∀ p, s'.children p = some .zombie → x.shell.children p = some .zombie)
    (hsignal : x.shell.pending = true ∨ x.shell.handler = .entered →
      s'.pending = true ∨ s'.handler = .entered) : (x.next s').Heard := by
  intro ha hz
  have hjob : (x.next s').job.pid = x.job.pid := by
    rw [job, hheld.slot_next hnames]
    exact hpid x.slot
  rw [hjob] at hz
  exact hsignal (hs (hawaits ha) (hzombie _ hz))

/-- A step of `main`. -/
lemma mainStep (hs : x.Heard) (hheld : x.Held) (hidle : x.shell.handler = .idle)
    (htime : x.EndsInTime) (h : MainStep x.shell s') : (x.next s').Heard := by
  obtain ⟨huses, hwait⟩ | ⟨cmd, para, i, hmain, hlookup, rfl⟩ | hc | rfl := h.command_cases
  · exact of_rest huses hwait
  · rintro (hfg | ⟨hwait, -⟩) hz
    · have hcmd : cmd = .fg := hfg
      rw [hcmd] at hmain
      exact Or.inl (htime.noticed para i hmain hidle hlookup hz)
    · cases hwait
  · refine hs.of_same hheld hc.names (fun ha => Or.inl (hc.foregrounds (ha.imp_right And.left)))
      hc.pid hc.zombie fun hsignal => ?_
    rw [hc.handler]
    exact hsignal.imp_left hc.pending
  · exact hs.of_same hheld (fun _ => id) id (fun _ => rfl) (fun _ => id) id

/-- `waitpid` returns a child. -/
lemma of_report (hheld : x.Held) (htime : x.EndsInTime) {pid : ℕ}
    (h : x.shell.handler = .entered) (hpid : x.shell.Unreported pid)
    (hmain : s'.main = x.shell.main) (hflag : s'.chldReaped = x.shell.chldReaped)
    (hjobs : s'.jobs = x.shell.jobs) (hpending : s'.pending = x.shell.pending)
    (hself : s'.children pid ≠ some .zombie)
    (hother : ∀ p, p ≠ pid → s'.children p = x.shell.children p) : (x.next s').Heard := by
  intro ha hz
  have ha' := awaits_of_next hmain (fun hf => hflag ▸ hf) ha
  have hjob : (x.next s').job = x.job := by
    rw [job, hheld.slot_next fun i hi => hmain ▸ hi]
    exact congrFun (congrArg JobList.slots hjobs) x.slot
  rw [hjob] at hz
  have hne : x.job.pid ≠ pid := fun he => hself (he ▸ hz)
  refine Or.inl (hpending.trans ?_)
  by_contra hp
  have halone := htime.alone h (Bool.not_eq_true _ ▸ hp) ha' ((hother _ hne).symm.trans hz) pid hpid
  exact hne halone.symm

/-- A step of the handler after `waitpid` that does not change the job. -/
lemma of_handler (hs : x.Heard) (hheld : x.Held) (hrun : x.shell.handler ≠ .entered)
    (hmain : s'.main = x.shell.main) (hflag : s'.chldReaped = false → x.shell.chldReaped = false)
    (hjob : x.Needs → (s'.jobs.slots x.slot).pid = x.job.pid)
    (hchildren : s'.children = x.shell.children) (hpending : s'.pending = x.shell.pending) :
    (x.next s').Heard := by
  intro ha hz
  have ha' := awaits_of_next hmain hflag ha
  have hpid : (x.next s').job.pid = x.job.pid := by
    rw [job, hheld.slot_next fun i hi => hmain ▸ hi]
    exact hjob ha'.needs
  rw [hpid] at hz
  have hz' : x.shell.children x.job.pid = some .zombie := hchildren ▸ hz
  exact Or.inl (hpending.trans ((hs ha' hz').resolve_right hrun))

/-- A step of the handler. -/
lemma handlerStep (hs : x.Heard) (hheld : x.Held) (ht : Tracked x.shell) (htime : x.EndsInTime)
    (h : HandlerStep x.shell s') : (x.next s').Heard := by
  cases h with
  | enter h hp hb =>
    exact hs.of_same hheld (fun _ => id) (awaits_of_next rfl id) (fun _ => rfl) (fun _ => id)
      fun _ => Or.inr rfl
  | stopped pid h hpid =>
    refine of_report hheld htime h ⟨_, hpid, rfl⟩ rfl rfl rfl rfl ?_ fun p hp => ?_
    · simp [Shell.setChild]
    · exact Function.update_of_ne hp _ _
  | terminated pid h hpid =>
    refine of_report hheld htime h ⟨_, hpid, trivial⟩ rfl rfl rfl rfl ?_ fun p hp => ?_
    · simp [Shell.reap]
    · exact Function.update_of_ne hp _ _
  | unchanged h hpid hnone =>
    intro ha hz
    have hjob : (x.next { x.shell with handler := .idle }).job = x.job :=
      congrArg x.shell.jobs.slots (hheld.slot_next fun _ => id)
    rw [hjob] at hz
    exact absurd ⟨.zombie, hz, trivial⟩ (hnone x.job.pid)
  | waitpidError h hnone => exact of_rest id (by simp [Shell.exit])
  | @note pid stopped h =>
    refine hs.of_handler hheld (by simp [h]) rfl (fun hf => ?_) (fun _ => rfl) rfl rfl
    dsimp only at hf
    split_ifs at hf
    exact hf
  | markStopped h hi =>
    exact hs.of_handler hheld (by simp [h]) rfl id (fun _ => JobList.setState_pid)
      rfl rfl
  | crash h hi =>
    exact hs.of_handler hheld (by simp [h]) rfl id (fun _ => rfl) rfl rfl
  | @delete pid h =>
    have hpos := (ht.noted h).1
    refine hs.of_handler hheld (by simp [h]) rfl id (fun hn => ?_) rfl rfl
    exact congrArg Job.pid (JobList.deletejob_slots hpos (hheld.noted pid h hn).symm)

/-- **The end is heard of.** Every step from a state that meets the condition keeps a signal for the
end of the job that is waited for. -/
theorem step (hs : x.Heard) (hheld : x.Held) (ht : Tracked x.shell) (htime : x.EndsInTime)
    (h : Step x.shell s') : (x.next s').Heard := by
  cases h with
  | main hidle h => exact hs.mainStep hheld hidle htime h
  | handler hrun h => exact hs.handlerStep hheld ht htime h
  | signal h => cases h <;> exact of_rest id (by simp [Shell.exit])
  | kernel h =>
    cases h with
    | stop pid h => exact fun _ _ => Or.inl rfl
    | terminate pid h hst => exact fun _ _ => Or.inl rfl
    | cont pid notify =>
      refine hs.of_same hheld (by simp) (awaits_of_next (by simp) (by simp)) (by simp)
        (fun p => Shell.zombie_of_signalCont) fun hsignal => ?_
      rw [Shell.signalCont_handler]
      exact hsignal.imp_left Shell.signalCont_pending

end Looked.Heard

end Tsh
