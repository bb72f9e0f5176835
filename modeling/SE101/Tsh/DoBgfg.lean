import SE101.Tsh.Looked

set_option relaxedAutoImplicit false
set_option autoImplicit false

/-!
# Runs of `fg` and `bg`

If the handler collects the job of a command only before the lookup, or while `waitfg` waits for it
in the foreground, then the command is carried out on the job that it was given.

## Main results

* `Tsh.safe_of_endsInTime` — a run that meets the condition is safe.
* `Tsh.not_safe_of_reported` — a run that violates it may get unsafe at once.
* `Tsh.exists_not_safe` — a job that terminates between its lookup and the `switch`.
-/

namespace Tsh

open LittleEndian CString

variable {s s' : Shell} {x : Looked}

/-- While `waitfg` sleeps, there is a child for every signal. -/
lemma Looked.Held.hasChild_next (hheld : x.Held)
    (hs : x.shell.main = .wait .doBgfg → HasChild x.shell) (ht : Tracked x.shell)
    (htime : x.EndsInTime) (h : Step x.shell s') (hwait : s'.main = .wait .doBgfg) :
    HasChild s' := by
  by_cases hmain : x.shell.main = .wait .doBgfg
  · exact (hs hmain).step (htime.leaves hmain) h
  · cases h with
    | main hidle h =>
      obtain ⟨-, hrest⟩ | ⟨cmd, para, i, -, -, rfl⟩ | hc | rfl := h.command_cases
      · exact absurd hwait hrest
      · cases hwait
      · have hchild := ht.child hidle (hheld.used (Or.inl hc.uses))
        exact HasChild.of_child ((hc.children _).not.2 hchild)
      · exact absurd hwait hmain
    | handler hrun h =>
      cases h with
      | waitpidError h hnone => cases hwait
      | _ => exact absurd hwait hmain
    | signal h => cases h <;> cases hwait
    | kernel h =>
      cases h with
      | cont pid notify => exact absurd (by simpa using hwait) hmain
      | _ => exact absurd hwait hmain

/-- The invariants of the runs that meet the condition. -/
structure Looked.Kept (x : Looked) : Prop where
  held : x.Held
  heard : x.Heard
  child : x.shell.main = .wait .doBgfg → HasChild x.shell

/-- No slot is needed at first. -/
lemma Looked.Kept.start (hx : x.shell = Shell.start) : x.Kept := by
  have hrest : ∀ {P : Prop}, x.Needs → P := by
    rintro P (huses | ⟨hwait, -⟩)
    · rw [hx] at huses
      exact huses.elim
    · rw [hx] at hwait
      cases hwait
  refine ⟨⟨fun i hi => ?_, hrest, fun _ _ => hrest⟩, fun ha => hrest ha.needs, fun _ => ?_⟩
  · exact hrest (Or.inl (Main.uses_of_names hi))
  · rw [hx]
    exact HasChild.start

variable {ok : Looked → Prop}

/-- A step goes on with a run. -/
lemma LookedIf.step (h : LookedIf ok x) (hok : ok x) (hs : Step x.shell s') :
    LookedIf ok (x.next s') :=
  Reachability.Reachable.tail h ⟨hok, hs, rfl⟩

/-- A run with its slot is a run of the shell. -/
lemma LookedIf.reachable (h : LookedIf ok x) : Reachable x.shell :=
  h.map Looked.shell (fun _ => id) fun _ _ hstep => ⟨trivial, hstep.2.1⟩

/-- Every run of the shell is one with a slot. -/
lemma ReachableIf.exists_looked {ok : Shell → Prop} (h : ReachableIf ok s) :
    ∃ i, LookedIf (fun x => ok x.shell) ⟨s, i⟩ := by
  refine Reachability.Reachable.invariant (P := fun s => ∃ i, LookedIf (fun x => ok x.shell) ⟨s, i⟩)
    (fun s h => ⟨0, Reachability.Reachable.of_init h⟩) (fun s s' _ hrun hstep => ?_) h
  obtain ⟨i, hi⟩ := hrun
  exact ⟨_, hi.step hstep.1 hstep.2⟩

/-- The invariants hold in every run that meets the condition. -/
lemma LookedIf.kept (h : LookedIf Looked.EndsInTime x) : x.Kept := by
  refine h.invariant (P := Looked.Kept) (fun x hx => .start hx) fun x y hrun hs hstep => ?_
  obtain ⟨hheld, hheard, hchild⟩ := hs
  obtain ⟨htime, hstep, hy⟩ := hstep
  have hreach := LookedIf.reachable hrun
  have ht : Tracked x.shell := hreach.tracked
  rw [hy]
  exact ⟨hheld.step ht hreach.oneForeground hreach.sound htime hstep,
    hheard.step hheld ht htime hstep, hheld.hasChild_next hchild ht htime hstep⟩

/-- A used slot that is not in the foreground does not end the shell. -/
lemma doBgfgSwitch_ne_exited {i : Fin MAXJOBS} {cmd : Bgfg} {state : JobState} (hfg : state ≠ .fg)
    (hundef : state ≠ .undef) : doBgfgSwitch i cmd state ≠ .exited := by
  cases state with
  | undef => exact absurd rfl hundef
  | fg => exact absurd rfl hfg
  | st => cases cmd <;> exact nofun
  | bg => cases cmd <;> exact nofun

/-- **The job of `fg` and `bg`.** If the job never ends at a time at which the shell cannot deal
with it, then the command is carried out on it, and its end does no harm. -/
theorem safe_of_endsInTime (x : Looked) (h : LookedIf Looked.EndsInTime x) : x.Safe := by
  obtain ⟨hheld, hheard, hchild⟩ := h.kept
  have hreach : Reachable x.shell := h.reachable
  have ht : Tracked x.shell := hreach.tracked
  have hnamed : ∀ i, x.shell.main.names = some i → (x.shell.jobs.slots i).pid ≠ 0 := by
    intro i hi
    rw [← hheld.names i hi]
    exact hheld.used (Or.inl (Main.uses_of_names hi))
  refine ⟨fun cmd i hmain => ?_, hnamed, fun hw => ?_, fun cmd i hmain hidle => ?_,
    fun hw hidle hpending hz => ?_, fun hw => ?_⟩
  · have hpid := hnamed i (by rw [hmain]; rfl)
    have hquiet := hreach.oneForeground.quiet (by rw [hmain]; trivial) i
    exact doBgfgSwitch_ne_exited hquiet ((hreach.sound i).used hpid)
  · exact hheld.used (hw.imp_left fun hmain => by rw [hmain]; trivial)
  · exact ht.child hidle (hnamed i (by rw [hmain]; rfl))
  · obtain hp | he := hheard (Or.inr hw) hz
    · rw [hpending] at hp
      cases hp
    · rw [hidle] at he
      cases he
  · rintro ⟨hentered, hnone⟩
    obtain huses | hwait := hw
    · obtain hc | hc := ht.listed x.slot (hheld.used (Or.inl huses))
      · exact hc (hnone _)
      · rw [hentered] at hc
        exact hc
    · obtain ⟨p, hp⟩ := hchild hwait (Or.inr hentered)
      exact hp (hnone p)

/-! ## The condition is needed -/

/-- In every run, the slot is the one that `main` names. -/
lemma LookedIf.slot_eq (h : LookedIf ok x) : x.shell.main.names.getD x.slot = x.slot := by
  refine h.invariant (P := fun x => x.shell.main.names.getD x.slot = x.slot) (fun x hx => ?_)
    fun x y _ _ hstep => ?_
  · rw [hx]
    rfl
  · rw [hstep.2.2]
    show y.shell.main.names.getD (y.shell.main.names.getD x.slot) = y.shell.main.names.getD x.slot
    cases y.shell.main.names <;> rfl

/-- In a safe state, the slot that is needed is in use. -/
lemma Looked.Safe.used (hs : x.Safe) (hslot : x.shell.main.names.getD x.slot = x.slot)
    (hn : x.Needs) : x.job.pid ≠ 0 := by
  have hnamed : ∀ i, x.shell.main.names = some i → x.job.pid ≠ 0 := by
    intro i hi
    rw [hi] at hslot
    rw [job, ← hslot]
    exact hs.named i hi
  obtain huses | hw := hn
  · cases hmain : x.shell.main with
    | switch cmd i => exact hnamed i (by rw [hmain]; rfl)
    | mark cmd i => exact hnamed i (by rw [hmain]; rfl)
    | raise i => exact hnamed i (by rw [hmain]; rfl)
    | resume cmd i => exact hnamed i (by rw [hmain]; rfl)
    | reset caller =>
      rw [hmain] at huses
      cases caller with
      | eval pid => exact huses.elim
      | doBgfg => exact hs.waits (Or.inl hmain)
    | _ =>
      rw [hmain] at huses
      exact huses.elim
  · exact hs.waits (Or.inr hw)

/-- The handler deletes the job in the slot. -/
lemma Tracked.deletejob_slot (ht : Tracked s) {i : Fin MAXJOBS} (hpos : 0 < (s.jobs.slots i).pid) :
    (s.jobs.deletejob (s.jobs.slots i).pid).2.slots i = Job.clear := by
  obtain ⟨j, hj, hslots⟩ | ⟨hne, -⟩ := JobList.deletejob_cases s.jobs hpos
  · have hji : j = i := ht.distinct j i (by omega) hj
    rw [hslots, hji, Function.update_self]
  · exact absurd rfl (hne i)

/-- The handler enters the end of a child in the job list. -/
lemma exists_step_reported {pid : ℕ} (hrun : s.main ≠ .exited)
    (h : s.handler = .reported pid false) :
    ∃ s₁ s₂, Step s s₁ ∧ Step s₁ s₂ ∧ s₁.main = s.main ∧ s₂.main = s.main ∧
      s₂.jobs = (s.jobs.deletejob pid).2 ∧
      s₂.chldReaped = if pid = s.jobs.fgpid then true else s.chldReaped :=
  ⟨_, _, .handler hrun (.note h), .handler hrun (.delete rfl), rfl, rfl, rfl, rfl⟩

/-- **Too early or too late.** If the handler has collected the job that is needed, and the shell
does not wait for it in the foreground, then the handler goes on to clear the slot. -/
theorem not_safe_of_reported (h : LookedIf ok x)
    (hreported : x.shell.handler = .reported x.job.pid false) (hn : x.Needs)
    (hbad : ¬ (x.shell.main = .wait .doBgfg ∧ x.job.state = .fg)) :
    ∃ y, Relation.ReflTransGen (LookedStep fun _ => True) x y ∧ ¬ y.Safe := by
  have hreach : Reachable x.shell := h.reachable
  have ht : Tracked x.shell := hreach.tracked
  have hpos := (ht.reported hreported).1
  have hrun : x.shell.main ≠ .exited := by
    intro hexit
    obtain huses | ⟨hwait, -⟩ := hn
    · rw [hexit] at huses
      exact huses
    · rw [hexit] at hwait
      cases hwait
  obtain ⟨s₁, s₂, hstep₁, hstep₂, hmain₁, hmain₂, hjobs, hflag⟩ :=
    exists_step_reported hrun hreported
  refine ⟨(x.next s₁).next s₂, .tail (.single ⟨trivial, hstep₁, rfl⟩) ⟨trivial, hstep₂, rfl⟩,
    fun hsafe => ?_⟩
  have hslot : ((x.next s₁).next s₂).slot = x.slot := by
    show s₂.main.names.getD (s₁.main.names.getD x.slot) = x.slot
    rw [hmain₁, hmain₂, h.slot_eq, h.slot_eq]
  refine hsafe.used ?_ ?_ ?_
  · rw [hslot]
    exact (congrArg (fun m => m.names.getD x.slot) hmain₂).trans h.slot_eq
  · obtain huses | ⟨hwait, hr⟩ := hn
    · exact Or.inl (hmain₂ ▸ huses)
    · have hother : x.job.pid ≠ x.shell.jobs.fgpid := by
        intro he
        obtain ⟨j, hfg, hj⟩ := JobList.exists_of_fgpid he.symm hpos
        have hji : j = x.slot := ht.distinct j x.slot (by omega) hj
        rw [hji] at hfg
        exact hbad ⟨hwait, hfg⟩
      rw [if_neg hother, hr] at hflag
      exact Or.inr ⟨hmain₂ ▸ hwait, hflag⟩
  · rw [Looked.job, hslot]
    show (s₂.jobs.slots x.slot).pid = 0
    rw [hjobs]
    exact congrArg Job.pid (ht.deletejob_slot hpos)

/-! ## Two runs -/

/-- `do_bgfg` finds a job. -/
lemma MainStep.lookup_some {cmd : Bgfg} {para : Option (List Byte)} {i : Fin MAXJOBS}
    (h : s.main = .lookup cmd para) (hl : s.jobs.lookup para = some i) :
    MainStep s { s with main := .switch cmd i } := by
  simpa only [hl] using MainStep.lookup h

/-- `do_bgfg` reads the state of a job. -/
lemma MainStep.switch_state {cmd : Bgfg} {i : Fin MAXJOBS} {state : JobState}
    (h : s.main = .switch cmd i) (hstate : (s.jobs.slots i).state = state) :
    MainStep s { s with main := doBgfgSwitch i cmd state } := by
  simpa only [hstate] using MainStep.switch h

/-- While the handler does not run, only the lookup needs care. -/
lemma Looked.EndsInTime.of_idle (hidle : x.shell.handler = .idle)
    (hlookup : ∀ para i, x.shell.main = .lookup .fg para → x.shell.jobs.lookup para = some i →
      x.shell.children (x.shell.jobs.slots i).pid ≠ some .zombie) : x.EndsInTime where
  outside pid h := by
    rw [hidle] at h
    cases h
  alone h := by
    rw [hidle] at h
    cases h
  noticed para i hmain _ hl hz := absurd hz (hlookup para i hmain hl)
  leaves _ h := by
    rw [hidle] at h
    cases h

/-- At the other locations nothing does. -/
lemma Looked.EndsInTime.of_main (hidle : x.shell.handler = .idle)
    (hmain : ∀ para, x.shell.main ≠ .lookup .fg para) : x.EndsInTime :=
  .of_idle hidle fun para _ h => absurd h (hmain para)

/-- The command line that brings the first job to the foreground. -/
lemma eval_fg : eval (ascii "fg %1\n") = .lookup .fg (some (ascii "%1")) := by
  have hparse : parseline (ascii "fg %1\n") = ([ascii "fg", ascii "%1"], false) := by
    decide +kernel
  have hcmd : builtinCmd (ascii "fg") (some (ascii "%1")) = .bgfg .fg (some (ascii "%1")) := rfl
  simp [eval, hparse, hcmd]

/-- A job that runs in the background. -/
def Shell.background : Shell :=
  { Shell.start.launched (ascii "/bin/ls &\n") true 1 with main := .prompt, blocked := false }

/-- It is found. -/
lemma lookup_background : Shell.background.jobs.lookup (some (ascii "%1")) = some 0 := by
  decide +kernel

/-- The first job runs in the background. -/
lemma state_background : (Shell.background.jobs.slots 0).state = .bg := by
  decide +kernel

/-- No child of it has terminated. -/
lemma children_background (p : ℕ) : Shell.background.children p ≠ some .zombie := by
  show Function.update (fun _ => none) 1 (some Status.running) p ≠ some .zombie
  by_cases hp : p = 1 <;> simp [hp]

/-- `fg` finds the job. -/
lemma LookedIf.found {i : Fin MAXJOBS} (h : LookedIf ok ⟨Shell.background, i⟩)
    (hprompt : ok ⟨Shell.background, i⟩)
    (hlookup : ok ⟨{ Shell.background with main := .lookup .fg (some (ascii "%1")) }, i⟩) :
    LookedIf ok ⟨{ Shell.background with main := .switch .fg 0 }, 0⟩ := by
  have hread : MainStep Shell.background
      { Shell.background with main := .lookup .fg (some (ascii "%1")) } := by
    rw [← eval_fg]
    exact .read _ rfl
  have h₁ := h.step hprompt (.main rfl hread)
  exact h₁.step hlookup (.main rfl (.lookup_some rfl lookup_background))

/-- A job that is brought to the foreground and terminates while the shell waits for it. -/
theorem safe_of_endsInTime_foreground : ∃ x, LookedIf Looked.EndsInTime x ∧
    x.shell.main = .wait .doBgfg ∧ x.shell.handler = .noted 1 false ∧ x.Safe := by
  have hstart : ∀ s', s'.jobs = Shell.start.jobs → s'.handler = .idle → (∀ i, s'.main ≠ .raise i) →
      ∀ i, Looked.EndsInTime ⟨s', i⟩ := by
    intro s' hjobs hidle _ i
    refine .of_idle hidle fun para j _ hl => ?_
    rw [show (Looked.mk s' i).shell.jobs = Shell.start.jobs from hjobs] at hl
    exact absurd rfl (JobList.pid_ne_of_lookup (fun _ => Job.sound_clear) hl)
  have h₀ := ReachableIf.start.launch 1 hstart rfl rfl eval_ls_bg (by decide) rfl
  have h₁ : ReachableIf (fun s => ∀ i, Looked.EndsInTime ⟨s, i⟩) Shell.background :=
    h₀.step (fun i => .of_main rfl fun _ h => by cases h)
      (.main rfl (@MainStep.unblock _ true 1 rfl))
  obtain ⟨i, hi⟩ := h₁.exists_looked
  have h₂ : LookedIf Looked.EndsInTime ⟨Shell.background, i⟩ :=
    Reachability.Reachable.mono (fun x y hstep => ⟨hstep.1 x.slot, hstep.2⟩) hi
  have h₃ := h₂.found (.of_main rfl fun _ h => by cases h)
    (.of_idle rfl fun _ _ _ _ => children_background _)
  have h₄ := h₃.step (.of_main rfl fun _ h => by cases h)
    (.main rfl (.switch_state rfl state_background))
  have h₅ := h₄.step (.of_main rfl fun _ h => by cases h) (.main rfl (.raise rfl))
  have h₆ := h₅.step (.of_main rfl fun _ h => by cases h) (.main rfl (.reset rfl))
  have h₇ := h₆.step (.of_main rfl fun _ h => by cases h)
    (.kernel (.terminate 1 rfl (by decide)))
  have h₈ := h₇.step (.of_main rfl fun _ h => by cases h)
    (.handler (fun h => by cases h) (.enter rfl rfl rfl))
  have hone : ∀ p, Shell.Unreported (Shell.background.setChild 1 .zombie) p → p = 1 := by
    rintro p ⟨st, hst, -⟩
    by_contra hp
    simp [Shell.setChild, Shell.background, Shell.launched, Shell.start, hp] at hst
  have h₉ := h₈.step
    ⟨fun _ h => (by cases h), fun _ _ _ _ => hone, fun _ _ h => (by cases h),
      fun _ _ h => (by cases h)⟩
    (.handler (fun h => by cases h) (.terminated 1 rfl rfl))
  have h₁₀ := h₉.step
    ⟨fun _ _ _ _ => ⟨rfl, rfl⟩, fun h => (by cases h), fun _ _ h => (by cases h),
      fun _ h => (by cases h)⟩
    (.handler (fun h => by cases h) (.note rfl))
  exact ⟨_, h₁₀, rfl, rfl, safe_of_endsInTime _ h₁₀⟩

/-- **Too early.** The job is found and terminates, and the handler deletes it before `do_bgfg`
looks at its state. -/
theorem exists_not_safe : ∃ x, LookedIf (fun _ => True) x ∧ ¬ x.Safe := by
  have h₀ := ReachableIf.start.launch 1 (fun _ _ _ _ => trivial) rfl rfl eval_ls_bg (by decide) rfl
  have h₁ : Reachable Shell.background :=
    h₀.step trivial (.main rfl (@MainStep.unblock _ true 1 rfl))
  obtain ⟨i, h₂⟩ := h₁.exists_looked
  have h₃ := h₂.found trivial trivial
  have h₄ := h₃.step trivial (.kernel (.terminate 1 rfl (by decide)))
  have h₅ := h₄.step trivial (.handler nofun (.enter rfl rfl rfl))
  have h₆ := h₅.step trivial (.handler nofun (.terminated 1 rfl rfl))
  have h₇ := h₆.step trivial (.handler nofun (.note rfl))
  have h₈ := h₇.step trivial (.handler nofun (.delete rfl))
  have hcleared : ((Shell.background.jobs.deletejob 1).2.slots 0).state = .undef := by
    decide +kernel
  refine ⟨_, h₈, fun hsafe => hsafe.switch .fg 0 rfl ?_⟩
  show doBgfgSwitch 0 .fg ((Shell.background.jobs.deletejob 1).2.slots 0).state = .exited
  rw [hcleared]
  rfl

end Tsh
