import SE101.Tsh.Pids

set_option relaxedAutoImplicit false
set_option autoImplicit false

/-!
# `waitpid` without children

The handler takes the failure of `waitpid` for fatal. The call fails if there are no children,
which happens when a `SIGCHLD` is still pending after the last child has been reaped: the signal
was sent between the entry of the handler and its call of `waitpid`, which then collects both of
the changes of the child.

## Main definitions

* `Tsh.WaitpidFails` — the handler is about to call `waitpid`, which fails.
* `Tsh.LeavesChild` — the condition on the states from which a run goes on.
* `Tsh.HasChild` — the invariant.

## Main results

* `Tsh.not_waitpidFails` — a run that meets the condition never gets there.
* `Tsh.waitpidFails_of_not_leavesChild` — a run that violates it may get there at once.
* `Tsh.exists_waitpidFails` — a run that does.
-/

namespace Tsh

open LittleEndian CString

/-- The handler calls `waitpid`, and there are no children. -/
def WaitpidFails (s : Shell) : Prop := s.handler = .entered ∧ ∀ p, s.children p = none

/-- If the handler collects a child that has terminated while the next `SIGCHLD` is pending, then
another child is left. -/
def LeavesChild (s : Shell) : Prop := s.handler = .entered → s.pending = true →
  ∀ pid, s.children pid = some .zombie → ∃ p, p ≠ pid ∧ s.children p ≠ none

/-- While a `SIGCHLD` is pending, and when the handler has been entered, there is a child. -/
def HasChild (s : Shell) : Prop :=
  s.pending = true ∨ s.handler = .entered → ∃ p, s.children p ≠ none

namespace HasChild

variable {s s' : Shell}

/-- No signal is pending before the first command. -/
lemma start : HasChild Shell.start := fun h => by
  obtain h | h := h <;> cases h

/-- A step that sends no signal and reaps no child. -/
lemma of_same (hs : HasChild s) (hpending : s'.pending = true → s.pending = true)
    (hhandler : s'.handler = .entered → s.pending = true ∨ s.handler = .entered)
    (hchildren : ∀ p, s.children p ≠ none → s'.children p ≠ none) : HasChild s' := by
  intro h
  obtain ⟨p, hp⟩ := hs (h.elim (fun hp => Or.inl (hpending hp)) hhandler)
  exact ⟨p, hchildren p hp⟩

/-- A child that changes exists. -/
lemma of_child {p : ℕ} (hp : s'.children p ≠ none) : HasChild s' := fun _ => ⟨p, hp⟩

/-- `SIGCONT` is sent. Only the continuation of a child may send a signal. -/
lemma signalCont (hs : HasChild s) (pid : ℕ) (notify : Bool) :
    HasChild (s.signalCont pid notify) := by
  by_cases h : ∃ b, s.children pid = some (.stopped b)
  · obtain ⟨b, hb⟩ := h
    refine of_child ((Shell.signalCont_children_eq_none pid).not.2 ?_)
    rw [hb]
    exact Option.some_ne_none _
  · have hsame : s.signalCont pid notify = s := by
      unfold Shell.signalCont
      split
      · next b hb => exact absurd ⟨b, hb⟩ h
      · rfl
    rw [hsame]
    exact hs

/-- A step of `main`. -/
lemma mainStep (hs : HasChild s) (h : MainStep s s') : HasChild s' := by
  cases h with
  | @fork cmdline bg pid h hpos hnew =>
    have hchild : (s.setChild pid .running).children pid ≠ none := by simp [Shell.setChild]
    exact fun _ => ⟨pid, hchild⟩
  | @resume cmd i notify h => exact hs.signalCont _ notify
  | _ => exact hs.of_same id Or.inr fun _ => id

/-- A step of the handler. -/
lemma handlerStep (hs : HasChild s) (hleaves : LeavesChild s) (h : HandlerStep s s') :
    HasChild s' := by
  cases h with
  | enter h hp hb => exact hs.of_same (fun h => nomatch h) (fun _ => Or.inl hp) fun _ => id
  | stopped pid h hpid =>
    refine hs.of_same id (fun h => nomatch h) fun p hp => ?_
    exact (Shell.setChild_eq_none (by simp [hpid]) p).not.2 hp
  | terminated pid h hpid =>
    intro hagain
    have hpending : s.pending = true := hagain.resolve_right (fun h => nomatch h)
    obtain ⟨p, hne, hp⟩ := hleaves h hpending pid hpid
    refine ⟨p, ?_⟩
    show Function.update s.children pid none p ≠ none
    rwa [Function.update_of_ne hne]
  | _ => exact hs.of_same id (fun h => nomatch h) fun _ => id

/-- **A child is left.** Every step from a state that meets the condition keeps the invariant. -/
theorem step (hs : HasChild s) (hleaves : LeavesChild s) (h : Step s s') : HasChild s' := by
  cases h with
  | main hidle h => exact hs.mainStep h
  | handler hrun h => exact hs.handlerStep hleaves h
  | signal h => cases h <;> exact hs.of_same id Or.inr fun _ => id
  | kernel h =>
    cases h with
    | stop pid h => exact of_child (p := pid) (by simp [Shell.setChild])
    | terminate pid h hst => exact of_child (p := pid) (by simp [Shell.setChild])
    | cont pid notify => exact hs.signalCont pid notify

end HasChild

/-- **`waitpid` finds a child.** If the handler never collects the last child while a `SIGCHLD` is
pending, then no run makes `waitpid` fail. -/
theorem not_waitpidFails (s : Shell) (h : ReachableIf LeavesChild s) : ¬ WaitpidFails s := by
  have hs : HasChild s :=
    h.invariant HasChild.start fun _ _ hleaves _ hs hstep => hs.step hleaves hstep
  rintro ⟨hentered, hnone⟩
  obtain ⟨p, hp⟩ := hs (Or.inr hentered)
  exact hp (hnone p)

/-- A child has terminated in the background, and the handler has entered it in the job list. -/
theorem not_waitpidFails_background :
    ∃ s, ReachableIf LeavesChild s ∧ s.children 1 = none ∧ ¬ WaitpidFails s := by
  have hok : ∀ s' : Shell, s'.jobs = Shell.start.jobs → s'.handler = .idle →
      (∀ i, s'.main ≠ .raise i) → LeavesChild s' := by
    intro s' _ hidle _ hentered
    rw [hidle] at hentered
    cases hentered
  have h₀ := ReachableIf.start.launch 1 hok rfl rfl eval_ls_bg (by decide) rfl
  have h₁ := h₀.step nofun (.main rfl (.unblock rfl))
  have h₂ := h₁.step nofun (.kernel (.terminate 1 rfl (by decide)))
  have h₃ := h₂.step nofun (.handler nofun (.enter rfl rfl rfl))
  have h₄ := h₃.step (fun _ h => nomatch h) (.handler nofun (.terminated 1 rfl rfl))
  have h₅ := h₄.step nofun (.handler nofun (.note rfl))
  have h₆ := h₅.step nofun (.handler nofun (.delete rfl))
  exact ⟨_, h₆, rfl, not_waitpidFails _ h₆⟩

/-- `SIGCHLD` is not blocked while the handler runs. -/
lemma ReachableIf.unblocked {ok : Shell → Prop} {s : Shell} (h : ReachableIf ok s) :
    s.handler ≠ .idle → s.blocked = false := by
  refine h.invariant (P := fun s => s.handler ≠ .idle → s.blocked = false)
    (fun h => absurd rfl h) fun s s' _ _ hs hstep => ?_
  cases hstep with
  | main hidle h =>
    intro hrun
    exfalso
    cases h <;> simp_all [Shell.exit, Shell.setChild]
  | handler hrun h =>
    cases h with
    | enter h hp hb => exact fun _ => hb
    | _ => exact fun _ => hs (by simp_all)
  | signal h => cases h <;> exact hs
  | kernel h =>
    cases h with
    | cont pid notify => simpa using hs
    | _ => exact hs

/-- **The condition is needed.** From a state that violates it, the handler goes on to a call of
`waitpid` that fails. -/
theorem waitpidFails_of_not_leavesChild {s : Shell} (h : Reachable s) (hrun : s.main ≠ .exited)
    (hbad : ¬ LeavesChild s) :
    ∃ s', Relation.ReflTransGen (StepIf fun _ => True) s s' ∧ WaitpidFails s' := by
  simp only [LeavesChild, not_forall, not_exists, not_and, not_not] at hbad
  obtain ⟨hentered, hpending, pid, hpid, hlast⟩ := hbad
  have hblocked := h.unblocked (by rw [hentered]; exact fun h => nomatch h)
  refine ⟨_, .tail (.tail (.tail (.single
    ⟨trivial, .handler hrun (.terminated pid hentered hpid)⟩)
    ⟨trivial, .handler hrun (.note rfl)⟩) ⟨trivial, .handler hrun (.delete rfl)⟩)
    ⟨trivial, .handler hrun (.enter rfl hpending hblocked)⟩, rfl, fun p => ?_⟩
  show Function.update s.children pid none p = none
  by_cases hp : p = pid
  · rw [hp, Function.update_self]
  · rw [Function.update_of_ne hp]
    exact hlast p hp

/-- **A signal too many.** A background job stops; when the handler has been entered, the job is
killed, and the handler reaps it with the signal of its end still pending. -/
theorem exists_waitpidFails : ∃ s, Reachable s ∧ WaitpidFails s := by
  have h₀ := ReachableIf.start.launch 1 (fun _ _ _ _ => trivial) rfl rfl eval_ls_bg (by decide) rfl
  have h₁ := h₀.step trivial (.main rfl (.unblock rfl))
  have h₂ := h₁.step trivial (.kernel (.stop 1 rfl))
  have h₃ := h₂.step trivial (.handler nofun (.enter rfl rfl rfl))
  have h₄ := h₃.step trivial (.kernel (.terminate 1 rfl (by decide)))
  have h₅ := h₄.step trivial (.handler nofun (.terminated 1 rfl rfl))
  have h₆ := h₅.step trivial (.handler nofun (.note rfl))
  have h₇ := h₆.step trivial (.handler nofun (.delete rfl))
  have h₈ := h₇.step trivial (.handler nofun (.enter rfl rfl rfl))
  refine ⟨_, h₈, rfl, fun p => ?_⟩
  by_cases hp : p = 1 <;> simp [Shell.reap, Shell.setChild, Shell.launched, Shell.start, hp]

end Tsh
