import SE101.Lib.Reachability
import SE101.Malloc.Extend

set_option relaxedAutoImplicit false
set_option autoImplicit false

/-!
# Clients of the malloc package

A client calls `mm_malloc`, `mm_realloc` and `mm_free` in any order, the latter two with a
pointer that it has got and not given back, and writes into the payloads that it has got. The
worlds are the heaps that can arise in this way, together with the pointers that the client
holds.

## Main definitions

* `Malloc.World`, `Malloc.Call` — the heap and the live pointers, and what a client does.
* `Malloc.World.Allowed`, `Malloc.World.call` — when it may do so, and the world after it.
* `Malloc.ReachableIf` — the worlds after `mm_init` and any number of calls, each of which meets
  a condition.
-/

namespace Malloc

open LittleEndian Reachability

/-- A heap and the live pointers, each with the size last requested for it. -/
structure World where
  heap : Heap
  live : List (ℕ × ℕ)

/-- What a client does. -/
inductive Call
  /-- `mm_malloc(n)`. -/
  | malloc (n : ℕ)
  /-- `mm_realloc(p, n)` for a live pointer that was requested with size `m`. -/
  | realloc (p m n : ℕ)
  /-- `mm_free(p)` for a live pointer that was requested with size `m`. -/
  | free (p m : ℕ)
  /-- Writing a byte of a live payload. -/
  | write (x : ℕ) (v : Byte)

namespace World

variable (w : World)

/-- The byte `x` belongs to a live payload. -/
def Owns (x : ℕ) : Prop := ∃ r ∈ w.live, r.1 ≤ x ∧ x < r.1 + r.2

instance (x : ℕ) : Decidable (w.Owns x) := by unfold Owns; infer_instance

/-- The client holds the pointer, or the payload that it writes into. -/
def Allowed : Call → Prop
  | .malloc _ => True
  | .realloc p m _ => (p, m) ∈ w.live
  | .free p m => (p, m) ∈ w.live
  | .write x _ => w.Owns x

instance : DecidablePred w.Allowed
  | .malloc _ => inferInstanceAs (Decidable True)
  | .realloc p m _ => inferInstanceAs (Decidable ((p, m) ∈ w.live))
  | .free p m => inferInstanceAs (Decidable ((p, m) ∈ w.live))
  | .write x _ => inferInstanceAs (Decidable (w.Owns x))

/-- The world after a call, if the call returns. -/
def call : Call → Option World
  | .malloc n => (w.heap.mmMalloc n).map fun (q, h) =>
    ⟨h, if q = 0 then w.live else (q, n) :: w.live⟩
  | .realloc p m n => (w.heap.mmRealloc p n).map fun (q, h) =>
    ⟨h, if q = 0 then w.live
      else if n = 0 then w.live.erase (p, m)
      else (q, n) :: w.live.erase (p, m)⟩
  | .free p m => some ⟨w.heap.mmFree p, w.live.erase (p, m)⟩
  | .write x v => some ⟨w.heap.putc x v, w.live⟩

/-- The world after a number of calls, if all of them are allowed and return. -/
def calls : World → List Call → Option World
  | w, [] => some w
  | w, c :: cs => if w.Allowed c then (w.call c).bind fun w => calls w cs else none

end World

/-- The world after `mm_init`. -/
def Initial (w : World) : Prop := ∃ h, Fresh h ∧ h.mmInit = some w.heap ∧ w.live = []

/-- The world after `mm_init` in a heap at an arbitrary address. -/
def startWorld : World := ⟨startHeap.mmInit.getD startHeap, []⟩

lemma initial_startWorld : Initial startWorld := by
  obtain ⟨h, hi, -, -⟩ := mmInit_spec fresh_startHeap
  exact ⟨startHeap, fresh_startHeap, by rw [startWorld, hi]; rfl, rfl⟩

/-- An allowed call that meets the condition `ok` leads from one world to the other. -/
def StepIf (ok : World → Call → Prop) (w w' : World) : Prop :=
  ∃ c, w.Allowed c ∧ ok w c ∧ w.call c = some w'

/-- The worlds after `mm_init` and any number of calls that meet the condition `ok`. -/
def ReachableIf (ok : World → Call → Prop) : World → Prop := Reachable Initial (StepIf ok)

variable {ok : World → Call → Prop} {w w' : World}

/-- What a number of calls leads to is reachable. -/
lemma ReachableIf.calls {cs : List Call} (hok : ∀ c ∈ cs, ∀ w, ok w c) (hw : ReachableIf ok w)
    (hcs : w.calls cs = some w') : ReachableIf ok w' := by
  induction cs generalizing w with
  | nil =>
    cases hcs
    exact hw
  | cons c cs ih =>
    rw [World.calls] at hcs
    split_ifs at hcs with hc
    obtain ⟨w₁, h₁, hcs⟩ := Option.bind_eq_some_iff.1 hcs
    exact ih (fun d hd => hok d (List.mem_cons_of_mem c hd))
      (hw.tail ⟨c, hc, hok c List.mem_cons_self w, h₁⟩) hcs

end Malloc
