import Mathlib.Data.List.Basic
import Mathlib.Data.List.Pairwise
import SE101.Lib.LittleEndian

set_option relaxedAutoImplicit false
set_option autoImplicit false

/-!
# Doubly linked lists in a byte memory

A node of a doubly linked list is the address of two consecutive `w`-byte pointers, the one to
its predecessor and the one to its successor. A list of nodes is laid out in a memory when every
node points at its two neighbours; what stands before its first and after its last node is a
parameter, so that a list can be cut into segments and put together again. The two operations
are pushing a node in front of a list ended by null pointers and taking a node out of it.

## Main definitions

* `LinkedList.Linked` — a list of nodes is laid out in a memory, between two ends.
* `LinkedList.Apart` — two nodes share no byte.
* `LinkedList.setPrev`, `LinkedList.setNext` — redirect one pointer of a node, if there is one.
* `LinkedList.push`, `LinkedList.unlink` — the two operations.

## Main results

* `LinkedList.linked_append` — a list is laid out when its two segments are.
* `LinkedList.linked_push`, `LinkedList.linked_unlink` — the lists after the operations.
* `LinkedList.push_apply_of_notMem`, `LinkedList.unlink_apply_of_notMem` — only nodes change.
-/

namespace LinkedList

open LittleEndian

/-- The nodes `xs` are laid out in `m` as a doubly linked list with `w`-byte pointers: the node
before the first is `p`, the node behind the last is `q`. -/
def Linked (w : ℕ) (m : Memory) : ℕ → List ℕ → ℕ → Prop
  | _, [], _ => True
  | p, x :: xs, q => load m x w = p ∧ load m (x + w) w = xs.headD q ∧ Linked w m x xs q

/-- The nodes `x` and `y` share no byte. -/
def Apart (w x y : ℕ) : Prop := x + 2 * w ≤ y ∨ y + 2 * w ≤ x

/-- The byte `z` belongs to no node of `xs`. -/
def Off (w : ℕ) (xs : List ℕ) (z : ℕ) : Prop := ∀ x ∈ xs, z < x ∨ x + 2 * w ≤ z

/-- Redirects the predecessor pointer of `x` to `p`, unless `x` is null. -/
def setPrev (w : ℕ) (m : Memory) (x p : ℕ) : Memory := if x = 0 then m else store m x w p

/-- Redirects the successor pointer of `x` to `q`, unless `x` is null. -/
def setNext (w : ℕ) (m : Memory) (x q : ℕ) : Memory := if x = 0 then m else store m (x + w) w q

/-- Puts the node `x` in front of the list whose first node is `head`. -/
def push (w : ℕ) (m : Memory) (x head : ℕ) : Memory :=
  store (setPrev w (store m (x + w) w head) head x) x w 0

/-- Makes the two neighbours of the node `x` point at each other. -/
def unlink (w : ℕ) (m : Memory) (x : ℕ) : Memory :=
  setPrev w (setNext w m (load m x w) (load m (x + w) w)) (load m (x + w) w) (load m x w)

variable {w : ℕ} {m m' : Memory} {p q x z : ℕ} {xs ys : List ℕ}

/-! ## Nodes -/

lemma Apart.symm {y : ℕ} (h : Apart w x y) : Apart w y x := Or.symm h

/-- The bytes of a node lie in no node apart from it. -/
lemma off_of_apart {i : ℕ} (h : ∀ y ∈ ys, Apart w x y) (hi : i < 2 * w) : Off w ys (x + i) := by
  intro y hy
  have := h y hy
  unfold Apart at this
  omega

/-- The last node of a list is one of its nodes, or null. -/
lemma getLastD_zero_mem (h : xs.getLastD 0 ≠ 0) : xs.getLastD 0 ∈ xs := by
  cases xs with
  | nil => exact absurd rfl h
  | cons x xs => rw [List.getLastD_cons]; exact List.getLastD_mem_cons

/-- The first node of a list is one of its nodes, or null. -/
lemma headD_zero_mem (h : xs.headD 0 ≠ 0) : xs.headD 0 ∈ xs := by
  cases xs with
  | nil => exact absurd rfl h
  | cons x xs => exact List.mem_cons_self

/-- The first node of a list, or null, is a pointer when the nodes are. -/
lemma headD_zero_lt (h : ∀ x ∈ xs, x < 256 ^ w) : xs.headD 0 < 256 ^ w := by
  rcases Nat.eq_zero_or_pos (xs.headD 0) with h0 | h0
  · rw [h0]; exact Nat.pow_pos (by decide)
  · exact h _ (headD_zero_mem (by omega))

/-- The last node of a list, or null, is a pointer when the nodes are. -/
lemma getLastD_zero_lt (h : ∀ x ∈ xs, x < 256 ^ w) : xs.getLastD 0 < 256 ^ w := by
  rcases Nat.eq_zero_or_pos (xs.getLastD 0) with h0 | h0
  · rw [h0]; exact Nat.pow_pos (by decide)
  · exact h _ (getLastD_zero_mem (by omega))

/-! ## Single pointers -/

/-- Redirecting a predecessor pointer changes nothing outside of the node. -/
lemma setPrev_apply_of_notMem (h : x ≠ 0 → z < x ∨ x + 2 * w ≤ z) :
    setPrev w m x p z = m z := by
  unfold setPrev
  split_ifs with hx
  · rfl
  · have := h hx
    exact store_apply_of_notMem (by omega)

/-- Redirecting a successor pointer changes nothing outside of the node. -/
lemma setNext_apply_of_notMem (h : x ≠ 0 → z < x ∨ x + 2 * w ≤ z) :
    setNext w m x q z = m z := by
  unfold setNext
  split_ifs with hx
  · rfl
  · have := h hx
    exact store_apply_of_notMem (by omega)

/-! ## Layouts -/

/-- A layout depends only on the bytes of its nodes. -/
lemma linked_congr (h : ∀ x ∈ xs, ∀ i < 2 * w, m' (x + i) = m (x + i))
    (hl : Linked w m p xs q) : Linked w m' p xs q := by
  induction xs generalizing p with
  | nil => trivial
  | cons x xs ih =>
    obtain ⟨h1, h2, h3⟩ := hl
    have hx := h x List.mem_cons_self
    refine ⟨?_, ?_, ih (fun y hy => h y (List.mem_cons_of_mem _ hy)) h3⟩
    · rw [← h1]; exact load_congr fun i hi => hx i (by omega)
    · rw [← h2]
      exact load_congr fun i hi => by rw [Nat.add_assoc]; exact hx (w + i) (by omega)

/-- A list is laid out when its two segments are, each ending where the other one starts. -/
lemma linked_append :
    Linked w m p (xs ++ ys) q ↔
      Linked w m p xs (ys.headD q) ∧ Linked w m (xs.getLastD p) ys q := by
  induction xs generalizing p with
  | nil => simp [Linked]
  | cons x xs ih =>
    have hd : (xs ++ ys).headD q = xs.headD (ys.headD q) := by cases xs <;> rfl
    rw [List.cons_append, Linked, Linked, ih, hd, List.getLastD_cons]
    tauto

/-- The layout after the pointer to what stands before it has been redirected. -/
lemma linked_setPrev (hl : Linked w m q xs z) (hpos : ∀ x ∈ xs, x ≠ 0)
    (hap : xs.Pairwise (Apart w)) (hp : p < 256 ^ w) :
    Linked w (setPrev w m (xs.headD 0) p) p xs z := by
  cases xs with
  | nil => trivial
  | cons x xs =>
    obtain ⟨-, h2, h3⟩ := hl
    have hx : x ≠ 0 := hpos x List.mem_cons_self
    rw [List.headD_cons, setPrev, if_neg hx]
    refine ⟨load_store_same hp, ?_, linked_congr (fun y hy i hi => ?_) h3⟩
    · rw [load_store_of_disjoint (.inr le_rfl), h2]
    · have := List.rel_of_pairwise_cons hap hy
      unfold Apart at this
      exact store_apply_of_notMem (by omega)

/-- The layout after the pointer to what stands behind it has been redirected. -/
lemma linked_setNext (hl : Linked w m p xs z) (hpos : ∀ x ∈ xs, x ≠ 0)
    (hap : xs.Pairwise (Apart w)) (hq : q < 256 ^ w) :
    Linked w (setNext w m (xs.getLastD 0) q) p xs q := by
  rcases List.eq_nil_or_concat xs with rfl | ⟨xs, x, rfl⟩
  · trivial
  rw [List.concat_eq_append] at *
  have hx : x ≠ 0 := hpos x (by simp)
  have hxs : ∀ y ∈ xs, Apart w y x := fun y hy =>
    (List.pairwise_append.1 hap).2.2 y hy x (by simp)
  rw [List.getLastD_concat, setNext, if_neg hx]
  obtain ⟨h1, h2, -, -⟩ := linked_append.1 hl
  refine linked_append.2 ⟨linked_congr (fun y hy i hi => ?_) h1, ?_, ?_, trivial⟩
  · have := hxs y hy
    unfold Apart at this
    exact store_apply_of_notMem (by omega)
  · rw [load_store_of_disjoint (.inl le_rfl), h2]
  · rw [load_store_same hq]; rfl

/-! ## The operations -/

/-- Pushing changes only the new node and the old first one. -/
lemma push_apply_of_notMem (h : Off w (x :: xs) z) :
    push w m x (xs.headD 0) z = m z := by
  have hx := h x List.mem_cons_self
  rw [push, store_apply_of_notMem (by omega), setPrev_apply_of_notMem,
    store_apply_of_notMem (by omega)]
  exact fun hne => h _ (List.mem_cons_of_mem _ (headD_zero_mem hne))

/-- Pushing a node in front of a list lays out the longer list. -/
lemma linked_push (hl : Linked w m 0 xs 0) (hpos : ∀ y ∈ x :: xs, y ≠ 0)
    (hap : (x :: xs).Pairwise (Apart w)) (hlt : ∀ y ∈ x :: xs, y < 256 ^ w) :
    Linked w (push w m x (xs.headD 0)) 0 (x :: xs) 0 := by
  have hx : ∀ y ∈ xs, Apart w x y := fun y hy => List.rel_of_pairwise_cons hap hy
  have hhead : xs.headD 0 < 256 ^ w :=
    headD_zero_lt fun y hy => hlt y (List.mem_cons_of_mem _ hy)
  have hother : ∀ i < 2 * w, xs.headD 0 ≠ 0 →
      x + i < xs.headD 0 ∨ xs.headD 0 + 2 * w ≤ x + i := fun i hi hne =>
    off_of_apart hx hi _ (headD_zero_mem hne)
  have h1 : Linked w (store m (x + w) w (xs.headD 0)) 0 xs 0 := by
    refine linked_congr (fun y hy i hi => ?_) hl
    have := hx y hy
    unfold Apart at this
    exact store_apply_of_notMem (by omega)
  refine ⟨load_store_same (Nat.pow_pos (by decide)), ?_, ?_⟩
  · -- the successor pointer was written first and is touched by neither later write
    rw [push, load_store_of_disjoint (.inr le_rfl)]
    refine Eq.trans (load_congr fun i hi => ?_) (load_store_same (m := m) (a := x + w) hhead)
    rw [Nat.add_assoc]
    exact setPrev_apply_of_notMem (hother (w + i) (by omega))
  · refine linked_congr (fun y hy i hi => ?_)
      (linked_setPrev h1 (fun y hy => hpos y (List.mem_cons_of_mem _ hy)) hap.of_cons
        (hlt x List.mem_cons_self))
    have := hx y hy
    unfold Apart at this
    exact store_apply_of_notMem (by omega)

/-- A node points at its neighbours. -/
lemma Linked.load_eq (hl : Linked w m p (xs ++ x :: ys) q) :
    load m x w = xs.getLastD p ∧ load m (x + w) w = ys.headD q := by
  obtain ⟨-, h1, h2, -⟩ := linked_append.1 hl
  exact ⟨h1, h2⟩

/-- No node points at the first node of a list without repetition. -/
lemma Linked.load_ne_head (hl : Linked w m p (x :: xs) 0) (hnd : (x :: xs).Nodup) (hx : x ≠ 0)
    {y : ℕ} (hy : y ∈ x :: xs) : load m (y + w) w ≠ x := by
  obtain ⟨us, vs, he⟩ := List.append_of_mem hy
  rw [he] at hl
  obtain ⟨-, hload⟩ := hl.load_eq
  intro heq
  have hvs : x ∈ vs := by
    have hhead : vs.headD 0 = x := hload.symm.trans heq
    exact hhead ▸ headD_zero_mem (hhead ▸ hx)
  refine (List.nodup_cons.1 hnd).1 ?_
  cases us with
  | nil => exact (List.cons.inj he).2 ▸ hvs
  | cons u us =>
    rw [(List.cons.inj he).2]
    exact List.mem_append_right _ (List.mem_cons_of_mem _ hvs)

/-- When a node is pushed onto a list that has it already, some node in front of it, or it itself,
points at it afterwards. -/
lemma exists_load_push (hl : Linked w m p (xs ++ x :: ys) q)
    (hm : ∀ y ∈ xs, ∀ i < 2 * w, m' (y + i) = m (y + i)) (hx : x ≠ 0) (hlt : x < 256 ^ w)
    (hap : (xs ++ x :: ys).Pairwise (Apart w)) :
    ∃ z ∈ xs ++ [x], load (push w m' x ((xs ++ x :: ys).headD 0)) (z + w) w = x := by
  obtain ⟨hxs, -, hxy⟩ := List.pairwise_append.1 hap
  rcases List.eq_nil_or_concat xs with rfl | ⟨us, z, rfl⟩
  · refine ⟨x, by simp, ?_⟩
    rw [push, load_store_of_disjoint (.inr le_rfl), List.nil_append, List.headD_cons, setPrev,
      if_neg hx, load_store_of_disjoint (.inr le_rfl), load_store_same hlt]
  · rw [List.concat_eq_append] at *
    refine ⟨z, by simp, ?_⟩
    have hz : load m (z + w) w = x := by
      rw [List.append_assoc] at hl
      exact hl.load_eq.2
    have hzx : Apart w z x := hxy z (by simp) x (by simp)
    -- the first node is `z` or apart from it
    have hhead : ((us ++ [z]) ++ x :: ys).headD 0 = z ∨
        Apart w ((us ++ [z] ++ x :: ys).headD 0) z := by
      cases us with
      | nil => exact .inl rfl
      | cons u us => exact .inr ((List.pairwise_append.1 hxs).2.2 u (by simp) z (by simp))
    rw [← hz]
    refine load_congr fun i hi => ?_
    rw [Nat.add_assoc, ← hm z (by simp) (w + i) (by omega), push, hz]
    unfold Apart at hzx hhead
    rw [store_apply_of_notMem (by omega), setPrev]
    split_ifs with h0
    · exact store_apply_of_notMem (by omega)
    · rw [store_apply_of_notMem (by omega), store_apply_of_notMem (by omega)]

/-- Unlinking changes only the other nodes. -/
lemma unlink_apply_of_notMem (hl : Linked w m 0 (xs ++ x :: ys) 0) (h : Off w (xs ++ ys) z) :
    unlink w m x z = m z := by
  obtain ⟨h1, h2⟩ := hl.load_eq
  rw [unlink, h1, h2, setPrev_apply_of_notMem, setNext_apply_of_notMem]
  · exact fun hne => h _ (List.mem_append_left _ (getLastD_zero_mem hne))
  · exact fun hne => h _ (List.mem_append_right _ (headD_zero_mem hne))

/-- Unlinking a node lays out the list without it.

**Proof sketch.** Cut the list at the node. Redirecting the last pointer of the first segment
and then the first pointer of the second one makes each end where the other starts; as the
nodes are apart, neither write reaches into the other segment. -/
lemma linked_unlink (hl : Linked w m 0 (xs ++ x :: ys) 0) (hpos : ∀ y ∈ xs ++ x :: ys, y ≠ 0)
    (hap : (xs ++ x :: ys).Pairwise (Apart w)) (hlt : ∀ y ∈ xs ++ x :: ys, y < 256 ^ w) :
    Linked w (unlink w m x) 0 (xs ++ ys) 0 := by
  obtain ⟨h1, h2⟩ := hl.load_eq
  obtain ⟨hxs, -, -, hys⟩ := linked_append.1 hl
  obtain ⟨hapx, hapy, hxy⟩ := List.pairwise_append.1 hap
  have hhead : ys.headD 0 < 256 ^ w := headD_zero_lt fun y hy => hlt y (by simp [hy])
  have hlast : xs.getLastD 0 < 256 ^ w := getLastD_zero_lt fun y hy => hlt y (by simp [hy])
  rw [unlink, h1, h2]
  refine linked_append.2 ⟨?_, ?_⟩
  · refine linked_congr (fun y hy i hi => setPrev_apply_of_notMem fun hne => ?_)
      (linked_setNext hxs (fun y hy => hpos y (List.mem_append_left _ hy)) hapx hhead)
    exact off_of_apart (fun z hz => hxy y hy z (List.mem_cons_of_mem _ hz)) hi _
      (headD_zero_mem hne)
  · refine linked_setPrev (q := x) (linked_congr (fun y hy i hi => ?_) hys)
      (fun y hy => hpos y (by simp [hy])) hapy.of_cons hlast
    refine setNext_apply_of_notMem fun hne => ?_
    exact off_of_apart (fun z hz => (hxy z hz y (List.mem_cons_of_mem _ hy)).symm) hi _
      (getLastD_zero_mem hne)

end LinkedList
