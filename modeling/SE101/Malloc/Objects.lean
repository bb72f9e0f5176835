import SE101.Lib.ObjectStore
import SE101.Malloc.Runs

set_option relaxedAutoImplicit false
set_option autoImplicit false

/-!
# The package as a store of objects

To its clients the package is a store of objects: `mm_malloc` makes an object, `mm_realloc`
gives an object another size, `mm_free` gives one up, and what is written into a payload stays
there until it is written again. Along every run of plain calls the heap shows the store that
the operations of the run lead to, whatever calls for other payloads come in between and
wherever the payloads move.

## Main definitions

* `Malloc.World.objectOps` — the operations on objects that a call brings about.
* `Malloc.History` — the worlds of plain runs, with the operations of the run.
* `Malloc.Represents` — a world shows a store.

## Main results

* `Malloc.Represents.step` — a call carries out its operations.
* `Malloc.objects_of_plain` — a run carries out its operations.

## Design

A call that returns `NULL` brings no operation about, so a run in which every call fails is a
run of the empty list of operations.
-/

namespace Malloc

open LittleEndian Heap ObjectStore

variable {w w' : World} {bs : List Block} {b : Block} {s : Store Byte} {ops : List (Op Byte)}
  {n p m x : ℕ}

/-! ## Operations -/

/-- The operations on objects that a call brings about. -/
def World.objectOps (w : World) : Call → List (Op Byte)
  | .malloc n =>
    match w.heap.mmMalloc n with
    | some (q, _) => if q = 0 then [] else [.alloc q n]
    | none => []
  | .realloc p _ n =>
    match w.heap.mmRealloc p n with
    | some (q, _) => if q = 0 then [] else [.resize p q n]
    | none => []
  | .free p _ => [.free p]
  | .write x v =>
    match w.live.find? fun r => r.1 ≤ x ∧ x < r.1 + r.2 with
    | some r => [.write r.1 (x - r.1) v]
    | none => []

/-- The worlds after `mm_init` and any number of plain calls, with the operations that these
have brought about. -/
inductive History : List (Op Byte) → World → Prop
  | init {w : World} : Initial w → History [] w
  | call {ops : List (Op Byte)} {w w' : World} {c : Call} : History ops w → w.Allowed c →
      Plain w c → w.call c = some w' → History (ops ++ w.objectOps c) w'

/-- Histories are those of plain runs. -/
lemma History.reachable (h : History ops w) : ReachableIf Plain w := by
  induction h with
  | init hw => exact .of_init hw
  | call _ ha hp hc ih => exact ih.tail ⟨_, ha, hp, hc⟩

/-- Every plain run has a history. -/
lemma ReachableIf.history (h : ReachableIf Plain w) : ∃ ops, History ops w := by
  refine Reachability.Reachable.invariant (P := fun w => ∃ ops, History ops w)
    (fun w hw => ⟨[], .init hw⟩) (fun w w' _ ih hs => ?_) h
  obtain ⟨ops, hops⟩ := ih
  obtain ⟨c, ha, hp, hc⟩ := hs
  exact ⟨_, hops.call ha hp hc⟩

/-! ## Representation -/

/-- The live pointers are the objects of the store, and the heap shows their cells. -/
structure Represents (w : World) (s : Store Byte) : Prop where
  live_iff : ∀ p n, (p, n) ∈ w.live ↔ ∃ cells, s p = some cells ∧ cells.length = n
  shows : Shows w.heap.mem s

/-- The objects of a store that a world represents have their blocks. -/
lemma Held.objectBlock (hw : Held w bs) (hr : Represents w s) {cells : List (Option Byte)}
    (hp : s p = some cells) :
    ∃ b ∈ bs, b.alloc = true ∧ b.addr = p ∧ cells.length + 8 ≤ b.size :=
  hw.block (p, cells.length) ((hr.live_iff p _).2 ⟨cells, hp, rfl⟩)

/-- Objects do not overlap. -/
lemma Held.objectsApart (hw : Held w bs) (hr : Represents w s) : Apart s := by
  intro p cells hp q cells' hq hne
  obtain ⟨b, hb, -, rfl, hsize⟩ := hw.objectBlock hr hp
  obtain ⟨c, hc, -, rfl, hsize'⟩ := hw.objectBlock hr hq
  have := hw.wellFormed.apart hb hc fun h => hne (congrArg Block.addr h)
  unfold Block.next at this
  omega

/-- A memory in which the payloads other than that at `p` are kept agrees on the objects. -/
lemma Held.agreeBut (hw : Held w bs) (hr : Represents w s) {mem' : Memory}
    (hkeep : ∀ c ∈ bs, c.alloc = true → c.addr ≠ p → ∀ x, c.Payload x → mem' x = w.heap.mem x) :
    AgreeBut s p w.heap.mem mem' := by
  intro q cells hq hne i hi
  obtain ⟨c, hc, hca, rfl, hsize⟩ := hw.objectBlock hr hq
  exact hkeep c hc hca hne _ (by unfold Block.Payload Block.next; omega)

/-- What is live when one pointer has been given up. -/
lemma Held.mem_erase_iff (hw : Held w bs) (hp : (p, m) ∈ w.live) (q k : ℕ) :
    (q, k) ∈ w.live.erase (p, m) ↔ (q, k) ∈ w.live ∧ q ≠ p := by
  constructor
  · intro h
    exact hw.ne_of_mem_erase hp h
  · rintro ⟨h, hne⟩
    exact (List.mem_erase_of_ne fun heq => hne (congrArg Prod.fst heq)).2 h

/-- Giving a pointer up is giving its object up. -/
lemma Represents.erase_iff (hr : Represents w s) (hw : Held w bs) (hp : (p, m) ∈ w.live)
    (q k : ℕ) : (q, k) ∈ w.live.erase (p, m) ↔
      ∃ cells, Function.update s p none q = some cells ∧ cells.length = k := by
  rw [hw.mem_erase_iff hp, hr.live_iff]
  by_cases hqp : q = p
  · subst hqp
    simp
  · simp [hqp]

/-- Getting a pointer that is not live is getting an object. -/
lemma cons_iff {live : List (ℕ × ℕ)} {q : ℕ} (cells : List (Option Byte))
    (hlive : ∀ p n, (p, n) ∈ live ↔ ∃ cells, s p = some cells ∧ cells.length = n)
    (hfresh : s q = none) (p n : ℕ) : (p, n) ∈ (q, cells.length) :: live ↔
      ∃ cells', Function.update s q (some cells) p = some cells' ∧ cells'.length = n := by
  rw [List.mem_cons, hlive]
  by_cases hpq : p = q
  · subst hpq
    simp [hfresh, eq_comm]
  · simp [hpq]

/-! ## Steps -/

/-- The object of a live pointer. -/
lemma Represents.object (hr : Represents w s) (hp : (p, m) ∈ w.live) :
    ∃ cells, s p = some cells ∧ cells.length = m :=
  (hr.live_iff p m).1 hp

/-- A pointer at which no live payload begins is no object. -/
lemma Represents.fresh (hr : Represents w s) (hp : ∀ r ∈ w.live, r.1 ≠ p) : s p = none := by
  cases hs : s p with
  | none => rfl
  | some cells => exact absurd rfl (hp (p, cells.length) ((hr.live_iff _ _).2 ⟨cells, hs, rfl⟩))

/-- **`mm_malloc` makes an object.** -/
lemma Represents.malloc (hw : Held w bs) (hr : Represents w s) (hp : Plain w (.malloc n))
    (hc : w.call (.malloc n) = some w') :
    ∃ s', s.run (w.objectOps (.malloc n)) = some s' ∧ Represents w' s' := by
  obtain ⟨bs', hw'⟩ := hw.step (c := .malloc n) trivial hp.safe hc
  obtain ⟨⟨q, h⟩, hq, rfl⟩ := Option.map_eq_some_iff.1 hc
  rw [World.objectOps, hq]
  rcases mmMalloc_spec hw.wellFormed hp.1 hp.safe.1 hp.safe.2 hq with h0 | ⟨a, bs₁, ho⟩
  · cases h0
    exact ⟨s, rfl, hr⟩
  obtain rfl : q = a.addr := ho.ptr
  have hne : a.addr ≠ 0 := (ho.wellFormed.placed.pos a
    ((ho.allocates.mem_iff a ho.allocates.alloc).2 (.inl rfl))).ne'
  simp only [if_neg hne] at hw' ⊢
  have hfresh : s a.addr = none := hr.fresh fun r hr' heq =>
    (List.rel_of_pairwise_cons hw'.distinct hr') heq.symm
  obtain ⟨s', hs', hshows, rfl⟩ := hr.shows.alloc (n := n) hfresh
    (hw.agreeBut hr fun c hc hca _ x hx => ho.keeps c hc hca x hx)
  refine ⟨_, by rw [Store.run, hs']; rfl, ?_, hshows⟩
  have hcons := cons_iff (List.replicate n none) hr.live_iff hfresh
  rw [List.length_replicate] at hcons
  exact hcons

/-- **`mm_realloc` gives an object another size.** -/
lemma Represents.realloc (hw : Held w bs) (hr : Represents w s) (hpl : (p, m) ∈ w.live)
    (hp : Plain w (.realloc p m n)) (hc : w.call (.realloc p m n) = some w') :
    ∃ s', s.run (w.objectOps (.realloc p m n)) = some s' ∧ Represents w' s' := by
  obtain ⟨bs', hw'⟩ := hw.step (c := .realloc p m n) hpl hp.safe hc
  obtain ⟨⟨q, h⟩, hq, rfl⟩ := Option.map_eq_some_iff.1 hc
  obtain ⟨b, hb, hba, hbp, hbm⟩ := hw.block _ hpl
  obtain rfl : b.addr = p := hbp
  obtain ⟨cells, hcells, rfl⟩ := hr.object hpl
  rw [World.objectOps, hq]
  rcases mmRealloc_spec hw.wellFormed hb hba hp.1 hp.safe.1 hp.safe.2 hq with
    ⟨h0, bs₁, k⟩ | ⟨a, bs₁, hres, hcopied⟩
  · obtain rfl : q = 0 := h0
    simp only [if_true]
    refine ⟨s, rfl, hr.live_iff, fun q cells hq i v hi => ?_⟩
    obtain ⟨c, hc, hca, rfl, hsize⟩ := hw.objectBlock hr hq
    obtain ⟨hlt, -⟩ := List.getElem?_eq_some_iff.1 hi
    rw [← hr.shows _ _ hq i v hi]
    exact k.keeps c hc hca _ (by unfold Block.Payload Block.next; omega)
  · obtain rfl : q = a.addr := hres.ptr
    obtain ⟨hdata, hkeeps⟩ := hcopied hp.2.2.2
    have hne : a.addr ≠ 0 := (hres.wellFormed.placed.pos a hres.mem).ne'
    simp only [if_neg hne, if_neg hp.1.ne'] at hw' ⊢
    have hfresh : Function.update s b.addr none a.addr = none := by
      by_contra hsome
      obtain ⟨cells', hcells'⟩ := Option.ne_none_iff_exists'.1 hsome
      have hmem := (hr.erase_iff hw hpl a.addr cells'.length).2 ⟨cells', hcells', rfl⟩
      exact (List.rel_of_pairwise_cons hw'.distinct hmem) rfl
    obtain ⟨s', hs', hshows, rfl⟩ := hr.shows.resize (n := n) hcells
      (fun hne => by rwa [Function.update_of_ne hne] at hfresh)
      (hw.agreeBut hr fun c hc hca hcb x hx => hkeeps c hc hca
        (fun heq => hcb (congrArg Block.addr heq)) x hx)
      fun i hin hi => hdata i hin (by dsimp only at hbm; omega)
    refine ⟨_, by rw [Store.run, hs']; rfl, ?_, hshows⟩
    have hcons := cons_iff (resized n cells) (hr.erase_iff hw hpl) hfresh
    rw [length_resized] at hcons
    exact hcons

/-- **`mm_free` gives an object up.** -/
lemma Represents.free (hw : Held w bs) (hr : Represents w s) (hpl : (p, m) ∈ w.live)
    (hp : Unmarked w.heap p) :
    ∃ s', s.run [.free p] = some s' ∧
      Represents ⟨w.heap.mmFree p, w.live.erase (p, m)⟩ s' := by
  obtain ⟨b, hb, hba, hbp, hbm⟩ := hw.block _ hpl
  obtain rfl : b.addr = p := hbp
  obtain ⟨cells, hcells, rfl⟩ := hr.object hpl
  obtain ⟨pre, post, rfl⟩ := List.append_of_mem hb
  obtain ⟨xs, c, ys, hf⟩ := mmFree_spec hw.wellFormed hba hp
  obtain ⟨s', hs', hshows, rfl⟩ := hr.shows.free hcells
    (hw.agreeBut hr fun d hd hda hdb x hx => hf.keeps d
      (by simpa [show d ≠ b from fun h => hdb (congrArg Block.addr h)] using hd) hda x hx)
  exact ⟨_, by rw [Store.run, hs']; rfl, hr.erase_iff hw hpl, hshows⟩

/-- **Writing sets a cell.** -/
lemma Represents.write (hw : Held w bs) (hr : Represents w s) (hx : w.Owns x) (v : Byte) :
    ∃ s', s.run (w.objectOps (.write x v)) = some s' ∧ Represents ⟨w.heap.putc x v, w.live⟩ s' := by
  rw [World.objectOps]
  cases hfind : w.live.find? fun r => r.1 ≤ x ∧ x < r.1 + r.2 with
  | none =>
    obtain ⟨r, hr', h1, h2⟩ := hx
    have hnot := List.find?_eq_none.1 hfind r hr'
    simp only [decide_eq_true_iff] at hnot
    exact absurd ⟨h1, h2⟩ hnot
  | some r =>
    have hmem := List.mem_of_find?_eq_some hfind
    have hin := List.find?_some hfind
    simp only [decide_eq_true_iff] at hin
    obtain ⟨p, m⟩ := r
    obtain ⟨cells, hcells, rfl⟩ := hr.object hmem
    obtain ⟨s', hs', hshows, rfl⟩ := hr.shows.write (i := x - p) (v := v)
      (hw.objectsApart hr) hcells (by omega)
    rw [Nat.add_sub_cancel' hin.1] at hshows
    refine ⟨_, by rw [Store.run, hs']; rfl, fun q n => ?_, hshows⟩
    rw [hr.live_iff]
    by_cases hqp : q = p
    · subst hqp
      simp [hcells]
    · simp [hqp]

/-- **A call carries out its operations.** -/
theorem Represents.step {c : Call} (hw : Held w bs) (hr : Represents w s) (ha : w.Allowed c)
    (hp : Plain w c) (hc : w.call c = some w') :
    ∃ s', s.run (w.objectOps c) = some s' ∧ Represents w' s' := by
  cases c with
  | malloc n => exact hr.malloc hw hp hc
  | realloc p m n => exact hr.realloc hw ha hp hc
  | free p m =>
    cases hc
    exact hr.free hw ha hp
  | write x v =>
    cases hc
    exact hr.write hw ha v

/-! ## Runs -/

/-- **The package is a store of objects.** Along every run of plain calls, the operations that
the calls bring about are possible in the store of objects, one after the other; the objects
that they lead to are the live pointers with the sizes requested last; and every byte that the
store knows is the one that a client reads from the payload. -/
theorem objects_of_plain (h : History ops w) :
    ∃ s, Store.empty.run ops = some s ∧
      (∀ p n, (p, n) ∈ w.live ↔ ∃ cells, s p = some cells ∧ cells.length = n) ∧
      ∀ p cells, s p = some cells → ∀ i v, cells[i]? = some (some v) → w.heap.mem (p + i) = v := by
  suffices h : ∃ s, Store.empty.run ops = some s ∧ Represents w s by
    obtain ⟨s, hs, hr⟩ := h
    exact ⟨s, hs, hr.live_iff, hr.shows⟩
  induction h with
  | @init w hw =>
    obtain ⟨-, -, -, hl⟩ := hw
    refine ⟨_, rfl, fun p n => ?_, shows_empty _⟩
    simp [hl, Store.empty]
  | @call ops w w' c h ha hp hc ih =>
    obtain ⟨s, hs, hr⟩ := ih
    obtain ⟨bs, hw⟩ := h.reachable.safe.held
    obtain ⟨s', hs', hr'⟩ := hr.step hw ha hp hc
    exact ⟨s', by rw [Store.run_append, hs, Option.bind_some, hs'], hr'⟩

set_option maxRecDepth 20000 in
/-- A block into which a byte has been written is moved. -/
theorem objects_of_plain_moved : ∃ ops w s, History ops w ∧ Store.empty.run ops = some s ∧
    ∃ cells, s 4176 = some cells ∧ cells.length = 200 := by
  have hrun : (startWorld.calls [.malloc 24, .write 4112 7, .malloc 24]).bind (fun w =>
      (w.call (.realloc 4112 24 200)).map fun w' => (w.live,
        (w.heap.reallocFrees 4112 200).all (fun h => h.mem 8207 ≠ marker && h.mem 12303 ≠ marker),
        w'.live)) =
      some ([(4144, 24), (4112, 24)], true, [(4176, 200), (4144, 24)]) := by decide +kernel
  obtain ⟨w, hw, heq⟩ := Option.bind_eq_some_iff.1 hrun
  obtain ⟨w', hw', heq⟩ := Option.map_eq_some_iff.1 heq
  obtain ⟨hlive, heq⟩ := Prod.mk.inj heq
  obtain ⟨hfrees, hlive'⟩ := Prod.mk.inj heq
  have hord : Ordinary 24 ∧ Ordinary 200 := by unfold Ordinary; decide
  have hreach : ReachableIf Plain w := by
    refine ReachableIf.calls (fun c hc w => ?_) (.of_init initial_startWorld) hw
    simp only [List.mem_cons, List.not_mem_nil, or_false] at hc
    rcases hc with rfl | rfl | rfl
    · exact ⟨by decide, by decide, hord.1⟩
    · trivial
    · exact ⟨by decide, by decide, hord.1⟩
  obtain ⟨ops, hops⟩ := hreach.history
  have hplain : Plain w (.realloc 4112 24 200) := by
    refine ⟨by decide, by decide, hord.2, fun h₂ h => ?_⟩
    rw [h, Option.all_some, Bool.and_eq_true, decide_eq_true_iff, decide_eq_true_iff] at hfrees
    exact hfrees
  have hops' := hops.call (c := .realloc 4112 24 200) (by rw [World.Allowed, hlive]; simp) hplain
    hw'
  obtain ⟨s, hs, hobj, -⟩ := objects_of_plain hops'
  exact ⟨_, w', s, hops', hs, (hobj 4176 200).1 (by rw [hlive']; simp)⟩

end Malloc
