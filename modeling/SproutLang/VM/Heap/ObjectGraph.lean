/-
  SproutLang.VM.Heap.ObjectGraph
  ──────────────────────────────
  **WHAT A COLLECTION DOES TO THE OBJECT GRAPH.**

  Arrays of pointers make a graph of the objects.  The source looks for the
  `arrayObj` of an array object in two places: `initArray` and `moveArray`
  behind the header, the interior scan of `markObjects` at the header itself
  (`ArrayView`).  Either way a collection copies the elements as they are
  and patches no copy, so:

    • `Represents.quiet_behind` — no pointer stands right behind an object,
    • `collect_graph`           — a collection keeps the graph exactly when
                                  no array it keeps has a pointer in it.
-/
import SproutLang.VM.Heap.Exactness
import SproutLang.VM.Heap.Arrays
import Mathlib.Logic.Relation

namespace SproutLang

open Library

/-! ## §1. The graph. -/

/-- Where the `arrayObj` of an array object is looked for. -/
inductive ArrayView where
  | mutator
  | collector
  deriving DecidableEq, Repr

/-- Its distance from the object's header. -/
def ArrayView.offset : ArrayView → Nat
  | .mutator => SIZEOF_OBJ_HEADER
  | .collector => 0

/-- The word with the fields `type` and `length` of an object's `arrayObj`. -/
def ArrayView.fields (view : ArrayView) (s : Store) (p : Nat × Obj) : Word :=
  s.word (p.1 + view.offset + 16)

/-- Where the elements of an array of pointers lie, counted from the object's
header.  The object is as large as `initArray` makes it. -/
def pointerElements (view : ArrayView) (s : Store) (p : Nat × Obj) : List Nat :=
  if p.2.type = OBJ_ARRAY ∧ arrayType (view.fields s p) = TAG_POINTER.toNat ∧
      24 + 8 * arrayLength (view.fields s p) ≤ p.2.size then
    (List.range (arrayLength (view.fields s p))).map (fun i => view.offset + 24 + 8 * i)
  else []

/-- An element of `p` that holds a pointer. -/
def PointerElement (view : ArrayView) (s : Store) (p : Nat × Obj) (k : Nat) : Prop :=
  k ∈ pointerElements view s p ∧ isPointer (s.word (p.1 + k)) = true

/-- An element of `p` names `u`. -/
def PointsTo (view : ArrayView) (s : Store) (rows : List HeapRow) (p u : Nat × Obj) : Prop :=
  u ∈ heapObjects rows ∧
    ∃ k, PointerElement view s p k ∧ decodePointer (s.word (p.1 + k)) = u.1 + 16

/-- The object is reachable from the roots. -/
def Reachable (view : ArrayView) (vm : VM) (rows : List HeapRow) (p : Nat × Obj) : Prop :=
  ∃ r ∈ heapObjects rows, Referred vm r ∧
    Relation.ReflTransGen (PointsTo view vm.store rows) r p

/-- **A heap whose pointers all name objects**, before a collection. -/
structure GraphState (vm : VM) (rows : List HeapRow) : Prop where
  represents : Represents vm.store (vm.heap vm.active) rows
  inactive : (vm.heap vm.active.other).Empty
  scannable : Scannable vm rows
  elements : ∀ p ∈ heapObjects rows, ∀ k, PointerElement .mutator vm.store p k →
    ToObject rows (vm.store.word (p.1 + k))

/-- **The graph survives** a collection that made `copies`: every reachable
object has a copy, and the elements of the copies name copies. -/
structure GraphKept (view : ArrayView) (vm vm' : VM) (rows rows' : List HeapRow)
    (copies : List ((Nat × Obj) × (Nat × Obj))) : Prop where
  reachable : ∀ p, Reachable view vm rows p → ∃ q, (p, q) ∈ copies
  elements : ∀ c ∈ copies, ∀ k, PointerElement view vm.store c.1 k →
    ∃ d ∈ copies, decodePointer (vm.store.word (c.1.1 + k)) = d.1.1 + 16 ∧
      (∃ r ∈ rows', r.base ≤ c.2.1 + k ∧ c.2.1 + k + 8 ≤ r.base + CHUNK_SIZE) ∧
      vm'.store.word (c.2.1 + k) = encodePointer (BitVec.ofNat 64 (d.2.1 + 16))

/-- No object the collection keeps has an element that holds a pointer. -/
def NoPointerElements (view : ArrayView) (vm : VM) (rows : List HeapRow) : Prop :=
  ∀ p ∈ kept vm rows, ∀ k, ¬ PointerElement view vm.store p k

/-! ## §2. Elements. -/

section Elements

variable {view : ArrayView} {vm : VM} {rows : List HeapRow} {s : Store} {p : Nat × Obj} {k : Nat}

/-- An element lies behind the header, and at most two words behind the
object. -/
theorem pointerElements_bounds (h : k ∈ pointerElements view s p) :
    k % 8 = 0 ∧ 24 ≤ k ∧ k + 8 ≤ p.2.size + 16 := by
  unfold pointerElements at h
  split at h
  · rename_i harray
    obtain ⟨i, hi, rfl⟩ := List.mem_map.1 h
    have hlt := List.mem_range.1 hi
    have hfits := harray.2.2
    cases view with
    | mutator =>
        show (16 + 24 + 8 * i) % 8 = 0 ∧ 24 ≤ 16 + 24 + 8 * i ∧ 16 + 24 + 8 * i + 8 ≤ p.2.size + 16
        omega
    | collector =>
        show (0 + 24 + 8 * i) % 8 = 0 ∧ 24 ≤ 0 + 24 + 8 * i ∧ 0 + 24 + 8 * i + 8 ≤ p.2.size + 16
        omega
  · exact absurd h List.not_mem_nil

/-- Under the collector's view the elements are what the interior scan visits. -/
theorem mem_interiorScan_of_element (h : k ∈ pointerElements .collector s p) :
    Slot.heap (p.1 + k) ∈ interiorScan s p := by
  unfold pointerElements at h
  split at h
  · rename_i harray
    obtain ⟨i, hi, rfl⟩ := List.mem_map.1 h
    unfold interiorScan
    rw [if_pos ⟨harray.1, harray.2.1⟩]
    refine List.mem_map.2 ⟨i, hi, ?_⟩
    show Slot.heap (p.1 + 24 + 8 * i) = Slot.heap (p.1 + (0 + 24 + 8 * i))
    congr 1
    omega
  · exact absurd h List.not_mem_nil

/-- Under both views an element that holds a pointer names an object. -/
theorem GraphState.named (h : GraphState vm rows) (hp : p ∈ heapObjects rows)
    (hk : PointerElement view vm.store p k) : ToObject rows (vm.store.word (p.1 + k)) := by
  cases view with
  | mutator => exact h.elements p hp k hk
  | collector =>
      have hscanned : Slot.heap (p.1 + k) ∈ scannedSlots vm rows :=
        List.mem_append_right _ (List.mem_flatMap.2 ⟨p, hp, mem_interiorScan_of_element hk.1⟩)
      exact h.scannable.valid _ hscanned hk.2

/-- What a root names is kept. -/
theorem kept_of_referred (hg : Geometry vm.store rows) (hp : p ∈ heapObjects rows)
    (href : Referred vm p) : p ∈ kept vm rows := by
  obtain ⟨slot, hroot, hptr, hdecode⟩ := href
  have hbound := hg.object_bounded hp
  refine mem_flagged.2 ⟨hp, List.mem_map.2 ⟨slot, ?_, ?_⟩⟩
  · exact List.mem_filter.2 ⟨List.mem_append_left _ hroot, hptr⟩
  · unfold Slot.target
    omega

end Elements

/-! ## §3. Right behind an object. -/

section Behind

variable {s : Store} {h : Heap} {rows : List HeapRow} {q : Nat × Obj} {b : Nat}

/-- A header is no pointer. -/
theorem isPointer_headerWord {size type : Nat} (hs : size < 2 ^ 32) (ht : type < 2 ^ 16) :
    isPointer (headerWord size type 0) = false := by
  refine isPointer_eq_false_of_lt ?_
  rw [toNat_headerWord hs ht (by omega)]
  omega

/-- **The two words behind an object hold no pointer**: they are the header of
the next object or unused memory. -/
theorem Represents.quiet_behind (hrep : Represents s h rows) (hclear : Cleared s rows)
    (hq : q ∈ heapObjects rows) (hb : b % 8 = 0) (hlo : q.1 + q.2.size ≤ b)
    (hhi : b ≤ q.1 + q.2.size + 8) {r : HeapRow} (hr : r ∈ rows) (hrlo : r.base ≤ b)
    (hrhi : b + 8 ≤ r.base + CHUNK_SIZE) : isPointer (s.word b) = false := by
  have hg := hrep.geometry
  by_cases hused : b < r.base + r.used Obj.size
  · obtain ⟨t, ht, htlo, hthi⟩ := placed_covers Obj.size hrlo hused
    have htobj : t ∈ heapObjects rows := (mem_objects Obj.size).2 ⟨r, hr, ht⟩
    have hqsize := (hg.wellSized hq).header
    have htsize := hg.wellSized htobj
    have htal := hg.object_aligned htobj
    have hC : CHUNK_SIZE = 4194304 := rfl
    have hfits := htsize.fits
    -- the object around `b` starts behind `q`, so `b` is in its header
    have hnext : b = t.1 ∨ b = t.1 + 8 := by
      rcases hg.arena.eq_or_apart hq htobj with rfl | hsep | hsep <;> omega
    rcases hnext with rfl | rfl
    · rw [hrep.headers.header t htobj]
      exact isPointer_headerWord (by omega) htsize.type_lt
    · rw [hrep.headers.forwarded t htobj]
      rfl
  · rw [hclear r hr b hb (by omega) hrhi]
    rfl

end Behind

/-! ## §4. Copies and their elements. -/

section Copies

variable {view : ArrayView} {vm vm' : VM} {rows rows' : List HeapRow}

/-- A pointer of the old heap names nothing in the new one. -/
theorem Collected.old_ne_new (h : Collected vm vm' rows rows') (hg : Geometry vm.store rows)
    {w : Word} (hw : ToObject rows w) {q : Nat × Obj} (hq : q ∈ heapObjects rows') :
    w ≠ encodePointer (BitVec.ofNat 64 (q.1 + 16)) := by
  intro heq
  obtain ⟨u, hu, hdecode⟩ := hw
  obtain ⟨r, hr, _, hlo, _, hhi⟩ := hg.arena.inside hu
  obtain ⟨r', hr', _, hlo', _, hhi'⟩ := h.represents.geometry.arena.inside hq
  have hsize := (hg.wellSized hu).header
  have hsize' := (h.represents.geometry.wellSized hq).header
  have hbound := h.represents.geometry.object_bounded hq
  have hsep := h.apart r' hr' _ (hg.live r hr)
  rw [heq, decodePointer_encodePointer (by omega)] at hdecode
  simp only [Region.Apart, Row.region] at hsep
  omega

/-- **The copy of an element that held a pointer names no object of the new
heap.** -/
theorem Collected.element_stale (h : Collected vm vm' rows rows') (hstate : GraphState vm rows)
    (hzero : vm.store.allocator.ZeroFill) {p q d : Nat × Obj}
    (hpq : (p, q) ∈ (kept vm rows).zip (heapObjects rows')) {k : Nat}
    (hk : PointerElement view vm.store p k) (hd : d ∈ heapObjects rows') {r : HeapRow}
    (hr : r ∈ rows') (hlo : r.base ≤ q.1 + k) (hhi : q.1 + k + 8 ≤ r.base + CHUNK_SIZE) :
    vm'.store.word (q.1 + k) ≠ encodePointer (BitVec.ofNat 64 (d.1 + 16)) := by
  have hg := hstate.represents.geometry
  have hgeo := h.represents.geometry
  have hp := (mem_flagged.1 (List.of_mem_zip hpq).1).1
  have hq := (List.of_mem_zip hpq).2
  have hcopy := List.forall₂_zip h.copies hpq
  obtain ⟨hal, hk24, hkhi⟩ := pointerElements_bounds hk.1
  have hsize := (hg.wellSized hp).aligned
  have hqal := hgeo.object_aligned hq
  have hqsize : q.2.size = p.2.size := by rw [hcopy.obj]
  by_cases hin : k < p.2.size
  · -- inside the object the copy has the old word
    have hword := hcopy.payload ((k - 16) / 8) (by omega)
    rw [show q.1 + 16 + 8 * ((k - 16) / 8) = q.1 + k from by omega,
      show p.1 + 16 + 8 * ((k - 16) / 8) = p.1 + k from by omega] at hword
    rw [hword]
    exact h.old_ne_new hg (hstate.named hp hk) hd
  · -- behind it the copy has no pointer at all
    have hquiet := h.represents.quiet_behind (h.cleared hzero) hq (b := q.1 + k) (by omega)
      (by omega) (by omega) hr hlo hhi
    intro heq
    rw [heq, isPointer_encodePointer] at hquiet
    exact Bool.false_ne_true hquiet.symm

/-- Without pointers in the kept arrays the roots reach what they name. -/
theorem reachable_kept (hstate : GraphState vm rows) (hnone : NoPointerElements view vm rows)
    {p : Nat × Obj} (hp : Reachable view vm rows p) : p ∈ kept vm rows := by
  obtain ⟨r, hr, href, hpath⟩ := hp
  have hrkept := kept_of_referred hstate.represents.geometry hr href
  rcases Relation.ReflTransGen.cases_head hpath with rfl | ⟨u, ⟨_, k, hk, _⟩, _⟩
  · exact hrkept
  · exact absurd hk (hnone r hrkept k)

/-- Without pointer elements the graph is kept. -/
theorem Collected.graphKept (h : Collected vm vm' rows rows') (hstate : GraphState vm rows)
    (hnone : NoPointerElements view vm rows) :
    GraphKept view vm vm' rows rows' ((kept vm rows).zip (heapObjects rows')) where
  reachable _ hp := exists_mem_zip h.copies (reachable_kept hstate hnone hp)
  elements c hc k hk := absurd hk (hnone c.1 (List.of_mem_zip hc).1 k)

/-- And where it is kept there are none. -/
theorem Collected.noPointerElements (h : Collected vm vm' rows rows')
    (hstate : GraphState vm rows) (hzero : vm.store.allocator.ZeroFill)
    (hkept : GraphKept view vm vm' rows rows' ((kept vm rows).zip (heapObjects rows'))) :
    NoPointerElements view vm rows := by
  intro _ hp k hk
  obtain ⟨q, hpq⟩ := exists_mem_zip h.copies hp
  obtain ⟨d, hd, _, ⟨r, hr, hlo, hhi⟩, hword⟩ := hkept.elements _ hpq k hk
  exact h.element_stale hstate hzero hpq hk (List.of_mem_zip hd).2 hr hlo hhi hword

end Copies

/-! ## §5. The graph after a collection. -/

/-- **A collection keeps the object graph** when no array it keeps has a
pointer in it; and over zeroed memory only then. -/
theorem collect_graph (view : ArrayView) (vm : VM) (rows : List HeapRow)
    (hstate : GraphState vm rows) :
    (∃ vm', compactingGarbageCollect vm = .error .badAlloc vm') ∨
    ∃ vm' rows', compactingGarbageCollect vm = .ok () vm' ∧
      Represents vm'.store (vm'.heap vm'.active) rows' ∧
      List.Forall₂ (CopyOf vm.store vm'.store) (kept vm rows) (heapObjects rows') ∧
      (NoPointerElements view vm rows →
        GraphKept view vm vm' rows rows' ((kept vm rows).zip (heapObjects rows'))) ∧
      (vm.store.allocator.ZeroFill →
        GraphKept view vm vm' rows rows' ((kept vm rows).zip (heapObjects rows')) →
        NoPointerElements view vm rows) := by
  rcases collect_spec hstate.represents hstate.inactive hstate.scannable with
    hfail | ⟨vm', rows', hrun, h⟩
  · exact Or.inl hfail
  · exact Or.inr ⟨vm', rows', hrun, h.represents, h.copies, h.graphKept hstate,
      h.noPointerElements hstate⟩

/-- An array of three numbers in register 5 and an array of three pointers in
register 6, whose first element is set to the former before register 5 is
cleared. -/
def nestArrays : Exec Unit := do
  initArray 5 1 2
  initArray 6 1 3
  moveArray 5 6 0 0
  setReg 5 (encodeInt 0)

/-- A booted machine after these instructions. -/
def nestedArrays : VM :=
  finalState
    (nestArrays (VM.booted (fun r => encodeInt (if r = 1 then 3 else if r = 3 then 2 else 0))))

/-- Its heap. -/
def nestedRows : List HeapRow := [⟨4096, [⟨48, OBJ_ARRAY⟩, ⟨48, OBJ_ARRAY⟩]⟩]

/-- The machine meets the assumptions. -/
theorem nestedArrays_state : GraphState nestedArrays nestedRows where
  represents := Represents.oneChunk (by decide) (by decide +kernel) (by decide) (by decide)
    (by decide) (by decide +kernel) (by decide +kernel) (by decide +kernel)
  inactive := ⟨by decide +kernel, by decide +kernel⟩
  scannable :=
    { stack := by decide +kernel
      fields := by decide +kernel
      inside := by decide +kernel
      valid := by decide +kernel }
  elements p hp k hk := by
    have hall : ∀ p ∈ heapObjects nestedRows,
        ∀ k ∈ pointerElements .mutator nestedArrays.store p,
        isPointer (nestedArrays.store.word (p.1 + k)) = true →
          ToObject nestedRows (nestedArrays.store.word (p.1 + k)) := by
      decide +kernel
    exact hall p hp k hk.1 hk.2

/-- A collection of an array with a pointer. -/
theorem collect_graph_nestedArrays :
    (∃ vm', compactingGarbageCollect nestedArrays = .error .badAlloc vm') ∨
    ∃ vm' rows', compactingGarbageCollect nestedArrays = .ok () vm' ∧
      Represents vm'.store (vm'.heap vm'.active) rows' ∧
      List.Forall₂ (CopyOf nestedArrays.store vm'.store) (kept nestedArrays nestedRows)
        (heapObjects rows') ∧
      (NoPointerElements .collector nestedArrays nestedRows →
        GraphKept .collector nestedArrays vm' nestedRows rows'
          ((kept nestedArrays nestedRows).zip (heapObjects rows'))) ∧
      (nestedArrays.store.allocator.ZeroFill →
        GraphKept .collector nestedArrays vm' nestedRows rows'
          ((kept nestedArrays nestedRows).zip (heapObjects rows')) →
        NoPointerElements .collector nestedArrays nestedRows) :=
  collect_graph .collector nestedArrays nestedRows nestedArrays_state

/-- **The graph is lost**: the inner array is reachable, but the new heap has
room for the outer one only, whose first element still is the old pointer. -/
theorem collect_graph_loses :
    GraphState nestedArrays nestedRows ∧
    Reachable .mutator nestedArrays nestedRows (4096, ⟨48, OBJ_ARRAY⟩) ∧
    ∃ vm', compactingGarbageCollect nestedArrays = .ok () vm' ∧
      (vm'.heap vm'.active).totalAllocated = 48 ∧
      vm'.store.word (decodePointer (vm'.reg 6) + 24) = encodePointer 4112 ∧
      ¬ vm'.store.Mapped 4096 := by
  refine ⟨nestedArrays_state, ⟨(4144, ⟨48, OBJ_ARRAY⟩), by decide, by decide +kernel,
    Relation.ReflTransGen.single ⟨by decide, 40, ?_, by decide +kernel⟩⟩,
    _, ok_of_value (by decide +kernel), by decide +kernel⟩
  unfold PointerElement
  decide +kernel

end SproutLang
