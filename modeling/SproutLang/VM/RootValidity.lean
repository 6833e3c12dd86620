/-
  SproutLang.VM.RootValidity
  ──────────────────────────
  **WHICH ROOTS ARE VALID, AND FOR HOW LONG.**

  A collection patches the registers and the stack slots below `sp`.  A
  pointer that stands in a slot above `sp` at that moment keeps its old word:
  it is stale.  Instructions that take such a slot back into use without
  writing it (`call`, a `ret` to a frame further up, `read`) turn it into a
  root that names freed memory.

    • `RootTrace`        — a machine with the stale words of its stack,
    • `Rooted.step`      — one step keeps the roots valid if it is `Safe`,
    • `roots_stay_valid` — so do runs from `init`.
-/
import SproutLang.VM.Effects
import SproutLang.VM.Heap.Exactness
import SproutLang.Library.Runs

namespace SproutLang

open Library

/-! ## §1. Traces. -/

/-- A machine and the words a collection has passed over: the slots that held
a pointer at or above `sp` when it ran and have not been written since, and
the frame pointer, which is no root either. -/
structure RootTrace where
  vm : VM
  stale : Nat → Prop
  staleFp : Prop

/-- The slots that are stale after an instruction. -/
def staleAfter (c : RootTrace) (d : DecodedInstr) (i : Nat) : Opcode → Prop
  | .opPush => c.stale i ∧ i ≠ c.vm.sp.toNat
  | .opCall => c.stale i ∧ i ≠ c.vm.sp.toNat ∧ i ≠ c.vm.sp.toNat + 1
  | .opInsertIntoStack => c.stale i ∧ i ≠ stackPoint d.ra d.rb
  | .opArrInit =>
      if c.vm.collects then c.vm.sp.toNat ≤ i ∧ isPointer (c.vm.stack i) = true else c.stale i
  | _ => c.stale i

/-- The frame pointer is stale after an instruction. -/
def staleFpAfter (c : RootTrace) : Opcode → Prop
  | .opCall => False
  | .opRet => c.stale (c.vm.fp.toNat - 2)
  | .opArrInit => if c.vm.collects then isPointer c.vm.fp = true else c.staleFp
  | _ => c.staleFp

/-- The number of elements an array was made with, by the size of its block. -/
def blockLength (vm : VM) (address : Byte) : Nat :=
  (objSize (vm.store.word (headerOf (decodePointer (vm.reg address)))) - 24) / 8

/-- The access has an array and an index into it. -/
def InRange (vm : VM) (d : DecodedInstr) : Prop :=
  isPointer (vm.reg d.rb) = true ∧ 0 ≤ decodeInt (vm.reg d.rc) ∧
    decodeInt (vm.reg d.rc) < blockLength vm d.rb

instance (vm : VM) (d : DecodedInstr) : Decidable (InRange vm d) :=
  inferInstanceAs (Decidable (_ ∧ _))

/-- What the program keeps to: it loads no pointer, moves only between
registers, pops nothing below its frame, and indexes arrays in range and
stores no pointer in them. -/
def Permitted (vm : VM) (d : DecodedInstr) : Opcode → Prop
  | .opLoad64 => (value (fetch64 vm.fetched)).all (fun w => !isPointer w) = true
  | .opMov => d.rc = 0
  | .opPop => vm.fp.toNat < vm.sp.toNat
  | .opArrInsert => InRange vm d ∧ isPointer (vm.reg d.ra) = false
  | .opArrRead => InRange vm d
  | _ => True

instance (vm : VM) (d : DecodedInstr) (opcode : Opcode) : Decidable (Permitted vm d opcode) :=
  match opcode with
  | .opLoad64 => inferInstanceAs (Decidable (_ = true))
  | .opMov => inferInstanceAs (Decidable (d.rc = 0))
  | .opPop => inferInstanceAs (Decidable (vm.fp.toNat < vm.sp.toNat))
  | .opArrInsert => inferInstanceAs (Decidable (InRange vm d ∧ _))
  | .opArrRead => inferInstanceAs (Decidable (InRange vm d))
  | .opAdd | .opSub | .opMul | .opDiv | .opEnd | .opCmp | .opDebugReturn | .opJe | .opJne
  | .opJl | .opJg | .opCall | .opRet | .opPush | .opInsertIntoStack | .opReadFromStack
  | .opArrInit => isTrue trivial

/-- One round of the loop. -/
structure RootStep (c : RootTrace) (i : Opcode × DecodedInstr) (c' : RootTrace) : Prop where
  executes : Executes c.vm i.1 i.2 c'.vm
  permitted : Permitted c.vm i.2 i.1
  stale : c'.stale = fun slot => staleAfter c i.2 slot i.1
  staleFp : c'.staleFp = staleFpAfter c i.1

/-- The state `initArray` allocates in. -/
def allocationState (vm : VM) : VM :=
  if vm.collects then finalState (compactingGarbageCollect vm) else vm

/-- An allocation that collects goes on from the collected machine. -/
theorem allocationState_of_collects {vm vm1 : VM} (h : vm.collects)
    (hrun : compactingGarbageCollect vm = .ok () vm1) : allocationState vm = vm1 := by
  unfold allocationState
  rw [if_pos h, hrun]
  rfl

/-- The array an `arr` makes ends inside its chunk. -/
def Fits (vm : VM) (len : Byte) : Prop :=
  ∃ n : Nat, decodeInt (vm.reg len) = (n : Int) ∧
    nextOffset ((allocationState vm).heap (allocationState vm).active) (24 + 8 * n)
      + (40 + 8 * n) ≤ CHUNK_SIZE

/-- No object of the active heap reads as an array of pointers in the interior
scan. -/
def ScanQuiet (vm : VM) : Prop :=
  ∀ rows, Represents vm.store (vm.heap vm.active) rows →
    ∀ p ∈ heapObjects rows, arrayType (vm.store.word (p.1 + 16)) ≠ TAG_POINTER.toNat

/-- **A step that brings no stale word back**, keeps array accesses inside
their blocks, and collects only when the interior scan finds nothing. -/
def Safe (c : RootTrace) (i : Opcode × DecodedInstr) : Prop :=
  match i.1 with
  | .opCall => ¬ c.staleFp ∧ ∀ slot, c.vm.sp.toNat + 2 ≤ slot →
      slot < c.vm.sp.toNat + 2
        + (c.vm.functionTable (callIndex i.2.ra i.2.rb i.2.rc)).frameSize.toNat → ¬ c.stale slot
  | .opRet => ∀ slot, c.vm.sp.toNat ≤ slot → slot < c.vm.fp.toNat - 2 → ¬ c.stale slot
  | .opReadFromStack => ¬ c.stale (stackPoint i.2.ra i.2.rb)
  | .opArrInit => Fits c.vm.fetched i.2.rb ∧ (c.vm.collects → ScanQuiet c.vm)
  | .opArrInsert | .opArrRead => decodeInt (c.vm.reg i.2.rc) + 2 < blockLength c.vm i.2.rb
  | _ => True

/-- Nothing is stale. -/
structure Fresh (c : RootTrace) : Prop where
  slots : ∀ i, ¬ c.stale i
  fp : ¬ c.staleFp

/-- Only a collection makes words stale. -/
theorem Fresh.after {c c' : RootTrace} {i : Opcode × DecodedInstr} (h : Fresh c)
    (hstale : c'.stale = fun slot => staleAfter c i.2 slot i.1)
    (hstaleFp : c'.staleFp = staleFpAfter c i.1)
    (hno : i.1 = .opArrInit → ¬ c.vm.collects) : Fresh c' := by
  obtain ⟨opcode, d⟩ := i
  refine ⟨fun slot => ?_, ?_⟩
  · rw [hstale]
    cases opcode with
    | opArrInit =>
        show ¬ if c.vm.collects then _ else _
        rw [if_neg (hno rfl)]
        exact h.slots slot
    | opPush | opCall | opInsertIntoStack => exact fun hstays => h.slots slot hstays.1
    | _ => exact h.slots slot
  · rw [hstaleFp]
    cases opcode with
    | opArrInit =>
        show ¬ if c.vm.collects then _ else _
        rw [if_neg (hno rfl)]
        exact h.fp
    | opCall => exact id
    | opRet => exact h.slots _
    | _ => exact h.fp

/-! ## §2. The invariant. -/

/-- The word, if it is a pointer, names an object. -/
def Named (rows : List HeapRow) (w : Word) : Prop := isPointer w = true → ToObject rows w

theorem Named.of_plain {rows : List HeapRow} {w : Word} (h : isPointer w = false) :
    Named rows w := by
  intro hptr
  rw [h] at hptr
  exact absurd hptr Bool.false_ne_true

/-- An array object whose elements, those that lie in its block, are no
pointers. -/
structure PlainArray (s : Store) (p : Nat × Obj) : Prop where
  fields : 24 ≤ p.2.size
  elements : ∀ k, 40 ≤ k → k % 8 = 0 → k + 8 ≤ p.2.size → isPointer (s.word (p.1 + k)) = false

/-- **Whatever is not stale is valid, and what is below `sp` is not stale.** -/
structure Rooted (c : RootTrace) (rows : List HeapRow) : Prop where
  represents : Represents c.vm.store (c.vm.heap c.vm.active) rows
  inactive : (c.vm.heap c.vm.active.other).Empty
  arrays : ∀ p ∈ heapObjects rows, PlainArray c.vm.store p
  regs : ∀ r, Named rows (c.vm.reg r)
  slots : ∀ i, ¬ c.stale i → Named rows (c.vm.stack i)
  seen : ∀ i, i < c.vm.sp.toNat → ¬ c.stale i
  fp : ¬ c.staleFp → Named rows c.vm.fp
  limit : c.vm.sp.toNat ≤ STACK_SIZE

section Keep

variable {c c' : RootTrace} {rows : List HeapRow}

/-- The roots of a rooted machine are valid. -/
theorem Rooted.rootsValid (h : Rooted c rows) : RootsValid c.vm rows where
  stack := h.limit
  named s hs hptr := by
    cases s with
    | reg r => exact h.regs r hptr
    | stack i => exact h.slots i (h.seen i (mem_rootSlots_stack.1 hs)) hptr
    | heap a => exact absurd hs heap_not_root

/-- An instruction that leaves heap and memory alone. -/
theorem Rooted.of_same_heap (h : Rooted c rows) (hstore : c'.vm.store = c.vm.store)
    (hA : c'.vm.heapA = c.vm.heapA) (hB : c'.vm.heapB = c.vm.heapB)
    (hused : c'.vm.heapAUsed = c.vm.heapAUsed) (hregs : ∀ r, Named rows (c'.vm.reg r))
    (hslots : ∀ i, ¬ c'.stale i → Named rows (c'.vm.stack i))
    (hseen : ∀ i, i < c'.vm.sp.toNat → ¬ c'.stale i)
    (hfp : ¬ c'.staleFp → Named rows c'.vm.fp) (hlimit : c'.vm.sp.toNat ≤ STACK_SIZE) :
    Rooted c' rows := by
  have hactive : c'.vm.active = c.vm.active := by
    unfold VM.active
    rw [hused]
  have hheap : ∀ half, c'.vm.heap half = c.vm.heap half := by
    intro half
    cases half
    · exact hA
    · exact hB
  refine ⟨?_, ?_, ?_, hregs, hslots, hseen, hfp, hlimit⟩
  · rw [hstore, hactive, hheap]
    exact h.represents
  · rw [hactive, hheap]
    exact h.inactive
  · rw [hstore]
    exact h.arrays

/-- Putting a word that names an object, or is no pointer, in a register. -/
theorem Rooted.named_setReg (h : Rooted c rows) {r : Byte} {w : Word} (hw : Named rows w) :
    ∀ r', Named rows ((c.vm.setReg r w).reg r') := by
  intro r'
  by_cases hr : r' = r
  · subst hr
    rw [VM.setReg_self]
    exact hw
  · rw [VM.setReg_of_ne hr]
    exact h.regs r'

/-- A write behind the header of an object is no write to a header. -/
theorem Represents.put_inside {s : Store} {hp : Heap} (h : Represents s hp rows)
    {p : Nat × Obj} (hpo : p ∈ heapObjects rows) {a : Nat} (hlo : p.1 + 16 ≤ a)
    (hhi : a + 8 ≤ p.1 + p.2.size) (w : Word) : Represents (s.put a w) hp rows := by
  have hoff : ∀ u ∈ heapObjects rows, u.1 ≠ a ∧ u.1 + 8 ≠ a := by
    intro u hu
    have hsize := (h.geometry.wellSized hu).header
    rcases h.geometry.arena.eq_or_apart hpo hu with rfl | hsep | hsep <;> omega
  refine ⟨h.geometry.of_live (fun _ hr => hr), h.counts, fun u hu => ?_, fun u hu => ?_⟩
  · rw [Store.put_word_of_ne (hoff u hu).1]
    exact h.headers.header u hu
  · rw [Store.put_word_of_ne (hoff u hu).2]
    exact h.headers.forwarded u hu

/-- The array and the element an access in range is about. -/
theorem Rooted.access (h : Rooted c rows) {d : DecodedInstr} (hrange : InRange c.vm d)
    (hsafe : decodeInt (c.vm.reg d.rc) + 2 < blockLength c.vm d.rb) :
    ∃ p ∈ heapObjects rows, ∃ k, 40 ≤ k ∧ k % 8 = 0 ∧ k + 8 ≤ p.2.size ∧
      elementAddr (decodePointer (c.vm.reg d.rb)) (decodeInt (c.vm.reg d.rc)) = p.1 + k := by
  obtain ⟨hptr, hnonneg, _⟩ := hrange
  obtain ⟨i, hidx⟩ := Int.eq_ofNat_of_zero_le hnonneg
  obtain ⟨p, hp, hdecode⟩ := h.regs d.rb hptr
  have hg := h.represents.geometry
  have hbound := hg.object_bounded hp
  have hsize := (MarkedBy.refl h.represents.headers).objSize_eq hg hp
  have hin := hsafe
  have hirange := decodeInt_range (c.vm.reg d.rc)
  have hbase := decodePointer_lt (c.vm.reg d.rb)
  unfold blockLength at hin
  rw [hdecode, headerOf_add (by omega), hsize, hidx] at hin
  refine ⟨p, hp, 40 + 8 * i, by omega, by omega, by omega, ?_⟩
  rw [hidx, elementAddr_of_nonneg hbase (by omega), hdecode]
  omega

end Keep

/-! ## §3. Collections and new arrays. -/

section Heap

variable {c : RootTrace} {rows rows' : List HeapRow} {vm' : VM}

/-- The trace right after a collection. -/
def RootTrace.collected (c : RootTrace) (vm' : VM) : RootTrace where
  vm := vm'
  stale i := c.vm.sp.toNat ≤ i ∧ isPointer (c.vm.stack i) = true
  staleFp := isPointer c.vm.fp = true

/-- A quiet scan finds only readable slots. -/
theorem Rooted.scannable (h : Rooted c rows) (hquiet : ScanQuiet c.vm) :
    Scannable c.vm rows := by
  refine InteriorQuiet.scannable (fun p hp _ => ⟨?_, hquiet rows h.represents p hp⟩) h.rootsValid
  have hsize := (h.arrays p hp).fields
  have hal := h.represents.geometry.object_aligned hp
  exact h.represents.geometry.mapped hp (by omega) (by omega) (by omega)

/-- A pointer root names an object of the new heap. -/
theorem Collected.named {vm : VM} (h : Collected vm vm' rows rows') {slot : Slot}
    (hroot : slot ∈ rootSlots vm) (hptr : slot.holdsPointer vm = true) :
    ToObject rows' (slot.value vm') := by
  obtain ⟨p, q, hpq, _, hvalue⟩ := h.patched slot hroot hptr
  have hq := (List.of_mem_zip hpq).2
  have hbound := h.represents.geometry.object_bounded hq
  have hsize := (h.represents.geometry.wellSized hq).header
  refine ⟨q, hq, ?_⟩
  rw [hvalue]
  exact decodePointer_encodePointer (by omega)

/-- The copy of an array without pointers is one. -/
theorem CopyOf.plainArray {s s' : Store} {p q : Nat × Obj} (h : CopyOf s s' p q)
    (hp : PlainArray s p) : PlainArray s' q where
  fields := by
    rw [h.obj]
    exact hp.fields
  elements k hlo hal hhi := by
    rw [h.obj] at hhi
    have hword := h.payload ((k - 16) / 8) (by omega)
    rw [show q.1 + 16 + 8 * ((k - 16) / 8) = q.1 + k from by omega,
      show p.1 + 16 + 8 * ((k - 16) / 8) = p.1 + k from by omega] at hword
    rw [hword]
    exact hp.elements k hlo hal hhi

/-- **A collection makes every root valid** and passes over the pointers above
`sp`. -/
theorem Rooted.collected (h : Rooted c rows) (hc : Collected c.vm vm' rows rows') :
    Rooted (c.collected vm') rows' := by
  -- the halves are swapped
  have hother : (c.collected vm').vm.active.other = c.vm.active := by
    show vm'.active.other = c.vm.active
    rw [hc.active]
    cases c.vm.active <;> rfl
  have hsp : vm'.sp = c.vm.sp := congrArg Control.sp hc.control
  have hfp : vm'.fp = c.vm.fp := congrArg Control.fp hc.control
  refine ⟨hc.represents, ?_, ?_, ?_, ?_, ?_, ?_, ?_⟩
  · rw [hother]
    exact hc.empty
  · intro q hq
    obtain ⟨p, hpq⟩ := exists_mem_zip_right hc.copies hq
    have hp := (mem_flagged.1 (List.of_mem_zip hpq).1).1
    exact (List.forall₂_zip hc.copies hpq).plainArray (h.arrays p hp)
  · intro r
    -- a register with a pointer names the copy, another keeps its word
    cases hptr : isPointer (c.vm.reg r) with
    | true => exact fun _ => hc.named (mem_rootSlots_reg r) hptr
    | false =>
        refine Named.of_plain ?_
        show isPointer (vm'.reg r) = false
        rw [hc.regs r hptr]
        exact hptr
  · intro i hi
    -- a slot below `sp` is patched, one above it is not
    by_cases hroot : i < c.vm.sp.toNat ∧ isPointer (c.vm.stack i) = true
    · exact fun _ => hc.named (mem_rootSlots_stack.2 hroot.1) hroot.2
    · refine Named.of_plain ?_
      show isPointer (vm'.stack i) = false
      rw [hc.stack i hroot, Bool.eq_false_iff]
      intro hptr
      by_cases hlt : i < c.vm.sp.toNat
      · exact hroot ⟨hlt, hptr⟩
      · exact hi ⟨by omega, hptr⟩
  · intro i hi hstale
    have hlt : i < c.vm.sp.toNat := by
      rw [← hsp]
      exact hi
    have hge := hstale.1
    omega
  · intro hstale
    refine Named.of_plain ?_
    show isPointer vm'.fp = false
    rw [hfp, Bool.eq_false_iff]
    exact hstale
  · show vm'.sp.toNat ≤ STACK_SIZE
    rw [hsp]
    exact h.limit

/-- A pointer to an old object names it in the larger heap. -/
theorem Named.grow {w : Word} {x : Obj} {p : Nat} (h : Named rows w)
    (hobjects : heapObjects rows' = heapObjects rows ++ [(p, x)]) : Named rows' w := by
  intro hptr
  obtain ⟨u, hu, hdecode⟩ := h hptr
  refine ⟨u, ?_, hdecode⟩
  rw [hobjects]
  exact List.mem_append_left _ hu

/-- **A new array** is a plain one, and names itself from its register. -/
theorem Rooted.placed {c : RootTrace} (h : Rooted c rows) {sp : Space} {s' : Store}
    {p t n : Nat} {dst : Byte}
    (hall : Allocated ⟨c.vm.store, c.vm.heap c.vm.active⟩ sp rows rows' ⟨24 + 8 * n, OBJ_ARRAY⟩ p)
    (hwrote : ArrayWritten sp.store s' p t n)
    (hplaced : ArrayPlaced (c.vm.heap c.vm.active) rows rows' p n) :
    Rooted { c with
      vm := (((c.vm.setHeap c.vm.active sp.heap).setStore sp.store).setStore s').setReg dst
        (encodePointer (BitVec.ofNat 64 (p + 16))) } rows' := by
  have hg := h.represents.geometry
  have hgeo := hall.represents.geometry
  have hobjects := hall.objects_eq
  have houtside := fun u (hu : u ∈ heapObjects rows) => hplaced.outside hg.arena hu
  -- the fields and elements lie off every older object
  have hold : ∀ u ∈ heapObjects rows, ∀ k, k < u.2.size →
      s'.word (u.1 + k) = c.vm.store.word (u.1 + k) := by
    intro u hu k hk
    have hout := houtside u hu
    rw [hwrote.kept _ (by omega) (by omega)]
    exact hall.old_word hg hu hk
  have hcontrol : ((((c.vm.setHeap c.vm.active sp.heap).setStore sp.store).setStore s').setReg dst
      (encodePointer (BitVec.ofNat 64 (p + 16)))).control = c.vm.control := by simp
  have hsp := congrArg Control.sp hcontrol
  have hfp := congrArg Control.fp hcontrol
  refine ⟨?_, ?_, ?_, ?_, ?_, fun i hi => ?_, fun hstale => ?_, ?_⟩
  · have hrep := hplaced.represents hg.arena hall hwrote
    simpa using hrep
  · simpa using h.inactive
  · intro u hu
    rw [hobjects, List.mem_append, List.mem_singleton] at hu
    rcases hu with hu | rfl
    · refine ⟨(h.arrays u hu).fields, fun k hlo hal hhi => ?_⟩
      show isPointer (s'.word (u.1 + k)) = false
      rw [hold u hu k (by omega)]
      exact (h.arrays u hu).elements k hlo hal hhi
    · refine ⟨?_, fun k hlo hal hhi => ?_⟩
      · show 24 ≤ 24 + 8 * n
        omega
      · have hhi : k + 8 ≤ 24 + 8 * n := hhi
        have hzero := hwrote.elements ((k - 40) / 8) (by omega)
        rw [show p + 40 + 8 * ((k - 40) / 8) = p + k from by omega] at hzero
        show isPointer (s'.word (p + k)) = false
        rw [hzero]
        rfl
  · intro r
    by_cases hr : r = dst
    · subst hr
      rw [VM.setReg_self]
      have hbound := hgeo.object_bounded hall.mem
      refine fun _ => ⟨_, hall.mem, decodePointer_encodePointer ?_⟩
      simp only at hbound
      omega
    · rw [VM.setReg_of_ne hr]
      have hnamed := (h.regs r).grow hobjects
      simpa using hnamed
  · intro i hi
    have hnamed := (h.slots i hi).grow hobjects
    simpa using hnamed
  · refine h.seen i ?_
    rw [← show _ = c.vm.sp from hsp]
    exact hi
  · have hnamed := (h.fp hstale).grow hobjects
    rw [← show _ = c.vm.fp from hfp] at hnamed
    exact hnamed
  · have hlimit := h.limit
    rw [← show _ = c.vm.sp from hsp] at hlimit
    exact hlimit

/-- The trace in which `initArray` allocates. -/
def RootTrace.allocating (c : RootTrace) (d : DecodedInstr) : RootTrace where
  vm := allocationState c.vm
  stale i := staleAfter c d i .opArrInit
  staleFp := staleFpAfter c .opArrInit

/-- The allocation of an `arr` fails, or starts from a rooted machine. -/
theorem Rooted.allocating (h : Rooted c rows) (d : DecodedInstr)
    (hquiet : c.vm.collects → ScanQuiet c.vm) (size : Nat) :
    (∃ vm1, gcCollectedHeapAlloc size OBJ_ARRAY c.vm = .error .badAlloc vm1) ∨
    ∃ rows1, Rooted (c.allocating d) rows1 ∧
      gcCollectedHeapAlloc size OBJ_ARRAY c.vm
        = onHeap (allocationState c.vm).active (heapAlloc size OBJ_ARRAY) (allocationState c.vm) := by
  by_cases hover : c.vm.collects
  · rcases collect_spec h.represents h.inactive (h.scannable (hquiet hover)) with
      ⟨vm1, hfail⟩ | ⟨vm1, rows1, hrun, hc⟩
    · exact Or.inl ⟨vm1, gcCollectedHeapAlloc_refused hover hfail⟩
    · right
      have hstate := allocationState_of_collects hover hrun
      have htrace : c.allocating d = c.collected vm1 := by
        unfold RootTrace.allocating RootTrace.collected
        simp only [hstate, staleAfter, staleFpAfter, if_pos hover]
      refine ⟨rows1, ?_, ?_⟩
      · rw [htrace]
        exact h.collected hc
      · rw [hstate]
        exact gcCollectedHeapAlloc_of_over hover hrun
  · right
    have hstate : allocationState c.vm = c.vm := if_neg hover
    have htrace : c.allocating d = c := by
      unfold RootTrace.allocating
      simp only [hstate, staleAfter, staleFpAfter, if_neg hover]
    refine ⟨rows, ?_, ?_⟩
    · rw [htrace]
      exact h
    · rw [hstate]
      exact gcCollectedHeapAlloc_of_not_over (Bool.eq_false_iff.2 hover)

/-- **An `arr` that fits keeps a machine rooted**, collection included. -/
theorem Rooted.arr (h : Rooted c rows) {d : DecodedInstr} (hfits : Fits c.vm d.rb)
    (hquiet : c.vm.collects → ScanQuiet c.vm)
    (hrun : initArray d.ra d.rb d.rc c.vm = .ok () vm') :
    ∃ rows', Rooted ⟨vm', fun i => staleAfter c d i .opArrInit, staleFpAfter c .opArrInit⟩
      rows' := by
  obtain ⟨n, hlen, hfit⟩ := hfits
  rcases h.allocating d hquiet (8 * n + 8) with ⟨vm1, hfail⟩ | ⟨rows1, h1, halloc⟩
  · rw [initArray_refused d.ra d.rc hlen hfail] at hrun
    exact absurd hrun (by simp)
  · rcases initArray_placed d.ra d.rc hlen halloc h1.represents hfit with
      ⟨vm1, hfail⟩ | ⟨sp, s', rows', p, t, hinit, _, hall, hwrote, hplaced⟩
    · rw [hfail] at hrun
      exact absurd hrun (by simp)
    · rw [hinit] at hrun
      injection hrun with _ hvm
      subst hvm
      exact ⟨rows', h1.placed hall hwrote hplaced⟩

end Heap

/-! ## §4. One step. -/

section Step

variable {c c' : RootTrace} {rows : List HeapRow} {i : Opcode × DecodedInstr}

/-- A fetch keeps the invariant. -/
theorem Rooted.fetched (h : Rooted c rows) : Rooted { c with vm := c.vm.fetched } rows :=
  h.of_same_heap rfl rfl rfl rfl h.regs h.slots h.seen h.fp h.limit

/-- A register takes a word that names an object. -/
theorem Rooted.setReg (h : Rooted c rows) {r : Byte} {w : Word} (hw : Named rows w) :
    Rooted ⟨c.vm.setReg r w, c.stale, c.staleFp⟩ rows :=
  h.of_same_heap rfl rfl rfl rfl (fun r' => h.named_setReg hw r') h.slots h.seen h.fp h.limit

/-- So does a stack slot, which is then not stale. -/
theorem Rooted.setSlot (h : Rooted c rows) {i : Nat} {w : Word} (hw : Named rows w) :
    Rooted ⟨c.vm.setSlot i w, fun j => c.stale j ∧ j ≠ i, c.staleFp⟩ rows := by
  refine h.of_same_heap rfl rfl rfl rfl h.regs (fun j hj => ?_)
    (fun j hj hold => h.seen j hj hold.1) h.fp h.limit
  show Named rows ((c.vm.setSlot i w).stack j)
  by_cases hat : j = i
  · rw [hat, VM.setSlot_self]
    exact hw
  · rw [VM.setSlot_of_ne hat]
    exact h.slots j (fun hold => hj ⟨hold, hat⟩)

/-- `pop` reads a slot that was seen, and leaves those below it. -/
theorem Rooted.popped (h : Rooted c rows) {r : Byte} (hlow : 1 ≤ c.vm.sp.toNat) :
    Rooted ⟨{ c.vm with sp := c.vm.sp - 1 }.setReg r (c.vm.stack (c.vm.sp.toNat - 1)), c.stale,
      c.staleFp⟩ rows := by
  have hsp : (c.vm.sp - 1).toNat = c.vm.sp.toNat - 1 := by bv_omega
  have hnamed : Named rows (c.vm.stack (c.vm.sp.toNat - 1)) :=
    h.slots _ (h.seen _ (by omega))
  have hlimit := h.limit
  refine h.of_same_heap rfl rfl rfl rfl (fun r' => h.named_setReg hnamed r') h.slots
    (fun j hj => h.seen j ?_) h.fp ?_
  · have hj' : j < (c.vm.sp - 1).toNat := hj
    omega
  · show (c.vm.sp - 1).toNat ≤ STACK_SIZE
    omega

/-- `push` of a word that names an object. -/
theorem Rooted.pushed (h : Rooted c rows) {w : Word} (hw : Named rows w)
    (hroom : c.vm.sp.toNat < STACK_SIZE) :
    Rooted ⟨c.vm.pushed w, fun j => c.stale j ∧ j ≠ c.vm.sp.toNat, c.staleFp⟩ rows := by
  have hS : STACK_SIZE = 4096 := rfl
  have hsp : (c.vm.pushed w).sp.toNat = c.vm.sp.toNat + 1 := by
    show (c.vm.sp + 1).toNat = _
    bv_omega
  refine h.of_same_heap rfl rfl rfl rfl h.regs (fun j hj => ?_) (fun j hj => ?_) h.fp ?_
  · rw [VM.pushed_stack]
    by_cases hnew : j = c.vm.sp.toNat
    · rw [if_pos hnew]
      exact hw
    · rw [if_neg hnew]
      exact h.slots j (fun hstale => hj ⟨hstale, hnew⟩)
  · intro ⟨hstale, hne⟩
    have hlt : j < c.vm.sp.toNat + 1 := by
      rw [← hsp]
      exact hj
    exact h.seen j (by omega) hstale
  · show (c.vm.pushed w).sp.toNat ≤ STACK_SIZE
    omega

/-- `call`: the slots it reserves must not be stale, nor the frame pointer it
saves. -/
theorem Rooted.called (h : Rooted c rows) {f : FunctionInfo} (hip : c.vm.ip.toNat < 2 ^ 48)
    (hroom : c.vm.sp.toNat + 2 ≤ STACK_SIZE) (hfp : ¬ c.staleFp)
    (hfree : ∀ j, c.vm.sp.toNat + 2 ≤ j → j < c.vm.sp.toNat + 2 + f.frameSize.toNat →
      ¬ c.stale j)
    (hlimit : (c.vm.called f).sp.toNat ≤ STACK_SIZE) :
    Rooted ⟨c.vm.called f,
      fun j => c.stale j ∧ j ≠ c.vm.sp.toNat ∧ j ≠ c.vm.sp.toNat + 1, False⟩ rows := by
  have hS : STACK_SIZE = 4096 := rfl
  have hsp : (c.vm.sp + 1).toNat = c.vm.sp.toNat + 1 := by bv_omega
  -- two saved words, then the frame
  have hframe : (c.vm.called f).sp.toNat = c.vm.sp.toNat + 2 + f.frameSize.toNat := by
    have hsmall := f.frameSize.isLt
    show (c.vm.sp + 2 + f.frameSize.setWidth 64).toNat = _
    have hwide : (f.frameSize.setWidth 64).toNat = f.frameSize.toNat := by
      rw [BitVec.toNat_setWidth]
      omega
    bv_omega
  have h1 := h.pushed (h.fp hfp) (by omega)
  have h2 := h1.pushed (w := c.vm.ip)
    (Named.of_plain (isPointer_eq_false_of_lt (by omega)))
    (show (c.vm.sp + 1).toNat < STACK_SIZE by omega)
  refine h2.of_same_heap rfl rfl rfl rfl h2.regs (fun j hj => h2.slots j (fun hstale => ?_))
    (fun j hj => ?_) (fun _ => ?_) hlimit
  · refine hj ⟨hstale.1.1, hstale.1.2, ?_⟩
    rw [← hsp]
    exact hstale.2
  · intro ⟨hstale, hne, hne'⟩
    have hj' : j < c.vm.sp.toNat + 2 + f.frameSize.toNat := by
      rw [← hframe]
      exact hj
    -- below the call nothing has changed, the frame is required to be fresh
    by_cases hlow : j < c.vm.sp.toNat
    · exact h.seen j hlow hstale
    · exact hfree j (by omega) hj' hstale
  · refine Named.of_plain (isPointer_eq_false_of_lt ?_)
    show (c.vm.sp + 2).toNat < 2 ^ 62
    bv_omega

/-- `ret`: the frame it returns to must not be stale where it lies above
`sp`. -/
theorem Rooted.returned (h : Rooted c rows) (hlow : 2 ≤ c.vm.fp.toNat)
    (hhigh : c.vm.fp.toNat ≤ STACK_SIZE)
    (hfree : ∀ j, c.vm.sp.toNat ≤ j → j < c.vm.fp.toNat - 2 → ¬ c.stale j) :
    Rooted ⟨c.vm.returned, c.stale, c.stale (c.vm.fp.toNat - 2)⟩ rows := by
  have hsp : c.vm.returned.sp.toNat = c.vm.fp.toNat - 2 := by
    show (c.vm.fp - 2).toNat = _
    bv_omega
  refine h.of_same_heap rfl rfl rfl rfl h.regs h.slots (fun j hj => ?_)
    (fun hstale => h.slots _ hstale) ?_
  · have hj' : j < c.vm.fp.toNat - 2 := by
      rw [← hsp]
      exact hj
    by_cases hseen : j < c.vm.sp.toNat
    · exact h.seen j hseen
    · exact hfree j (by omega) hj'
  · show c.vm.returned.sp.toNat ≤ STACK_SIZE
    omega

/-- An `arrins` of a plain word inside its block. -/
theorem Rooted.arrins (h : Rooted c rows) {p : Nat × Obj} (hp : p ∈ heapObjects rows) {k : Nat}
    (hlo : 40 ≤ k) (hal : k % 8 = 0) (hhi : k + 8 ≤ p.2.size) {w : Word}
    (hw : isPointer w = false) :
    Rooted { c with vm := c.vm.setStore (c.vm.store.put (p.1 + k) w) } rows := by
  have hrep := h.represents.put_inside hp (a := p.1 + k) (by omega) (by omega) w
  refine ⟨?_, ?_, fun u hu => ⟨(h.arrays u hu).fields, fun j hjlo hjal hjhi => ?_⟩, h.regs,
    h.slots, h.seen, h.fp, h.limit⟩
  · simpa using hrep
  · simpa using h.inactive
  · show isPointer ((c.vm.store.put (p.1 + k) w).word (u.1 + j)) = false
    by_cases heq : u.1 + j = p.1 + k
    · rw [heq, Store.put_word]
      exact hw
    · rw [Store.put_word_of_ne heq]
      exact (h.arrays u hu).elements j hjlo hjal hjhi

/-- **One step keeps a machine rooted** if it is safe, until the program ends. -/
theorem Rooted.step (h : Rooted c rows) (hstep : RootStep c i c') (hsafe : Safe c i)
    (hrunning : c'.vm.running = true) : ∃ rows', Rooted c' rows' := by
  have heffect := hstep.executes.effect
  have hip := hstep.executes.fetched_ip
  have hf := h.fetched
  obtain ⟨vm', stale', staleFp'⟩ := c'
  obtain ⟨opcode, d⟩ := i
  have hpermitted := hstep.permitted
  have hlimit := hstep.executes.limit
  have hstale := hstep.stale
  have hstaleFp := hstep.staleFp
  simp only at heffect hpermitted hstale hstaleFp hlimit hrunning
  subst hstale hstaleFp
  cases heffect with
  | arithmetic arith plain =>
      have hsame := hf.setReg (r := d.ra) (Named.of_plain plain)
      rcases arith with rfl | rfl | rfl | rfl <;> exact ⟨rows, hsame⟩
  | @load d w imm =>
      refine ⟨rows, hf.of_same_heap rfl rfl rfl rfl ?_ h.slots h.seen h.fp h.limit⟩
      have hvalue : (value (fetch64 c.vm.fetched)).all (fun w => !isPointer w) = true := hpermitted
      rw [imm] at hvalue
      have hplain : (!isPointer w) = true := hvalue
      exact hf.named_setReg (Named.of_plain (by simpa using hplain))
  | compare => exact ⟨rows, hf.of_same_heap rfl rfl rfl rfl h.regs h.slots h.seen h.fp h.limit⟩
  | taken jump _ =>
      rcases Opcode.isBranch_iff.1 jump with rfl | rfl | rfl | rfl <;>
        exact ⟨rows, hf.of_same_heap rfl rfl rfl rfl h.regs h.slots h.seen h.fp h.limit⟩
  | passed jump =>
      rcases Opcode.isBranch_iff.1 jump with rfl | rfl | rfl | rfl <;>
        exact ⟨rows, hf.of_same_heap rfl rfl rfl rfl h.regs h.slots h.seen h.fp h.limit⟩
  | call index room => exact ⟨rows, hf.called hip.2 room hsafe.1 hsafe.2 hlimit⟩
  | ret low high => exact ⟨rows, hf.returned low high hsafe⟩
  | push room => exact ⟨rows, hf.pushed (h.regs d.ra) room⟩
  | pop low high => exact ⟨rows, hf.popped low⟩
  | mov flag => exact ⟨rows, hf.setReg (h.regs d.rb)⟩
  | deref flag run =>
      have hzero : d.rc = 0 := hpermitted
      rw [hzero] at flag
      exact absurd flag (by decide)
  | insert slot => exact ⟨rows, hf.setSlot (h.regs d.rc)⟩
  | read slot => exact ⟨rows, hf.setReg (h.slots _ hsafe)⟩
  | arr run => exact hf.arr hsafe.1 hsafe.2 run
  | arrins mapped =>
      -- the element lies in an array that is still there
      obtain ⟨p, hp, k, hlo, hal, hhi, haddr⟩ := h.access hpermitted.1 hsafe
      refine ⟨rows, ?_⟩
      have hkept := hf.arrins hp hlo hal hhi hpermitted.2
      rw [← haddr] at hkept
      exact hkept
  | arrread mapped =>
      obtain ⟨p, hp, k, hlo, hal, hhi, haddr⟩ := h.access hpermitted hsafe
      have hplain := (h.arrays p hp).elements k hlo hal hhi
      rw [← haddr] at hplain
      exact ⟨rows, hf.setReg (Named.of_plain hplain)⟩
  | end_ control reg stack =>
      have hstopped : vm'.running = false := congrArg Control.running control
      rw [hstopped] at hrunning
      exact absurd hrunning Bool.false_ne_true
  | debugReturn =>
      exact ⟨rows, hf.of_same_heap rfl rfl rfl rfl h.regs h.slots h.seen h.fp h.limit⟩

end Step

/-! ## §5. Runs from `init`. -/

/-- The trace of a machine that has not run yet. -/
def RootTrace.start (vm : VM) : RootTrace := ⟨vm, fun _ => False, False⟩

/-- After `init` there is no pointer and no object. -/
theorem Rooted.start {max : Nat} {file : Image} {allocator : Allocator} {fpu : Fpu} {vm : VM}
    (hinit : initWith max (VM.zeroed file allocator fpu) = .ok () vm) :
    Rooted (RootTrace.start vm) [] := by
  obtain ⟨header, table, _, _, rfl⟩ := initWith_effect hinit
  have hplain : ∀ w : Word, w = 0 → Named [] w := by
    rintro w rfl
    exact Named.of_plain rfl
  exact
    { represents := Heap.Empty.represents ⟨rfl, rfl⟩ _
      inactive := ⟨rfl, rfl⟩
      arrays := fun p hp => absurd hp List.not_mem_nil
      regs := fun r => hplain _ rfl
      slots := fun i _ => hplain _ rfl
      seen := fun i _ => fun hstale => hstale
      fp := fun _ => hplain _ rfl
      limit := Nat.zero_le _ }

/-- **Root validity.**  In every run from `init` whose steps are all safe, the
pointers in the registers and in the stack below `sp` name objects of the
active heap, until the program ends. -/
theorem roots_stay_valid (max : Nat) (file : Image) (allocator : Allocator) (fpu : Fpu) {vm : VM}
    (hinit : initWith max (VM.zeroed file allocator fpu) = .ok () vm)
    {is : List (Opcode × DecodedInstr)} {c : RootTrace}
    (hrun : Steps (Guarded RootStep Safe) (RootTrace.start vm) is c)
    (hrunning : c.vm.running = true) :
    ∃ rows, Represents c.vm.store (c.vm.heap c.vm.active) rows ∧ RootsValid c.vm rows := by
  have h0 : (RootTrace.start vm).vm.running = true → ∃ rows, Rooted (RootTrace.start vm) rows :=
    fun _ => ⟨[], Rooted.start hinit⟩
  obtain ⟨rows, h⟩ := hrun.invariant
    (fun c => c.vm.running = true → ∃ rows, Rooted c rows) h0
    (fun c i c' hI hstep hrunning' => by
      obtain ⟨rows, h⟩ := hI hstep.1.executes.running
      exact h.step hstep.1 hstep.2 hrunning') hrunning
  exact ⟨rows, h.represents, h.rootsValid⟩

/-! ## §6. Two runs. -/

/-- The trace after one more instruction. -/
def RootTrace.next (c : RootTrace) (i : Opcode × DecodedInstr) : RootTrace where
  vm := finalState (iterate c.vm)
  stale slot := staleAfter c i.2 slot i.1
  staleFp := staleFpAfter c i.1

/-- The instruction is the next one and does what the program may do. -/
def MayStep (c : RootTrace) (i : Opcode × DecodedInstr) : Prop :=
  MayExecute c.vm i.1 i.2 ∧ Permitted c.vm i.2 i.1

instance (c : RootTrace) (i : Opcode × DecodedInstr) : Decidable (MayStep c i) :=
  inferInstanceAs (Decidable (_ ∧ _))

/-- A step without a collection leaves the trace fresh. -/
theorem Fresh.next {c : RootTrace} {i : Opcode × DecodedInstr} (h : Fresh c)
    (hno : i.1 = .opArrInit → ¬ c.vm.collects) : Fresh (c.next i) :=
  h.after rfl rfl hno

/-- An instruction that may run is a step. -/
theorem RootStep.next (c : RootTrace) (i : Opcode × DecodedInstr) (h : MayStep c i) :
    RootStep c i (c.next i) :=
  ⟨h.1.executes, h.2, rfl, rfl⟩

/-- Three pushes of a pointer, three pops, an `arr` that collects, and a call
of a function with one local variable. -/
def reexposing : Image :=
  ⟨fileBytes [(88, 1)]
    [0x05010000, 0x7FF10000, 0x00000003,  -- load r1 3
     0x13020100,                          -- arr r2 r1 r0
     0x0E020000, 0x0E020000, 0x0E020000,  -- push r2, three times
     0x0F030000, 0x0F030000, 0x0F030000,  -- pop r3, three times
     0x13040100,                          -- arr r4 r1 r0
     0x0C000000,                          -- call 0
     0x04000000],                         -- end r0
    by decide⟩

/-- `load r1 3`. -/
def loadThree : Opcode × DecodedInstr := (.opLoad64, ⟨5, 1, 0, 0⟩)

/-- `arr r2 r1 r0`. -/
def arrThree : Opcode × DecodedInstr := (.opArrInit, ⟨19, 2, 1, 0⟩)

/-- Its instructions, up to the call. -/
def reexposingRun : List (Opcode × DecodedInstr) :=
  [loadThree, arrThree,
   (.opPush, ⟨14, 2, 0, 0⟩), (.opPush, ⟨14, 2, 0, 0⟩), (.opPush, ⟨14, 2, 0, 0⟩),
   (.opPop, ⟨15, 3, 0, 0⟩), (.opPop, ⟨15, 3, 0, 0⟩), (.opPop, ⟨15, 3, 0, 0⟩),
   (.opArrInit, ⟨19, 4, 1, 0⟩), (.opCall, ⟨12, 0, 0, 0⟩)]

/-- The scan is quiet if it finds nothing in the objects the walk comes to. -/
theorem ScanQuiet.of_walk {vm : VM} {objects : List Nat} {s : Store}
    (hwalk : getAllObjects (vm.heap vm.active).chunks vm.store = .ok objects s)
    (hquiet : ∀ a ∈ objects, arrayType (vm.store.word (a + 16)) ≠ TAG_POINTER.toNat) :
    ScanQuiet vm := by
  intro rows hrep p hp
  have hmarked := MarkedBy.refl hrep.headers
  have hloop := getAllObjects_ok hrep.geometry
    (fun q hq => hmarked.objSize_eq hrep.geometry hq)
  rw [← hrep.counts.chunks, hwalk] at hloop
  injection hloop with hobjects _
  refine hquiet p.1 ?_
  rw [hobjects]
  exact List.mem_map_of_mem hp

/-- A pointer is pushed, a function with one local variable called, and there
an `arr` collects. -/
def patching : Image :=
  ⟨fileBytes [(64, 1)]
    [0x05010000, 0x7FF10000, 0x00000003,  -- load r1 3
     0x13020100,                          -- arr r2 r1 r0
     0x0E020000,                          -- push r2
     0x0C000000,                          -- call 0
     0x13040100,                          -- arr r4 r1 r0
     0x04000000],                         -- end r0
    by decide⟩

/-- The trace under heap limit 0 after these instructions. -/
def patchingAfter (is : List (Opcode × DecodedInstr)) : RootTrace :=
  is.foldl RootTrace.next (RootTrace.start (VM.loaded 0 patching))

/-- The instructions in front of the second `arr`. -/
def patchingCall : List (Opcode × DecodedInstr) :=
  [loadThree, arrThree, (.opPush, ⟨14, 2, 0, 0⟩), (.opCall, ⟨12, 0, 0, 0⟩)]

/-- All instructions but the last. -/
def patchingRun : List (Opcode × DecodedInstr) :=
  [loadThree, arrThree, (.opPush, ⟨14, 2, 0, 0⟩), (.opCall, ⟨12, 0, 0, 0⟩),
   (.opArrInit, ⟨19, 4, 1, 0⟩)]

/-- The steps are safe where the first `arr` does not collect and the scan that
precedes the second one is quiet. -/
theorem patching_run {c : RootTrace} (hfresh : Fresh c)
    (hmay : Along RootTrace.next MayStep c patchingRun)
    (hfits : Fits (c.next loadThree).vm.fetched 1 ∧
      Fits (patchingCall.foldl RootTrace.next c).vm.fetched 1)
    (hempty : ¬ (c.next loadThree).vm.collects)
    (hquiet : ScanQuiet (patchingCall.foldl RootTrace.next c).vm) :
    Steps (Guarded RootStep Safe) c patchingRun (patchingRun.foldl RootTrace.next c) := by
  obtain ⟨hload, harr, hpush, hcall, hcollect, _⟩ := hmay
  -- nothing is stale when the function is called
  have hloaded : Fresh (c.next loadThree) := hfresh.next fun h => absurd h (by decide)
  have hmade : Fresh ((c.next loadThree).next arrThree) := hloaded.next fun _ => hempty
  exact (((((Steps.nil _).snoc ⟨RootStep.next _ _ hload, trivial⟩).snoc
    ⟨RootStep.next _ _ harr, hfits.1, fun hover => absurd hover hempty⟩).snoc
    ⟨RootStep.next _ _ hpush, trivial⟩).snoc
    ⟨RootStep.next _ _ hcall, hmade.fp, fun slot _ _ h => hmade.slots slot h.1⟩).snoc
    ⟨RootStep.next _ _ hcollect, hfits.2, fun _ => hquiet⟩

/-- With limit 0 the second `arr` collects.  The pushed pointer is patched with
the register, and both name the copy. -/
theorem roots_stay_valid_patched :
    (∃ rows, Represents (patchingAfter patchingRun).vm.store
        ((patchingAfter patchingRun).vm.heap (patchingAfter patchingRun).vm.active) rows ∧
      RootsValid (patchingAfter patchingRun).vm rows) ∧
    0 < (patchingAfter patchingRun).vm.sp.toNat ∧
    isPointer ((patchingAfter patchingRun).vm.stack 0) = true ∧
    (patchingAfter patchingRun).vm.stack 0 = (patchingAfter patchingRun).vm.reg 2 ∧
    (patchingAfter patchingRun).vm.stack 0 ≠ (patchingAfter patchingCall).vm.stack 0 := by
  have hwalk : value (getAllObjects
      ((patchingAfter patchingCall).vm.heap (patchingAfter patchingCall).vm.active).chunks
      (patchingAfter patchingCall).vm.store) = some [4096] := by decide +kernel
  have hrun := patching_run ⟨fun _ => id, id⟩ (by decide +kernel)
    ⟨⟨3, by decide +kernel, by decide +kernel⟩, ⟨3, by decide +kernel, by decide +kernel⟩⟩
    (by decide +kernel) (ScanQuiet.of_walk (ok_of_value hwalk) (by decide +kernel))
  exact ⟨roots_stay_valid 0 patching Allocator.ascending Fpu.quiet
    (ok_of_value (by decide +kernel)) hrun (by decide +kernel), by decide +kernel⟩

/-- The trace behind the call. -/
def reexposed : RootTrace :=
  reexposingRun.foldl RootTrace.next (RootTrace.start (VM.loaded 0 reexposing))

/-- **Root validity fails** with heap limit 0: the local variable of the
called function is an old pointer into memory that has been freed. -/
theorem roots_go_stale :
    initWith 0 (VM.zeroed reexposing Allocator.ascending Fpu.quiet)
      = .ok () (VM.loaded 0 reexposing) ∧
    Steps RootStep (RootTrace.start (VM.loaded 0 reexposing)) reexposingRun reexposed ∧
    2 < reexposed.vm.sp.toNat ∧ isPointer (reexposed.vm.stack 2) = true ∧
    ¬ reexposed.vm.store.Mapped (headerOf (decodePointer (reexposed.vm.stack 2))) :=
  ⟨ok_of_value (by decide +kernel), Steps.of_along RootStep.next (by decide +kernel),
    by decide +kernel⟩

end SproutLang
