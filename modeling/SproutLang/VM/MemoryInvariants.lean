/-
  SproutLang.VM.MemoryInvariants
  ──────────────────────────────
  **INVARIANTS OF MEMORY.**

  Most of what a round does concerns registers, slots and counters.  An
  invariant that only looks at memory and the two heaps is kept by all of it,
  so it has to be proved of the few operations that reach memory:

    • `KeptInMemory.run` — then a run keeps it, also one that stops in the
                           middle of a round.
-/
import SproutLang.VM.Effects

namespace SproutLang

open Library

/-- Reading a slot changes nothing. -/
theorem loadSlot_preserves {I : VM → Prop} (i : Nat) : Preserves I (loadSlot i) := by
  intro vm hI
  unfold loadSlot
  split
  · exact hI
  · exact hI

/-- **An invariant of memory alone**: nothing outside memory and the heaps
matters, and the operations on them keep it, whether they return or stop. -/
structure KeptInMemory (I : VM → Prop) : Prop where
  frame : ∀ {m m' : VM}, m'.store = m.store → m'.heapA = m.heapA → m'.heapB = m.heapB →
    I m → I m'
  load : ∀ a, Preserves I (onStore (load a))
  store : ∀ a w, Preserves I (onStore (store a w))
  fillWords : ∀ dst w n, Preserves I (onStore (fillWords dst w n))
  markObject : ∀ r, Preserves I (onStore (markObject r))
  getAllObjects : ∀ chunks, Preserves I (onStore (getAllObjects chunks))
  interiorSlots : ∀ object, Preserves I (onStore (interiorSlots object))
  heapAlloc : ∀ half size type, Preserves I (onHeap half (heapAlloc size type))
  moveObjects : ∀ half chunks, Preserves I (onHeap half (moveObjects chunks))
  freeHeap : ∀ half, Preserves I (onHeap half freeHeap)

namespace KeptInMemory

variable {I : VM → Prop} (h : KeptInMemory I)
include h

/-! ## §1. Registers and slots. -/

/-- An assignment to a field of the machine. -/
theorem modify {g : VM → VM} (hstore : ∀ vm, (g vm).store = vm.store)
    (hA : ∀ vm, (g vm).heapA = vm.heapA) (hB : ∀ vm, (g vm).heapB = vm.heapB) :
    Preserves I (modify g : Exec PUnit) :=
  Preserves.modify fun vm hI => h.frame (hstore vm) (hA vm) (hB vm) hI

theorem setReg (r : Byte) (w : Word) : Preserves I (setReg r w) :=
  h.modify (fun _ => rfl) (fun _ => rfl) (fun _ => rfl)

theorem storeSlot (i : Nat) (w : Word) : Preserves I (storeSlot i w) := by
  intro vm hI
  unfold SproutLang.storeSlot
  split
  · exact h.frame (m := vm) rfl rfl rfl hI
  · exact hI

theorem slot_read (s : Slot) : Preserves I s.read := by
  cases s with
  | reg r => exact fun _ hI => hI
  | stack i => exact loadSlot_preserves i
  | heap a => exact h.load a

theorem slot_write (s : Slot) (w : Word) : Preserves I (s.write w) := by
  cases s with
  | reg r => exact h.setReg r w
  | stack i => exact h.storeSlot i w
  | heap a => exact h.store a w

/-! ## §2. The collector. -/

theorem markSlots (slots : List Slot) : Preserves I (markSlots slots) := by
  induction slots with
  | nil => exact Preserves.pure _
  | cons s slots ih =>
      exact (h.slot_read s).bind fun _ => (h.markObject _).bind fun _ =>
        ih.bind fun _ => Preserves.pure _

theorem markInterior (objects : List Nat) : Preserves I (markInterior objects) := by
  induction objects with
  | nil => exact Preserves.pure _
  | cons object objects ih =>
      exact (h.interiorSlots object).bind fun _ => (h.markSlots _).bind fun _ =>
        ih.bind fun _ => Preserves.pure _

theorem patchSlots (slots : List Slot) : Preserves I (patchSlots slots) := by
  induction slots with
  | nil => exact Preserves.pure _
  | cons s slots ih =>
      have hpatch : Preserves I (patchSlot s) :=
        (h.slot_read s).bind fun _ => (h.load _).bind fun _ => h.slot_write s _
      exact hpatch.bind fun _ => ih

/-- **A collection**, also one that stops halfway. -/
theorem compactingGarbageCollect : Preserves I compactingGarbageCollect := by
  have hmark : Preserves I markObjects :=
    Preserves.get.bind fun _ => (h.getAllObjects _).bind fun _ =>
      (h.markSlots _).bind fun _ => (h.markInterior _).bind fun _ => Preserves.pure _
  have hupdate : ∀ half slots, Preserves I (updatePtrHolder half slots) :=
    fun half slots => (h.patchSlots slots).bind fun _ => h.freeHeap half
  exact hmark.bind fun _ => Preserves.get.bind fun _ => (h.moveObjects _ _).bind fun _ =>
    (hupdate _ _).bind fun _ => h.modify (fun _ => rfl) (fun _ => rfl) (fun _ => rfl)

/-- An allocation, with or without a collection. -/
theorem gcCollectedHeapAlloc (size type : Nat) : Preserves I (gcCollectedHeapAlloc size type) := by
  refine Preserves.get.bind fun vm => ?_
  simp only
  split
  · exact h.compactingGarbageCollect.bind fun _ => Preserves.get.bind fun _ => h.heapAlloc _ _ _
  · exact Preserves.get.bind fun _ => h.heapAlloc _ _ _

/-! ## §3. Instructions. -/

/-- `arr`. -/
theorem initArray (dst len type : Byte) : Preserves I (initArray dst len type) :=
  Preserves.get.bind fun _ => (h.gcCollectedHeapAlloc _ _).bind fun _ =>
    (h.load _).bind fun _ => (h.store _ _).bind fun _ => Preserves.get.bind fun _ =>
      (h.load _).bind fun _ => (h.store _ _).bind fun _ =>
        (h.fillWords _ _ _).bind fun _ => h.setReg _ _

theorem loadInto (a : Nat) (r : Byte) :
    Preserves I (do let w ← onStore (Library.load a); SproutLang.setReg r w) :=
  (h.load a).bind fun w => h.setReg r w

/-- `arrins` and `arrread`. -/
theorem moveArray (target address index : Byte) (flag : Nat) :
    Preserves I (moveArray target address index flag) := by
  refine Preserves.get.bind fun vm => (h.load _).bind fun fields => ?_
  have hmore : Preserves I (do
      if flag = 1 then
        let w ← onStore (Library.load (elementAddr (decodePointer (vm.reg address))
          (decodeInt (vm.reg index))))
        SproutLang.setReg target w) := by
    split
    · exact h.loadInto _ _
    · exact Preserves.pure _
  simp only
  split
  · exact Preserves.throw _
  · split
    · exact (h.store _ _).bind fun _ => hmore
    · exact hmore

theorem fetch : Preserves I fetch := by
  intro vm hI
  unfold SproutLang.fetch
  split
  · exact h.frame (m := vm) rfl rfl rfl hI
  · exact h.frame (m := vm) rfl rfl rfl hI

theorem arithmetic (dop : Arith) {iop : Int → Int → Exec Word} (dst : Byte) (a b : Word)
    (hiop : ∀ da db, Preserves I (iop da db)) : Preserves I (arithmetic dop iop dst a b) := by
  unfold SproutLang.arithmetic
  split
  · exact Preserves.get.bind fun _ => h.setReg _ _
  · split
    · exact (hiop _ _).bind fun _ => h.setReg _ _
    · exact Preserves.throw _

theorem compare (a b : Word) : Preserves I (compare a b) := by
  intro vm hI
  rw [compare_eq]
  cases compareFlag vm.fpu a b with
  | some flag => exact h.frame (m := vm) rfl rfl rfl hI
  | none => exact hI

theorem branch (taken : Int → Bool) : Preserves I (branch taken) := by
  refine Preserves.get.bind fun vm => ?_
  split
  · exact h.fetch.bind fun _ => h.modify (fun _ => rfl) (fun _ => rfl) (fun _ => rfl)
  · exact h.modify (fun _ => rfl) (fun _ => rfl) (fun _ => rfl)

theorem push (w : Word) : Preserves I (push w) :=
  Preserves.get.bind fun _ => (h.storeSlot _ _).bind fun _ =>
    h.modify (fun _ => rfl) (fun _ => rfl) (fun _ => rfl)

theorem pop : Preserves I pop :=
  Preserves.bind (h.modify (fun _ => rfl) (fun _ => rfl) (fun _ => rfl)) fun _ =>
    Preserves.get.bind fun _ => loadSlot_preserves _

/-- `call`, which writes to the stack only. -/
theorem call (a b c : Byte) : Preserves I (call a b c) := by
  have hfunction : ∀ i, Preserves I (functionAt i) := by
    intro i vm hI
    unfold functionAt
    split
    · exact hI
    · exact hI
  refine (hfunction _).bind fun f => Preserves.get.bind fun _ => (h.push _).bind fun _ =>
    Preserves.get.bind fun _ => (h.push _).bind fun _ => ?_
  exact Preserves.bind (h.modify (fun _ => rfl) (fun _ => rfl) (fun _ => rfl)) fun _ =>
    Preserves.bind (h.modify (fun _ => rfl) (fun _ => rfl) (fun _ => rfl)) fun _ =>
      h.modify (fun _ => rfl) (fun _ => rfl) (fun _ => rfl)

theorem ret : Preserves I ret :=
  Preserves.bind (h.modify (fun _ => rfl) (fun _ => rfl) (fun _ => rfl)) fun _ =>
    h.pop.bind fun _ => Preserves.bind (h.modify (fun _ => rfl) (fun _ => rfl) (fun _ => rfl))
      fun _ => h.pop.bind fun _ => h.modify (fun _ => rfl) (fun _ => rfl) (fun _ => rfl)

/-- `mov`, through pointers or not. -/
theorem mov (dst src flag : Byte) : Preserves I (mov dst src flag) := by
  refine Preserves.get.bind fun vm => ?_
  split
  · exact h.loadInto _ _
  · split
    · exact h.store _ _
    · split
      · exact (h.load _).bind fun _ => h.store _ _
      · exact h.setReg _ _

/-! ## §4. Rounds. -/

/-- Whatever an instruction does, and however it stops. -/
theorem executeOp (opcode : Opcode) (d : DecodedInstr) : Preserves I (executeOp opcode d) := by
  refine Preserves.get.bind fun vm => ?_
  have hdiv : ∀ da db : Int, Preserves I (do
      if db = 0 then throw .undefinedBehaviour
      return BitVec.ofInt 64 (Int.tdiv da db) : Exec Word) := by
    intro da db
    split
    · exact Preserves.throw _
    · exact Preserves.pure _
  have hprint : ∀ w, Preserves I (endWith w) := fun w =>
    h.modify (fun _ => rfl) (fun _ => rfl) (fun _ => rfl)
  cases opcode with
  | opAdd => exact h.arithmetic _ _ _ _ fun _ _ => Preserves.pure _
  | opSub => exact h.arithmetic _ _ _ _ fun _ _ => Preserves.pure _
  | opMul => exact h.arithmetic _ _ _ _ fun _ _ => Preserves.pure _
  | opDiv => exact h.arithmetic _ _ _ _ hdiv
  | opLoad64 =>
      have hfetch64 : Preserves I fetch64 :=
        h.fetch.bind fun _ => h.fetch.bind fun _ => Preserves.pure _
      exact hfetch64.bind fun _ => h.setReg _ _
  | opCmp => exact h.compare _ _
  | opJe => exact h.branch _
  | opJne => exact h.branch _
  | opJl => exact h.branch _
  | opJg => exact h.branch _
  | opCall => exact h.call _ _ _
  | opRet => exact h.ret
  | opPush => exact h.push _
  | opPop => exact h.pop.bind fun _ => h.setReg _ _
  | opMov => exact h.mov _ _ _
  | opInsertIntoStack => exact h.storeSlot _ _
  | opReadFromStack => exact (loadSlot_preserves _).bind fun _ => h.setReg _ _
  | opArrInit => exact h.initArray _ _ _
  | opArrInsert => exact h.moveArray _ _ _ _
  | opArrRead => exact h.moveArray _ _ _ _
  | opEnd =>
      exact (hprint _).bind fun _ =>
        Preserves.bind (h.modify (fun _ => rfl) (fun _ => rfl) (fun _ => rfl)) fun _ =>
          (h.freeHeap _).bind fun _ => h.freeHeap _
  | opDebugReturn => exact hprint _

/-- A round of the loop. -/
theorem iterate : Preserves I iterate := by
  refine h.fetch.bind fun instruction => ?_
  unfold SproutLang.execute
  split
  · exact h.executeOp _ _
  · exact Preserves.throw _

/-- **A run keeps an invariant of memory**, up to the operation that stops
it. -/
theorem run (rounds : Nat) : Preserves I (run rounds) := by
  induction rounds with
  | zero => exact Preserves.get.bind fun _ => Preserves.pure _
  | succ rounds ih =>
      refine Preserves.get.bind fun vm => ?_
      split
      · exact h.iterate.bind fun _ => ih
      · exact Preserves.pure _

end KeptInMemory

end SproutLang
