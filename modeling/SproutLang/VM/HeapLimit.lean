/-
  SproutLang.VM.HeapLimit
  ───────────────────────
  **THE LIMIT OF A HALF-SPACE.**

  `max` decides when an allocation collects first, and nothing else:
  `heapAlloc` grows the heap whatever it has grown to.  So the limit is kept
  by the runs whose allocations keep to it, and by no other:

    • `ArrayHeap.step`  — what one step leaves allocated,
    • `heap_limit_iff`  — the runs within the limit.
-/
import SproutLang.VM.RootValidity
import SproutLang.VM.Heap.TwoSpace

namespace SproutLang

open Library

/-! ## §1. Runs of array allocations. -/

/-- An array, or other roots. -/
inductive LimitOp where
  | arr (dst len type : Byte)
  | roots (reg : Byte → Word) (stack : Nat → Word) (sp : Word)

/-- Bytes `arr` reserves for the length in a register. -/
def arrayBytes (vm : VM) (len : Byte) : Nat := 24 + 8 * (decodeInt (vm.reg len)).toNat

/-- **One step**: an array, or other roots among the blocks.  Elements that run
over the end of the chunk are undefined behaviour, and so is a collection that
takes what stands behind a header, where no array code writes, for an array of
pointers. -/
inductive LimitStep : HeapTrace → LimitOp → HeapTrace → Prop where
  | arr {c : HeapTrace} {dst len type : Byte} {p : Nat} {vm' : VM} (fits : Fits c.vm len)
      (quiet : Over c → ScanQuiet c.vm) (run : initArray dst len type c.vm = .ok () vm')
      (result : decodePointer (vm'.reg dst) = p + 16) :
      LimitStep c (.arr dst len type)
        ⟨vm', blocksBefore c ++ [(p, ⟨arrayBytes c.vm len, OBJ_ARRAY⟩)]⟩
  | roots {c : HeapTrace} {reg : Byte → Word} {stack : Nat → Word} {sp : Word}
      (among : RootsAmong { c.vm with reg, stack, sp } c.blocks) :
      LimitStep c (.roots reg stack sp) ⟨{ c.vm with reg, stack, sp }, c.blocks⟩

/-- The bytes of the blocks that registers and stack name. -/
def liveBytes (c : HeapTrace) : Nat :=
  ((c.blocks.filter (Referred c.vm)).map (fun b => b.2.size)).sum

/-- The bytes an allocation adds to: those a collection leaves, if it collects
first. -/
def bytesBefore (c : HeapTrace) : Nat :=
  if Over c then liveBytes c else c.heap.totalAllocated

/-- **The array has room in the half-space.** -/
def HasRoom (c : HeapTrace) : LimitOp → Prop
  | .arr _ len _ => bytesBefore c + arrayBytes c.vm len ≤ c.heap.max
  | .roots _ _ _ => True

/-- The trace in which `initArray` allocates. -/
def HeapTrace.allocating (c : HeapTrace) : HeapTrace := ⟨allocationState c.vm, blocksBefore c⟩

/-! ## §2. The invariant. -/

/-- **A heap of arrays**, both halves limited by `max`. -/
structure ArrayHeap (max : Nat) (c : HeapTrace) (rows : List HeapRow) : Prop where
  represents : Represents c.vm.store c.heap rows
  blocks : heapObjects rows = c.blocks
  inactive : (c.vm.heap c.vm.active.other).Empty
  roots : RootsAmong c.vm c.blocks
  arrays : ∀ b ∈ c.blocks, 24 ≤ b.2.size
  limit : ∀ half, (c.vm.heap half).max = max

section Step

variable {max : Nat} {c : HeapTrace} {rows : List HeapRow}

/-- The counter says what the blocks take. -/
theorem ArrayHeap.total (h : ArrayHeap max c rows) :
    c.heap.totalAllocated = (c.blocks.map (fun b => b.2.size)).sum := by
  rw [h.represents.counts.total, ← h.blocks]
  exact used_sum rows

/-- The payload of every array has a first word, which the scan finds quiet. -/
theorem ArrayHeap.quiet (h : ArrayHeap max c rows) (hscan : ScanQuiet c.vm) :
    InteriorQuiet c.vm rows := by
  intro p hp _
  have hg := h.represents.geometry
  have hal := hg.object_aligned hp
  have hsize : 24 ≤ p.2.size := h.arrays p (by rw [← h.blocks]; exact hp)
  exact ⟨hg.mapped hp (by omega) (by omega) (by omega), hscan rows h.represents p hp⟩

/-- The invariant implies that the roots are valid. -/
theorem ArrayHeap.rootsValid (h : ArrayHeap max c rows) : RootsValid c.vm rows where
  stack := h.roots.stack
  named s hs hptr := by
    obtain ⟨b, hb, heq⟩ := h.roots.named s hs hptr
    rw [← h.blocks] at hb
    exact ⟨b, hb, heq⟩

/-- A collection leaves the bytes of the blocks the roots named. -/
theorem ArrayHeap.collected (h : ArrayHeap max c rows) (hscan : ScanQuiet c.vm) :
    (∃ vm', compactingGarbageCollect c.vm = .error .badAlloc vm') ∨
    ∃ vm' rows', compactingGarbageCollect c.vm = .ok () vm' ∧
      ArrayHeap max ⟨vm', copiesMade c vm'⟩ rows' ∧
      (vm'.heap vm'.active).totalAllocated = liveBytes c := by
  have hquiet := h.quiet hscan
  rcases collect_spec h.represents h.inactive (hquiet.scannable h.rootsValid) with
    hfail | ⟨vm', rows', hrun, hc⟩
  · exact Or.inl hfail
  · refine Or.inr ⟨vm', rows', hrun, ?_⟩
    have hblocks := hc.objects_eq h.represents.geometry hquiet h.rootsValid h.blocks
    have hnew : ArrayHeap max ⟨vm', copiesMade c vm'⟩ rows' :=
      { represents := hc.represents
        blocks := hblocks
        inactive := hc.inactive
        roots := by rw [← hblocks]; exact hc.rootsAmong h.roots.stack
        arrays := fun b hb => by
          obtain ⟨b0, hb0, rfl⟩ := List.mem_map.1 hb
          rw [copyOfBlock_snd]
          exact h.arrays b0 (List.mem_filter.1 hb0).1
        limit := fun half => (hc.max half).trans (h.limit half) }
    exact ⟨hnew, hnew.total.trans (copiesMade_sum c vm')⟩

/-- The allocation of an `arr` fails, or starts from a heap of arrays. -/
theorem ArrayHeap.allocating (h : ArrayHeap max c rows) (hscan : Over c → ScanQuiet c.vm)
    (size : Nat) :
    (∃ vm1, gcCollectedHeapAlloc size OBJ_ARRAY c.vm = .error .badAlloc vm1) ∨
    ∃ rows1, ArrayHeap max c.allocating rows1 ∧
      c.allocating.heap.totalAllocated = bytesBefore c ∧
      gcCollectedHeapAlloc size OBJ_ARRAY c.vm
        = onHeap (allocationState c.vm).active (heapAlloc size OBJ_ARRAY) (allocationState c.vm) := by
  unfold HeapTrace.allocating blocksBefore bytesBefore
  by_cases hover : Over c
  · rcases h.collected (hscan hover) with ⟨vm1, hfail⟩ | ⟨vm1, rows1, hrun, h1, htotal⟩
    · exact Or.inl ⟨vm1, gcCollectedHeapAlloc_refused hover hfail⟩
    · right
      have hstate : allocationState c.vm = vm1 := allocationState_of_collects hover hrun
      rw [if_pos hover, if_pos hover, hstate, hrun]
      exact ⟨rows1, h1, htotal, gcCollectedHeapAlloc_of_over hover hrun⟩
  · right
    have hstate : allocationState c.vm = c.vm := if_neg hover
    rw [if_neg hover, if_neg hover, hstate]
    exact ⟨rows, h, rfl, gcCollectedHeapAlloc_of_not_over (Bool.eq_false_iff.2 hover)⟩

/-- **A new array** is one more block, which its register names. -/
theorem ArrayHeap.placed (h : ArrayHeap max c rows) {sp : Space} {s' : Store}
    {rows' : List HeapRow} {p t n : Nat} (dst : Byte)
    (hall : Allocated ⟨c.vm.store, c.vm.heap c.vm.active⟩ sp rows rows' ⟨24 + 8 * n, OBJ_ARRAY⟩ p)
    (hwrote : ArrayWritten sp.store s' p t n)
    (hplaced : ArrayPlaced (c.vm.heap c.vm.active) rows rows' p n) :
    ArrayHeap max
      ⟨(((c.vm.setHeap c.vm.active sp.heap).setStore sp.store).setStore s').setReg dst
        (encodePointer (BitVec.ofNat 64 (p + 16))), c.blocks ++ [(p, ⟨24 + 8 * n, OBJ_ARRAY⟩)]⟩
      rows' := by
  have hrep := hplaced.represents h.represents.geometry.arena hall hwrote
  have hbound := hall.represents.geometry.object_bounded hall.mem
  simp only at hbound
  refine ⟨?_, ?_, ?_, ?_, fun b hb => ?_, fun half => ?_⟩
  · unfold HeapTrace.heap
    simpa using hrep
  · rw [hall.objects_eq, h.blocks]
  · simpa using h.inactive
  · refine h.roots.grow (by simp) (fun b hb => List.mem_append_left _ hb) (fun s hs => ?_)
    cases s with
    | reg r =>
        by_cases hr : r = dst
        · -- the register of the array names the new block
          subst hr
          refine Or.inr ⟨_, List.mem_append_right _ (List.mem_singleton_self _), ?_⟩
          show decodePointer ((VM.setReg _ r _).reg r) = p + 16
          rw [VM.setReg_self]
          exact decodePointer_encodePointer (by omega)
        · left
          show (VM.setReg _ dst _).reg r = _
          rw [VM.setReg_of_ne hr]
          simp [Slot.value]
    | stack i =>
        left
        simp [Slot.value]
    | heap a => exact absurd hs heap_not_root
  · rcases List.mem_append.1 hb with hb | hb
    · exact h.arrays b hb
    · rw [List.mem_singleton.1 hb]
      exact Nat.le_add_right _ _
  · rw [VM.setReg_heap, VM.setStore_heap, VM.setStore_heap]
    -- the limit of the active half is the one the allocation kept
    rcases half.eq_or_other c.vm.active with rfl | rfl
    · rw [VM.setHeap_heap, hall.max]
      exact h.limit _
    · rw [VM.setHeap_other]
      exact h.limit _

/-- What a step leaves allocated. -/
def bytesAfter (c : HeapTrace) : LimitOp → Nat
  | .arr _ len _ => bytesBefore c + arrayBytes c.vm len
  | .roots _ _ _ => c.heap.totalAllocated

/-- **One step keeps the invariant**, and leaves that much allocated. -/
theorem ArrayHeap.step {c' : HeapTrace} {op : LimitOp} (h : ArrayHeap max c rows)
    (hstep : LimitStep c op c') :
    (∃ rows', ArrayHeap max c' rows') ∧ c'.heap.totalAllocated = bytesAfter c op := by
  cases hstep with
  | roots among => exact ⟨⟨rows, { h with roots := among }⟩, rfl⟩
  | @arr dst len type p vm' fits quiet run result =>
      obtain ⟨n, hlen, hfit⟩ := fits
      have hbytes : arrayBytes c.vm len = 24 + 8 * n := by
        unfold arrayBytes
        rw [hlen]
        rfl
      -- a collection may come first
      rcases h.allocating quiet (8 * n + 8) with ⟨vm1, hfail⟩ | ⟨rows1, h1, htotal, halloc⟩
      · rw [initArray_refused dst type hlen hfail] at run
        exact absurd run (by simp)
      · rcases initArray_placed dst type hlen halloc h1.represents hfit with
          ⟨vm1, hfail⟩ | ⟨sp, s', rows', q, t, hinit, _, hall, hwrote, hplaced⟩
        · rw [hfail] at run
          exact absurd run (by simp)
        · have hnew := h1.placed dst hall hwrote hplaced
          rw [hinit] at run
          injection run with _ hvm
          subst hvm
          -- the block is where the register says
          have hq : q = p := by
            have hbound := hall.represents.geometry.object_bounded hall.mem
            simp only at hbound
            rw [VM.setReg_self, decodePointer_encodePointer (by omega)] at result
            omega
          subst hq
          rw [hbytes]
          refine ⟨⟨rows', hnew⟩, hnew.total.trans ?_⟩
          show _ = bytesBefore c + arrayBytes c.vm len
          rw [List.map_append, List.sum_append, ← h1.total, htotal, hbytes]
          rfl

end Step

/-! ## §3. Runs from `init`. -/

/-- It holds at the start. -/
theorem ArrayHeap.start {max : Nat} {file : Image} {allocator : Allocator} {fpu : Fpu} {vm : VM}
    (hinit : initWith max (VM.zeroed file allocator fpu) = .ok () vm) :
    ArrayHeap max ⟨vm, []⟩ [] := by
  obtain ⟨header, table, _, _, rfl⟩ := initWith_effect hinit
  refine ⟨Heap.Empty.represents ⟨rfl, rfl⟩ _, rfl, ⟨rfl, rfl⟩, ⟨Nat.zero_le _, fun s hs hptr => ?_⟩,
    fun b hb => absurd hb List.not_mem_nil, fun half => by cases half <;> rfl⟩
  have hplain : isPointer 0 = false := rfl
  cases s with
  | reg r =>
      have hptr : isPointer 0 = true := hptr
      rw [hplain] at hptr
      exact absurd hptr Bool.false_ne_true
  | stack i =>
      have hptr : isPointer 0 = true := hptr
      rw [hplain] at hptr
      exact absurd hptr Bool.false_ne_true
  | heap a => exact absurd hs heap_not_root

/-- **The limit is kept by the runs whose arrays all have room, and by no
other.** -/
theorem heap_limit_iff (max : Nat) (file : Image) (allocator : Allocator) (fpu : Fpu) {vm : VM}
    (hinit : initWith max (VM.zeroed file allocator fpu) = .ok () vm) (ops : List LimitOp)
    (c : HeapTrace) :
    (Steps (fun c op c' => LimitStep c op c' ∧ c'.heap.totalAllocated ≤ max) ⟨vm, []⟩ ops c ↔
      Steps (Guarded LimitStep HasRoom) ⟨vm, []⟩ ops c) ∧
    (Steps (Guarded LimitStep HasRoom) ⟨vm, []⟩ ops c → c.heap.totalAllocated ≤ max) := by
  -- what one step does to the total
  have hkept : ∀ c op c', (∃ rows, ArrayHeap max c rows) → LimitStep c op c' →
      (∃ rows', ArrayHeap max c' rows') ∧ c'.heap.totalAllocated = bytesAfter c op ∧
        c.heap.max = max := by
    rintro c op c' ⟨rows, h⟩ hstep
    obtain ⟨hnext, hbytes⟩ := h.step hstep
    exact ⟨hnext, hbytes, h.limit _⟩
  -- with room before each step the total stays below the limit
  have hwithin : ∀ ops c, Steps (Guarded LimitStep HasRoom) ⟨vm, []⟩ ops c →
      Steps (fun c op c' => LimitStep c op c' ∧ c'.heap.totalAllocated ≤ max) ⟨vm, []⟩ ops c ∧
        (∃ rows, ArrayHeap max c rows) ∧ c.heap.totalAllocated ≤ max := by
    intro ops c hrun
    refine hrun.transfer (fun c => (∃ rows, ArrayHeap max c rows) ∧ c.heap.totalAllocated ≤ max)
      ⟨⟨[], ArrayHeap.start hinit⟩, ?_⟩ fun c op c' hI hstep => ?_
    · rw [(ArrayHeap.start hinit).total]
      exact Nat.zero_le _
    · obtain ⟨hnext, hbytes, hmax⟩ := hkept c op c' hI.1 hstep.1
      have hle : c'.heap.totalAllocated ≤ max := by
        rw [hbytes]
        cases op with
        | arr dst len type =>
            have hroom : bytesBefore c + arrayBytes c.vm len ≤ c.heap.max := hstep.2
            rw [hmax] at hroom
            exact hroom
        | roots reg stack sp => exact hI.2
      exact ⟨⟨hstep.1, hle⟩, hnext, hle⟩
  refine ⟨⟨fun hrun => ?_, fun hrun => (hwithin ops c hrun).1⟩, fun hrun => (hwithin ops c hrun).2.2⟩
  -- and back: the total after a step is what had to have room
  refine (hrun.transfer (fun c => ∃ rows, ArrayHeap max c rows) ⟨[], ArrayHeap.start hinit⟩
    fun c op c' hI hstep => ?_).1
  obtain ⟨hnext, hbytes, hmax⟩ := hkept c op c' hI hstep.1
  refine ⟨⟨hstep.1, ?_⟩, hnext⟩
  cases op with
  | arr dst len type =>
      have hbytes : c'.heap.totalAllocated = bytesBefore c + arrayBytes c.vm len := hbytes
      show bytesBefore c + arrayBytes c.vm len ≤ c.heap.max
      rw [hmax, ← hbytes]
      exact hstep.2
  | roots reg stack sp => trivial

/-! ## §4. Three arrays. -/

/-- The trace after an `arr` that can be computed. -/
def HeapTrace.afterArr (c : HeapTrace) (dst len type : Byte) : HeapTrace :=
  ⟨finalState (initArray dst len type c.vm), blocksBefore c ++
    [(decodePointer ((finalState (initArray dst len type c.vm)).reg dst) - 16,
      ⟨arrayBytes c.vm len, OBJ_ARRAY⟩)]⟩

/-- An `arr` that runs is a step. -/
theorem LimitStep.afterArr {c : HeapTrace} {dst len type : Byte} (fits : Fits c.vm len)
    (quiet : Over c → ScanQuiet c.vm) (run : value (initArray dst len type c.vm) = some ())
    (result : 16 ≤ decodePointer ((finalState (initArray dst len type c.vm)).reg dst)) :
    LimitStep c (.arr dst len type) (c.afterArr dst len type) :=
  LimitStep.arr fits quiet (ok_of_value run) (by omega)

/-- Registers with the number 3 in register 1. -/
def threeInReg1 (r : Byte) : Word := if r = 1 then encodeInt 3 else 0

/-- A machine with a limit of 100 bytes that may make arrays of length 3. -/
def limited : HeapTrace :=
  ⟨{ VM.loaded 100 reexposing with reg := threeInReg1, stack := fun _ => 0, sp := 0 }, []⟩

/-- The trace after two arrays of length 3. -/
def limitedTwice : HeapTrace := (limited.afterArr 2 1 0).afterArr 3 1 0

/-- And after a third one. -/
def limitedThrice : HeapTrace := limitedTwice.afterArr 4 1 0

theorem limited_init : initWith 100 (VM.zeroed reexposing Allocator.ascending Fpu.quiet)
    = .ok () (VM.loaded 100 reexposing) := ok_of_value (by decide +kernel)

/-- Two arrays of 48 bytes have room. -/
theorem limited_run : Steps (Guarded LimitStep HasRoom) ⟨VM.loaded 100 reexposing, []⟩
    [.roots threeInReg1 (fun _ => 0) 0, .arr 2 1 0, .arr 3 1 0] limitedTwice := by
  have hroots : LimitStep ⟨VM.loaded 100 reexposing, []⟩ (.roots threeInReg1 (fun _ => 0) 0)
      limited := LimitStep.roots ⟨by decide, by decide +kernel⟩
  have hfirst : LimitStep limited (.arr 2 1 0) (limited.afterArr 2 1 0) :=
    LimitStep.afterArr ⟨3, by decide +kernel, by decide +kernel⟩
      (fun hover => absurd hover (by decide +kernel)) (by decide +kernel) (by decide +kernel)
  have hsecond : LimitStep (limited.afterArr 2 1 0) (.arr 3 1 0) limitedTwice :=
    LimitStep.afterArr ⟨3, by decide +kernel, by decide +kernel⟩
      (fun hover => absurd hover (by decide +kernel)) (by decide +kernel) (by decide +kernel)
  have hroom : HasRoom limited (.arr 2 1 0) ∧ HasRoom (limited.afterArr 2 1 0) (.arr 3 1 0) := by
    unfold HasRoom
    decide +kernel
  exact (((Steps.nil _).snoc ⟨hroots, trivial⟩).snoc ⟨hfirst, hroom.1⟩).snoc ⟨hsecond, hroom.2⟩

/-- Two arrays stay below the limit. -/
theorem heap_limit_iff_twice : limitedTwice.heap.totalAllocated ≤ 100 :=
  (heap_limit_iff 100 reexposing Allocator.ascending Fpu.quiet limited_init _ limitedTwice).2
    limited_run

/-- **The limit is exceeded** by a third array, which collects first: all
three are live, no allocation fails, and 144 bytes are allocated. -/
theorem heap_limit_exceeded :
    initWith 100 (VM.zeroed reexposing Allocator.ascending Fpu.quiet)
      = .ok () (VM.loaded 100 reexposing) ∧
    ∃ ops, Steps LimitStep ⟨VM.loaded 100 reexposing, []⟩ ops limitedThrice ∧
      100 < limitedThrice.heap.totalAllocated := by
  have hwalk : value (getAllObjects (limitedTwice.vm.heap limitedTwice.vm.active).chunks
      limitedTwice.vm.store) = some [4096, 4144] := by decide +kernel
  have hquiet : ScanQuiet limitedTwice.vm :=
    ScanQuiet.of_walk (ok_of_value hwalk) (by decide +kernel)
  -- one evaluation of the third array
  obtain ⟨hrun, hresult, hover⟩ : value (initArray 4 1 0 limitedTwice.vm) = some () ∧
      16 ≤ decodePointer ((finalState (initArray 4 1 0 limitedTwice.vm)).reg 4) ∧
      100 < limitedThrice.heap.totalAllocated := by decide +kernel
  have hthird : LimitStep limitedTwice (.arr 4 1 0) limitedThrice :=
    LimitStep.afterArr ⟨3, by decide +kernel, by decide +kernel⟩ (fun _ => hquiet) hrun hresult
  obtain ⟨hsteps, -⟩ := limited_run.transfer (fun _ => True) trivial
    (fun _ _ _ _ hstep => ⟨hstep.1, trivial⟩)
  exact ⟨limited_init, _, hsteps.snoc hthird, hover⟩

end SproutLang
