/-
  SproutLang.VM.Heap.ArrayLayout
  ──────────────────────────────
  **MUTATOR AND COLLECTOR ON ONE ARRAY** (`src/vm/Heap.cpp`).

  `initArray` and `moveArray` lay the `arrayObj` over the address that
  `heapAlloc` returned, `markObjects` over the object's header, 16 bytes
  before it.  The two agree on an array only where nothing of it is looked
  at:

    • `LayoutAgrees.empty` — no slot of a non-empty array is scanned where
                             `moveArray` accesses it,
    • `array_layout_iff`   — an empty array is read right exactly when its
                             fields stood in memory before it was made, and
                             any number of collections leaves it at that.
-/
import SproutLang.VM.Heap.Arrays
import SproutLang.VM.Heap.Exactness
import SproutLang.VM.UserSpace
import SproutLang.Library.Runs

namespace SproutLang

open Library

/-! ## §1. The array as the two sides see it. -/

/-- The header of the block a register points to, as `markObject` finds it. -/
def VM.blockOf (vm : VM) (array : Byte) : Nat := headerOf (decodePointer (vm.reg array))

/-- The word in which `markObjects` looks for its type and length. -/
def VM.scannedFields (vm : VM) (array : Byte) : Word :=
  vm.store.word (vm.blockOf array + SIZEOF_OBJ_HEADER)

/-- **The collector sees the array of `n` elements of type `t`** that a
register points to, and scans its elements where `moveArray` accesses them. -/
structure LayoutAgrees (vm : VM) (array : Byte) (t : Nat) (n : Int) : Prop where
  type : arrayType (vm.scannedFields array) = t
  length : (arrayLength (vm.scannedFields array) : Int) = n
  slots : ∀ i : Nat, (i : Int) < n →
    vm.blockOf array + SIZEOF_ARRAY_OBJ + 8 * i = elementAddr (decodePointer (vm.reg array)) i

/-- The machine `initArray` allocates in: after a collection, if the trigger
asks for one. -/
def VM.allocating (vm : VM) : VM :=
  if vm.collects then finalState (compactingGarbageCollect vm) else vm

/-- The element type of an array made now: `initArray` reads the register
behind a collection. -/
def VM.elementType (vm : VM) (type : Byte) : Nat :=
  (BitVec.ofInt 32 (decodeInt (vm.allocating.reg type))).toNat

/-- What the memory holds behind the header of the next block. -/
def nextPayload (sp : Space) (total : Nat) : Word :=
  let opened := if needsChunk sp.heap total then finalState (allocNewChunk sp) else sp
  match opened.heap.chunks.getLast? with
  | some c => opened.store.word ((c.mem + c.used) % 2 ^ 64 + SIZEOF_OBJ_HEADER)
  | none => 0

/-- What it holds there before an array without elements is made. -/
def VM.heldBefore (vm : VM) : Word :=
  nextPayload ⟨vm.allocating.store, vm.allocating.heap vm.allocating.active⟩ 24

/-- A collection, as a step of the machine. -/
def Collection (vm : VM) (_ : Unit) (vm' : VM) : Prop := compactingGarbageCollect vm = .ok () vm'

/-- What `compactingGarbageCollect` relies on. -/
def WellFormedHeap (vm : VM) (_ : Unit) : Prop :=
  ∃ rows, Represents vm.store (vm.heap vm.active) rows ∧ (vm.heap vm.active.other).Empty ∧
    Scannable vm rows

/-! ## §2. An array with elements. -/

/-- **Only an array without elements is seen by the collector.** -/
theorem LayoutAgrees.empty {vm : VM} {array : Byte} {t : Nat} {n : Int}
    (h : LayoutAgrees vm array t n) : n = 0 := by
  have hlength := h.length
  have hbase := decodePointer_lt (vm.reg array)
  by_cases hn : (0 : Nat) < n
  · -- element 0: 8 bytes behind the array's address against 24
    have hslot := h.slots 0 hn
    rw [elementAddr_of_nonneg hbase (by omega)] at hslot
    unfold VM.blockOf headerOf SIZEOF_OBJ_HEADER SIZEOF_ARRAY_OBJ at hslot
    omega
  · omega

/-! ## §3. Making an array without elements. -/

section Making

variable {vm made : VM} {dst len type : Byte}

/-- The second half of `heapAlloc` writes a header and nothing behind it. -/
theorem placeInLast_eq_ok {sp sp' : Space} {total type a : Nat}
    (h : placeInLast total type sp = .ok a sp') :
    ∃ c, sp.heap.chunks.getLast? = some c ∧
      a = (c.mem + c.used) % 2 ^ 64 + SIZEOF_OBJ_HEADER ∧
      sp'.store = (sp.store.put ((c.mem + c.used) % 2 ^ 64) (headerWord total type 0)).put
        ((c.mem + c.used) % 2 ^ 64 + 8) 0 := by
  unfold placeInLast at h
  rw [get_bind] at h
  -- without a chunk `chunks.back()` is undefined
  cases hlast : sp.heap.chunks.getLast? with
  | none =>
      rw [hlast] at h
      cases h
  | some c =>
      simp only [hlast] at h
      obtain ⟨_, sp1, h1, h⟩ := bind_eq_ok.1 h
      obtain ⟨_, sp2, h2, h⟩ := bind_eq_ok.1 h
      obtain ⟨_, hstore1, rfl⟩ := zoom_eq_ok.1 h1
      obtain ⟨_, hstore2, rfl⟩ := zoom_eq_ok.1 h2
      rw [bind_ok (modify_apply _)] at h
      injection h with ha hsp
      refine ⟨c, rfl, ha.symm, ?_⟩
      rw [← hsp]
      show _ = _
      rw [(store_eq_ok hstore2).2, (store_eq_ok hstore1).2]

/-- What `heapAlloc` leaves at and behind the header of a new block. -/
theorem heapAlloc_eq_ok {sp sp' : Space} {size type a : Nat}
    (h : heapAlloc size type sp = .ok a sp') :
    ∃ p, a = p + SIZEOF_OBJ_HEADER ∧
      sp'.store.word p = headerWord (align (SIZEOF_OBJ_HEADER + size)) type 0 ∧
      sp'.store.word a = nextPayload sp (align (SIZEOF_OBJ_HEADER + size)) := by
  unfold heapAlloc at h
  rw [get_bind] at h
  simp only at h
  set total := align (SIZEOF_OBJ_HEADER + size)
  -- the space the object is placed in, with or without a new chunk
  have hplaced : ∃ opened : Space,
      opened = (if needsChunk sp.heap total then finalState (allocNewChunk sp) else sp) ∧
      placeInLast total type opened = .ok a sp' := by
    by_cases hneeds : needsChunk sp.heap total = true
    · rw [if_pos hneeds] at h
      obtain ⟨_, opened, hopen, hplace⟩ := bind_eq_ok.1 h
      exact ⟨opened, by rw [if_pos hneeds, hopen]; rfl, hplace⟩
    · rw [if_neg hneeds] at h
      exact ⟨sp, by rw [if_neg hneeds], h⟩
  obtain ⟨opened, hopened, hplace⟩ := hplaced
  obtain ⟨c, hlast, rfl, hstore⟩ := placeInLast_eq_ok hplace
  refine ⟨_, rfl, ?_, ?_⟩
  · rw [hstore, Store.put_word_of_ne (by omega), Store.put_word]
  · -- the placement writes the header only, so the payload is what the memory held
    have hpayload : nextPayload sp total
        = opened.store.word ((c.mem + c.used) % 2 ^ 64 + SIZEOF_OBJ_HEADER) := by
      unfold nextPayload
      simp only [← hopened, hlast]
    rw [hpayload, hstore, Store.put_word_of_ne (by unfold SIZEOF_OBJ_HEADER; omega),
      Store.put_word_of_ne (by unfold SIZEOF_OBJ_HEADER; omega)]

/-- `gcCollectedHeapAlloc` allocates in the machine `VM.allocating`. -/
theorem gcCollectedHeapAlloc_eq_ok {vm1 : VM} {size type a : Nat}
    (h : gcCollectedHeapAlloc size type vm = .ok a vm1) :
    ∃ sp', heapAlloc size type
        ⟨vm.allocating.store, vm.allocating.heap vm.allocating.active⟩ = .ok a sp' ∧
      vm1 = (vm.allocating.setHeap vm.allocating.active sp'.heap).setStore sp'.store := by
  have halloc : onHeap vm.allocating.active (heapAlloc size type) vm.allocating = .ok a vm1 := by
    unfold VM.allocating
    by_cases hover : vm.collects
    · rw [if_pos hover]
      cases hgc : compactingGarbageCollect vm with
      | ok u vm' =>
          rw [gcCollectedHeapAlloc_of_over hover hgc] at h
          exact h
      | error e vm' =>
          rw [gcCollectedHeapAlloc_refused hover hgc] at h
          cases h
    · rw [if_neg hover]
      rw [gcCollectedHeapAlloc_of_not_over (Bool.eq_false_iff.2 hover)] at h
      exact h
  exact zoom_eq_ok.1 halloc

/-- What a run of `initArray` did: it allocated a block, wrote the fields 16
bytes behind the block's address, cleared the elements and boxed the address. -/
theorem initArray_eq_ok (h : initArray dst len type vm = .ok () made) :
    ∃ a vm1 s', gcCollectedHeapAlloc ((elementBytes (decodeInt (vm.reg len)) + 4 * 2) % 2 ^ 64)
        OBJ_ARRAY vm = .ok a vm1 ∧ vm1.store.Mapped (a + SIZEOF_OBJ_HEADER) ∧
      made = (vm1.setStore s').setReg dst (encodePointer (BitVec.ofNat 64 a)) ∧
      (decodeInt (vm.reg len) = 0 →
        ∀ b, b ≠ a + SIZEOF_OBJ_HEADER → s'.word b = vm1.store.word b) := by
  unfold initArray at h
  rw [get_bind] at h
  obtain ⟨a, vm1, halloc, h⟩ := bind_eq_ok.1 h
  obtain ⟨old, _, hload, h⟩ := bind_eq_ok.1 h
  obtain ⟨_, hload1, rfl⟩ := zoom_eq_ok.1 hload
  obtain ⟨hmapped, _, rfl⟩ := load_eq_ok hload1
  obtain ⟨_, _, hstore, h⟩ := bind_eq_ok.1 h
  obtain ⟨s1, hstore1, rfl⟩ := zoom_eq_ok.1 hstore
  rw [get_bind] at h
  obtain ⟨_, _, hload', h⟩ := bind_eq_ok.1 h
  obtain ⟨_, hload2, rfl⟩ := zoom_eq_ok.1 hload'
  obtain ⟨_, _, rfl⟩ := load_eq_ok hload2
  obtain ⟨_, _, hstore', h⟩ := bind_eq_ok.1 h
  obtain ⟨s2, hstore2, rfl⟩ := zoom_eq_ok.1 hstore'
  obtain ⟨_, _, hfill, h⟩ := bind_eq_ok.1 h
  obtain ⟨s3, hfill1, rfl⟩ := zoom_eq_ok.1 hfill
  injection h with _ hmade
  -- the last memory counts
  simp only [VM.setStore_setStore] at hmade
  refine ⟨a, vm1, s3, halloc, hmapped, hmade.symm, fun hzero b hb => ?_⟩
  -- without elements `memset` clears nothing
  rw [hzero] at hfill1
  injection hfill1 with _ hs3
  have hfirst := (store_eq_ok hstore1).2
  have hsecond := (store_eq_ok hstore2).2
  rw [← hs3]
  simp only [VM.setStore_store, hsecond, hfirst]
  rw [Store.put_word_of_ne hb, Store.put_word_of_ne hb]

end Making

/-! ## §4. An array without elements. -/

/-- The register points to a block of 24 bytes, and the collector sees the
fields `held` in it. -/
structure HoldsEmpty (vm : VM) (array : Byte) (held : Word) : Prop where
  pointer : isPointer (vm.reg array) = true
  size : objSize (vm.store.word (vm.blockOf array)) = 24
  fields : vm.scannedFields array = held

section Empty

variable {vm made vm' : VM} {dst len type array : Byte} {held : Word}

/-- **A new array without elements** has the fields that were there. -/
theorem initArray_holdsEmpty (hspace : vm.store.UserSpace)
    (hmade : initArray dst len type vm = .ok () made) (hzero : decodeInt (vm.reg len) = 0) :
    HoldsEmpty made dst vm.heldBefore := by
  obtain ⟨a, vm1, s', halloc, hmapped, rfl, hkept⟩ := initArray_eq_ok hmade
  rw [hzero] at halloc
  obtain ⟨sp', hrun, hvm1⟩ := gcCollectedHeapAlloc_eq_ok halloc
  obtain ⟨p, hp, hheader, hpayload⟩ := heapAlloc_eq_ok hrun
  have hp16 : a = p + 16 := hp
  have hword : vm1.store = sp'.store := by rw [hvm1]; rfl
  have hspace1 : vm1.store.UserSpace := 
    (userSpace_kept.gcCollectedHeapAlloc _ _).ok hspace halloc
  have hlt := hspace1.mapped_lt hmapped
  have hdecode : decodePointer (encodePointer (BitVec.ofNat 64 a)) = a :=
    decodePointer_encodePointer (by omega)
  -- the collector takes the header to be 16 bytes in front of the pointer
  have hblock : headerOf a = p := by
    rw [hp16]
    exact headerOf_add (by omega)
  refine ⟨?_, ?_, ?_⟩
  · rw [VM.setReg_self]
    exact isPointer_encodePointer _
  · unfold VM.blockOf
    rw [VM.setReg_self, hdecode, hblock]
    show objSize (s'.word p) = 24
    rw [hkept hzero p (by unfold SIZEOF_OBJ_HEADER; omega), hword, hheader]
    exact objSize_headerWord (by decide) (by decide) (by decide)
  · unfold VM.scannedFields VM.blockOf
    rw [VM.setReg_self, hdecode, hblock, ← hp]
    show s'.word a = _
    rw [hkept hzero a (by unfold SIZEOF_OBJ_HEADER; omega), hword, hpayload]
    rfl

/-- **A collection keeps them**: they are part of the payload it copies. -/
theorem collection_holdsEmpty (hheap : WellFormedHeap vm ()) (hgc : Collection vm () vm')
    (h : HoldsEmpty vm array held) : HoldsEmpty vm' array held := by
  obtain ⟨rows, hrep, hempty, hscan⟩ := hheap
  unfold Collection at hgc
  obtain ⟨vm2, rows', hrun, hcol⟩ : ∃ vm2 rows', compactingGarbageCollect vm = .ok () vm2 ∧
      Collected vm vm2 rows rows' := by
    rcases collect_spec hrep hempty hscan with ⟨vm2, hfail⟩ | hok
    · rw [hgc] at hfail
      cases hfail
    · exact hok
  rw [hgc] at hrun
  injection hrun with _ hvm
  subst hvm
  -- the register names an object, and then its copy
  obtain ⟨p, q, hpq, hold, hnew⟩ :=
    hcol.patched (.reg array) (mem_rootSlots_reg array) h.pointer
  have hcopy := List.forall₂_zip hcol.copies hpq
  have hp : p ∈ heapObjects rows := (mem_flagged.1 (List.of_mem_zip hpq).1).1
  have hq : q ∈ heapObjects rows' := (List.of_mem_zip hpq).2
  have hpbound := hrep.geometry.object_bounded hp
  have hqbound := hcol.represents.geometry.object_bounded hq
  have hpsized := hrep.geometry.wellSized hp
  have hqsized := hcol.represents.geometry.wellSized hq
  have hpheader := hpsized.header
  have hqheader := hqsized.header
  have hpblock : vm.blockOf array = p.1 := by
    unfold VM.blockOf
    rw [show decodePointer (vm.reg array) = p.1 + 16 from hold]
    exact headerOf_add (by omega)
  have hqblock : vm'.blockOf array = q.1 := by
    unfold VM.blockOf
    rw [show vm'.reg array = _ from hnew, decodePointer_encodePointer (by omega)]
    exact headerOf_add (by omega)
  have hsizeOf : ∀ o : Obj, o.WellSized → objSize (headerWord o.size o.type 0) = o.size := by
    intro o ho
    have hfits := ho.fits
    exact objSize_headerWord (by unfold CHUNK_SIZE at hfits; omega) ho.type_lt (by decide)
  have hpsize : p.2.size = 24 := by
    rw [← h.size, hpblock, hrep.headers.header p hp, hsizeOf _ hpsized]
  refine ⟨?_, ?_, ?_⟩
  · rw [show vm'.reg array = _ from hnew]
    exact isPointer_encodePointer _
  · rw [hqblock, hcol.represents.headers.header q hq, hsizeOf _ hqsized, hcopy.obj, hpsize]
  · have hpayload := hcopy.payload 0 (by omega)
    rw [← h.fields]
    unfold VM.scannedFields
    rw [hpblock, hqblock]
    exact hpayload

/-- For an array without elements the layout is a question of the fields. -/
theorem HoldsEmpty.layoutAgrees_iff {t : Nat} (ht : t < 2 ^ 32) (h : HoldsEmpty vm array held) :
    LayoutAgrees vm array t 0 ↔ held = arrayWord t 0 := by
  constructor
  · intro hagree
    have htype := hagree.type
    have hlength := hagree.length
    rw [h.fields] at htype hlength
    unfold arrayType at htype
    unfold arrayLength at hlength
    refine BitVec.eq_of_toNat_eq ?_
    unfold arrayWord
    rw [BitVec.toNat_ofNat]
    omega
  · intro hheld
    refine ⟨?_, ?_, fun i hi => by omega⟩
    · rw [h.fields, hheld]
      unfold arrayType arrayWord
      rw [BitVec.toNat_ofNat]
      omega
    · rw [h.fields, hheld, arrayLength_arrayWord ht (by decide)]
      rfl

end Empty

/-! ## §5. The layout. -/

/-- **Mutator and collector agree on an array and on its copies** exactly when
it has no elements and the memory behind its block's header held its fields
before it was made. -/
theorem array_layout_iff {vm made vm' : VM} {dst len type : Byte} {rounds : List Unit}
    (hspace : vm.store.UserSpace) (hmade : initArray dst len type vm = .ok () made)
    (hrun : Steps (Guarded Collection WellFormedHeap) made rounds vm') :
    LayoutAgrees vm' dst (vm.elementType type) (decodeInt (vm.reg len)) ↔
      decodeInt (vm.reg len) = 0 ∧ vm.heldBefore = arrayWord (vm.elementType type) 0 := by
  by_cases hzero : decodeInt (vm.reg len) = 0
  · -- the fields that were there stay through the whole run
    have hholds : HoldsEmpty vm' dst vm.heldBefore :=
      hrun.invariant (fun vm => HoldsEmpty vm dst _) (initArray_holdsEmpty hspace hmade hzero)
        (fun _ _ _ hI hstep => collection_holdsEmpty hstep.2 hstep.1 hI)
    rw [hzero, hholds.layoutAgrees_iff (show vm.elementType type < 2 ^ 32 from BitVec.isLt _)]
    exact ⟨fun h => ⟨rfl, h⟩, fun h => h.2⟩
  · exact ⟨fun h => absurd h.empty hzero, fun h => absurd h.1 hzero⟩

/-- A machine before its first array: every register holds the number `n`. -/
def numbered (n : Int) : VM := VM.booted (fun _ => encodeInt n)

/-- An array without elements of type 0, in memory that held zeroes. -/
def emptyArray : VM := finalState (initArray 4 1 0 (numbered 0))

theorem numbered_userSpace (n : Int) : (numbered n).store.UserSpace :=
  Store.userSpace_of_empty rfl

/-- The heap with one empty array is well formed. -/
theorem emptyArray_wellFormed : WellFormedHeap emptyArray () :=
  ⟨[⟨4096, [⟨24, OBJ_ARRAY⟩]⟩],
    Represents.oneChunk (by decide) (by decide +kernel) (by decide) (by decide)
      (by decide) (by decide +kernel) (by decide +kernel) (by decide +kernel),
    ⟨by decide +kernel, by decide +kernel⟩,
    { stack := by decide +kernel
      fields := by decide +kernel
      inside := by decide +kernel
      valid := by decide +kernel }⟩

/-- `arr` makes it. -/
theorem emptyArray_made : initArray 4 1 0 (numbered 0) = .ok () emptyArray :=
  ok_of_value (by decide +kernel)

/-- It is collected. -/
theorem emptyArray_collected :
    Steps (Guarded Collection WellFormedHeap) emptyArray [()]
      (finalState (compactingGarbageCollect emptyArray)) :=
  (Steps.nil emptyArray).snoc ⟨ok_of_value (by decide +kernel), emptyArray_wellFormed⟩

/-- Both sides hold of an empty array in fresh memory. -/
theorem array_layout_iff_emptyArray :
    LayoutAgrees (finalState (compactingGarbageCollect emptyArray)) 4
        ((numbered 0).elementType 0) (decodeInt ((numbered 0).reg 1)) ↔
      decodeInt ((numbered 0).reg 1) = 0 ∧
        (numbered 0).heldBefore = arrayWord ((numbered 0).elementType 0) 0 :=
  array_layout_iff (numbered_userSpace 0) emptyArray_made emptyArray_collected

/-- **Two elements of type 2**, pointers, are two elements of no type to the
collector, and none of them where the machine puts them. -/
theorem array_layout_differs :
    (numbered 2).store.UserSpace ∧ ∃ made, initArray 4 1 0 (numbered 2) = .ok () made ∧
      made.scannedFields 4 = 0 ∧
      made.blockOf 4 + SIZEOF_ARRAY_OBJ + 16 = elementAddr (decodePointer (made.reg 4)) 0 ∧
      ¬ LayoutAgrees made 4 ((numbered 2).elementType 0) (decodeInt ((numbered 2).reg 1)) :=
  ⟨numbered_userSpace 2, _, ok_of_value (by decide +kernel), by decide +kernel, by decide +kernel,
    fun h => absurd h.empty (by decide +kernel)⟩

end SproutLang
