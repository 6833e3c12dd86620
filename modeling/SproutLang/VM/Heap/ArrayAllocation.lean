/-
  SproutLang.VM.Heap.ArrayAllocation
  ──────────────────────────────────
  **WHEN AN ARRAY ALLOCATION IS ALL OR NOTHING.**

  `initArray` never yields a whole array: the last two elements lie behind
  the block that `heapAlloc` reserved.  What is left is the other half of the
  promise, that a failed allocation changes nothing, and the only exception on
  the way is `allocNewChunk`'s `std::bad_alloc`.  Where a collection comes
  first it has set a flag, opened a chunk or switched the halves by then.

    • `heapAlloc_cases`      — an allocation is refused a chunk, or throws nothing,
    • `moveObjects_keeps`    — an evacuation that opened no chunk wrote nothing,
    • `collect_throws`       — a collection that throws has changed the heap,
    • `array_allocation_iff` — when `initArray` is all or nothing.
-/
import SproutLang.VM.Heap.CollectorFrame
import SproutLang.VM.Loader

namespace SproutLang

open Library

/-! ## §1. What throws nothing. -/

theorem markObject_neverThrows (r : Word) : NeverThrows (markObject r) := by
  unfold markObject
  by_cases hptr : isPointer r = true
  · rw [if_pos hptr]
    exact (load_neverThrows _).bind fun w => (store_neverThrows _ _).bind fun _ => Raises.pure _
  · rw [if_neg hptr]
    exact Raises.pure _

theorem walkChunk_neverThrows (c : Chunk) (rounds : Nat) :
    ∀ i, NeverThrows (walkChunk c rounds i) := by
  induction rounds with
  | zero =>
      intro i
      unfold walkChunk
      split
      · exact Raises.throw id
      · exact Raises.pure _
  | succ rounds ih =>
      intro i
      unfold walkChunk
      split
      · exact (load_neverThrows _).bind fun w => (ih _).bind fun _ => Raises.pure _
      · exact Raises.pure _

theorem getAllObjects_neverThrows (chunks : List Chunk) : NeverThrows (getAllObjects chunks) := by
  induction chunks with
  | nil => exact Raises.pure _
  | cons c chunks ih =>
      exact (walkChunk_neverThrows _ _ _).bind fun _ => ih.bind fun _ => Raises.pure _

theorem Slot.read_neverThrows (s : Slot) : NeverThrows s.read := by
  cases s with
  | reg r => exact fun _ _ _ h => absurd h (by simp [Slot.read])
  | stack i =>
      intro vm e vm' h
      have h : loadSlot i vm = .error e vm' := h
      unfold loadSlot at h
      split at h
      · exact absurd h (by simp)
      · injection h with he _
        subst he
        exact id
  | heap a => exact (load_neverThrows a).zoom

theorem Slot.write_neverThrows (s : Slot) (w : Word) : NeverThrows (s.write w) := by
  cases s with
  | reg r => exact fun _ _ _ h => absurd h (by simp [Slot.write, SproutLang.setReg])
  | stack i =>
      intro vm e vm' h
      have h : storeSlot i w vm = .error e vm' := h
      unfold storeSlot at h
      split at h
      · exact absurd h (by simp)
      · injection h with he _
        subst he
        exact id
  | heap a => exact (store_neverThrows a w).zoom

/-- Marking throws no exception. -/
theorem markSlots_neverThrows (slots : List Slot) : NeverThrows (markSlots slots) := by
  induction slots with
  | nil => exact Raises.pure _
  | cons s slots ih =>
      exact s.read_neverThrows.bind fun r => (markObject_neverThrows r).zoom.bind fun _ =>
        ih.bind fun _ => Raises.pure _

theorem interiorSlots_neverThrows (object : Nat) : NeverThrows (interiorSlots object) := by
  unfold interiorSlots
  refine (load_neverThrows _).bind fun w => ?_
  split
  · refine (load_neverThrows _).bind fun array => ?_
    split
    · exact Raises.pure _
    · exact Raises.pure _
  · exact Raises.pure _

/-- Nor does the interior scan. -/
theorem markInterior_neverThrows (objects : List Nat) : NeverThrows (markInterior objects) := by
  induction objects with
  | nil => exact Raises.pure _
  | cons object objects ih =>
      exact (interiorSlots_neverThrows object).zoom.bind fun slots =>
        (markSlots_neverThrows slots).bind fun _ => ih.bind fun _ => Raises.pure _

/-- **Marking throws nothing.** -/
theorem markObjects_neverThrows : NeverThrows markObjects := by
  refine Raises.get.bind fun vm => ?_
  exact (getAllObjects_neverThrows _).zoom.bind fun objects =>
    (markSlots_neverThrows _).bind fun _ => (markInterior_neverThrows objects).bind fun _ =>
      Raises.pure _

/-- Nor does patching. -/
theorem patchSlots_neverThrows (slots : List Slot) : NeverThrows (patchSlots slots) := by
  induction slots with
  | nil => exact Raises.pure _
  | cons s slots ih =>
      refine Raises.bind ?_ fun _ => ih
      exact s.read_neverThrows.bind fun r => (load_neverThrows _).zoom.bind fun w =>
        s.write_neverThrows w

/-- Nor does freeing the old heap. -/
theorem freeChunks_neverThrows (chunks : List Chunk) : NeverThrows (freeChunks chunks) := by
  induction chunks with
  | nil => exact Raises.pure _
  | cons c chunks ih =>
      exact Raises.bind (fun _ _ _ h => absurd h (by simp [free])) fun _ => ih

/-- **Neither does patching**, nor freeing the old half. -/
theorem updatePtrHolder_neverThrows (half : Half) (slots : List Slot) :
    NeverThrows (updatePtrHolder half slots) := by
  refine (patchSlots_neverThrows slots).bind fun _ => Raises.zoom ?_
  refine Raises.get.bind fun sp => ?_
  exact (freeChunks_neverThrows _).zoom.bind fun _ => Raises.modify _

/-- Nor does cutting a block from a chunk. -/
theorem placeInLast_neverThrows (total type : Nat) : NeverThrows (placeInLast total type) := by
  refine Raises.get.bind fun sp => ?_
  simp only
  split
  · exact Raises.throw id
  · exact (store_neverThrows _ _).zoom.bind fun _ => (store_neverThrows _ _).zoom.bind fun _ =>
      (Raises.modify _).bind fun _ => Raises.pure _

/-! ## §2. An allocation. -/

/-- The heap has a chunk. -/
def Opened (sp : Space) : Prop := sp.heap.chunks ≠ []

theorem inStore_keeps {α : Type} (P : Heap → Prop) (x : EStateM Fault Store α) :
    Preserves (fun sp => P sp.heap) (inStore x) := by
  intro sp hP
  have hheap : (finalState (inStore x sp)).heap = sp.heap := by
    unfold inStore zoom
    cases x sp.store <;> rfl
  rw [hheap]
  exact hP

theorem placeInLast_keeps (total type : Nat) : Preserves Opened (placeInLast total type) := by
  intro sp hopen
  unfold placeInLast
  rw [get_bind]
  simp only
  cases sp.heap.chunks.getLast? with
  | none => exact hopen
  | some c =>
      have hstore : ∀ a w, Preserves Opened (inStore (store a w)) :=
        fun a w => inStore_keeps (fun h => h.chunks ≠ []) _
      refine (hstore _ _).bind (fun _ => (hstore _ _).bind fun _ => Preserves.bind
        (Preserves.modify fun _ _ => ?_) fun _ => Preserves.pure _) sp hopen
      exact List.append_ne_nil_of_right_ne_nil _ (List.cons_ne_nil _ _)

/-- **`malloc` refuses the chunk that a block of `total` bytes needs.** -/
def Refuses (s : Store) (h : Heap) (total : Nat) : Prop :=
  needsChunk h total = true ∧ s.allocator.place s.calls CHUNK_SIZE s.live = none

instance (s : Store) (h : Heap) (total : Nat) : Decidable (Refuses s h total) :=
  inferInstanceAs (Decidable (_ ∧ _))

/-- **An allocation** is refused a chunk and counts the call, or it has a
chunk to work in and throws nothing. -/
theorem heapAlloc_cases (size type : Nat) (sp : Space) :
    (Refuses sp.store sp.heap (align (SIZEOF_OBJ_HEADER + size)) ∧
      heapAlloc size type sp = .error .badAlloc
        { sp with store := { sp.store with calls := sp.store.calls + 1 } }) ∨
    (¬ Refuses sp.store sp.heap (align (SIZEOF_OBJ_HEADER + size)) ∧
      Opened (finalState (heapAlloc size type sp)) ∧
      ∀ e sp', heapAlloc size type sp = .error e sp' → ¬ e.IsException) := by
  unfold heapAlloc Refuses
  simp only
  rw [get_bind]
  by_cases hneeds : needsChunk sp.heap (align (SIZEOF_OBJ_HEADER + size)) = true
  · rw [if_pos hneeds]
    -- `malloc` fails or a chunk is appended
    cases hplace : sp.store.allocator.place sp.store.calls CHUNK_SIZE sp.store.live with
    | none => exact Or.inl ⟨⟨hneeds, rfl⟩, bind_error (allocNewChunk_refused hplace)⟩
    | some a =>
        right
        rw [bind_ok (allocNewChunk_ok hplace)]
        refine ⟨fun hrefuses => absurd hrefuses.2 (by simp), ?_, placeInLast_neverThrows _ _ _⟩
        exact placeInLast_keeps _ _ _ (by simp [Opened])
  · right
    rw [if_neg hneeds]
    refine ⟨fun hrefuses => hneeds hrefuses.1, ?_, placeInLast_neverThrows _ _ _⟩
    refine placeInLast_keeps _ _ _ (fun hnil => hneeds ?_)
    unfold needsChunk
    rw [hnil]
    rfl

/-! ## §3. An evacuation. -/

/-- As long as there is no chunk, memory is as it was. -/
def Untouched (s : Store) (sp : Space) : Prop :=
  sp.heap.chunks = [] → sp.store.word = s.word ∧ sp.store.live = s.live

/-- A heap with a chunk has nothing to meet. -/
theorem Opened.untouched {s : Store} {sp : Space} (h : Opened sp) : Untouched s sp :=
  fun hnil => absurd hnil h

/-- An evacuation that gets no chunk leaves memory as it is. -/
theorem evacuate_keeps (s : Store) (obj : Nat) (w : Word) :
    Preserves (Untouched s) (evacuate obj w) := by
  have hstore : ∀ x : EStateM Fault Store Unit, Preserves Opened (inStore x) :=
    fun x => inStore_keeps (fun h => h.chunks ≠ []) x
  unfold evacuate
  refine Preserves.bind_of ?_ Opened (fun sp a sp' _ hrun => ?_) fun a sp hopen => Opened.untouched ?_
  · intro sp huntouched
    rcases heapAlloc_cases ((objSize w + 2 ^ 64 - SIZEOF_OBJ_HEADER) % 2 ^ 64) (objType w) sp with
      ⟨-, hrefused⟩ | ⟨-, hopen, -⟩
    · rw [hrefused]
      exact huntouched
    · exact hopen.untouched
  · rcases heapAlloc_cases ((objSize w + 2 ^ 64 - SIZEOF_OBJ_HEADER) % 2 ^ 64) (objType w) sp with
      ⟨-, hrefused⟩ | ⟨-, hopen, -⟩
    · rw [hrun] at hrefused
      exact absurd hrefused (by simp)
    · rw [hrun] at hopen
      exact hopen
  · exact ((hstore _).bind fun _ => hstore _) sp hopen

/-- So does moving a chunk to a heap that gets none. -/
theorem moveChunk_keeps (s : Store) (c : Chunk) (rounds : Nat) :
    ∀ i, Preserves (Untouched s) (moveChunk c rounds i) := by
  have hload : ∀ a, Preserves (Untouched s) (inStore (load a)) := by
    intro a sp huntouched
    unfold inStore zoom load
    by_cases hmapped : sp.store.Mapped a
    · simp only [if_pos hmapped]
      exact huntouched
    · simp only [if_neg hmapped]
      exact huntouched
  -- on the rounds of the loop
  induction rounds with
  | zero =>
      intro i
      unfold moveChunk
      split
      · exact Preserves.throw _
      · exact Preserves.pure _
  | succ rounds ih =>
      intro i
      unfold moveChunk
      split
      · refine (hload _).bind fun w => ?_
        have hmore : Preserves (Untouched s) (do
            let w ← inStore (load (c.mem + i))
            moveChunk c rounds ((i + objSize w) % 2 ^ 32)) := (hload _).bind fun w => ih _
        split
        · exact (evacuate_keeps s _ w).bind fun _ => hmore
        · exact hmore
      · exact Preserves.pure _

/-- **An evacuation that opened no chunk wrote nothing.** -/
theorem moveObjects_keeps (s : Store) (chunks : List Chunk) :
    Preserves (Untouched s) (moveObjects chunks) := by
  induction chunks with
  | nil => exact Preserves.pure _
  | cons c chunks ih => exact (moveChunk_keeps s c _ _).bind fun _ => ih

section Unmarked

variable {s s' : Store} {h : Heap}

/-- Moving and walking step through a chunk alike. -/
theorem moveChunk_unmarked (c : Chunk) (rounds : Nat) :
    ∀ {i : Nat} {objects : List Nat}, walkChunk c rounds i s = .ok objects s' →
      (∀ a ∈ objects, objFlags (s.word a) ≠ FLAG_MARKED) →
      s' = s ∧ moveChunk c rounds i ⟨s, h⟩ = .ok () ⟨s, h⟩ := by
  -- both loops make the same steps while no object is marked
  induction rounds with
  | zero =>
      intro i objects hwalk _
      unfold walkChunk at hwalk
      unfold moveChunk
      split at hwalk
      · exact absurd hwalk (by simp)
      · rename_i hend
        injection hwalk with _ hs
        rw [if_neg hend]
        exact ⟨hs.symm, rfl⟩
  | succ rounds ih =>
      intro i objects hwalk hflags
      unfold walkChunk at hwalk
      unfold moveChunk
      split at hwalk
      · rename_i hlt
        obtain ⟨w, s1, hload, hrest⟩ := bind_eq_ok.1 hwalk
        obtain ⟨hmapped, rfl, rfl⟩ := load_eq_ok hload
        obtain ⟨rest, s2, hmore, hreturn⟩ := bind_eq_ok.1 hrest
        injection hreturn with hobjects hs
        subst hobjects hs
        have hread : inStore (load (c.mem + i)) ⟨s1, h⟩ = .ok (s1.word (c.mem + i)) ⟨s1, h⟩ :=
          inStore_ok (load_ok hmapped)
        simp only [if_pos hlt]
        rw [bind_ok hread, if_neg (hflags _ List.mem_cons_self), bind_ok hread]
        exact ih hmore (fun a ha => hflags a (List.mem_cons_of_mem _ ha))
      · rename_i hend
        injection hwalk with _ hs
        rw [if_neg hend]
        exact ⟨hs.symm, rfl⟩

/-- An evacuation without a marked object does nothing. -/
theorem moveObjects_unmarked (chunks : List Chunk) :
    ∀ {objects : List Nat}, getAllObjects chunks s = .ok objects s' →
      (∀ a ∈ objects, objFlags (s.word a) ≠ FLAG_MARKED) →
      moveObjects chunks ⟨s, h⟩ = .ok () ⟨s, h⟩ := by
  induction chunks with
  | nil => exact fun _ _ => rfl
  | cons c chunks ih =>
      intro objects hwalk hflags
      unfold getAllObjects at hwalk
      obtain ⟨first, s1, hfirst, hrest⟩ := bind_eq_ok.1 hwalk
      obtain ⟨rest, s2, hmore, hreturn⟩ := bind_eq_ok.1 hrest
      injection hreturn with hobjects hs
      subst hobjects hs
      obtain ⟨rfl, hchunk⟩ := moveChunk_unmarked c c.used (h := h) hfirst
        (fun a ha => hflags a (List.mem_append_left _ ha))
      unfold moveObjects
      rw [bind_ok hchunk]
      exact ih hmore (fun a ha => hflags a (List.mem_append_right _ ha))

end Unmarked

/-! ## §4. A collection. -/

/-- **The heap as it was**: the structs, which half is active, the regions in
use and every word in them. -/
structure HeapUnchanged (vm vm' : VM) : Prop where
  heap : ∀ half, vm'.heap half = vm.heap half
  used : vm'.heapAUsed = vm.heapAUsed
  live : vm'.store.live = vm.store.live
  words : ∀ a, vm.store.Mapped a → vm'.store.word a = vm.store.word a

section Collecting

variable {vm vm' : VM}

theorem onHeap_used {α : Type} (half : Half) (x : EStateM Fault Space α) (b : Bool) :
    Preserves (fun vm => vm.heapAUsed = b) (onHeap half x) := by
  intro vm hb
  have hused : (finalState (onHeap half x vm)).heapAUsed = vm.heapAUsed := by
    unfold onHeap zoom
    cases x ⟨vm.store, vm.heap half⟩ <;> cases half <;> rfl
  exact hused.trans hb

theorem patchSlots_used (slots : List Slot) (b : Bool) :
    Preserves (fun vm => vm.heapAUsed = b) (patchSlots slots) := by
  -- what happens in the memory does not reach the flag
  have hmemory : ∀ {α : Type} (x : EStateM Fault Store α),
      Preserves (fun vm => vm.heapAUsed = b) (onStore x) := by
    intro α x vm hb
    have hused : (finalState (onStore x vm)).heapAUsed = vm.heapAUsed := by
      unfold onStore zoom
      cases x vm.store <;> rfl
    exact hused.trans hb
  -- on the slots: a read, a load and a write each
  induction slots with
  | nil => exact Preserves.pure _
  | cons s slots ih =>
      have hread : Preserves (fun vm => vm.heapAUsed = b) s.read := by
        cases s with
        | reg r => exact fun _ hb => hb
        | stack i =>
            intro vm hb
            show (finalState (loadSlot i vm)).heapAUsed = b
            unfold loadSlot
            split <;> exact hb
        | heap a => exact hmemory _
      have hwrite : ∀ w, Preserves (fun vm => vm.heapAUsed = b) (s.write w) := by
        intro w
        cases s with
        | reg r => exact fun _ hb => hb
        | stack i =>
            intro vm hb
            show (finalState (storeSlot i w vm)).heapAUsed = b
            unfold storeSlot
            split <;> exact hb
        | heap a => exact hmemory _
      refine Preserves.bind ?_ fun _ => ih
      exact hread.bind fun r => (hmemory _).bind fun w => hwrite w

/-- **A collection that returns has switched the halves.** -/
theorem collect_used (h : compactingGarbageCollect vm = .ok () vm') :
    vm'.heapAUsed = !vm.heapAUsed := by
  unfold compactingGarbageCollect at h
  obtain ⟨found, vm1, hmark, hrest⟩ := bind_eq_ok.1 h
  rw [get_bind] at hrest
  obtain ⟨_, vm2, hmove, hmore⟩ := bind_eq_ok.1 hrest
  obtain ⟨_, vm3, hupdate, hflip⟩ := bind_eq_ok.1 hmore
  injection hflip with _ hvm
  subst hvm
  have hmarked : vm1.heapAUsed = vm.heapAUsed := by
    obtain ⟨st, rfl⟩ := (markObjects_found hmark).1
    rfl
  have hmoved := (onHeap_used _ _ _).ok hmarked hmove
  have hupdated : vm3.heapAUsed = vm.heapAUsed :=
    ((patchSlots_used found _).bind fun _ => onHeap_used _ _ _).ok hmoved hupdate
  show (!vm3.heapAUsed) = _
  rw [hupdated]

/-- **A collection that throws has changed the heap**: it has marked the
object that was to be moved first, or opened a chunk for a copy. -/
theorem collect_throws {rows : List HeapRow}
    (hrep : Represents vm.store (vm.heap vm.active) rows) (hempty : (vm.heap vm.active.other).Empty)
    {e : Fault} (h : compactingGarbageCollect vm = .error e vm') (he : e.IsException) :
    ¬ HeapUnchanged vm vm' := by
  intro hsame
  unfold compactingGarbageCollect at h
  rcases bind_eq_error.1 h with hmark | ⟨found, vm1, hmark, hrest⟩
  · exact markObjects_neverThrows _ _ _ hmark he
  obtain ⟨s, rfl⟩ := (markObjects_found hmark).1
  rw [get_bind] at hrest
  rcases bind_eq_error.1 hrest with hmove | ⟨_, vm2, _, hmore⟩
  · obtain ⟨sp, hrun, rfl⟩ := zoom_eq_error.1 hmove
    have hrun : moveObjects (vm.heap vm.active).chunks ⟨s, vm.heap vm.active.other⟩ = .error e sp := by
      simpa using hrun
    have hheap : sp.heap = vm.heap vm.active.other := by
      simpa using hsame.heap vm.active.other
    -- no chunk was opened, so memory is still what marking left
    obtain ⟨hword, hlive⟩ := (moveObjects_keeps s _).error (fun _ => ⟨rfl, rfl⟩) hrun
      (by rw [hheap]; exact hempty.1)
    have hlive' : s.live = vm.store.live := hlive.symm.trans hsame.live
    have hwords : ∀ a, vm.store.Mapped a → s.word a = vm.store.word a := by
      intro a ha
      rw [← hword]
      exact hsame.words a ha
    have hheader : ∀ p ∈ heapObjects rows, s.word p.1 = headerWord p.2.size p.2.type 0 := by
      intro p hp
      have hsized := (hrep.geometry.wellSized hp).header
      rw [hwords p.1 (hrep.geometry.mapped hp (hrep.geometry.object_aligned hp) (Nat.le_refl _)
        (by omega))]
      exact hrep.headers.header p hp
    have hgeo : Geometry s rows := hrep.geometry.of_live (by rw [hlive']; exact fun _ hr => hr)
    have hC : CHUNK_SIZE = 4194304 := rfl
    have hwalk := getAllObjects_ok hgeo (fun p hp => by
      have hsized := hgeo.wellSized hp
      have hfits := hsized.fits
      rw [hheader p hp]
      exact objSize_headerWord (by omega) hsized.type_lt (by decide))
    have hnone := moveObjects_unmarked (h := vm.heap vm.active.other) _ hwalk (fun a ha => by
      obtain ⟨p, hp, rfl⟩ := List.mem_map.1 ha
      have hsized := hgeo.wellSized hp
      have hfits := hsized.fits
      rw [hheader p hp, objFlags_headerWord (by omega) hsized.type_lt (by decide)]
      decide)
    rw [← hrep.counts.chunks, hrun] at hnone
    exact absurd hnone (by simp)
  · rcases bind_eq_error.1 hmore with hupdate | ⟨_, vm3, _, hflip⟩
    · exact updatePtrHolder_neverThrows _ _ _ _ _ hupdate he
    · exact absurd hflip (by simp)

end Collecting

/-! ## §5. All or nothing. -/

/-- The bytes `heapAlloc` reserves for an array of `length` elements. -/
def reservedBytes (length : Int) : Nat :=
  align (SIZEOF_OBJ_HEADER + (elementBytes length + 4 * 2) % 2 ^ 64)

/-- Where the elements of the array behind the header at `p` end. -/
def arrayEnd (p : Nat) (length : Int) : Int :=
  p + SIZEOF_OBJ_HEADER + SIZEOF_ARRAY_OBJ + 8 * length

/-- **All**: `dst` points to an array behind the header at `p`, which lies with
its fields and elements inside one chunk and inside its block, and both sizes
are recorded as they are. -/
structure WholeArray (vm : VM) (dst : Byte) (length : Int) (p : Nat) : Prop where
  pointer : isPointer (vm.reg dst) = true ∧ decodePointer (vm.reg dst) = p + SIZEOF_OBJ_HEADER
  chunk : ∃ c ∈ (vm.heap vm.active).chunks, c.mem ≤ p ∧ arrayEnd p length ≤ c.mem + CHUNK_SIZE
  block : arrayEnd p length ≤ p + reservedBytes length
  size : objSize (vm.store.word p) = reservedBytes length
  length : (arrayLength (vm.store.word (p + SIZEOF_OBJ_HEADER + SIZEOF_OBJ_HEADER)) : Int) = length

/-- **Nothing**: an exception that leaves the heap and `dst` as they were. -/
def NothingDone (vm : VM) (dst : Byte) (result : EStateM.Result Fault VM Unit) : Prop :=
  ∃ e vm', result = .error e vm' ∧ e.IsException ∧ HeapUnchanged vm vm' ∧ vm'.reg dst = vm.reg dst

/-- **All or nothing**: an array is made, or registers and both heaps are as
after the collection. -/
def AllOrNothing (vm : VM) (dst len : Byte) (result : EStateM.Result Fault VM Unit) : Prop :=
  NothingDone vm dst result ∨
    ∃ vm' p, result = .ok () vm' ∧ WholeArray vm' dst (decodeInt (vm.reg len)) p

/-- **The allocation is refused at once**: no collection comes first, the last
chunk has no room for the block, and `malloc` gives no other. -/
def RefusedAtOnce (vm : VM) (len : Byte) : Prop :=
  ¬ vm.collects ∧ Refuses vm.store (vm.heap vm.active) (reservedBytes (decodeInt (vm.reg len)))

section Allocation

variable {vm vm' : VM} {dst len type : Byte}

/-- The elements never fit in the block: it has room for the fields of the
header and the elements, not for the fields of a second header. -/
theorem not_wholeArray {length : Int} {p : Nat} (hlt : length < 2 ^ 47) :
    ¬ WholeArray vm dst length p := by
  intro h
  have hlength := h.length
  obtain ⟨n, rfl⟩ := Int.eq_ofNat_of_zero_le (show 0 ≤ length by omega)
  have hreserved : reservedBytes (n : Int) = 24 + 8 * n := by
    unfold reservedBytes
    have hdata : (8 * n + 4 * 2) % 2 ^ 64 = 8 * n + 8 := by omega
    rw [elementBytes_of_nonneg (by omega), hdata]
    exact align_array (by omega)
  have hblock := h.block
  unfold arrayEnd SIZEOF_OBJ_HEADER SIZEOF_ARRAY_OBJ at hblock
  rw [hreserved] at hblock
  omega

/-- Behind the allocation nothing throws. -/
theorem initArray_throws {e : Fault} (h : initArray dst len type vm = .error e vm')
    (he : e.IsException) :
    gcCollectedHeapAlloc ((elementBytes (decodeInt (vm.reg len)) + 4 * 2) % 2 ^ 64) OBJ_ARRAY vm
      = .error e vm' := by
  unfold initArray at h
  rw [get_bind] at h
  rcases bind_eq_error.1 h with halloc | ⟨ptr, vm1, _, hrest⟩
  · exact halloc
  · have hload : ∀ a, NeverThrows (onStore (load a)) := fun a => (load_neverThrows a).zoom
    have hstore : ∀ a w, NeverThrows (onStore (store a w)) := fun a w => (store_neverThrows a w).zoom
    refine absurd he (Raises.bind (hload _) (fun _ => (hstore _ _).bind fun _ => Raises.get.bind
      fun vm2 => (hload _).bind fun _ => (hstore _ _).bind fun _ => Raises.bind
        (fillWords_neverThrows _ _ _).zoom fun _ => ?_) _ _ _ hrest)
    exact fun _ _ _ h => absurd h (by simp [setReg])

/-- `arr` fails where its allocation does. -/
theorem initArray_error {e : Fault}
    (h : gcCollectedHeapAlloc ((elementBytes (decodeInt (vm.reg len)) + 4 * 2) % 2 ^ 64) OBJ_ARRAY vm
      = .error e vm') : initArray dst len type vm = .error e vm' := by
  unfold initArray
  rw [get_bind]
  exact bind_error h

end Allocation

/-- **`initArray` is all or nothing if and only if it is refused at once.** -/
theorem array_allocation_iff (vm : VM) (dst len type : Byte) (rows : List HeapRow)
    (hrep : Represents vm.store (vm.heap vm.active) rows)
    (hempty : (vm.heap vm.active.other).Empty) :
    AllOrNothing vm dst len (initArray dst len type vm) ↔ RefusedAtOnce vm len := by
  have hrange := decodeInt_range (vm.reg len)
  have hcases := heapAlloc_cases ((elementBytes (decodeInt (vm.reg len)) + 4 * 2) % 2 ^ 64) OBJ_ARRAY
    ⟨vm.store, vm.heap vm.active⟩
  constructor
  · intro hcases
    rcases hcases with ⟨e, vm', hrun, he, hsame, -⟩ | ⟨vm', p, -, hwhole⟩
    · have halloc := initArray_throws hrun he
      by_cases hover : vm.collects
      · -- whatever threw, the collection has left its traces
        exfalso
        cases hcollect : compactingGarbageCollect vm with
        | error e' vm1 =>
            rw [gcCollectedHeapAlloc_refused hover hcollect] at halloc
            injection halloc with he' hvm
            subst he' hvm
            exact collect_throws hrep hempty hcollect he hsame
        | ok _ vm1 =>
            rw [gcCollectedHeapAlloc_of_over hover hcollect] at halloc
            have hused := (onHeap_used _ _ _).error (collect_used hcollect) halloc
            rw [hsame.used] at hused
            exact absurd hused (by simp)
      · -- no collection: the exception can only come from the new chunk
        refine ⟨hover, ?_⟩
        rw [gcCollectedHeapAlloc_of_not_over (Bool.eq_false_iff.2 hover)] at halloc
        obtain ⟨sp, hthrown, -⟩ := zoom_eq_error.1 halloc
        rcases hcases with ⟨hrefuses, -⟩ | ⟨-, -, hnothing⟩
        · exact hrefuses
        · exact absurd he (hnothing e sp hthrown)
    · -- an array that was made is never whole
      exact absurd hwhole (not_wholeArray (by omega))
  · intro ⟨hover, hrefuses⟩
    left
    rcases hcases with ⟨-, hrun⟩ | ⟨hno, -, -⟩
    · have halloc := (gcCollectedHeapAlloc_of_not_over (Bool.eq_false_iff.2 hover)).trans
        (onHeap_error hrun)
      refine ⟨_, _, initArray_error halloc, trivial, ⟨fun half => ?_, ?_, ?_, fun a _ => ?_⟩, ?_⟩
      · cases half <;> cases hactive : vm.active <;> simp [VM.heap, VM.setHeap, VM.setStore]
      · cases vm.active <;> rfl
      · rfl
      · rfl
      · simp
    · exact absurd hrefuses hno

/-- A machine with the number 2 in every register and no memory. -/
def outOfMemory : VM :=
  { VM.booted (fun _ => encodeInt 2) with
    store := { allocator := Allocator.exhausted, live := [], word := fun _ => 0, calls := 0 } }

/-- Without memory nothing is done. -/
theorem array_allocation_iff_outOfMemory :
    AllOrNothing outOfMemory 4 1 (initArray 4 1 0 outOfMemory) :=
  (array_allocation_iff outOfMemory 4 1 0 [] (Heap.Empty.represents ⟨rfl, rfl⟩ _) ⟨rfl, rfl⟩).2
    ⟨by decide +kernel, by decide +kernel⟩

/-- **An array of length 2 is not whole**: its block ends before its elements
do. -/
theorem array_allocation_short :
    isInt (encodeInt 2) = true ∧
      (∃ vm', initArray 4 1 0 (VM.booted (fun _ => encodeInt 2)) = .ok () vm') ∧
      ¬ AllOrNothing (VM.booted (fun _ => encodeInt 2)) 4 1
        (initArray 4 1 0 (VM.booted (fun _ => encodeInt 2))) := by
  have hrun : initArray 4 1 0 (VM.booted (fun _ => encodeInt 2))
      = .ok () (finalState (initArray 4 1 0 (VM.booted (fun _ => encodeInt 2)))) :=
    ok_of_value (by decide +kernel)
  refine ⟨by decide, ⟨_, hrun⟩, ?_⟩
  intro hcases
  rcases hcases with ⟨e, vm', hthrown, -⟩ | ⟨vm', p, -, hwhole⟩
  · rw [hrun] at hthrown
    exact absurd hthrown (by simp)
  · exact not_wholeArray (decodeInt_range _).2 hwhole

end SproutLang
