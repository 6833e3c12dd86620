/-
  SproutLang.VM.Ownership
  ───────────────────────
  **NO CHUNK IS LOST, AND NONE IS USED AFTER IT IS FREED.**

  The VM gets memory in chunks and keeps them in the vectors of its two heaps;
  a collection frees one vector and `end` frees both.  Whatever the image does,
  the live regions are the chunks of the two vectors, one for one:

    • `ownsChunks_kept` — every operation keeps it so, also where it stops,
    • `no_chunk_leaks`  — so does a run from `init`, and one that has ended
                          leaves nothing live.
-/
import SproutLang.Library.Ownership
import SproutLang.VM.MemoryInvariants
import SproutLang.VM.ObjectRuns

namespace SproutLang

open Library

/-! ## §1. The regions of the chunks. -/

/-- The region a chunk occupies. -/
def Chunk.region (c : Chunk) : Region := ⟨c.mem, CHUNK_SIZE⟩

/-- The regions of the chunks of a heap. -/
def Heap.regions (h : Heap) : List Region := h.chunks.map Chunk.region

/-- **Every live region is a chunk of one of the heaps, and every chunk is
live.** -/
def VM.OwnsChunks (al : Allocator) (vm : VM) : Prop :=
  vm.store.Owns al (vm.heapA.regions ++ vm.heapB.regions)

/-- The same of one heap, beside the regions of the other. -/
def OwnsBeside (al : Allocator) (others : List Region) (sp : Space) : Prop :=
  sp.store.Owns al (sp.heap.regions ++ others)

/-! ## §2. Memory. -/

section OnMemory

/-- Neither `malloc` nor `free` is called. -/
def KeepsRegions {α : Type} (x : EStateM Fault Store α) : Prop :=
  ∀ I : Store → Prop, OfRegions I → Preserves I x

theorem load_keepsRegions (a : Nat) : KeepsRegions (load a) := fun _ _ => load_preserves a

theorem store_keepsRegions (a : Nat) (w : Word) : KeepsRegions (store a w) :=
  fun _ hI => store_preserves hI a w

theorem markObject_keepsRegions (r : Word) : KeepsRegions (markObject r) := by
  intro I hI
  unfold markObject
  split
  · exact (load_preserves _).bind fun _ => (store_preserves hI _ _).bind fun _ => Preserves.pure _
  · exact Preserves.pure _

theorem walkChunk_preserves {I : Store → Prop} (c : Chunk) (rounds : Nat) :
    ∀ i, Preserves I (walkChunk c rounds i) := by
  induction rounds with
  | zero =>
      intro i
      unfold walkChunk
      split
      · exact Preserves.throw _
      · exact Preserves.pure _
  | succ rounds ih =>
      intro i
      unfold walkChunk
      split
      · exact (load_preserves _).bind fun _ => (ih _).bind fun _ => Preserves.pure _
      · exact Preserves.pure _

theorem getAllObjects_keepsRegions (chunks : List Chunk) : KeepsRegions (getAllObjects chunks) := by
  intro I hI
  induction chunks with
  | nil => exact Preserves.pure _
  | cons c cs ih =>
      exact (walkChunk_preserves c _ _).bind fun _ => ih.bind fun _ => Preserves.pure _

theorem interiorSlots_keepsRegions (object : Nat) : KeepsRegions (interiorSlots object) := by
  intro I hI
  refine (load_preserves _).bind fun w => ?_
  split
  · refine (load_preserves _).bind fun array => ?_
    split
    · exact Preserves.pure _
    · exact Preserves.pure _
  · exact Preserves.pure _

end OnMemory

/-! ## §3. Memory and a heap. -/

section OnSpace

variable {al : Allocator} {others : List Region}

/-- What keeps the regions keeps the ownership. -/
theorem inStore_owns {α : Type} {x : EStateM Fault Store α} (h : KeepsRegions x) :
    Preserves (OwnsBeside al others) (inStore x) :=
  Preserves.zoom_of (J := fun sp s => s.Owns al (sp.heap.regions ++ others)) (fun _ hs => hs)
    (fun _ _ _ ht => ht) fun _ => h _ (Store.Owns.ofRegions _ _)

/-- A new chunk is a new region. -/
theorem allocNewChunk_owns : Preserves (OwnsBeside al others) allocNewChunk := by
  intro sp howns
  cases hplace : sp.store.allocator.place sp.store.calls CHUNK_SIZE sp.store.live with
  | none =>
      rw [allocNewChunk_refused hplace]
      exact howns.of_live rfl rfl
  | some a =>
      rw [allocNewChunk_ok hplace]
      refine (howns.malloc (by decide) hplace).perm ?_
      -- it stands behind the others of its heap
      show List.Perm (_ :: (sp.heap.regions ++ others)) ((sp.heap.chunks ++ [_]).map _ ++ others)
      rw [List.map_append, List.map_singleton, List.append_assoc]
      exact List.perm_middle.symm

/-- Using more of the last chunk changes no region. -/
theorem placeInLast_owns (total type : Nat) :
    Preserves (OwnsBeside al others) (placeInLast total type) := by
  intro sp howns
  unfold placeInLast
  rw [get_bind]
  simp only
  cases hlast : sp.heap.chunks.getLast? with
  | none => exact howns
  | some c =>
      have hsame : (sp.heap.chunks.dropLast ++ [{ c with used := (c.used + total) % 2 ^ 64 }]).map
          Chunk.region = sp.heap.regions := by
        obtain ⟨cs, hcs⟩ := List.getLast?_eq_some_iff.1 hlast
        unfold Heap.regions
        rw [hcs, List.dropLast_concat, List.map_append, List.map_append]
        rfl
      -- up to the end the heap is `sp.heap`, or has its regions
      have hkeep : Preserves (fun sp' : Space => sp'.store.Owns al (sp.heap.regions ++ others) ∧
          sp'.heap.regions = sp.heap.regions) (do
            inStore (store ((c.mem + c.used) % 2 ^ 64) (headerWord total type 0))
            inStore (store ((c.mem + c.used) % 2 ^ 64 + 8) 0)
            modify fun sp' =>
              { sp' with
                heap :=
                  { sp.heap with
                    chunks := sp.heap.chunks.dropLast
                      ++ [{ c with used := (c.used + total) % 2 ^ 64 }]
                    totalAllocated := (sp.heap.totalAllocated + total) % 2 ^ 64 } }
            return (c.mem + c.used) % 2 ^ 64 + SIZEOF_OBJ_HEADER : EStateM Fault Space Nat) := by
        have hstore : ∀ a w, Preserves (fun sp' : Space =>
            sp'.store.Owns al (sp.heap.regions ++ others) ∧ sp'.heap.regions = sp.heap.regions)
            (inStore (store a w)) := fun a w =>
          Preserves.zoom (J := fun s => s.Owns al (sp.heap.regions ++ others)) (fun _ hs => hs.1)
            (fun _ _ hs ht => ⟨ht, hs.2⟩) (store_keepsRegions a w _ (Store.Owns.ofRegions _ _))
        refine (hstore _ _).bind fun _ => (hstore _ _).bind fun _ => ?_
        exact Preserves.bind (Preserves.modify fun _ hs => ⟨hs.1, hsame⟩) fun _ => Preserves.pure _
      obtain ⟨hstill, hregions⟩ := hkeep sp ⟨howns, rfl⟩
      unfold OwnsBeside
      rw [← hregions] at hstill
      exact hstill

/-- An allocation owns what it takes. -/
theorem heapAlloc_owns (size type : Nat) :
    Preserves (OwnsBeside al others) (heapAlloc size type) := by
  refine Preserves.get.bind fun sp => ?_
  simp only
  split
  · exact allocNewChunk_owns.bind fun _ => placeInLast_owns _ _
  · exact (Preserves.pure _).bind fun _ => placeInLast_owns _ _

/-- Freed chunks are owned no longer. -/
theorem freeChunks_owns (chunks : List Chunk) : ∀ s : Store,
    s.Owns al (chunks.map Chunk.region ++ others) →
      ∃ s', freeChunks chunks s = .ok () s' ∧ s'.Owns al others := by
  -- on the chunks: each `free` takes the first region off the list
  induction chunks with
  | nil => exact fun s howns => ⟨s, rfl, howns⟩
  | cons c cs ih =>
      intro s howns
      rw [List.map_cons, List.cons_append] at howns
      obtain ⟨s', hrun, howns'⟩ := ih _ howns.free
      exact ⟨s', hrun, howns'⟩

/-- **Freeing a heap** leaves the regions of the other. -/
theorem freeHeap_owns {sp : Space} (howns : OwnsBeside al others sp) :
    ∃ s', freeHeap sp = .ok () ⟨s', { sp.heap with chunks := [], totalAllocated := 0 }⟩ ∧
      s'.Owns al others := by
  obtain ⟨s', hrun, howns'⟩ := freeChunks_owns sp.heap.chunks sp.store howns
  refine ⟨s', ?_, howns'⟩
  unfold freeHeap
  rw [get_bind, bind_ok (inStore_ok hrun)]
  rfl

theorem evacuate_owns (obj : Nat) (w : Word) : Preserves (OwnsBeside al others) (evacuate obj w) :=
  (heapAlloc_owns _ _).bind fun _ =>
    (inStore_owns fun _ hI => memcpy_preserves hI _ _ _).bind fun _ =>
      inStore_owns (store_keepsRegions _ _)

theorem moveChunk_owns (c : Chunk) (rounds : Nat) :
    ∀ i, Preserves (OwnsBeside al others) (moveChunk c rounds i) := by
  have hload : ∀ a, Preserves (OwnsBeside al others) (inStore (load a)) := fun a =>
    inStore_owns (load_keepsRegions a)
  induction rounds with
  | zero =>
      intro i
      unfold moveChunk
      split
      · exact Preserves.throw _
      · exact Preserves.pure _
  | succ rounds ih =>
      intro i
      unfold moveChunk
      split
      · refine (hload _).bind fun w => ?_
        simp only
        split
        · exact (evacuate_owns _ _).bind fun _ => (hload _).bind fun _ => ih _
        · exact (hload _).bind fun _ => ih _
      · exact Preserves.pure _

/-- Moving owns what it takes. -/
theorem moveObjects_owns (chunks : List Chunk) :
    Preserves (OwnsBeside al others) (moveObjects chunks) := by
  induction chunks with
  | nil => exact Preserves.pure _
  | cons c cs ih => exact (moveChunk_owns c _ _).bind fun _ => ih

end OnSpace

/-! ## §4. The machine. -/

section OnMachine

variable {al : Allocator} {vm vm' : VM}

/-- What keeps the regions keeps the machine's ownership. -/
theorem onStore_owns {α : Type} {x : EStateM Fault Store α} (h : KeepsRegions x) :
    Preserves (VM.OwnsChunks al) (onStore x) :=
  Preserves.zoom_of (J := fun vm s => s.Owns al (vm.heapA.regions ++ vm.heapB.regions))
    (fun _ hs => hs) (fun _ _ _ ht => ht) fun _ => h _ (Store.Owns.ofRegions _ _)

/-- What one heap owns beside the other. -/
theorem VM.ownsChunks_iff (half : Half) :
    vm.OwnsChunks al ↔ OwnsBeside al (vm.heap half.other).regions ⟨vm.store, vm.heap half⟩ := by
  cases half with
  | A => exact Iff.rfl
  | B => exact ⟨fun h => h.perm List.perm_append_comm, fun h => h.perm List.perm_append_comm⟩

/-- So does what a half does beside the other one. -/
theorem onHeap_owns {α : Type} {half : Half} {x : EStateM Fault Space α}
    (h : ∀ others, Preserves (OwnsBeside al others) x) :
    Preserves (VM.OwnsChunks al) (onHeap half x) := by
  refine Preserves.zoom_of (J := fun vm sp => OwnsBeside al (vm.heap half.other).regions sp)
    (fun vm hs => (VM.ownsChunks_iff half).1 hs) (fun vm sp _ hsp => ?_) fun _ => h _
  refine (VM.ownsChunks_iff half).2 ?_
  -- the other heap is as it was
  rw [VM.setStore_heap, VM.setStore_heap, VM.setHeap_heap, VM.setHeap_other]
  exact hsp

/-- Freeing a half leaves the other one's. -/
theorem freeHeap_ownsBeside (others : List Region) :
    Preserves (OwnsBeside al others) freeHeap := by
  intro sp howns
  obtain ⟨s', hrun, howns'⟩ := freeHeap_owns howns
  rw [hrun]
  exact howns'

/-- **Owning the chunks is an invariant of memory**, so a collection that stops
halfway loses no region either. -/
theorem ownsChunks_kept : KeptInMemory (VM.OwnsChunks al) where
  frame hstore hA hB howns := by
    unfold VM.OwnsChunks
    rw [hstore, hA, hB]
    exact howns
  load a := onStore_owns (load_keepsRegions a)
  store a w := onStore_owns (store_keepsRegions a w)
  fillWords dst w n := onStore_owns fun _ hI => fillWords_preserves hI dst w n
  markObject r := onStore_owns (markObject_keepsRegions r)
  getAllObjects chunks := onStore_owns (getAllObjects_keepsRegions chunks)
  interiorSlots object := onStore_owns (interiorSlots_keepsRegions object)
  heapAlloc _ size type := onHeap_owns fun _ => heapAlloc_owns size type
  moveObjects _ chunks := onHeap_owns fun _ => moveObjects_owns chunks
  freeHeap _ := onHeap_owns freeHeap_ownsBeside

/-- No instruction but `end` stops the machine. -/
theorem Effect.running {opcode : Opcode} {d : DecodedInstr} (h : Effect vm opcode d vm')
    (hend : opcode ≠ .opEnd) : vm'.running = vm.running := by
  cases h with
  | deref flag run => exact congrArg Control.running (mov_frame run).1
  | arr run =>
      obtain ⟨vm1, w, hrepointed, rfl⟩ := initArray_frame run
      exact congrArg Control.running hrepointed.control
  | arrins mapped => rfl
  | end_ => exact absurd rfl hend
  | _ => rfl

/-- **`end` frees everything.** -/
theorem end_owns {d : DecodedInstr} (howns : vm.OwnsChunks al)
    (h : executeOp .opEnd d vm = .ok () vm') :
    vm'.OwnsChunks al ∧ vm'.store.live = [] ∧
      ∀ half, (vm'.heap half).Empty ∧ (vm'.heap half).max = (vm.heap half).max := by
  have hprinted : VM.OwnsChunks al
      { vm with out := vm.out ++ printed (vm.reg d.ra), running := false } := howns
  obtain ⟨s1, hA, hs1⟩ := freeHeap_owns ((VM.ownsChunks_iff .A).1 hprinted)
  have hs1' : OwnsBeside al [] ⟨s1, vm.heapB⟩ := by
    unfold OwnsBeside
    rw [List.append_nil]
    exact hs1
  obtain ⟨s2, hB, hs2⟩ := freeHeap_owns hs1'
  have hend : endWith (vm.reg d.ra) vm
      = .ok () { vm with out := vm.out ++ printed (vm.reg d.ra) } := rfl
  have hrunA : onHeap .A freeHeap
      { vm with out := vm.out ++ printed (vm.reg d.ra), running := false } = .ok () _ :=
    onHeap_ok hA
  have h : (endWith (vm.reg d.ra) >>= fun _ =>
      (modify fun vm => { vm with running := false }) >>= fun _ =>
        onHeap .A freeHeap >>= fun _ => onHeap .B freeHeap : Exec Unit) vm = .ok () vm' := h
  rw [bind_ok hend, bind_ok (modify_apply _), bind_ok hrunA, onHeap_ok hB] at h
  injection h with _ hvm
  subst hvm
  refine ⟨hs2, hs2.empty, fun half => ?_⟩
  cases half with
  | A => exact ⟨⟨rfl, rfl⟩, rfl⟩
  | B => exact ⟨⟨rfl, rfl⟩, rfl⟩

end OnMachine

/-- `init` makes both heaps, and no chunk. -/
theorem initWith_owns {max : Nat} {file : Image} {allocator : Allocator} {fpu : Fpu} {vm : VM}
    (hinit : initWith max (VM.zeroed file allocator fpu) = .ok () vm) :
    vm.OwnsChunks allocator ∧ vm.store.live = [] := by
  obtain ⟨header, table, _, _, rfl⟩ := initWith_effect hinit
  exact ⟨⟨rfl, List.Perm.nil, List.Pairwise.nil, fun r hr => absurd hr List.not_mem_nil⟩, rfl⟩

end SproutLang
