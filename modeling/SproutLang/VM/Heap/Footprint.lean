/-
  SproutLang.VM.Heap.Footprint
  ────────────────────────────
  **HOW MANY CHUNKS A HEAP TAKES, AND WHEN IT GETS NONE.**

  `heapAlloc` opens a chunk where the last one has no room, so two neighbours
  hold more than a chunk could and the chunks are as many as the bytes ask
  for.  The move phase of a collection packs the copies in the same way, and
  copies no more than there is: wherever `malloc` refuses it a chunk, neither
  half is larger than the old one was.

    • `Heap.Packed.chunks_le` — bytes bound chunks,
    • `collect_grows`         — a collection leaves a packed heap, and what both
                                halves hold when it runs out of memory,
    • `VM.OwnsChunks.refused` — how many chunks an allocator has handed out that
                                refuses one.
-/
import SproutLang.VM.Heap.ArrayAllocation
import SproutLang.VM.Heap.TwoSpace
import SproutLang.VM.Ownership

namespace SproutLang

open Library

/-! ## §1. Packed heaps. -/

/-- Neighbouring chunks of the heap hold together more than one could. -/
def Heap.Packed (h : Heap) : Prop := Library.Packed CHUNK_SIZE (h.chunks.map Chunk.used)

/-- The chunks that `n` bytes can take. -/
def chunksFor (n : Nat) : Nat := 2 * n / (CHUNK_SIZE + 1) + 1

section Packing

variable {s : Store} {h : Heap} {rows rows' : List HeapRow} {sp sp' : Space} {x : Obj} {p : Nat}

theorem Heap.Empty.packed (hempty : h.Empty) : h.Packed := by
  unfold Heap.Packed
  rw [hempty.1]
  exact List.IsChain.nil

/-- The chunks' counters are those of the rows. -/
theorem Counts.used_eq (hcounts : Counts h rows) :
    h.chunks.map Chunk.used = rows.map (Row.used Obj.size) := by
  rw [hcounts.chunks, List.map_map]
  rfl

/-- The bytes in use, chunk by chunk. -/
def Heap.used (h : Heap) : Nat := (h.chunks.map Chunk.used).sum

/-- They add up to the heap's counter. -/
theorem Counts.used (hcounts : Counts h rows) : h.used = h.totalAllocated := by
  unfold Heap.used
  rw [hcounts.used_eq, hcounts.total]

/-- **The bytes bound the chunks.** -/
theorem Heap.Packed.chunks_le (hpacked : h.Packed) {n : Nat} (hn : h.used ≤ n) :
    h.chunks.length ≤ chunksFor n := by
  have hlength := Packed.length_le hpacked hn
  rw [List.length_map] at hlength
  exact hlength

/-- An allocation keeps a heap packed. -/
theorem Allocated.packed (hall : Allocated sp sp' rows rows' x p) (hcounts : Counts sp.heap rows)
    (hpacked : sp.heap.Packed) : sp'.heap.Packed := by
  unfold Heap.Packed at hpacked ⊢
  rw [hcounts.used_eq] at hpacked
  rw [hall.represents.counts.used_eq]
  exact hall.bump.packed hpacked

/-- The counter grows by the block's size. -/
theorem Allocated.total (hall : Allocated sp sp' rows rows' x p) (hcounts : Counts sp.heap rows) :
    sp'.heap.totalAllocated = sp.heap.totalAllocated + x.size := by
  rw [hall.represents.counts.total, hall.bump.used_eq, hcounts.total]

end Packing

/-! ## §2. Refusals. -/

/-- `malloc` refuses a chunk. -/
def ChunkRefused (s : Store) : Prop := ∃ n, s.allocator.place n CHUNK_SIZE s.live = none

/-- Who runs out of memory has been refused a chunk. -/
def OutOfChunks (e : Fault) (sp : Space) : Prop := e = .badAlloc → ChunkRefused sp.store

section Refusing

variable {σ α : Type}

theorem copyWords_neverThrows (dst src n : Nat) : NeverThrows (copyWords dst src n) := by
  induction n with
  | zero => exact Raises.pure _
  | succ n ih =>
      exact ih.bind fun _ => (load_neverThrows _).bind fun _ => store_neverThrows _ _

theorem memcpy_neverThrows (dst src bytes : Nat) : NeverThrows (memcpy dst src bytes) := by
  refine (copyWords_neverThrows dst src _).bind fun _ => ?_
  split
  · exact (load_neverThrows _).bind fun _ => (load_neverThrows _).bind fun _ =>
      store_neverThrows _ _
  · exact Raises.pure _

/-- What throws nothing does not run out of memory. -/
theorem NeverThrows.outOfChunks {x : EStateM Fault Space α} (h : NeverThrows x) :
    StopsIn OutOfChunks x :=
  Raises.stopsIn h fun e _ he hbad => absurd (by rw [hbad]; trivial) he

/-- An allocation fails only where `malloc` does. -/
theorem heapAlloc_stops (size type : Nat) : StopsIn OutOfChunks (heapAlloc size type) := by
  intro sp e sp' hrun he
  subst he
  rcases heapAlloc_cases size type sp with ⟨hrefuses, hrefused⟩ | ⟨-, -, hthrows⟩
  · rw [hrun] at hrefused
    injection hrefused with _ hsp
    subst hsp
    exact ⟨_, hrefuses.2⟩
  · exact absurd trivial (hthrows _ _ hrun)

/-- So does an evacuation. -/
theorem evacuate_stops (obj : Nat) (w : Word) : StopsIn OutOfChunks (evacuate obj w) :=
  (heapAlloc_stops _ _).bind fun _ =>
    (NeverThrows.outOfChunks (memcpy_neverThrows _ _ _).zoom).bind fun _ =>
      NeverThrows.outOfChunks (store_neverThrows _ _).zoom

/-- So does moving a chunk. -/
theorem moveChunk_stops (c : Chunk) (rounds : Nat) :
    ∀ i, StopsIn OutOfChunks (moveChunk c rounds i) := by
  have hload : ∀ a, StopsIn OutOfChunks (inStore (load a)) := fun a =>
    NeverThrows.outOfChunks (load_neverThrows a).zoom
  -- on the rounds of the loop
  induction rounds with
  | zero =>
      intro i
      unfold moveChunk
      split
      · exact StopsIn.throw fun _ hbad => absurd hbad (by simp)
      · exact StopsIn.pure _
  | succ rounds ih =>
      intro i
      unfold moveChunk
      split
      · refine (hload _).bind fun w => ?_
        simp only
        split
        · exact (evacuate_stops _ _).bind fun _ => (hload _).bind fun _ => ih _
        · exact (hload _).bind fun _ => ih _
      · exact StopsIn.pure _

/-- So does moving all. -/
theorem moveObjects_stops (chunks : List Chunk) : StopsIn OutOfChunks (moveObjects chunks) := by
  induction chunks with
  | nil => exact StopsIn.pure _
  | cons c cs ih => exact (moveChunk_stops c _ _).bind fun _ => ih

end Refusing

/-! ## §3. The move phase. -/

/-- The other half while it is filled: packed, and no larger than the old one. -/
structure Growing (old : List HeapRow) (h : Heap) : Prop where
  packed : h.Packed
  used : h.used ≤ (old.map (Row.used Obj.size)).sum

section Move

variable {s0 s : Store} {m : Nat} {old rows : List HeapRow} {marks : List Nat}
  {done later : List (Nat × Obj)} {sp sp' : Space} {p : Nat × Obj}

/-- Only what has been walked over is copied. -/
theorem Evacuated.growing (h : Evacuated s m marks done sp rows)
    (hsplit : heapObjects old = done ++ later) (hpacked : sp.heap.Packed) :
    Growing old sp.heap where
  packed := hpacked
  used := by
    have hcopies : (flagged marks done).map (fun b => b.2.size)
        = (heapObjects rows).map (fun b => b.2.size) := by
      rw [← List.forall₂_eq_eq_eq, List.forall₂_map_left_iff, List.forall₂_map_right_iff]
      exact h.copies.imp fun u v hc => by rw [hc.obj]
    have hfew : ((flagged marks done).map (fun b => b.2.size)).sum
        ≤ (done.map (fun b => b.2.size)).sum :=
      (List.filter_sublist.map _).sum_le_sum fun _ _ => Nat.zero_le _
    rw [h.represents.counts.used, h.represents.counts.total, used_sum, used_sum, ← hcopies, hsplit,
      List.map_append, List.sum_append]
    omega

/-- An object that found no chunk has changed no counter. -/
theorem evacuate_refused {obj : Nat} {w : Word}
    (h : evacuate obj w sp = .error .badAlloc sp') : sp'.heap = sp.heap := by
  unfold evacuate at h
  rcases bind_eq_error.1 h with halloc | ⟨a, sp1, _, hrest⟩
  · rcases heapAlloc_cases ((objSize w + 2 ^ 64 - SIZEOF_OBJ_HEADER) % 2 ^ 64) (objType w) sp with
      ⟨-, hrefused⟩ | ⟨-, -, hthrows⟩
    · rw [halloc] at hrefused
      injection hrefused with _ hsp
      rw [hsp]
    · exact absurd trivial (hthrows _ _ halloc)
  · -- copying throws nothing
    have hnever : NeverThrows (do
        inStore (memcpy a (obj + SIZEOF_OBJ_HEADER)
          ((objSize w + 2 ^ 64 - SIZEOF_OBJ_HEADER) % 2 ^ 64))
        inStore (store (obj + 8) (encodePointer (BitVec.ofNat 64 a)))) :=
      (memcpy_neverThrows _ _ _).zoom.bind fun _ => (store_neverThrows _ _).zoom
    exact absurd trivial (hnever _ _ _ hrest)

/-- An evacuation keeps the new heap packed. -/
theorem evacuate_packs (h : Evacuated s m marks done sp rows) (hg : Geometry s old)
    (hp : p ∈ heapObjects old) {w : Word} (hsize : objSize w = p.2.size)
    (htype : objType w = p.2.type) (hpacked : sp.heap.Packed)
    (hrun : evacuate p.1 w sp = .ok () sp') : sp'.heap.Packed := by
  rcases evacuate_run h hg hp hsize htype with ⟨sp1, hfail⟩ | ⟨sp1, s', rows', q, hok, hall, _⟩
  · rw [hrun] at hfail
    exact absurd hfail (by simp)
  · rw [hrun] at hok
    injection hok with _ hsp
    subst hsp
    exact hall.packed h.represents.counts hpacked

/-- **One chunk**, whether the walk comes to its end or not. -/
theorem moveChunk_grows (hm : MarkedBy s0 s old marks) (hg0 : Geometry s0 old) {r : HeapRow}
    (hr : r ∈ old) (rest : List Obj) :
    ∀ passed done later rounds sp rows, r.items = passed ++ rest →
      heapObjects old
        = done ++ (placed Obj.size (r.base + extent Obj.size passed) rest ++ later) →
      rest.length ≤ rounds → Evacuated s m marks done sp rows → sp.heap.Packed →
      ∀ sp', moveChunk (toChunk r) rounds (extent Obj.size passed) sp = .ok () sp' ∨
        moveChunk (toChunk r) rounds (extent Obj.size passed) sp = .error .badAlloc sp' →
        Growing old sp'.heap := by
  have hg := hm.geometry hg0
  -- on the items not yet passed, as in `moveChunk_spec`
  induction rest with
  | nil =>
      intro passed done later rounds sp rows hitems hsplit _ h hpacked sp' hrun
      have hend : ¬ extent Obj.size passed < (toChunk r).used := by
        rw [walk_end hitems]
        exact Nat.lt_irrefl _
      rw [moveChunk_end hend] at hrun
      rcases hrun with hok | hfail
      · injection hok with _ hsp
        rw [← hsp]
        exact h.growing hsplit hpacked
      · exact absurd hfail (by simp)
  | cons o rest ih =>
      intro passed done later rounds sp rows hitems hsplit hrounds h hpacked sp' hrun
      have hall : heapObjects old = done ++ (r.base + extent Obj.size passed, o) ::
          (placed Obj.size (r.base + extent Obj.size passed + o.size) rest ++ later) := by
        rw [hsplit]
        rfl
      have hnext := NextObject.of_split hg hall
      have hoff := hnext.off_forwarded hg
      have hhead : 16 ≤ o.size := (hg.wellSized hnext.mem).header
      obtain ⟨hlt, hmod⟩ := walk_step hitems (hg.arena.fits r hr) hhead
      have hload : inStore (load (r.base + extent Obj.size passed)) sp
          = .ok (s.word (r.base + extent Obj.size passed)) sp :=
        h.load_header hg hnext.mem fun u hu => hoff u (List.mem_append_left _ hu)
      have hsize : objSize (s.word (r.base + extent Obj.size passed)) = o.size :=
        hm.objSize_eq hg0 hnext.mem
      have htype := hm.objType_eq hg0 hnext.mem
      have hflags := hm.objFlags_eq hg0 hnext.mem
      have hbehind : extent Obj.size (passed ++ [o]) = extent Obj.size passed + o.size :=
        extent_concat Obj.size passed o
      have hsplit' : heapObjects old = done ++ [(r.base + extent Obj.size passed, o)]
          ++ (placed Obj.size (r.base + extent Obj.size (passed ++ [o])) rest ++ later) := by
        rw [hall, hbehind, ← Nat.add_assoc]
        simp
      cases rounds with
      | zero => exact absurd hrounds (by simp)
      | succ rounds =>
          have hrounds' : rest.length ≤ rounds := by simpa using hrounds
          have hitems' : r.items = passed ++ [o] ++ rest := by
            rw [hitems]
            simp
          by_cases hmark : r.base + extent Obj.size passed ∈ marks
          · rw [if_pos hmark] at hflags
            rcases evacuate_spec h hg hnext.mem hnext.passed hnext.beside hmark hsize htype with
              ⟨sp1, hfail⟩ | ⟨sp1, rows1, hok, h1⟩
            · -- the walk ends here
              rw [moveChunk_fails hlt hload hflags hfail] at hrun
              rcases hrun with hok | hstop
              · exact absurd hok (by simp)
              · injection hstop with _ hsp
                subst hsp
                rw [evacuate_refused hfail]
                exact h.growing hsplit hpacked
            · have hpacked1 := evacuate_packs h hg hnext.mem hsize htype hpacked hok
              rw [moveChunk_marked hlt hload hflags hok (h1.load_header hg hnext.mem hoff), hsize,
                hmod] at hrun
              exact ih _ _ later rounds sp1 rows1 hitems' hsplit' hrounds' h1 hpacked1 sp' hrun
          · rw [if_neg hmark] at hflags
            rw [moveChunk_skipped hlt hload (by rw [hflags]; decide), hsize, hmod] at hrun
            exact ih _ _ later rounds sp rows hitems' hsplit' hrounds' (h.skip hmark) hpacked sp'
              hrun

/-- **The move phase**, from the chunks `past` on. -/
theorem moveObjects_grows (hm : MarkedBy s0 s old marks) (hg0 : Geometry s0 old)
    (rest : List HeapRow) :
    ∀ past sp rows, old = past ++ rest → Evacuated s m marks (heapObjects past) sp rows →
      sp.heap.Packed → ∀ sp', moveObjects (rest.map toChunk) sp = .ok () sp' ∨
        moveObjects (rest.map toChunk) sp = .error .badAlloc sp' → Growing old sp'.heap := by
  induction rest with
  | nil =>
      intro past sp rows hold h hpacked sp' hrun
      rcases hrun with hok | hfail
      · injection hok with _ hsp
        rw [← hsp]
        have hsplit : heapObjects old = heapObjects past ++ [] := by
          rw [hold, List.append_nil, List.append_nil]
        exact h.growing hsplit hpacked
      · exact absurd hfail (by simp [moveObjects])
  | cons r rest ih =>
      intro past sp rows hold h hpacked sp' hrun
      have hr : r ∈ old := by
        rw [hold]
        exact List.mem_append_right _ List.mem_cons_self
      have hlen : r.items.length ≤ (toChunk r).used := length_le_extent Obj.size fun o ho => by
        have := (hg0.sized r hr o ho).header
        omega
      have hsplit : heapObjects old = heapObjects past ++
          (placed Obj.size (r.base + extent Obj.size []) r.items ++ heapObjects rest) := by
        rw [hold]
        simp
      have hpast : heapObjects past ++ placed Obj.size (r.base + extent Obj.size []) r.items
          = heapObjects (past ++ [r]) := by simp
      have hchunk := moveChunk_spec hm hg0 hr r.items [] (heapObjects past) (heapObjects rest)
        (toChunk r).used sp rows rfl hsplit hlen h
      have hgrows := moveChunk_grows hm hg0 hr r.items [] (heapObjects past) (heapObjects rest)
        (toChunk r).used sp rows rfl hsplit hlen h hpacked
      rw [extent_nil] at hchunk hgrows
      rw [List.map_cons] at hrun
      unfold moveObjects at hrun
      rcases hchunk with ⟨sp1, hfail⟩ | ⟨sp1, rows1, hok, h1⟩
      · rw [bind_error hfail] at hrun
        rcases hrun with hrun | hrun
        · exact absurd hrun (by simp)
        · injection hrun with _ hsp
          subst hsp
          exact hgrows _ (Or.inr hfail)
      · rw [bind_ok hok] at hrun
        exact ih (past ++ [r]) sp1 rows1 (by rw [hold]; simp) (by rw [← hpast]; exact h1)
          (hgrows _ (Or.inl hok)).packed sp' hrun

end Move

/-! ## §4. A collection. -/

/-- **What a collection leaves that was refused a chunk**: the old half, and in
the other the copies made so far. -/
structure HalfCollected (vm vm' : VM) (rows : List HeapRow) : Prop where
  old : vm'.heap vm.active = vm.heap vm.active
  growing : Growing rows (vm'.heap vm.active.other)
  refused : ChunkRefused vm'.store

section Collect

variable {vm vm' : VM} {rows : List HeapRow}

/-- **A collection packs the new half**, and may be refused a chunk only while
it does. -/
theorem collect_grows (hrep : Represents vm.store (vm.heap vm.active) rows)
    (hempty : (vm.heap vm.active.other).Empty) (hscan : Scannable vm rows) :
    (∀ vm', compactingGarbageCollect vm = .error .badAlloc vm' → HalfCollected vm vm' rows) ∧
    (∀ vm', compactingGarbageCollect vm = .ok () vm' → (vm'.heap vm.active.other).Packed) := by
  have hg := hrep.geometry
  obtain ⟨s1, hmark, hm⟩ := markObjects_ok hrep hscan
  have hactive1 : (vm.setStore s1).active = vm.active := rfl
  have hspace : (⟨(vm.setStore s1).store, (vm.setStore s1).heap vm.active.other⟩ : Space)
      = ⟨s1, vm.heap vm.active.other⟩ := by
    rw [VM.setStore_heap]
    rfl
  have hgrows := moveObjects_grows hm hg rows [] ⟨s1, vm.heap vm.active.other⟩ [] rfl
    (Evacuated.start hempty) hempty.packed
  unfold compactingGarbageCollect
  rw [bind_ok hmark, get_bind]
  simp only [hactive1, VM.setStore_heap, hrep.counts.chunks]
  rcases moveObjects_spec hm hg rows [] ⟨s1, vm.heap vm.active.other⟩ [] rfl
    (Evacuated.start hempty) with ⟨sp', hfail⟩ | ⟨sp2, rows', hmoved, he⟩
  · -- refused: the halves are as the move phase left them
    have hgrowing := hgrows sp' (Or.inr hfail)
    have hrefused := moveObjects_stops _ _ _ _ hfail rfl
    rw [← hspace] at hfail
    rw [bind_error (onHeap_error hfail)]
    constructor
    · intro vm' hrun
      injection hrun with _ hvm
      subst hvm
      refine ⟨by simp, ?_, hrefused⟩
      rw [VM.setStore_heap, VM.setHeap_heap]
      exact hgrowing
    · exact fun vm' hrun => absurd hrun (by simp)
  · have hgrowing := hgrows sp2 (Or.inl hmoved)
    rw [← hspace] at hmoved
    rw [bind_ok (onHeap_ok hmoved)]
    generalize hvm2 : ((vm.setStore s1).setHeap vm.active.other sp2.heap).setStore sp2.store = vm2
    obtain ⟨vm3, hpatch, hp⟩ := patchPhase hm hg hscan he
      (show vm2.reg = vm.reg by rw [← hvm2]; simp)
      (show vm2.stack = vm.stack by rw [← hvm2]; simp)
      (show vm2.store = sp2.store by rw [← hvm2]; rfl)
    have hchunks : (vm3.heap vm.active).chunks = rows.map toChunk := by
      rw [hp.heap, ← hvm2]
      simp [hrep.counts.chunks]
    have hnew : vm3.heap vm.active.other = sp2.heap := by
      rw [hp.heap, ← hvm2]
      simp
    rw [bind_ok (updatePtrHolder_ok hpatch hchunks)]
    constructor
    · exact fun vm' hrun => absurd hrun (by simp)
    · intro vm' hrun
      injection hrun with _ hvm
      subst hvm
      show (VM.heap (vm3.released vm.active rows).flip _).Packed
      rw [VM.flip_heap]
      unfold VM.released
      rw [VM.setStore_heap, VM.setHeap_other, hnew]
      exact hgrowing.packed

end Collect

/-! ## §5. What the allocator has to supply. -/

section Supply

variable {al : Allocator} {count : Nat} {vm : VM}

/-- As many regions are live as there are chunks. -/
theorem VM.OwnsChunks.live_length (howns : vm.OwnsChunks al) :
    vm.store.live.length = vm.heapA.chunks.length + vm.heapB.chunks.length := by
  have hlength := howns.length_eq
  unfold Heap.regions at hlength
  rw [List.length_append, List.length_map, List.length_map] at hlength
  exact hlength

/-- An allocator that supplies `count` chunks refuses one only to a machine
that has them. -/
theorem VM.OwnsChunks.refused (howns : vm.OwnsChunks al) (hsupply : al.Supplies CHUNK_SIZE count)
    (hrefused : ChunkRefused vm.store) :
    count ≤ vm.heapA.chunks.length + vm.heapB.chunks.length := by
  obtain ⟨n, hnone⟩ := hrefused
  have hlength := howns.live_length
  by_contra hfew
  have hsizes : ∀ r ∈ vm.store.live, r.size = CHUNK_SIZE := by
    intro r hr
    have hmem := howns.exact.mem_iff.1 hr
    rcases List.mem_append.1 hmem with hmem | hmem
    · obtain ⟨c, _, rfl⟩ := List.mem_map.1 hmem
      rfl
    · obtain ⟨c, _, rfl⟩ := List.mem_map.1 hmem
      rfl
  have hsome := hsupply n vm.store.live hsizes (by omega)
  rw [← howns.managed, hnone] at hsome
  exact Bool.false_ne_true hsome

/-- The chunks of both halves, whichever is active. -/
theorem VM.chunks_length (vm : VM) (half : Half) :
    vm.heapA.chunks.length + vm.heapB.chunks.length
      = (vm.heap half).chunks.length + (vm.heap half.other).chunks.length := by
  cases half with
  | A => rfl
  | B => exact Nat.add_comm _ _

end Supply

end SproutLang
