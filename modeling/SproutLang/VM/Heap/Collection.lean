/-
  SproutLang.VM.Heap.Collection
  ─────────────────────────────
  **ONE COLLECTION, FROM END TO END.**

  Patching writes to every slot found the `forwarded` field of the object
  it named (`patchSlots_ok`); freeing drops the old chunks and keeps the new
  ones (`freeHeap_ok`).  `collect_spec` puts the four phases together: what
  the registers, the stack and the new active heap hold afterwards, in terms
  of the state before.
-/
import SproutLang.VM.Heap.Evacuation

namespace SproutLang

open Library

/-! ## §1. Writing to a slot. -/

namespace Slot

/-- The machine with the word of a slot replaced. -/
def put (vm : VM) : Slot → Word → VM
  | .reg r, w => vm.setReg r w
  | .stack i, w => vm.setSlot i w
  | .heap a, w => vm.setStore (vm.store.put a w)

variable {vm : VM} {s t : Slot} {w : Word}

/-- A readable slot can be written. -/
theorem write_ok (h : s.Readable vm) : s.write w vm = .ok () (s.put vm w) := by
  cases s with
  | reg r => rfl
  | stack i => exact if_pos h
  | heap a => exact onStore_store h

theorem put_value : s.value (s.put vm w) = w := by
  cases s with
  | reg r => exact VM.setReg_self ..
  | stack i => exact VM.setSlot_self ..
  | heap a => exact Store.put_word ..

/-- A write leaves the other slots. -/
theorem put_value_of_ne (h : t ≠ s) : t.value (s.put vm w) = t.value vm := by
  cases s with
  | reg r =>
      cases t with
      | reg r' => exact VM.setReg_of_ne (fun heq => h (by rw [heq]))
      | stack i => rfl
      | heap a => rfl
  | stack i =>
      cases t with
      | reg r' => rfl
      | stack j => exact VM.setSlot_of_ne (fun heq => h (by rw [heq]))
      | heap a => rfl
  | heap a =>
      cases t with
      | reg r' => rfl
      | stack j => rfl
      | heap b => exact Store.put_word_of_ne (fun heq => h (by rw [heq]))

/-- And what is readable. -/
theorem put_readable : t.Readable (s.put vm w) ↔ t.Readable vm := by
  cases s <;> cases t <;> exact Iff.rfl

end Slot

/-! ## §2. Patching. -/

/-- **Only the words of the listed slots changed.** -/
structure Patched (vm vm' : VM) (slots : List Slot) (new : Slot → Word) : Prop where
  written : ∀ s ∈ slots, s.value vm' = new s
  kept : ∀ s, s ∉ slots → s.value vm' = s.value vm
  store : vm'.store = { vm.store with word := vm'.store.word }
  heap : ∀ half, vm'.heap half = vm.heap half
  active : vm'.active = vm.active
  control : vm'.control = vm.control

/-- The field patching reads for a slot. -/
def Slot.forwardedAt (vm : VM) (s : Slot) : Nat := headerOf (decodePointer (s.value vm)) + 8

/-- A slot gets the new address of its object. -/
theorem patchSlot_ok {vm : VM} {s : Slot} (hs : s.Readable vm)
    (hfwd : vm.store.Mapped (s.forwardedAt vm)) :
    patchSlot s vm = .ok () (s.put vm (vm.store.word (s.forwardedAt vm))) := by
  have hload : onStore (load (headerOf (decodePointer (s.value vm)) + 8)) vm
      = .ok (vm.store.word (s.forwardedAt vm)) vm := onStore_load hfwd
  unfold patchSlot
  rw [bind_ok (Slot.read_ok hs), bind_ok hload]
  exact Slot.write_ok hs

/-- **Patching** gives every slot the word its object has in `forwarded`. -/
theorem patchSlots_ok (slots : List Slot) :
    ∀ vm : VM, slots.Nodup → (∀ s ∈ slots, s.Readable vm) →
      (∀ s ∈ slots, vm.store.Mapped (s.forwardedAt vm)) →
      (∀ s ∈ slots, ∀ t ∈ slots, t ≠ .heap (s.forwardedAt vm)) →
      ∃ vm', patchSlots slots vm = .ok () vm' ∧
        Patched vm vm' slots (fun s => vm.store.word (s.forwardedAt vm)) := by
  -- on the slots: writing one leaves the others and all forwarding words alone
  induction slots with
  | nil =>
      intro vm _ _ _ _
      exact ⟨vm, rfl, fun s hs => absurd hs List.not_mem_nil, fun _ _ => rfl, rfl, fun _ => rfl,
        rfl, rfl⟩
  | cons s slots ih =>
      intro vm hnodup hread hmap hoff
      obtain ⟨hs, hnodup'⟩ := List.nodup_cons.1 hnodup
      -- the machine behind the first slot
      set vm1 := s.put vm (vm.store.word (s.forwardedAt vm)) with hvm1
      have hvalue : ∀ t ∈ slots, t.value vm1 = t.value vm := fun t ht =>
        Slot.put_value_of_ne (fun heq => hs (heq ▸ ht))
      have hfwd : ∀ t ∈ slots, t.forwardedAt vm1 = t.forwardedAt vm := by
        intro t ht
        unfold Slot.forwardedAt
        rw [hvalue t ht]
      have hlive : vm1.store = { vm.store with word := vm1.store.word } := by
        cases s <;> rfl
      have hmapped : ∀ a, vm1.store.Mapped a ↔ vm.store.Mapped a := by
        intro a
        rw [hlive]
        exact Iff.rfl
      -- the new address of the others is still where it was
      have hword : ∀ t ∈ slots, vm1.store.word (t.forwardedAt vm1)
          = vm.store.word (t.forwardedAt vm) := by
        intro t ht
        rw [hfwd t ht]
        have hne := hoff t (List.mem_cons_of_mem _ ht) s List.mem_cons_self
        have hkeep : (Slot.heap (t.forwardedAt vm)).value vm1
            = (Slot.heap (t.forwardedAt vm)).value vm := Slot.put_value_of_ne hne.symm
        exact hkeep
      obtain ⟨vm', hrun, hpatched⟩ := ih vm1 hnodup'
        (fun t ht => Slot.put_readable.2 (hread t (List.mem_cons_of_mem _ ht)))
        (fun t ht => by
          rw [hfwd t ht, hmapped]
          exact hmap t (List.mem_cons_of_mem _ ht))
        (fun t ht u hu => by
          rw [hfwd t ht]
          exact hoff t (List.mem_cons_of_mem _ ht) u (List.mem_cons_of_mem _ hu))
      refine ⟨vm', ?_, ?_, ?_, ?_, fun half => ?_, ?_, ?_⟩
      · unfold patchSlots
        rw [bind_ok (patchSlot_ok (hread s List.mem_cons_self) (hmap s List.mem_cons_self))]
        exact hrun
      · intro t ht
        rcases List.mem_cons.1 ht with rfl | ht
        · rw [hpatched.kept t hs]
          exact Slot.put_value
        · rw [hpatched.written t ht]
          exact hword t ht
      · intro t ht
        -- no slot of the list: kept by the rest and by `s`
        have hts : t ≠ s := fun heq => ht (heq ▸ List.mem_cons_self)
        rw [hpatched.kept t (fun hmem => ht (List.mem_cons_of_mem _ hmem))]
        exact Slot.put_value_of_ne hts
      · rw [hpatched.store, hlive]
      · rw [hpatched.heap half]
        cases s <;> simp [hvm1, Slot.put]
      · rw [hpatched.active]
        cases s <;> simp [hvm1, Slot.put]
      · rw [hpatched.control]
        cases s <;> simp [hvm1, Slot.put]

/-! ## §3. Freeing. -/

/-- The store without the regions of an arena. -/
def freed (s : Store) (rows : List HeapRow) : Store :=
  { s with live := s.live.filter (fun r => rows.all (fun r' => r.base ≠ r'.base)) }

/-- Freeing the chunks ends their regions. -/
theorem freeChunks_ok (rows : List HeapRow) :
    ∀ s : Store, freeChunks (rows.map toChunk) s = .ok () (freed s rows) := by
  induction rows with
  | nil =>
      intro s
      show EStateM.Result.ok () s = _
      simp [freed]
  | cons r rows ih =>
      intro s
      rw [List.map_cons]
      unfold freeChunks
      have hfree : free (toChunk r).mem s
          = .ok () { s with live := s.live.filter (fun r' => r'.base ≠ r.base) } := rfl
      rw [bind_ok hfree, ih]
      unfold freed
      simp only [List.filter_filter, List.all_cons]
      congr 3
      funext q
      exact Bool.and_comm ..

/-- A heap that is freed is empty. -/
theorem freeHeap_ok {sp : Space} {rows : List HeapRow}
    (h : sp.heap.chunks = rows.map toChunk) :
    freeHeap sp = .ok ()
      { store := freed sp.store rows
        heap := { sp.heap with chunks := [], totalAllocated := 0 } } := by
  unfold freeHeap
  rw [get_bind, h, bind_ok (inStore_ok (freeChunks_ok rows sp.store))]
  rfl

/-- A region whose base is none of the freed ones stays. -/
theorem mem_freed {s : Store} {rows : List HeapRow} {r : Region} (hr : r ∈ s.live)
    (h : ∀ r' ∈ rows, r.base ≠ r'.base) : r ∈ (freed s rows).live := by
  refine List.mem_filter.2 ⟨hr, ?_⟩
  simpa using h

/-- The machine once the chunks of one half are freed. -/
def VM.released (vm : VM) (half : Half) (rows : List HeapRow) : VM :=
  (vm.setHeap half { vm.heap half with chunks := [], totalAllocated := 0 }).setStore
    (freed vm.store rows)

/-- The other half becomes the active one. -/
def VM.flip (vm : VM) : VM := { vm with heapAUsed := !vm.heapAUsed }

/-- The other half becomes the active one. -/
theorem VM.flip_active (vm : VM) : vm.flip.active = vm.active.other := by
  unfold VM.active VM.flip
  cases vm.heapAUsed <;> rfl

@[simp] theorem VM.flip_control (vm : VM) : vm.flip.control = vm.control := rfl

@[simp] theorem VM.flip_heap (vm : VM) (half : Half) : vm.flip.heap half = vm.heap half := by
  cases half <;> rfl

/-- The slots are patched and the old half freed. -/
theorem updatePtrHolder_ok {vm vm3 : VM} {half : Half} {rows : List HeapRow} {slots : List Slot}
    (hpatch : patchSlots slots vm = .ok () vm3)
    (hchunks : (vm3.heap half).chunks = rows.map toChunk) :
    updatePtrHolder half slots vm = .ok () (vm3.released half rows) := by
  have hfree : freeHeap ⟨vm3.store, vm3.heap half⟩ = .ok () ⟨freed vm3.store rows, _⟩ :=
    freeHeap_ok hchunks
  unfold updatePtrHolder
  rw [bind_ok hpatch]
  exact onHeap_ok hfree

/-! ## §4. The slots found. -/

section Found

variable {vm : VM} {rows : List HeapRow} {s : Slot} {a : Nat}

/-- No root is listed twice. -/
theorem rootSlots_nodup (vm : VM) : (rootSlots vm).Nodup := by
  unfold rootSlots
  refine List.nodup_append.2 ⟨?_, ?_, ?_⟩
  · refine List.Nodup.map_on (fun r hr r' hr' heq => ?_) List.nodup_range
    have hr := List.mem_range.1 hr
    have hr' := List.mem_range.1 hr'
    injection heq with heq
    have := congrArg BitVec.toNat heq
    rw [BitVec.toNat_ofNat, BitVec.toNat_ofNat] at this
    omega
  · exact List.nodup_range.map (fun i j h => by injection h)
  · intro s hs t ht heq
    obtain ⟨r, _, rfl⟩ := List.mem_map.1 hs
    obtain ⟨i, _, rfl⟩ := List.mem_map.1 ht
    exact Slot.noConfusion heq

/-- A root is a register or a stack slot. -/
theorem heap_not_root : Slot.heap a ∉ rootSlots vm := by
  intro h
  rcases List.mem_append.1 h with h | h
  · obtain ⟨r, _, hr⟩ := List.mem_map.1 h
    exact Slot.noConfusion hr
  · obtain ⟨i, _, hi⟩ := List.mem_map.1 h
    exact Slot.noConfusion hi

/-- A scanned slot in memory lies inside an object, behind its header. -/
theorem Scannable.heap_inside (h : Scannable vm rows) (hs : Slot.heap a ∈ scannedSlots vm rows) :
    ∃ p ∈ heapObjects rows, p.1 + 24 ≤ a ∧ a + 8 ≤ p.1 + p.2.size := by
  rcases List.mem_append.1 hs with hs | hs
  · exact absurd hs heap_not_root
  · obtain ⟨p, hp, hsp⟩ := List.mem_flatMap.1 hs
    obtain ⟨b, heq, _, hlo, hhi⟩ := h.element hp hsp
    injection heq with hab
    subst hab
    exact ⟨p, hp, hlo, hhi⟩

/-- It is no `forwarded` field. -/
theorem Scannable.off_forwarded (h : Scannable vm rows) (hg : Geometry vm.store rows)
    (hs : Slot.heap a ∈ scannedSlots vm rows) : ∀ u ∈ heapObjects rows, a ≠ u.1 + 8 := by
  intro u hu
  obtain ⟨p, hp, hlo, hhi⟩ := h.heap_inside hs
  have hsize := (hg.wellSized hu).header
  rcases hg.arena.eq_or_apart hp hu with rfl | hsep | hsep <;> omega

/-- No slot is scanned twice. -/
theorem Scannable.nodup (h : Scannable vm rows) (hg : Geometry vm.store rows) :
    (scannedSlots vm rows).Nodup := by
  unfold scannedSlots
  refine List.nodup_append.2 ⟨rootSlots_nodup vm, ?_, ?_⟩
  · refine List.nodup_flatMap.2 ⟨fun p _ => ?_, ?_⟩
    · unfold interiorScan
      split
      · exact List.nodup_range.map (fun i j heq => by injection heq; omega)
      · exact List.nodup_nil
    · have hpair := hg.arena.pairwise_apart
      refine List.Pairwise.imp_of_mem (fun {p q} hp hq hsep => ?_) hpair
      intro t htp htq
      obtain ⟨b, rfl, _, hlo, hhi⟩ := h.element hp htp
      obtain ⟨b', heq, _, hlo', hhi'⟩ := h.element hq htq
      injection heq with hbb
      omega
  · intro s hs t ht heq
    subst heq
    obtain ⟨p, hp, hsp⟩ := List.mem_flatMap.1 ht
    obtain ⟨b, rfl, _⟩ := h.element hp hsp
    exact heap_not_root hs

/-- A slot found names an object that is marked. -/
theorem Scannable.found (h : Scannable vm rows) (hs : s ∈ foundSlots vm rows) :
    ∃ p ∈ heapObjects rows, decodePointer (s.value vm) = p.1 + 16 ∧ p.1 ∈ marks vm rows := by
  obtain ⟨hscan, hptr⟩ := List.mem_filter.1 hs
  obtain ⟨p, hp, heq⟩ := h.valid s hscan hptr
  refine ⟨p, hp, heq, List.mem_map.2 ⟨s, hs, ?_⟩⟩
  unfold Slot.target
  omega

end Found

/-! ## §5. The collection. -/

/-- `q` in the memory `s'` has the header and the payload of `p` in `s`. -/
structure CopyOf (s s' : Store) (p q : Nat × Obj) : Prop where
  obj : q.2 = p.2
  payload : ∀ k, 16 + 8 * k < p.2.size → s'.word (q.1 + 16 + 8 * k) = s.word (p.1 + 16 + 8 * k)

/-- The objects a collection keeps, in allocation order. -/
def kept (vm : VM) (rows : List HeapRow) : List (Nat × Obj) :=
  flagged (marks vm rows) (heapObjects rows)

/-- **The state after a collection**, in terms of the state before it. -/
structure Collected (vm vm' : VM) (rows rows' : List HeapRow) : Prop where
  active : vm'.active = vm.active.other
  empty : (vm'.heap vm.active).Empty
  represents : Represents vm'.store (vm'.heap vm'.active) rows'
  copies : List.Forall₂ (CopyOf vm.store vm'.store) (kept vm rows) (heapObjects rows')
  /-- A pointer root names the copy of the object it named. -/
  patched : ∀ s ∈ rootSlots vm, s.holdsPointer vm = true →
    ∃ p q, (p, q) ∈ (kept vm rows).zip (heapObjects rows') ∧
      decodePointer (s.value vm) = p.1 + 16 ∧
      s.value vm' = encodePointer (BitVec.ofNat 64 (q.1 + 16))
  /-- Every other register and stack slot is as it was. -/
  regs : ∀ r, isPointer (vm.reg r) = false → vm'.reg r = vm.reg r
  stack : ∀ i, ¬ (i < vm.sp.toNat ∧ isPointer (vm.stack i) = true) → vm'.stack i = vm.stack i
  control : vm'.control = vm.control
  max : ∀ half, (vm'.heap half).max = (vm.heap half).max
  allocator : vm'.store.allocator = vm.store.allocator
  apart : ∀ r' ∈ rows', ∀ r ∈ vm.store.live, (r'.region CHUNK_SIZE).Apart r
  cleared : vm.store.allocator.ZeroFill → Cleared vm'.store rows'

section Collect

variable {vm : VM} {rows : List HeapRow}

/-- Every register is a root. -/
theorem mem_rootSlots_reg (r : Byte) : Slot.reg r ∈ rootSlots vm := by
  refine List.mem_append_left _ (List.mem_map.2 ⟨r.toNat, List.mem_range.2 r.isLt, ?_⟩)
  rw [BitVec.ofNat_toNat, BitVec.setWidth_eq]

/-- So is every slot below the stack pointer. -/
theorem mem_rootSlots_stack {i : Nat} : Slot.stack i ∈ rootSlots vm ↔ i < vm.sp.toNat := by
  constructor
  · intro h
    rcases List.mem_append.1 h with h | h
    · obtain ⟨r, _, hr⟩ := List.mem_map.1 h
      exact Slot.noConfusion hr
    · obtain ⟨j, hj, heq⟩ := List.mem_map.1 h
      injection heq with hij
      subst hij
      exact List.mem_range.1 hj
  · intro h
    exact List.mem_append_right _ (List.mem_map.2 ⟨i, List.mem_range.2 h, rfl⟩)

/-- The patch phase, on the state the move phase leaves. -/
theorem patchPhase {s1 : Store} {m : Nat} {sp : Space} {rows' : List HeapRow} {vm2 : VM}
    (hm : MarkedBy vm.store s1 rows (marks vm rows)) (hg : Geometry vm.store rows)
    (hscan : Scannable vm rows)
    (he : Evacuated s1 m (marks vm rows) (heapObjects rows) sp rows')
    (hreg : vm2.reg = vm.reg) (hstack : vm2.stack = vm.stack) (hstore : vm2.store = sp.store) :
    ∃ vm3, patchSlots (foundSlots vm rows) vm2 = .ok () vm3 ∧
      Patched vm2 vm3 (foundSlots vm rows) (fun s => sp.store.word (s.target vm + 8)) := by
  have hg1 := hm.geometry hg
  have hgsp : Geometry sp.store rows := hg1.of_live he.oldLive
  have hscanned : ∀ s ∈ foundSlots vm rows, s ∈ scannedSlots vm rows :=
    fun s hs => (List.mem_filter.1 hs).1
  -- no phase so far changed what a slot found holds
  have hvalue : ∀ s ∈ foundSlots vm rows, s.value vm2 = s.value vm := by
    intro s hs
    cases s with
    | reg r =>
        show vm2.reg r = vm.reg r
        rw [hreg]
    | stack i =>
        show vm2.stack i = vm.stack i
        rw [hstack]
    | heap a =>
        obtain ⟨p, hp, hlo, hhi⟩ := hscan.heap_inside (hscanned _ hs)
        show vm2.store.word a = vm.store.word a
        rw [hstore, he.word_eq hg1 hp (by omega) (by omega)
          (hscan.off_forwarded hg (hscanned _ hs))]
        exact hm.kept a (hscan.readable hg (hscanned _ hs)).2
  have hfwd : ∀ s ∈ foundSlots vm rows, ∃ p ∈ heapObjects rows,
      s.forwardedAt vm2 = p.1 + 8 ∧ s.target vm = p.1 := by
    intro s hs
    obtain ⟨p, hp, heq, _⟩ := hscan.found hs
    have hbound := hg.object_bounded hp
    refine ⟨p, hp, ?_, ?_⟩
    · unfold Slot.forwardedAt
      rw [hvalue s hs, heq, headerOf_add (by omega)]
    · unfold Slot.target
      omega
  have hreadable : ∀ s ∈ foundSlots vm rows, s.Readable vm2 := by
    intro s hs
    have hread := (hscan.readable hg (hscanned s hs)).1
    cases s with
    | reg r => trivial
    | stack i => exact hread
    | heap a =>
        obtain ⟨p, hp, hlo, hhi⟩ := hscan.heap_inside (hscanned _ hs)
        show vm2.store.Mapped a
        rw [hstore]
        exact hgsp.mapped hp hread.1 (by omega) hhi
  obtain ⟨vm3, hrun, hp⟩ := patchSlots_ok (foundSlots vm rows) vm2
    ((hscan.nodup hg).filter _) hreadable
    (fun s hs => by
      obtain ⟨p, hp, hat, _⟩ := hfwd s hs
      have hhead := (hg.wellSized hp).header
      have hal := hg.object_aligned hp
      rw [hat, hstore]
      exact hgsp.mapped hp (by omega) (by omega) (by omega))
    (fun s hs t ht heq => by
      obtain ⟨p, hp, hat, _⟩ := hfwd s hs
      subst heq
      exact hscan.off_forwarded hg (hscanned _ ht) p hp hat)
  refine ⟨vm3, hrun, fun s hs => ?_, hp.kept, hp.store, hp.heap, hp.active, hp.control⟩
  obtain ⟨p, _, hat, htarget⟩ := hfwd s hs
  rw [hp.written s hs, hat, hstore, htarget]

/-- The phases of a collection, up to the state `vm3` the old chunks are freed in. -/
structure Phases (vm : VM) (rows : List HeapRow) (s1 : Store) (sp : Space)
    (rows' : List HeapRow) (vm3 : VM) : Prop where
  represents : Represents vm.store (vm.heap vm.active) rows
  scannable : Scannable vm rows
  marked : MarkedBy vm.store s1 rows (marks vm rows)
  evacuated : Evacuated s1 (vm.heap vm.active.other).max (marks vm rows) (heapObjects rows) sp rows'
  patched : Patched (((vm.setStore s1).setHeap vm.active.other sp.heap).setStore sp.store) vm3
    (foundSlots vm rows) (fun s => sp.store.word (s.target vm + 8))

namespace Phases

variable {s1 : Store} {sp : Space} {rows' : List HeapRow} {vm3 : VM}

/-- Patching leaves the regions. -/
theorem regions (h : Phases vm rows s1 sp rows' vm3) : vm3.store.live = sp.store.live := by
  rw [h.patched.store]
  rfl

/-- The allocator stays the same. -/
theorem allocator (h : Phases vm rows s1 sp rows' vm3) :
    vm3.store.allocator = vm.store.allocator := by
  rw [h.patched.store]
  exact h.evacuated.allocator.trans h.marked.allocator

/-- The new chunks stand apart from the old ones. -/
theorem chunks_apart (h : Phases vm rows s1 sp rows' vm3) {r r' : HeapRow} (hr : r ∈ rows)
    (hr' : r' ∈ rows') : (r'.region CHUNK_SIZE).Apart (r.region CHUNK_SIZE) :=
  h.evacuated.apart r' hr' _ ((h.marked.geometry h.represents.geometry).live r hr)

/-- Patching writes to the old chunks only. -/
theorem new_word (h : Phases vm rows s1 sp rows' vm3) {r' : HeapRow} (hr' : r' ∈ rows') {a : Nat}
    (hlo : r'.base ≤ a) (hhi : a < r'.base + CHUNK_SIZE) :
    vm3.store.word a = sp.store.word a := by
  have hoff : Slot.heap a ∉ foundSlots vm rows := by
    intro hfound
    obtain ⟨p, hp, hplo, hphi⟩ := h.scannable.heap_inside (List.mem_filter.1 hfound).1
    obtain ⟨r, hr, _, hrlo, _, hrhi⟩ := h.represents.geometry.arena.inside hp
    have hsep := h.chunks_apart hr hr'
    simp only [Region.Apart, Row.region] at hsep
    omega
  exact h.patched.kept (.heap a) hoff

/-- Patching leaves the words of the copies. -/
theorem new_object_word (h : Phases vm rows s1 sp rows' vm3) {q : Nat × Obj}
    (hq : q ∈ heapObjects rows') {k : Nat} (hk : k < q.2.size) :
    vm3.store.word (q.1 + k) = sp.store.word (q.1 + k) := by
  obtain ⟨r', hr', _, hlo, _, hhi⟩ := h.evacuated.represents.geometry.arena.inside hq
  exact h.new_word hr' (by omega) (by omega)

/-- Freeing the old chunks leaves the new ones. -/
theorem new_live (h : Phases vm rows s1 sp rows' vm3) {r' : HeapRow} (hr' : r' ∈ rows') :
    r'.region CHUNK_SIZE ∈ (freed vm3.store rows).live := by
  refine mem_freed ?_ (fun r hr heq => ?_)
  · rw [h.regions]
    exact h.evacuated.represents.geometry.live r' hr'
  · have hsep := h.chunks_apart hr hr'
    have hC : CHUNK_SIZE = 4194304 := rfl
    simp only [Region.Apart, Row.region] at hsep heq
    omega

/-- The half that was active keeps its heap until it is freed. -/
theorem heap_old (h : Phases vm rows s1 sp rows' vm3) :
    vm3.heap vm.active = vm.heap vm.active := by
  rw [h.patched.heap]
  simp

/-- And the heap they are in. -/
theorem heap_new (h : Phases vm rows s1 sp rows' vm3) : vm3.heap vm.active.other = sp.heap := by
  rw [h.patched.heap]
  simp

theorem active_flip (h : Phases vm rows s1 sp rows' vm3) :
    (vm3.released vm.active rows).flip.active = vm.active.other := by
  rw [VM.flip_active]
  simp [VM.released, h.patched.active]

theorem max_flip (h : Phases vm rows s1 sp rows' vm3) (half : Half) :
    ((vm3.released vm.active rows).flip.heap half).max = (vm.heap half).max := by
  rw [VM.flip_heap]
  rcases half.eq_or_other vm.active with rfl | rfl
  · simp [VM.released, h.heap_old]
  · simp [VM.released, h.heap_new, h.evacuated.max]

/-- **After the collection the new half holds the copies.** -/
theorem represents_flip (h : Phases vm rows s1 sp rows' vm3) :
    Represents (vm3.released vm.active rows).flip.store
      ((vm3.released vm.active rows).flip.heap vm.active.other) rows' := by
  have hrep := h.evacuated.represents
  have hheap : (vm3.released vm.active rows).flip.heap vm.active.other = sp.heap := by
    rw [VM.flip_heap]
    simp [VM.released, h.heap_new]
  rw [hheap]
  refine ⟨⟨hrep.geometry.arena, fun r' hr' => h.new_live hr', hrep.geometry.aligned,
    hrep.geometry.bounded, hrep.geometry.sized⟩, hrep.counts, ?_, ?_⟩
  · intro q hq
    have hsize := (hrep.geometry.wellSized hq).header
    rw [← hrep.headers.header q hq]
    exact h.new_object_word hq (k := 0) (by omega)
  · intro q hq
    have hsize := (hrep.geometry.wellSized hq).header
    rw [← hrep.headers.forwarded q hq]
    exact h.new_object_word hq (k := 8) (by omega)

/-- A copy that the move phase made is a copy after the patch phase. -/
theorem copyOf (h : Phases vm rows s1 sp rows' vm3) {p q : Nat × Obj}
    (hp : p ∈ heapObjects rows) (hq : q ∈ heapObjects rows') (hobj : q.2 = p.2)
    (hpayload : ∀ k, 16 + 8 * k < p.2.size →
      sp.store.word (q.1 + 16 + 8 * k) = s1.word (p.1 + 16 + 8 * k)) :
    CopyOf vm.store (vm3.released vm.active rows).flip.store p q := by
  refine ⟨hobj, fun k hk => ?_⟩
  -- freeing changes no word
  show vm3.store.word (q.1 + 16 + 8 * k) = vm.store.word (p.1 + 16 + 8 * k)
  rw [Nat.add_assoc, h.new_object_word hq (k := 16 + 8 * k) (by rw [hobj]; exact hk),
    ← Nat.add_assoc, hpayload k hk]
  -- marking wrote to the headers only
  refine h.marked.kept _ (fun u hu heq => ?_)
  have husize := (h.represents.geometry.wellSized hu).header
  rcases h.represents.geometry.arena.eq_or_apart hp hu with rfl | hsep | hsep <;> omega

/-- Each copy has the payload of its object. -/
theorem copies (h : Phases vm rows s1 sp rows' vm3) :
    List.Forall₂ (CopyOf vm.store (vm3.released vm.active rows).flip.store) (kept vm rows)
      (heapObjects rows') :=
  forall₂_imp_mem h.evacuated.copies (fun _ hp _ hq hc =>
    h.copyOf (mem_flagged.1 hp).1 hq hc.obj hc.payload)

/-- A root that holds a pointer was found, and holds the address of the copy. -/
theorem root_patched (h : Phases vm rows s1 sp rows' vm3) {s : Slot} (hs : s ∈ rootSlots vm)
    (hptr : s.holdsPointer vm = true) :
    ∃ p q, (p, q) ∈ (kept vm rows).zip (heapObjects rows') ∧
      decodePointer (s.value vm) = p.1 + 16 ∧
      s.value (vm3.released vm.active rows).flip
        = encodePointer (BitVec.ofNat 64 (q.1 + 16)) := by
  have hfound : s ∈ foundSlots vm rows := List.mem_filter.2 ⟨List.mem_append_left _ hs, hptr⟩
  obtain ⟨p, hp, hdecode, hmark⟩ := h.scannable.found hfound
  obtain ⟨q, hpq⟩ := exists_mem_zip h.evacuated.copies (mem_flagged.2 ⟨hp, hmark⟩)
  have hc := List.forall₂_zip h.evacuated.copies hpq
  refine ⟨p, q, hpq, hdecode, ?_⟩
  have hvalue : s.value (vm3.released vm.active rows).flip = s.value vm3 := by
    cases s with
    | reg r => simp [Slot.value, VM.flip, VM.released]
    | stack i => simp [Slot.value, VM.flip, VM.released]
    | heap a => exact absurd hs heap_not_root
  have htarget : s.target vm = p.1 := by
    unfold Slot.target
    omega
  rw [hvalue, h.patched.written s hfound, htarget, hc.forwarded]

/-- A register without a pointer is kept. -/
theorem reg_kept (h : Phases vm rows s1 sp rows' vm3) {r : Byte}
    (hr : isPointer (vm.reg r) = false) : vm3.reg r = vm.reg r := by
  have hnot : Slot.reg r ∉ foundSlots vm rows := by
    intro hfound
    have hptr : isPointer (vm.reg r) = true := (List.mem_filter.1 hfound).2
    rw [hr] at hptr
    exact Bool.false_ne_true hptr
  have hkept := h.patched.kept _ hnot
  simpa [Slot.value] using hkept

/-- So is a slot without one, and every slot above the stack pointer. -/
theorem stack_kept (h : Phases vm rows s1 sp rows' vm3) {i : Nat}
    (hi : ¬ (i < vm.sp.toNat ∧ isPointer (vm.stack i) = true)) : vm3.stack i = vm.stack i := by
  have hnot : Slot.stack i ∉ foundSlots vm rows := by
    intro hfound
    obtain ⟨hscanned, hptr⟩ := List.mem_filter.1 hfound
    rcases List.mem_append.1 hscanned with hroot | hinner
    · exact hi ⟨mem_rootSlots_stack.1 hroot, hptr⟩
    · -- the elements of the objects are memory slots
      obtain ⟨p, hp, hsp⟩ := List.mem_flatMap.1 hinner
      obtain ⟨b, heq, _⟩ := h.scannable.element hp hsp
      exact Slot.noConfusion heq
  have hkept := h.patched.kept _ hnot
  simpa [Slot.value] using hkept

/-- **The state after the four phases is `Collected`.** -/
theorem collected (h : Phases vm rows s1 sp rows' vm3) :
    Collected vm (vm3.released vm.active rows).flip rows rows' where
  active := h.active_flip
  empty := by
    rw [VM.flip_heap]
    simp [VM.released, Heap.Empty]
  represents := by
    rw [h.active_flip]
    exact h.represents_flip
  copies := h.copies
  patched _ hs hptr := h.root_patched hs hptr
  regs r hr := by
    rw [← h.reg_kept hr]
    simp [VM.flip, VM.released]
  stack i hi := by
    rw [← h.stack_kept hi]
    simp [VM.flip, VM.released]
  control := by
    rw [VM.flip_control]
    simp [VM.released, h.patched.control]
  max := h.max_flip
  allocator := h.allocator
  apart r' hr' r hr := h.evacuated.apart r' hr' r (by rw [h.marked.live]; exact hr)
  cleared := by
    intro hzero r' hr' a ha hlo hhi
    show vm3.store.word a = 0
    rw [h.new_word hr' (by omega) (by omega)]
    exact h.evacuated.cleared (by rw [h.marked.allocator]; exact hzero) r' hr' a ha hlo hhi

end Phases

/-- **What a collection does** to a well-formed heap whose pointers name
objects: it runs out of memory or ends in a `Collected` state. -/
theorem collect_spec (hrep : Represents vm.store (vm.heap vm.active) rows)
    (hempty : (vm.heap vm.active.other).Empty) (hscan : Scannable vm rows) :
    (∃ vm', compactingGarbageCollect vm = .error .badAlloc vm') ∨
    ∃ vm' rows', compactingGarbageCollect vm = .ok () vm' ∧ Collected vm vm' rows rows' := by
  have hg := hrep.geometry
  -- mark
  obtain ⟨s1, hmark, hm⟩ := markObjects_ok hrep hscan
  have hactive1 : (vm.setStore s1).active = vm.active := rfl
  have hspace : (⟨(vm.setStore s1).store, (vm.setStore s1).heap vm.active.other⟩ : Space)
      = ⟨s1, vm.heap vm.active.other⟩ := by
    rw [VM.setStore_heap]
    rfl
  unfold compactingGarbageCollect
  rw [bind_ok hmark, get_bind]
  simp only [hactive1, VM.setStore_heap, hrep.counts.chunks]
  -- move
  rcases moveObjects_spec hm hg rows [] ⟨s1, vm.heap vm.active.other⟩ [] rfl
    (Evacuated.start hempty) with ⟨sp', hfail⟩ | ⟨sp2, rows', hmoved, he⟩
  · left
    rw [← hspace] at hfail
    exact ⟨_, bind_error (onHeap_error hfail)⟩
  · right
    rw [← hspace] at hmoved
    rw [bind_ok (onHeap_ok hmoved)]
    generalize hvm2 : ((vm.setStore s1).setHeap vm.active.other sp2.heap).setStore sp2.store = vm2
    -- and patch
    obtain ⟨vm3, hpatch, hp⟩ := patchPhase hm hg hscan he
      (show vm2.reg = vm.reg by rw [← hvm2]; simp)
      (show vm2.stack = vm.stack by rw [← hvm2]; simp)
      (show vm2.store = sp2.store by rw [← hvm2]; rfl)
    have hchunks : (vm3.heap vm.active).chunks = rows.map toChunk := by
      rw [hp.heap, ← hvm2]
      simp [hrep.counts.chunks]
    rw [← hvm2] at hp
    refine ⟨_, rows', ?_, Phases.collected ⟨hrep, hscan, hm, he, hp⟩⟩
    rw [bind_ok (updatePtrHolder_ok hpatch hchunks)]
    rfl

end Collect

end SproutLang
