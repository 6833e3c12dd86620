/-
  SproutLang.VM.Heap.TwoSpace
  ───────────────────────────
  **THE TWO HALVES OVER A WHOLE RUN.**

  A run allocates, collects and moves its roots among the blocks there are.
  `HeapTrace` carries, next to the machine, the list of blocks a reader of
  the calls expects in the active heap: the copies the last collection made,
  then what was handed out since.  Whatever the run,

    • `WellFormed`          — the active heap is exactly that list,
    • `TwoSpaces.collected` — one collection keeps the invariant,
    • `TwoSpaces.allocated` — so does one allocation,
    • `two_space_heap`      — so does every run, and no step gets stuck.
-/
import SproutLang.VM.Heap.Exactness
import SproutLang.Library.Runs

namespace SproutLang

open Library

/-! ## §1. Traces. -/

/-- The machine and the blocks expected in its active heap, each with the
address of its header. -/
structure HeapTrace where
  vm : VM
  blocks : List (Nat × Obj)

/-- The active heap. -/
def HeapTrace.heap (c : HeapTrace) : Heap := c.vm.heap c.vm.active

/-- An allocation, a collection, or other roots. -/
inductive HeapOp where
  | alloc (size type : Nat)
  | collect
  | roots (reg : Byte → Word) (stack : Nat → Word) (sp : Word)

/-- The first root that names the block. -/
def namingRoot (vm : VM) (b : Nat × Obj) : Option Slot :=
  (rootSlots vm).find? (fun s => s.holdsPointer vm && decodePointer (s.value vm) == b.1 + 16)

/-- The block's copy, where that root points once `vm'` has collected. -/
def copyOfBlock (vm vm' : VM) (b : Nat × Obj) : Nat × Obj :=
  match namingRoot vm b with
  | some s => (decodePointer (s.value vm') - 16, b.2)
  | none => b

/-- The copies a collection from `c` to `vm'` made, in order. -/
def copiesMade (c : HeapTrace) (vm' : VM) : List (Nat × Obj) :=
  (c.blocks.filter (Referred c.vm)).map (copyOfBlock c.vm vm')

/-- Register and stack pointers name blocks. -/
structure RootsAmong (vm : VM) (blocks : List (Nat × Obj)) : Prop where
  stack : vm.sp.toNat ≤ STACK_SIZE
  named : ∀ s ∈ rootSlots vm, s.holdsPointer vm = true →
    ∃ b ∈ blocks, decodePointer (s.value vm) = b.1 + 16

/-- Roots stay among the blocks where each is as it was or names a block. -/
theorem RootsAmong.grow {vm vm' : VM} {blocks blocks' : List (Nat × Obj)}
    (h : RootsAmong vm blocks) (hsp : vm'.sp = vm.sp) (hblocks : ∀ b ∈ blocks, b ∈ blocks')
    (hvalue : ∀ s ∈ rootSlots vm, s.value vm' = s.value vm ∨
      ∃ b ∈ blocks', decodePointer (s.value vm') = b.1 + 16) : RootsAmong vm' blocks' := by
  have hroots : rootSlots vm' = rootSlots vm := by
    unfold rootSlots
    rw [hsp]
  refine ⟨by rw [hsp]; exact h.stack, fun s hs hptr => ?_⟩
  rw [hroots] at hs
  rcases hvalue s hs with hsame | hnew
  · unfold Slot.holdsPointer at hptr
    rw [hsame] at hptr ⊢
    obtain ⟨b, hb, heq⟩ := h.named s hs hptr
    exact ⟨b, hblocks b hb, heq⟩
  · exact hnew

/-- No array object without payload ends with its chunk. -/
def ScanInside (c : HeapTrace) : Prop :=
  ∀ b ∈ c.blocks, b.2.type = OBJ_ARRAY → b.2.size = 16 →
    ∀ ch ∈ c.heap.chunks, b.1 + 16 ≠ ch.mem + ch.capacity

/-- An allocation collects first. -/
def Over (c : HeapTrace) : Prop := overTrigger c.heap.totalAllocated c.heap.max = true

instance (c : HeapTrace) : Decidable (Over c) := inferInstanceAs (Decidable (_ = true))

/-- The blocks a new one is added to. -/
def blocksBefore (c : HeapTrace) : List (Nat × Obj) :=
  if Over c then copiesMade c (finalState (compactingGarbageCollect c.vm)) else c.blocks

/-- **One step**: with an allocation the blocks grow by one, a collection
leaves the copies it has made. -/
inductive HeapStep : HeapTrace → HeapOp → HeapTrace → Prop where
  | alloc {c : HeapTrace} {size type p : Nat} {vm' : VM}
      (fits : SIZEOF_OBJ_HEADER + size ≤ CHUNK_SIZE) (type_lt : type < 2 ^ 16)
      (inside : Over c → ScanInside c)
      (run : gcCollectedHeapAlloc size type c.vm = .ok p vm') :
      HeapStep c (.alloc size type)
        ⟨vm', blocksBefore c ++ [(p - 16, ⟨align (SIZEOF_OBJ_HEADER + size), type⟩)]⟩
  | collect {c : HeapTrace} {vm' : VM} (inside : ScanInside c)
      (run : compactingGarbageCollect c.vm = .ok () vm') :
      HeapStep c .collect ⟨vm', copiesMade c vm'⟩
  | roots {c : HeapTrace} {reg : Byte → Word} {stack : Nat → Word} {sp : Word}
      (among : RootsAmong { c.vm with reg, stack, sp } c.blocks) :
      HeapStep c (.roots reg stack sp) ⟨{ c.vm with reg, stack, sp }, c.blocks⟩

/-! ## §2. What holds in every state. -/

/-- Stepping from offset `i` by the sizes in the headers passes the headers
listed and stops exactly at the end of the used part. -/
inductive Walks (s : Store) (c : Chunk) : Nat → List Nat → Prop where
  | stop : Walks s c c.used []
  | step {i : Nat} {rest : List Nat} (inside : i < c.used) (mapped : s.Mapped (c.mem + i))
      (more : Walks s c (i + objSize (s.word (c.mem + i))) rest) :
      Walks s c i ((c.mem + i) :: rest)

/-- **The active heap is the list of blocks, the other heap is empty.** -/
structure WellFormed (c : HeapTrace) : Prop where
  inactive : (c.vm.heap c.vm.active.other).Empty
  aligned : ∀ b ∈ c.blocks, b.1 % 8 = 0
  inside : ∀ b ∈ c.blocks, ∃ ch ∈ c.heap.chunks, ch.mem ≤ b.1 ∧
    b.1 + b.2.size ≤ ch.mem + ch.used ∧ ch.used ≤ ch.capacity
  disjoint : c.blocks.Pairwise
    (fun b b' => b.1 + b.2.size ≤ b'.1 ∨ b'.1 + b'.2.size ≤ b.1)
  walks : ∃ parts : List (List Nat), parts.flatten = c.blocks.map Prod.fst ∧
    List.Forall₂ (fun ch part => Walks c.vm.store ch 0 part) c.heap.chunks parts
  loop : getAllObjects c.heap.chunks c.vm.store = .ok (c.blocks.map Prod.fst) c.vm.store
  headers : ∀ b ∈ c.blocks, c.vm.store.word b.1 = headerWord b.2.size b.2.type FLAG_UNMARKED ∧
    c.vm.store.word (b.1 + 8) = 0
  total : c.heap.totalAllocated = (c.heap.chunks.map Chunk.used).sum ∧
    c.heap.totalAllocated = (c.blocks.map (fun b => b.2.size)).sum

/-- **The invariant of a run.** -/
structure TwoSpaces (c : HeapTrace) (rows : List HeapRow) : Prop where
  represents : Represents c.vm.store c.heap rows
  blocks : heapObjects rows = c.blocks
  inactive : (c.vm.heap c.vm.active.other).Empty
  roots : RootsAmong c.vm c.blocks
  zeroFill : c.vm.store.allocator.ZeroFill
  cleared : Cleared c.vm.store rows
  /-- Nothing is ever written to a payload. -/
  blank : ∀ b ∈ c.blocks, ∀ k, 16 + 8 * k < b.2.size → c.vm.store.word (b.1 + 16 + 8 * k) = 0

section WellFormed

variable {c : HeapTrace} {rows : List HeapRow}

/-- The walk of one chunk, from the items `passed` on. -/
theorem walks_row {s : Store} {r : HeapRow} (hg : Geometry s rows) (hh : Headers s rows)
    (hr : r ∈ rows) (rest : List Obj) : ∀ passed, r.items = passed ++ rest →
      Walks s (toChunk r) (extent Obj.size passed)
        ((placed Obj.size (r.base + extent Obj.size passed) rest).map Prod.fst) := by
  have hC : CHUNK_SIZE = 4194304 := rfl
  -- on the items still to be walked, with `passed` those behind `i`
  induction rest with
  | nil =>
      intro passed hitems
      rw [← walk_end hitems]
      exact Walks.stop
  | cons o rest ih =>
      intro passed hitems
      have hmem : (r.base + extent Obj.size passed, o) ∈ heapObjects rows := by
        refine (mem_objects Obj.size).2 ⟨r, hr, ?_⟩
        rw [hitems]
        exact mem_placed_of_split Obj.size r.base passed rest o
      -- the size the loop reads is that of the item
      have hsize := (MarkedBy.refl hh).objSize_eq hg hmem
      have hhead := (hg.wellSized hmem).header
      have hmap := hg.mapped hmem (hg.object_aligned hmem) (Nat.le_refl _) (by omega)
      have hmore := ih (passed ++ [o]) (by rw [hitems]; simp)
      rw [extent_concat, ← Nat.add_assoc] at hmore
      refine Walks.step (walk_step hitems (hg.arena.fits r hr) hhead).1 hmap ?_
      · show Walks s (toChunk r)
          (extent Obj.size passed + objSize (s.word (r.base + extent Obj.size passed))) _
        simp only at hsize
        rw [hsize]
        exact hmore

/-- The used parts of the chunks are the sizes of the objects. -/
theorem used_sum (rows : List HeapRow) : (rows.map (Row.used Obj.size)).sum
    = ((heapObjects rows).map (fun b => b.2.size)).sum := by
  induction rows with
  | nil => rfl
  | cons r rows ih =>
      have hrow : (placed Obj.size r.base r.items).map (fun b => b.2.size)
          = r.items.map Obj.size := by
        conv_rhs => rw [← placed_map_snd Obj.size r.base r.items, List.map_map]
        rfl
      rw [List.map_cons, List.sum_cons, ih, heapObjects_cons, List.map_append, List.sum_append,
        hrow]
      rfl

/-- The invariant implies that the heap is well formed. -/
theorem TwoSpaces.wellFormed (h : TwoSpaces c rows) : WellFormed c := by
  have hg := h.represents.geometry
  have hh := h.represents.headers
  have hchunks : c.heap.chunks = rows.map toChunk := h.represents.counts.chunks
  have hmarked := MarkedBy.refl hh
  refine
    { inactive := h.inactive
      aligned := ?_
      inside := ?_
      disjoint := ?_
      walks := ⟨rows.map (fun r => (placed Obj.size r.base r.items).map Prod.fst), ?_, ?_⟩
      loop := ?_
      headers := ?_
      total := ⟨?_, ?_⟩ }
  · intro b hb
    rw [← h.blocks] at hb
    exact hg.object_aligned hb
  · intro b hb
    rw [← h.blocks] at hb
    obtain ⟨r, hr, _, hlo, hhi, _⟩ := hg.arena.inside hb
    rw [hchunks]
    exact ⟨toChunk r, List.mem_map_of_mem hr, hlo, hhi, hg.arena.fits r hr⟩
  · rw [← h.blocks]
    exact hg.arena.pairwise_apart
  · rw [← h.blocks]
    simp [objects, List.flatMap_def, Function.comp_def]
  · rw [hchunks, List.forall₂_map_left_iff, List.forall₂_map_right_iff, List.forall₂_same]
    intro r hr
    have hwalk := walks_row hg hh hr r.items [] rfl
    rw [extent_nil, Nat.add_zero] at hwalk
    exact hwalk
  · rw [hchunks, ← h.blocks]
    exact getAllObjects_ok hg (fun p hp => hmarked.objSize_eq hg hp)
  · intro b hb
    rw [← h.blocks] at hb
    exact ⟨hh.header b hb, hh.forwarded b hb⟩
  · rw [hchunks, List.map_map]
    exact h.represents.counts.total
  · rw [← h.blocks, ← used_sum]
    exact h.represents.counts.total

end WellFormed

/-! ## §3. One step. -/

section Step

variable {c : HeapTrace} {rows : List HeapRow} {size type : Nat}

/-- And that the roots are valid. -/
theorem TwoSpaces.rootsValid (h : TwoSpaces c rows) : RootsValid c.vm rows where
  stack := h.roots.stack
  named s hs hptr := by
    obtain ⟨b, hb, heq⟩ := h.roots.named s hs hptr
    rw [← h.blocks] at hb
    exact ⟨b, hb, heq⟩

/-- In a heap of zeroes no object reads as an array of pointers: where the
type would be there is a zero, or the size of the next object. -/
theorem TwoSpaces.quiet (h : TwoSpaces c rows) (hscan : ScanInside c) :
    InteriorQuiet c.vm rows := by
  have hg := h.represents.geometry
  have hchunks : c.heap.chunks = rows.map toChunk := h.represents.counts.chunks
  have hptr : TAG_POINTER.toNat = 2 := rfl
  intro p hp htype
  have hsized := hg.wellSized hp
  have hhead := hsized.header
  have haligned := hsized.aligned
  have hpal := hg.object_aligned hp
  have hpb : p ∈ c.blocks := by
    rw [← h.blocks]
    exact hp
  by_cases hsize : p.2.size = 16
  · -- a block without payload: the word behind it belongs to the chunk
    obtain ⟨r, hr, hpr, hlo, hused, hcap⟩ := hg.arena.inside hp
    have hnot := hscan p hpb htype hsize (toChunk r) (by
      rw [hchunks]
      exact List.mem_map_of_mem hr)
    have hbal := hg.aligned r hr
    have hne : p.1 + 16 ≠ r.base + CHUNK_SIZE := hnot
    have hC : CHUNK_SIZE = 4194304 := rfl
    have hroom : p.1 + 16 + 8 ≤ r.base + CHUNK_SIZE := by omega
    refine ⟨⟨by omega, r.region CHUNK_SIZE, hg.live r hr, ?_, hroom⟩, ?_⟩
    · show r.base ≤ _
      omega
    · -- the last block of its chunk, or one with a header behind it
      rcases placed_next Obj.size hpr with hend | ⟨q, hq, hnext⟩
      · have hzero := h.cleared r hr (p.1 + 16) (by omega)
          (by unfold Row.used; omega) hroom
        rw [hzero]
        decide
      · have hqobj : q ∈ heapObjects rows := (mem_objects Obj.size).2 ⟨r, hr, hq⟩
        have hqsize := (MarkedBy.refl h.represents.headers).objSize_eq hg hqobj
        have hqhead := (hg.wellSized hqobj).header
        rw [show p.1 + 16 = q.1 from by omega]
        unfold arrayType
        unfold objSize at hqsize
        omega
  · -- the fields lie in the payload, which is blank
    refine ⟨hg.mapped hp (by omega) (by omega) (by omega), ?_⟩
    have hzero := h.blank p hpb 0 (by omega)
    rw [Nat.mul_zero, Nat.add_zero] at hzero
    rw [hzero]
    decide

/-- A copy has the size and the type of its block. -/
theorem copyOfBlock_snd (vm vm' : VM) (b : Nat × Obj) : (copyOfBlock vm vm' b).2 = b.2 := by
  unfold copyOfBlock
  split <;> rfl

/-- Reading a block's copy off a root gives the copy. -/
theorem Collected.copyOfBlock_eq {vm vm' : VM} {rows' : List HeapRow} {p q : Nat × Obj}
    (h : Collected vm vm' rows rows') (hg : Geometry vm.store rows)
    (hpq : (p, q) ∈ (kept vm rows).zip (heapObjects rows')) (hp : Referred vm p) :
    copyOfBlock vm vm' p = q := by
  obtain ⟨t, ht, htptr, htdecode⟩ := hp
  unfold copyOfBlock
  cases hfind : namingRoot vm p with
  | none =>
      -- `t` itself names `p`
      have hnone := List.find?_eq_none.1 hfind t ht
      simp [htptr, htdecode] at hnone
  | some s =>
      have hs := List.mem_of_find?_eq_some hfind
      have hprop := List.find?_some hfind
      simp only [Bool.and_eq_true, beq_iff_eq] at hprop
      obtain ⟨p', q', hpq', hdecode, hvalue⟩ := h.patched s hs hprop.1
      have hgeo := h.represents.geometry
      have hpobj := (mem_flagged.1 (List.of_mem_zip hpq).1).1
      have hpobj' := (mem_flagged.1 (List.of_mem_zip hpq').1).1
      have hqobj := (List.of_mem_zip hpq').2
      have hsame : p' = p := hg.eq_of_addr hpobj' hpobj (by omega)
      -- a block has one copy, whichever root names it
      have hpartner := (zip_left_iff_right (hg.objects_nodup.filter _) hgeo.objects_nodup
        hpq' hpq).1 hsame
      have hqb := hgeo.object_bounded hqobj
      have hqs := (hgeo.wellSized hqobj).header
      have hobj := (List.forall₂_zip h.copies hpq).obj
      simp only
      rw [hvalue, decodePointer_encodePointer (by omega), Nat.add_sub_cancel, hpartner, ← hobj]

/-- The new heap is the copies of the blocks the roots named. -/
theorem Collected.objects_eq {vm' : VM} {rows' : List HeapRow}
    (h : Collected c.vm vm' rows rows') (hg : Geometry c.vm.store rows)
    (hquiet : InteriorQuiet c.vm rows) (hroots : RootsValid c.vm rows)
    (hblocks : heapObjects rows = c.blocks) : heapObjects rows' = copiesMade c vm' := by
  have hkept : kept c.vm rows = c.blocks.filter (Referred c.vm) := by
    rw [hquiet.kept_eq hroots, hblocks]
  have hpairs : List.Forall₂ (fun b b' => copyOfBlock c.vm vm' b = b') (kept c.vm rows)
      (heapObjects rows') := by
    refine forall₂_imp_zip h.copies (fun p q hpq _ => h.copyOfBlock_eq hg hpq ?_)
    have hp := (List.of_mem_zip hpq).1
    rw [hkept] at hp
    simpa using (List.mem_filter.1 hp).2
  unfold copiesMade
  rw [← hkept]
  exact (List.forall₂_eq_eq_eq ▸ List.forall₂_map_left_iff.2 hpairs :
    List.map _ _ = heapObjects rows').symm

/-- Roots name blocks of the new heap. -/
theorem Collected.rootsAmong {vm vm' : VM} {rows' : List HeapRow}
    (h : Collected vm vm' rows rows') (hstack : vm.sp.toNat ≤ STACK_SIZE) :
    RootsAmong vm' (heapObjects rows') := by
  have hsp : vm'.sp = vm.sp := congrArg Control.sp h.control
  have hroots : rootSlots vm' = rootSlots vm := by
    unfold rootSlots
    rw [hsp]
  refine ⟨by rw [hsp]; exact hstack, fun s hs hptr => ?_⟩
  rw [hroots] at hs
  by_cases hold : s.holdsPointer vm = true
  · obtain ⟨p, q, hpq, _, hvalue⟩ := h.patched s hs hold
    have hqobj := (List.of_mem_zip hpq).2
    have hqb := h.represents.geometry.object_bounded hqobj
    have hqs := (h.represents.geometry.wellSized hqobj).header
    refine ⟨q, hqobj, ?_⟩
    rw [hvalue]
    exact decodePointer_encodePointer (by omega)
  · unfold Slot.holdsPointer at hptr hold
    rw [h.value_of_not_pointer hs (Bool.eq_false_iff.2 hold)] at hptr
    exact absurd hptr hold

/-- A collection leaves the other half empty. -/
theorem Collected.inactive {vm vm' : VM} {rows' : List HeapRow}
    (h : Collected vm vm' rows rows') : (vm'.heap vm'.active.other).Empty := by
  have hother : vm.active.other.other = vm.active := by
    cases vm.active <;> rfl
  rw [h.active, hother]
  exact h.empty

/-- **A collection keeps the invariant.** -/
theorem TwoSpaces.collected (h : TwoSpaces c rows) (hscan : ScanInside c) :
    (∃ vm', compactingGarbageCollect c.vm = .error .badAlloc vm') ∨
    ∃ vm' rows', compactingGarbageCollect c.vm = .ok () vm' ∧
      TwoSpaces ⟨vm', copiesMade c vm'⟩ rows' := by
  have hquiet := h.quiet hscan
  have hg := h.represents.geometry
  rcases collect_spec h.represents h.inactive (hquiet.scannable h.rootsValid) with
    hfail | ⟨vm', rows', hrun, hc⟩
  · exact Or.inl hfail
  · right
    have hblocks := hc.objects_eq hg hquiet h.rootsValid h.blocks
    refine ⟨vm', rows', hrun,
      { represents := hc.represents
        blocks := hblocks
        inactive := hc.inactive
        roots := by rw [← hblocks]; exact hc.rootsAmong h.roots.stack
        zeroFill := by rw [hc.allocator]; exact h.zeroFill
        cleared := hc.cleared h.zeroFill
        blank := fun q hq k hk => ?_ }⟩
    have hq' : q ∈ heapObjects rows' := by
      rw [hblocks]
      exact hq
    -- `q` is the copy of some `p`, whose payload was blank
    obtain ⟨p, hqp⟩ := exists_mem_zip hc.copies.flip hq'
    have hcopy := List.forall₂_zip hc.copies.flip hqp
    have hp := (mem_flagged.1 (List.of_mem_zip hqp).2).1
    rw [h.blocks] at hp
    rw [hcopy.obj] at hk
    rw [hcopy.payload k hk]
    exact h.blank p hp k hk

/-- A payload is blank after an allocation, the new one too. -/
theorem TwoSpaces.blank_allocated (h : TwoSpaces c rows) {sp' : Space} {rows' : List HeapRow}
    {x : Obj} {p : Nat} (hall : Allocated ⟨c.vm.store, c.heap⟩ sp' rows rows' x p)
    {b : Nat × Obj} (hb : b ∈ c.blocks ++ [(p, x)]) {k : Nat} (hk : 16 + 8 * k < b.2.size) :
    sp'.store.word (b.1 + 16 + 8 * k) = 0 := by
  rcases List.mem_append.1 hb with hb | hb
  · have hobj : b ∈ heapObjects rows := by
      rw [h.blocks]
      exact hb
    have hword := hall.old_word h.represents.geometry hobj hk
    rw [← Nat.add_assoc] at hword
    rw [hword]
    exact h.blank b hb k hk
  · rw [List.mem_singleton.1 hb] at hk ⊢
    exact hall.blank h.zeroFill h.cleared k hk

/-- **An allocation without a collection keeps the invariant.** -/
theorem TwoSpaces.allocated (h : TwoSpaces c rows)
    (hfits : SIZEOF_OBJ_HEADER + size ≤ CHUNK_SIZE) (htype : type < 2 ^ 16) :
    (∃ vm', onHeap c.vm.active (heapAlloc size type) c.vm = .error .badAlloc vm') ∨
    ∃ vm' p rows', onHeap c.vm.active (heapAlloc size type) c.vm = .ok p vm' ∧
      TwoSpaces ⟨vm', c.blocks ++ [(p - 16, ⟨align (SIZEOF_OBJ_HEADER + size), type⟩)]⟩ rows' := by
  rcases heapAlloc_spec ⟨c.vm.store, c.heap⟩ h.represents size type hfits htype with
    ⟨sp', hfail⟩ | ⟨sp', rows', p, hrun, hall⟩
  · exact Or.inl ⟨_, onHeap_error hfail⟩
  · right
    have hp16 : p + 16 - 16 = p := by omega
    refine ⟨_, p + 16, rows', onHeap_ok hrun, ?_⟩
    rw [hp16]
    generalize hvm' : (c.vm.setHeap c.vm.active sp'.heap).setStore sp'.store = vm'
    have hactive : vm'.active = c.vm.active := by rw [← hvm']; simp
    have hsp : vm'.sp = c.vm.sp := by rw [← hvm']; simp
    have hstore : vm'.store = sp'.store := by rw [← hvm']; rfl
    -- no root has moved
    have hvalue : ∀ s ∈ rootSlots c.vm, s.value vm' = s.value c.vm := by
      intro s hs
      rw [← hvm']
      cases s with
      | reg r => simp [Slot.value]
      | stack i => simp [Slot.value]
      | heap a => exact absurd hs heap_not_root
    refine
      { represents := ?_
        blocks := by rw [hall.objects_eq, h.blocks]
        inactive := ?_
        roots := h.roots.grow hsp (fun b hb => List.mem_append_left _ hb)
          (fun s hs => Or.inl (hvalue s hs))
        zeroFill := ?_
        cleared := ?_
        blank := fun b hb k hk => ?_ }
    · have hheap : vm'.heap vm'.active = sp'.heap := by
        rw [hactive, ← hvm']
        simp
      show Represents vm'.store (vm'.heap vm'.active) rows'
      rw [hheap, hstore]
      exact hall.represents
    · show (vm'.heap vm'.active.other).Empty
      rw [hactive, ← hvm', VM.setStore_heap, VM.setHeap_other]
      exact h.inactive
    · show vm'.store.allocator.ZeroFill
      rw [hstore, hall.extends_.allocator]
      exact h.zeroFill
    · show Cleared vm'.store rows'
      rw [hstore]
      exact hall.cleared h.zeroFill h.cleared
    · show vm'.store.word _ = 0
      rw [hstore]
      exact h.blank_allocated hall hb hk

/-- **So does an allocation with one.** -/
theorem TwoSpaces.gcAllocated (h : TwoSpaces c rows)
    (hfits : SIZEOF_OBJ_HEADER + size ≤ CHUNK_SIZE) (htype : type < 2 ^ 16)
    (hscan : Over c → ScanInside c) :
    (∃ vm', gcCollectedHeapAlloc size type c.vm = .error .badAlloc vm') ∨
    ∃ vm' p rows', gcCollectedHeapAlloc size type c.vm = .ok p vm' ∧
      TwoSpaces ⟨vm', blocksBefore c ++
        [(p - 16, ⟨align (SIZEOF_OBJ_HEADER + size), type⟩)]⟩ rows' := by
  unfold blocksBefore
  by_cases hover : Over c
  · rcases h.collected (hscan hover) with ⟨vm', hfail⟩ | ⟨vm1, rows1, hrun, h1⟩
    · exact Or.inl ⟨vm', gcCollectedHeapAlloc_refused hover hfail⟩
    · rw [if_pos hover, hrun, gcCollectedHeapAlloc_of_over hover hrun]
      exact h1.allocated hfits htype
  · have hquiet : overTrigger c.heap.totalAllocated c.heap.max = false := Bool.eq_false_iff.2 hover
    rw [if_neg hover, gcCollectedHeapAlloc_of_not_over hquiet]
    exact h.allocated hfits htype

/-- **One step keeps the invariant.** -/
theorem TwoSpaces.step {c' : HeapTrace} {op : HeapOp} (h : TwoSpaces c rows)
    (hstep : HeapStep c op c') : ∃ rows', TwoSpaces c' rows' := by
  cases hstep with
  | alloc fits type_lt inside run =>
      rcases h.gcAllocated fits type_lt inside with ⟨_, hfail⟩ | ⟨vm', p, rows', hrun, h'⟩
      · rw [run] at hfail
        exact absurd hfail (by simp)
      · rw [run] at hrun
        injection hrun with hp hvm
        subst hp hvm
        exact ⟨rows', h'⟩
  | collect inside run =>
      rcases h.collected inside with ⟨_, hfail⟩ | ⟨vm', rows', hrun, h'⟩
      · rw [run] at hfail
        exact absurd hfail (by simp)
      · rw [run] at hrun
        injection hrun with _ hvm
        subst hvm
        exact ⟨rows', h'⟩
  | roots among =>
      exact ⟨rows, { h with roots := among }⟩

end Step

/-! ## §4. Runs. -/

/-- What a collection counts is what the roots named. -/
theorem copiesMade_sum (c : HeapTrace) (vm' : VM) :
    ((copiesMade c vm').map (fun b => b.2.size)).sum
      = ((c.blocks.filter (Referred c.vm)).map (fun b => b.2.size)).sum := by
  unfold copiesMade
  rw [List.map_map]
  congr 2
  funext b
  show (copyOfBlock c.vm vm' b).2.size = b.2.size
  rw [copyOfBlock_snd]

/-- **The two-space heap.**  From two empty halves every run keeps the
active heap well formed, a collection leaves exactly the bytes of the
objects the roots named, and the next step returns or is out of memory. -/
theorem two_space_heap (vm : VM) (hactive : (vm.heap vm.active).Empty)
    (hinactive : (vm.heap vm.active.other).Empty) (hzero : vm.store.allocator.ZeroFill)
    (hroots : RootsAmong vm []) {ops : List HeapOp} {c : HeapTrace}
    (hrun : Steps HeapStep ⟨vm, []⟩ ops c) :
    WellFormed c ∧
    (∀ c', HeapStep c .collect c' → c'.heap.totalAllocated
      = ((c.blocks.filter (Referred c.vm)).map (fun b => b.2.size)).sum) ∧
    (ScanInside c → (∃ vm', compactingGarbageCollect c.vm = .error .badAlloc vm') ∨
      ∃ c', HeapStep c .collect c') ∧
    (∀ size type, SIZEOF_OBJ_HEADER + size ≤ CHUNK_SIZE → type < 2 ^ 16 →
      (Over c → ScanInside c) →
      (∃ vm', gcCollectedHeapAlloc size type c.vm = .error .badAlloc vm') ∨
      ∃ c', HeapStep c (.alloc size type) c') := by
  -- the empty heap has no rows
  have h0 : ∃ rows, TwoSpaces ⟨vm, []⟩ rows :=
    ⟨[],
      { represents := hactive.represents vm.store
        blocks := rfl
        inactive := hinactive
        roots := hroots
        zeroFill := hzero
        cleared := fun r hr => absurd hr List.not_mem_nil
        blank := fun b hb => absurd hb List.not_mem_nil }⟩
  -- the rows exist in every reachable state
  obtain ⟨rows, h⟩ := hrun.invariant (fun c => ∃ rows, TwoSpaces c rows) h0
    (fun _ _ _ hI hstep => hI.elim (fun _ h => h.step hstep))
  refine ⟨h.wellFormed, ?_, ?_, ?_⟩
  · intro c' hstep
    obtain ⟨rows', h'⟩ := h.step hstep
    rw [h'.wellFormed.total.2]
    cases hstep
    exact copiesMade_sum c _
  · intro hscan
    rcases h.collected hscan with hfail | ⟨vm', _, hcollect, _⟩
    · exact Or.inl hfail
    · exact Or.inr ⟨_, HeapStep.collect hscan hcollect⟩
  · intro size type hfits htype hscan
    rcases h.gcAllocated hfits htype hscan with hfail | ⟨vm', p, _, halloc, _⟩
    · exact Or.inl hfail
    · exact Or.inr ⟨_, HeapStep.alloc hfits htype hscan halloc⟩

/-- An allocation step that does not collect. -/
theorem HeapStep.plain {c : HeapTrace} {size type p : Nat} {vm' : VM}
    {blocks : List (Nat × Obj)} (hover : ¬ Over c)
    (fits : SIZEOF_OBJ_HEADER + size ≤ CHUNK_SIZE) (type_lt : type < 2 ^ 16)
    (run : gcCollectedHeapAlloc size type c.vm = .ok p vm')
    (hblocks : c.blocks ++ [(p - 16, ⟨align (SIZEOF_OBJ_HEADER + size), type⟩)] = blocks) :
    HeapStep c (.alloc size type) ⟨vm', blocks⟩ := by
  have hstep := HeapStep.alloc fits type_lt (fun h => absurd h hover) run
  unfold blocksBefore at hstep
  rw [if_neg hover, hblocks] at hstep
  exact hstep

/-- The trace of one allocation. -/
def oneBlock : HeapTrace :=
  ⟨finalState (gcCollectedHeapAlloc 8 OBJ_STRING (VM.booted (fun _ => 0))),
    [(4096, ⟨24, OBJ_STRING⟩)]⟩

theorem booted_roots : RootsAmong (VM.booted (fun _ => 0)) [] :=
  ⟨by decide, by decide +kernel⟩

/-- A second one. -/
def twoBlocks : HeapTrace :=
  ⟨finalState (gcCollectedHeapAlloc 16 OBJ_STRING oneBlock.vm),
    [(4096, ⟨24, OBJ_STRING⟩), (4120, ⟨32, OBJ_STRING⟩)]⟩

/-- Register 1 names the second one. -/
def secondNamed : HeapTrace :=
  ⟨{ twoBlocks.vm with reg := fun r => if r = 1 then encodePointer 4136 else 0 }, twoBlocks.blocks⟩

/-- A collection leaves its copy. -/
def secondKept : HeapTrace :=
  ⟨finalState (compactingGarbageCollect secondNamed.vm),
    copiesMade secondNamed (finalState (compactingGarbageCollect secondNamed.vm))⟩

/-- Of two blocks the collection keeps the one a root names. -/
theorem two_space_heap_secondKept :
    WellFormed secondKept ∧ secondKept.heap.totalAllocated = 32 ∧ secondKept.blocks.length = 1 := by
  have hfirst : HeapStep ⟨VM.booted (fun _ => 0), []⟩ (.alloc 8 OBJ_STRING) oneBlock :=
    HeapStep.plain (p := 4112) (by decide +kernel) (by decide) (by decide)
      (ok_of_value (by decide +kernel)) (by decide +kernel)
  have hsecond : HeapStep oneBlock (.alloc 16 OBJ_STRING) twoBlocks :=
    HeapStep.plain (p := 4136) (by decide +kernel) (by decide) (by decide)
      (ok_of_value (by decide +kernel)) (by decide +kernel)
  have hroots : HeapStep twoBlocks
      (.roots secondNamed.vm.reg secondNamed.vm.stack secondNamed.vm.sp) secondNamed :=
    HeapStep.roots ⟨by decide +kernel, by decide +kernel⟩
  have hcollect : HeapStep secondNamed .collect secondKept :=
    HeapStep.collect (by unfold ScanInside; decide +kernel) (ok_of_value (by decide +kernel))
  have hrun := (((Steps.nil _).snoc hfirst).snoc hsecond).snoc hroots
  obtain ⟨-, htotal, -⟩ := two_space_heap (VM.booted (fun _ => 0)) ⟨rfl, rfl⟩ ⟨rfl, rfl⟩
    Allocator.ascending_zeroFill booted_roots hrun
  refine ⟨(two_space_heap (VM.booted (fun _ => 0)) ⟨rfl, rfl⟩ ⟨rfl, rfl⟩
    Allocator.ascending_zeroFill booted_roots (hrun.snoc hcollect)).1, ?_, by decide +kernel⟩
  -- the first block was named by nothing
  rw [htotal secondKept hcollect]
  decide +kernel

/-- A chunk filled up to its last sixteen bytes. -/
def nearlyFilled : HeapTrace :=
  ⟨finalState (gcCollectedHeapAlloc 4194272 OBJ_STRING (VM.booted (fun _ => 0))),
    [(4096, ⟨4194288, OBJ_STRING⟩)]⟩

/-- The same chunk with an array object without payload in the rest of it. -/
def filledChunk : HeapTrace :=
  ⟨finalState (gcCollectedHeapAlloc 0 OBJ_ARRAY nearlyFilled.vm),
    nearlyFilled.blocks ++ [(4198384, ⟨16, OBJ_ARRAY⟩)]⟩

/-- A block that leaves 16 bytes of its chunk. -/
theorem nearlyFilled_step :
    HeapStep ⟨VM.booted (fun _ => 0), []⟩ (.alloc 4194272 OBJ_STRING) nearlyFilled :=
  HeapStep.plain (p := 4112) (by decide +kernel) (by decide) (by decide)
    (ok_of_value (by decide +kernel)) (by decide +kernel)

/-- And an array without payload in these. -/
theorem filledChunk_step : HeapStep nearlyFilled (.alloc 0 OBJ_ARRAY) filledChunk :=
  HeapStep.plain (p := 4198400) (by decide +kernel) (by decide) (by decide)
    (ok_of_value (by decide +kernel)) (by decide +kernel)

/-- **Two limits of the invariant.**  With an array object without payload at
the end of a chunk a collection reads past the chunk; and a size for which
`sizeof(objHeader) + size` wraps around reserves nothing, so the next block
gets the same address. -/
theorem two_space_heap_limits :
    (∃ ops, Steps HeapStep ⟨VM.booted (fun _ => 0), []⟩ ops filledChunk ∧
      ∃ vm', compactingGarbageCollect filledChunk.vm = .error .undefinedBehaviour vm') ∧
    (align (SIZEOF_OBJ_HEADER + (2 ^ 64 - 16)) ≤ CHUNK_SIZE ∧
      ∃ p vm1 vm2, gcCollectedHeapAlloc (2 ^ 64 - 16) OBJ_STRING (VM.booted (fun _ => 0))
          = .ok p vm1 ∧ gcCollectedHeapAlloc 8 OBJ_STRING vm1 = .ok p vm2) :=
  ⟨⟨_, ((Steps.nil _).snoc nearlyFilled_step).snoc filledChunk_step, _,
      error_of_fault (by decide +kernel)⟩,
    by decide +kernel, 4112, _, _,
    ok_of_value (by decide +kernel), ok_of_value (by decide +kernel)⟩

end SproutLang
