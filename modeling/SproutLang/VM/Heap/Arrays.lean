/-
  SproutLang.VM.Heap.Arrays
  ─────────────────────────
  **WHERE AN ARRAY'S FIELDS AND ELEMENTS ARE.**

  `initArray` and `moveArray` lay an `arrayObj` over the payload of the
  block, behind the block's own header: for a block whose header is at `h`
  the type and the length share the word at `h + 32` and element `i` is the
  word at `h + 40 + 8 * i`.  The block `heapAlloc` reserves ends at
  `h + 24 + 8 * length`, so the last two elements lie behind it.
-/
import SproutLang.VM.Heap.Alloc

namespace SproutLang

open Library

/-! ## §1. Address arithmetic. -/

/-- Eight bytes an element. -/
theorem elementBytes_of_nonneg {n : Nat} (hn : n < 2 ^ 47) : elementBytes (n : Int) = 8 * n := by
  unfold elementBytes
  rw [BitVec.toNat_ofInt]
  omega

/-- Element `i` lies 24 bytes and `8 i` behind the base. -/
theorem elementAddr_of_nonneg {base i : Nat} (hb : base < 2 ^ 48) (hi : i < 2 ^ 47) :
    elementAddr base (i : Int) = base + 24 + 8 * i := by
  unfold elementAddr SIZEOF_ARRAY_OBJ
  rw [BitVec.toNat_ofInt]
  omega

/-- The length of an array's first word. -/
theorem arrayLength_arrayWord {t n : Nat} (ht : t < 2 ^ 32) (hn : n < 2 ^ 32) :
    arrayLength (arrayWord t n) = n := by
  unfold arrayLength arrayWord
  rw [BitVec.toNat_ofNat]
  omega

/-- The size of the block behind an array of `n` elements. -/
theorem align_array {n : Nat} (hn : n < 2 ^ 47) :
    align (SIZEOF_OBJ_HEADER + (8 * n + 8)) = 24 + 8 * n := by
  rw [align_of_multiple] <;> unfold SIZEOF_OBJ_HEADER <;> omega

/-! ## §2. Lifting memory operations to the machine. -/

/-- A computation on memory that returns. -/
theorem onStore_ok {α : Type} {x : EStateM Fault Store α} {vm : VM} {a : α} {s : Store}
    (h : x vm.store = .ok a s) : onStore x vm = .ok a (vm.setStore s) := zoom_ok h

/-- And one that fails. -/
theorem onStore_error {α : Type} {x : EStateM Fault Store α} {vm : VM} {e : Fault} {s : Store}
    (h : x vm.store = .error e s) : onStore x vm = .error e (vm.setStore s) := zoom_error h

/-- A load from mapped memory. -/
theorem onStore_load {vm : VM} {a : Nat} (h : vm.store.Mapped a) :
    onStore (load a) vm = .ok (vm.store.word a) vm := onStore_ok (load_ok h)

/-- A store to mapped memory. -/
theorem onStore_store {vm : VM} {a : Nat} {w : Word} (h : vm.store.Mapped a) :
    onStore (store a w) vm = .ok () (vm.setStore (vm.store.put a w)) := onStore_ok (store_ok h)

/-- A computation on a half that returns. -/
theorem onHeap_ok {α : Type} {half : Half} {x : EStateM Fault Space α} {vm : VM} {a : α}
    {sp : Space} (h : x ⟨vm.store, vm.heap half⟩ = .ok a sp) :
    onHeap half x vm = .ok a ((vm.setHeap half sp.heap).setStore sp.store) := zoom_ok h

/-- And one that fails. -/
theorem onHeap_error {α : Type} {half : Half} {x : EStateM Fault Space α} {vm : VM} {e : Fault}
    {sp : Space} (h : x ⟨vm.store, vm.heap half⟩ = .error e sp) :
    onHeap half x vm = .error e ((vm.setHeap half sp.heap).setStore sp.store) := zoom_error h

namespace VM

variable (vm : VM) (s : Store) (h : Heap) (half : Half) (r : Byte) (w : Word) (i : Nat)

@[simp] theorem setStore_control : (vm.setStore s).control = vm.control := rfl
@[simp] theorem setReg_control : (vm.setReg r w).control = vm.control := rfl
@[simp] theorem setSlot_control : (vm.setSlot i w).control = vm.control := rfl
@[simp] theorem setHeap_control : (vm.setHeap half h).control = vm.control := by
  cases half <;> rfl

@[simp] theorem setStore_store : (vm.setStore s).store = s := rfl
@[simp] theorem setStore_reg : (vm.setStore s).reg = vm.reg := rfl
@[simp] theorem setStore_stack : (vm.setStore s).stack = vm.stack := rfl
@[simp] theorem setStore_sp : (vm.setStore s).sp = vm.sp := rfl
@[simp] theorem setStore_active : (vm.setStore s).active = vm.active := rfl
@[simp] theorem setStore_heap : (vm.setStore s).heap half = vm.heap half := by cases half <;> rfl
@[simp] theorem setStore_setStore (s' : Store) : (vm.setStore s).setStore s' = vm.setStore s' := rfl

@[simp] theorem setReg_store : (vm.setReg r w).store = vm.store := rfl
@[simp] theorem setReg_stack : (vm.setReg r w).stack = vm.stack := rfl
@[simp] theorem setReg_sp : (vm.setReg r w).sp = vm.sp := rfl
@[simp] theorem setReg_active : (vm.setReg r w).active = vm.active := rfl
@[simp] theorem setReg_heap : (vm.setReg r w).heap half = vm.heap half := by cases half <;> rfl

@[simp] theorem setSlot_store : (vm.setSlot i w).store = vm.store := rfl
@[simp] theorem setSlot_reg : (vm.setSlot i w).reg = vm.reg := rfl
@[simp] theorem setSlot_sp : (vm.setSlot i w).sp = vm.sp := rfl
@[simp] theorem setSlot_active : (vm.setSlot i w).active = vm.active := rfl
@[simp] theorem setSlot_heap : (vm.setSlot i w).heap half = vm.heap half := by cases half <;> rfl

@[simp] theorem setHeap_store : (vm.setHeap half h).store = vm.store := by cases half <;> rfl
@[simp] theorem setHeap_reg : (vm.setHeap half h).reg = vm.reg := by cases half <;> rfl
@[simp] theorem setHeap_stack : (vm.setHeap half h).stack = vm.stack := by cases half <;> rfl
@[simp] theorem setHeap_sp : (vm.setHeap half h).sp = vm.sp := by cases half <;> rfl
@[simp] theorem setHeap_active : (vm.setHeap half h).active = vm.active := by cases half <;> rfl
@[simp] theorem setHeap_heap : (vm.setHeap half h).heap half = h := by cases half <;> rfl
@[simp] theorem setHeap_other : (vm.setHeap half h).heap half.other = vm.heap half.other := by
  cases half <;> rfl
@[simp] theorem setHeap_of_other : (vm.setHeap half.other h).heap half = vm.heap half := by
  cases half <;> rfl

end VM

/-! ## §3. `moveArray` inside the array. -/

section Access

variable {vm : VM} {target address index : Byte} {i : Nat}

/-- The common first part of an access that the length check lets pass. -/
theorem moveArray_eq {flag : Nat} (hidx : decodeInt (vm.reg index) = (i : Int))
    (hfields : vm.store.Mapped (decodePointer (vm.reg address) + 16))
    (hlen : i ≤ arrayLength (vm.store.word (decodePointer (vm.reg address) + 16))) :
    moveArray target address index flag vm =
      (do
        if flag = 0 then
          onStore (store (decodePointer (vm.reg address) + 24 + 8 * i) (vm.reg target))
        if flag = 1 then
          let w ← onStore (load (decodePointer (vm.reg address) + 24 + 8 * i))
          setReg target w : Exec Unit) vm := by
  have hbase := decodePointer_lt (vm.reg address)
  have hrange := decodeInt_range (vm.reg index)
  unfold moveArray
  rw [bind_ok get_apply]
  simp only [hidx, elementAddr_of_nonneg hbase (show i < 2 ^ 47 by omega), SIZEOF_OBJ_HEADER]
  rw [bind_ok (onStore_load hfields), if_neg (by omega)]

/-- `arrins` writes element `i`. -/
theorem moveArray_store (target : Byte) (hidx : decodeInt (vm.reg index) = (i : Int))
    (hfields : vm.store.Mapped (decodePointer (vm.reg address) + 16))
    (hlen : i ≤ arrayLength (vm.store.word (decodePointer (vm.reg address) + 16)))
    (helem : vm.store.Mapped (decodePointer (vm.reg address) + 24 + 8 * i)) :
    moveArray target address index 0 vm = .ok ()
      (vm.setStore
        (vm.store.put (decodePointer (vm.reg address) + 24 + 8 * i) (vm.reg target))) := by
  rw [moveArray_eq hidx hfields hlen, if_pos rfl, bind_ok (onStore_store helem)]
  rfl

/-- `arrread` reads element `i`. -/
theorem moveArray_load (target : Byte) (hidx : decodeInt (vm.reg index) = (i : Int))
    (hfields : vm.store.Mapped (decodePointer (vm.reg address) + 16))
    (hlen : i ≤ arrayLength (vm.store.word (decodePointer (vm.reg address) + 16)))
    (helem : vm.store.Mapped (decodePointer (vm.reg address) + 24 + 8 * i)) :
    moveArray target address index 1 vm = .ok ()
      (vm.setReg target (vm.store.word (decodePointer (vm.reg address) + 24 + 8 * i))) := by
  rw [moveArray_eq hidx hfields hlen, if_neg (by decide), if_pos rfl]
  exact bind_ok (onStore_load helem)

end Access

/-! ## §4. `initArray`. -/

/-- The next `gcCollectedHeapAlloc` collects first. -/
def VM.collects (vm : VM) : Prop :=
  overTrigger (vm.heap vm.active).totalAllocated (vm.heap vm.active).max = true

instance (vm : VM) : Decidable vm.collects := inferInstanceAs (Decidable (_ = true))

/-- Without a collection `gcCollectedHeapAlloc` is `heapAlloc` on the active
half. -/
theorem gcCollectedHeapAlloc_of_not_over {vm : VM} {size type : Nat}
    (h : overTrigger (vm.heap vm.active).totalAllocated (vm.heap vm.active).max = false) :
    gcCollectedHeapAlloc size type vm = onHeap vm.active (heapAlloc size type) vm := by
  unfold gcCollectedHeapAlloc
  rw [bind_ok get_apply]
  simp only [h]
  rfl

/-- Otherwise it is `heapAlloc` on the half the collection made active. -/
theorem gcCollectedHeapAlloc_of_over {vm vm1 : VM} {size type : Nat}
    (h : overTrigger (vm.heap vm.active).totalAllocated (vm.heap vm.active).max = true)
    (hrun : compactingGarbageCollect vm = .ok () vm1) :
    gcCollectedHeapAlloc size type vm = onHeap vm1.active (heapAlloc size type) vm1 := by
  unfold gcCollectedHeapAlloc
  rw [bind_ok get_apply]
  simp only [h]
  exact bind_ok hrun

/-- An allocation fails where its collection does. -/
theorem gcCollectedHeapAlloc_refused {vm vm1 : VM} {size type : Nat} {e : Fault}
    (h : overTrigger (vm.heap vm.active).totalAllocated (vm.heap vm.active).max = true)
    (hrun : compactingGarbageCollect vm = .error e vm1) :
    gcCollectedHeapAlloc size type vm = .error e vm1 := by
  unfold gcCollectedHeapAlloc
  rw [bind_ok get_apply]
  simp only [h]
  exact bind_error hrun

/-- What `initArray` leaves in memory for a block whose header is at `p`:
the fields, `n` zeroes, and everything else as it was. -/
structure ArrayWritten (s s' : Store) (p t n : Nat) : Prop where
  allocator : s'.allocator = s.allocator
  live : s'.live = s.live
  fields : s'.word (p + 32) = arrayWord t n
  elements : ∀ k < n, s'.word (p + 40 + 8 * k) = 0
  kept : ∀ a, a ≠ p + 32 → (a < p + 40 ∨ p + 40 + 8 * n ≤ a) → s'.word a = s.word a

/-- The stores of `initArray` once the block at `p` is allocated. -/
theorem initArray_ok {vm vm1 : VM} (dst type : Byte) {len : Byte} {n p : Nat}
    (hlen : decodeInt (vm.reg len) = (n : Int))
    (halloc : gcCollectedHeapAlloc (8 * n + 8) OBJ_ARRAY vm = .ok (p + 16) vm1)
    (hfields : vm1.store.Mapped (p + 32))
    (helems : ∀ k < n, vm1.store.Mapped (p + 40 + 8 * k)) :
    ∃ s', initArray dst len type vm
        = .ok () ((vm1.setStore s').setReg dst (encodePointer (BitVec.ofNat 64 (p + 16)))) ∧
      ArrayWritten vm1.store s' p (BitVec.ofInt 32 (decodeInt (vm1.reg type))).toNat n := by
  have hrange := decodeInt_range (vm.reg len)
  -- the length is not negative, so neither `elementBytes` nor its sum with 8 wraps
  have hbytes : elementBytes (n : Int) = 8 * n := elementBytes_of_nonneg (by omega)
  have hdata : (8 * n + 4 * 2) % 2 ^ 64 = 8 * n + 8 := by omega
  have hn32 : (BitVec.ofInt 32 (n : Int)).toNat = n % 2 ^ 32 := by
    rw [BitVec.toNat_ofInt]
    omega
  set t := (BitVec.ofInt 32 (decodeInt (vm1.reg type))).toNat with ht
  have ht32 : t < 2 ^ 32 := BitVec.isLt _
  -- `arr->length = len` first: the old type stays in its half of the word
  set w1 := arrayWord (arrayType (vm1.store.word (p + 32))) (n % 2 ^ 32) with hw1
  have hlen1 : arrayLength w1 = n % 2 ^ 32 :=
    arrayLength_arrayWord (by unfold arrayType; omega) (by omega)
  set s1 := (vm1.store.put (p + 32) w1).put (p + 32) (arrayWord t (n % 2 ^ 32)) with hs1
  obtain ⟨s2, hfill, hwrote, hzero⟩ :=
    @fillWords_ok s1 (p + 40) 0 n (fun k hk => helems k hk)
  refine ⟨s2, ?_, hwrote.allocator, hwrote.live, ?_, fun k hk => hzero k hk, ?_⟩
  · unfold initArray
    rw [bind_ok get_apply]
    simp only [hlen, hbytes, hdata]
    rw [bind_ok halloc]
    simp only [SIZEOF_OBJ_HEADER, SIZEOF_ARRAY_OBJ, hn32, Nat.add_assoc, Nat.reduceAdd]
    rw [bind_ok (onStore_load hfields), bind_ok (onStore_store hfields), bind_ok get_apply]
    have hfields' : (vm1.setStore (vm1.store.put (p + 32) w1)).store.Mapped (p + 32) := hfields
    -- the second assignment reads the word the first one has left
    have hword : (vm1.setStore (vm1.store.put (p + 32) w1)).store.word (p + 32) = w1 :=
      Store.put_word ..
    rw [bind_ok (onStore_load hfields'), hword, hlen1, bind_ok (onStore_store hfields')]
    have h8 : 8 * n / 8 = n := by omega
    rw [h8]
    have hfill' : fillWords (p + 40) 0 n
        ((vm1.setStore (vm1.store.put (p + 32) w1)).setStore s1).store = .ok () s2 := hfill
    exact bind_ok (onStore_ok hfill')
  · -- `length` is 32 bits wide
    have hmod : arrayWord t (n % 2 ^ 32) = arrayWord t n := by
      unfold arrayWord
      rw [Nat.mod_mod]
    rw [hwrote.frame _ (by omega), hs1, Store.put_word, hmod]
  · intro a hne hout
    rw [hwrote.frame a hout, hs1, Store.put_word_of_ne hne, Store.put_word_of_ne hne]

/-- A refused allocation ends `initArray`. -/
theorem initArray_refused {vm vm1 : VM} (dst type : Byte) {len : Byte} {n : Nat} {e : Fault}
    (hlen : decodeInt (vm.reg len) = (n : Int))
    (halloc : gcCollectedHeapAlloc (8 * n + 8) OBJ_ARRAY vm = .error e vm1) :
    initArray dst len type vm = .error e vm1 := by
  have hrange := decodeInt_range (vm.reg len)
  have hbytes : elementBytes (n : Int) = 8 * n := elementBytes_of_nonneg (by omega)
  have hdata : (8 * n + 4 * 2) % 2 ^ 64 = 8 * n + 8 := by omega
  unfold initArray
  rw [bind_ok get_apply]
  simp only [hlen, hbytes, hdata]
  exact bind_error halloc

/-! ## §5. Where an array goes. -/

/-- Where in its chunk `heapAlloc` puts a block of `total` bytes. -/
def nextOffset (h : Heap) (total : Nat) : Nat :=
  if needsChunk h total then 0
  else match h.chunks.getLast? with
    | some c => c.used
    | none => 0

/-- Where `heapAlloc` puts a block that goes behind another one. -/
def nextBehind (h : Heap) (total : Nat) : Option Nat :=
  if needsChunk h total then none else h.chunks.getLast?.map (fun c => c.mem + c.used)

section Placed

variable {rows rows' : List HeapRow} {x : Obj} {p n : Nat}

/-- Where a `Bump` goes, in terms of the counters it is decided by: other
chunks are apart from its own, and in its own it goes behind the last item. -/
theorem bump_next {s : Store} {h : Heap} (hrep : Represents s h rows)
    (hb : Bump Obj.size CHUNK_SIZE x rows p rows') (hx : x.size ≤ CHUNK_SIZE) :
    ∃ r' ∈ rows', (p, x) ∈ placed Obj.size r'.base r'.items ∧
      r'.base + nextOffset h x.size = p ∧ (∀ p', nextBehind h x.size = some p' → p' = p) ∧
      ∀ r ∈ rows, (r.region CHUNK_SIZE).Apart (r'.region CHUNK_SIZE) ∨
        nextBehind h x.size = some p ∧
        ∀ u ∈ placed Obj.size r.base r.items, u.1 + u.2.size = p ∨ u.1 + u.2.size + 16 ≤ p := by
  have hneeds := needsChunk_eq hrep hx
  cases hb with
  -- in the last chunk, behind everything it holds
  | behind rows r room =>
      have hfew : needsChunk h x.size = false := by
        rw [Bool.eq_false_iff, ne_eq, hneeds]
        intro hfull
        have := hfull r (List.getLast?_concat ..)
        omega
      have hlast : h.chunks.getLast? = some (toChunk r) := by
        rw [hrep.counts.chunks, List.map_append]
        exact List.getLast?_concat ..
      have hnext : nextBehind h x.size = some (r.base + r.used Obj.size) := by
        unfold nextBehind
        rw [hfew, hlast]
        rfl
      have hmem : r ∈ rows ++ [r] := List.mem_append_right _ (List.mem_singleton_self r)
      refine ⟨{ r with items := r.items ++ [x] },
        List.mem_append_right _ (List.mem_singleton_self _), ?_, ?_, ?_, ?_⟩
      · simp [placed_append, placed, Row.used]
      · show r.base + nextOffset h x.size = _
        unfold nextOffset
        rw [hfew, hlast]
        rfl
      · intro p' hp'
        rw [hnext] at hp'
        exact (Option.some.inj hp').symm
      · intro r' hr'
        rcases List.mem_append.1 hr' with hr' | hr'
        · exact Or.inl ((List.pairwise_append.1 hrep.geometry.arena.apart).2.2 r' hr' r
            (List.mem_singleton_self r))
        · -- the chunk itself: its blocks end in front of the header, or where it begins
          rw [List.mem_singleton.1 hr']
          refine Or.inr ⟨hnext, fun u hu => ?_⟩
          exact placed_stop Obj.size
            (fun o ho => (hrep.geometry.sized r hmem o ho).header) hu
  -- at the start of a chunk of its own
  | opened _ fresh full apart =>
      have hnew : needsChunk h x.size = true := hneeds.2 full
      have hnext : nextBehind h x.size = none := by
        unfold nextBehind
        rw [if_pos hnew]
      refine ⟨⟨p, [x]⟩, List.mem_append_right _ (List.mem_singleton_self _), ?_, ?_, ?_,
        fun r hr => Or.inl (apart r hr)⟩
      · simp [placed]
      · show p + nextOffset h x.size = p
        unfold nextOffset
        rw [if_pos hnew]
        rfl
      · intro p' hp'
        rw [hnext] at hp'
        exact absurd hp' (by simp)

/-- **Where the block of a new array of `n` elements lies**: elements and all
it is inside its chunk, in a chunk of its own or behind the last block. -/
structure ArrayPlaced (h : Heap) (rows rows' : List HeapRow) (p n : Nat) : Prop where
  row : ∃ r' ∈ rows', (p, ⟨24 + 8 * n, OBJ_ARRAY⟩) ∈ placed Obj.size r'.base r'.items ∧
    p + 40 + 8 * n ≤ r'.base + CHUNK_SIZE ∧
    ∀ r ∈ rows, (r.region CHUNK_SIZE).Apart (r'.region CHUNK_SIZE) ∨
      nextBehind h (24 + 8 * n) = some p ∧
      ∀ u ∈ placed Obj.size r.base r.items, u.1 + u.2.size = p ∨ u.1 + u.2.size + 16 ≤ p
  next : ∀ p', nextBehind h (24 + 8 * n) = some p' → p' = p

/-- No older block lies where the array's fields and elements are. -/
theorem ArrayPlaced.outside {h : Heap} (hp : ArrayPlaced h rows rows' p n)
    (ha : Arena Obj.size CHUNK_SIZE rows) {u : Nat × Obj} (hu : u ∈ heapObjects rows) :
    u.1 + u.2.size ≤ p ∨ p + 40 + 8 * n ≤ u.1 := by
  obtain ⟨r', hr', hpr', hend, hrows⟩ := hp.row
  obtain ⟨r, hr, hur, hlo, hused, hcap⟩ := ha.inside hu
  have hplo := (placed_bounds Obj.size hpr').1
  rcases hrows r hr with hsep | ⟨_, hitems⟩
  · simp only [Region.Apart, Row.region] at hsep
    omega
  · have hitem := hitems u hur
    omega

/-- Fields and elements are written on no header. -/
theorem ArrayPlaced.represents {s s' : Store} {h : Heap} {sp : Space} {t : Nat}
    (hp : ArrayPlaced h rows rows' p n) (ha : Arena Obj.size CHUNK_SIZE rows)
    (hall : Allocated ⟨s, h⟩ sp rows rows' ⟨24 + 8 * n, OBJ_ARRAY⟩ p)
    (hw : ArrayWritten sp.store s' p t n) : Represents s' sp.heap rows' := by
  have hgeo := hall.represents.geometry
  have hheaders : ∀ u ∈ heapObjects rows', ∀ k, k < 16 →
      s'.word (u.1 + k) = sp.store.word (u.1 + k) := by
    intro u hu k hk
    have hsize := (hgeo.wellSized hu).header
    rw [hall.objects_eq, List.mem_append, List.mem_singleton] at hu
    rcases hu with hu | rfl
    · have hout := hp.outside ha hu
      exact hw.kept _ (by omega) (by omega)
    · exact hw.kept _ (by omega) (by omega)
  refine ⟨hgeo.of_live (by rw [hw.live]; exact fun _ hr => hr), hall.represents.counts,
    fun u hu => ?_, fun u hu => ?_⟩
  · rw [← hall.represents.headers.header u hu]
    exact hheaders u hu 0 (by omega)
  · rw [← hall.represents.headers.forwarded u hu]
    exact hheaders u hu 8 (by omega)

/-- **`initArray` on a well-formed heap**, when the array fits: it runs out of
memory or places the block and writes fields and elements behind it.  `vm1` is
the state the allocation starts from, after a collection or without one. -/
theorem initArray_placed {vm vm1 : VM} (dst type : Byte) {len : Byte}
    (hlen : decodeInt (vm.reg len) = (n : Int))
    (hgc : gcCollectedHeapAlloc (8 * n + 8) OBJ_ARRAY vm
      = onHeap vm1.active (heapAlloc (8 * n + 8) OBJ_ARRAY) vm1)
    (hrep : Represents vm1.store (vm1.heap vm1.active) rows)
    (hfits : nextOffset (vm1.heap vm1.active) (24 + 8 * n) + (40 + 8 * n) ≤ CHUNK_SIZE) :
    (∃ vm', initArray dst len type vm = .error .badAlloc vm') ∨
    ∃ sp s' rows' p t, initArray dst len type vm = .ok ()
        ((((vm1.setHeap vm1.active sp.heap).setStore sp.store).setStore s').setReg dst
          (encodePointer (BitVec.ofNat 64 (p + 16)))) ∧ t < 2 ^ 32 ∧
      Allocated ⟨vm1.store, vm1.heap vm1.active⟩ sp rows rows' ⟨24 + 8 * n, OBJ_ARRAY⟩ p ∧
      ArrayWritten sp.store s' p t n ∧ ArrayPlaced (vm1.heap vm1.active) rows rows' p n := by
  have hH : SIZEOF_OBJ_HEADER = 16 := rfl
  have hC : CHUNK_SIZE = 4194304 := rfl
  have hrange := decodeInt_range (vm.reg len)
  have halign : align (SIZEOF_OBJ_HEADER + (8 * n + 8)) = 24 + 8 * n := align_array (by omega)
  rcases heapAlloc_spec ⟨vm1.store, vm1.heap vm1.active⟩ hrep (8 * n + 8) OBJ_ARRAY (by omega)
      (by decide) with ⟨sp', hrefused⟩ | ⟨sp', rows', p, hrun, hall⟩
  · left
    have hfail := hgc.trans (onHeap_error hrefused)
    exact ⟨_, initArray_refused dst type hlen hfail⟩
  · right
    rw [halign] at hall
    obtain ⟨r', hr', hpr', hbase, hnext, hrows⟩ := bump_next hrep hall.bump
      (show 24 + 8 * n ≤ CHUNK_SIZE by omega)
    have hbase' : r'.base + nextOffset (vm1.heap vm1.active) (24 + 8 * n) = p := hbase
    have hgeo := hall.represents.geometry
    -- the words of the array lie in its chunk, those past its block too
    have hmapped : ∀ a, a % 8 = 0 → p ≤ a → a + 8 ≤ p + 40 + 8 * n → sp'.store.Mapped a := by
      intro a ha hlo hhi
      refine ⟨ha, r'.region CHUNK_SIZE, hgeo.live r' hr', ?_, ?_⟩
      · show r'.base ≤ a
        omega
      · show a + 8 ≤ r'.base + CHUNK_SIZE
        omega
    have hp8 : p % 8 = 0 := hgeo.object_aligned hall.mem
    obtain ⟨s', hinit, hwrote⟩ := initArray_ok dst type hlen
      (hgc.trans (onHeap_ok hrun)) (hmapped _ (by omega) (by omega) (by omega))
      (fun k hk => hmapped _ (by omega) (by omega) (by omega))
    exact ⟨sp', s', rows', p, _, hinit, BitVec.isLt _, hall, hwrote,
      ⟨r', hr', hpr', by omega, hrows⟩, hnext⟩

end Placed

end SproutLang
