/-
  SproutLang.VM.Heap.Marking
  ──────────────────────────
  **THE MARK PHASE.**

  On a well-formed heap `markObjects` flags the header of every object that a
  root or a scanned element points to, and returns the slots it found a
  pointer in.  Marking touches headers only (`MarkedBy`), so what a slot
  holds does not depend on how far the phase has come.

    • `getAllObjects_ok` — the walk visits the objects in allocation order,
    • `markSlots_ok`     — one list of slots,
    • `markObjects_ok`   — the phase.
-/
import SproutLang.VM.Heap.Arrays

namespace SproutLang

open Library

/-! ## §1. Slots. -/

namespace Slot

/-- The word in a slot. -/
def value (vm : VM) : Slot → Word
  | .reg r => vm.reg r
  | .stack i => vm.stack i
  | .heap a => vm.store.word a

/-- The slot can be read. -/
def Readable (vm : VM) : Slot → Prop
  | .reg _ => True
  | .stack i => i < STACK_SIZE
  | .heap a => vm.store.Mapped a

/-- The slot is not the first word of an object. -/
def OffHeaders (rows : List HeapRow) : Slot → Prop
  | .heap a => ∀ p ∈ heapObjects rows, a ≠ p.1
  | _ => True

/-- The header of the object that a pointer slot names. -/
def target (vm : VM) (s : Slot) : Nat := decodePointer (s.value vm) - 16

/-- Slots that hold a pointer. -/
def holdsPointer (vm : VM) (s : Slot) : Bool := isPointer (s.value vm)

/-- A readable slot can be read. -/
theorem read_ok {vm : VM} {s : Slot} (h : s.Readable vm) : s.read vm = .ok (s.value vm) vm := by
  cases s with
  | reg r => rfl
  | stack i => exact if_pos h
  | heap a => exact onStore_load h

end Slot

/-- The word is the payload address of an object. -/
def ToObject (rows : List HeapRow) (w : Word) : Prop :=
  ∃ p ∈ heapObjects rows, decodePointer w = p.1 + 16

instance (rows : List HeapRow) (w : Word) : Decidable (ToObject rows w) :=
  inferInstanceAs (Decidable (∃ p ∈ heapObjects rows, _))

/-! ## §2. Marking a list of slots. -/

/-- **Of the words of `s` only the flags of the headers in `marks` changed.** -/
structure MarkedBy (s s' : Store) (rows : List HeapRow) (marks : List Nat) : Prop where
  allocator : s'.allocator = s.allocator
  live : s'.live = s.live
  calls : s'.calls = s.calls
  header : ∀ p ∈ heapObjects rows,
    s'.word p.1 = headerWord p.2.size p.2.type (if p.1 ∈ marks then FLAG_MARKED else 0)
  kept : ∀ a, (∀ p ∈ heapObjects rows, a ≠ p.1) → s'.word a = s.word a

namespace MarkedBy

variable {s s' : Store} {rows : List HeapRow} {marks : List Nat} {p : Nat × Obj}

theorem refl (h : Headers s rows) : MarkedBy s s rows [] :=
  ⟨rfl, rfl, rfl, by simpa using h.header, fun _ _ => rfl⟩

/-- Marking maps and unmaps nothing. -/
theorem mapped (h : MarkedBy s s' rows marks) (a : Nat) : s'.Mapped a ↔ s.Mapped a := by
  unfold Store.Mapped
  rw [h.live]

/-- It keeps the geometry. -/
theorem geometry (h : MarkedBy s s' rows marks) (hg : Geometry s rows) : Geometry s' rows :=
  hg.of_live (by rw [h.live]; exact fun _ hr => hr)

/-- A header keeps its size under marking. -/
theorem objSize_eq (h : MarkedBy s s' rows marks) (hg : Geometry s rows)
    (hp : p ∈ heapObjects rows) : objSize (s'.word p.1) = p.2.size := by
  have hsized := hg.wellSized hp
  have hfits := hsized.fits
  have hC : CHUNK_SIZE = 4194304 := rfl
  rw [h.header p hp]
  refine objSize_headerWord (by omega) hsized.type_lt ?_
  split <;> decide

/-- An object keeps its type. -/
theorem objType_eq (h : MarkedBy s s' rows marks) (hg : Geometry s rows)
    (hp : p ∈ heapObjects rows) : objType (s'.word p.1) = p.2.type := by
  have hsized := hg.wellSized hp
  have hfits := hsized.fits
  have hC : CHUNK_SIZE = 4194304 := rfl
  rw [h.header p hp]
  refine objType_headerWord (by omega) hsized.type_lt ?_
  split <;> decide

/-- Its flags tell whether it is marked. -/
theorem objFlags_eq (h : MarkedBy s s' rows marks) (hg : Geometry s rows)
    (hp : p ∈ heapObjects rows) :
    objFlags (s'.word p.1) = if p.1 ∈ marks then FLAG_MARKED else 0 := by
  have hsized := hg.wellSized hp
  have hfits := hsized.fits
  have hC : CHUNK_SIZE = 4194304 := rfl
  rw [h.header p hp]
  refine objFlags_headerWord (by omega) hsized.type_lt ?_
  split <;> decide

end MarkedBy

section Marking

variable {vm : VM} {s' : Store} {rows : List HeapRow} {marks : List Nat}

/-- Marking the object a pointer names adds its header to the marks. -/
theorem markObject_pointer (h : MarkedBy vm.store s' rows marks) (hg : Geometry vm.store rows)
    {w : Word} (hw : isPointer w = true) (hobj : ToObject rows w) :
    ∃ s'', markObject w s' = .ok true s'' ∧
      MarkedBy vm.store s'' rows (marks ++ [decodePointer w - 16]) := by
  obtain ⟨p, hp, hpw⟩ := hobj
  have hbound := hg.object_bounded hp
  have hhead := (hg.wellSized hp).header
  have hhdr : headerOf (decodePointer w) = p.1 := by
    rw [hpw]
    exact headerOf_add (by omega)
  have hmap : s'.Mapped p.1 :=
    (h.mapped _).2 (hg.mapped hp (hg.object_aligned hp) (Nat.le_refl _) (by omega))
  -- marked twice is marked once
  have hflags : objFlags (s'.word p.1) ||| FLAG_MARKED = FLAG_MARKED := by
    rw [h.objFlags_eq hg hp]
    split <;> rfl
  have hmark : decodePointer w - 16 = p.1 := by omega
  refine ⟨s'.put p.1 (headerWord p.2.size p.2.type FLAG_MARKED), ?_, ?_⟩
  · unfold markObject
    rw [if_pos hw]
    simp only [hhdr]
    rw [bind_ok (load_ok hmap), bind_ok (store_ok hmap), h.objSize_eq hg hp, h.objType_eq hg hp,
      hflags]
    rfl
  · refine ⟨h.allocator, h.live, h.calls, fun q hq => ?_, fun a ha => ?_⟩
    · rw [hmark]
      by_cases hqp : q.1 = p.1
      · have hsame := hg.eq_of_addr hq hp hqp
        subst hsame
        rw [Store.put_word, if_pos (List.mem_append_right _ (List.mem_singleton_self _))]
      · have hmem : q.1 ∈ marks ++ [p.1] ↔ q.1 ∈ marks := by simp [hqp]
        rw [Store.put_word_of_ne hqp, h.header q hq]
        simp only [hmem]
    · rw [Store.put_word_of_ne (ha p hp)]
      exact h.kept a ha

/-- Words other than pointers mark nothing. -/
theorem markObject_other {w : Word} (hw : isPointer w = false) (s : Store) :
    markObject w s = .ok false s := by
  unfold markObject
  rw [if_neg (by rw [hw]; exact Bool.false_ne_true)]
  rfl

/-- What a slot off the headers holds does not change by marking. -/
theorem MarkedBy.value_eq (h : MarkedBy vm.store s' rows marks) {s : Slot}
    (hs : s.OffHeaders rows) : s.value (vm.setStore s') = s.value vm := by
  cases s with
  | reg r => rfl
  | stack i => rfl
  | heap a => exact h.kept a hs

/-- What was readable still is. -/
theorem MarkedBy.readable (h : MarkedBy vm.store s' rows marks) {s : Slot}
    (hs : s.Readable vm) : s.Readable (vm.setStore s') := by
  cases s with
  | reg r => trivial
  | stack i => exact hs
  | heap a => exact (h.mapped a).2 hs

/-- **Marking a list of slots** finds those that hold a pointer and marks
what they point to. -/
theorem markSlots_ok (hg : Geometry vm.store rows) (slots : List Slot) :
    (∀ s ∈ slots, s.Readable vm ∧ s.OffHeaders rows ∧
      (s.holdsPointer vm = true → ToObject rows (s.value vm))) →
    ∀ s' marks, MarkedBy vm.store s' rows marks →
    ∃ s'', markSlots slots (vm.setStore s')
        = .ok (slots.filter (Slot.holdsPointer vm)) (vm.setStore s'') ∧
      MarkedBy vm.store s'' rows
        (marks ++ (slots.filter (Slot.holdsPointer vm)).map (Slot.target vm)) := by
  -- on the slots, in the order they are read; `marks` grows with each pointer
  induction slots with
  | nil =>
      intro _ s' marks h
      exact ⟨s', rfl, by simpa using h⟩
  | cons s slots ih =>
      intro hslots s' marks h
      obtain ⟨hread, hoff, hobj⟩ := hslots s List.mem_cons_self
      have hrest : ∀ t ∈ slots, t.Readable vm ∧ t.OffHeaders rows ∧
          (t.holdsPointer vm = true → ToObject rows (t.value vm)) :=
        fun t ht => hslots t (List.mem_cons_of_mem _ ht)
      -- earlier marks changed headers only, and no slot is one
      have hvalue := h.value_eq hoff
      have hrun := Slot.read_ok (h.readable hread)
      rw [hvalue] at hrun
      by_cases hptr : s.holdsPointer vm = true
      · obtain ⟨s1, hmark, h1⟩ := markObject_pointer h hg hptr (hobj hptr)
        obtain ⟨s2, hmore, h2⟩ := ih hrest s1 _ h1
        refine ⟨s2, ?_, ?_⟩
        · unfold markSlots
          have hmark' : onStore (markObject (s.value vm)) (vm.setStore s')
              = .ok true (vm.setStore s1) := onStore_ok hmark
          rw [bind_ok hrun, bind_ok hmark', bind_ok hmore, List.filter_cons_of_pos hptr]
          rfl
        · rw [List.filter_cons_of_pos hptr, List.map_cons, ← List.append_cons] at *
          exact h2
      · have hptr' : isPointer (s.value vm) = false := Bool.eq_false_iff.2 hptr
        obtain ⟨s2, hmore, h2⟩ := ih hrest s' _ h
        refine ⟨s2, ?_, ?_⟩
        · unfold markSlots
          have hmark' : onStore (markObject (s.value vm)) (vm.setStore s')
              = .ok false (vm.setStore s') := onStore_ok (markObject_other hptr' s')
          rw [bind_ok hrun, bind_ok hmark', bind_ok hmore, List.filter_cons_of_neg hptr]
          rfl
        · rw [List.filter_cons_of_neg hptr]
          exact h2

end Marking

/-! ## §3. The walk over the heap. -/

section Walk

variable {s : Store} {rows : List HeapRow}

/-- Where the walk of a chunk stands: at the end of the items passed. -/
theorem walkChunk_ok {r : HeapRow} (hfit : r.used Obj.size ≤ CHUNK_SIZE)
    (hsized : ∀ o ∈ r.items, o.WellSized)
    (hread : ∀ p ∈ placed Obj.size r.base r.items,
      s.Mapped p.1 ∧ objSize (s.word p.1) = p.2.size) (rest : List Obj) :
    ∀ passed rounds, r.items = passed ++ rest → rest.length ≤ rounds →
      walkChunk (toChunk r) rounds (extent Obj.size passed) s
        = .ok ((placed Obj.size (r.base + extent Obj.size passed) rest).map Prod.fst) s := by
  -- on the items not yet passed; `passed` is what `i` has counted so far
  induction rest with
  | nil =>
      intro passed rounds hitems _
      unfold walkChunk
      rw [walk_end hitems, if_neg (Nat.lt_irrefl _)]
      rfl
  | cons o rest ih =>
      intro passed rounds hitems hrounds
      have ho : o ∈ r.items := by
        rw [hitems]
        exact List.mem_append_right _ List.mem_cons_self
      have hmem : (r.base + extent Obj.size passed, o) ∈ placed Obj.size r.base r.items := by
        rw [hitems]
        exact mem_placed_of_split Obj.size r.base passed rest o
      obtain ⟨hmap, hsize⟩ := hread _ hmem
      obtain ⟨hlt, hnext⟩ := walk_step hitems hfit (hsized o ho).header
      cases rounds with
      -- every item has its round
      | zero => exact absurd hrounds (by simp)
      | succ rounds =>
          have hmore := ih (passed ++ [o]) rounds (by rw [hitems]; simp)
            (by simpa using hrounds)
          have hload : load ((toChunk r).mem + extent Obj.size passed) s
              = .ok (s.word (r.base + extent Obj.size passed)) s := load_ok hmap
          unfold walkChunk
          rw [if_pos hlt]
          simp only
          rw [bind_ok hload, hsize, hnext, bind_ok hmore]
          simp [placed, toChunk, Nat.add_assoc]

/-- **The walk visits the objects in allocation order.** -/
theorem getAllObjects_ok (hg : Geometry s rows)
    (hsize : ∀ p ∈ heapObjects rows, objSize (s.word p.1) = p.2.size) :
    getAllObjects (rows.map toChunk) s = .ok ((heapObjects rows).map Prod.fst) s := by
  have hread : ∀ p ∈ heapObjects rows, s.Mapped p.1 ∧ objSize (s.word p.1) = p.2.size := by
    intro p hp
    have hhead := (hg.wellSized hp).header
    exact ⟨hg.mapped hp (hg.object_aligned hp) (Nat.le_refl _) (by omega), hsize p hp⟩
  have hfits := hg.arena.fits
  have hsized := hg.sized
  clear hg hsize
  induction rows with
  | nil => rfl
  | cons r rows ih =>
      have hr := hsized r List.mem_cons_self
      -- no block is empty, so `used` rounds are enough
      have hlen : r.items.length ≤ (toChunk r).used :=
        length_le_extent Obj.size (fun o ho => by have := (hr o ho).header; omega)
      have hwalk := walkChunk_ok (hfits r List.mem_cons_self) hr
        (fun p hp => hread p (by rw [heapObjects_cons]; exact List.mem_append_left _ hp))
        r.items [] (toChunk r).used rfl hlen
      have hrest := ih (fun p hp => hread p (by rw [heapObjects_cons]; exact List.mem_append_right _ hp))
        (fun r' hr' => hfits r' (List.mem_cons_of_mem _ hr'))
        (fun r' hr' => hsized r' (List.mem_cons_of_mem _ hr'))
      rw [List.map_cons]
      unfold getAllObjects
      rw [extent_nil, Nat.add_zero] at hwalk
      rw [bind_ok hwalk, bind_ok hrest, heapObjects_cons, List.map_append]
      rfl

end Walk

/-! ## §4. The interior scan. -/

/-- The elements the interior scan visits in an object, when it takes it for
a pointer array. -/
def interiorScan (s : Store) (p : Nat × Obj) : List Slot :=
  if p.2.type = OBJ_ARRAY ∧ arrayType (s.word (p.1 + 16)) = TAG_POINTER.toNat then
    (List.range (arrayLength (s.word (p.1 + 16)))).map (fun i => Slot.heap (p.1 + 24 + 8 * i))
  else []

/-- All slots the mark phase looks at. -/
def scannedSlots (vm : VM) (rows : List HeapRow) : List Slot :=
  rootSlots vm ++ (heapObjects rows).flatMap (interiorScan vm.store)

/-- The slots it keeps. -/
def foundSlots (vm : VM) (rows : List HeapRow) : List Slot :=
  (scannedSlots vm rows).filter (Slot.holdsPointer vm)

/-- The headers it marks. -/
def marks (vm : VM) (rows : List HeapRow) : List Nat :=
  (foundSlots vm rows).map (Slot.target vm)

/-- **What the mark phase relies on**: every pointer it meets names an object
and every array it scans ends inside its object. -/
structure Scannable (vm : VM) (rows : List HeapRow) : Prop where
  stack : vm.sp.toNat ≤ STACK_SIZE
  fields : ∀ p ∈ heapObjects rows, p.2.type = OBJ_ARRAY → vm.store.Mapped (p.1 + 16)
  inside : ∀ p ∈ heapObjects rows, p.2.type = OBJ_ARRAY →
    arrayType (vm.store.word (p.1 + 16)) = TAG_POINTER.toNat →
    24 + 8 * arrayLength (vm.store.word (p.1 + 16)) ≤ p.2.size
  valid : ∀ s ∈ scannedSlots vm rows, s.holdsPointer vm = true → ToObject rows (s.value vm)

section Interior

variable {vm : VM} {s' : Store} {rows : List HeapRow} {p : Nat × Obj} {slot : Slot}

/-- An interior slot belongs to an array read as one of pointers. -/
theorem mem_interiorScan {s : Store} (h : slot ∈ interiorScan s p) :
    p.2.type = OBJ_ARRAY ∧ arrayType (s.word (p.1 + 16)) = TAG_POINTER.toNat ∧
      ∃ i < arrayLength (s.word (p.1 + 16)), slot = .heap (p.1 + 24 + 8 * i) := by
  unfold interiorScan at h
  split at h
  · obtain ⟨i, hi, rfl⟩ := List.mem_map.1 h
    rename_i hscan
    exact ⟨hscan.1, hscan.2, i, List.mem_range.1 hi, rfl⟩
  · exact absurd h List.not_mem_nil

/-- A scanned element lies inside its object, behind the array's fields. -/
theorem Scannable.element (h : Scannable vm rows) (hp : p ∈ heapObjects rows)
    (hs : slot ∈ interiorScan vm.store p) :
    ∃ a, slot = .heap a ∧ a % 8 = p.1 % 8 ∧ p.1 + 24 ≤ a ∧ a + 8 ≤ p.1 + p.2.size := by
  obtain ⟨htype, harray, i, hi, rfl⟩ := mem_interiorScan hs
  have hin := h.inside p hp htype harray
  exact ⟨_, rfl, by omega, by omega, by omega⟩

/-- Every slot that is scanned is readable and no header. -/
theorem Scannable.readable (h : Scannable vm rows) (hg : Geometry vm.store rows)
    (hs : slot ∈ scannedSlots vm rows) : slot.Readable vm ∧ slot.OffHeaders rows := by
  rcases List.mem_append.1 hs with hs | hs
  · rcases List.mem_append.1 hs with hs | hs
    · obtain ⟨r, _, rfl⟩ := List.mem_map.1 hs
      exact ⟨trivial, trivial⟩
    · obtain ⟨i, hi, rfl⟩ := List.mem_map.1 hs
      have hlt := List.mem_range.1 hi
      exact ⟨Nat.lt_of_lt_of_le hlt h.stack, trivial⟩
  · obtain ⟨p, hp, hsp⟩ := List.mem_flatMap.1 hs
    obtain ⟨a, rfl, hal, hlo, hhi⟩ := h.element hp hsp
    have hpal := hg.object_aligned hp
    refine ⟨hg.mapped hp (by omega) (by omega) hhi, fun q hq heq => ?_⟩
    have hqs := (hg.wellSized hq).header
    rcases hg.arena.eq_or_apart hp hq with rfl | hsep | hsep
    · omega
    · omega
    · omega

/-- The scan of an object sees through the marks: a field word that is a
header has a size for its type, and no size is `TAG_POINTER`. -/
theorem interiorSlots_ok (h : MarkedBy vm.store s' rows marks') (hg : Geometry vm.store rows)
    (hrep : Headers vm.store rows) (hscan : Scannable vm rows) (hp : p ∈ heapObjects rows) :
    interiorSlots p.1 s' = .ok (interiorScan vm.store p) s' := by
  have hhead := (hg.wellSized hp).header
  have hmap : s'.Mapped p.1 :=
    (h.mapped _).2 (hg.mapped hp (hg.object_aligned hp) (Nat.le_refl _) (by omega))
  unfold interiorSlots
  rw [bind_ok (load_ok hmap), h.objType_eq hg hp]
  unfold interiorScan
  by_cases htype : p.2.type = OBJ_ARRAY
  · have hmap16 : s'.Mapped (p.1 + 16) := (h.mapped _).2 (hscan.fields p hp htype)
    rw [if_pos htype]
    have hload : load (p.1 + SIZEOF_OBJ_HEADER) s' = .ok (s'.word (p.1 + 16)) s' := load_ok hmap16
    rw [bind_ok hload]
    -- the word read as the array's fields may be the header of the next block
    by_cases hon : ∃ q ∈ heapObjects rows, p.1 + 16 = q.1
    · obtain ⟨q, hq, heq⟩ := hon
      have hsized := hg.wellSized hq
      -- and a header's size is no pointer type, marked or not
      have hne : ∀ w : Word, objSize w = q.2.size → arrayType w ≠ TAG_POINTER.toNat := by
        intro w hw harray
        have h16 := hsized.header
        have h2 : TAG_POINTER.toNat = 2 := rfl
        unfold objSize at hw
        unfold arrayType at harray
        omega
      have hold := (MarkedBy.refl hrep).objSize_eq hg hq
      have hnew := h.objSize_eq hg hq
      rw [heq, if_neg (hne _ hnew), if_neg (fun hc => hne _ hold hc.2)]
      rfl
    · push Not at hon
      -- any other word is as it was before marking
      rw [h.kept (p.1 + 16) hon]
      by_cases harray : arrayType (vm.store.word (p.1 + 16)) = TAG_POINTER.toNat
      · rw [if_pos harray, if_pos ⟨htype, harray⟩]
        rfl
      · rw [if_neg harray, if_neg (fun hc => harray hc.2)]
        rfl
  · rw [if_neg htype, if_neg (fun hc => htype hc.1)]
    rfl

/-- The interior scan of a list of objects. -/
theorem markInterior_ok (hg : Geometry vm.store rows) (hrep : Headers vm.store rows)
    (hscan : Scannable vm rows) (ps : List (Nat × Obj)) :
    (∀ p ∈ ps, p ∈ heapObjects rows) → ∀ s' marks, MarkedBy vm.store s' rows marks →
    ∃ s'', markInterior (ps.map Prod.fst) (vm.setStore s')
        = .ok ((ps.flatMap (interiorScan vm.store)).filter (Slot.holdsPointer vm))
          (vm.setStore s'') ∧
      MarkedBy vm.store s'' rows (marks ++
        ((ps.flatMap (interiorScan vm.store)).filter (Slot.holdsPointer vm)).map
          (Slot.target vm)) := by
  -- on the objects: each adds its slots to those found so far
  induction ps with
  | nil =>
      intro _ s' marks h
      exact ⟨s', rfl, by simpa using h⟩
  | cons p ps ih =>
      intro hps s' marks h
      have hp := hps p List.mem_cons_self
      have hscanned : ∀ s ∈ interiorScan vm.store p, s ∈ scannedSlots vm rows := fun s hs =>
        List.mem_append_right _ (List.mem_flatMap.2 ⟨p, hp, hs⟩)
      have hslots : onStore (interiorSlots p.1) (vm.setStore s')
          = .ok (interiorScan vm.store p) (vm.setStore s') :=
        onStore_ok (interiorSlots_ok h hg hrep hscan hp)
      obtain ⟨s1, hmark, h1⟩ := markSlots_ok hg (interiorScan vm.store p)
        (fun s hs => ⟨(hscan.readable hg (hscanned s hs)).1, (hscan.readable hg (hscanned s hs)).2,
          hscan.valid s (hscanned s hs)⟩) s' marks h
      obtain ⟨s2, hmore, h2⟩ := ih (fun q hq => hps q (List.mem_cons_of_mem _ hq)) s1 _ h1
      refine ⟨s2, ?_, ?_⟩
      · rw [List.map_cons]
        unfold markInterior
        rw [bind_ok hslots, bind_ok hmark, bind_ok hmore, List.flatMap_cons, List.filter_append]
        rfl
      · rw [List.flatMap_cons, List.filter_append, List.map_append, ← List.append_assoc]
        exact h2

end Interior

/-! ## §5. The phase. -/

/-- **The mark phase** returns the pointer slots and marks what they name. -/
theorem markObjects_ok {vm : VM} {rows : List HeapRow}
    (hrep : Represents vm.store (vm.heap vm.active) rows) (hscan : Scannable vm rows) :
    ∃ s', markObjects vm = .ok (foundSlots vm rows) (vm.setStore s') ∧
      MarkedBy vm.store s' rows (marks vm rows) := by
  have hg := hrep.geometry
  have hstart := MarkedBy.refl hrep.headers
  have hscanned : ∀ s ∈ rootSlots vm, s ∈ scannedSlots vm rows :=
    fun s hs => List.mem_append_left _ hs
  obtain ⟨s1, hroots, h1⟩ := markSlots_ok hg (rootSlots vm)
    (fun s hs => ⟨(hscan.readable hg (hscanned s hs)).1, (hscan.readable hg (hscanned s hs)).2,
      hscan.valid s (hscanned s hs)⟩) vm.store [] hstart
  obtain ⟨s2, hinterior, h2⟩ := markInterior_ok hg hrep.headers hscan (heapObjects rows)
    (fun p hp => hp) s1 _ h1
  -- the objects are listed first, with the memory as it was
  have hwalk : onStore (getAllObjects (vm.heap vm.active).chunks) vm
      = .ok ((heapObjects rows).map Prod.fst) vm := by
    rw [hrep.counts.chunks]
    exact onStore_ok (getAllObjects_ok hg (fun p hp => hstart.objSize_eq hg hp))
  refine ⟨s2, ?_, ?_⟩
  · unfold markObjects
    rw [bind_ok get_apply, bind_ok hwalk]
    have hroots' : markSlots (rootSlots vm) vm = .ok _ (vm.setStore s1) := hroots
    rw [bind_ok hroots', bind_ok hinterior]
    unfold foundSlots scannedSlots
    rw [List.filter_append]
    rfl
  · unfold marks foundSlots scannedSlots
    rw [List.filter_append, List.map_append]
    exact h2

end SproutLang
