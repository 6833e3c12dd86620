/-
  SproutLang.VM.Heap.Layout
  ─────────────────────────
  **WHAT A WELL-FORMED HEAP LOOKS LIKE.**

  `Represents s h rows` says that the heap `h` is the arena `rows`: its
  chunks are live regions, its counters are the sums of the sizes, and every
  item starts with a clear header of its size and type.  `heapAlloc_spec` is
  the one fact about allocation that later proofs use: one `Bump` of the
  arena, and no word of a live region outside the new header changes.
-/
import SproutLang.VM.Heap.Collector
import SproutLang.Library.Arena

namespace SproutLang

open Library

/-! ## §1. Packed words. -/

/-- `align` rounds up to a multiple of 8. -/
theorem align_eq (n : Nat) : align n = (n + 7) % 2 ^ 64 / 8 * 8 := by
  unfold align ALIGN
  have hmask : (~~~(BitVec.ofNat 64 (8 - 1))).toNat = (2 ^ 61 - 1) * 2 ^ 3 := by decide
  rw [BitVec.toNat_and, hmask, and_field, BitVec.toNat_ofNat]
  omega

/-- A size that is a multiple of 8 is its own rounding. -/
theorem align_of_multiple {n : Nat} (h : n % 8 = 0) (hn : n < 2 ^ 63) : align n = n := by
  rw [align_eq]
  omega

theorem align_mod (n : Nat) : align n % 8 = 0 := by
  rw [align_eq]
  omega

section HeaderFields

variable {size type flags : Nat}

/-- A header word as a sum. -/
theorem toNat_headerWord (hs : size < 2 ^ 32) (ht : type < 2 ^ 16) (hf : flags < 2 ^ 16) :
    (headerWord size type flags).toNat = size + type * 2 ^ 32 + flags * 2 ^ 48 := by
  unfold headerWord
  rw [BitVec.toNat_ofNat]
  omega

/-- Its size. -/
theorem objSize_headerWord (hs : size < 2 ^ 32) (ht : type < 2 ^ 16) (hf : flags < 2 ^ 16) :
    objSize (headerWord size type flags) = size := by
  unfold objSize
  rw [toNat_headerWord hs ht hf]
  omega

/-- Its type. -/
theorem objType_headerWord (hs : size < 2 ^ 32) (ht : type < 2 ^ 16) (hf : flags < 2 ^ 16) :
    objType (headerWord size type flags) = type := by
  unfold objType
  rw [toNat_headerWord hs ht hf]
  omega

/-- Its flags. -/
theorem objFlags_headerWord (hs : size < 2 ^ 32) (ht : type < 2 ^ 16) (hf : flags < 2 ^ 16) :
    objFlags (headerWord size type flags) = flags := by
  unfold objFlags
  rw [toNat_headerWord hs ht hf]
  omega

end HeaderFields

/-- Behind its 16-byte header, an address steps back to the header. -/
theorem headerOf_add {a : Nat} (h : a + 16 < 2 ^ 64) : headerOf (a + 16) = a := by
  unfold headerOf SIZEOF_OBJ_HEADER
  omega

/-! ## §2. The arena behind a heap. -/

/-- An object as its header describes it. -/
structure Obj where
  size : Nat
  type : Nat
  deriving DecidableEq, Repr

/-- A chunk with its objects. -/
abbrev HeapRow := Row Obj

/-- The objects of a heap with the addresses of their headers. -/
abbrev heapObjects (rows : List HeapRow) : List (Nat × Obj) := objects Obj.size rows

theorem heapObjects_cons (r : HeapRow) (rows : List HeapRow) :
    heapObjects (r :: rows) = placed Obj.size r.base r.items ++ heapObjects rows :=
  objects_cons ..

/-- The C++ struct of a chunk. -/
def toChunk (r : HeapRow) : Chunk :=
  { mem := r.base, used := r.used Obj.size, capacity := CHUNK_SIZE }

section Walking

variable {r : HeapRow} {passed rest : List Obj} {o : Obj}

/-- The walk over a chunk ends when all its items are passed. -/
theorem walk_end (hitems : r.items = passed ++ []) :
    (toChunk r).used = extent Obj.size passed := Row.used_of_passed Obj.size hitems

/-- **Where the walk over a chunk stands**: with an item in front it is below
the end, and the size of the item leads behind it without a wrap of the
`uint32_t`. -/
theorem walk_step (hitems : r.items = passed ++ o :: rest) (hfit : r.used Obj.size ≤ CHUNK_SIZE)
    (hhead : 16 ≤ o.size) :
    extent Obj.size passed < (toChunk r).used ∧
      (extent Obj.size passed + o.size) % 2 ^ 32 = extent Obj.size (passed ++ [o]) := by
  have hused := Row.used_of_split Obj.size hitems
  have hC : CHUNK_SIZE = 4194304 := rfl
  constructor
  · show _ < r.used Obj.size
    omega
  · rw [extent_concat]
    omega

end Walking

/-- What `heapAlloc` produces: an aligned size that covers the header. -/
structure Obj.WellSized (o : Obj) : Prop where
  header : 16 ≤ o.size
  aligned : o.size % 8 = 0
  fits : o.size ≤ CHUNK_SIZE
  type_lt : o.type < 2 ^ 16

/-- The chunks of an arena in memory: live, aligned, addressable regions. -/
structure Geometry (s : Store) (rows : List HeapRow) : Prop where
  arena : Arena Obj.size CHUNK_SIZE rows
  live : ∀ r ∈ rows, r.region CHUNK_SIZE ∈ s.live
  aligned : ∀ r ∈ rows, r.base % 8 = 0
  bounded : ∀ r ∈ rows, r.base + CHUNK_SIZE < 2 ^ 48
  sized : ∀ r ∈ rows, ∀ o ∈ r.items, o.WellSized

/-- The counters of the C++ structs say what the arena is. -/
structure Counts (h : Heap) (rows : List HeapRow) : Prop where
  chunks : h.chunks = rows.map toChunk
  total : h.totalAllocated = (rows.map (Row.used Obj.size)).sum

/-- Every object starts with a clear header. -/
structure Headers (s : Store) (rows : List HeapRow) : Prop where
  header : ∀ p ∈ heapObjects rows, s.word p.1 = headerWord p.2.size p.2.type 0
  forwarded : ∀ p ∈ heapObjects rows, s.word (p.1 + 8) = 0

/-- **A well-formed heap.** -/
structure Represents (s : Store) (h : Heap) (rows : List HeapRow) : Prop where
  geometry : Geometry s rows
  counts : Counts h rows
  headers : Headers s rows

/-- An empty heap represents the empty arena. -/
theorem Heap.Empty.represents {h : Heap} (hempty : h.Empty) (s : Store) : Represents s h [] where
  geometry := ⟨⟨by simp, List.Pairwise.nil⟩, by simp, by simp, by simp, by simp⟩
  counts := ⟨hempty.1, hempty.2⟩
  headers := ⟨by simp, by simp⟩

namespace Geometry

variable {s s' : Store} {rows : List HeapRow} {p q : Nat × Obj}

/-- Objects have the sizes of allocated blocks. -/
theorem wellSized (h : Geometry s rows) (hp : p ∈ heapObjects rows) : p.2.WellSized := by
  obtain ⟨r, hr, hpr⟩ := (mem_objects Obj.size).1 hp
  have hmem : p.2 ∈ (placed Obj.size r.base r.items).map Prod.snd := List.mem_map_of_mem hpr
  rw [placed_map_snd] at hmem
  exact h.sized r hr p.2 hmem

/-- And lie at multiples of 8. -/
theorem object_aligned (h : Geometry s rows) (hp : p ∈ heapObjects rows) : p.1 % 8 = 0 := by
  obtain ⟨r, hr, hpr⟩ := (mem_objects Obj.size).1 hp
  exact placed_aligned Obj.size (h.aligned r hr) (fun o ho => (h.sized r hr o ho).aligned) hpr

/-- An object lies below `2^48`, header and all. -/
theorem object_bounded (h : Geometry s rows) (hp : p ∈ heapObjects rows) :
    p.1 + p.2.size < 2 ^ 48 := by
  obtain ⟨r, hr, _, _, _, hcap⟩ := h.arena.inside hp
  have := h.bounded r hr
  omega

/-- The aligned words of an object are mapped. -/
theorem mapped (h : Geometry s rows) (hp : p ∈ heapObjects rows) {a : Nat}
    (ha : a % 8 = 0) (hlo : p.1 ≤ a) (hhi : a + 8 ≤ p.1 + p.2.size) : s.Mapped a := by
  obtain ⟨r, hr, _, hbase, _, hcap⟩ := h.arena.inside hp
  exact ⟨ha, r.region CHUNK_SIZE, h.live r hr, by show r.base ≤ a; omega,
    by show a + 8 ≤ r.base + CHUNK_SIZE; omega⟩

/-- The address determines the object. -/
theorem eq_of_addr (h : Geometry s rows) (hp : p ∈ heapObjects rows)
    (hq : q ∈ heapObjects rows) (heq : p.1 = q.1) : p = q := by
  have hps := (h.wellSized hp).header
  have hqs := (h.wellSized hq).header
  rcases h.arena.eq_or_apart hp hq with h' | h' | h'
  · exact h'
  · omega
  · omega

/-- A geometry only speaks about which regions are live. -/
theorem of_live (h : Geometry s rows) (hl : ∀ r ∈ s.live, r ∈ s'.live) : Geometry s' rows where
  arena := h.arena
  live r hr := hl _ (h.live r hr)
  aligned := h.aligned
  bounded := h.bounded
  sized := h.sized

end Geometry

/-! ## §3. The frame of an allocation. -/

/-- From `s` to `s'` regions may have been added, and of the words in live
regions only those of `[p, p + n)` changed. -/
structure Extends (s s' : Store) (p n : Nat) : Prop where
  allocator : s'.allocator = s.allocator
  live : ∀ r ∈ s.live, r ∈ s'.live
  kept : ∀ r ∈ s.live, ∀ a, r.base ≤ a → a < r.base + r.size →
    (a < p ∨ p + n ≤ a) → s'.word a = s.word a

/-- Headers outside the memory that is written stay as they are. -/
theorem Headers.extends {s s' : Store} {p n : Nat} {rows : List HeapRow}
    (h : Headers s rows) (hg : Geometry s rows) (he : Extends s s' p n)
    (hout : ∀ q ∈ heapObjects rows, q.1 + 16 ≤ p ∨ p + n ≤ q.1) : Headers s' rows := by
  have hkept : ∀ q ∈ heapObjects rows, ∀ k, k < 16 → s'.word (q.1 + k) = s.word (q.1 + k) := by
    intro q hq k hk
    obtain ⟨r, hr, _, hbase, _, hcap⟩ := hg.arena.inside hq
    have hsize := (hg.wellSized hq).header
    have hq' := hout q hq
    refine he.kept _ (hg.live r hr) _ ?_ ?_ (by omega)
    · show r.base ≤ q.1 + k
      omega
    · show q.1 + k < r.base + CHUNK_SIZE
      omega
  constructor
  · intro q hq
    rw [← h.header q hq]
    exact hkept q hq 0 (by omega)
  · intro q hq
    rw [← h.forwarded q hq]
    exact hkept q hq 8 (by omega)

end SproutLang
