/-
  SproutLang.VM.Heap.Alloc
  ────────────────────────
  **ALLOCATION KEEPS A HEAP WELL FORMED.**

  `heapAlloc_spec`: on a well-formed heap a request that fits in a chunk
  either ends in `std::bad_alloc`, when `malloc` refuses a chunk, or is one
  `Bump` of the arena (`Allocated`).
-/
import SproutLang.VM.Heap.Layout

namespace SproutLang

open Library

/-! ## §1. The two halves of `heapAlloc`. -/

theorem inStore_ok {α : Type} {x : EStateM Fault Store α} {sp : Space} {a : α} {s : Store}
    (h : x sp.store = .ok a s) : inStore x sp = .ok a { sp with store := s } :=
  zoom_ok h

/-- The block is cut from the last chunk, and its header written. -/
theorem placeInLast_ok {sp : Space} {cs : List Chunk} {c : Chunk} (total type : Nat)
    (hc : sp.heap.chunks = cs ++ [c]) (hptr : c.mem + c.used < 2 ^ 64)
    (h0 : sp.store.Mapped (c.mem + c.used)) (h8 : sp.store.Mapped (c.mem + c.used + 8))
    (hused : c.used + total < 2 ^ 64) (htotal : sp.heap.totalAllocated + total < 2 ^ 64) :
    placeInLast total type sp = .ok (c.mem + c.used + 16)
      { store := (sp.store.put (c.mem + c.used) (headerWord total type 0)).put
          (c.mem + c.used + 8) 0
        heap :=
          { sp.heap with
            chunks := cs ++ [{ c with used := c.used + total }]
            totalAllocated := sp.heap.totalAllocated + total } } := by
  unfold placeInLast
  rw [bind_ok get_apply]
  have hlast : sp.heap.chunks.getLast? = some c := by rw [hc, List.getLast?_concat]
  have hdrop : sp.heap.chunks.dropLast = cs := by rw [hc, List.dropLast_concat]
  simp only [hlast, hdrop, Nat.mod_eq_of_lt hptr, Nat.mod_eq_of_lt hused,
    Nat.mod_eq_of_lt htotal]
  have h8' : ({ sp with store := sp.store.put (c.mem + c.used) (headerWord total type 0) } :
      Space).store.Mapped (c.mem + c.used + 8) := h8
  rw [bind_ok (inStore_ok (store_ok h0)), bind_ok (inStore_ok (store_ok h8')),
    bind_ok (modify_apply _)]
  rfl

/-- A chunk `malloc` grants is appended. -/
theorem allocNewChunk_ok {sp : Space} {a : Nat}
    (h : sp.store.allocator.place sp.store.calls CHUNK_SIZE sp.store.live = some a) :
    allocNewChunk sp = .ok ()
      { store := sp.store.afterMalloc a CHUNK_SIZE
        heap :=
          { sp.heap with
            chunks := sp.heap.chunks ++ [{ mem := a, used := 0, capacity := CHUNK_SIZE }] } } := by
  have hmalloc : malloc CHUNK_SIZE sp.store
      = .ok (some a) (sp.store.afterMalloc a CHUNK_SIZE) := by
    unfold malloc
    rw [h]
  unfold allocNewChunk
  rw [bind_ok (inStore_ok hmalloc)]
  rfl

/-- A refused one is `bad_alloc`. -/
theorem allocNewChunk_refused {sp : Space}
    (h : sp.store.allocator.place sp.store.calls CHUNK_SIZE sp.store.live = none) :
    allocNewChunk sp = .error .badAlloc
      { sp with store := { sp.store with calls := sp.store.calls + 1 } } := by
  have hmalloc : malloc CHUNK_SIZE sp.store
      = .ok none { sp.store with calls := sp.store.calls + 1 } := by
    unfold malloc
    rw [h]
  unfold allocNewChunk
  rw [bind_ok (inStore_ok hmalloc)]
  rfl

/-! ## §2. What one allocation does. -/

/-- The unused part of every chunk holds zeroes. -/
def Cleared (s : Store) (rows : List HeapRow) : Prop :=
  ∀ r ∈ rows, ∀ a, a % 8 = 0 → r.base + r.used Obj.size ≤ a →
    a + 8 ≤ r.base + CHUNK_SIZE → s.word a = 0

/-- **One allocation of `x` at header address `p`.** -/
structure Allocated (sp sp' : Space) (rows rows' : List HeapRow) (x : Obj) (p : Nat) :
    Prop where
  bump : Bump Obj.size CHUNK_SIZE x rows p rows'
  represents : Represents sp'.store sp'.heap rows'
  extends_ : Extends sp.store sp'.store p 16
  max : sp'.heap.max = sp.heap.max
  /-- A chunk is an old one, or it is new and apart from every live region. -/
  regions : ∀ r' ∈ rows', (∃ r ∈ rows, r'.region CHUNK_SIZE = r.region CHUNK_SIZE) ∨
    ∀ q ∈ sp.store.live, (r'.region CHUNK_SIZE).Apart q
  cleared : sp.store.allocator.ZeroFill → Cleared sp.store rows → Cleared sp'.store rows'
  /-- In zeroed memory the payload is zero. -/
  blank : sp.store.allocator.ZeroFill → Cleared sp.store rows →
    ∀ k, 16 + 8 * k < x.size → sp'.store.word (p + 16 + 8 * k) = 0

namespace Allocated

variable {sp sp' : Space} {rows rows' : List HeapRow} {x : Obj} {p : Nat}

/-- The new object comes last. -/
theorem objects_eq (h : Allocated sp sp' rows rows' x p) :
    heapObjects rows' = heapObjects rows ++ [(p, x)] := h.bump.objects_eq

/-- It is one of the objects. -/
theorem mem (h : Allocated sp sp' rows rows' x p) : (p, x) ∈ heapObjects rows' := by
  rw [h.objects_eq]
  exact List.mem_append_right _ (List.mem_singleton_self _)

end Allocated

/-- The new header lies behind every object of the arena. -/
theorem header_outside {rows rows' : List HeapRow} {x : Obj} {p : Nat}
    (hb : Bump Obj.size CHUNK_SIZE x rows p rows') (ha : Arena Obj.size CHUNK_SIZE rows')
    (hx : 16 ≤ x.size) : ∀ q ∈ heapObjects rows, q.1 + q.2.size ≤ p ∨ p + 16 ≤ q.1 := by
  intro q hq
  have hpair := ha.pairwise_apart
  rw [hb.objects_eq, List.pairwise_append] at hpair
  have := hpair.2.2 q hq (p, x) (List.mem_singleton_self _)
  simp only at this
  omega

/-- The same of the arena's step. -/
theorem bump_objects {rows rows' : List HeapRow} {x : Obj} {p : Nat}
    (h : Bump Obj.size CHUNK_SIZE x rows p rows') :
    heapObjects rows' = heapObjects rows ++ [(p, x)] := h.objects_eq

/-- Every word of an older object is as it was. -/
theorem Allocated.old_word {sp sp' : Space} {rows rows' : List HeapRow} {x : Obj} {p : Nat}
    (h : Allocated sp sp' rows rows' x p) (hg : Geometry sp.store rows) {u : Nat × Obj}
    (hu : u ∈ heapObjects rows) {k : Nat} (hk : k < u.2.size) :
    sp'.store.word (u.1 + k) = sp.store.word (u.1 + k) := by
  have hgeo := h.represents.geometry
  have hout := header_outside h.bump hgeo.arena (hgeo.wellSized h.mem).header u hu
  obtain ⟨r, hr, _, hlo, _, hhi⟩ := hg.arena.inside hu
  refine h.extends_.kept _ (hg.live r hr) _ ?_ ?_ (by omega)
  · show r.base ≤ u.1 + k
    omega
  · show u.1 + k < r.base + CHUNK_SIZE
    omega

/-- The used part of a chunk is aligned. -/
theorem Geometry.used_aligned {s : Store} {rows : List HeapRow} (h : Geometry s rows)
    {r : HeapRow} (hr : r ∈ rows) : r.used Obj.size % 8 = 0 := by
  have hall : ∀ os : List Obj, (∀ o ∈ os, o.size % 8 = 0) → extent Obj.size os % 8 = 0 := by
    intro os
    induction os with
    | nil => intro _; rfl
    | cons o os ih =>
        intro ho
        rw [extent_cons, Nat.add_mod, ho o List.mem_cons_self,
          ih (fun o' ho' => ho o' (List.mem_cons_of_mem _ ho'))]
  exact hall r.items (fun o ho => (h.sized r hr o ho).aligned)

section Spec

variable {sp : Space} {rows : List HeapRow} {x : Obj}

/-- The arena with `x` placed behind the items of its last chunk. -/
theorem Geometry.behind {s : Store} {r : HeapRow} (h : Geometry s (rows ++ [r]))
    (hx : x.WellSized) (room : r.used Obj.size + x.size ≤ CHUNK_SIZE) :
    Geometry s (rows ++ [{ r with items := r.items ++ [x] }]) := by
  have hmem : r ∈ rows ++ [r] := List.mem_append_right _ (List.mem_singleton_self r)
  -- all rows but the last are as they were
  have hlast : ∀ r' ∈ rows ++ [{ r with items := r.items ++ [x] }],
      r' ∈ rows ∨ r' = { r with items := r.items ++ [x] } := by
    intro r' hr'
    simpa using hr'
  refine ⟨(Bump.behind rows r room).arena h.arena hx.fits, ?_, ?_, ?_, ?_⟩ <;>
    intro r' hr' <;> rcases hlast r' hr' with hr' | rfl
  · exact h.live r' (List.mem_append_left _ hr')
  · exact h.live r hmem
  · exact h.aligned r' (List.mem_append_left _ hr')
  · exact h.aligned r hmem
  · exact h.bounded r' (List.mem_append_left _ hr')
  · exact h.bounded r hmem
  · exact h.sized r' (List.mem_append_left _ hr')
  · intro o ho
    rcases List.mem_append.1 ho with ho | ho
    · exact h.sized r hmem o ho
    · rw [List.mem_singleton.1 ho]
      exact hx

/-- Writing a clear header of `x` at `p` extends `Headers` by `x`. -/
theorem Headers.place {s : Store} {rows' : List HeapRow} {p : Nat}
    (h : Headers s rows) (hg : Geometry s rows)
    (hb : Bump Obj.size CHUNK_SIZE x rows p rows')
    (ha : Arena Obj.size CHUNK_SIZE rows') (hx : 16 ≤ x.size) :
    Headers ((s.put p (headerWord x.size x.type 0)).put (p + 8) 0) rows' := by
  have hext : Extends s ((s.put p (headerWord x.size x.type 0)).put (p + 8) 0) p 16 := by
    refine ⟨rfl, fun _ hr => hr, fun _ _ a _ _ hout => ?_⟩
    rw [Store.put_word_of_ne (by omega), Store.put_word_of_ne (by omega)]
  have hout := header_outside hb ha hx
  have hold := h.extends hg hext (fun q hq => by
    have hq' := hout q hq
    have hsize := (hg.wellSized hq).header
    omega)
  constructor <;> intro q hq <;> rw [bump_objects hb, List.mem_append, List.mem_singleton] at hq <;>
    rcases hq with hq | rfl
  · exact hold.header q hq
  · rw [Store.put_word_of_ne (by omega), Store.put_word]
  · exact hold.forwarded q hq
  · exact Store.put_word ..

/-- The header of a new object is written in its chunk's region. -/
theorem Geometry.header_mapped {s : Store} {r : HeapRow} (h : Geometry s rows) (hr : r ∈ rows)
    (room : r.used Obj.size + 16 ≤ CHUNK_SIZE) {k : Nat} (hk : k % 8 = 0) (hk16 : k + 8 ≤ 16) :
    s.Mapped (r.base + r.used Obj.size + k) := by
  have hbase := h.aligned r hr
  have hal := h.used_aligned hr
  refine ⟨by omega, _, h.live r hr, ?_, ?_⟩
  · show r.base ≤ _
    omega
  · show _ ≤ r.base + CHUNK_SIZE
    omega

/-- Writing a header leaves what is behind the new object clear. -/
theorem Cleared.place {s : Store} {r : HeapRow} (hcl : Cleared s (rows ++ [r]))
    (hg : Geometry s (rows ++ [r])) (hx : 16 ≤ x.size)
    (room : r.used Obj.size + x.size ≤ CHUNK_SIZE) (w : Word) :
    Cleared ((s.put (r.base + r.used Obj.size) w).put (r.base + r.used Obj.size + 8) 0)
      (rows ++ [{ r with items := r.items ++ [x] }]) := by
  intro r' hr' a ha hlo hhi
  rcases List.mem_append.1 hr' with hr' | hr'
  · -- another chunk: the header is not in it
    have hsep := (List.pairwise_append.1 hg.arena.apart).2.2 r' hr' r (List.mem_singleton_self r)
    simp only [Region.Apart, Row.region] at hsep
    rw [Store.put_word_of_ne (by omega), Store.put_word_of_ne (by omega)]
    exact hcl r' (List.mem_append_left _ hr') a ha hlo hhi
  · -- the same chunk, behind the new object
    rw [List.mem_singleton.1 hr'] at hlo hhi
    have hused : r.used Obj.size + x.size
        = Row.used Obj.size { r with items := r.items ++ [x] } := by
      simp [Row.used]
    simp only at hlo hhi
    rw [Store.put_word_of_ne (by omega), Store.put_word_of_ne (by omega)]
    exact hcl r (List.mem_append_right _ (List.mem_singleton_self r)) a ha (by omega) hhi

/-- **The second half of `heapAlloc`**, when the last chunk has room. -/
theorem placeInLast_spec {r : HeapRow}
    (h : Represents sp.store sp.heap (rows ++ [r])) (hx : x.WellSized)
    (room : r.used Obj.size + x.size ≤ CHUNK_SIZE) :
    ∃ sp', placeInLast x.size x.type sp = .ok (r.base + r.used Obj.size + 16) sp' ∧
      Allocated sp sp' (rows ++ [r]) (rows ++ [{ r with items := r.items ++ [x] }]) x
        (r.base + r.used Obj.size) := by
  have hmem : r ∈ rows ++ [r] := List.mem_append_right _ (List.mem_singleton_self r)
  have hbase := h.geometry.aligned r hmem
  have hbound := h.geometry.bounded r hmem
  have hhead := hx.header
  have hsize := hx.aligned
  have hal := h.geometry.used_aligned hmem
  have hC : CHUNK_SIZE = 4194304 := rfl
  have hroom : r.used Obj.size + 16 ≤ CHUNK_SIZE := by omega
  -- the chunks are disjoint below 2^48, so no counter wraps
  have hlen := h.geometry.arena.length_mul_le (fun r hr => Nat.le_of_lt (h.geometry.bounded r hr))
  have hsum := h.geometry.arena.used_sum_le
  have hchunks : sp.heap.chunks = rows.map toChunk ++ [toChunk r] := by
    rw [h.counts.chunks, List.map_append]
    rfl
  have hrun := placeInLast_ok x.size x.type hchunks
    (show r.base + r.used Obj.size < 2 ^ 64 by omega)
    (h.geometry.header_mapped hmem hroom (k := 0) rfl (by omega))
    (h.geometry.header_mapped hmem hroom (k := 8) rfl (by omega))
    (show r.used Obj.size + x.size < 2 ^ 64 by omega)
    (by rw [h.counts.total]; omega)
  have hbump : Bump Obj.size CHUNK_SIZE x (rows ++ [r]) (r.base + r.used Obj.size)
      (rows ++ [{ r with items := r.items ++ [x] }]) := Bump.behind rows r room
  have hgeo := h.geometry.behind hx room
  -- only the header's two words are written
  have hword : ∀ a, a ≠ r.base + r.used Obj.size → a ≠ r.base + r.used Obj.size + 8 →
      ((sp.store.put (r.base + r.used Obj.size) (headerWord x.size x.type 0)).put
        (r.base + r.used Obj.size + 8) 0).word a = sp.store.word a := by
    intro a hne hne8
    rw [Store.put_word_of_ne hne8, Store.put_word_of_ne hne]
  refine ⟨_, hrun,
    { bump := hbump
      represents := ⟨hgeo.of_live (fun _ hr => hr), ⟨?_, ?_⟩,
        h.headers.place h.geometry hbump hgeo.arena hhead⟩
      extends_ := ⟨rfl, fun _ hr => hr, fun _ _ a _ _ hout => hword a (by omega) (by omega)⟩
      max := rfl
      regions := fun r' hr' => Or.inl ?_
      cleared := fun _ hcl => hcl.place h.geometry hhead room _
      blank := fun _ hcl k hk => ?_ }⟩
  · show rows.map toChunk ++ [_] = _
    simp [toChunk, Row.used]
  · show sp.heap.totalAllocated + x.size = _
    rw [hbump.used_eq, h.counts.total]
  · rcases List.mem_append.1 hr' with hr' | hr'
    · exact ⟨r', List.mem_append_left _ hr', rfl⟩
    · rw [List.mem_singleton.1 hr']
      exact ⟨r, hmem, rfl⟩
  · -- the payload was behind the used part
    have hblank := hcl r hmem (r.base + r.used Obj.size + 16 + 8 * k) (by omega) (by omega)
      (by omega)
    exact (hword _ (by omega) (by omega)).trans hblank

section NewChunk

variable {s : Store} {a : Nat}

/-- A row of the arena with an empty chunk behind is an old one or the new one. -/
theorem mem_newChunk {r : HeapRow} (hr : r ∈ rows ++ [⟨a, []⟩]) : r ∈ rows ∨ r = ⟨a, []⟩ := by
  simpa using hr

/-- A new region stands apart from the chunks. -/
theorem Geometry.apart_newChunk (h : Geometry s rows)
    (ha : s.allocator.place s.calls CHUNK_SIZE s.live = some a) :
    ∀ r ∈ rows, (r.region CHUNK_SIZE).Apart ⟨a, CHUNK_SIZE⟩ :=
  fun r hr => (s.allocator.apart ha _ (h.live r hr)).symm

/-- An empty chunk keeps the geometry. -/
theorem Geometry.newChunk (h : Geometry s rows)
    (ha : s.allocator.place s.calls CHUNK_SIZE s.live = some a) :
    Geometry (s.afterMalloc a CHUNK_SIZE) (rows ++ [⟨a, []⟩]) := by
  refine ⟨⟨?_, ?_⟩, ?_, ?_, ?_, ?_⟩
  · intro r hr
    rcases mem_newChunk hr with hr | rfl
    · exact h.arena.fits r hr
    · simp [Row.used]
  · refine List.pairwise_append.2
      ⟨h.arena.apart, List.pairwise_singleton _ _, fun r hr r' hr' => ?_⟩
    rw [List.mem_singleton.1 hr']
    exact h.apart_newChunk ha r hr
  · intro r hr
    rcases mem_newChunk hr with hr | rfl
    · exact List.mem_cons_of_mem _ (h.live r hr)
    · exact List.mem_cons_self
  · intro r hr
    rcases mem_newChunk hr with hr | rfl
    · exact h.aligned r hr
    · exact s.allocator.aligned ha
  · intro r hr
    rcases mem_newChunk hr with hr | rfl
    · exact h.bounded r hr
    · exact s.allocator.bounded ha
  · intro r hr
    rcases mem_newChunk hr with hr | rfl
    · exact h.sized r hr
    · intro o ho
      exact absurd ho List.not_mem_nil

/-- `malloc` writes to no region in use. -/
theorem extends_afterMalloc (ha : s.allocator.place s.calls CHUNK_SIZE s.live = some a) :
    Extends s (s.afterMalloc a CHUNK_SIZE) a 0 := by
  refine ⟨rfl, fun r hr => List.mem_cons_of_mem _ hr, fun r hr b hlo hhi _ => ?_⟩
  have hsep := s.allocator.apart ha r hr
  simp only [Region.Apart] at hsep
  exact Store.afterMalloc_word_of_apart (by omega)

/-- A chunk of zeroed memory is clear. -/
theorem Cleared.newChunk (hcl : Cleared s rows) (h : Geometry s rows)
    (ha : s.allocator.place s.calls CHUNK_SIZE s.live = some a)
    (hzero : s.allocator.ZeroFill) :
    Cleared (s.afterMalloc a CHUNK_SIZE) (rows ++ [⟨a, []⟩]) := by
  intro r hr b hb hlo hhi
  rcases mem_newChunk hr with hr | rfl
  · have hsep := h.apart_newChunk ha r hr
    simp only [Region.Apart, Row.region] at hsep
    rw [Store.afterMalloc_word_of_apart (by omega)]
    exact hcl r hr b hb hlo hhi
  · show (if a ≤ b ∧ b < a + CHUNK_SIZE then _ else _) = _
    simp only at hlo hhi
    rw [if_pos (by omega)]
    exact hzero _ _

end NewChunk

/-- A new, empty chunk at the end of the arena. -/
theorem allocNewChunk_spec (h : Represents sp.store sp.heap rows) {a : Nat}
    (ha : sp.store.allocator.place sp.store.calls CHUNK_SIZE sp.store.live = some a) :
    ∃ sp', allocNewChunk sp = .ok () sp' ∧
      Represents sp'.store sp'.heap (rows ++ [⟨a, []⟩]) ∧
      Extends sp.store sp'.store a 0 ∧ sp'.heap.max = sp.heap.max ∧
      (sp.store.allocator.ZeroFill → Cleared sp.store rows →
        Cleared sp'.store (rows ++ [⟨a, []⟩])) := by
  have hext := extends_afterMalloc ha
  have hobj : heapObjects (rows ++ [⟨a, []⟩]) = heapObjects rows := by simp [placed]
  -- no header lies in the new region
  have hheaders := h.headers.extends h.geometry hext (fun q hq => by
    obtain ⟨r, hr, _, hbase, _, hcap⟩ := h.geometry.arena.inside hq
    have hsize := (h.geometry.wellSized hq).header
    have hsep := h.geometry.apart_newChunk ha r hr
    simp only [Region.Apart, Row.region] at hsep
    omega)
  refine ⟨_, allocNewChunk_ok ha, ⟨h.geometry.newChunk ha, ⟨?_, ?_⟩, ⟨?_, ?_⟩⟩, hext, rfl,
    fun hzero hcl => hcl.newChunk h.geometry ha hzero⟩
  · show sp.heap.chunks ++ [_] = _
    rw [h.counts.chunks]
    simp [toChunk, Row.used]
  · show sp.heap.totalAllocated = _
    rw [h.counts.total]
    simp [Row.used]
  · rw [hobj]
    exact hheaders.header
  · rw [hobj]
    exact hheaders.forwarded

/-- The test for a new chunk reads the last chunk of the arena. -/
theorem needsChunk_eq {s : Store} {hp : Heap} (h : Represents s hp rows)
    (hx : x.size ≤ CHUNK_SIZE) :
    needsChunk hp x.size = true ↔
      ∀ r, rows.getLast? = some r → CHUNK_SIZE < r.used Obj.size + x.size := by
  have hC : CHUNK_SIZE = 4194304 := rfl
  unfold needsChunk
  rw [h.counts.chunks, List.getLast?_map]
  cases hlast : rows.getLast? with
  | none => simp
  | some r =>
      have hfit := h.geometry.arena.fits r (List.mem_of_getLast? hlast)
      have hmod : (r.used Obj.size + x.size) % 2 ^ 64 = r.used Obj.size + x.size := by omega
      show decide ((r.used Obj.size + x.size) % 2 ^ 64 > CHUNK_SIZE) = true ↔ _
      rw [hmod]
      simp

/-- **`heapAlloc` on a well-formed heap.** -/
theorem heapAlloc_spec (sp : Space) (h : Represents sp.store sp.heap rows) (n type : Nat)
    (hn : SIZEOF_OBJ_HEADER + n ≤ CHUNK_SIZE) (ht : type < 2 ^ 16) :
    (∃ sp', heapAlloc n type sp = .error .badAlloc sp') ∨
    ∃ sp' rows' p, heapAlloc n type sp = .ok (p + 16) sp' ∧
      Allocated sp sp' rows rows' ⟨align (SIZEOF_OBJ_HEADER + n), type⟩ p := by
  have hC : CHUNK_SIZE = 4194304 := rfl
  have hH : SIZEOF_OBJ_HEADER = 16 := rfl
  -- the aligned size is that of a block
  have hx : Obj.WellSized ⟨align (SIZEOF_OBJ_HEADER + n), type⟩ := by
    have hal := align_eq (SIZEOF_OBJ_HEADER + n)
    refine ⟨?_, align_mod _, ?_, ht⟩ <;> simp only <;> omega
  generalize hxdef : (⟨align (SIZEOF_OBJ_HEADER + n), type⟩ : Obj) = x at hx
  have hxs : align (SIZEOF_OBJ_HEADER + n) = x.size := by rw [← hxdef]
  have hxt : type = x.type := by rw [← hxdef]
  unfold heapAlloc
  simp only [hxs, hxt]
  rw [bind_ok get_apply]
  have hneeds := needsChunk_eq h hx.fits
  by_cases hfull : ∀ r, rows.getLast? = some r → CHUNK_SIZE < r.used Obj.size + x.size
  · -- a new chunk is opened, and `x` is its first item
    rw [if_pos (hneeds.2 hfull)]
    cases hplace : sp.store.allocator.place sp.store.calls CHUNK_SIZE sp.store.live with
    | none =>
        left
        exact ⟨_, bind_error (allocNewChunk_refused hplace)⟩
    | some a =>
        right
        have hapart := sp.store.allocator.apart hplace
        obtain ⟨sp1, hrun1, hrep1, hext1, hmax1, hcl1⟩ := allocNewChunk_spec h hplace
        have hused : Row.used Obj.size (⟨a, []⟩ : HeapRow) = 0 := by simp [Row.used]
        obtain ⟨sp2, hrun2, halloc⟩ := placeInLast_spec hrep1 hx (by rw [hused]; have := hx.fits; omega)
        simp only [hused, Nat.add_zero, List.nil_append] at hrun2 halloc
        refine ⟨sp2, rows ++ [⟨a, [x]⟩], a, by rw [bind_ok hrun1]; exact hrun2, ?_⟩
        have hbump : Bump Obj.size CHUNK_SIZE x rows a (rows ++ [⟨a, [x]⟩]) :=
          Bump.opened rows a hfull
            (fun r hr => (hapart _ (h.geometry.live r hr)).symm)
        refine ⟨hbump, halloc.represents, ?_, ?_, ?_, ?_, ?_⟩
        · refine ⟨halloc.extends_.allocator.trans hext1.allocator,
            fun r hr => halloc.extends_.live r (hext1.live r hr), fun r hr b hlo hhi hout => ?_⟩
          -- the new chunk is apart from every region that was live
          have hsep := hapart r hr
          simp only [Region.Apart] at hsep
          rw [halloc.extends_.kept r (hext1.live r hr) b hlo hhi hout,
            hext1.kept r hr b hlo hhi (by omega)]
        · exact halloc.max.trans hmax1
        · intro r' hr'
          rcases List.mem_append.1 hr' with hr' | hr'
          · exact Or.inl ⟨r', hr', rfl⟩
          · rw [List.mem_singleton.1 hr']
            exact Or.inr hapart
        · intro hzero hcl
          exact halloc.cleared (by rw [hext1.allocator]; exact hzero) (hcl1 hzero hcl)
        · intro hzero hcl
          exact halloc.blank (by rw [hext1.allocator]; exact hzero) (hcl1 hzero hcl)
  · -- the last chunk has room
    rw [if_neg (fun hc => hfull (hneeds.1 hc))]
    push Not at hfull
    obtain ⟨r, hlast, hroom⟩ := hfull
    obtain ⟨init, rfl⟩ := List.getLast?_eq_some_iff.1 hlast
    obtain ⟨sp', hrun, halloc⟩ := placeInLast_spec h hx hroom
    exact Or.inr ⟨sp', _, _, hrun, halloc⟩

end Spec

end SproutLang
