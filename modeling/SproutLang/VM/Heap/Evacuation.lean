/-
  SproutLang.VM.Heap.Evacuation
  ─────────────────────────────
  **THE MOVE PHASE.**

  `moveObjects` walks the marked heap and copies every flagged object into
  the other heap, in order, leaving the copy's address in `forwarded`.
  `Evacuated … done` is the state after the objects `done`: the other heap
  represents an arena whose objects are the copies of the flagged ones among
  `done`, one for one.

    • `evacuate_spec`   — one object,
    • `moveChunk_spec`  — one chunk, by induction on the items to come,
    • `moveObjects_spec` — the phase.
-/
import SproutLang.VM.Heap.Marking

namespace SproutLang

open Library

/-! ## §1. The invariant. -/

/-- `q` is the copy of `p`: same header, same payload, and `p` knows where
it is. -/
structure Copied (s s' : Store) (p q : Nat × Obj) : Prop where
  obj : q.2 = p.2
  forwarded : s'.word (p.1 + 8) = encodePointer (BitVec.ofNat 64 (q.1 + 16))
  payload : ∀ k, 16 + 8 * k < p.2.size → s'.word (q.1 + 16 + 8 * k) = s.word (p.1 + 16 + 8 * k)

/-- The flagged objects of a list. -/
def flagged (marks : List Nat) (ps : List (Nat × Obj)) : List (Nat × Obj) :=
  ps.filter (fun p => p.1 ∈ marks)

/-- **The state after the objects `done`**; `s` is the memory at the start,
`m` the other heap's limit and `rows` the arena of the copies so far. -/
structure Evacuated (s : Store) (m : Nat) (marks : List Nat) (done : List (Nat × Obj)) (sp : Space)
    (rows : List HeapRow) : Prop where
  represents : Represents sp.store sp.heap rows
  max : sp.heap.max = m
  allocator : sp.store.allocator = s.allocator
  oldLive : ∀ r ∈ s.live, r ∈ sp.store.live
  apart : ∀ r' ∈ rows, ∀ r ∈ s.live, (r'.region CHUNK_SIZE).Apart r
  copies : List.Forall₂ (Copied s sp.store) (flagged marks done) (heapObjects rows)
  kept : ∀ r ∈ s.live, ∀ a, r.base ≤ a → a < r.base + r.size →
    (∀ p ∈ flagged marks done, a ≠ p.1 + 8) → sp.store.word a = s.word a
  cleared : s.allocator.ZeroFill → Cleared sp.store rows

theorem flagged_append (marks : List Nat) (ps qs : List (Nat × Obj)) :
    flagged marks (ps ++ qs) = flagged marks ps ++ flagged marks qs := List.filter_append ..

/-- The flagged objects are those with a mark. -/
theorem mem_flagged {marks : List Nat} {ps : List (Nat × Obj)} {p : Nat × Obj} :
    p ∈ flagged marks ps ↔ p ∈ ps ∧ p.1 ∈ marks := by
  simp [flagged]

/-- Before the walk nothing is copied. -/
theorem Evacuated.start {s : Store} {h : Heap} {marks : List Nat} (hempty : h.Empty) :
    Evacuated s h.max marks [] ⟨s, h⟩ [] where
  represents := hempty.represents s
  max := rfl
  allocator := rfl
  oldLive _ hr := hr
  apart := by simp
  copies := List.Forall₂.nil
  kept _ _ _ _ _ _ := rfl
  cleared _ r hr := absurd hr List.not_mem_nil

/-! ## §2. One object. -/

/-- `Forall₂.imp` for the pairs that are partners. -/
theorem forall₂_imp_zip {α β : Type} {R R' : α → β → Prop} {l : List α} {l' : List β}
    (h : List.Forall₂ R l l') (himp : ∀ a b, (a, b) ∈ l.zip l' → R a b → R' a b) :
    List.Forall₂ R' l l' :=
  List.forall₂_iff_zip.2 ⟨h.length_eq, fun hab => himp _ _ hab (List.forall₂_zip h hab)⟩

/-- `Forall₂.imp` with the membership of both sides. -/
theorem forall₂_imp_mem {α β : Type} {R R' : α → β → Prop} {l : List α} {l' : List β}
    (h : List.Forall₂ R l l') (himp : ∀ a ∈ l, ∀ b ∈ l', R a b → R' a b) :
    List.Forall₂ R' l l' :=
  forall₂_imp_zip h (fun a b hab => himp a (List.of_mem_zip hab).1 b (List.of_mem_zip hab).2)

section One

variable {s : Store} {m : Nat} {old rows : List HeapRow} {marks : List Nat} {done : List (Nat × Obj)}
  {sp : Space} {p : Nat × Obj}

/-- An object lies beside all that come before it. -/
def BesideAll (p : Nat × Obj) (done : List (Nat × Obj)) : Prop :=
  ∀ u ∈ done, u.1 + u.2.size ≤ p.1 ∨ p.1 + p.2.size ≤ u.1

/-- An object's words are none of the `forwarded` fields before it. -/
theorem BesideAll.off_forwarded (h : BesideAll p done) (hg : Geometry s old)
    (hdone : ∀ u ∈ done, u ∈ heapObjects old) {a : Nat} (hlo : p.1 ≤ a)
    (hhi : a < p.1 + p.2.size) : ∀ u ∈ done, a ≠ u.1 + 8 := by
  intro u hu
  have hsize := (hg.wellSized (hdone u hu)).header
  rcases h u hu with hsep | hsep <;> omega

/-- The words of an object are what they were, `forwarded` fields aside. -/
theorem Evacuated.word_eq (h : Evacuated s m marks done sp rows) (hg : Geometry s old)
    (hp : p ∈ heapObjects old) {a : Nat} (hlo : p.1 ≤ a) (hhi : a < p.1 + p.2.size)
    (hne : ∀ u ∈ done, a ≠ u.1 + 8) : sp.store.word a = s.word a := by
  obtain ⟨r, hr, _, hbase, _, hcap⟩ := hg.arena.inside hp
  refine h.kept _ (hg.live r hr) a ?_ ?_ (fun u hu => hne u (mem_flagged.1 hu).1)
  · show r.base ≤ a
    omega
  · show a < r.base + CHUNK_SIZE
    omega

/-- Every element of the first list has its partner in the second. -/
theorem exists_mem_zip {α β : Type} {R : α → β → Prop} {l : List α} {l' : List β}
    (h : List.Forall₂ R l l') {a : α} (ha : a ∈ l) : ∃ b, (a, b) ∈ l.zip l' := by
  induction h with
  | nil => exact absurd ha List.not_mem_nil
  | cons _ _ ih =>
      rcases List.mem_cons.1 ha with rfl | ha
      · exact ⟨_, List.mem_cons_self⟩
      · obtain ⟨b, hb⟩ := ih ha
        exact ⟨b, List.mem_cons_of_mem _ hb⟩

/-- And every element of the second list its partner in the first. -/
theorem exists_mem_zip_right {α β : Type} {R : α → β → Prop} {l : List α} {l' : List β}
    (h : List.Forall₂ R l l') {b : β} (hb : b ∈ l') : ∃ a, (a, b) ∈ l.zip l' := by
  induction h with
  | nil => exact absurd hb List.not_mem_nil
  | cons _ _ ih =>
      rcases List.mem_cons.1 hb with rfl | hb
      · exact ⟨_, List.mem_cons_self⟩
      · obtain ⟨a, ha⟩ := ih hb
        exact ⟨a, List.mem_cons_of_mem _ ha⟩

/-- What copying leaves in memory: the payload behind the new header at `q`,
the copy's address in the object, and everything else as it was. -/
structure CopyWritten (s s' : Store) (p : Nat × Obj) (q : Nat) : Prop where
  allocator : s'.allocator = s.allocator
  live : s'.live = s.live
  forwarded : s'.word (p.1 + 8) = encodePointer (BitVec.ofNat 64 (q + 16))
  payload : ∀ k, 16 + 8 * k < p.2.size → s'.word (q + 16 + 8 * k) = s.word (p.1 + 16 + 8 * k)
  kept : ∀ a, a ≠ p.1 + 8 → (a < q + 16 ∨ q + p.2.size ≤ a) → s'.word a = s.word a

section Copy

variable {sp1 : Space} {s' : Store} {rows' : List HeapRow} {q : Nat}

/-- The chunks of the copies lie apart from everything live at the start. -/
theorem Evacuated.regions (h : Evacuated s m marks done sp rows)
    (hall : Allocated sp sp1 rows rows' p.2 q) :
    ∀ r' ∈ rows', ∀ r ∈ s.live, (r'.region CHUNK_SIZE).Apart r := by
  intro r' hr' r hr
  rcases hall.regions r' hr' with ⟨r0, hr0, heq⟩ | hnew
  · -- an old chunk
    rw [heq]
    exact h.apart r0 hr0 r hr
  · -- a new chunk
    exact hnew r (h.oldLive r hr)

/-- So do the copies themselves. -/
theorem Evacuated.cross (h : Evacuated s m marks done sp rows)
    (hall : Allocated sp sp1 rows rows' p.2 q) {u : Nat × Obj} (hu : u ∈ heapObjects rows')
    {r : Region} (hr : r ∈ s.live) : u.1 + u.2.size ≤ r.base ∨ r.base + r.size ≤ u.1 := by
  obtain ⟨r', hr', _, hlo, _, hhi⟩ := hall.represents.geometry.arena.inside hu
  have hsep := h.regions hall r' hr' r hr
  simp only [Region.Apart, Row.region] at hsep
  omega

/-- And apart from every object of the old heap. -/
theorem Evacuated.cross_object (h : Evacuated s m marks done sp rows) (hg : Geometry s old)
    (hall : Allocated sp sp1 rows rows' p.2 q) {u v : Nat × Obj} (hu : u ∈ heapObjects rows')
    (hv : v ∈ heapObjects old) : u.1 + u.2.size ≤ v.1 ∨ v.1 + v.2.size ≤ u.1 := by
  obtain ⟨r, hr, _, hlo, _, hhi⟩ := hg.arena.inside hv
  have hsep := h.cross hall hu (hg.live r hr)
  simp only [Row.region] at hsep
  omega

/-- **`evacuate` runs out of memory or copies**: the block is allocated, the
payload copied and the address left behind. -/
theorem evacuate_run (h : Evacuated s m marks done sp rows) (hg : Geometry s old)
    (hp : p ∈ heapObjects old) {w : Word} (hsize : objSize w = p.2.size)
    (htype : objType w = p.2.type) :
    (∃ sp', evacuate p.1 w sp = .error .badAlloc sp') ∨
    ∃ sp1 s' rows' q, evacuate p.1 w sp = .ok () ⟨s', sp1.heap⟩ ∧
      Allocated sp sp1 rows rows' p.2 q ∧ CopyWritten sp1.store s' p q := by
  have hsized := hg.wellSized hp
  have hhead := hsized.header
  have haligned := hsized.aligned
  have hfits := hsized.fits
  have hC : CHUNK_SIZE = 4194304 := rfl
  have hH : SIZEOF_OBJ_HEADER = 16 := rfl
  have hpal := hg.object_aligned hp
  obtain ⟨n, hn⟩ : ∃ n, p.2.size = 16 + 8 * n := ⟨(p.2.size - 16) / 8, by omega⟩
  -- `size - sizeof(objHeader)` is the payload
  have hbytes : (objSize w + 2 ^ 64 - SIZEOF_OBJ_HEADER) % 2 ^ 64 = 8 * n := by omega
  -- whose block has the size of the old one
  have hobj : (⟨align (SIZEOF_OBJ_HEADER + 8 * n), p.2.type⟩ : Obj) = p.2 := by
    rw [align_of_multiple (by omega) (by omega), show SIZEOF_OBJ_HEADER + 8 * n = p.2.size from by omega]
  unfold evacuate
  simp only [hbytes, htype]
  rcases heapAlloc_spec sp h.represents (8 * n) p.2.type (by omega) hsized.type_lt with
    ⟨sp', hrefused⟩ | ⟨sp1, rows', q, hrun, hall⟩
  · -- no chunk for the copy
    left
    exact ⟨sp', bind_error hrefused⟩
  · right
    rw [hobj] at hall
    have hgeo := hall.represents.geometry
    have hq := hall.mem
    have hqal : q % 8 = 0 := hgeo.object_aligned hq
    -- the new block lies in another chunk than the old one
    have hsep := h.cross_object hg hall hq hp
    simp only at hsep
    have hold : Geometry sp1.store old :=
      hg.of_live (fun r hr => hall.extends_.live r (h.oldLive r hr))
    obtain ⟨s2, hcopy, hwrote, hwords⟩ := @copyWords_ok sp1.store (q + 16) (p.1 + 16) n
      (fun k hk => hold.mapped hp (by omega) (by omega) (by omega))
      (fun k hk => hgeo.mapped hq (by omega) (by simp only; omega) (by simp only; omega))
      (by omega)
    -- the old header is still there to take the forwarding word
    have hmap8 : s2.Mapped (p.1 + 8) :=
      (hwrote.mapped _).2 (hold.mapped hp (by omega) (by omega) (by omega))
    refine ⟨sp1, s2.put (p.1 + 8) (encodePointer (BitVec.ofNat 64 (q + 16))), rows', q, ?_, hall,
      ⟨hwrote.allocator, hwrote.live, Store.put_word .., ?_, ?_⟩⟩
    · have hcopy' : memcpy (q + 16) (p.1 + SIZEOF_OBJ_HEADER) (8 * n) sp1.store = .ok () s2 := by
        rw [hH, memcpy_words]
        exact hcopy
      rw [bind_ok hrun, bind_ok (inStore_ok hcopy')]
      exact inStore_ok (store_ok hmap8)
    · intro k hk
      rw [Store.put_word_of_ne (by omega)]
      exact hwords k (by omega)
    · intro a hne hout
      rw [Store.put_word_of_ne hne]
      exact hwrote.frame a (by omega)

/-- Headers of copies are as they were allocated. -/
theorem CopyWritten.represents (hcopy : CopyWritten sp1.store s' p q)
    (h : Evacuated s m marks done sp rows) (hg : Geometry s old) (hp : p ∈ heapObjects old)
    (hall : Allocated sp sp1 rows rows' p.2 q) : Represents s' sp1.heap rows' := by
  have hgeo := hall.represents.geometry
  have hhead := (hg.wellSized hp).header
  -- no header of the new heap is touched by the copy
  have hheaders : ∀ u ∈ heapObjects rows', ∀ k, k < 16 →
      s'.word (u.1 + k) = sp1.store.word (u.1 + k) := by
    intro u hu k hk
    have hsize := (hgeo.wellSized hu).header
    have hsep := h.cross_object hg hall hu hp
    refine hcopy.kept _ (by omega) ?_
    rcases hgeo.arena.eq_or_apart hu hall.mem with rfl | hbeside | hbeside
    · simp only
      omega
    · simp only at hbeside
      omega
    · simp only at hbeside
      omega
  refine ⟨hgeo.of_live (by rw [hcopy.live]; exact fun _ hr => hr), hall.represents.counts, ?_, ?_⟩
  · intro u hu
    rw [← hall.represents.headers.header u hu]
    exact hheaders u hu 0 (by omega)
  · intro u hu
    rw [← hall.represents.headers.forwarded u hu]
    exact hheaders u hu 8 (by omega)

/-- Of the live words only those of the new block and the `forwarded` field
of the object change. -/
theorem CopyWritten.frame (hcopy : CopyWritten sp1.store s' p q)
    (hall : Allocated sp sp1 rows rows' p.2 q) (hhead : 16 ≤ p.2.size) {r : Region}
    (hr : r ∈ sp.store.live) {a : Nat} (hlo : r.base ≤ a) (hhi : a < r.base + r.size)
    (hout : a < q ∨ q + p.2.size ≤ a) (hne : a ≠ p.1 + 8) : s'.word a = sp.store.word a := by
  rw [hcopy.kept a hne (by omega)]
  exact hall.extends_.kept r hr a hlo hhi (by omega)

/-- A copy made earlier is still one. -/
theorem CopyWritten.copied (hcopy : CopyWritten sp1.store s' p q)
    (h : Evacuated s m marks done sp rows) (hg : Geometry s old) (hp : p ∈ heapObjects old)
    (hall : Allocated sp sp1 rows rows' p.2 q) {u v : Nat × Obj} (hu : u ∈ heapObjects old)
    (hside : u.1 + u.2.size ≤ p.1 ∨ p.1 + p.2.size ≤ u.1) (hv : v ∈ heapObjects rows)
    (hc : Copied s sp.store u v) : Copied s s' u v := by
  have hhead := (hg.wellSized hp).header
  have husize := (hg.wellSized hu).header
  have hv' : v ∈ heapObjects rows' := by
    rw [hall.objects_eq]
    exact List.mem_append_left _ hv
  -- the new block lies behind all earlier copies
  have hbeside : v.1 + v.2.size ≤ q ∨ q + p.2.size ≤ v.1 := by
    have hpair := hall.represents.geometry.arena.pairwise_apart
    rw [hall.bump.objects_eq, List.pairwise_append] at hpair
    exact hpair.2.2 v hv _ (List.mem_singleton_self _)
  have hqu := h.cross_object hg hall hall.mem hu
  have hvp := h.cross_object hg hall hv' hp
  simp only at hqu
  obtain ⟨ru, hru, _, hulo, _, huhi⟩ := hg.arena.inside hu
  obtain ⟨rv, hrv, _, hvlo, _, hvhi⟩ := h.represents.geometry.arena.inside hv
  refine ⟨hc.obj, ?_, ?_⟩
  · -- the `forwarded` field lies in the old heap
    rw [← hc.forwarded]
    refine hcopy.frame hall hhead (h.oldLive _ (hg.live ru hru)) ?_ ?_ (by omega) (by omega)
    · show ru.base ≤ _
      omega
    · show _ < ru.base + CHUNK_SIZE
      omega
  · -- the payload lies in an earlier block of the new one
    intro k hk
    rw [← hc.payload k hk]
    rw [← hc.obj] at hk
    refine hcopy.frame hall hhead (h.represents.geometry.live rv hrv) ?_ ?_ (by omega) (by omega)
    · show rv.base ≤ _
      omega
    · show _ < rv.base + CHUNK_SIZE
      omega

/-- The new copy. -/
theorem CopyWritten.copied_new (hcopy : CopyWritten sp1.store s' p q)
    (h : Evacuated s m marks done sp rows) (hg : Geometry s old) (hp : p ∈ heapObjects old)
    (hdone : ∀ u ∈ done, u ∈ heapObjects old) (hside : BesideAll p done)
    (hall : Allocated sp sp1 rows rows' p.2 q) : Copied s s' p (q, p.2) := by
  refine ⟨rfl, hcopy.forwarded, ?_⟩
  intro k hk
  have hsep := h.cross_object hg hall hall.mem hp
  simp only at hsep
  obtain ⟨r, hr, _, hlo, _, hhi⟩ := hg.arena.inside hp
  have haligned := (hg.wellSized hp).aligned
  rw [hcopy.payload k hk]
  rw [hall.extends_.kept _ (h.oldLive _ (hg.live r hr)) _ (by show r.base ≤ _; omega)
    (by show _ < r.base + CHUNK_SIZE; omega) (by omega)]
  exact h.word_eq hg hp (by omega) (by omega) (hside.off_forwarded hg hdone (by omega) (by omega))

/-- What is left of the new chunks is still zero. -/
theorem CopyWritten.cleared (hcopy : CopyWritten sp1.store s' p q)
    (h : Evacuated s m marks done sp rows) (hg : Geometry s old) (hp : p ∈ heapObjects old)
    (hall : Allocated sp sp1 rows rows' p.2 q) (hzero : s.allocator.ZeroFill) :
    Cleared s' rows' := by
  intro r' hr' a ha hlo hhi
  have hgeo := hall.represents.geometry
  have hhead := (hg.wellSized hp).header
  obtain ⟨r, hr, _, hrlo, _, hrhi⟩ := hg.arena.inside hp
  obtain ⟨rq, hrq, _, hqlo, hqused, hqhi⟩ := hgeo.arena.inside hall.mem
  simp only at hqlo hqused hqhi
  have hsep := h.regions hall r' hr' _ (hg.live r hr)
  simp only [Region.Apart, Row.region] at hsep
  have hout : a < q + 16 ∨ q + p.2.size ≤ a := by
    rcases hgeo.arena.row_eq_or_apart hr' hrq with rfl | hother
    · -- behind what is used of the block's own chunk
      omega
    · simp only [Region.Apart, Row.region] at hother
      omega
  rw [hcopy.kept a (by omega) hout]
  exact hall.cleared (by rw [h.allocator]; exact hzero) (h.cleared hzero) r' hr' a ha hlo hhi

end Copy

/-- **Copying one object.** -/
theorem evacuate_spec (h : Evacuated s m marks done sp rows) (hg : Geometry s old)
    (hp : p ∈ heapObjects old) (hdone : ∀ u ∈ done, u ∈ heapObjects old)
    (hside : BesideAll p done) (hmark : p.1 ∈ marks) {w : Word}
    (hsize : objSize w = p.2.size) (htype : objType w = p.2.type) :
    (∃ sp', evacuate p.1 w sp = .error .badAlloc sp') ∨
    ∃ sp' rows', evacuate p.1 w sp = .ok () sp' ∧
      Evacuated s m marks (done ++ [p]) sp' rows' := by
  rcases evacuate_run h hg hp hsize htype with hfail | ⟨sp1, s', rows', q, hrun, hall, hcopy⟩
  · exact Or.inl hfail
  have hhead := (hg.wellSized hp).header
  -- `p` is one of the marked objects
  have hflagged : flagged marks (done ++ [p]) = flagged marks done ++ [p] := by
    rw [flagged_append]
    simp [flagged, hmark]
  refine Or.inr ⟨⟨s', sp1.heap⟩, rows', hrun,
    { represents := hcopy.represents h hg hp hall
      max := hall.max.trans h.max
      allocator := ?_
      oldLive := ?_
      apart := h.regions hall
      copies := ?_
      kept := ?_
      cleared := hcopy.cleared h hg hp hall }⟩
  · show s'.allocator = _
    rw [hcopy.allocator, hall.extends_.allocator, h.allocator]
  · intro r hr
    show r ∈ s'.live
    rw [hcopy.live]
    exact hall.extends_.live r (h.oldLive r hr)
  · -- the copies so far, then the new one
    rw [hflagged, hall.objects_eq]
    refine List.rel_append (forall₂_imp_mem h.copies ?_)
      (List.Forall₂.cons (hcopy.copied_new h hg hp hdone hside hall) List.Forall₂.nil)
    intro u hu v hv hc
    have hudone := (mem_flagged.1 hu).1
    exact hcopy.copied h hg hp hall (hdone u hudone) (hside u hudone) hv hc
  · intro r hr a hlo hhi hne
    rw [hflagged] at hne
    -- outside the old heap only, and the forwarding word of `p` excepted
    have hsep := h.cross hall hall.mem hr
    simp only at hsep
    have hnep := hne p (List.mem_append_right _ (List.mem_singleton_self p))
    show s'.word a = s.word a
    rw [hcopy.frame hall hhead (h.oldLive r hr) hlo hhi (by omega) hnep]
    exact h.kept r hr a hlo hhi (fun u hu => hne u (List.mem_append_left _ hu))

end One

/-! ## §3. The walk. -/

section Walk

variable {s0 s : Store} {m : Nat} {old : List HeapRow} {marks : List Nat}

/-- An object is skipped when it is not flagged. -/
theorem Evacuated.skip {done : List (Nat × Obj)} {sp : Space} {rows : List HeapRow}
    {p : Nat × Obj} (h : Evacuated s m marks done sp rows) (hp : p.1 ∉ marks) :
    Evacuated s m marks (done ++ [p]) sp rows := by
  have hflagged : flagged marks (done ++ [p]) = flagged marks done := by
    rw [flagged_append]
    simp [flagged, hp]
  exact { h with
    copies := by rw [hflagged]; exact h.copies
    kept := by rw [hflagged]; exact h.kept }

/-- `p` is the object that comes after those of `done`. -/
structure NextObject (old : List HeapRow) (done : List (Nat × Obj)) (p : Nat × Obj) : Prop where
  mem : p ∈ heapObjects old
  passed : ∀ u ∈ done, u ∈ heapObjects old
  beside : BesideAll p done

/-- The object behind those done is the next one. -/
theorem NextObject.of_split {done later : List (Nat × Obj)} {p : Nat × Obj} (hg : Geometry s old)
    (hall : heapObjects old = done ++ p :: later) : NextObject old done p := by
  refine ⟨?_, fun u hu => ?_, fun u hu => ?_⟩
  · rw [hall]
    exact List.mem_append_right _ List.mem_cons_self
  · rw [hall]
    exact List.mem_append_left _ hu
  · have hpair := hg.arena.pairwise_apart
    rw [show objects Obj.size old = _ from hall, List.pairwise_append] at hpair
    exact hpair.2.2 u hu p List.mem_cons_self

/-- Its header is no `forwarded` field, its own included. -/
theorem NextObject.off_forwarded {done : List (Nat × Obj)} {p : Nat × Obj}
    (h : NextObject old done p) (hg : Geometry s old) : ∀ u ∈ done ++ [p], p.1 ≠ u.1 + 8 := by
  have hsize := (hg.wellSized h.mem).header
  intro u hu
  rcases List.mem_append.1 hu with hu | hu
  · exact h.beside.off_forwarded hg h.passed (Nat.le_refl _) (by omega) u hu
  · rw [List.mem_singleton.1 hu]
    omega

/-- Evacuating objects leaves the header words as they were. -/
theorem Evacuated.load_header {done : List (Nat × Obj)} {sp : Space} {rows : List HeapRow}
    {p : Nat × Obj} (h : Evacuated s m marks done sp rows) (hg : Geometry s old)
    (hp : p ∈ heapObjects old) (hne : ∀ u ∈ done, p.1 ≠ u.1 + 8) :
    inStore (load p.1) sp = .ok (s.word p.1) sp := by
  have hsize := (hg.wellSized hp).header
  have hmap : sp.store.Mapped p.1 :=
    (hg.of_live h.oldLive).mapped hp (hg.object_aligned hp) (Nat.le_refl _) (by omega)
  rw [← h.word_eq hg hp (Nat.le_refl _) (by omega) hne]
  exact inStore_ok (load_ok hmap)

section Rounds

variable {c : Chunk} {rounds i : Nat} {sp sp' : Space} {w w' : Word}

/-- At the end of the chunk the loop stops. -/
theorem moveChunk_end (h : ¬ i < c.used) : moveChunk c rounds i sp = .ok () sp := by
  unfold moveChunk
  rw [if_neg h]
  rfl

/-- It fails where an evacuation does. -/
theorem moveChunk_fails (h : i < c.used) (hload : inStore (load (c.mem + i)) sp = .ok w sp)
    (hmark : objFlags w = FLAG_MARKED)
    (hfail : evacuate (c.mem + i) w sp = .error .badAlloc sp') :
    moveChunk c (rounds + 1) i sp = .error .badAlloc sp' := by
  unfold moveChunk
  simp only [if_pos h]
  rw [bind_ok hload, if_pos hmark]
  exact bind_error hfail

/-- A marked object is evacuated. -/
theorem moveChunk_marked (h : i < c.used) (hload : inStore (load (c.mem + i)) sp = .ok w sp)
    (hmark : objFlags w = FLAG_MARKED) (hrun : evacuate (c.mem + i) w sp = .ok () sp')
    (hload' : inStore (load (c.mem + i)) sp' = .ok w' sp') :
    moveChunk c (rounds + 1) i sp = moveChunk c rounds ((i + objSize w') % 2 ^ 32) sp' := by
  rw [moveChunk]
  simp only [if_pos h]
  rw [bind_ok hload, if_pos hmark, bind_ok hrun, bind_ok hload']

/-- Any other one is passed. -/
theorem moveChunk_skipped (h : i < c.used) (hload : inStore (load (c.mem + i)) sp = .ok w sp)
    (hmark : objFlags w ≠ FLAG_MARKED) :
    moveChunk c (rounds + 1) i sp = moveChunk c rounds ((i + objSize w) % 2 ^ 32) sp := by
  rw [moveChunk]
  simp only [if_pos h]
  rw [bind_ok hload, if_neg hmark, bind_ok hload]

end Rounds

/-- **One round of the walk**: `p` is copied where it is marked, and the walk
goes on behind it. -/
theorem moveChunk_object (hm : MarkedBy s0 s old marks) (hg0 : Geometry s0 old) {c : Chunk}
    {i rounds : Nat} {done : List (Nat × Obj)} {o : Obj} {sp : Space} {rows : List HeapRow}
    (h : Evacuated s m marks done sp rows) (hnext : NextObject old done (c.mem + i, o))
    (hlt : i < c.used) :
    (∃ sp', moveChunk c (rounds + 1) i sp = .error .badAlloc sp') ∨
    ∃ sp' rows', Evacuated s m marks (done ++ [(c.mem + i, o)]) sp' rows' ∧
      moveChunk c (rounds + 1) i sp = moveChunk c rounds ((i + o.size) % 2 ^ 32) sp' := by
  have hg := hm.geometry hg0
  have hoff := hnext.off_forwarded hg
  have hload : inStore (load (c.mem + i)) sp = .ok (s.word (c.mem + i)) sp :=
    h.load_header hg hnext.mem (fun u hu => hoff u (List.mem_append_left _ hu))
  have hsize : objSize (s.word (c.mem + i)) = o.size := hm.objSize_eq hg0 hnext.mem
  have hflags := hm.objFlags_eq hg0 hnext.mem
  by_cases hmark : c.mem + i ∈ marks
  · -- a marked object
    rw [if_pos hmark] at hflags
    rcases evacuate_spec h hg hnext.mem hnext.passed hnext.beside hmark hsize
      (hm.objType_eq hg0 hnext.mem) with ⟨sp', hfail⟩ | ⟨sp', rows', hrun, h'⟩
    · exact Or.inl ⟨sp', moveChunk_fails hlt hload hflags hfail⟩
    · refine Or.inr ⟨sp', rows', h', ?_⟩
      rw [moveChunk_marked hlt hload hflags hrun (h'.load_header hg hnext.mem hoff), hsize]
  · -- an object that nothing reached
    rw [if_neg hmark] at hflags
    refine Or.inr ⟨sp, rows, h.skip hmark, ?_⟩
    rw [moveChunk_skipped hlt hload (by rw [hflags]; decide), hsize]

/-- **One chunk.** -/
theorem moveChunk_spec (hm : MarkedBy s0 s old marks) (hg0 : Geometry s0 old) {r : HeapRow}
    (hr : r ∈ old) (rest : List Obj) :
    ∀ passed done later rounds sp rows, r.items = passed ++ rest →
      heapObjects old
        = done ++ (placed Obj.size (r.base + extent Obj.size passed) rest ++ later) →
      rest.length ≤ rounds → Evacuated s m marks done sp rows →
      (∃ sp', moveChunk (toChunk r) rounds (extent Obj.size passed) sp
        = .error .badAlloc sp') ∨
      ∃ sp' rows', moveChunk (toChunk r) rounds (extent Obj.size passed) sp = .ok () sp' ∧
        Evacuated s m marks
          (done ++ placed Obj.size (r.base + extent Obj.size passed) rest) sp' rows' := by
  have hg := hm.geometry hg0
  -- on the items not yet passed; `done` are all objects behind the loop
  induction rest with
  | nil =>
      intro passed done later rounds sp rows hitems _ _ h
      have hend : ¬ extent Obj.size passed < (toChunk r).used := by
        rw [walk_end hitems]
        exact Nat.lt_irrefl _
      refine Or.inr ⟨sp, rows, moveChunk_end hend, ?_⟩
      simpa [placed] using h
  | cons o rest ih =>
      intro passed done later rounds sp rows hitems hsplit hrounds h
      have hall : heapObjects old = done ++ (r.base + extent Obj.size passed, o) ::
          (placed Obj.size (r.base + extent Obj.size passed + o.size) rest ++ later) := by
        rw [hsplit]
        rfl
      have hnext := NextObject.of_split hg hall
      have hhead : 16 ≤ o.size := (hg.wellSized hnext.mem).header
      obtain ⟨hlt, hmod⟩ := walk_step hitems (hg.arena.fits r hr) hhead
      have hbehind : extent Obj.size (passed ++ [o]) = extent Obj.size passed + o.size :=
        extent_concat Obj.size passed o
      have hdone : done ++ placed Obj.size (r.base + extent Obj.size passed) (o :: rest)
          = done ++ [(r.base + extent Obj.size passed, o)]
            ++ placed Obj.size (r.base + extent Obj.size (passed ++ [o])) rest := by
        rw [hbehind, ← Nat.add_assoc]
        simp [placed]
      rw [hdone]
      cases rounds with
      | zero => exact absurd hrounds (by simp)
      | succ rounds =>
          rcases moveChunk_object hm hg0 h hnext hlt with
            ⟨sp', hfail⟩ | ⟨sp1, rows1, h1, hstep⟩
          · exact Or.inl ⟨sp', hfail⟩
          · rw [hstep, hmod]
            refine ih (passed ++ [o]) _ later rounds sp1 rows1 (by rw [hitems]; simp) ?_
              (by simpa using hrounds) h1
            rw [hbehind, ← Nat.add_assoc, hall]
            simp

/-- **The move phase**, from the chunks `past` on. -/
theorem moveObjects_spec (hm : MarkedBy s0 s old marks) (hg0 : Geometry s0 old)
    (rest : List HeapRow) :
    ∀ past sp rows, old = past ++ rest → Evacuated s m marks (heapObjects past) sp rows →
      (∃ sp', moveObjects (rest.map toChunk) sp = .error .badAlloc sp') ∨
      ∃ sp' rows', moveObjects (rest.map toChunk) sp = .ok () sp' ∧
        Evacuated s m marks (heapObjects old) sp' rows' := by
  induction rest with
  | nil =>
      intro past sp rows hold h
      right
      rw [List.append_nil] at hold
      exact ⟨sp, rows, rfl, by rw [hold]; exact h⟩
  | cons r rest ih =>
      intro past sp rows hold h
      have hr : r ∈ old := by
        rw [hold]
        exact List.mem_append_right _ List.mem_cons_self
      have hlen : r.items.length ≤ (toChunk r).used := length_le_extent Obj.size (fun o ho => by
        have := (hg0.sized r hr o ho).header
        omega)
      have hsplit : heapObjects old = heapObjects past ++
          (placed Obj.size (r.base + extent Obj.size []) r.items ++ heapObjects rest) := by
        rw [hold]
        simp
      have hpast : heapObjects past ++ placed Obj.size (r.base + extent Obj.size []) r.items
          = heapObjects (past ++ [r]) := by simp
      have hchunk := moveChunk_spec hm hg0 hr r.items [] (heapObjects past) (heapObjects rest)
        (toChunk r).used sp rows rfl hsplit hlen h
      rw [extent_nil] at hchunk
      rw [List.map_cons]
      unfold moveObjects
      rcases hchunk with ⟨sp', hfail⟩ | ⟨sp1, rows1, hrun, h1⟩
      · exact Or.inl ⟨sp', bind_error hfail⟩
      · rw [bind_ok hrun]
        exact ih (past ++ [r]) sp1 rows1 (by rw [hold]; simp) (by rw [← hpast]; exact h1)

end Walk

end SproutLang
