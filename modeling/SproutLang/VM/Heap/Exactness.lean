/-
  SproutLang.VM.Heap.Exactness
  ────────────────────────────
  **ROOT PATCHING AND EVACUATION ARE EXACT.**

  When the interior scan finds nothing, a collection is determined by the
  roots: it copies the objects they name, once each and in allocation order,
  redirects every pointer root to its object's copy and leaves every other
  register and stack slot alone.

    • `Collected.same_iff`  — two roots are the same word afterwards exactly
                              when they named the same object,
    • `collect_exact`       — the whole statement.
-/
import SproutLang.VM.Heap.Collection
import SproutLang.VM.Loader

namespace SproutLang

open Library

/-! ## §1. Quiet heaps. -/

/-- Every pointer root names an object of the active heap. -/
structure RootsValid (vm : VM) (rows : List HeapRow) : Prop where
  stack : vm.sp.toNat ≤ STACK_SIZE
  named : ∀ s ∈ rootSlots vm, s.holdsPointer vm = true → ToObject rows (s.value vm)

/-- The interior scan can read the type of every array object and takes none
for an array of pointers. -/
def InteriorQuiet (vm : VM) (rows : List HeapRow) : Prop :=
  ∀ p ∈ heapObjects rows, p.2.type = OBJ_ARRAY →
    vm.store.Mapped (p.1 + 16) ∧ arrayType (vm.store.word (p.1 + 16)) ≠ TAG_POINTER.toNat

/-- The object is named by a pointer root. -/
def Referred (vm : VM) (p : Nat × Obj) : Prop :=
  ∃ s ∈ rootSlots vm, s.holdsPointer vm = true ∧ decodePointer (s.value vm) = p.1 + 16

instance (vm : VM) (p : Nat × Obj) : Decidable (Referred vm p) :=
  inferInstanceAs (Decidable (∃ s ∈ rootSlots vm, _))

section Quiet

variable {vm vm' : VM} {rows rows' : List HeapRow}

theorem InteriorQuiet.scan (h : InteriorQuiet vm rows) {p : Nat × Obj}
    (hp : p ∈ heapObjects rows) : interiorScan vm.store p = [] := by
  unfold interiorScan
  exact if_neg (fun hc => (h p hp hc.1).2 hc.2)

/-- On a quiet heap the roots are all there is to scan. -/
theorem InteriorQuiet.scannedSlots_eq (h : InteriorQuiet vm rows) :
    scannedSlots vm rows = rootSlots vm := by
  unfold scannedSlots
  rw [List.flatMap_eq_nil_iff.2 (fun p hp => h.scan hp), List.append_nil]

/-- Without interior slots only the roots count. -/
theorem InteriorQuiet.scannable (h : InteriorQuiet vm rows) (hroots : RootsValid vm rows) :
    Scannable vm rows where
  stack := hroots.stack
  fields p hp htype := (h p hp htype).1
  inside p hp htype harray := absurd harray (h p hp htype).2
  valid s hs := by
    rw [h.scannedSlots_eq] at hs
    exact hroots.named s hs

/-- What is kept is what the roots name. -/
theorem InteriorQuiet.kept_eq (h : InteriorQuiet vm rows) (hroots : RootsValid vm rows) :
    kept vm rows = (heapObjects rows).filter (Referred vm) := by
  unfold kept flagged
  refine List.filter_congr (fun p hp => ?_)
  have hiff : p.1 ∈ marks vm rows ↔ Referred vm p := by
    unfold marks foundSlots Referred
    rw [h.scannedSlots_eq, List.mem_map]
    constructor
    · intro ⟨s, hs, htarget⟩
      obtain ⟨hroot, hptr⟩ := List.mem_filter.1 hs
      obtain ⟨u, _, hu⟩ := hroots.named s hroot hptr
      unfold Slot.target at htarget
      exact ⟨s, hroot, hptr, by omega⟩
    · intro ⟨s, hroot, hptr, hdecode⟩
      refine ⟨s, List.mem_filter.2 ⟨hroot, hptr⟩, ?_⟩
      unfold Slot.target
      omega
  simp [hiff]

end Quiet

/-! ## §2. Which roots become equal. -/

/-- Two words name the same thing: they are equal, or pointers to one
address. -/
def SameRoot (w w' : Word) : Prop :=
  w = w' ∨ isPointer w = true ∧ isPointer w' = true ∧ decodePointer w = decodePointer w'

/-- No object is listed twice. -/
theorem Geometry.objects_nodup {s : Store} {rows : List HeapRow} (h : Geometry s rows) :
    (heapObjects rows).Nodup := by
  refine List.Pairwise.imp_of_mem (fun {p q} hp _ hsep heq => ?_) h.arena.pairwise_apart
  have hsize := (h.wellSized hp).header
  subst heq
  omega

/-- In two lists without repetition the partners determine each other. -/
theorem zip_left_iff_right {α β : Type} {l : List α} {l' : List β} (hl : l.Nodup)
    (hl' : l'.Nodup) {a a' : α} {b b' : β} (h : (a, b) ∈ l.zip l') (h' : (a', b') ∈ l.zip l') :
    a = a' ↔ b = b' := by
  obtain ⟨i, hi, heq⟩ := List.mem_iff_getElem.1 h
  obtain ⟨j, hj, heq'⟩ := List.mem_iff_getElem.1 h'
  rw [List.getElem_zip, Prod.mk.injEq] at heq heq'
  rw [← heq.1, ← heq.2, ← heq'.1, ← heq'.2, hl.getElem_inj_iff, hl'.getElem_inj_iff]

section Equal

variable {vm vm' : VM} {rows rows' : List HeapRow} {s t : Slot}

/-- A root without a pointer keeps its word. -/
theorem Collected.value_of_not_pointer (h : Collected vm vm' rows rows')
    (hs : s ∈ rootSlots vm) (hptr : s.holdsPointer vm = false) : s.value vm' = s.value vm := by
  cases s with
  | reg r => exact h.regs r hptr
  | stack i =>
      refine h.stack i (fun hc => ?_)
      have hptr' : isPointer (vm.stack i) = false := hptr
      rw [hc.2] at hptr'
      exact Bool.false_ne_true hptr'.symm
  | heap a => exact absurd hs heap_not_root

/-- A pointer root is a pointer afterwards. -/
theorem Collected.holdsPointer (h : Collected vm vm' rows rows')
    (hs : s ∈ rootSlots vm) (hptr : s.holdsPointer vm = true) : s.holdsPointer vm' = true := by
  obtain ⟨p, q, _, _, hvalue⟩ := h.patched s hs hptr
  unfold Slot.holdsPointer
  rw [hvalue]
  exact isPointer_encodePointer _

/-- A pointer and a value that is none were not the same. -/
theorem not_sameRoot {w v : Word} (hw : isPointer w = true) (hv : isPointer v = false) :
    ¬ SameRoot w v ∧ ¬ SameRoot v w := by
  constructor
  · intro hcases
    rcases hcases with heq | ⟨_, hc, _⟩
    · rw [heq, hv] at hw
      exact Bool.false_ne_true hw
    · rw [hv] at hc
      exact Bool.false_ne_true hc
  · intro hcases
    rcases hcases with heq | ⟨hc, _, _⟩
    · rw [← heq, hv] at hw
      exact Bool.false_ne_true hw
    · rw [hv] at hc
      exact Bool.false_ne_true hc

/-- Nor are they afterwards. -/
theorem Collected.value_ne (h : Collected vm vm' rows rows') (hs : s ∈ rootSlots vm)
    (ht : t ∈ rootSlots vm) (hsp : s.holdsPointer vm = true) (htp : t.holdsPointer vm = false) :
    s.value vm' ≠ t.value vm' := by
  have hs' := h.holdsPointer hs hsp
  have ht' := h.value_of_not_pointer ht htp
  unfold Slot.holdsPointer at htp hs'
  intro heq
  rw [heq, ht', htp] at hs'
  exact Bool.false_ne_true hs'

/-- Two pointers name one copy exactly when they named one object. -/
theorem Collected.same_pointers_iff (h : Collected vm vm' rows rows') (hg : Geometry vm.store rows)
    (hs : s ∈ rootSlots vm) (ht : t ∈ rootSlots vm) (hsp : s.holdsPointer vm = true)
    (htp : t.holdsPointer vm = true) :
    s.value vm' = t.value vm' ↔ SameRoot (s.value vm) (t.value vm) := by
  obtain ⟨p, q, hpq, hdecode, hvalue⟩ := h.patched s hs hsp
  obtain ⟨p', q', hpq', hdecode', hvalue'⟩ := h.patched t ht htp
  have hgeo := h.represents.geometry
  have hpobj := (mem_flagged.1 (List.of_mem_zip hpq).1).1
  have hpobj' := (mem_flagged.1 (List.of_mem_zip hpq').1).1
  have hqobj := (List.of_mem_zip hpq).2
  have hqobj' := (List.of_mem_zip hpq').2
  have hqb := hgeo.object_bounded hqobj
  have hqb' := hgeo.object_bounded hqobj'
  have hqs := (hgeo.wellSized hqobj).header
  have hqs' := (hgeo.wellSized hqobj').header
  have hpartner := zip_left_iff_right (hg.objects_nodup.filter _) hgeo.objects_nodup hpq hpq'
  rw [hvalue, hvalue']
  constructor
  · intro heq
    -- equal words, equal addresses, one copy, one original
    have haddr : q.1 + 16 = q'.1 + 16 := encodePointer_inj (by omega) (by omega) heq
    have hq : q = q' := hgeo.eq_of_addr hqobj hqobj' (by omega)
    have hp := hpartner.2 hq
    exact Or.inr ⟨hsp, htp, by rw [hdecode, hdecode', hp]⟩
  · intro hsame
    -- one original, one copy
    have hdecodes : decodePointer (s.value vm) = decodePointer (t.value vm) := by
      rcases hsame with heq | ⟨_, _, heq⟩
      · rw [heq]
      · exact heq
    have hp : p = p' := hg.eq_of_addr hpobj hpobj' (by omega)
    rw [hpartner.1 hp]

/-- **Two roots are equal afterwards exactly when they named the same thing.** -/
theorem Collected.same_iff (h : Collected vm vm' rows rows') (hg : Geometry vm.store rows)
    (hs : s ∈ rootSlots vm) (ht : t ∈ rootSlots vm) :
    s.value vm' = t.value vm' ↔ SameRoot (s.value vm) (t.value vm) := by
  by_cases hsp : s.holdsPointer vm = true
  · -- a pointer never equals a word that is none, before or after
    by_cases htp : t.holdsPointer vm = true
    · exact h.same_pointers_iff hg hs ht hsp htp
    · have htp := Bool.eq_false_iff.2 htp
      constructor
      · intro heq
        exact absurd heq (h.value_ne hs ht hsp htp)
      · intro hsame
        exact absurd hsame (not_sameRoot hsp htp).1
  · have hsp := Bool.eq_false_iff.2 hsp
    by_cases htp : t.holdsPointer vm = true
    · constructor
      · intro heq
        exact absurd heq.symm (h.value_ne ht hs htp hsp)
      · intro hsame
        exact absurd hsame (not_sameRoot htp hsp).2
    · -- neither is a pointer: both are as they were
      rw [h.value_of_not_pointer hs hsp, h.value_of_not_pointer ht (Bool.eq_false_iff.2 htp)]
      constructor
      · exact Or.inl
      · intro hcases
        rcases hcases with heq | ⟨hc, _, _⟩
        · exact heq
        · unfold Slot.holdsPointer at hsp
          rw [hsp] at hc
          exact absurd hc Bool.false_ne_true

end Equal

/-! ## §3. Exactness. -/

/-- **A collection that is exact in its roots.** -/
structure Exact (vm vm' : VM) (rows rows' : List HeapRow) : Prop where
  active : vm'.active = vm.active.other
  represents : Represents vm'.store (vm'.heap vm'.active) rows'
  regs : ∀ r, isPointer (vm.reg r) = false → vm'.reg r = vm.reg r
  stack : ∀ i, isPointer (vm.stack i) = false ∨ vm.sp.toNat ≤ i → vm'.stack i = vm.stack i
  /-- A pointer root names a copy of the object it named. -/
  roots : ∀ s ∈ rootSlots vm, s.holdsPointer vm = true → s.holdsPointer vm' = true ∧
    ∃ p ∈ heapObjects rows, ∃ q ∈ heapObjects rows', decodePointer (s.value vm) = p.1 + 16 ∧
      decodePointer (s.value vm') = q.1 + 16 ∧ CopyOf vm.store vm'.store p q
  equal : ∀ s ∈ rootSlots vm, ∀ t ∈ rootSlots vm,
    s.value vm' = t.value vm' ↔ SameRoot (s.value vm) (t.value vm)
  /-- One copy of each object a root named, and of no other, in order. -/
  copies : List.Forall₂ (CopyOf vm.store vm'.store)
    ((heapObjects rows).filter (Referred vm)) (heapObjects rows')

/-- **A quiet collection is exact.** -/
theorem Collected.exact {vm vm' : VM} {rows rows' : List HeapRow}
    (h : Collected vm vm' rows rows') (hg : Geometry vm.store rows)
    (hroots : RootsValid vm rows) (hquiet : InteriorQuiet vm rows) : Exact vm vm' rows rows' where
  active := h.active
  represents := h.represents
  regs := h.regs
  stack i hi := by
    refine h.stack i (fun hc => ?_)
    rcases hi with hi | hi
    · rw [hi] at hc
      exact Bool.false_ne_true hc.2
    · omega
  roots s hs hptr := by
    obtain ⟨p, q, hpq, hdecode, hvalue⟩ := h.patched s hs hptr
    have hpobj := (mem_flagged.1 (List.of_mem_zip hpq).1).1
    have hqobj := (List.of_mem_zip hpq).2
    have hqb := h.represents.geometry.object_bounded hqobj
    have hqs := (h.represents.geometry.wellSized hqobj).header
    refine ⟨h.holdsPointer hs hptr, p, hpobj, q, hqobj, hdecode, ?_,
      List.forall₂_zip h.copies hpq⟩
    rw [hvalue]
    exact decodePointer_encodePointer (by omega)
  equal s hs t ht := h.same_iff hg hs ht
  copies := by
    rw [← hquiet.kept_eq hroots]
    exact h.copies

/-- `Represents` for a heap of one chunk, from facts that evaluate. -/
theorem Represents.oneChunk {s : Store} {h : Heap} {r : HeapRow}
    (hused : r.used Obj.size ≤ CHUNK_SIZE) (hlive : r.region CHUNK_SIZE ∈ s.live)
    (haligned : r.base % 8 = 0) (hbound : r.base + CHUNK_SIZE < 2 ^ 48)
    (hsized : ∀ o ∈ r.items, 16 ≤ o.size ∧ o.size % 8 = 0 ∧ o.size ≤ CHUNK_SIZE ∧
      o.type < 2 ^ 16)
    (hchunks : h.chunks = [toChunk r]) (htotal : h.totalAllocated = r.used Obj.size)
    (hwords : ∀ p ∈ placed Obj.size r.base r.items,
      s.word p.1 = headerWord p.2.size p.2.type 0 ∧ s.word (p.1 + 8) = 0) :
    Represents s h [r] := by
  have hobjects : heapObjects [r] = placed Obj.size r.base r.items := by simp
  refine ⟨⟨⟨?_, List.pairwise_singleton _ _⟩, ?_, ?_, ?_, ?_⟩, ⟨hchunks, ?_⟩, ?_, ?_⟩
  · simpa using hused
  · simpa using hlive
  · simpa using haligned
  · simpa using hbound
  · intro r' hr' o ho
    rw [List.mem_singleton.1 hr'] at ho
    obtain ⟨h1, h2, h3, h4⟩ := hsized o ho
    exact ⟨h1, h2, h3, h4⟩
  · simpa using htotal
  · intro p hp
    rw [hobjects] at hp
    exact (hwords p hp).1
  · intro p hp
    rw [hobjects] at hp
    exact (hwords p hp).2

end SproutLang
