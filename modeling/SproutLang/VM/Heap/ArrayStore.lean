/-
  SproutLang.VM.Heap.ArrayStore
  ─────────────────────────────
  **THE ARRAY STORE LAW AND WHERE IT ENDS.**

  A program that only allocates, writes and reads arrays should see the
  store law: an in-range `arrins` changes one element and nothing else, an
  `arr` changes no element that exists.  The last two elements of an array
  lie behind its block, on the header of the block that follows, so the law
  holds of a step exactly when the step leaves those two words alone
  (`Harmless`).

    • `ArrayRec.element_ne_element` — addresses that cannot clash,
    • `Tracks`                      — the invariant of a run,
    • `arr_spec`                    — what one `arr` does.
-/
import SproutLang.VM.Heap.Arrays
import SproutLang.VM.Loader
import SproutLang.Library.Runs

namespace SproutLang

open Library

/-! ## §1. The arrays of a run. -/

/-- An array a program has made: the header of its block and its length. -/
structure ArrayRec where
  addr : Nat
  length : Nat
  deriving DecidableEq, Repr

namespace ArrayRec

/-- The word of the type and the length. -/
def fields (A : ArrayRec) : Nat := A.addr + 32

/-- Where element `i` lies. -/
def element (A : ArrayRec) (i : Nat) : Nat := A.addr + 40 + 8 * i

/-- The end of the block that `heapAlloc` reserved. -/
def stop (A : ArrayRec) : Nat := A.addr + 24 + 8 * A.length

/-- The block as its header describes it. -/
def block (A : ArrayRec) : Obj := ⟨24 + 8 * A.length, OBJ_ARRAY⟩

/-- One block ends before the other one starts. -/
def Beside (A B : ArrayRec) : Prop := A.stop ≤ B.addr ∨ B.stop ≤ A.addr

variable {A B : ArrayRec} {i j : Nat}

/-- Elements of different arrays never clash. -/
theorem element_ne_element (h : A.Beside B) (hi : i < A.length) (hj : j < B.length) :
    B.element j ≠ A.element i := by
  unfold Beside stop element at *
  omega

/-- Nor does an element with the fields of any array. -/
theorem element_ne_fields (h : A = B ∨ A.Beside B) (hi : i < A.length) :
    B.fields ≠ A.element i := by
  rcases h with rfl | h
  · unfold fields element
    omega
  · unfold Beside stop fields element at *
    omega

end ArrayRec

/-! ## §2. Instructions and configurations. -/

/-- The array instructions, and `assign` for any instruction that puts a word
in a register and does nothing else. -/
inductive ArrayInstr where
  | arr (dst len type : Byte)
  | arrins (target address index : Byte)
  | arrread (target address index : Byte)
  | assign (r : Byte) (w : Word)

/-- What the instruction executes. -/
def ArrayInstr.exec : ArrayInstr → Exec Unit
  | .arr dst len type => execute ⟨Opcode.opArrInit.toByte, dst, len, type⟩
  | .arrins target address index => execute ⟨Opcode.opArrInsert.toByte, target, address, index⟩
  | .arrread target address index => execute ⟨Opcode.opArrRead.toByte, target, address, index⟩
  | .assign r w => setReg r w

/-- The machine, the arrays it has made, in order, and what the program has
last written to each element. -/
structure Config where
  vm : VM
  arrays : List ArrayRec
  written : ArrayRec → Nat → Word

namespace Config

/-- Before the program has made an array. -/
def start (vm : VM) : Config := ⟨vm, [], fun _ _ => 0⟩

/-- The active heap. -/
def heap (c : Config) : Heap := c.vm.heap c.vm.active

/-- Register `r` holds the address of `A`. -/
def Handle (c : Config) (r : Byte) (A : ArrayRec) : Prop :=
  A ∈ c.arrays ∧ decodePointer (c.vm.reg r) = A.addr + 16

/-- Register `r` holds an index into `A`. -/
def Index (c : Config) (r : Byte) (A : ArrayRec) (i : Nat) : Prop :=
  decodeInt (c.vm.reg r) = (i : Int) ∧ i < A.length

end Config

/-- What the law is about: an array that fits in a chunk and is made without a
collection, an index in range. -/
inductive ArrayStep : Config → ArrayInstr → Config → Prop where
  | arr {c : Config} {dst len type : Byte} {n p : Nat} {vm' : VM}
      (length : decodeInt (c.vm.reg len) = (n : Int))
      (fits : (ArrayRec.block ⟨p, n⟩).size ≤ CHUNK_SIZE)
      (quiet : overTrigger c.heap.totalAllocated c.heap.max = false)
      (run : (ArrayInstr.arr dst len type).exec c.vm = .ok () vm')
      (result : decodePointer (vm'.reg dst) = p + 16) :
      ArrayStep c (.arr dst len type)
        ⟨vm', c.arrays ++ [⟨p, n⟩], fun A i => if A = ⟨p, n⟩ then 0 else c.written A i⟩
  | arrins {c : Config} {target address index : Byte} {A : ArrayRec} {i : Nat} {vm' : VM}
      (handle : c.Handle address A) (inRange : c.Index index A i)
      (run : (ArrayInstr.arrins target address index).exec c.vm = .ok () vm') :
      ArrayStep c (.arrins target address index)
        ⟨vm', c.arrays,
          fun B j => if B = A ∧ j = i then c.vm.reg target else c.written B j⟩
  | arrread {c : Config} {target address index : Byte} {A : ArrayRec} {i : Nat} {vm' : VM}
      (handle : c.Handle address A) (inRange : c.Index index A i)
      (run : (ArrayInstr.arrread target address index).exec c.vm = .ok () vm') :
      ArrayStep c (.arrread target address index) ⟨vm', c.arrays, c.written⟩
  | assign {c : Config} {r : Byte} {w : Word} :
      ArrayStep c (.assign r w) ⟨c.vm.setReg r w, c.arrays, c.written⟩

/-! ## §3. The law and its condition. -/

/-- The elements of `c` keep their words in `vm'`, those for which `except`
holds aside. -/
def KeepsElements (c : Config) (vm' : VM) (except : ArrayRec → Nat → Prop) : Prop :=
  ∀ B ∈ c.arrays, ∀ j < B.length, ¬ except B j →
    vm'.store.word (B.element j) = c.vm.store.word (B.element j)

/-- The headers and the array fields of `c` keep their words in `vm'`. -/
def KeepsHeaders (c : Config) (vm' : VM) : Prop :=
  ∀ B ∈ c.arrays, vm'.store.word B.addr = c.vm.store.word B.addr ∧
    vm'.store.word (B.addr + 8) = c.vm.store.word (B.addr + 8) ∧
    vm'.store.word B.fields = c.vm.store.word B.fields

/-- **The store law of one instruction.** -/
def StoreLaw (c : Config) : ArrayInstr → Prop
  | .arr dst len type =>
      (∃ vm', (ArrayInstr.arr dst len type).exec c.vm = .error .badAlloc vm') ∨
      ∃ vm', (ArrayInstr.arr dst len type).exec c.vm = .ok () vm' ∧
        KeepsElements c vm' (fun _ _ => False)
  | .arrins target address index => ∀ A i, c.Handle address A → c.Index index A i →
      ∃ vm', (ArrayInstr.arrins target address index).exec c.vm = .ok () vm' ∧
        vm'.store.word (A.element i) = c.vm.reg target ∧
        KeepsElements c vm' (fun B j => B = A ∧ j = i) ∧ KeepsHeaders c vm'
  | .arrread target address index => ∀ A i, c.Handle address A → c.Index index A i →
      ∃ vm', (ArrayInstr.arrread target address index).exec c.vm = .ok () vm' ∧
        vm'.reg target = c.vm.store.word (A.element i)
  | .assign _ _ => True

/-- An `arr` whose elements, 16 bytes further on than its block is laid out
for, still lie in the chunk. -/
def Inside (c : Config) : ArrayInstr → Prop
  | .arr _ len _ =>
      let A : ArrayRec := ⟨0, (decodeInt (c.vm.reg len)).toNat⟩
      nextOffset c.heap A.block.size + A.element A.length ≤ CHUNK_SIZE
  | _ => True

/-- **A step that changes no word shared by an element and the header of the
block behind it**: the header an `arr` writes is there already, the word an
`arrins` writes to such an element is there already. -/
def Harmless (c : Config) : ArrayInstr → Prop
  | .arr _ len _ =>
      let total := (ArrayRec.block ⟨0, (decodeInt (c.vm.reg len)).toNat⟩).size
      ∀ p, nextBehind c.heap total = some p → ∀ A ∈ c.arrays, ∀ i < A.length,
        (A.element i = p → c.vm.store.word p = headerWord total OBJ_ARRAY 0) ∧
        (A.element i = p + 8 → c.vm.store.word (p + 8) = 0)
  | .arrins target address index => ∀ A i, c.Handle address A → c.Index index A i →
      ∀ B ∈ c.arrays, A.element i = B.addr ∨ A.element i = B.addr + 8 →
        c.vm.store.word (A.element i) = c.vm.reg target
  | _ => True

/-! ## §4. The invariant. -/

/-- **What every fitting run keeps**: the heap consists of the arrays' blocks,
and each array with its elements lies in one chunk. -/
structure Tracks (c : Config) (rows : List HeapRow) : Prop where
  represents : Represents c.vm.store c.heap rows
  blocks : heapObjects rows = c.arrays.map (fun A => (A.addr, A.block))
  length : ∀ A ∈ c.arrays, arrayLength (c.vm.store.word A.fields) = A.length
  inside : ∀ A ∈ c.arrays, ∃ r ∈ rows, (A.addr, A.block) ∈ placed Obj.size r.base r.items ∧
    A.element A.length ≤ r.base + CHUNK_SIZE

namespace Tracks

variable {c : Config} {rows : List HeapRow} {A B : ArrayRec} {i : Nat}

/-- Every array's block is an object of the heap. -/
theorem block_mem (h : Tracks c rows) (hA : A ∈ c.arrays) :
    (A.addr, A.block) ∈ heapObjects rows := by
  rw [h.blocks]
  exact List.mem_map_of_mem hA

/-- Two arrays are the same or lie beside each other. -/
theorem beside (h : Tracks c rows) (hA : A ∈ c.arrays) (hB : B ∈ c.arrays) :
    A = B ∨ A.Beside B := by
  rcases h.represents.geometry.arena.eq_or_apart (h.block_mem hA) (h.block_mem hB) with
    heq | hsep
  · left
    have haddr : A.addr = B.addr := congrArg Prod.fst heq
    have hsize : 24 + 8 * A.length = 24 + 8 * B.length := congrArg (Obj.size ∘ Prod.snd) heq
    cases A
    cases B
    simp only at haddr hsize
    have hlength : _ = _ := Nat.eq_of_mul_eq_mul_left (by decide : 0 < 8) (Nat.add_left_cancel hsize)
    rw [haddr, hlength]
  · right
    unfold ArrayRec.Beside ArrayRec.stop
    simp only [ArrayRec.block] at hsep
    omega

/-- Every aligned word from the header of an array to its last element is
mapped. -/
theorem mapped (h : Tracks c rows) (hA : A ∈ c.arrays) {k : Nat}
    (hk : k < 5 + A.length) : c.vm.store.Mapped (A.addr + 8 * k) := by
  obtain ⟨r, hr, hmem, hhi⟩ := h.inside A hA
  have hlo := (placed_bounds Obj.size hmem).1
  have hal := h.represents.geometry.object_aligned (h.block_mem hA)
  simp only at hal hlo
  unfold ArrayRec.element at hhi
  refine ⟨by omega, r.region CHUNK_SIZE, h.represents.geometry.live r hr, ?_, ?_⟩
  · show r.base ≤ _
    omega
  · show _ ≤ r.base + CHUNK_SIZE
    omega

/-- The word of its fields is mapped. -/
theorem mapped_fields (h : Tracks c rows) (hA : A ∈ c.arrays) :
    c.vm.store.Mapped A.fields :=
  h.mapped hA (k := 4) (by omega)

/-- So are its elements. -/
theorem mapped_element (h : Tracks c rows) (hA : A ∈ c.arrays) (hi : i < A.length) :
    c.vm.store.Mapped (A.element i) := by
  have := h.mapped hA (k := 5 + i) (by omega)
  rwa [show A.addr + 8 * (5 + i) = A.element i from by unfold ArrayRec.element; omega] at this

end Tracks

/-! ## §5. Reading and writing an element. -/

section Access

variable {c : Config} {rows : List HeapRow} {A : ArrayRec} {i : Nat}
  {target address index : Byte}

theorem exec_arrins (vm : VM) :
    (ArrayInstr.arrins target address index).exec vm = moveArray target address index 0 vm := by
  simp only [ArrayInstr.exec, execute_toByte, executeOp, get_bind, arrAccess]

theorem exec_arrread (vm : VM) :
    (ArrayInstr.arrread target address index).exec vm = moveArray target address index 1 vm := by
  simp only [ArrayInstr.exec, execute_toByte, executeOp, get_bind, arrAccess]

/-- `arrins` writes the element. -/
theorem arrins_spec (h : Tracks c rows) (hA : c.Handle address A) (hi : c.Index index A i) :
    (ArrayInstr.arrins target address index).exec c.vm
      = .ok () (c.vm.setStore (c.vm.store.put (A.element i) (c.vm.reg target))) := by
  have hfields : A.addr + 16 + 16 = A.fields := rfl
  have helem : A.addr + 16 + 24 + 8 * i = A.element i := rfl
  have hlen := h.length A hA.1
  have hrun := moveArray_store target hi.1
    (by rw [hA.2, hfields]; exact h.mapped_fields hA.1)
    (by rw [hA.2, hfields, hlen]; exact Nat.le_of_lt hi.2)
    (by rw [hA.2, helem]; exact h.mapped_element hA.1 hi.2)
  rw [hA.2, helem] at hrun
  rw [exec_arrins, hrun]

/-- `arrread` reads it. -/
theorem arrread_spec (h : Tracks c rows) (hA : c.Handle address A) (hi : c.Index index A i) :
    (ArrayInstr.arrread target address index).exec c.vm
      = .ok () (c.vm.setReg target (c.vm.store.word (A.element i))) := by
  have hfields : A.addr + 16 + 16 = A.fields := rfl
  have helem : A.addr + 16 + 24 + 8 * i = A.element i := rfl
  have hlen := h.length A hA.1
  have hrun := moveArray_load target hi.1
    (by rw [hA.2, hfields]; exact h.mapped_fields hA.1)
    (by rw [hA.2, hfields, hlen]; exact Nat.le_of_lt hi.2)
    (by rw [hA.2, helem]; exact h.mapped_element hA.1 hi.2)
  rw [hA.2, helem] at hrun
  rw [exec_arrread, hrun]

end Access

/-! ## §6. Making an array. -/

section Make

variable {c : Config} {rows rows' : List HeapRow} {x : Obj} {p n : Nat} {dst len type : Byte}

/-- **What one `arr` leaves behind**: a block for `A`, clear elements, and of
the words in live chunks only those of `A` changed. -/
structure Made (c : Config) (vm' : VM) (rows rows' : List HeapRow) (A : ArrayRec) : Prop where
  bump : Bump Obj.size CHUNK_SIZE A.block rows A.addr rows'
  represents : Represents vm'.store (vm'.heap vm'.active) rows'
  length : arrayLength (vm'.store.word A.fields) = A.length
  zero : ∀ i < A.length, vm'.store.word (A.element i) = 0
  inside : ∃ r ∈ rows', (A.addr, A.block) ∈ placed Obj.size r.base r.items ∧
    A.element A.length ≤ r.base + CHUNK_SIZE
  next : ∀ p, nextBehind c.heap A.block.size = some p → p = A.addr
  position : ∀ B ∈ c.arrays, B.element B.length ≤ A.addr ∨ A.element A.length ≤ B.addr ∨
    nextBehind c.heap A.block.size = some A.addr ∧ B.stop = A.addr
  kept : ∀ r ∈ c.vm.store.live, ∀ a, r.base ≤ a → a < r.base + r.size →
    (a < A.addr ∨ A.addr + 16 ≤ a) → (a < A.fields ∨ A.element A.length ≤ a) →
    vm'.store.word a = c.vm.store.word a

theorem exec_arr (vm : VM) :
    (ArrayInstr.arr dst len type).exec vm = initArray dst len type vm := by
  simp only [ArrayInstr.exec, execute_toByte, executeOp, get_bind, arrInit]

/-- `arr` makes a zeroed array behind all others, or memory has run out. -/
theorem arr_spec (h : Tracks c rows) (hlen : decodeInt (c.vm.reg len) = (n : Int))
    (hquiet : overTrigger c.heap.totalAllocated c.heap.max = false)
    (hin : Inside c (.arr dst len type)) :
    (∃ vm', (ArrayInstr.arr dst len type).exec c.vm = .error .badAlloc vm') ∨
    ∃ vm' rows' p, (ArrayInstr.arr dst len type).exec c.vm = .ok () vm' ∧
      decodePointer (vm'.reg dst) = p + 16 ∧ vm'.active = c.vm.active ∧
      Made c vm' rows rows' ⟨p, n⟩ := by
  -- the whole array, not only its block, stays in the chunk
  have hin' : nextOffset c.heap (24 + 8 * n) + (40 + 8 * n) ≤ CHUNK_SIZE := by
    unfold Inside at hin
    simpa [hlen, ArrayRec.block, ArrayRec.element] using hin
  rw [exec_arr]
  rcases initArray_placed dst type hlen (gcCollectedHeapAlloc_of_not_over hquiet) h.represents
      hin' with hfail | ⟨sp', s', rows', p, t, hinit, ht, hall, hwrote, hplaced⟩
  · exact Or.inl hfail
  · right
    obtain ⟨r', hr', hpr', hend, hrows⟩ := hplaced.row
    have hgeo := hall.represents.geometry
    have hbound := hgeo.bounded r' hr'
    -- an earlier array lies apart, or ends where the new header begins
    have hposition : ∀ B ∈ c.arrays, B.element B.length ≤ p ∨ p + 40 + 8 * n ≤ B.addr ∨
        nextBehind c.heap (24 + 8 * n) = some p ∧ B.stop = p := by
      intro B hB
      obtain ⟨r, hr, hBr, hBend⟩ := h.inside B hB
      have hBlo := (placed_bounds Obj.size hBr).1
      have hplo := (placed_bounds Obj.size hpr').1
      unfold ArrayRec.element at *
      rcases hrows r hr with hsep | ⟨hbehind, hitems⟩
      · simp only [Region.Apart, Row.region] at hsep hBlo hplo
        omega
      · have hitem := hitems _ hBr
        simp only [ArrayRec.block] at hitem
        rcases hitem with heq | hle
        · exact Or.inr (Or.inr ⟨hbehind, by unfold ArrayRec.stop; omega⟩)
        · exact Or.inl (by omega)
    have hC : CHUNK_SIZE = 4194304 := rfl
    refine ⟨_, rows', p, hinit, ?_, by simp, hall.bump, ?_, ?_, ?_, ⟨r', hr', hpr', ?_⟩, hplaced.next,
      ?_, ?_⟩
    · rw [VM.setReg_self]
      exact decodePointer_encodePointer (by omega)
    · have hrep' := hplaced.represents h.represents.geometry.arena hall hwrote
      simpa using hrep'
    · show arrayLength (s'.word (p + 32)) = n
      rw [hwrote.fields]
      exact arrayLength_arrayWord ht (by omega)
    · exact hwrote.elements
    · exact hend
    · exact hposition
    · intro r hr a hlo hhi hhead hrest
      simp only [ArrayRec.fields, ArrayRec.element] at hhead hrest
      have hfill : s'.word a = sp'.store.word a := hwrote.kept a (by omega) (by omega)
      exact hfill.trans (hall.extends_.kept r hr a hlo hhi hhead)

end Make

/-! ## §7. One step. -/

section Step

variable {c : Config} {rows rows' : List HeapRow} {vm' : VM} {A B : ArrayRec} {i : Nat}
  {dst len type target address index : Byte}

/-- An existing array's words that the new header does not fall on stay. -/
theorem Made.kept_word (hm : Made c vm' rows rows' A) (h : Tracks c rows) (hB : B ∈ c.arrays)
    {a : Nat} (hlo : B.addr ≤ a) (hhi : a < B.element B.length)
    (hout : a < A.addr ∨ A.addr + 16 ≤ a) : vm'.store.word a = c.vm.store.word a := by
  obtain ⟨r, hr, hBr, hBend⟩ := h.inside B hB
  have hBlo := (placed_bounds Obj.size hBr).1
  have hpos := hm.position B hB
  simp only [ArrayRec.element, ArrayRec.stop] at *
  refine hm.kept _ (h.represents.geometry.live r hr) a ?_ ?_ hout ?_
  · show r.base ≤ a
    omega
  · show a < r.base + CHUNK_SIZE
    omega
  · simp only [ArrayRec.fields, ArrayRec.element]
    omega

/-- The new array's block is an object. -/
theorem Made.mem (hm : Made c vm' rows rows' A) : (A.addr, A.block) ∈ heapObjects rows' := by
  rw [bump_objects hm.bump]
  exact List.mem_append_right _ (List.mem_singleton_self _)

/-- Its header gives its size and is unmarked. -/
theorem Made.header (hm : Made c vm' rows rows' A) :
    vm'.store.word A.addr = headerWord A.block.size OBJ_ARRAY 0 ∧
    vm'.store.word (A.addr + 8) = 0 :=
  ⟨hm.represents.headers.header _ hm.mem, hm.represents.headers.forwarded _ hm.mem⟩

/-- An array made is not one of those there were. -/
theorem Made.fresh (hm : Made c vm' rows rows' A) : A ∉ c.arrays := by
  intro hA
  have hpos := hm.position A hA
  unfold ArrayRec.element ArrayRec.stop at hpos
  omega

/-- An `arr` keeps the length of every array, on a header or not: the fields
of an array of length 1 become the new header, whose type is 1. -/
theorem Made.length_kept (hm : Made c vm' rows rows' A) (h : Tracks c rows) (hB : B ∈ c.arrays) :
    arrayLength (vm'.store.word B.fields) = B.length := by
  have hpos := hm.position B hB
  have hal := h.represents.geometry.object_aligned (h.block_mem hB)
  have hfields : B.fields = B.addr + 32 := rfl
  have hstop : B.stop = B.addr + 24 + 8 * B.length := rfl
  have hsize : A.block.size ≤ CHUNK_SIZE := (hm.represents.geometry.wellSized hm.mem).fits
  have hC : CHUNK_SIZE = 4194304 := rfl
  by_cases hout : B.fields < A.addr ∨ A.addr + 16 ≤ B.fields
  · rw [hm.kept_word h hB (by omega) (by unfold ArrayRec.element; omega) hout]
    exact h.length B hB
  · -- the new header may lie on the length of an array of at most one element
    unfold ArrayRec.element at hpos
    have hon : B.stop = A.addr ∧ B.length ≤ 1 := by omega
    obtain ⟨hhead, hforw⟩ := hm.header
    -- the word is its `forwarded` field or its first word, and both read the same length
    have hlen : B.length = 0 ∨ B.length = 1 := by omega
    rcases hlen with hzero | hone
    · rw [show B.fields = A.addr + 8 from by omega, hforw, hzero]
      rfl
    · rw [show B.fields = A.addr from by omega, hhead, hone]
      unfold arrayLength
      rw [toNat_headerWord (by omega) (by decide) (by decide)]
      simp only [OBJ_ARRAY]
      omega

/-- **One `arr` keeps the invariant.** -/
theorem Made.tracks (hm : Made c vm' rows rows' A) (h : Tracks c rows)
    (written : ArrayRec → Nat → Word) : Tracks ⟨vm', c.arrays ++ [A], written⟩ rows' where
  represents := hm.represents
  blocks := by
    rw [bump_objects hm.bump, h.blocks, List.map_append]
    rfl
  length B hB := by
    rcases List.mem_append.1 hB with hB | hB
    · exact hm.length_kept h hB
    · rw [List.mem_singleton.1 hB]
      exact hm.length
  inside B hB := by
    rcases List.mem_append.1 hB with hB | hB
    · obtain ⟨r, hr, hBr, hBend⟩ := h.inside B hB
      obtain ⟨r', hr', hbase, hitems⟩ := hm.bump.keeps r hr
      exact ⟨r', hr', hitems _ hBr, by rw [hbase]; exact hBend⟩
    · rw [List.mem_singleton.1 hB]
      exact hm.inside

/-- **When an `arr` leaves the elements alone**: the header it writes behind
the last block is there already. -/
theorem Made.keepsElements_iff (hm : Made c vm' rows rows' A) (h : Tracks c rows)
    (hlen : decodeInt (c.vm.reg len) = (A.length : Int)) :
    KeepsElements c vm' (fun _ _ => False) ↔ Harmless c (.arr dst len type) := by
  have htotal : (ArrayRec.block ⟨0, (decodeInt (c.vm.reg len)).toNat⟩).size = A.block.size := by
    rw [hlen]
    rfl
  obtain ⟨hhead, hforw⟩ := hm.header
  unfold Harmless
  simp only [htotal]
  constructor
  · intro hkeep p hp B hB i hi
    have hword := hkeep B hB i hi (fun hf => hf)
    rw [hm.next p hp]
    constructor
    · intro hon
      rw [← hon, ← hword, hon, hhead]
    · intro hon
      rw [← hon, ← hword, hon, hforw]
  · intro hharm B hB i hi _
    have hal := h.represents.geometry.object_aligned (h.block_mem hB)
    have hal' := hm.represents.geometry.object_aligned hm.mem
    have helem : B.element i = B.addr + 40 + 8 * i := rfl
    have hstop : B.stop = B.addr + 24 + 8 * B.length := rfl
    by_cases hout : B.element i < A.addr ∨ A.addr + 16 ≤ B.element i
    · exact hm.kept_word h hB (by omega) (by unfold ArrayRec.element; omega) hout
    · -- the array whose end is the new header is the only one in question
      rcases hm.position B hB with hpos | hpos | ⟨hnext, hpos⟩
      · unfold ArrayRec.element at *
        omega
      · unfold ArrayRec.element at *
        omega
      · obtain ⟨h0, h8⟩ := hharm A.addr hnext B hB i hi
        have hon : B.element i = A.addr ∨ B.element i = A.addr + 8 := by
          simp only at hal hal'
          omega
        rcases hon with hon | hon
        · rw [hon, hhead, h0 hon]
        · rw [hon, hforw, h8 hon]

/-- Writing to an element keeps the invariant, if no header changes. -/
theorem Tracks.put (h : Tracks c rows) (hA : A ∈ c.arrays) (hi : i < A.length) {w : Word}
    (hharm : ∀ B ∈ c.arrays, A.element i = B.addr ∨ A.element i = B.addr + 8 →
      c.vm.store.word (A.element i) = w) (written : ArrayRec → Nat → Word) :
    Tracks ⟨c.vm.setStore (c.vm.store.put (A.element i) w), c.arrays, written⟩ rows := by
  -- a store that hits a header writes the word that was there
  have hhead : ∀ B ∈ c.arrays, ∀ a, a = B.addr ∨ a = B.addr + 8 →
      (c.vm.store.put (A.element i) w).word a = c.vm.store.word a :=
    fun B hB a ha => Store.put_word_of_imp (fun hon => hharm B hB (hon ▸ ha))
  -- every object is one of the arrays
  have hblock : ∀ u ∈ heapObjects rows, ∃ B ∈ c.arrays, (B.addr, B.block) = u := by
    intro u hu
    rw [h.blocks] at hu
    exact List.mem_map.1 hu
  refine ⟨⟨h.represents.geometry.of_live (fun _ hr => hr), ?_, ?_, ?_⟩, h.blocks, ?_, h.inside⟩
  · have hheap : (c.vm.setStore (c.vm.store.put (A.element i) w)).heap
        (c.vm.setStore (c.vm.store.put (A.element i) w)).active = c.heap := by
      rw [VM.setStore_active, VM.setStore_heap]
      rfl
    show Counts ((c.vm.setStore _).heap (c.vm.setStore _).active) rows
    rw [hheap]
    exact h.represents.counts
  · intro u hu
    rw [← h.represents.headers.header u hu]
    obtain ⟨B, hB, rfl⟩ := hblock u hu
    exact hhead B hB _ (Or.inl rfl)
  · intro u hu
    rw [← h.represents.headers.forwarded u hu]
    obtain ⟨B, hB, rfl⟩ := hblock u hu
    exact hhead B hB _ (Or.inr rfl)
  · intro B hB
    rw [← h.length B hB]
    show arrayLength ((c.vm.store.put (A.element i) w).word B.fields) = _
    rw [Store.put_word_of_ne (ArrayRec.element_ne_fields (h.beside hA hB) hi)]

/-- **When an `arrins` obeys the law**: the element is on no header, or its
word is there already. -/
theorem Tracks.arrins_iff (h : Tracks c rows) :
    StoreLaw c (.arrins target address index) ↔ Harmless c (.arrins target address index) := by
  constructor
  · intro hlaw A i hA hi B hB hon
    obtain ⟨vm', hrun, _, _, hheaders⟩ := hlaw A i hA hi
    rw [arrins_spec h hA hi] at hrun
    injection hrun with _ hvm
    subst hvm
    obtain ⟨h0, h8, _⟩ := hheaders B hB
    rcases hon with hon | hon
    · rw [← hon] at h0
      exact h0.symm.trans (Store.put_word ..)
    · rw [← hon] at h8
      exact h8.symm.trans (Store.put_word ..)
  · intro hharm A i hA hi
    refine ⟨_, arrins_spec h hA hi, Store.put_word .., ?_, ?_⟩
    · intro B hB j hj hne
      refine Store.put_word_of_ne ?_
      -- another element of the array itself, or an element of another array
      rcases h.beside hA.1 hB with rfl | hsep
      · intro heq
        unfold ArrayRec.element at heq
        exact hne ⟨rfl, by omega⟩
      · exact ArrayRec.element_ne_element hsep hi.2 hj
    · have hkeep : ∀ B ∈ c.arrays, ∀ a, a = B.addr ∨ a = B.addr + 8 →
          (c.vm.store.put (A.element i) (c.vm.reg target)).word a = c.vm.store.word a :=
        fun B hB a ha => Store.put_word_of_imp (fun hon => hharm A i hA hi B hB (hon ▸ ha))
      exact fun B hB => ⟨hkeep B hB _ (Or.inl rfl), hkeep B hB _ (Or.inr rfl),
        Store.put_word_of_ne (ArrayRec.element_ne_fields (h.beside hA.1 hB) hi.2)⟩

/-- `Tracks` and `StoreLaw` say nothing about what was written. -/
theorem Tracks.setReg (h : Tracks c rows) (r : Byte) (w : Word)
    (written : ArrayRec → Nat → Word) :
    Tracks ⟨c.vm.setReg r w, c.arrays, written⟩ rows := by
  have hheap : (c.vm.setReg r w).heap (c.vm.setReg r w).active = c.heap := by
    rw [VM.setReg_active, VM.setReg_heap]
    rfl
  refine ⟨?_, h.blocks, h.length, h.inside⟩
  show Represents c.vm.store ((c.vm.setReg r w).heap (c.vm.setReg r w).active) rows
  rw [hheap]
  exact h.represents

/-- The elements hold what was last written to them. -/
def Remembers (c : Config) : Prop :=
  ∀ A ∈ c.arrays, ∀ i < A.length, c.vm.store.word (A.element i) = c.written A i

/-- An `arr` step is one of those `arr_spec` describes. -/
theorem Tracks.arr_made {n p : Nat} (h : Tracks c rows)
    (hlen : decodeInt (c.vm.reg len) = (n : Int))
    (hquiet : overTrigger c.heap.totalAllocated c.heap.max = false)
    (hin : Inside c (.arr dst len type))
    (hrun : (ArrayInstr.arr dst len type).exec c.vm = .ok () vm')
    (hresult : decodePointer (vm'.reg dst) = p + 16) :
    ∃ rows', Made c vm' rows rows' ⟨p, n⟩ := by
  rcases arr_spec h hlen hquiet hin with ⟨_, hfail⟩ | ⟨vm1, rows', q, hrun1, hres1, _, hmade⟩
  · rw [hrun] at hfail
    exact absurd hfail (by simp)
  · rw [hrun] at hrun1
    injection hrun1 with _ hvm
    subst hvm
    have hpq : p = q := by omega
    subst hpq
    exact ⟨rows', hmade⟩

/-- **The law and its condition agree** on every step from a tracked state. -/
theorem Tracks.storeLaw_iff {c' : Config} {instr : ArrayInstr} (h : Tracks c rows)
    (hstep : ArrayStep c instr c') (hin : Inside c instr) :
    StoreLaw c instr ↔ Harmless c instr := by
  -- by the instruction; reads and assignments write no memory
  cases hstep with
  | arr length fits quiet run result =>
      obtain ⟨rows', hmade⟩ := h.arr_made length quiet hin run result
      rw [← hmade.keepsElements_iff h length]
      constructor
      · intro hcases
        rcases hcases with ⟨_, hfail⟩ | ⟨vm1, hrun1, hkeep⟩
        · rw [run] at hfail
          exact absurd hfail (by simp)
        · rw [run] at hrun1
          injection hrun1 with _ hvm
          rw [hvm]
          exact hkeep
      · intro hkeep
        exact Or.inr ⟨_, run, hkeep⟩
  | arrins handle inRange run => exact h.arrins_iff
  | arrread handle inRange run =>
      exact ⟨fun _ => trivial, fun _ A i hA hi =>
        ⟨_, arrread_spec h hA hi, VM.setReg_self ..⟩⟩
  | assign => exact Iff.rfl

/-- **One step keeps the invariant**, if it is harmless. -/
theorem Tracks.step {c' : Config} {instr : ArrayInstr} (h : Tracks c rows) (hrem : Remembers c)
    (hstep : ArrayStep c instr c') (hin : Inside c instr) (hharm : Harmless c instr) :
    (∃ rows', Tracks c' rows') ∧ Remembers c' := by
  cases hstep with
  | arr length fits quiet run result =>
      obtain ⟨rows', hmade⟩ := h.arr_made length quiet hin run result
      have hkeep := (hmade.keepsElements_iff h length).2 hharm
      refine ⟨⟨rows', hmade.tracks h _⟩, fun B hB i hi => ?_⟩
      rcases List.mem_append.1 hB with hB | hB
      · -- the new array is none of the old ones
        have hne : ∀ A, A ∉ c.arrays → B ≠ A := fun A hA heq => hA (heq ▸ hB)
        simp only [if_neg (hne _ hmade.fresh)]
        rw [hkeep B hB i hi (fun hf => hf), hrem B hB i hi]
      · rw [List.mem_singleton] at hB
        subst hB
        simp only [if_true]
        exact hmade.zero i hi
  | @arrins target _ _ A i _ handle inRange run =>
      rw [arrins_spec h handle inRange] at run
      injection run with _ hvm
      subst hvm
      refine ⟨⟨rows, h.put handle.1 inRange.2 (hharm A i handle inRange) _⟩,
        fun B hB j hj => ?_⟩
      obtain ⟨vm1, hrun1, hself, hkeep, _⟩ := h.arrins_iff.2 hharm A i handle inRange
      rw [arrins_spec h handle inRange] at hrun1
      injection hrun1 with _ hvm
      subst hvm
      by_cases hsame : B = A ∧ j = i
      · obtain ⟨rfl, rfl⟩ := hsame
        simp only [and_self, if_true]
        exact hself
      · simp only [if_neg hsame]
        rw [hkeep B hB j hj hsame, hrem B hB j hj]
  | arrread handle inRange run =>
      rw [arrread_spec h handle inRange] at run
      injection run with _ hvm
      subst hvm
      exact ⟨⟨rows, h.setReg _ _ _⟩, hrem⟩
  | assign => exact ⟨⟨rows, h.setReg _ _ _⟩, hrem⟩

end Step

/-! ## §8. Runs. -/

/-- A start with two empty heaps tracks no array. -/
theorem Tracks.start {vm : VM} (hempty : (vm.heap vm.active).Empty) :
    Tracks (Config.start vm) [] := by
  have harena : Arena Obj.size CHUNK_SIZE ([] : List HeapRow) :=
    ⟨by simp, List.Pairwise.nil⟩
  refine ⟨⟨⟨harena, by simp, by simp, by simp, by simp⟩, ⟨?_, ?_⟩, ⟨by simp, by simp⟩⟩,
    rfl, by simp [Config.start], by simp [Config.start]⟩
  · exact hempty.1
  · exact hempty.2

/-- A run of array instructions whose arrays, elements included, lie in their
chunks, all of whose steps meet `P`. -/
def ArrayRun (P : Config → ArrayInstr → Prop) : Config → List ArrayInstr → Config → Prop :=
  Steps (Guarded (Guarded ArrayStep Inside) P)

/-- The invariant of a harmless run. -/
def Tracked (c : Config) : Prop := (∃ rows, Tracks c rows) ∧ Remembers c

/-- **The store law holds exactly of the runs that are harmless**, and there
every in-range `arrread` returns what was last written. -/
theorem array_store_law (vm : VM) (hempty : (vm.heap vm.active).Empty)
    (instrs : List ArrayInstr) (c : Config) :
    (ArrayRun StoreLaw (Config.start vm) instrs c ↔
      ArrayRun Harmless (Config.start vm) instrs c) ∧
    (ArrayRun Harmless (Config.start vm) instrs c →
      ∀ target address index A i, c.Handle address A → c.Index index A i →
        ∃ vm', (ArrayInstr.arrread target address index).exec c.vm = .ok () vm' ∧
          vm'.reg target = c.written A i) := by
  have h0 : Tracked (Config.start vm) :=
    ⟨⟨[], Tracks.start hempty⟩, fun A hA => absurd hA List.not_mem_nil⟩
  -- in a tracked state law and condition are the same, step by step
  have hiff : ∀ c instr c', Tracked c → Guarded ArrayStep Inside c instr c' →
      (StoreLaw c instr ↔ Harmless c instr) :=
    fun _ _ _ hI hstep => hI.1.elim (fun _ h => h.storeLaw_iff hstep.1 hstep.2)
  -- and the condition keeps the state tracked
  have hkeep : ∀ c instr c', Tracked c → Guarded ArrayStep Inside c instr c' →
      Harmless c instr → Tracked c' :=
    fun _ _ _ hI hstep hharm => hI.1.elim (fun _ h => h.step hI.2 hstep.1 hstep.2 hharm)
  refine ⟨⟨fun hrun => ?_, fun hrun => ?_⟩, fun hrun => ?_⟩
  · exact (hrun.replace Tracked h0 (fun c i c' hI hs => (hiff c i c' hI hs).1) hkeep).1
  · exact (hrun.replace Tracked h0 (fun c i c' hI hs => (hiff c i c' hI hs).2)
      (fun c i c' hI hs hlaw => hkeep c i c' hI hs ((hiff c i c' hI hs).1 hlaw))).1
  · intro target address index A i hA hi
    obtain ⟨⟨rows, h⟩, hrem⟩ :=
      (hrun.replace Tracked h0 (fun _ _ _ _ _ hharm => hharm) hkeep).2
    refine ⟨_, arrread_spec h hA hi, ?_⟩
    rw [VM.setReg_self]
    exact hrem A hA.1 i hi.2

/-- A machine with the number 2 in register 1. -/
def twoInReg1 : VM := VM.booted (fun r => if r = 1 then encodeInt 2 else encodeInt 0)

/-- `twoInReg1` after it has made its first array of length 2, in register 4. -/
def oneArray : Config :=
  { vm := finalState ((ArrayInstr.arr 4 1 0).exec twoInReg1)
    arrays := [⟨4096, 2⟩]
    written := fun A i => if A = ⟨4096, 2⟩ then 0 else (Config.start twoInReg1).written A i }

theorem oneArray_step : ArrayStep (Config.start twoInReg1) (.arr 4 1 0) oneArray :=
  ArrayStep.arr (n := 2) (p := 4096) (by decide) (by decide) (by decide +kernel)
    (ok_of_value (by decide +kernel)) (by decide +kernel)

/-- A machine with the number 3 in register 1, 1 in register 2 and 9 in
register 3. -/
def numberedRegs : VM :=
  VM.booted (fun r => encodeInt (if r = 1 then 3 else if r = 2 then 1 else if r = 3 then 9 else 0))

/-- The header of an array of length 3. -/
def headerOfThree : Word := headerWord 48 OBJ_ARRAY 0

/-- The first array of the run below. -/
def firstArray : ArrayRec := ⟨4096, 3⟩

/-- The second one. -/
def secondArray : ArrayRec := ⟨4144, 3⟩

/-- An array of length 3 in register 4. -/
def pairArr : Config :=
  { vm := finalState ((ArrayInstr.arr 4 1 0).exec numberedRegs)
    arrays := [firstArray]
    written := fun A i => if A = firstArray then 0 else (Config.start numberedRegs).written A i }

/-- The header a second one will have in register 7. -/
def pairAssign : Config := ⟨pairArr.vm.setReg 7 headerOfThree, pairArr.arrays, pairArr.written⟩

/-- It is written to element 1, where that header will be. -/
def pairArrins : Config :=
  { vm := finalState ((ArrayInstr.arrins 7 4 2).exec pairAssign.vm)
    arrays := pairAssign.arrays
    written := fun B j =>
      if B = firstArray ∧ j = 1 then pairAssign.vm.reg 7 else pairAssign.written B j }

/-- So the second array, in register 5, does no harm. -/
def pairBoth : Config :=
  { vm := finalState ((ArrayInstr.arr 5 1 0).exec pairArrins.vm)
    arrays := pairArrins.arrays ++ [secondArray]
    written := fun A i => if A = secondArray then 0 else pairArrins.written A i }

/-- And 9 is written to element 0 of the first one. -/
def pairWritten : Config :=
  { vm := finalState ((ArrayInstr.arrins 3 4 0).exec pairBoth.vm)
    arrays := pairBoth.arrays
    written := fun B j =>
      if B = firstArray ∧ j = 0 then pairBoth.vm.reg 3 else pairBoth.written B j }

/-- The run. -/
def pairInstrs : List ArrayInstr :=
  [.arr 4 1 0, .assign 7 headerOfThree, .arrins 7 4 2, .arr 5 1 0, .arrins 3 4 0]

/-- The run is harmless. -/
theorem pair_run : ArrayRun Harmless (Config.start numberedRegs) pairInstrs pairWritten := by
  have hinside : Inside (Config.start numberedRegs) (.arr 4 1 0) ∧ Inside pairArrins (.arr 5 1 0) := by
    unfold Inside
    decide +kernel
  have hsteps : ArrayStep (Config.start numberedRegs) (.arr 4 1 0) pairArr ∧
      ArrayStep pairAssign (.arrins 7 4 2) pairArrins ∧ ArrayStep pairArrins (.arr 5 1 0) pairBoth ∧
      ArrayStep pairBoth (.arrins 3 4 0) pairWritten := by
    refine ⟨?_, ?_, ?_, ?_⟩
    · exact ArrayStep.arr (n := 3) (p := 4096) (by decide) (by decide) (by decide +kernel)
        (ok_of_value (by decide +kernel)) (by decide +kernel)
    · exact ArrayStep.arrins (A := firstArray) (i := 1) ⟨List.mem_singleton_self _, by decide +kernel⟩
        ⟨by decide +kernel, by decide⟩ (ok_of_value (by decide +kernel))
    · exact ArrayStep.arr (n := 3) (p := 4144) (by decide +kernel) (by decide) (by decide +kernel)
        (ok_of_value (by decide +kernel)) (by decide +kernel)
    · exact ArrayStep.arrins (A := firstArray) (i := 0)
        ⟨List.mem_append_left _ (List.mem_singleton_self _), by decide +kernel⟩
        ⟨by decide +kernel, by decide⟩ (ok_of_value (by decide +kernel))
  have hfirst : Harmless pairAssign (.arrins 7 4 2) := by
    rintro A i ⟨hA, -⟩ ⟨-, hi⟩ B hB hon
    obtain rfl := List.mem_singleton.1 hA
    obtain rfl := List.mem_singleton.1 hB
    -- no element of an array lies on its own header
    unfold ArrayRec.element at hon
    omega
  have hsecond : Harmless pairArrins (.arr 5 1 0) := by
    intro p hp A _ i _
    have hnext : nextBehind pairArrins.heap
        (ArrayRec.block ⟨0, (decodeInt (pairArrins.vm.reg 1)).toNat⟩).size = some 4144 := by
      decide +kernel
    have hwords : pairArrins.vm.store.word 4144
          = headerWord (ArrayRec.block ⟨0, (decodeInt (pairArrins.vm.reg 1)).toNat⟩).size OBJ_ARRAY 0 ∧
        pairArrins.vm.store.word (4144 + 8) = 0 := by
      decide +kernel
    obtain rfl : 4144 = p := Option.some.inj (hnext.symm.trans hp)
    exact ⟨fun _ => hwords.1, fun _ => hwords.2⟩
  have hthird : Harmless pairBoth (.arrins 3 4 0) := by
    rintro A i ⟨hA, haddr⟩ ⟨hindex, hi⟩ B hB hon
    have hregs : decodePointer (pairBoth.vm.reg 4) = 4112 ∧ decodeInt (pairBoth.vm.reg 0) = 0 := by
      decide +kernel
    have hB' : B.addr = 4096 ∨ B.addr = 4144 := by
      rcases List.mem_append.1 hB with hB | hB
      · exact Or.inl (congrArg ArrayRec.addr (List.mem_singleton.1 hB))
      · exact Or.inr (congrArg ArrayRec.addr (List.mem_singleton.1 hB))
    -- element 0 lies in front of the second header
    rw [hregs.1] at haddr
    rw [hregs.2] at hindex
    unfold ArrayRec.element at hon
    omega
  have hone : ArrayRun Harmless (Config.start numberedRegs) [.arr 4 1 0] pairArr :=
    (Steps.nil _).snoc ⟨⟨hsteps.1, hinside.1⟩, fun _ _ A hA => absurd hA List.not_mem_nil⟩
  have htwo := (hone.snoc ⟨⟨ArrayStep.assign, trivial⟩, trivial⟩).snoc
    ⟨⟨hsteps.2.1, trivial⟩, hfirst⟩
  exact (htwo.snoc ⟨⟨hsteps.2.2.1, hinside.2⟩, hsecond⟩).snoc ⟨⟨hsteps.2.2.2, trivial⟩, hthird⟩

/-- In it the store law holds, and element 0 of the first array reads 9. -/
theorem array_store_law_twoArrays :
    ArrayRun StoreLaw (Config.start numberedRegs) pairInstrs pairWritten ∧
    ∃ vm', (ArrayInstr.arrread 6 4 0).exec pairWritten.vm = .ok () vm' ∧
      vm'.reg 6 = encodeInt 9 := by
  obtain ⟨hiff, hread⟩ := array_store_law numberedRegs ⟨rfl, rfl⟩ pairInstrs pairWritten
  refine ⟨hiff.2 pair_run, ?_⟩
  obtain ⟨vm', hrun, hreg⟩ := hread pair_run 6 4 0 firstArray 0
    ⟨List.mem_append_left _ (List.mem_singleton_self _), by decide +kernel⟩
    ⟨by decide +kernel, by decide⟩
  have hnine : pairWritten.written firstArray 0 = encodeInt 9 := by decide +kernel
  exact ⟨vm', hrun, hreg.trans hnine⟩

/-- **The law fails on two arrays of length 2**: the header of the second one
overwrites element 0 of the first one. -/
theorem array_store_law_fails :
    Steps ArrayStep (Config.start twoInReg1) [.arr 4 1 0] oneArray ∧
    (∃ c', ArrayStep oneArray (.arr 5 1 0) c') ∧ ¬ StoreLaw oneArray (.arr 5 1 0) := by
  have hrun : (ArrayInstr.arr 5 1 0).exec oneArray.vm
      = .ok () (finalState ((ArrayInstr.arr 5 1 0).exec oneArray.vm)) :=
    ok_of_value (by decide +kernel)
  refine ⟨(Steps.nil _).snoc oneArray_step, ⟨_, ArrayStep.arr (n := 2) (p := 4096 + 40)
    (by decide +kernel) (by decide) (by decide +kernel) hrun (by decide +kernel)⟩, ?_⟩
  intro hcases
  rcases hcases with ⟨_, hfail⟩ | ⟨vm', hok, hkeep⟩
  · rw [hrun] at hfail
    exact absurd hfail (by simp)
  · rw [hrun] at hok
    injection hok with _ hvm
    subst hvm
    have hword := hkeep ⟨4096, 2⟩ (List.mem_singleton_self _) 0 (by decide) (fun hf => hf)
    exact absurd hword (by decide +kernel)

end SproutLang
