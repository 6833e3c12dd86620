/-
  SproutLang.VM.ObjectRelation
  ────────────────────────────
  **WHEN THE VM IMPLEMENTS A STATE OF THE OBJECT MACHINE.**

  A rooted machine `Mirrors` a state of the object machine under a numbering
  of the blocks of its heap: a pointer stands where the object machine has the
  array of that number, any other word stands for itself, and the block of an
  array holds its words.  A collection changes every pointer and every block's
  address, and with them the numbering, but not the state that is mirrored:

    • `Mirrors.collected`  — a collection is invisible,
    • `Mirrors.placed`     — `arr` makes the next array,
    • `Mirrors.arrins`     — `arrins` changes one word of one array.
-/
import SproutLang.VM.ObjectMachine
import SproutLang.VM.RootValidity

namespace SproutLang

open Library

/-! ## §1. Words and cells. -/

/-- The same word, or a pointer and an array. -/
def SameKind (w : Word) : Cell → Prop
  | .word w' => w' = w ∧ isPointer w = false
  | .array _ => isPointer w = true

/-- A pointer to an object is the array of the object's number. -/
def Numbered (rows : List HeapRow) (number : Nat → Nat) (w : Word) (v : Cell) : Prop :=
  isPointer w = true → ∀ p ∈ heapObjects rows, decodePointer w = p.1 + 16 → v = .array (number p.1)

/-- **A word that stands for a cell**, and is no stale pointer. -/
structure Stands (rows : List HeapRow) (number : Nat → Nat) (w : Word) (v : Cell) : Prop where
  named : Named rows w
  kind : SameKind w v
  numbered : Numbered rows number w v

section Cells

variable {rows rows' : List HeapRow} {number number' : Nat → Nat} {w : Word} {v : Cell}

theorem SameKind.plain (h : isPointer w = false) : SameKind w (.word w) := ⟨rfl, h⟩

/-- A word that is no pointer stands for itself. -/
theorem SameKind.eq_word (h : SameKind w v) (hw : isPointer w = false) : v = .word w := by
  cases v with
  | word w' => rw [h.1]
  | array k =>
      have hptr : isPointer w = true := h
      rw [hw] at hptr
      exact absurd hptr Bool.false_ne_true

/-- A pointer stands for an array. -/
theorem SameKind.eq_array (h : SameKind w v) (hw : isPointer w = true) : ∃ k, v = .array k := by
  cases v with
  | word w' =>
      rw [h.2] at hw
      exact absurd hw Bool.false_ne_true
  | array k => exact ⟨k, rfl⟩

theorem Numbered.plain (h : isPointer w = false) : Numbered rows number w v := by
  intro hptr
  rw [h] at hptr
  exact absurd hptr Bool.false_ne_true

/-- A word without a pointer stands for itself. -/
theorem Stands.plain (h : isPointer w = false) : Stands rows number w (.word w) :=
  ⟨Named.of_plain h, SameKind.plain h, Numbered.plain h⟩

/-- A pointer is neither a number nor a truth value. -/
theorem isPointer_classes (h : isPointer w = true) :
    isDouble w = false ∧ isInt w = false ∧ isBool w = false ∧ isChar6 w = false := by
  have hnum := (isPointer_iff w).1 h
  refine ⟨?_, ?_, ?_, ?_⟩
  · rw [Bool.eq_false_iff, ne_eq, isDouble_iff]
    omega
  · rw [Bool.eq_false_iff, ne_eq, isInt_iff]
    omega
  · rw [Bool.eq_false_iff, ne_eq, isBool_iff]
    omega
  · rw [Bool.eq_false_iff, ne_eq, isChar6_iff]
    omega

/-- Word and cell print the same. -/
theorem SameKind.printed (h : SameKind w v) : v.printed = SproutLang.printed w := by
  cases v with
  | word w' =>
      rw [← h.1]
      rfl
  | array k =>
      obtain ⟨hdouble, hint, _, hchar⟩ := isPointer_classes h
      unfold SproutLang.printed
      rw [hdouble, hint, hchar]
      rfl

end Cells

/-! ## §2. The relation. -/

/-- The block at `p` holds the length and the words of an array, all but the
last two words: the block ends before them. -/
structure Holds (s : Store) (p : Nat × Obj) (words : List Word) : Prop where
  size : p.2.size = 24 + 8 * words.length
  length : 2 < words.length → arrayLength (s.word (p.1 + 32)) = words.length
  elements : ∀ i, i + 2 < words.length → words[i]? = some (s.word (p.1 + (40 + 8 * i)))

/-- What neither machine keeps in registers, stack or heap. -/
structure SameControl (vm : VM) (m : ObjectVM) : Prop where
  code : m.code = vm.bytecode
  functionTable : m.functionTable = vm.functionTable
  fpu : m.fpu = vm.fpu
  jmpFlag : m.jmpFlag = vm.jmpFlag
  running : m.running = vm.running
  out : m.out = vm.out
  sp : m.sp = vm.sp
  ip : SameKind vm.ip m.ip

/-- Registers and stack; of a stale word only the kind is known. -/
structure SameCells (c : RootTrace) (rows : List HeapRow) (number : Nat → Nat) (m : ObjectVM) :
    Prop where
  regs : ∀ r, SameKind (c.vm.reg r) (m.reg r)
  regsNumbered : ∀ r, Numbered rows number (c.vm.reg r) (m.reg r)
  slots : ∀ i, SameKind (c.vm.stack i) (m.stack i)
  slotsNumbered : ∀ i, ¬ c.stale i → Numbered rows number (c.vm.stack i) (m.stack i)
  fp : SameKind c.vm.fp m.fp
  fpNumbered : ¬ c.staleFp → Numbered rows number c.vm.fp m.fp

/-- Every block is an array, and no two are the same one. -/
structure SameArrays (s : Store) (rows : List HeapRow) (number : Nat → Nat) (m : ObjectVM) :
    Prop where
  held : ∀ p ∈ heapObjects rows, ∃ words, m.arrays[number p.1]? = some words ∧ Holds s p words
  distinct : ∀ p ∈ heapObjects rows, ∀ q ∈ heapObjects rows, number p.1 = number q.1 → p = q

/-- **The rooted machine `c` is an implementation of `m`** under the numbering
`number` of its blocks. -/
structure Mirrors (c : RootTrace) (rows : List HeapRow) (number : Nat → Nat) (m : ObjectVM) :
    Prop where
  rooted : Rooted c rows
  control : SameControl c.vm m
  cells : SameCells c rows number m
  arrays : SameArrays c.vm.store rows number m

/-- Some numbering makes it one. -/
def Mirrored (c : RootTrace) (m : ObjectVM) : Prop := ∃ rows number, Mirrors c rows number m

section Keep

variable {c : RootTrace} {rows : List HeapRow} {number : Nat → Nat} {m : ObjectVM}

/-- Registers stand for registers. -/
theorem Mirrors.reg (h : Mirrors c rows number m) (r : Byte) :
    Stands rows number (c.vm.reg r) (m.reg r) :=
  ⟨h.rooted.regs r, h.cells.regs r, h.cells.regsNumbered r⟩

/-- So do stack slots that are not stale. -/
theorem Mirrors.slot (h : Mirrors c rows number m) {i : Nat} (hi : ¬ c.stale i) :
    Stands rows number (c.vm.stack i) (m.stack i) :=
  ⟨h.rooted.slots i hi, h.cells.slots i, h.cells.slotsNumbered i hi⟩

/-- So does FP, if it is not. -/
theorem Mirrors.frame (h : Mirrors c rows number m) (hfp : ¬ c.staleFp) :
    Stands rows number c.vm.fp m.fp :=
  ⟨h.rooted.fp hfp, h.cells.fp, h.cells.fpNumbered hfp⟩

/-- What holds of every entry of two tables still holds when both take a new
entry it holds of. -/
theorem update_both {ι α β : Type} [DecidableEq ι] {R : ι → α → β → Prop} {f : ι → α} {g : ι → β}
    {i : ι} {a : α} {b : β} (hnew : R i a b) {j : ι} (hold : j ≠ i → R j (f j) (g j)) :
    R j (Function.update f i a j) (Function.update g i b j) := by
  by_cases hj : j = i
  · subst hj
    rw [Function.update_self, Function.update_self]
    exact hnew
  · rw [Function.update_of_ne hj, Function.update_of_ne hj]
    exact hold hj

/-- A register takes a word that stands for the cell the other register
takes. -/
theorem Mirrors.setReg (h : Mirrors c rows number m) {r : Byte} {w : Word} {v : Cell}
    (hw : Stands rows number w v) :
    Mirrors ⟨c.vm.setReg r w, c.stale, c.staleFp⟩ rows number (m.setReg r v) where
  rooted := h.rooted.setReg hw.named
  control :=
    let hc := h.control
    ⟨hc.code, hc.functionTable, hc.fpu, hc.jmpFlag, hc.running, hc.out, hc.sp, hc.ip⟩
  cells :=
    { regs := fun _ => update_both (R := fun _ w v => SameKind w v) hw.kind
        fun _ => h.cells.regs _
      regsNumbered := fun _ => update_both (R := fun _ w v => Numbered rows number w v) hw.numbered
        fun _ => h.cells.regsNumbered _
      slots := h.cells.slots
      slotsNumbered := h.cells.slotsNumbered
      fp := h.cells.fp
      fpNumbered := h.cells.fpNumbered }
  arrays := ⟨h.arrays.held, h.arrays.distinct⟩

/-- So does a stack slot, which is then not stale. -/
theorem Mirrors.setSlot (h : Mirrors c rows number m) {i : Nat} {w : Word} {v : Cell}
    (hw : Stands rows number w v) :
    Mirrors ⟨c.vm.setSlot i w, fun j => c.stale j ∧ j ≠ i, c.staleFp⟩ rows number
      (m.setSlot i v) where
  rooted := h.rooted.setSlot hw.named
  control :=
    let hc := h.control
    ⟨hc.code, hc.functionTable, hc.fpu, hc.jmpFlag, hc.running, hc.out, hc.sp, hc.ip⟩
  cells :=
    { regs := h.cells.regs
      regsNumbered := h.cells.regsNumbered
      slots := fun _ => update_both (R := fun _ w v => SameKind w v) hw.kind
        fun _ => h.cells.slots _
      slotsNumbered := fun j hj =>
        update_both (R := fun _ w v => Numbered rows number w v) hw.numbered
          fun hne => h.cells.slotsNumbered j fun hstale => hj ⟨hstale, hne⟩
      fp := h.cells.fp
      fpNumbered := h.cells.fpNumbered }
  arrays := ⟨h.arrays.held, h.arrays.distinct⟩

/-- Where the program goes on. -/
theorem Mirrors.setIp (h : Mirrors c rows number m) {ip : Word} (hip : isPointer ip = false) :
    Mirrors ⟨{ c.vm with ip := ip }, c.stale, c.staleFp⟩ rows number { m with ip := .word ip } where
  rooted := h.rooted.of_same_heap rfl rfl rfl rfl h.rooted.regs h.rooted.slots h.rooted.seen
    h.rooted.fp h.rooted.limit
  control :=
    let hc := h.control
    ⟨hc.code, hc.functionTable, hc.fpu, hc.jmpFlag, hc.running, hc.out, hc.sp, SameKind.plain hip⟩
  cells :=
    let hc := h.cells
    ⟨hc.regs, hc.regsNumbered, hc.slots, hc.slotsNumbered, hc.fp, hc.fpNumbered⟩
  arrays := ⟨h.arrays.held, h.arrays.distinct⟩

/-- Setting both flags keeps the relation. -/
theorem Mirrors.setFlag (h : Mirrors c rows number m) (flag : Int) :
    Mirrors ⟨{ c.vm with jmpFlag := flag }, c.stale, c.staleFp⟩ rows number
      { m with jmpFlag := flag } where
  rooted := h.rooted.of_same_heap rfl rfl rfl rfl h.rooted.regs h.rooted.slots h.rooted.seen
    h.rooted.fp h.rooted.limit
  control :=
    let hc := h.control
    ⟨hc.code, hc.functionTable, hc.fpu, rfl, hc.running, hc.out, hc.sp, hc.ip⟩
  cells :=
    let hc := h.cells
    ⟨hc.regs, hc.regsNumbered, hc.slots, hc.slotsNumbered, hc.fp, hc.fpNumbered⟩
  arrays := ⟨h.arrays.held, h.arrays.distinct⟩

/-- Both print the same. -/
theorem Mirrors.print (h : Mirrors c rows number m) {w : Word} {v : Cell} (hw : SameKind w v) :
    Mirrors ⟨{ c.vm with out := c.vm.out ++ printed w }, c.stale, c.staleFp⟩ rows number
      { m with out := m.out ++ v.printed } where
  rooted := h.rooted.of_same_heap rfl rfl rfl rfl h.rooted.regs h.rooted.slots h.rooted.seen
    h.rooted.fp h.rooted.limit
  control :=
    let hc := h.control
    { code := hc.code
      functionTable := hc.functionTable
      fpu := hc.fpu
      jmpFlag := hc.jmpFlag
      running := hc.running
      out := by
        show m.out ++ v.printed = c.vm.out ++ printed w
        rw [hc.out, hw.printed]
      sp := hc.sp
      ip := hc.ip }
  cells :=
    let hc := h.cells
    ⟨hc.regs, hc.regsNumbered, hc.slots, hc.slotsNumbered, hc.fp, hc.fpNumbered⟩
  arrays := ⟨h.arrays.held, h.arrays.distinct⟩

/-- `push`. -/
theorem Mirrors.pushed (h : Mirrors c rows number m) {w : Word} {v : Cell}
    (hw : Stands rows number w v) (hroom : c.vm.sp.toNat < STACK_SIZE) :
    Mirrors ⟨c.vm.pushed w, fun j => c.stale j ∧ j ≠ c.vm.sp.toNat, c.staleFp⟩ rows number
      (m.pushed v) := by
  have hset := h.setSlot (i := c.vm.sp.toNat) hw
  have hsp := h.control.sp
  have hpushed : m.pushed v = { m.setSlot c.vm.sp.toNat v with sp := c.vm.sp + 1 } := by
    unfold ObjectVM.pushed
    rw [hsp]
  rw [hpushed]
  have hc := hset.control
  have hcells := hset.cells
  refine ⟨h.rooted.pushed hw.named hroom, ?_, ?_, ⟨h.arrays.held, h.arrays.distinct⟩⟩
  · exact ⟨hc.code, hc.functionTable, hc.fpu, hc.jmpFlag, hc.running, hc.out, rfl, hc.ip⟩
  · exact ⟨hcells.regs, hcells.regsNumbered, hcells.slots, hcells.slotsNumbered, hcells.fp,
      hcells.fpNumbered⟩

/-- `pop` into a register. -/
theorem Mirrors.popped (h : Mirrors c rows number m) (r : Byte) (hlow : 1 ≤ c.vm.sp.toNat) :
    Mirrors ⟨{ c.vm with sp := c.vm.sp - 1 }.setReg r (c.vm.stack (c.vm.sp.toNat - 1)), c.stale,
      c.staleFp⟩ rows number ({ m with sp := m.sp - 1 }.setReg r (m.stack (m.sp.toNat - 1))) := by
  have hsp := h.control.sp
  -- the word popped lies below `sp`, so it is not stale
  have hset := h.setReg (r := r) (h.slot (h.rooted.seen (c.vm.sp.toNat - 1) (by omega)))
  rw [hsp]
  have hc := hset.control
  have hcells := hset.cells
  refine ⟨h.rooted.popped hlow, ?_, ?_, ⟨h.arrays.held, h.arrays.distinct⟩⟩
  · exact ⟨hc.code, hc.functionTable, hc.fpu, hc.jmpFlag, hc.running, hc.out, rfl, hc.ip⟩
  · exact ⟨hcells.regs, hcells.regsNumbered, hcells.slots, hcells.slotsNumbered, hcells.fp,
      hcells.fpNumbered⟩

/-- `call` of `f`: two cells are pushed, and the new frame pointer is a plain
word. -/
theorem Mirrors.called (h : Mirrors c rows number m) {f : FunctionInfo}
    (hip : c.vm.ip.toNat < 2 ^ 48) (hroom : c.vm.sp.toNat + 2 ≤ STACK_SIZE)
    (hfp : ¬ c.staleFp)
    (hfree : ∀ j, c.vm.sp.toNat + 2 ≤ j → j < c.vm.sp.toNat + 2 + f.frameSize.toNat →
      ¬ c.stale j)
    (hlimit : (c.vm.called f).sp.toNat ≤ STACK_SIZE) :
    Mirrors ⟨c.vm.called f,
      fun j => c.stale j ∧ j ≠ c.vm.sp.toNat ∧ j ≠ c.vm.sp.toNat + 1, False⟩ rows number
      (m.called f) := by
  have hS : STACK_SIZE = 4096 := rfl
  have hsp := h.control.sp
  have hsp1 : (c.vm.sp + 1).toNat = c.vm.sp.toNat + 1 := by bv_omega
  have hplain : isPointer c.vm.ip = false := isPointer_eq_false_of_lt (by omega)
  have hmip := h.control.ip.eq_word hplain
  -- the frame pointer, then the return address
  have h1 := h.pushed (h.frame hfp) (by omega)
  have h2 := h1.pushed (w := c.vm.ip) (Stands.plain hplain)
    (show (c.vm.sp + 1).toNat < STACK_SIZE by omega)
  have hcells := h2.cells
  have hentry : (f.entryIP.setWidth 64).toNat < 2 ^ 62 := by
    rw [BitVec.toNat_setWidth]
    have := f.entryIP.isLt
    omega
  have hframe : (c.vm.sp + 2).toNat < 2 ^ 62 := by bv_omega
  refine ⟨h.rooted.called hip hroom hfp hfree hlimit, ?_, ?_, ⟨h.arrays.held, h.arrays.distinct⟩⟩
  · have hc := h2.control
    refine ⟨hc.code, hc.functionTable, hc.fpu, hc.jmpFlag, hc.running, hc.out, ?_,
      SameKind.plain (isPointer_eq_false_of_lt hentry)⟩
    show m.sp + 2 + f.frameSize.setWidth 64 = c.vm.sp + 2 + f.frameSize.setWidth 64
    rw [hsp]
  · have hstack : (m.called f).stack = ((m.pushed m.fp).pushed (.word c.vm.ip)).stack := by
      show ((m.pushed m.fp).pushed m.ip).stack = _
      rw [hmip]
    refine ⟨hcells.regs, hcells.regsNumbered, fun j => ?_, fun j hj => ?_, ?_, fun _ => ?_⟩
    · rw [hstack]
      exact hcells.slots j
    · rw [hstack]
      refine hcells.slotsNumbered j fun hstale => hj ⟨hstale.1.1, hstale.1.2, ?_⟩
      rw [← hsp1]
      exact hstale.2
    · show SameKind (c.vm.sp + 2) (.word (m.sp + 2))
      rw [hsp]
      exact SameKind.plain (isPointer_eq_false_of_lt hframe)
    · exact Numbered.plain (isPointer_eq_false_of_lt hframe)

/-- `ret` to the frame below `fp`. -/
theorem Mirrors.returned (h : Mirrors c rows number m) (hlow : 2 ≤ c.vm.fp.toNat)
    (hhigh : c.vm.fp.toNat ≤ STACK_SIZE)
    (hfree : ∀ j, c.vm.sp.toNat ≤ j → j < c.vm.fp.toNat - 2 → ¬ c.stale j) :
    Mirrors ⟨c.vm.returned, c.stale, c.stale (c.vm.fp.toNat - 2)⟩ rows number
      (m.returned c.vm.fp) :=
  let hc := h.control
  let hcells := h.cells
  { rooted := h.rooted.returned hlow hhigh hfree
    control :=
      { code := hc.code
        functionTable := hc.functionTable
        fpu := hc.fpu
        jmpFlag := hc.jmpFlag
        running := hc.running
        out := hc.out
        sp := rfl
        ip := hcells.slots (c.vm.fp.toNat - 1) }
    cells :=
      { regs := hcells.regs
        regsNumbered := hcells.regsNumbered
        slots := hcells.slots
        slotsNumbered := hcells.slotsNumbered
        fp := hcells.slots (c.vm.fp.toNat - 2)
        fpNumbered := hcells.slotsNumbered (c.vm.fp.toNat - 2) }
    arrays := ⟨h.arrays.held, h.arrays.distinct⟩ }

end Keep

/-! ## §3. Arrays. -/

section Arrays

variable {c : RootTrace} {rows rows' : List HeapRow} {number : Nat → Nat} {m : ObjectVM}

/-- The number and the words of the array a pointer stands for. -/
theorem Mirrors.array (h : Mirrors c rows number m) {p : Nat × Obj} (hp : p ∈ heapObjects rows) :
    ∃ words, m.arrays[number p.1]? = some words ∧ Holds c.vm.store p words :=
  h.arrays.held p hp

/-- An element off another block is in none of its words. -/
theorem element_ne {s : Store} (hg : Geometry s rows) {p u : Nat × Obj} (hp : p ∈ heapObjects rows)
    (hu : u ∈ heapObjects rows) (hne : u ≠ p) {k j : Nat} (hk : k + 8 ≤ p.2.size)
    (hj : j + 8 ≤ u.2.size) : u.1 + j ≠ p.1 + k := by
  rcases hg.arena.eq_or_apart hu hp with heq | hsep | hsep
  · exact absurd heq hne
  · omega
  · omega

/-- `arrins` changes one word of one array. -/
theorem Mirrors.arrins (h : Mirrors c rows number m) {p : Nat × Obj} (hp : p ∈ heapObjects rows)
    {i : Nat} (hi : 48 + 8 * i ≤ p.2.size) {w : Word} (hw : isPointer w = false) :
    Mirrors { c with vm := c.vm.setStore (c.vm.store.put (p.1 + (40 + 8 * i)) w) } rows number
      (m.insert (number p.1) i w) where
  rooted := h.rooted.arrins hp (by omega) (by omega) (by omega) hw
  control :=
    let hc := h.control
    ⟨hc.code, hc.functionTable, hc.fpu, hc.jmpFlag, hc.running, hc.out, hc.sp, hc.ip⟩
  cells :=
    let hc := h.cells
    ⟨hc.regs, hc.regsNumbered, hc.slots, hc.slotsNumbered, hc.fp, hc.fpNumbered⟩
  arrays :=
    { held := fun u hu => by
        obtain ⟨words, hwords, hholds⟩ := h.array hu
        show ∃ words', (m.arrays.modify (number p.1) _)[number u.1]? = some words' ∧ _
        rw [List.getElem?_modify, hwords]
        by_cases hup : u = p
        · -- the array itself: its word `i`
          subst hup
          refine ⟨words.set i w, congrArg some (if_pos rfl), ?_, fun hlong => ?_, fun j hj => ?_⟩
          · rw [List.length_set]
            exact hholds.size
          · rw [List.length_set] at hlong ⊢
            rw [← hholds.length hlong]
            exact congrArg arrayLength (Store.put_word_of_ne (by omega))
          · rw [List.length_set] at hj
            rw [List.getElem?_set]
            by_cases hji : i = j
            · subst hji
              rw [if_pos rfl, if_pos (by omega)]
              exact congrArg some (Store.put_word ..).symm
            · rw [if_neg hji, hholds.elements j hj]
              refine congrArg some (Store.put_word_of_ne ?_).symm
              omega
        · -- another one: its number is another, and its words lie elsewhere
          have hnumber : ¬ number p.1 = number u.1 :=
            fun heq => hup (h.arrays.distinct p hp u hu heq).symm
          have hsize := hholds.size
          have hoff : ∀ k, k + 8 ≤ u.2.size → u.1 + k ≠ p.1 + (40 + 8 * i) := fun k hk =>
            element_ne h.rooted.represents.geometry hp hu hup (by omega) hk
          refine ⟨words, congrArg some (if_neg hnumber), hsize, fun hlong => ?_, fun j hj => ?_⟩
          · rw [← hholds.length hlong]
            exact congrArg arrayLength (Store.put_word_of_ne (hoff 32 (by omega)))
          · rw [hholds.elements j hj]
            exact congrArg some (Store.put_word_of_ne (hoff _ (by omega))).symm
      distinct := h.arrays.distinct }

/-- What the heap functions leave alone. -/
theorem SameControl.of_control {vm vm' : VM} (h : SameControl vm m)
    (hcontrol : vm'.control = vm.control) : SameControl vm' m where
  code := h.code.trans (congrArg Control.bytecode hcontrol).symm
  functionTable := h.functionTable.trans (congrArg Control.functionTable hcontrol).symm
  fpu := h.fpu.trans (congrArg Control.fpu hcontrol).symm
  jmpFlag := h.jmpFlag.trans (congrArg Control.jmpFlag hcontrol).symm
  running := h.running.trans (congrArg Control.running hcontrol).symm
  out := h.out.trans (congrArg Control.out hcontrol).symm
  sp := h.sp.trans (congrArg Control.sp hcontrol).symm
  ip := by
    have hip : vm'.ip = vm.ip := congrArg Control.ip hcontrol
    rw [hip]
    exact h.ip

/-- A pointer to an old block keeps its number when a new block gets one. -/
theorem Numbered.grow {w : Word} {v : Cell} {p k : Nat} {x : Obj} (h : Numbered rows number w v)
    (hnamed : Named rows w) (hobjects : heapObjects rows' = heapObjects rows ++ [(p, x)])
    (hold : ∀ u ∈ heapObjects rows, u.1 ≠ p) :
    Numbered rows' (Function.update number p k) w v := by
  intro hptr u hu hdecode
  -- the pointer names an old block, so not the new one
  obtain ⟨u', hu', hdecode'⟩ := hnamed hptr
  have hnew := hold u' hu'
  rw [hobjects, List.mem_append, List.mem_singleton] at hu
  rcases hu with hu | rfl
  · rw [Function.update_of_ne (hold u hu)]
    exact h hptr u hu hdecode
  · have hdecode : decodePointer w = p + 16 := hdecode
    omega

/-- **A new array** is the next array of the object machine. -/
theorem Mirrors.placed (h : Mirrors c rows number m) {sp : Space} {s' : Store} {p t n : Nat}
    {dst : Byte} (ht : t < 2 ^ 32)
    (hall : Allocated ⟨c.vm.store, c.vm.heap c.vm.active⟩ sp rows rows' ⟨24 + 8 * n, OBJ_ARRAY⟩ p)
    (hwrote : ArrayWritten sp.store s' p t n)
    (hplaced : ArrayPlaced (c.vm.heap c.vm.active) rows rows' p n) :
    Mirrors { c with
      vm := (((c.vm.setHeap c.vm.active sp.heap).setStore sp.store).setStore s').setReg dst
        (encodePointer (BitVec.ofNat 64 (p + 16))) } rows'
      (Function.update number p m.arrays.length) (m.allocated dst n) := by
  have hg := h.rooted.represents.geometry
  have hgeo := hall.represents.geometry
  have hobjects := hall.objects_eq
  have houtside := fun u (hu : u ∈ heapObjects rows) => hplaced.outside hg.arena hu
  have hne : ∀ u ∈ heapObjects rows, u.1 ≠ p := by
    intro u hu
    have hout := houtside u hu
    have hsize := (hg.wellSized hu).header
    omega
  -- the number of an old block is below that of the new one
  have hbelow : ∀ u ∈ heapObjects rows, number u.1 < m.arrays.length := by
    intro u hu
    obtain ⟨words, hwords, _⟩ := h.array hu
    exact (List.getElem?_eq_some_iff.1 hwords).1
  have hbound := hgeo.object_bounded hall.mem
  simp only at hbound
  have hdecode : decodePointer (encodePointer (BitVec.ofNat 64 (p + 16))) = p + 16 :=
    decodePointer_encodePointer (by omega)
  have hcells := h.cells
  refine ⟨h.rooted.placed hall hwrote hplaced, ?_, ?_, ?_⟩
  · have hc : SameControl ((((c.vm.setHeap c.vm.active sp.heap).setStore sp.store).setStore
        s').setReg dst (encodePointer (BitVec.ofNat 64 (p + 16)))) m :=
      h.control.of_control (by simp)
    exact ⟨hc.code, hc.functionTable, hc.fpu, hc.jmpFlag, hc.running, hc.out, hc.sp, hc.ip⟩
  · refine ⟨fun r => ?_, fun r => ?_, fun i => ?_, fun i hi => ?_, ?_, fun hstale => ?_⟩
    · refine update_both (R := fun _ w v => SameKind w v) ?_ fun _ => ?_
      · exact isPointer_encodePointer _
      · simpa using hcells.regs r
    · refine update_both (R := fun _ w v => Numbered rows' _ w v) ?_ fun _ => ?_
      · -- the pointer that is new names the block that is new
        intro _ u hu hu16
        have hup : u.1 = p := by omega
        rw [hup, Function.update_self]
      · have hnumbered := (hcells.regsNumbered r).grow (k := m.arrays.length) (h.rooted.regs r)
          hobjects hne
        simpa using hnumbered
    · show SameKind _ (m.stack i)
      simpa using hcells.slots i
    · have hnumbered := (hcells.slotsNumbered i hi).grow (k := m.arrays.length)
        (h.rooted.slots i hi) hobjects hne
      show Numbered rows' _ _ (m.stack i)
      simpa using hnumbered
    · have hfp : SameKind c.vm.fp m.fp := hcells.fp
      cases hactive : c.vm.active <;> exact hfp
    · have hnumbered := (hcells.fpNumbered hstale).grow (k := m.arrays.length)
        (h.rooted.fp hstale) hobjects hne
      cases hactive : c.vm.active <;> exact hnumbered
  · refine ⟨fun u hu => ?_, fun u hu q hq heq => ?_⟩
    · rw [hobjects, List.mem_append, List.mem_singleton] at hu
      show ∃ words, (m.arrays ++ [List.replicate n 0])[_]? = some words ∧ Holds s' u words
      rcases hu with hu | rfl
      · -- an old block is as it was
        obtain ⟨words, hwords, hholds⟩ := h.array hu
        rw [Function.update_of_ne (hne u hu), List.getElem?_append_left (hbelow u hu)]
        have hsize := hholds.size
        have hout := houtside u hu
        have hword : ∀ k, k + 8 ≤ u.2.size → s'.word (u.1 + k) = c.vm.store.word (u.1 + k) := by
          intro k hk
          rw [hwrote.kept _ (by omega) (by omega)]
          exact hall.old_word hg hu (by omega)
        refine ⟨words, hwords, hsize, fun hlong => ?_, fun i hi => ?_⟩
        · rw [hword 32 (by omega)]
          exact hholds.length hlong
        · rw [hword _ (by omega)]
          exact hholds.elements i hi
      · -- the new one holds zeroes
        rw [Function.update_self, List.getElem?_concat_length]
        have hfits := (hgeo.wellSized hall.mem).fits
        have hC : CHUNK_SIZE = 4194304 := rfl
        simp only at hfits
        refine ⟨_, rfl, by rw [List.length_replicate], fun _ => ?_, fun i hi => ?_⟩
        · rw [hwrote.fields, List.length_replicate]
          exact arrayLength_arrayWord ht (by omega)
        · rw [List.length_replicate] at hi
          have hzero := hwrote.elements i (by omega)
          rw [List.getElem?_replicate, if_pos (by omega), ← hzero]
          show some (s'.word (p + 40 + 8 * i)) = some (s'.word (p + (40 + 8 * i)))
          rw [Nat.add_assoc]
    · rw [hobjects, List.mem_append, List.mem_singleton] at hu hq
      rcases hu with hu | rfl
      · rcases hq with hq | rfl
        · rw [Function.update_of_ne (hne u hu), Function.update_of_ne (hne q hq)] at heq
          exact h.arrays.distinct u hu q hq heq
        · rw [Function.update_of_ne (hne u hu), Function.update_self] at heq
          have := hbelow u hu
          omega
      · rcases hq with hq | rfl
        · rw [Function.update_self, Function.update_of_ne (hne q hq)] at heq
          have := hbelow q hq
          omega
        · rfl

/-- The copies take over the numbers of what they are copies of. -/
theorem Collected.exists_number {vm vm' : VM} (h : Collected vm vm' rows rows')
    (hg : Geometry vm.store rows) (number : Nat → Nat) :
    ∃ number' : Nat → Nat, ∀ p q, (p, q) ∈ (kept vm rows).zip (heapObjects rows') →
      number' q.1 = number p.1 := by
  have hgeo := h.represents.geometry
  let pairs := { c // c ∈ (kept vm rows).zip (heapObjects rows') }
  let address : pairs → Nat := fun c => c.1.2.1
  let value : pairs → Nat := fun c => number c.1.1.1
  -- the address of a copy determines the copy, and the copy the original
  have hfactors : value.FactorsThrough address := by
    intro c d haddress
    have hcopy := hgeo.eq_of_addr (List.of_mem_zip c.2).2 (List.of_mem_zip d.2).2 haddress
    have horiginal := (zip_left_iff_right (hg.objects_nodup.filter _) hgeo.objects_nodup c.2
      d.2).2 hcopy
    exact congrArg (fun p : Nat × Obj => number p.1) horiginal
  refine ⟨Function.extend address value (fun _ => 0), fun p q hpq => ?_⟩
  exact hfactors.extend_apply _ ⟨(p, q), hpq⟩

/-- A pointer root names the copy of what it named. -/
theorem Collected.patched_numbered {vm vm' : VM} (h : Collected vm vm' rows rows')
    {number' : Nat → Nat}
    (hnumber : ∀ p q, (p, q) ∈ (kept vm rows).zip (heapObjects rows') →
      number' q.1 = number p.1)
    {slot : Slot} (hroot : slot ∈ rootSlots vm) (hptr : slot.holdsPointer vm = true) {v : Cell}
    (hv : Numbered rows number (slot.value vm) v) :
    isPointer (slot.value vm') = true ∧ Numbered rows' number' (slot.value vm') v := by
  obtain ⟨p, q, hpq, hdecode, hvalue⟩ := h.patched slot hroot hptr
  have hp := (mem_flagged.1 (List.of_mem_zip hpq).1).1
  have hq := (List.of_mem_zip hpq).2
  have hgeo := h.represents.geometry
  have hbound := hgeo.object_bounded hq
  have hsize := (hgeo.wellSized hq).header
  rw [hvalue]
  refine ⟨isPointer_encodePointer _, fun _ u hu hu16 => ?_⟩
  rw [decodePointer_encodePointer (by omega)] at hu16
  have huq : q = u := hgeo.eq_of_addr hq hu (by omega)
  rw [← huq, hnumber p q hpq]
  exact hv hptr p hp hdecode

/-- The copy of a block holds the words of the block. -/
theorem CopyOf.holds {s s' : Store} {p q : Nat × Obj} {words : List Word} (h : CopyOf s s' p q)
    (hp : Holds s p words) : Holds s' q words where
  size := by
    rw [h.obj]
    exact hp.size
  length hlong := by
    have hsize := hp.size
    have hword := h.payload 2 (by omega)
    rw [← hp.length hlong]
    exact congrArg arrayLength hword
  elements i hi := by
    have hsize := hp.size
    have hword := h.payload (3 + i) (by omega)
    rw [hp.elements i hi, show q.1 + (40 + 8 * i) = q.1 + 16 + 8 * (3 + i) from by omega, hword,
      show p.1 + 16 + 8 * (3 + i) = p.1 + (40 + 8 * i) from by omega]

/-- **A collection is invisible**: the object machine stays where it is. -/
theorem Mirrors.collected (h : Mirrors c rows number m) {vm' : VM}
    (hc : Collected c.vm vm' rows rows') :
    ∃ number', Mirrors (c.collected vm') rows' number' m := by
  have hg := h.rooted.represents.geometry
  obtain ⟨number', hnumber⟩ := hc.exists_number hg number
  have hpatched : ∀ slot ∈ rootSlots c.vm, slot.holdsPointer c.vm = true → ∀ {v : Cell},
      Numbered rows number (slot.value c.vm) v →
        isPointer (slot.value vm') = true ∧ Numbered rows' number' (slot.value vm') v :=
    fun _ hroot hptr _ hv => hc.patched_numbered hnumber hroot hptr hv
  have hcells := h.cells
  have hfp : vm'.fp = c.vm.fp := congrArg Control.fp hc.control
  refine ⟨number', h.rooted.collected hc, h.control.of_control hc.control, ?_, ?_⟩
  · refine ⟨fun r => ?_, fun r => ?_, fun i => ?_, fun i hi => ?_, ?_, fun hstale => ?_⟩
    · show SameKind (vm'.reg r) (m.reg r)
      cases hptr : isPointer (c.vm.reg r) with
      | true =>
          obtain ⟨k, hk⟩ := (hcells.regs r).eq_array hptr
          rw [hk]
          exact (hpatched _ (mem_rootSlots_reg r) hptr (hcells.regsNumbered r)).1
      | false =>
          rw [hc.regs r hptr]
          exact hcells.regs r
    · show Numbered rows' number' (vm'.reg r) (m.reg r)
      cases hptr : isPointer (c.vm.reg r) with
      | true => exact (hpatched _ (mem_rootSlots_reg r) hptr (hcells.regsNumbered r)).2
      | false =>
          refine Numbered.plain ?_
          rw [hc.regs r hptr]
          exact hptr
    · show SameKind (vm'.stack i) (m.stack i)
      by_cases hroot : i < c.vm.sp.toNat ∧ isPointer (c.vm.stack i) = true
      · obtain ⟨k, hk⟩ := (hcells.slots i).eq_array hroot.2
        rw [hk]
        exact (hpatched _ (mem_rootSlots_stack.2 hroot.1) hroot.2
          (hcells.slotsNumbered i (h.rooted.seen i hroot.1))).1
      · rw [hc.stack i hroot]
        exact hcells.slots i
    · show Numbered rows' number' (vm'.stack i) (m.stack i)
      by_cases hroot : i < c.vm.sp.toNat ∧ isPointer (c.vm.stack i) = true
      · exact (hpatched _ (mem_rootSlots_stack.2 hroot.1) hroot.2
          (hcells.slotsNumbered i (h.rooted.seen i hroot.1))).2
      · -- a pointer above `sp` is stale from now on
        refine Numbered.plain ?_
        rw [hc.stack i hroot, Bool.eq_false_iff]
        intro hptr
        by_cases hlt : i < c.vm.sp.toNat
        · exact hroot ⟨hlt, hptr⟩
        · exact hi ⟨by omega, hptr⟩
    · show SameKind vm'.fp m.fp
      rw [hfp]
      exact hcells.fp
    · refine Numbered.plain ?_
      show isPointer vm'.fp = false
      rw [hfp, Bool.eq_false_iff]
      exact hstale
  · refine ⟨fun q hq => ?_, fun q hq q' hq' heq => ?_⟩
    · obtain ⟨p, hpq⟩ := exists_mem_zip_right hc.copies hq
      have hp := (mem_flagged.1 (List.of_mem_zip hpq).1).1
      obtain ⟨words, hwords, hholds⟩ := h.array hp
      rw [hnumber p q hpq]
      exact ⟨words, hwords, (List.forall₂_zip hc.copies hpq).holds hholds⟩
    · -- two copies with one number are copies of one block
      obtain ⟨p, hpq⟩ := exists_mem_zip_right hc.copies hq
      obtain ⟨p', hpq'⟩ := exists_mem_zip_right hc.copies hq'
      rw [hnumber p q hpq, hnumber p' q' hpq'] at heq
      have hp := (mem_flagged.1 (List.of_mem_zip hpq).1).1
      have hp' := (mem_flagged.1 (List.of_mem_zip hpq').1).1
      have horiginal := h.arrays.distinct p hp p' hp' heq
      exact (zip_left_iff_right (hg.objects_nodup.filter _)
        hc.represents.geometry.objects_nodup hpq hpq').1 horiginal

/-- The allocation of an `arr` fails, or starts from a machine that mirrors
the same state. -/
theorem Mirrors.allocating (h : Mirrors c rows number m) (d : DecodedInstr)
    (hquiet : c.vm.collects → ScanQuiet c.vm) (size : Nat) :
    (∃ vm1, gcCollectedHeapAlloc size OBJ_ARRAY c.vm = .error .badAlloc vm1) ∨
    ∃ rows1 number1, Mirrors (c.allocating d) rows1 number1 m ∧
      gcCollectedHeapAlloc size OBJ_ARRAY c.vm
        = onHeap (allocationState c.vm).active (heapAlloc size OBJ_ARRAY) (allocationState c.vm) := by
  have hroot := h.rooted
  by_cases hover : c.vm.collects
  · rcases collect_spec hroot.represents hroot.inactive (hroot.scannable (hquiet hover)) with
      ⟨vm1, hfail⟩ | ⟨vm1, rows1, hrun, hc⟩
    · exact Or.inl ⟨vm1, gcCollectedHeapAlloc_refused hover hfail⟩
    · right
      have hstate := allocationState_of_collects hover hrun
      have htrace : c.allocating d = c.collected vm1 := by
        unfold RootTrace.allocating RootTrace.collected
        simp only [hstate, staleAfter, staleFpAfter, if_pos hover]
      obtain ⟨number1, h1⟩ := h.collected hc
      rw [htrace, hstate]
      exact ⟨rows1, number1, h1, gcCollectedHeapAlloc_of_over hover hrun⟩
  · right
    have hstate : allocationState c.vm = c.vm := if_neg hover
    have htrace : c.allocating d = c := by
      unfold RootTrace.allocating
      simp only [hstate, staleAfter, staleFpAfter, if_neg hover]
    rw [htrace, hstate]
    exact ⟨rows, number, h, gcCollectedHeapAlloc_of_not_over (Bool.eq_false_iff.2 hover)⟩

/-- **An `arr` that fits** runs out of memory or makes the next array. -/
theorem Mirrors.arr (h : Mirrors c rows number m) {d : DecodedInstr} {n : Nat}
    (hlen : decodeInt (c.vm.reg d.rb) = (n : Int)) (hfits : Fits c.vm d.rb)
    (hquiet : c.vm.collects → ScanQuiet c.vm) :
    (∃ vm1, initArray d.ra d.rb d.rc c.vm = .error .badAlloc vm1) ∨
    ∃ vm', initArray d.ra d.rb d.rc c.vm = .ok () vm' ∧
      Mirrored ⟨vm', fun i => staleAfter c d i .opArrInit, staleFpAfter c .opArrInit⟩
        (m.allocated d.ra n) := by
  obtain ⟨n', hlen', hfit⟩ := hfits
  have hn : n = n' := by
    have heq := hlen.symm.trans hlen'
    omega
  subst hn
  rcases h.allocating d hquiet (8 * n + 8) with ⟨vm1, hfail⟩ | ⟨rows1, number1, h1, halloc⟩
  · exact Or.inl ⟨vm1, initArray_refused d.ra d.rc hlen hfail⟩
  · rcases initArray_placed d.ra d.rc hlen halloc h1.rooted.represents hfit with
      hfail | ⟨sp, s', rows', p, t, hinit, ht, hall, hwrote, hplaced⟩
    · exact Or.inl hfail
    · exact Or.inr ⟨_, hinit, rows', _, h1.placed ht hall hwrote hplaced⟩

end Arrays

end SproutLang
