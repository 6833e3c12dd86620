/-
  SproutLang.VM.State
  ───────────────────
  **THE STATE OF THE VIRTUAL MACHINE** (`src/vm/vm.h`, `src/vm/Heap.h`).

  `VM` is the C++ struct together with what surrounds it: the memory that
  `malloc` manages, the floating-point unit and standard output.  A function
  of the VM is an `Exec`; one that works on memory alone, or on memory and
  one of the two heaps, is written on that part and lifted (`onStore`,
  `onHeap`), so that what it cannot touch is visible in its type.
-/
import SproutLang.Shared.Format
import SproutLang.Library.Memory

namespace SproutLang

open Library

/-! ## §1. The heap's data types (`Heap.h`). -/

/-- Capacity of a chunk. -/
def CHUNK_SIZE : Nat := 4 * 1024 * 1024

/-- Alignment of a block. -/
def ALIGN : Nat := 8

/-- `(n + (ALIGN - 1)) & ~(ALIGN - 1)` in `size_t`. -/
def align (n : Nat) : Nat :=
  (BitVec.ofNat 64 (n + (ALIGN - 1)) &&& ~~~(BitVec.ofNat 64 (ALIGN - 1))).toNat

/-- `sizeof(objHeader)`. -/
def SIZEOF_OBJ_HEADER : Nat := 16

/-- `sizeof(arrayObj)`. -/
def SIZEOF_ARRAY_OBJ : Nat := 24

/-- `enum objType`. -/
def OBJ_STRING : Nat := 0

/-- Type of an array. -/
def OBJ_ARRAY : Nat := 1

/-- `enum flags`. -/
def FLAG_UNMARKED : Nat := 0

/-- Flag of an object the mark phase has found. -/
def FLAG_MARKED : Nat := 1

/-- A chunk: where it is, and how much of it is used. -/
structure Chunk where
  mem : Nat
  used : Nat
  capacity : Nat
  deriving DecidableEq, Repr

/-- A half: its chunks and counters. -/
structure Heap where
  chunks : List Chunk
  totalAllocated : Nat
  max : Nat
  deriving DecidableEq, Repr

/-- A heap with no chunk: the state after `freeHeap` and before any
allocation. -/
def Heap.Empty (h : Heap) : Prop := h.chunks = [] ∧ h.totalAllocated = 0

/-- The heap a collection copies from, or the one it copies to. -/
inductive Half where
  | A | B
  deriving DecidableEq, Repr

/-- The other half. -/
def Half.other : Half → Half
  | .A => .B
  | .B => .A

/-- A half is the active one or the other. -/
theorem Half.eq_or_other (half active : Half) : half = active ∨ half = active.other := by
  cases half <;> cases active <;> simp [Half.other]

/-! ## §2. The floating-point unit. -/

/-- The four arithmetic operators on doubles. -/
inductive Arith where
  | add | sub | mul | div
  deriving DecidableEq, Repr

/-- What IEEE 754 arithmetic delivers: a finite number, an infinity or a
quiet NaN. -/
def IsIeeeResult (w : Word) : Prop :=
  w.toNat / 2 ^ 52 % 2 ^ 11 ≠ 2047 ∨ w.toNat % 2 ^ 52 = 0 ∨ w.toNat / 2 ^ 51 % 2 = 1

instance (w : Word) : Decidable (IsIeeeResult w) := inferInstanceAs (Decidable (_ ∨ _))

/-- Double arithmetic and comparison on the 64-bit representations. -/
structure Fpu where
  arith : Arith → Word → Word → Word
  eq : Word → Word → Bool
  lt : Word → Word → Bool
  ieee : ∀ op a b, IsIeeeResult (arith op a b)

/-- The unit on which every result is the quiet NaN, as the real one gives
for NaN operands. -/
def Fpu.quiet : Fpu where
  arith _ _ _ := 0x7FF8000000000000
  eq _ _ := false
  lt _ _ := false
  ieee _ _ _ := by decide

/-- A double result is never taken for a pointer. -/
theorem IsIeeeResult.isPointer_eq_false {w : Word} (h : IsIeeeResult w) :
    isPointer w = false := by
  rw [Bool.eq_false_iff, ne_eq, isPointer_iff]
  unfold IsIeeeResult at h
  omega

/-! ## §3. The machine (`vm.h`). -/

/-- Entries of the function table. -/
def FUNCTION_TABLE_SIZE : Nat := 2048

/-- Slots of the stack. -/
def STACK_SIZE : Nat := 4096

/-- An entry of the function table. -/
structure FunctionInfo where
  entryIP : BitVec 32
  frameSize : BitVec 16
  deriving DecidableEq, Repr

/-- Bytes of such an entry in the file. -/
def SIZEOF_FUNCTION_INFO : Nat := 8

/-- A bytecode file in memory; like everything a pointer word can name, it
ends below `2^48`. -/
structure Image where
  bytes : List Byte
  addressable : bytes.length < 2 ^ 48

/-- One line written to standard output. -/
inductive Output where
  | int (n : Int)
  | double (bits : Word)
  | char6 (c : Char6)
  deriving DecidableEq, Repr

/-- **The virtual machine.**  `reg` is indexed by the register byte of an
instruction; of `stack` the slots below `STACK_SIZE` exist, of
`functionTable` the entries below `FUNCTION_TABLE_SIZE`. -/
structure VM where
  header : BCHeader
  reg : Byte → Word
  bytecode : Image
  ip : Word
  stack : Nat → Word
  sp : Word
  fp : Word
  heapA : Heap
  heapB : Heap
  jmpFlag : Int
  running : Bool
  heapAUsed : Bool
  functionTable : Nat → FunctionInfo
  store : Store
  fpu : Fpu
  out : List Output

/-- The part of the machine that no heap function touches. -/
structure Control where
  header : BCHeader
  bytecode : Image
  ip : Word
  sp : Word
  fp : Word
  jmpFlag : Int
  running : Bool
  functionTable : Nat → FunctionInfo
  fpu : Fpu
  out : List Output

/-- The control part of a machine. -/
def VM.control (vm : VM) : Control where
  header := vm.header
  bytecode := vm.bytecode
  ip := vm.ip
  sp := vm.sp
  fp := vm.fp
  jmpFlag := vm.jmpFlag
  running := vm.running
  functionTable := vm.functionTable
  fpu := vm.fpu
  out := vm.out

/-- A computation of the virtual machine. -/
abbrev Exec := EStateM Fault VM

namespace VM

/-- A half of the machine. -/
def heap (vm : VM) : Half → Heap
  | .A => vm.heapA
  | .B => vm.heapB

/-- The half objects are allocated in. -/
def active (vm : VM) : Half := if vm.heapAUsed then .A else .B

/-- A word into a register. -/
def setReg (vm : VM) (r : Byte) (w : Word) : VM :=
  { vm with reg := Function.update vm.reg r w }

/-- A word into a stack slot. -/
def setSlot (vm : VM) (i : Nat) (w : Word) : VM :=
  { vm with stack := Function.update vm.stack i w }

/-- Another store. -/
def setStore (vm : VM) (s : Store) : VM := { vm with store := s }

/-- Another heap in place of a half. -/
def setHeap (vm : VM) : Half → Heap → VM
  | .A, h => { vm with heapA := h }
  | .B, h => { vm with heapB := h }

@[simp] theorem setReg_self (vm : VM) (r : Byte) (w : Word) : (vm.setReg r w).reg r = w :=
  Function.update_self ..

theorem setReg_of_ne {vm : VM} {r r' : Byte} {w : Word} (h : r' ≠ r) :
    (vm.setReg r w).reg r' = vm.reg r' := Function.update_of_ne h ..

@[simp] theorem setSlot_self (vm : VM) (i : Nat) (w : Word) : (vm.setSlot i w).stack i = w :=
  Function.update_self ..

theorem setSlot_of_ne {vm : VM} {i j : Nat} {w : Word} (h : j ≠ i) :
    (vm.setSlot i w).stack j = vm.stack j := Function.update_of_ne h ..

end VM

/-! ## §4. Parts of the machine. -/

/-- Memory and one heap: what `heapAlloc(Heap&, …)` works on. -/
structure Space where
  store : Store
  heap : Heap

/-- Lift a computation on memory to one on memory and a heap. -/
def inStore {α : Type} (x : EStateM Fault Store α) : EStateM Fault Space α :=
  zoom Space.store (fun s sp => { sp with store := s }) x

/-- Lift a computation on memory to one of the machine. -/
def onStore {α : Type} (x : EStateM Fault Store α) : Exec α :=
  zoom VM.store (fun s vm => vm.setStore s) x

/-- Lift a computation on memory and a heap to one of the machine. -/
def onHeap {α : Type} (half : Half) (x : EStateM Fault Space α) : Exec α :=
  zoom (fun vm => ⟨vm.store, vm.heap half⟩)
    (fun sp vm => (vm.setHeap half sp.heap).setStore sp.store) x

/-! ## §5. Fetching (`vm.h`). -/

/-- `(p[0] << 24) | (p[1] << 16) | (p[2] << 8) | p[3]`; `none` when one of
the four bytes lies outside the vector. -/
def readU32 (bytes : List Byte) (i : Nat) : Option (BitVec 32) :=
  match bytes[i]?, bytes[i + 1]?, bytes[i + 2]?, bytes[i + 3]? with
  | some p0, some p1, some p2, some p3 =>
      some ((p0.setWidth 32 <<< 24) ||| (p1.setWidth 32 <<< 16)
        ||| (p2.setWidth 32 <<< 8) ||| p3.setWidth 32)
  | _, _, _, _ => none

/-- The next word of the image; nothing checks that there is one. -/
def fetch : Exec (BitVec 32) := fun vm =>
  match readU32 vm.bytecode.bytes vm.ip.toNat with
  | some a => .ok a { vm with ip := vm.ip + 4 }
  | none => .error .undefinedBehaviour vm

/-- Only the first of the four bytes is compared with the vector's size. -/
def fetchAtAddr (addr : BitVec 32) : Exec (BitVec 32) := fun vm =>
  if vm.bytecode.bytes.length ≤ addr.toNat then
    .error (.runtimeError "Instruction pointer out of bounds") vm
  else
    match readU32 vm.bytecode.bytes addr.toNat with
    | some a => .ok a vm
    | none => .error .undefinedBehaviour vm

/-- Two words of the image: entry point and frame size, of which 16 bits are
kept. -/
def fetchFuncMetadata (addr : BitVec 32) : Exec FunctionInfo := do
  let entryIP ← fetchAtAddr addr
  let frameSize ← fetchAtAddr (addr + 4)
  return { entryIP, frameSize := frameSize.setWidth 16 }

/-- Two fetches, the high word first. -/
def fetch64 : Exec Word := do
  let hi ← fetch
  let lo ← fetch
  return (hi.setWidth 64 <<< 32) ||| lo.setWidth 64

end SproutLang
