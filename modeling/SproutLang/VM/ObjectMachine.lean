/-
  SproutLang.VM.ObjectMachine
  ───────────────────────────
  **A MACHINE WITHOUT ADDRESSES.**

  What the instructions mean to a program that cannot see its memory: a
  register or a stack slot holds a word or the number of an array, arrays are
  lists of words that are made and never moved or freed, and there is no heap
  to run full.  `VM.ObjectRefinement` shows that the virtual machine, with its
  chunks, its two halves and its collections, is an implementation of this
  machine.

  A step that the source leaves undefined for a reason of its own (a fetch
  behind the image, a slot outside the stack, a division by zero) faults here
  too; so does one that takes an array's address for a number.
-/
import SproutLang.VM.Effects
import SproutLang.VM.TypedMachine

namespace SproutLang

open Library

/-! ## §1. Cells. -/

/-- The content of a register or of a stack slot. -/
inductive Cell where
  | word (w : Word)
  | array (k : Nat)
  deriving DecidableEq, Repr

/-- What `end` prints of it. -/
def Cell.printed : Cell → List Output
  | .word w => SproutLang.printed w
  | .array _ => []

/-- The integer of a cell that is used as one. -/
def Cell.number : Cell → Option Int
  | .word w => some (decodeInt w)
  | .array _ => none

/-! ## §2. The machine. -/

/-- **The object machine**: arrays are a list, and a cell is a word or the
number of an array. -/
structure ObjectVM where
  code : Image
  functionTable : Nat → FunctionInfo
  fpu : Fpu
  ip : Cell
  sp : Word
  fp : Cell
  reg : Byte → Cell
  stack : Nat → Cell
  arrays : List (List Word)
  jmpFlag : Int
  running : Bool
  out : List Output

namespace ObjectVM

/-- An assignment to a register. -/
def setReg (m : ObjectVM) (r : Byte) (v : Cell) : ObjectVM :=
  { m with reg := Function.update m.reg r v }

/-- An assignment to a stack slot. -/
def setSlot (m : ObjectVM) (i : Nat) (v : Cell) : ObjectVM :=
  { m with stack := Function.update m.stack i v }

@[simp] theorem setReg_self (m : ObjectVM) (r : Byte) (v : Cell) : (m.setReg r v).reg r = v :=
  Function.update_self ..

theorem setReg_of_ne {m : ObjectVM} {r r' : Byte} {v : Cell} (h : r' ≠ r) :
    (m.setReg r v).reg r' = m.reg r' := Function.update_of_ne h ..

@[simp] theorem setSlot_self (m : ObjectVM) (i : Nat) (v : Cell) : (m.setSlot i v).stack i = v :=
  Function.update_self ..

theorem setSlot_of_ne {m : ObjectVM} {i j : Nat} {v : Cell} (h : j ≠ i) :
    (m.setSlot i v).stack j = m.stack j := Function.update_of_ne h ..

/-- The word of the image at an address. -/
def wordAt (m : ObjectVM) (address : Word) : Except Fault (BitVec 32) :=
  match readU32 m.code.bytes address.toNat with
  | some w => .ok w
  | none => .error .undefinedBehaviour

/-- `guarded c m` is `m` where `c` holds. -/
def guarded (c : Prop) [Decidable c] (m : ObjectVM) : Except Fault ObjectVM :=
  if c then .ok m else .error .undefinedBehaviour

/-! ## §3. Instructions. -/

/-- The word an arithmetic instruction delivers. -/
def arithWord (fpu : Fpu) (op : Arith) (a b : Word) : Except Fault Word :=
  if isDouble a && isDouble b then .ok (fpu.arith op a b)
  else if isInt a && isInt b then
    if op = .div ∧ decodeInt b = 0 then .error .undefinedBehaviour
    else .ok (encodeInt (BitVec.ofInt 64 (op.exact (decodeInt a) (decodeInt b))))
  else .error (.runtimeError "Invalid Operand types!")

/-- An array is neither a double nor an integer. -/
def arithmetic (m : ObjectVM) (op : Arith) (d : DecodedInstr) : Except Fault ObjectVM :=
  match m.reg d.rb, m.reg d.rc with
  | .word a, .word b => do
      let w ← arithWord m.fpu op a b
      return m.setReg d.ra (.word w)
  | _, _ => .error (.runtimeError "Invalid Operand types!")

/-- The flag of two words of one kind. -/
def compare (m : ObjectVM) (d : DecodedInstr) : Except Fault ObjectVM :=
  match m.reg d.ra, m.reg d.rb with
  | .word a, .word b =>
      match compareFlag m.fpu a b with
      | some flag => .ok { m with jmpFlag := flag }
      | none => .error (.runtimeError "Invalid Operand types")
  | _, _ => .error (.runtimeError "Invalid Operand types")

/-- The target word is at `next`. -/
def branch (m : ObjectVM) (next : Word) (taken : Int → Bool) : Except Fault ObjectVM :=
  if taken m.jmpFlag then do
    let target ← m.wordAt next
    return { m with ip := .word (target.setWidth 64) }
  else return { m with ip := .word (next + 4) }

/-- One more cell on the stack. -/
def pushed (m : ObjectVM) (v : Cell) : ObjectVM := { m.setSlot m.sp.toNat v with sp := m.sp + 1 }

/-- Inside the function `f`. -/
def called (m : ObjectVM) (f : FunctionInfo) : ObjectVM :=
  { (m.pushed m.fp).pushed m.ip with
    fp := .word (m.sp + 2)
    sp := m.sp + 2 + f.frameSize.setWidth 64
    ip := .word (f.entryIP.setWidth 64) }

/-- Back from a function whose frame starts at `fp`. -/
def returned (m : ObjectVM) (fp : Word) : ObjectVM :=
  { m with
    ip := m.stack (fp.toNat - 1)
    fp := m.stack (fp.toNat - 2)
    sp := fp - 2 }

/-- A new array of zeroes; its number is the next free one. -/
def allocated (m : ObjectVM) (dst : Byte) (length : Nat) : ObjectVM :=
  { m with arrays := m.arrays ++ [List.replicate length 0] }.setReg dst (.array m.arrays.length)

/-- The array and the position an access is about. -/
def element (m : ObjectVM) (d : DecodedInstr) : Option (Nat × Nat) :=
  match m.reg d.rb, (m.reg d.rc).number with
  | .array k, some (.ofNat i) => some (k, i)
  | _, _ => none

/-- The word at a position of an array. -/
def lookup (m : ObjectVM) (k i : Nat) : Option Word :=
  match m.arrays[k]? with
  | some words => words[i]?
  | none => none

/-- A word into element `i` of array `k`. -/
def insert (m : ObjectVM) (k i : Nat) (w : Word) : ObjectVM :=
  { m with arrays := m.arrays.modify k (fun words => words.set i w) }

/-- One instruction, its word already fetched; `next` is the address behind
it. -/
def execute (m : ObjectVM) (next : Word) (d : DecodedInstr) : Opcode → Except Fault ObjectVM
  | .opAdd => m.arithmetic .add d
  | .opSub => m.arithmetic .sub d
  | .opMul => m.arithmetic .mul d
  | .opDiv => m.arithmetic .div d
  | .opLoad64 => do
      let hi ← m.wordAt next
      let lo ← m.wordAt (next + 4)
      return { m with ip := .word (next + 4 + 4) }.setReg d.ra
        (.word ((hi.setWidth 64 <<< 32) ||| lo.setWidth 64))
  | .opCmp => m.compare d
  | .opJe => m.branch next (fun flag => flag = 1)
  | .opJne => m.branch next (fun flag => flag ≠ 1)
  | .opJl => m.branch next (fun flag => flag = -1)
  | .opJg => m.branch next (fun flag => flag = 2)
  | .opCall =>
      guarded (callIndex d.ra d.rb d.rc < FUNCTION_TABLE_SIZE ∧ m.sp.toNat + 2 ≤ STACK_SIZE)
        (m.called (m.functionTable (callIndex d.ra d.rb d.rc)))
  | .opRet =>
      match m.fp with
      | .word fp => guarded (2 ≤ fp.toNat ∧ fp.toNat ≤ STACK_SIZE) (m.returned fp)
      -- an array's address is far behind the stack
      | .array _ => .error .undefinedBehaviour
  | .opPush => guarded (m.sp.toNat < STACK_SIZE) (m.pushed (m.reg d.ra))
  | .opPop =>
      guarded (1 ≤ m.sp.toNat ∧ m.sp.toNat ≤ STACK_SIZE)
        ({ m with sp := m.sp - 1 }.setReg d.ra (m.stack (m.sp.toNat - 1)))
  | .opMov => guarded (d.rc = 0) (m.setReg d.ra (m.reg d.rb))
  | .opInsertIntoStack =>
      guarded (stackPoint d.ra d.rb < STACK_SIZE) (m.setSlot (stackPoint d.ra d.rb) (m.reg d.rc))
  | .opReadFromStack =>
      guarded (stackPoint d.ra d.rb < STACK_SIZE) (m.setReg d.rc (m.stack (stackPoint d.ra d.rb)))
  | .opArrInit =>
      match (m.reg d.rb).number with
      | some (.ofNat n) => .ok (m.allocated d.ra n)
      | _ => .error .undefinedBehaviour
  | .opArrInsert =>
      match m.element d, m.reg d.ra with
      | some (k, i), .word w => .ok (m.insert k i w)
      | _, _ => .error .undefinedBehaviour
  | .opArrRead =>
      match m.element d with
      | some (k, i) =>
          match m.lookup k i with
          | some w => .ok (m.setReg d.ra (.word w))
          | none => .error .undefinedBehaviour
      | none => .error .undefinedBehaviour
  | .opEnd => .ok { m with running := false, out := m.out ++ (m.reg d.ra).printed }
  | .opDebugReturn => .ok { m with out := m.out ++ (m.reg d.ra).printed }

/-- The machine behind the instruction word it has fetched. -/
def fetched (m : ObjectVM) (next : Word) : ObjectVM := { m with ip := .word next }

/-- One step. -/
def step (m : ObjectVM) : Except Fault ObjectVM :=
  match m.ip with
  | .word ip => do
      let i ← m.wordAt ip
      match Opcode.ofByte (decode i).opcode with
      | some opcode => (m.fetched (ip + 4)).execute (ip + 4) (decode i) opcode
      | none =>
          .error (.runtimeError s!"Invalid opcode: 0x{hex02 (decode i).opcode.toNat}")
  -- no image reaches to where arrays are
  | .array _ => .error .undefinedBehaviour

/-- A step that executes a given instruction. -/
structure Step (m : ObjectVM) (i : Opcode × DecodedInstr) (m' : ObjectVM) : Prop where
  running : m.running = true
  word : ∃ ip w, m.ip = .word ip ∧ m.wordAt ip = .ok w ∧ decode w = i.2
  opcode : Opcode.ofByte i.2.opcode = some i.1
  run : m.step = .ok m'

/-- The machine `init` makes of a file whose header and function table are
those of `vm`. -/
def start (vm : VM) : ObjectVM where
  code := vm.bytecode
  functionTable := vm.functionTable
  fpu := vm.fpu
  ip := .word vm.ip
  sp := 0
  fp := .word 0
  reg _ := .word 0
  stack _ := .word 0
  arrays := []
  jmpFlag := vm.jmpFlag
  running := true
  out := []

end ObjectVM

end SproutLang
