/-
  SproutLang.VM.TypedMachine
  ──────────────────────────
  **A MACHINE OVER TYPED VALUES.**

  What the instructions that neither call nor use the heap mean, with the
  boxing taken away: registers and stack hold a `Value`, integers are numbers
  of 48 bits, and the branches look at the relation the last comparison
  found.  A step stops where the operands have the wrong types.
-/
import SproutLang.VM.Execution

namespace SproutLang

open Library

/-! ## §1. Values. -/

/-- An integer of 48 bits. -/
structure Int48 where
  val : Int
  low : -2 ^ 47 ≤ val
  high : val < 2 ^ 47
  deriving DecidableEq

/-- Reduction to signed 48 bits. -/
def Int48.reduce (n : Int) : Int48 where
  val := Int.bmod n (2 ^ 48)
  low := by
    have h := @Int.le_bmod n (2 ^ 48) (by decide)
    omega
  high := by
    have h := @Int.bmod_lt n (2 ^ 48) (by decide)
    omega

/-- The integer of a word that holds one. -/
def Int48.ofWord (w : Word) : Int48 := ⟨decodeInt w, (decodeInt_range w).1, (decodeInt_range w).2⟩

/-- The values of the machine. -/
inductive Value where
  | int (n : Int48)
  | bool (b : Bool)
  | char6 (c : Char6)
  | null
  | pointer (address : Nat)
  | double (bits : Word)
  | other (bits : Word)
  deriving DecidableEq

/-- The source encodes nulls but has no predicate for them; this is the one
the others suggest. -/
def isNull (v : Word) : Bool := !isDouble v && getTag v == TAG_NULL

/-- The value a word stands for. -/
def Value.ofWord (w : Word) : Value :=
  if isInt w then .int (Int48.ofWord w)
  else if isBool w then .bool (decodeBool w)
  else if isChar6 w then .char6 (decodeChar6 w)
  else if isPointer w then .pointer (decodePointer w)
  else if isDouble w then .double w
  else if isNull w then .null
  else .other w

/-! ## §2. Operations. -/

/-- Why a step has no successor. -/
inductive Stop where
  | mismatch
  | unknownOpcode
  /-- An instruction, or a use of one, that this machine leaves out. -/
  | outside
  deriving DecidableEq, Repr

/-- The exact result on integers; a quotient is truncated. -/
def Arith.exact : Arith → Int → Int → Int
  | .add, m, n => m + n
  | .sub, m, n => m - n
  | .mul, m, n => m * n
  | .div, m, n => Int.tdiv m n

/-- Arithmetic on two integers; that on two doubles and a division by zero
are left out. -/
def Value.arith (op : Arith) : Value → Value → Except Stop Value
  | .int m, .int n =>
      if op = .div ∧ n.val = 0 then .error .outside
      else .ok (.int (Int48.reduce (op.exact m.val n.val)))
  | .double _, .double _ => .error .outside
  | _, _ => .error .mismatch

/-- What a comparison finds; two booleans are equal or not. -/
inductive Relation where
  | less | equal | greater | unequal
  deriving DecidableEq, Repr

/-- The relation of two integers or two booleans; that of two doubles is left
out. -/
def Value.compare : Value → Value → Except Stop Relation
  | .int m, .int n =>
      if m.val = n.val then .ok .equal
      else if m.val < n.val then .ok .less
      else .ok .greater
  | .bool a, .bool b => if a = b then .ok .equal else .ok .unequal
  | .double _, .double _ => .error .outside
  | _, _ => .error .mismatch

/-- What is printed of a value. -/
def Value.printed : Value → List Output
  | .int n => [.int n.val]
  | .double bits => [.double bits]
  | .char6 c => [.char6 c]
  | _ => []

/-- Whether a branch is taken, `last` being what the last comparison found:
`je`, `jl` and `jg` on equal, less and greater, `jne` on everything but equal.
Before any comparison `jne` and `jg` are taken. -/
def taken (last : Option Relation) : Opcode → Bool
  | .opJe => last = some .equal
  | .opJne => last ≠ some .equal
  | .opJl => last = some .less
  | .opJg => last = some .greater ∨ last = none
  | _ => false

/-! ## §3. The machine. -/

/-- **The typed machine**: registers and stack hold values. -/
structure TypedVM where
  code : Image
  ip : Word
  sp : Word
  reg : Byte → Value
  stack : Nat → Value
  last : Option Relation
  running : Bool
  out : List Output

namespace TypedVM

/-- An assignment to a register. -/
def setReg (m : TypedVM) (r : Byte) (v : Value) : TypedVM :=
  { m with reg := Function.update m.reg r v }

/-- An assignment to a stack slot. -/
def setSlot (m : TypedVM) (i : Nat) (v : Value) : TypedVM :=
  { m with stack := Function.update m.stack i v }

/-- The word of the image at an address. -/
def wordAt (m : TypedVM) (address : Word) : Except Stop (BitVec 32) :=
  match readU32 m.code.bytes address.toNat with
  | some w => .ok w
  | none => .error .outside

/-- `guarded c m` is `m` where `c` holds. -/
def guarded (c : Prop) [Decidable c] (m : TypedVM) : Except Stop TypedVM :=
  if c then .ok m else .error .outside

/-- A register instruction with two operands. -/
def arithmetic (m : TypedVM) (op : Arith) (d : DecodedInstr) : Except Stop TypedVM := do
  let v ← (m.reg d.rb).arith op (m.reg d.rc)
  return m.setReg d.ra v

/-- A jump by the word behind the branch, or past that word. -/
def branch (m : TypedVM) (opcode : Opcode) : Except Stop TypedVM :=
  if taken m.last opcode then do
    let target ← m.wordAt m.ip
    return { m with ip := target.setWidth 64 }
  else return { m with ip := m.ip + 4 }

/-- One instruction, its word already fetched. -/
def execute (m : TypedVM) (d : DecodedInstr) : Opcode → Except Stop TypedVM
  | .opAdd => m.arithmetic .add d
  | .opSub => m.arithmetic .sub d
  | .opMul => m.arithmetic .mul d
  | .opDiv => m.arithmetic .div d
  | .opLoad64 => do
      let hi ← m.wordAt m.ip
      let lo ← m.wordAt (m.ip + 4)
      return { m with ip := m.ip + 4 + 4 }.setReg d.ra
        (Value.ofWord ((hi.setWidth 64 <<< 32) ||| lo.setWidth 64))
  | .opCmp => do
      let relation ← (m.reg d.ra).compare (m.reg d.rb)
      return { m with last := some relation }
  | .opJe => m.branch .opJe
  | .opJne => m.branch .opJne
  | .opJl => m.branch .opJl
  | .opJg => m.branch .opJg
  | .opPush =>
      guarded (m.sp.toNat < STACK_SIZE)
        { m.setSlot m.sp.toNat (m.reg d.ra) with sp := m.sp + 1 }
  | .opPop =>
      guarded ((m.sp - 1).toNat < STACK_SIZE)
        ({ m with sp := m.sp - 1 }.setReg d.ra (m.stack (m.sp - 1).toNat))
  | .opMov => guarded (d.rc = 0) (m.setReg d.ra (m.reg d.rb))
  | .opInsertIntoStack =>
      guarded (stackPoint d.ra d.rb < STACK_SIZE) (m.setSlot (stackPoint d.ra d.rb) (m.reg d.rc))
  | .opReadFromStack =>
      guarded (stackPoint d.ra d.rb < STACK_SIZE) (m.setReg d.rc (m.stack (stackPoint d.ra d.rb)))
  | .opEnd => return { m with running := false, out := m.out ++ (m.reg d.ra).printed }
  | .opDebugReturn => return { m with out := m.out ++ (m.reg d.ra).printed }
  | .opCall | .opRet | .opArrInit | .opArrInsert | .opArrRead => .error .outside

/-- One step. -/
def step (m : TypedVM) : Except Stop TypedVM := do
  let i ← m.wordAt m.ip
  match Opcode.ofByte (decode i).opcode with
  | some opcode => execute { m with ip := m.ip + 4 } (decode i) opcode
  | none => .error .unknownOpcode

section Steps

variable {m : TypedVM} {i : BitVec 32}

theorem wordAt_ok {address : Word} (h : readU32 m.code.bytes address.toNat = some i) :
    m.wordAt address = .ok i := by
  unfold wordAt
  rw [h]

/-- A step executes the instruction at IP. -/
theorem step_ok {opcode : Opcode} (hword : m.wordAt m.ip = .ok i)
    (hop : Opcode.ofByte (decode i).opcode = some opcode) :
    m.step = execute { m with ip := m.ip + 4 } (decode i) opcode := by
  unfold step
  rw [hword]
  simp only [bind, Except.bind, hop]

/-- An unknown opcode stops the machine. -/
theorem step_unknown (hword : m.wordAt m.ip = .ok i)
    (hop : Opcode.ofByte (decode i).opcode = none) : m.step = .error .unknownOpcode := by
  unfold step
  rw [hword]
  simp only [bind, Except.bind, hop]

end Steps

/-- The machine at the start of a program: everything is the double zero. -/
def start (code : Image) (codeOffset : BitVec 32) : TypedVM where
  code := code
  ip := codeOffset.setWidth 64
  sp := 0
  reg _ := .double 0
  stack _ := .double 0
  last := none
  running := true
  out := []

end TypedVM

end SproutLang
