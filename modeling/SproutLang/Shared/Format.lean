/-
  SproutLang.Shared.Format
  ────────────────────────
  **OPCODES AND FILE HEADER** (`src/shared/opcodes.h`, `bytecode_format.h`).

  `Opcode.toByte` is the enumeration's numbering and `Opcode.ofByte` the
  `switch` that reads it back; the two are inverse to each other.
-/
import SproutLang.Shared.Values

namespace SproutLang

/-! ## §1. Opcodes. -/

/-- `enum Opcode : uint8_t`, in the order of its numbers. -/
inductive Opcode where
  | opAdd | opSub | opMul | opDiv
  | opEnd | opLoad64 | opCmp | opDebugReturn
  | opJe | opJne | opJl | opJg
  | opCall | opRet | opPush | opPop
  | opInsertIntoStack | opReadFromStack
  | opMov | opArrInit | opArrInsert | opArrRead
  deriving DecidableEq, Repr

namespace Opcode

/-- The number of an opcode. -/
def toNat : Opcode → Nat
  | opAdd => 0 | opSub => 1 | opMul => 2 | opDiv => 3
  | opEnd => 4 | opLoad64 => 5 | opCmp => 6 | opDebugReturn => 7
  | opJe => 8 | opJne => 9 | opJl => 10 | opJg => 11
  | opCall => 12 | opRet => 13 | opPush => 14 | opPop => 15
  | opInsertIntoStack => 16 | opReadFromStack => 17
  | opMov => 18 | opArrInit => 19 | opArrInsert => 20 | opArrRead => 21

/-- The byte of an opcode. -/
def toByte (op : Opcode) : Byte := BitVec.ofNat 8 op.toNat

/-- Every opcode, in the order of the numbers. -/
def all : List Opcode :=
  [opAdd, opSub, opMul, opDiv, opEnd, opLoad64, opCmp, opDebugReturn,
   opJe, opJne, opJl, opJg, opCall, opRet, opPush, opPop,
   opInsertIntoStack, opReadFromStack, opMov, opArrInit, opArrInsert, opArrRead]

/-- The case of the `switch` a byte selects; `none` is `default:`. -/
def ofByte (b : Byte) : Option Opcode := all[b.toNat]?

@[simp] theorem ofByte_toByte (op : Opcode) : ofByte op.toByte = some op := by
  cases op <;> rfl

/-- There are 22 opcodes. -/
theorem toNat_lt (op : Opcode) : op.toNat < 22 := by
  cases op <;> decide

/-- A byte that is an opcode is the byte of that opcode. -/
theorem toByte_of_ofByte {b : Byte} {op : Opcode} (h : ofByte b = some op) :
    b = op.toByte := by
  unfold ofByte at h
  obtain ⟨hlt, hget⟩ := List.getElem?_eq_some_iff.1 h
  have hnum : ∀ (i : Nat) (hi : i < all.length), (all[i]).toNat = i := by decide
  have hb := hnum b.toNat hlt
  rw [hget] at hb
  apply BitVec.eq_of_toNat_eq
  show b.toNat = op.toNat % 2 ^ 8
  have := op.toNat_lt
  omega

/-- The four conditional branches carry a target word. -/
def isBranch : Opcode → Bool
  | opJe | opJne | opJl | opJg => true
  | _ => false

/-- The four branches. -/
theorem isBranch_iff {op : Opcode} :
    op.isBranch = true ↔ op = opJe ∨ op = opJne ∨ op = opJl ∨ op = opJg := by
  cases op <;> decide

/-- Bytes an instruction takes in the image: its word and what follows it. -/
def width : Opcode → Nat
  | opLoad64 => 12
  | opJe | opJne | opJl | opJg => 8
  | _ => 4

end Opcode

/-! ## §2. The file header. -/

/-- The first word of a file. -/
def SPROUT_LANG_MAGIC : BitVec 32 := 0x53505254

/-- The second word of a file. -/
def SPROUT_LANG_VERSION : BitVec 32 := 0x00000001

/-- The header of a file. -/
structure BCHeader where
  magic : BitVec 32
  version : BitVec 32
  flags : BitVec 32
  importCount : BitVec 32
  functionCount : BitVec 32
  importOffset : BitVec 32
  functionOffset : BitVec 32
  codeOffset : BitVec 32
  deriving DecidableEq, Repr

/-- `sizeof(BCHeader)`. -/
def SIZEOF_BCHEADER : Nat := 32

end SproutLang
