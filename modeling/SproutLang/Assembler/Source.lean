/-
  SproutLang.Assembler.Source
  ───────────────────────────
  **THE SOURCE LANGUAGE.**

  What an instruction line says, before anything is encoded: a mnemonic with
  its registers, literal, label, index or flag.  `SourceInstr.bytes` is its
  encoding once the labels have addresses, and where every field fits in its
  byte these are the bytes of the VM's instruction (`bytes_eq`).
-/
import SproutLang.Assembler.Assembler
import SproutLang.VM.InstructionStream

namespace SproutLang.Assembler

open Library

/-! ## §1. Lines. -/

/-- What an instruction line says. -/
inductive SourceInstr where
  | regs (op : Opcode) (registers : List Nat)
  | load (dst literal : Nat)
  | branch (op : Opcode) (label : Str)
  | call (index : Int)
  | mov (dst src : Nat) (flag : Int)
  deriving DecidableEq

/-- The operands of a line with a mnemonic, as the syntax has them. -/
def readInstr (py : Python) (op : Opcode) (toks : List Str) : Except PyError SourceInstr :=
  match op with
  | .opAdd | .opSub | .opMul | .opDiv | .opInsertIntoStack | .opReadFromStack | .opArrInit
  | .opArrInsert | .opArrRead => do
      let a ← regAt py toks 1
      let b ← regAt py toks 2
      let c ← regAt py toks 3
      return .regs op [a, b, c]
  | .opCmp => do
      let a ← regAt py toks 1
      let b ← regAt py toks 2
      return .regs op [a, b]
  | .opPush | .opPop | .opEnd | .opDebugReturn => do
      let a ← regAt py toks 1
      return .regs op [a]
  | .opRet => return .regs op []
  | .opLoad64 => do
      let dst ← regAt py toks 1
      let literal ← encode_value py (← tokAt toks 2)
      return .load dst literal
  | .opJe | .opJne | .opJl | .opJg => do
      let label ← tokAt toks 1
      if !startsWith label '@' then throw (.branchTarget label)
      return .branch op (label.drop 1)
  | .opCall => do
      let index ← intOf py (← tokAt toks 1)
      return .call index
  | .opMov => do
      let dst ← regAt py toks 1
      let src ← regAt py toks 2
      let flag ← match toks[3]? with
        | some t => intOf py t
        | none => pure 0
      return .mov dst src flag

/-- The mnemonic a line starts with. -/
def mnemonicOf (py : Python) (toks : List Str) : Option Opcode :=
  OPCODES.lookup (py.lower (toks.headD []))

/-- **The instruction lines of a text**, as their tokens: the lines that start
with a mnemonic. -/
def instrLines (py : Python) (text : Str) : List (List Str) :=
  ((readlines text).map tokenise_line).filter fun toks => (mnemonicOf py toks).isSome

/-- A `.func` block: the tokens of its first line, and its instruction lines. -/
structure Block where
  directive : List Str
  lines : List (List Str)

/-- The line is a `.func` directive. -/
def isFuncLine (py : Python) (toks : List Str) : Bool := py.lower (toks.headD []) = ".func".toList

/-- The blocks after one more line. -/
def addLine (py : Python) (blocks : List Block) (toks : List Str) : List Block :=
  if isFuncLine py toks then blocks ++ [⟨toks, []⟩]
  else if (mnemonicOf py toks).isSome then
    match blocks.getLast? with
    | some b => blocks.dropLast ++ [{ b with lines := b.lines ++ [toks] }]
    | none => blocks
  else blocks

/-- **The `.func` blocks of a text.** -/
def blocksOf (py : Python) (text : Str) : List Block :=
  ((readlines text).map tokenise_line).foldl (addLine py) []

/-- What a line says, if it is an instruction line. -/
def readLine (py : Python) (toks : List Str) : Option SourceInstr :=
  match mnemonicOf py toks with
  | some op => (readInstr py op toks).toOption
  | none => none

/-! ## §2. Their encoding. -/

namespace SourceInstr

/-- Bytes in the image. -/
def width : SourceInstr → Nat
  | .load _ _ => 12
  | .branch _ _ => 8
  | _ => 4

/-- The mnemonic of the line. -/
def opcode : SourceInstr → Opcode
  | .regs op _ => op
  | .load _ _ => .opLoad64
  | .branch op _ => op
  | .call _ => .opCall
  | .mov _ _ _ => .opMov

/-- The number of the instruction word. -/
def word : SourceInstr → Nat
  | .regs op rs => packed op (rs.getD 0 0) (rs.getD 1 0) (rs.getD 2 0)
  | .load dst _ => packed .opLoad64 dst 0 0
  | .branch op _ => packed op 0 0 0
  | .call i => packed .opCall (i.toNat / 2 ^ 16 % 256) (i.toNat / 2 ^ 8 % 256) (i.toNat % 256)
  | .mov dst src flag => packed .opMov dst src flag.toNat

/-- What follows the word, once the labels have addresses. -/
def operandBytes (address : Str → Nat) : SourceInstr → List Byte
  | .load _ literal => pack_u64 literal
  | .branch _ label => bigEndian 4 (address label)
  | _ => []

/-- The bytes of an instruction, its label at an address. -/
def bytes (address : Str → Nat) (s : SourceInstr) : List Byte :=
  bigEndian 4 s.word ++ s.operandBytes address

/-- What the assembler has checked of a line: the registers are bytes, an
index has 24 bits; a flag is any number that leaves the word in 32 bits. -/
def Checked : SourceInstr → Prop
  | .regs op rs => op ≠ .opLoad64 ∧ op.isBranch = false ∧ rs.length ≤ 3 ∧ ∀ r ∈ rs, r < 256
  | .load dst _ => dst < 256
  | .branch op _ => op.isBranch = true
  | .call i => 0 ≤ i ∧ i < 2 ^ 24
  | .mov dst src flag => dst < 256 ∧ src < 256 ∧ 0 ≤ flag

/-- **The flag of a `mov` is a byte.** -/
def FlagFits : SourceInstr → Prop
  | .mov _ _ flag => flag ≤ 255
  | _ => True

instance (s : SourceInstr) : Decidable s.FlagFits :=
  match s with
  | .mov _ _ flag => inferInstanceAs (Decidable (flag ≤ 255))
  | .regs _ _ | .load _ _ | .branch _ _ | .call _ => inferInstanceAs (Decidable True)

/-- The VM's instruction. -/
def instr (address : Str → Nat) : SourceInstr → Instr
  | .regs op rs =>
      ⟨op, BitVec.ofNat 8 (rs.getD 0 0), BitVec.ofNat 8 (rs.getD 1 0), BitVec.ofNat 8 (rs.getD 2 0),
        .none⟩
  | .load dst literal => ⟨.opLoad64, BitVec.ofNat 8 dst, 0, 0, .immediate (BitVec.ofNat 64 literal)⟩
  | .branch op label => ⟨op, 0, 0, 0, .target (BitVec.ofNat 32 (address label))⟩
  | .call i =>
      ⟨.opCall, BitVec.ofNat 8 (i.toNat / 2 ^ 16), BitVec.ofNat 8 (i.toNat / 2 ^ 8),
        BitVec.ofNat 8 i.toNat, .none⟩
  | .mov dst src flag =>
      ⟨.opMov, BitVec.ofNat 8 dst, BitVec.ofNat 8 src, BitVec.ofNat 8 flag.toNat, .none⟩

/-- **A decoded instruction says what the line says**: the opcode of the
mnemonic and the operands as they are written. -/
def Agrees : SourceInstr → Instr → Prop
  | .regs op rs, d =>
      d.opcode = op ∧ d.operand = .none ∧
        ([d.ra, d.rb, d.rc].take rs.length).map BitVec.toNat = rs
  | .load dst literal, d =>
      d.opcode = .opLoad64 ∧ d.ra.toNat = dst ∧ d.operand = .immediate (BitVec.ofNat 64 literal)
  | .branch op _, d => d.opcode = op ∧ ∃ t, d.operand = .target t
  | .call i, d => d.opcode = .opCall ∧ d.operand = .none ∧ (callIndex d.ra d.rb d.rc : Int) = i
  | .mov dst src flag, d =>
      d.opcode = .opMov ∧ d.operand = .none ∧ d.ra.toNat = dst ∧ d.rb.toNat = src ∧
        (d.rc.toNat : Int) = flag

variable {s : SourceInstr}

/-- An instruction's bytes are as many as its width. -/
theorem length_bytes (address : Str → Nat) (s : SourceInstr) :
    (s.bytes address).length = s.width := by
  unfold bytes
  rw [List.length_append, length_bigEndian]
  cases s with
  | load dst literal => exact congrArg (4 + ·) (length_bigEndian 8 _)
  | branch op label => exact congrArg (4 + ·) (length_bigEndian 4 _)
  | regs | call | mov => rfl

/-- A checked instruction has operands of its opcode. -/
theorem fits_instr (address : Str → Nat) (h : s.Checked) :
    (s.instr address).operand.Fits (s.instr address).opcode := by
  cases s with
  | regs op rs => exact ⟨h.1, h.2.1⟩
  | load dst literal => rfl
  | branch op label => exact h
  | call i => exact ⟨Opcode.noConfusion, rfl⟩
  | mov dst src flag => exact ⟨Opcode.noConfusion, rfl⟩

theorem getD_lt {rs : List Nat} (h : ∀ r ∈ rs, r < 256) (i : Nat) : rs.getD i 0 < 256 := by
  rw [List.getD_eq_getElem?_getD]
  cases hget : rs[i]? with
  | none => decide
  | some r => exact h r (List.mem_of_getElem? hget)

theorem toNat_ofNat_byte {n : Nat} (h : n < 256) : (BitVec.ofNat 8 n).toNat = n :=
  (BitVec.toNat_ofNat n 8).trans (Nat.mod_eq_of_lt h)

/-- **The bytes of a line are those of the VM's instruction**, as long as a
`mov` has a flag of one byte. -/
theorem bytes_eq (address : Str → Nat) (h : s.Checked) (hflag : s.FlagFits) :
    s.bytes address = (s.instr address).bytes := by
  unfold bytes Instr.bytes
  cases s with
  | regs op rs =>
      have hlt := getD_lt h.2.2.2
      show bigEndian 4 (packed op (rs.getD 0 0) (rs.getD 1 0) (rs.getD 2 0)) ++ []
        = bigEndian 4 (packed op (BitVec.ofNat 8 (rs.getD 0 0)).toNat
          (BitVec.ofNat 8 (rs.getD 1 0)).toNat (BitVec.ofNat 8 (rs.getD 2 0)).toNat) ++ []
      rw [toNat_ofNat_byte (hlt 0), toNat_ofNat_byte (hlt 1), toNat_ofNat_byte (hlt 2)]
  | load dst literal =>
      show bigEndian 4 (packed .opLoad64 dst 0 0) ++ bigEndian 8 (literal % 2 ^ 64)
        = bigEndian 4 (packed .opLoad64 (BitVec.ofNat 8 dst).toNat 0 0)
          ++ bigEndian 8 (BitVec.ofNat 64 literal).toNat
      rw [toNat_ofNat_byte h, BitVec.toNat_ofNat]
  | branch op label =>
      show bigEndian 4 (packed op 0 0 0) ++ bigEndian 4 (address label)
        = bigEndian 4 (packed op 0 0 0) ++ bigEndian 4 (BitVec.ofNat 32 (address label)).toNat
      rw [BitVec.toNat_ofNat]
      -- a target of more than 32 bits is cut off on both sides
      exact congrArg _ (bigEndian_mod 4 (address label)).symm
  | call i =>
      show bigEndian 4 (packed .opCall (i.toNat / 2 ^ 16 % 256) (i.toNat / 2 ^ 8 % 256)
          (i.toNat % 256)) ++ []
        = bigEndian 4 (packed .opCall (BitVec.ofNat 8 (i.toNat / 2 ^ 16)).toNat
          (BitVec.ofNat 8 (i.toNat / 2 ^ 8)).toNat (BitVec.ofNat 8 i.toNat).toNat) ++ []
      rw [BitVec.toNat_ofNat, BitVec.toNat_ofNat, BitVec.toNat_ofNat]
  | mov dst src flag =>
      obtain ⟨hdst, hsrc, hlow⟩ := h
      have hhigh : flag ≤ 255 := hflag
      show bigEndian 4 (packed .opMov dst src flag.toNat) ++ []
        = bigEndian 4 (packed .opMov (BitVec.ofNat 8 dst).toNat (BitVec.ofNat 8 src).toNat
          (BitVec.ofNat 8 flag.toNat).toNat) ++ []
      rw [toNat_ofNat_byte hdst, toNat_ofNat_byte hsrc, toNat_ofNat_byte (by omega)]

/-- The call index is put together from its three bytes. -/
theorem callIndex_bytes {n : Nat} (h : n < 2 ^ 24) :
    callIndex (BitVec.ofNat 8 (n / 2 ^ 16)) (BitVec.ofNat 8 (n / 2 ^ 8)) (BitVec.ofNat 8 n) = n := by
  have hjoin := toNat_joinBytes 0 (BitVec.ofNat 8 (n / 2 ^ 16)) (BitVec.ofNat 8 (n / 2 ^ 8))
    (BitVec.ofNat 8 n)
  have hzero : ((0 : Byte).setWidth 32 <<< 24 : BitVec 32) = 0#32 := by decide
  rw [hzero, BitVec.zero_or] at hjoin
  unfold callIndex
  rw [hjoin]
  show (0 : Byte).toNat * 2 ^ 24 + ((BitVec.ofNat 8 (n / 2 ^ 16)).toNat * 2 ^ 16
    + ((BitVec.ofNat 8 (n / 2 ^ 8)).toNat * 2 ^ 8 + ((BitVec.ofNat 8 n).toNat * 2 ^ 0 + 0))) = n
  rw [BitVec.toNat_ofNat, BitVec.toNat_ofNat, BitVec.toNat_ofNat]
  show 0 * 2 ^ 24 + _ = n
  omega

/-- **The VM's instruction agrees with the line exactly where the flag
fits.** -/
theorem agrees_instr (address : Str → Nat) (h : s.Checked) (hflag : s.FlagFits) :
    s.Agrees (s.instr address) := by
  cases s with
  | regs op rs =>
      refine ⟨rfl, rfl, ?_⟩
      obtain ⟨-, -, hlen, hlt⟩ := h
      show ([BitVec.ofNat 8 (rs.getD 0 0), BitVec.ofNat 8 (rs.getD 1 0),
        BitVec.ofNat 8 (rs.getD 2 0)].take rs.length).map BitVec.toNat = rs
      have hnat : ∀ r ∈ rs, (BitVec.ofNat 8 r).toNat = r := fun r hr => toNat_ofNat_byte (hlt r hr)
      -- three registers at most
      match rs, hlen, hnat with
      | [], _, _ => rfl
      | [a], _, hnat =>
          show [(BitVec.ofNat 8 a).toNat] = [a]
          rw [hnat a (by simp)]
      | [a, b], _, hnat =>
          show [(BitVec.ofNat 8 a).toNat, (BitVec.ofNat 8 b).toNat] = [a, b]
          rw [hnat a (by simp), hnat b (by simp)]
      | [a, b, c], _, hnat =>
          show [(BitVec.ofNat 8 a).toNat, (BitVec.ofNat 8 b).toNat, (BitVec.ofNat 8 c).toNat]
            = [a, b, c]
          rw [hnat a (by simp), hnat b (by simp), hnat c (by simp)]
      | _ :: _ :: _ :: _ :: _, hlen, _ => simp only [List.length_cons] at hlen; omega
  | load dst literal => exact ⟨rfl, toNat_ofNat_byte h, rfl⟩
  | branch op label => exact ⟨rfl, _, rfl⟩
  | call i =>
      refine ⟨rfl, rfl, ?_⟩
      obtain ⟨hlow, hhigh⟩ := h
      show (callIndex (BitVec.ofNat 8 (i.toNat / 2 ^ 16)) (BitVec.ofNat 8 (i.toNat / 2 ^ 8))
        (BitVec.ofNat 8 i.toNat) : Int) = i
      -- the three bytes of the index, put together again
      rw [callIndex_bytes (by omega)]
      omega
  | mov dst src flag =>
      obtain ⟨hdst, hsrc, hlow⟩ := h
      have hhigh : flag ≤ 255 := hflag
      refine ⟨rfl, rfl, toNat_ofNat_byte hdst, toNat_ofNat_byte hsrc, ?_⟩
      show ((BitVec.ofNat 8 flag.toNat).toNat : Int) = flag
      rw [toNat_ofNat_byte (by omega)]
      omega

/-- What agrees has the same opcode. -/
theorem Agrees.opcode_eq {d : Instr} (h : s.Agrees d) : d.opcode = s.opcode := by
  cases s <;> exact h.1

/-- What agrees has the same width. -/
theorem Agrees.length_bytes {d : Instr} (h : s.Agrees d) : d.bytes.length = s.width := by
  unfold Instr.bytes
  rw [List.length_append, length_bigEndian]
  cases s with
  | regs op rs =>
      obtain ⟨-, hoperand, -⟩ := h
      rw [hoperand]
      rfl
  | load dst literal =>
      obtain ⟨-, -, hoperand⟩ := h
      rw [hoperand]
      exact congrArg (4 + ·) (length_bigEndian 8 _)
  | branch op label =>
      obtain ⟨-, t, hoperand⟩ := h
      rw [hoperand]
      exact congrArg (4 + ·) (length_bigEndian 4 _)
  | call i =>
      obtain ⟨-, hoperand, -⟩ := h
      rw [hoperand]
      rfl
  | mov dst src flag =>
      obtain ⟨-, hoperand, -⟩ := h
      rw [hoperand]
      rfl

/-- What agrees with a decoded instruction has a flag of one byte. -/
theorem Agrees.flagFits {d : Instr} (h : s.Agrees d) : s.FlagFits := by
  cases s with
  | mov dst src flag =>
      obtain ⟨-, -, -, -, hrc⟩ := h
      have := d.rc.isLt
      show flag ≤ 255
      omega
  | regs | load | branch | call => trivial

end SourceInstr

end SproutLang.Assembler
