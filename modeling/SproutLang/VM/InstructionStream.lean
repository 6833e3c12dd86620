/-
  SproutLang.VM.InstructionStream
  ───────────────────────────────
  **THE CODE SECTION AS A LIST OF INSTRUCTIONS.**

  An instruction is its word and what follows it: an immediate after a load,
  a target after a branch.  `instrAt` reads one with the VM's own rules and
  `decodeCode` all of them, from `codeOffset` to the end of the image:

    • `instrAt_bytes`    — reading back the bytes of an instruction gives it,
    • `instrsFrom_bytes` — and so for a list of instructions in a row.
-/
import SproutLang.VM.Effects
import SproutLang.VM.Loader
import SproutLang.Library.BigEndian

namespace SproutLang

open Library

/-! ## §1. Reading. -/

/-- What follows an instruction word. -/
inductive Operand where
  | none
  | immediate (w : Word)
  | target (t : BitVec 32)
  deriving DecidableEq, Repr

/-- An instruction of the image, with the words behind it. -/
structure Instr where
  opcode : Opcode
  ra : Byte
  rb : Byte
  rc : Byte
  operand : Operand
  deriving DecidableEq, Repr

/-- The operand at `i`: `fetch64` for a load, `fetch` for a branch. -/
def operandAt (bytes : List Byte) (i : Nat) (opcode : Opcode) : Option Operand :=
  if opcode = .opLoad64 then do
    let hi ← readU32 bytes i
    let lo ← readU32 bytes (i + 4)
    return .immediate ((hi.setWidth 64 <<< 32) ||| lo.setWidth 64)
  else if opcode.isBranch then do
    let t ← readU32 bytes i
    return .target t
  else return .none

/-- The instruction at `i`. -/
def instrAt (bytes : List Byte) (i : Nat) : Option Instr := do
  let w ← readU32 bytes i
  let opcode ← Opcode.ofByte (decode w).opcode
  let operand ← operandAt bytes (i + 4) opcode
  return { opcode, ra := (decode w).ra, rb := (decode w).rb, rc := (decode w).rc, operand }

/-- The instructions from `i` to the end of the image, of which there are at
most `rounds`. -/
def instrsFrom (bytes : List Byte) : Nat → Nat → Option (List Instr)
  | rounds, i =>
      if i = bytes.length then some []
      else
        match rounds with
        | 0 => none
        | rounds + 1 => do
            let instr ← instrAt bytes i
            let rest ← instrsFrom bytes rounds (i + instr.opcode.width)
            return instr :: rest

/-- The code section; every instruction takes a byte at least. -/
def decodeCode (bytes : List Byte) : Option (List Instr) :=
  match loadHeader bytes with
  | .ok header => instrsFrom bytes bytes.length header.codeOffset.toNat
  | .error _ => none

/-! ## §2. Words in an image. -/

/-- The word of four bytes. -/
theorem toNat_joinBytes (a b c d : Byte) :
    ((a.setWidth 32 <<< 24) ||| (b.setWidth 32 <<< 16) ||| (c.setWidth 32 <<< 8)
        ||| d.setWidth 32 : BitVec 32).toNat
      = ofBytes [a, b, c, d] := by
  have ha := a.isLt
  have hb := b.isLt
  have hc := c.isLt
  have hd := d.isLt
  rw [BitVec.toNat_or, BitVec.toNat_or, BitVec.toNat_or]
  rw [BitVec.toNat_shiftLeft, BitVec.toNat_shiftLeft, BitVec.toNat_shiftLeft,
    BitVec.toNat_setWidth, BitVec.toNat_setWidth, BitVec.toNat_setWidth, BitVec.toNat_setWidth,
    Nat.shiftLeft_eq, Nat.shiftLeft_eq, Nat.shiftLeft_eq]
  -- no byte leaves the 32 bits
  rw [Nat.mod_eq_of_lt (show a.toNat < 2 ^ 32 by omega),
    Nat.mod_eq_of_lt (show b.toNat < 2 ^ 32 by omega),
    Nat.mod_eq_of_lt (show c.toNat < 2 ^ 32 by omega),
    Nat.mod_eq_of_lt (show d.toNat < 2 ^ 32 by omega),
    Nat.mod_eq_of_lt (show a.toNat * 2 ^ 24 < 2 ^ 32 by omega),
    Nat.mod_eq_of_lt (show b.toNat * 2 ^ 16 < 2 ^ 32 by omega),
    Nat.mod_eq_of_lt (show c.toNat * 2 ^ 8 < 2 ^ 32 by omega)]
  -- the four fields do not overlap, so `or` adds them
  rw [or_shifted a.toNat (show b.toNat * 2 ^ 16 < 2 ^ 24 by omega),
    show a.toNat * 2 ^ 24 + b.toNat * 2 ^ 16 = (a.toNat * 2 ^ 8 + b.toNat) * 2 ^ 16 by ring,
    or_shifted _ (show c.toNat * 2 ^ 8 < 2 ^ 16 by omega),
    show (a.toNat * 2 ^ 8 + b.toNat) * 2 ^ 16 + c.toNat * 2 ^ 8
      = ((a.toNat * 2 ^ 8 + b.toNat) * 2 ^ 8 + c.toNat) * 2 ^ 8 by ring,
    or_shifted _ (show d.toNat < 2 ^ 8 by omega)]
  show _ = a.toNat * 2 ^ 24 + (b.toNat * 2 ^ 16 + (c.toNat * 2 ^ 8 + (d.toNat * 2 ^ 0 + 0)))
  ring

/-- **A word written big-endian is read back.** -/
theorem readU32_bigEndian (before after : List Byte) (n : Nat) :
    readU32 (before ++ bigEndian 4 n ++ after) before.length = some (BitVec.ofNat 32 n) := by
  have hget : ∀ k : Nat, k < 4 → (before ++ bigEndian 4 n ++ after)[before.length + k]?
      = (bigEndian 4 n)[k]? := by
    intro k hk
    rw [List.append_assoc, List.getElem?_append_right (by omega), Nat.add_sub_cancel_left,
      List.getElem?_append_left (by rw [length_bigEndian]; exact hk)]
  have h0 := hget 0 (by omega)
  rw [Nat.add_zero] at h0
  unfold readU32
  rw [h0, hget 1 (by omega), hget 2 (by omega), hget 3 (by omega)]
  show some _ = _
  congr 1
  apply BitVec.eq_of_toNat_eq
  rw [toNat_joinBytes, BitVec.toNat_ofNat]
  exact ofBytes_bigEndian 4 n

/-- Four bytes further in the list are four bytes further in the image. -/
theorem readU32_bigEndian_of_eq {bytes before after : List Byte} {n i : Nat}
    (h : bytes = before ++ bigEndian 4 n ++ after) (hi : i = before.length) :
    readU32 bytes i = some (BitVec.ofNat 32 n) := by
  subst h hi
  exact readU32_bigEndian before after n

/-- Four bytes a word. -/
theorem length_wordBytes (words : List Nat) : (wordBytes words).length = 4 * words.length := by
  unfold wordBytes
  induction words with
  | nil => rfl
  | cons w words ih =>
      rw [List.flatMap_cons, List.length_append, length_bigEndian, ih, List.length_cons]
      omega

/-- One of a row of words. -/
theorem readU32_wordBytes (words : List Nat) (after : List Byte) {k w : Nat}
    (h : words[k]? = some w) :
    readU32 (wordBytes words ++ after) (4 * k) = some (BitVec.ofNat 32 w) := by
  obtain ⟨hlt, hget⟩ := List.getElem?_eq_some_iff.1 h
  have hsplit : words = words.take k ++ w :: words.drop (k + 1) := by
    rw [← hget, ← List.drop_eq_getElem_cons hlt, List.take_append_drop]
  have hbytes : wordBytes words ++ after
      = wordBytes (words.take k) ++ bigEndian 4 w
        ++ (wordBytes (words.drop (k + 1)) ++ after) := by
    conv_lhs => rw [hsplit]
    unfold wordBytes
    rw [List.flatMap_append, List.flatMap_cons]
    simp only [List.append_assoc]
  refine readU32_bigEndian_of_eq hbytes ?_
  rw [length_wordBytes, List.length_take]
  omega

/-- **The header of a file that starts with eight words.** -/
theorem loadHeader_wordBytes (flags importCount functionCount importOffset functionOffset
    codeOffset : Nat) (after : List Byte) :
    loadHeader (wordBytes [SPROUT_LANG_MAGIC.toNat, SPROUT_LANG_VERSION.toNat, flags, importCount,
        functionCount, importOffset, functionOffset, codeOffset] ++ after)
      = .ok ⟨SPROUT_LANG_MAGIC, SPROUT_LANG_VERSION, BitVec.ofNat 32 flags,
          BitVec.ofNat 32 importCount, BitVec.ofNat 32 functionCount,
          BitVec.ofNat 32 importOffset, BitVec.ofNat 32 functionOffset,
          BitVec.ofNat 32 codeOffset⟩ := by
  generalize hwords : [SPROUT_LANG_MAGIC.toNat, SPROUT_LANG_VERSION.toNat, flags, importCount,
    functionCount, importOffset, functionOffset, codeOffset] = words
  -- the fields are read at 0, 4, 8 and so on
  have hfield : ∀ {k w : Nat}, words[k]? = some w →
      headerField (wordBytes words ++ after) (4 * k) = .ok (BitVec.ofNat 32 w) := by
    intro k w hget
    unfold headerField
    rw [readU32_wordBytes words after hget]
  have hlong : ¬ (wordBytes words ++ after).length < SIZEOF_BCHEADER := by
    rw [List.length_append, length_wordBytes, ← hwords]
    show ¬ 4 * 8 + after.length < 32
    omega
  have h0 := hfield (k := 0) (w := SPROUT_LANG_MAGIC.toNat) (by rw [← hwords]; rfl)
  have h1 := hfield (k := 1) (w := SPROUT_LANG_VERSION.toNat) (by rw [← hwords]; rfl)
  have h2 := hfield (k := 2) (w := flags) (by rw [← hwords]; rfl)
  have h3 := hfield (k := 3) (w := importCount) (by rw [← hwords]; rfl)
  have h4 := hfield (k := 4) (w := functionCount) (by rw [← hwords]; rfl)
  have h5 := hfield (k := 5) (w := importOffset) (by rw [← hwords]; rfl)
  have h6 := hfield (k := 6) (w := functionOffset) (by rw [← hwords]; rfl)
  have h7 := hfield (k := 7) (w := codeOffset) (by rw [← hwords]; rfl)
  unfold loadHeader
  rw [if_neg hlong]
  simp only [h0, h1, h2, h3, h4, h5, h6, h7]
  rfl

/-- The two halves of a word of 64 bits. -/
theorem joinWords (w : Word) :
    ((BitVec.ofNat 32 (w.toNat / 2 ^ 32)).setWidth 64 <<< 32)
      ||| (BitVec.ofNat 32 w.toNat).setWidth 64 = w := by
  have hw := w.isLt
  apply BitVec.eq_of_toNat_eq
  rw [BitVec.toNat_or, BitVec.toNat_shiftLeft, BitVec.toNat_setWidth, BitVec.toNat_setWidth,
    BitVec.toNat_ofNat, BitVec.toNat_ofNat, Nat.shiftLeft_eq]
  rw [Nat.mod_eq_of_lt (show w.toNat / 2 ^ 32 < 2 ^ 32 by omega),
    Nat.mod_eq_of_lt (show w.toNat / 2 ^ 32 < 2 ^ 64 by omega),
    Nat.mod_eq_of_lt (show w.toNat / 2 ^ 32 * 2 ^ 32 < 2 ^ 64 by omega),
    Nat.mod_eq_of_lt (show w.toNat % 2 ^ 32 < 2 ^ 64 by omega),
    or_shifted _ (show w.toNat % 2 ^ 32 < 2 ^ 32 by omega)]
  omega

/-! ## §3. Executing what is there. -/

/-- What an instruction at `i` is made of. -/
theorem instrAt_eq_some {bytes : List Byte} {i : Nat} {instr : Instr}
    (h : instrAt bytes i = some instr) :
    ∃ w, readU32 bytes i = some w ∧
      decode w = ⟨instr.opcode.toByte, instr.ra, instr.rb, instr.rc⟩ ∧
      operandAt bytes (i + 4) instr.opcode = some instr.operand := by
  unfold instrAt at h
  obtain ⟨w, hw, h⟩ := Option.bind_eq_some_iff.1 h
  obtain ⟨opcode, hop, h⟩ := Option.bind_eq_some_iff.1 h
  obtain ⟨operand, hoperand, h⟩ := Option.bind_eq_some_iff.1 h
  injection h with h
  subst h
  refine ⟨w, hw, ?_, hoperand⟩
  show decode w = ⟨opcode.toByte, (decode w).ra, (decode w).rb, (decode w).rc⟩
  rw [← Opcode.toByte_of_ofByte hop]

/-- A round executes the instruction at `ip`. -/
theorem iterate_of_instrAt {vm : VM} {instr : Instr}
    (h : instrAt vm.bytecode.bytes vm.ip.toNat = some instr) :
    iterate vm = executeOp instr.opcode ⟨instr.opcode.toByte, instr.ra, instr.rb, instr.rc⟩
      vm.fetched := by
  obtain ⟨w, hw, hdecode, -⟩ := instrAt_eq_some h
  have hfetch : fetch vm = .ok w vm.fetched := by
    rw [fetch_eq, hw]
    rfl
  unfold iterate
  rw [bind_ok hfetch, hdecode, execute_toByte]

/-- **A load at `ip`** puts its immediate into the register. -/
theorem iterate_load {vm : VM} {instr : Instr} {v : Word}
    (h : instrAt vm.bytecode.bytes vm.ip.toNat = some instr) (hop : instr.opcode = .opLoad64)
    (hoperand : instr.operand = .immediate v) :
    iterate vm = .ok () ({ vm.fetched with ip := vm.fetched.ip + 4 + 4 }.setReg instr.ra v) := by
  have himage := vm.bytecode.addressable
  obtain ⟨w, hw, -, hread⟩ := instrAt_eq_some h
  have hbound := readU32_bound hw
  have hip : (vm.ip + 4).toNat = vm.ip.toNat + 4 := by bv_omega
  rw [hop, hoperand] at hread
  unfold operandAt at hread
  rw [if_pos rfl] at hread
  obtain ⟨hi, hhi, hread⟩ := Option.bind_eq_some_iff.1 hread
  obtain ⟨lo, hlo, hread⟩ := Option.bind_eq_some_iff.1 hread
  have hbound := readU32_bound hhi
  have hip2 : (vm.ip + 4 + 4).toNat = vm.ip.toNat + 4 + 4 := by bv_omega
  injection hread with hread
  injection hread with hread
  rw [← hip] at hhi
  rw [← hip2] at hlo
  -- the two fetches read the halves of the immediate
  have hfirst : fetch vm.fetched = .ok hi { vm.fetched with ip := vm.fetched.ip + 4 } :=
    fetch_ok hhi
  have hsecond : fetch { vm.fetched with ip := vm.fetched.ip + 4 }
      = .ok lo { vm.fetched with ip := vm.fetched.ip + 4 + 4 } := fetch_ok hlo
  rw [iterate_of_instrAt h, hop]
  show loadIntoReg instr.ra vm.fetched = _
  unfold loadIntoReg fetch64
  rw [bind_ok (bind_ok hfirst |>.trans (bind_ok hsecond)), hread]
  rfl

/-! ## §4. Writing. -/

/-- The number of an instruction word. -/
def packed (opcode : Opcode) (a b c : Nat) : Nat :=
  (opcode.toNat <<< 24) ||| (a <<< 16) ||| (b <<< 8) ||| c

/-- Fields of a byte each do not overlap. -/
theorem packed_eq (opcode : Opcode) {a b c : Nat} (ha : a < 256) (hb : b < 256) (hc : c < 256) :
    packed opcode a b c = opcode.toNat * 2 ^ 24 + a * 2 ^ 16 + b * 2 ^ 8 + c := by
  unfold packed
  rw [Nat.shiftLeft_eq, Nat.shiftLeft_eq, Nat.shiftLeft_eq,
    or_shifted opcode.toNat (show a * 2 ^ 16 < 2 ^ 24 by omega),
    show opcode.toNat * 2 ^ 24 + a * 2 ^ 16 = (opcode.toNat * 2 ^ 8 + a) * 2 ^ 16 by ring,
    or_shifted _ (show b * 2 ^ 8 < 2 ^ 16 by omega),
    show (opcode.toNat * 2 ^ 8 + a) * 2 ^ 16 + b * 2 ^ 8
      = ((opcode.toNat * 2 ^ 8 + a) * 2 ^ 8 + b) * 2 ^ 8 by ring,
    or_shifted _ (show c < 2 ^ 8 by omega)]

/-- A packed instruction has 32 bits. -/
theorem packed_lt (opcode : Opcode) {a b c : Nat} (ha : a < 256) (hb : b < 256) (hc : c < 256) :
    packed opcode a b c < 2 ^ 32 := by
  have hop := opcode.toNat_lt
  rw [packed_eq opcode ha hb hc]
  omega

/-- **Decoding undoes packing.** -/
theorem decode_packed (opcode : Opcode) {a b c : Nat} (ha : a < 256) (hb : b < 256)
    (hc : c < 256) :
    decode (BitVec.ofNat 32 (packed opcode a b c))
      = ⟨opcode.toByte, BitVec.ofNat 8 a, BitVec.ofNat 8 b, BitVec.ofNat 8 c⟩ := by
  -- as a number the word is its four fields
  have hnum := packed_eq opcode ha hb hc
  have hlt := packed_lt opcode ha hb hc
  have hop := opcode.toNat_lt
  generalize hw : BitVec.ofNat 32 (packed opcode a b c) = w
  have hnat : w.toNat = opcode.toNat * 2 ^ 24 + a * 2 ^ 16 + b * 2 ^ 8 + c := by
    rw [← hw, BitVec.toNat_ofNat, Nat.mod_eq_of_lt hlt, hnum]
  have hmask : ∀ v : BitVec 32, (v &&& 0xFF).toNat = v.toNat % 2 ^ 8 := by
    intro v
    rw [BitVec.toNat_and]
    exact Nat.and_two_pow_sub_one_eq_mod v.toNat 8
  have hfield : ∀ (v : BitVec 32) (x : Nat), v.toNat % 2 ^ 8 = x → v.setWidth 8 = BitVec.ofNat 8 x := by
    intro v x hv
    apply BitVec.eq_of_toNat_eq
    rw [BitVec.toNat_setWidth, BitVec.toNat_ofNat, ← hv]
    omega
  unfold decode op ra rb rc Opcode.toByte
  congr 1
  · -- opcode, then `ra`, `rb` and `rc`
    apply hfield
    rw [BitVec.toNat_ushiftRight, Nat.shiftRight_eq_div_pow, hnat]
    omega
  · apply hfield
    rw [hmask, BitVec.toNat_ushiftRight, Nat.shiftRight_eq_div_pow, hnat]
    omega
  · apply hfield
    rw [hmask, BitVec.toNat_ushiftRight, Nat.shiftRight_eq_div_pow, hnat]
    omega
  · apply hfield
    rw [hmask, hnat]
    omega

/-- The bytes of the words behind it. -/
def Operand.bytes : Operand → List Byte
  | .none => []
  | .immediate w => bigEndian 8 w.toNat
  | .target t => bigEndian 4 t.toNat

/-- The operand an opcode takes. -/
def Operand.Fits (opcode : Opcode) : Operand → Prop
  | .none => opcode ≠ .opLoad64 ∧ opcode.isBranch = false
  | .immediate _ => opcode = .opLoad64
  | .target _ => opcode.isBranch = true

/-- An instruction as it stands in an image. -/
def Instr.bytes (instr : Instr) : List Byte :=
  bigEndian 4 (packed instr.opcode instr.ra.toNat instr.rb.toNat instr.rc.toNat)
    ++ instr.operand.bytes

/-- An opcode's width counts the words behind it. -/
theorem Operand.length_bytes {opcode : Opcode} {operand : Operand} (h : operand.Fits opcode) :
    4 + operand.bytes.length = opcode.width := by
  cases operand with
  | none => cases opcode <;> simp [Fits, Opcode.isBranch] at h <;> rfl
  | immediate w =>
      have hload : opcode = .opLoad64 := h
      rw [hload]
      exact congrArg (4 + ·) (length_bigEndian 8 _)
  | target t =>
      show 4 + (bigEndian 4 t.toNat).length = opcode.width
      rw [length_bigEndian]
      rcases Opcode.isBranch_iff.1 h with hop | hop | hop | hop <;> rw [hop] <;> rfl

/-- An instruction is as long as its width. -/
theorem Instr.length_bytes {instr : Instr} (h : instr.operand.Fits instr.opcode) :
    instr.bytes.length = instr.opcode.width := by
  unfold bytes
  rw [List.length_append, length_bigEndian]
  exact Operand.length_bytes h

/-- An operand read back behind its word. -/
theorem operandAt_bytes (before after : List Byte) {opcode : Opcode} {operand : Operand}
    (h : operand.Fits opcode) :
    operandAt (before ++ operand.bytes ++ after) before.length opcode = some operand := by
  unfold operandAt
  cases operand with
  | none =>
      rw [if_neg h.1, h.2]
      rfl
  | immediate w =>
      -- eight bytes are the high word and the low word
      have hhalves : bigEndian 8 w.toNat = bigEndian 4 (w.toNat / 2 ^ 32) ++ bigEndian 4 w.toNat :=
        bigEndian_add 4 4 w.toNat
      have hfirst : before ++ bigEndian 8 w.toNat ++ after
          = before ++ bigEndian 4 (w.toNat / 2 ^ 32) ++ (bigEndian 4 w.toNat ++ after) := by
        rw [hhalves]
        simp only [List.append_assoc]
      have hsecond : before ++ bigEndian 8 w.toNat ++ after
          = (before ++ bigEndian 4 (w.toNat / 2 ^ 32)) ++ bigEndian 4 w.toNat ++ after := by
        rw [hhalves]
        simp only [List.append_assoc]
      have hhi := readU32_bigEndian_of_eq hfirst rfl
      have hlo := readU32_bigEndian_of_eq (i := before.length + 4) hsecond
        (by rw [List.length_append, length_bigEndian])
      have hload : opcode = .opLoad64 := h
      rw [if_pos hload]
      show (readU32 (before ++ bigEndian 8 w.toNat ++ after) before.length >>= fun hi =>
        readU32 (before ++ bigEndian 8 w.toNat ++ after) (before.length + 4) >>= fun lo =>
          some (Operand.immediate ((hi.setWidth 64 <<< 32) ||| lo.setWidth 64))) = _
      rw [hhi, hlo]
      show some (Operand.immediate _) = _
      rw [joinWords]
  | target t =>
      have hbranch : opcode.isBranch = true := h
      have hload : opcode ≠ .opLoad64 := by
        rintro rfl
        exact absurd hbranch (by decide)
      rw [if_neg hload, if_pos hbranch]
      show (readU32 (before ++ bigEndian 4 t.toNat ++ after) before.length >>= fun v =>
        some (Operand.target v)) = _
      rw [readU32_bigEndian]
      show some (Operand.target (BitVec.ofNat 32 t.toNat)) = _
      rw [BitVec.ofNat_toNat, BitVec.setWidth_eq]

/-- **Reading back an instruction.** -/
theorem instrAt_bytes (before after : List Byte) {instr : Instr}
    (h : instr.operand.Fits instr.opcode) :
    instrAt (before ++ instr.bytes ++ after) before.length = some instr := by
  have hword := readU32_bigEndian before (instr.operand.bytes ++ after)
    (packed instr.opcode instr.ra.toNat instr.rb.toNat instr.rc.toNat)
  have hoperand := operandAt_bytes
    (before ++ bigEndian 4 (packed instr.opcode instr.ra.toNat instr.rb.toNat instr.rc.toNat))
    after h
  rw [List.length_append, length_bigEndian] at hoperand
  have hbytes : before ++ instr.bytes ++ after
      = before ++ bigEndian 4 (packed instr.opcode instr.ra.toNat instr.rb.toNat instr.rc.toNat)
        ++ (instr.operand.bytes ++ after) := by
    unfold Instr.bytes
    simp only [List.append_assoc]
  have hbytes' : before ++ instr.bytes ++ after
      = before ++ bigEndian 4 (packed instr.opcode instr.ra.toNat instr.rb.toNat instr.rc.toNat)
        ++ instr.operand.bytes ++ after := by
    unfold Instr.bytes
    simp only [List.append_assoc]
  rw [← hbytes] at hword
  rw [← hbytes'] at hoperand
  unfold instrAt
  rw [hword]
  show (Opcode.ofByte (decode (BitVec.ofNat 32 _)).opcode >>= _) = _
  rw [decode_packed instr.opcode instr.ra.isLt instr.rb.isLt instr.rc.isLt, Opcode.ofByte_toByte]
  show (operandAt _ (before.length + 4) instr.opcode >>= _) = _
  rw [hoperand]
  show some (Instr.mk _ _ _ _ _) = _
  rw [BitVec.ofNat_toNat, BitVec.ofNat_toNat, BitVec.ofNat_toNat, BitVec.setWidth_eq,
    BitVec.setWidth_eq, BitVec.setWidth_eq]

/-- **Reading back a list of instructions** that ends the image. -/
theorem instrsFrom_bytes (instrs : List Instr) :
    ∀ (before : List Byte) (rounds : Nat),
      (∀ instr ∈ instrs, instr.operand.Fits instr.opcode) → instrs.length ≤ rounds →
      instrsFrom (before ++ instrs.flatMap Instr.bytes) rounds before.length = some instrs := by
  -- on the instructions still to be read; `before` holds the bytes of those read
  induction instrs with
  | nil =>
      intro before rounds _ _
      rw [List.flatMap_nil, List.append_nil]
      unfold instrsFrom
      rw [if_pos rfl]
  | cons instr instrs ih =>
      intro before rounds hfits hrounds
      have hfit := hfits instr List.mem_cons_self
      have hwidth := Instr.length_bytes hfit
      obtain ⟨rounds, rfl⟩ : ∃ n, rounds = n + 1 :=
        ⟨rounds - 1, by rw [List.length_cons] at hrounds; omega⟩
      have hread := instrAt_bytes before (instrs.flatMap Instr.bytes) hfit
      have hrest := ih (before ++ instr.bytes) rounds
        (fun instr' hmem => hfits instr' (List.mem_cons_of_mem _ hmem))
        (by rw [List.length_cons] at hrounds; omega)
      rw [List.length_append, hwidth] at hrest
      have hpos : 4 ≤ instr.opcode.width := by
        cases instr.opcode <;> decide
      rw [List.flatMap_cons, ← List.append_assoc]
      unfold instrsFrom
      rw [if_neg (by rw [List.length_append, List.length_append, hwidth]; omega), hread]
      show (instrsFrom _ rounds _ >>= _) = _
      rw [hrest]
      rfl

end SproutLang
