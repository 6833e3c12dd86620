/-
  SproutLang.Shared.Values
  ────────────────────────
  **NaN-BOXED VALUES** (`src/shared/values.h`).

  A register holds one 64-bit word.  All exponent bits set marks a boxed
  value: bits 51–48 are its tag and bits 47–0 its payload; the sign bit is
  looked at by nobody.  Every predicate and decoder is first written with
  the source's masks and then read as arithmetic on the word's number
  (`isPointer_iff`, `decodeInt_eq`, …), which is what later proofs use.
-/
import SproutLang.Library.Fields
import Mathlib.Data.Int.ModEq

namespace SproutLang

open Library

/-- A register word. -/
abbrev Word := BitVec 64

/-- A byte. -/
abbrev Byte := BitVec 8

/-! ## §1. The definitions of `values.h`. -/

/-- The exponent bits, set in every boxed word. -/
def NAN_BASE : Word := 0x7FF0000000000000

/-- The 48 bits of the payload. -/
def NAN_PAYLOAD : Word := 0x0000FFFFFFFFFFFF

/-- Tag of a double, never looked at. -/
def TAG_DOUBLE : Word := 0

/-- Tag of a 48-bit integer. -/
def TAG_INT48 : Word := 1

/-- Tag of a pointer. -/
def TAG_POINTER : Word := 2

/-- Tag of a boolean. -/
def TAG_BOOL : Word := 3

/-- Tag of six bytes. -/
def TAG_CHAR6 : Word := 4

/-- Tag of `null`. -/
def TAG_NULL : Word := 5

/-- Six characters of one byte each. -/
structure Char6 where
  a : Byte
  b : Byte
  c : Byte
  d : Byte
  e : Byte
  f : Byte
  deriving DecidableEq, Repr

/-- All exponent bits set means a boxed value (or an infinity or a NaN). -/
def isDouble (v : Word) : Bool := (v &&& NAN_BASE) != NAN_BASE

/-- The tag, above the payload. -/
def getTag (v : Word) : Word := (v >>> 48) &&& 0xF

/-- A boxed integer. -/
def isInt (v : Word) : Bool := !isDouble v && getTag v == TAG_INT48

/-- A boxed pointer. -/
def isPointer (v : Word) : Bool := !isDouble v && getTag v == TAG_POINTER

/-- A boxed boolean. -/
def isBool (v : Word) : Bool := !isDouble v && getTag v == TAG_BOOL

/-- Six boxed bytes. -/
def isChar6 (v : Word) : Bool := !isDouble v && getTag v == TAG_CHAR6

/-- `memcpy` to a `double`; a double is named by its 64-bit pattern. -/
def decodeDouble (reg : Word) : Word := reg

/-- A double is its own word. -/
def encodeDouble (d : Word) : Word := d

/-- The low 48 bits of an integer are boxed. -/
def encodeInt (reg : Word) : Word := NAN_BASE ||| (TAG_INT48 <<< 48) ||| (reg &&& NAN_PAYLOAD)

/-- The payload with bit 47 copied into the sixteen bits above it. -/
def decodeInt (num : Word) : Int :=
  let enc := num &&& NAN_PAYLOAD
  let enc := if enc &&& (1 <<< 47) ≠ 0 then enc ||| 0xFFFF000000000000 else enc
  enc.toInt

/-- The low 48 bits of an address are boxed. -/
def encodePointer (v : Word) : Word :=
  NAN_BASE ||| (TAG_POINTER <<< 48) ||| (v &&& NAN_PAYLOAD)

/-- The address a pointer word names. -/
def decodePointer (r : Word) : Nat := (r &&& NAN_PAYLOAD).toNat

/-- A boolean is boxed. -/
def encodeBool (b : Bool) : Word := NAN_BASE ||| (TAG_BOOL <<< 48) ||| (if b then 1 else 0)

/-- The lowest bit. -/
def decodeBool (r : Word) : Bool := (r &&& 1) != 0

/-- `memcpy` of the six characters to the low bytes of a zero word. -/
def Char6.toWord (c : Char6) : Word :=
  (c.f ++ c.e ++ c.d ++ c.c ++ c.b ++ c.a : BitVec 48).setWidth 64

/-- Six bytes are boxed, the first one lowest. -/
def encodeChar6 (c : Char6) : Word :=
  NAN_BASE ||| (TAG_CHAR6 <<< 48) ||| (c.toWord &&& NAN_PAYLOAD)

/-- The six bytes of the payload. -/
def decodeChar6 (r : Word) : Char6 :=
  let v := r &&& NAN_PAYLOAD
  { a := v.extractLsb' 0 8
    b := v.extractLsb' 8 8
    c := v.extractLsb' 16 8
    d := v.extractLsb' 24 8
    e := v.extractLsb' 32 8
    f := v.extractLsb' 40 8 }

/-! ## §2. The fields of a word as numbers. -/

/-- The payload is the lowest 48 bits. -/
theorem toNat_and_payload (v : Word) : (v &&& NAN_PAYLOAD).toNat = v.toNat % 2 ^ 48 := by
  rw [BitVec.toNat_and]
  exact Nat.and_two_pow_sub_one_eq_mod v.toNat 48

theorem toNat_and_base (v : Word) :
    (v &&& NAN_BASE).toNat = v.toNat / 2 ^ 52 % 2 ^ 11 * 2 ^ 52 := by
  rw [BitVec.toNat_and]
  exact and_field v.toNat 52 11

/-- The tag is the four bits above them. -/
theorem toNat_getTag (v : Word) : (getTag v).toNat = v.toNat / 2 ^ 48 % 2 ^ 4 := by
  unfold getTag
  rw [BitVec.toNat_and, BitVec.toNat_ushiftRight, Nat.shiftRight_eq_div_pow]
  exact Nat.and_two_pow_sub_one_eq_mod _ 4

/-- A double is a word whose exponent bits are not all set. -/
theorem isDouble_iff (v : Word) : isDouble v = true ↔ v.toNat / 2 ^ 52 % 2 ^ 11 ≠ 2047 := by
  unfold isDouble
  rw [bne_iff_ne, ne_eq, ← BitVec.toNat_inj, toNat_and_base,
    show NAN_BASE.toNat = 2047 * 2 ^ 52 from by decide]
  omega

/-- A predicate looks at the exponent and the tag. -/
theorem tagged_iff (v tag : Word) :
    (!isDouble v && getTag v == tag) = true ↔
      v.toNat / 2 ^ 52 % 2 ^ 11 = 2047 ∧ v.toNat / 2 ^ 48 % 2 ^ 4 = tag.toNat := by
  have hd := isDouble_iff v
  rw [Bool.and_eq_true, Bool.not_eq_true', beq_iff_eq, ← BitVec.toNat_inj, toNat_getTag,
    Bool.eq_false_iff, ne_eq, hd]
  omega

/-- A boxed integer has tag 1. -/
theorem isInt_iff (v : Word) :
    isInt v = true ↔ v.toNat / 2 ^ 52 % 2 ^ 11 = 2047 ∧ v.toNat / 2 ^ 48 % 2 ^ 4 = 1 :=
  tagged_iff v TAG_INT48

/-- A boxed pointer has tag 2. -/
theorem isPointer_iff (v : Word) :
    isPointer v = true ↔ v.toNat / 2 ^ 52 % 2 ^ 11 = 2047 ∧ v.toNat / 2 ^ 48 % 2 ^ 4 = 2 :=
  tagged_iff v TAG_POINTER

/-- A boxed boolean has tag 3. -/
theorem isBool_iff (v : Word) :
    isBool v = true ↔ v.toNat / 2 ^ 52 % 2 ^ 11 = 2047 ∧ v.toNat / 2 ^ 48 % 2 ^ 4 = 3 :=
  tagged_iff v TAG_BOOL

/-- A word of characters has tag 4. -/
theorem isChar6_iff (v : Word) :
    isChar6 v = true ↔ v.toNat / 2 ^ 52 % 2 ^ 11 = 2047 ∧ v.toNat / 2 ^ 48 % 2 ^ 4 = 4 :=
  tagged_iff v TAG_CHAR6

/-- The tag nibble alone settles the class: no word is boxed in two ways. -/
theorem isPointer_eq_false_of_isInt {v : Word} (h : isInt v = true) : isPointer v = false := by
  rw [isInt_iff] at h
  rw [Bool.eq_false_iff, ne_eq, isPointer_iff]
  omega

/-- A word whose top sixteen bits are below `0x7FF0` is a double. -/
theorem isPointer_eq_false_of_lt {v : Word} (h : v.toNat < 2 ^ 62) : isPointer v = false := by
  rw [Bool.eq_false_iff, ne_eq, isPointer_iff]
  omega

/-! ## §3. Boxing and unboxing. -/

/-- A boxed word: base, tag and a 48-bit payload. -/
theorem toNat_box (tag : Word) (p : Word) (ht : tag.toNat < 2 ^ 4)
    (hp : p.toNat < 2 ^ 48) :
    (NAN_BASE ||| (tag <<< 48) ||| p).toNat
      = 2047 * 2 ^ 52 + tag.toNat * 2 ^ 48 + p.toNat := by
  rw [BitVec.toNat_or, BitVec.toNat_or, BitVec.toNat_shiftLeft, Nat.shiftLeft_eq,
    show NAN_BASE.toNat = 2047 * 2 ^ 52 from by decide, Nat.mod_eq_of_lt (by omega),
    or_shifted 2047 (by omega)]
  rw [show 2047 * 2 ^ 52 + tag.toNat * 2 ^ 48 = (2047 * 2 ^ 4 + tag.toNat) * 2 ^ 48 from by ring,
    or_shifted _ hp]

/-- A boxed address as a sum. -/
theorem toNat_encodePointer (v : Word) :
    (encodePointer v).toNat = 2047 * 2 ^ 52 + 2 * 2 ^ 48 + v.toNat % 2 ^ 48 := by
  unfold encodePointer
  rw [toNat_box _ _ (by decide) (by rw [toNat_and_payload]; omega), toNat_and_payload]
  rfl

/-- A boxed address is a pointer. -/
theorem isPointer_encodePointer (v : Word) : isPointer (encodePointer v) = true := by
  rw [isPointer_iff, toNat_encodePointer]
  omega

theorem decodePointer_eq (r : Word) : decodePointer r = r.toNat % 2 ^ 48 :=
  toNat_and_payload r

/-- A decoded address has 48 bits. -/
theorem decodePointer_lt (r : Word) : decodePointer r < 2 ^ 48 := by
  rw [decodePointer_eq]
  omega

/-- **An address below `2^48` survives boxing.** -/
theorem decodePointer_encodePointer {a : Nat} (h : a < 2 ^ 48) :
    decodePointer (encodePointer (BitVec.ofNat 64 a)) = a := by
  rw [decodePointer_eq, toNat_encodePointer, BitVec.toNat_ofNat]
  omega

/-- Different addresses are boxed differently. -/
theorem encodePointer_inj {a b : Nat} (ha : a < 2 ^ 48) (hb : b < 2 ^ 48)
    (h : encodePointer (BitVec.ofNat 64 a) = encodePointer (BitVec.ofNat 64 b)) : a = b := by
  rw [← decodePointer_encodePointer ha, h, decodePointer_encodePointer hb]

/-- The six characters are the low bytes, the first one lowest. -/
theorem Char6.toNat_toWord (c : Char6) : c.toWord.toNat =
    c.a.toNat + c.b.toNat * 2 ^ 8 + c.c.toNat * 2 ^ 16 + c.d.toNat * 2 ^ 24
      + c.e.toNat * 2 ^ 32 + c.f.toNat * 2 ^ 40 := by
  unfold Char6.toWord
  rw [BitVec.toNat_setWidth]
  simp only [toNat_append_add]
  omega

/-- Boxed characters as a sum. -/
theorem toNat_encodeChar6 (c : Char6) :
    (encodeChar6 c).toNat = 2047 * 2 ^ 52 + 4 * 2 ^ 48 + c.toWord.toNat := by
  have hlt : c.toWord.toNat < 2 ^ 48 := by
    have := c.toNat_toWord
    omega
  unfold encodeChar6
  rw [toNat_box _ _ (by decide) (by rw [toNat_and_payload]; omega), toNat_and_payload,
    Nat.mod_eq_of_lt hlt]
  rfl

/-- **Six bytes survive boxing.** -/
theorem decodeChar6_encodeChar6 (c : Char6) : decodeChar6 (encodeChar6 c) = c := by
  have hword := c.toNat_toWord
  have hpayload : (encodeChar6 c &&& NAN_PAYLOAD).toNat = c.toWord.toNat := by
    rw [toNat_and_payload, toNat_encodeChar6]
    omega
  have hbyte : ∀ (i : Nat) (b : Byte), c.toWord.toNat / 2 ^ i % 2 ^ 8 = b.toNat →
      (encodeChar6 c &&& NAN_PAYLOAD).extractLsb' i 8 = b := by
    intro i b hb
    apply BitVec.eq_of_toNat_eq
    rw [BitVec.extractLsb'_toNat, hpayload, Nat.shiftRight_eq_div_pow, hb]
  unfold decodeChar6
  simp only [hbyte 0 c.a (by omega), hbyte 8 c.b (by omega), hbyte 16 c.c (by omega),
    hbyte 24 c.d (by omega), hbyte 32 c.e (by omega), hbyte 40 c.f (by omega)]

/-- A boxed integer as a sum. -/
theorem toNat_encodeInt (v : Word) :
    (encodeInt v).toNat = 2047 * 2 ^ 52 + 2 ^ 48 + v.toNat % 2 ^ 48 := by
  unfold encodeInt
  rw [toNat_box _ _ (by decide) (by rw [toNat_and_payload]; omega), toNat_and_payload]
  rfl

/-- A boxed integer is an integer. -/
theorem isInt_encodeInt (v : Word) : isInt (encodeInt v) = true := by
  rw [isInt_iff, toNat_encodeInt]
  omega

/-- `decodeInt` is the payload's residue in `[-2^47, 2^47)`. -/
theorem decodeInt_eq (num : Word) : decodeInt num = Int.bmod num.toNat (2 ^ 48) := by
  have hp := toNat_and_payload num
  unfold decodeInt
  generalize hq : num &&& NAN_PAYLOAD = p at hp
  have hlt : p.toNat < 2 ^ 48 := by omega
  -- bit 47, as a number
  have hbit : (p &&& (1 <<< 47)).toNat = p.toNat / 2 ^ 47 % 2 * 2 ^ 47 := by
    rw [BitVec.toNat_and]
    exact and_field p.toNat 47 1
  rw [Int.bmod_def]
  -- clear or set: nothing is added, or sixteen ones on top
  by_cases hs : p.toNat / 2 ^ 47 % 2 = 0
  · have hz : p &&& (1 <<< 47) = 0 := by
      apply BitVec.eq_of_toNat_eq
      rw [hbit, hs]
      rfl
    simp only [hz, ne_eq, not_true_eq_false, if_false]
    rw [BitVec.toInt_eq_toNat_of_lt (by omega), if_pos (by omega)]
    omega
  · have hz : p &&& (1 <<< 47) ≠ 0 := by
      intro h
      have := congrArg BitVec.toNat h
      rw [hbit] at this
      simp at this
      omega
    have hor : (p ||| 0xFFFF000000000000).toNat = 0xFFFF * 2 ^ 48 + p.toNat := by
      rw [BitVec.toNat_or, Nat.or_comm]
      exact or_shifted 0xFFFF hlt
    simp only [hz, ne_eq, not_false_eq_true, if_true]
    rw [BitVec.toInt_eq_toNat_cond, if_neg (by omega), hor, if_neg (by omega)]
    omega

/-- A decoded integer has 48 bits. -/
theorem decodeInt_range (num : Word) : -2 ^ 47 ≤ decodeInt num ∧ decodeInt num < 2 ^ 47 := by
  rw [decodeInt_eq]
  have h1 := @Int.le_bmod num.toNat (2 ^ 48) (by decide)
  have h2 := @Int.bmod_lt num.toNat (2 ^ 48) (by decide)
  constructor <;> omega

/-- **Boxing an integer reduces it to signed 48 bits.** -/
theorem decodeInt_encodeInt (n : Int) :
    decodeInt (encodeInt (BitVec.ofInt 64 n)) = Int.bmod n (2 ^ 48) := by
  rw [decodeInt_eq, toNat_encodeInt, BitVec.toNat_ofInt, ← Int.emod_bmod n,
    ← Int.emod_bmod (Nat.cast _)]
  congr 1
  omega

/-- An integer of 48 bits survives boxing. -/
theorem decodeInt_encodeInt_of_range {n : Int} (hlo : -2 ^ 47 ≤ n) (hhi : n < 2 ^ 47) :
    decodeInt (encodeInt (BitVec.ofInt 64 n)) = n := by
  rw [decodeInt_encodeInt]
  exact Int.bmod_eq_of_le (by omega) (by omega)

end SproutLang
