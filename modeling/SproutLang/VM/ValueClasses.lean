/-
  SproutLang.VM.ValueClasses
  ──────────────────────────
  **THE CLASSES OF BOXED VALUES** (`src/shared/values.h`).

  `Boxable` is everything a register may be given: a bit pattern that double
  arithmetic delivers, an integer of 48 bits, an address, a bool or six
  bytes.  Each is boxed by its encoder, tested by five predicates and read
  back by its decoder.  `isDouble` takes every pattern with all exponent bits
  set for a NaN box, the two infinities and the quiet NaNs among them:

    • `Boxable.faithful_iff`   — a value is boxed faithfully exactly when it
      is not one of these,
    • `special_unrecognised`   — which no predicate recognises,
    • `value_classes_faithful` — and which the next instruction refuses.
-/
import SproutLang.VM.IntArithmetic

namespace SproutLang

open Library

/-! ## §1. The predicates. -/

/-- The classes with a predicate. -/
inductive ValueClass where
  | double | int | pointer | bool | char6
  deriving DecidableEq, Repr

/-- The predicate of a class. -/
def ValueClass.accepts : ValueClass → Word → Bool
  | .double => isDouble
  | .int => isInt
  | .pointer => isPointer
  | .bool => isBool
  | .char6 => isChar6

/-- The tag of a class; that of the doubles is never looked at. -/
def ValueClass.tag : ValueClass → Word
  | .double => TAG_DOUBLE
  | .int => TAG_INT48
  | .pointer => TAG_POINTER
  | .bool => TAG_BOOL
  | .char6 => TAG_CHAR6

/-- Not all exponent bits set: the pattern of a finite double. -/
def IsFinite (w : Word) : Prop := w.toNat / 2 ^ 52 % 2 ^ 11 ≠ 2047

instance (w : Word) : Decidable (IsFinite w) := inferInstanceAs (Decidable (_ ≠ _))

/-- The doubles are the finite words. -/
theorem ValueClass.accepts_double (w : Word) :
    ValueClass.double.accepts w = true ↔ IsFinite w :=
  isDouble_iff w

/-- The other classes are told apart by the tag nibble of a word that is not
finite. -/
theorem ValueClass.accepts_tagged {k : ValueClass} (hk : k ≠ .double) (w : Word) :
    k.accepts w = true ↔ ¬ IsFinite w ∧ w.toNat / 2 ^ 48 % 2 ^ 4 = k.tag.toNat := by
  have htagged := tagged_iff w k.tag
  unfold IsFinite
  rw [not_not]
  cases k with
  | double => exact absurd rfl hk
  | int => exact htagged
  | pointer => exact htagged
  | bool => exact htagged
  | char6 => exact htagged

/-- The classes have different tags. -/
theorem ValueClass.tag_injective {k k' : ValueClass} (h : k.tag.toNat = k'.tag.toNat) :
    k = k' := by
  cases k <;> cases k' <;> first | rfl | exact absurd h (by decide)

/-- **A boxed word is in the class of its tag and in no other.** -/
theorem ValueClass.accepts_box {k : ValueClass} (hk : k ≠ .double) {p : Word}
    (hp : p.toNat < 2 ^ 48) (k' : ValueClass) :
    k'.accepts (NAN_BASE ||| (k.tag <<< 48) ||| p) = true ↔ k' = k := by
  have htag : k.tag.toNat < 2 ^ 4 := by cases k <;> decide
  have hw := toNat_box k.tag p htag hp
  have hspecial : ¬ IsFinite (NAN_BASE ||| (k.tag <<< 48) ||| p) := by
    unfold IsFinite
    omega
  have hnibble : (NAN_BASE ||| (k.tag <<< 48) ||| p).toNat / 2 ^ 48 % 2 ^ 4 = k.tag.toNat := by
    omega
  by_cases hk' : k' = .double
  · rw [hk', ValueClass.accepts_double]
    exact ⟨fun h => absurd h hspecial, fun h => absurd h.symm hk⟩
  · rw [ValueClass.accepts_tagged hk', hnibble]
    constructor
    · intro h
      exact (ValueClass.tag_injective h.2).symm
    · intro h
      exact ⟨hspecial, by rw [h]⟩

/-! ## §2. The values. -/

/-- A value with the range its encoder is made for. -/
inductive Boxable where
  | double (d : Word) (ieee : IsIeeeResult d)
  | int (n : Int) (range : -2 ^ 47 ≤ n ∧ n < 2 ^ 47)
  | pointer (a : Nat) (lt : a < 2 ^ 48)
  | bool (b : Bool)
  | char6 (c : Char6)

namespace Boxable

/-- The encoder of the value's class. -/
def encode : Boxable → Word
  | double d _ => encodeDouble d
  | int n _ => encodeInt (BitVec.ofInt 64 n)
  | pointer a _ => encodePointer (BitVec.ofNat 64 a)
  | bool b => encodeBool b
  | char6 c => encodeChar6 c

/-- The class of a value. -/
def valueClass : Boxable → ValueClass
  | double _ _ => .double
  | int _ _ => .int
  | pointer _ _ => .pointer
  | bool _ => .bool
  | char6 _ => .char6

/-- The decoder of its class gives the value. -/
def DecodedFrom (w : Word) : Boxable → Prop
  | double d _ => decodeDouble w = d
  | int n _ => decodeInt w = n
  | pointer a _ => decodePointer w = a
  | bool b => decodeBool w = b
  | char6 c => decodeChar6 w = c

/-- Its own predicate recognises the boxed value, no other one does, and its
decoder gives the value back. -/
def Faithful (v : Boxable) : Prop :=
  (∀ k : ValueClass, k.accepts v.encode = true ↔ k = v.valueClass) ∧ v.DecodedFrom v.encode

/-- An infinity or a quiet NaN. -/
def Special : Boxable → Prop
  | double d _ => ¬ IsFinite d
  | _ => False

/-- Every decoder undoes its encoder. -/
theorem decodedFrom_encode (v : Boxable) : v.DecodedFrom v.encode := by
  cases v with
  | double d _ => exact rfl
  | int n range => exact decodeInt_encodeInt_of_range range.1 range.2
  | pointer a lt => exact decodePointer_encodePointer lt
  | bool b => cases b <;> rfl
  | char6 c => exact decodeChar6_encodeChar6 c

/-- A tagged value is in its class alone. -/
theorem accepts_encode {v : Boxable} (hv : v.valueClass ≠ .double) (k : ValueClass) :
    k.accepts v.encode = true ↔ k = v.valueClass := by
  -- every constructor but the first boxes a payload of 48 bits
  cases v with
  | double d _ => exact absurd rfl hv
  | int n _ =>
      have hp : (BitVec.ofInt 64 n &&& NAN_PAYLOAD).toNat < 2 ^ 48 := by
        rw [toNat_and_payload]
        omega
      exact ValueClass.accepts_box (k := .int) hv hp k
  | pointer a _ =>
      have hp : (BitVec.ofNat 64 a &&& NAN_PAYLOAD).toNat < 2 ^ 48 := by
        rw [toNat_and_payload]
        omega
      exact ValueClass.accepts_box (k := .pointer) hv hp k
  | bool b =>
      have hp : (if b then 1 else 0 : Word).toNat < 2 ^ 48 := by cases b <;> decide
      exact ValueClass.accepts_box (k := .bool) hv hp k
  | char6 c =>
      have hp : (c.toWord &&& NAN_PAYLOAD).toNat < 2 ^ 48 := by
        rw [toNat_and_payload]
        omega
      exact ValueClass.accepts_box (k := .char6) hv hp k

/-- A double is in no class but its own. -/
theorem accepts_double_encode {d : Word} (hd : IsFinite d) (k : ValueClass) :
    k.accepts (encodeDouble d) = true ↔ k = .double := by
  by_cases hk : k = .double
  · rw [hk]
    exact ⟨fun _ => rfl, fun _ => (ValueClass.accepts_double d).2 hd⟩
  · rw [ValueClass.accepts_tagged hk]
    exact ⟨fun h => absurd hd h.1, fun h => absurd h hk⟩

/-- **A value is boxed faithfully exactly when it is neither an infinity nor
a NaN.** -/
theorem faithful_iff (v : Boxable) : v.Faithful ↔ ¬ v.Special := by
  constructor
  · intro h hspecial
    cases v with
    | double d _ =>
        have hdouble := (h.1 .double).2 rfl
        exact hspecial ((ValueClass.accepts_double d).1 hdouble)
    | int n _ => exact hspecial
    | pointer a _ => exact hspecial
    | bool b => exact hspecial
    | char6 c => exact hspecial
  · intro h
    refine ⟨fun k => ?_, v.decodedFrom_encode⟩
    by_cases hv : v.valueClass = .double
    · cases v with
      | double d _ => exact accepts_double_encode (not_not.1 h) k
      | int n _ => cases hv
      | pointer a _ => cases hv
      | bool b => cases hv
      | char6 c => cases hv
    · exact accepts_encode hv k

end Boxable

/-- The tags stay clear of the infinities and the quiet NaNs: no predicate at
all recognises one. -/
theorem special_unrecognised {d : Word} (hieee : IsIeeeResult d) (hd : ¬ IsFinite d)
    (k : ValueClass) : k.accepts (encodeDouble d) = false := by
  rw [Bool.eq_false_iff, ne_eq]
  by_cases hk : k = .double
  · rw [hk, ValueClass.accepts_double]
    exact hd
  · rw [ValueClass.accepts_tagged hk]
    intro h
    -- an infinity has nibble 0, a quiet NaN one from 8 on
    have htag : 1 ≤ k.tag.toNat ∧ k.tag.toNat ≤ 4 := by
      cases k <;> first | exact absurd rfl hk | decide
    have hnibble : d.toNat / 2 ^ 48 % 2 ^ 4 = k.tag.toNat := h.2
    unfold IsIeeeResult at hieee
    unfold IsFinite at hd
    omega

/-! ## §3. The results of the double instructions. -/

/-- Two doubles give the word of the unit, whatever it is. -/
theorem arithOp_double (op : Arith) (dst : Byte) {a b : Word} (vm : VM)
    (ha : isDouble a = true) (hb : isDouble b = true) :
    arithOp op dst a b vm = .ok () (vm.setReg dst (vm.fpu.arith op a b)) := by
  obtain ⟨iop, hop⟩ := arithOp_eq op
  rw [hop, arithmetic_eq, if_pos (by simp [ha, hb])]

/-- The result of an instruction on two doubles is an operand again exactly
when it is finite. -/
theorem result_accepted_iff (op : Arith) (dst : Byte) {a b : Word} (vm : VM)
    (ha : isDouble a = true) (hb : isDouble b = true) :
    ∃ vm', arithOp op dst a b vm = .ok () vm' ∧
      (isDouble (vm'.reg dst) = true ↔ IsFinite (vm.fpu.arith op a b)) := by
  refine ⟨_, arithOp_double op dst vm ha hb, ?_⟩
  rw [VM.setReg_self]
  exact isDouble_iff _

/-- **The classes are faithful on everything but the infinities and the
NaNs**, integers outside the range are reduced to it, and a double result is
an operand again unless it is one of these. -/
theorem value_classes_faithful (v : Boxable) (n : Int) (op : Arith) (dst : Byte) {a b : Word}
    (vm : VM) (ha : isDouble a = true) (hb : isDouble b = true) :
    (v.Faithful ↔ ¬ v.Special) ∧
    decodeInt (encodeInt (BitVec.ofInt 64 n)) = Int.bmod n (2 ^ 48) ∧
    ∃ vm', arithOp op dst a b vm = .ok () vm' ∧
      (isDouble (vm'.reg dst) = true ↔ IsFinite (vm.fpu.arith op a b)) :=
  ⟨v.faithful_iff, decodeInt_encodeInt n, result_accepted_iff op dst vm ha hb⟩

/-- The least integer, the first one outside the range, and `0.0 / 0.0`. -/
theorem value_classes_faithful_least :
    ((Boxable.int (-2 ^ 47) (by decide)).Faithful ↔ ¬ False) ∧
    decodeInt (encodeInt (BitVec.ofInt 64 (2 ^ 47))) = Int.bmod (2 ^ 47) (2 ^ 48) ∧
    ∃ vm', arithOp .div 0 0 0 (VM.booted fun _ => 0) = .ok () vm' ∧
      (isDouble (vm'.reg 0) = true ↔ IsFinite (Fpu.quiet.arith .div 0 0)) :=
  value_classes_faithful (.int (-2 ^ 47) (by decide)) (2 ^ 47) .div 0 (VM.booted fun _ => 0) rfl rfl

/-- **Infinity is not recognised as a double**, and neither is the quiet NaN
that `0.0 / 0.0` leaves in a register. -/
theorem infinity_unfaithful :
    ¬ (Boxable.double 0x7FF0000000000000 (by decide)).Faithful ∧
    ∃ vm', arithOp .div 0 0 0 (VM.booted fun _ => 0) = .ok () vm' ∧
      isDouble (vm'.reg 0) = false := by
  constructor
  · intro h
    have hdouble := (h.1 .double).2 rfl
    exact absurd hdouble (by decide)
  · exact ⟨_, arithOp_double .div 0 _ rfl rfl, by rw [VM.setReg_self]; decide⟩

end SproutLang
