/-
  SproutLang.VM.IntArithmetic
  ───────────────────────────
  **WHEN INTEGER ARITHMETIC IS DEFINED** (`src/vm/execution.h`).

  The four operators unbox two 48-bit integers and compute in `int64_t`,
  where an overflow and a division by zero are undefined.  Sums, differences
  and quotients of such operands always fit; a product fits up to half the
  widths, and nothing looks at a divisor before it divides:

    • `stays_defined_iff` — the instruction stays defined exactly when its
      operands pass the test `OperandsFit`.
-/
import SproutLang.Library.CheckedInt
import SproutLang.VM.Effects
import SproutLang.VM.Loader

namespace SproutLang

open Library

/-! ## §1. The expression and the instruction. -/

/-- The four functions of `execution.h`. -/
def arithOp : Arith → Byte → Word → Word → Exec Unit
  | .add => add
  | .sub => sub
  | .mul => mul
  | .div => div

/-- All four are `arithmetic`, on one operator of the unit and one expression. -/
theorem arithOp_eq (op : Arith) :
    ∃ iop : Int → Int → Exec Word, ∀ dst a b, arithOp op dst a b = arithmetic op iop dst a b := by
  cases op with
  | add => exact ⟨fun da db => return BitVec.ofInt 64 (da + db), fun _ _ _ => rfl⟩
  | sub => exact ⟨fun da db => return BitVec.ofInt 64 (da - db), fun _ _ _ => rfl⟩
  | mul => exact ⟨fun da db => return BitVec.ofInt 64 (da * db), fun _ _ _ => rfl⟩
  | div =>
      exact ⟨fun da db => do
        if db = 0 then throw .undefinedBehaviour
        return BitVec.ofInt 64 (Int.tdiv da db), fun _ _ _ => rfl⟩

/-- The value of the expression each of them evaluates on two integers. -/
def intValue : Arith → Int → Int → Int
  | .add, da, db => da + db
  | .sub, da, db => da - db
  | .mul, da, db => da * db
  | .div, da, db => Int.tdiv da db

/-- That expression in `int64_t`; `none` where it is undefined. -/
def intExpr (op : Arith) (da db : Int) : Option Int :=
  if op = .div ∧ db = 0 then none else checked 64 (intValue op da db)

/-- The instruction threw and left its destination alone, or it boxed the
value of an expression that is defined. -/
def StaysDefined (op : Arith) (dst : Byte) (a b : Word) (vm : VM) : Prop :=
  (∃ what vm', arithOp op dst a b vm = .error (.runtimeError what) vm' ∧
    vm'.reg dst = vm.reg dst) ∨
  SignedRange 64 (decodeInt a) ∧ SignedRange 64 (decodeInt b) ∧
    ∃ res, intExpr op (decodeInt a) (decodeInt b) = some res ∧
      arithOp op dst a b vm = .ok () (vm.setReg dst (encodeInt (BitVec.ofInt 64 res)))

/-- The test on the operands that no instruction makes. -/
def OperandsFit : Arith → Int → Int → Prop
  | .add, _, _ => True
  | .sub, _, _ => True
  | .mul, da, db => ProductFits 64 da db
  | .div, _, db => db ≠ 0

instance (op : Arith) (da db : Int) : Decidable (OperandsFit op da db) :=
  match op with
  | .add => inferInstanceAs (Decidable True)
  | .sub => inferInstanceAs (Decidable True)
  | .mul => inferInstanceAs (Decidable (ProductFits 64 da db))
  | .div => inferInstanceAs (Decidable (db ≠ 0))

/-! ## §2. Unboxed operands are short. -/

/-- An integer of a word is in range. -/
theorem decodeInt_signedRange (num : Word) : SignedRange (47 + 1) (decodeInt num) :=
  decodeInt_range num

/-- Only a product can leave the range of `int64_t`. -/
theorem intValue_signedRange (op : Arith) (a b : Word) (hmul : op ≠ .mul) :
    SignedRange 64 (intValue op (decodeInt a) (decodeInt b)) := by
  have ha := decodeInt_signedRange a
  have hb := decodeInt_signedRange b
  have hshort : 47 + 2 ≤ 64 := by decide
  cases op with
  | add => exact (ha.add hb).mono hshort
  | sub => exact (ha.sub hb).mono hshort
  | mul => exact absurd rfl hmul
  | div => exact ha.tdiv.mono hshort

/-- The expression is defined on the operands that pass the test. -/
theorem intExpr_eq_some_iff (op : Arith) (a b : Word) :
    intExpr op (decodeInt a) (decodeInt b) = some (intValue op (decodeInt a) (decodeInt b)) ↔
      OperandsFit op (decodeInt a) (decodeInt b) := by
  unfold intExpr
  cases op with
  | add =>
      rw [if_neg (by simp), checked_eq_some_iff]
      exact ⟨fun _ => trivial, fun _ => ⟨intValue_signedRange .add a b (by simp), rfl⟩⟩
  | sub =>
      rw [if_neg (by simp), checked_eq_some_iff]
      exact ⟨fun _ => trivial, fun _ => ⟨intValue_signedRange .sub a b (by simp), rfl⟩⟩
  | mul =>
      -- the one operator whose value may be too large
      rw [if_neg (by simp), checked_eq_some_iff]
      show SignedRange 64 (decodeInt a * decodeInt b) ∧ _ ↔ ProductFits 64 _ _
      rw [signedRange_mul_iff]
      exact and_iff_left rfl
  | div =>
      show _ ↔ decodeInt b ≠ 0
      by_cases hzero : decodeInt b = 0
      · rw [if_pos ⟨rfl, hzero⟩]
        simp [hzero]
      · rw [if_neg (by simp [hzero]), checked_eq_some_iff]
        exact ⟨fun _ => hzero, fun _ => ⟨intValue_signedRange .div a b (by simp), rfl⟩⟩

/-- A defined expression has the value of the operator. -/
theorem intExpr_eq_some {op : Arith} {da db res : Int} (h : intExpr op da db = some res) :
    res = intValue op da db := by
  unfold intExpr at h
  split at h
  · cases h
  · exact (checked_eq_some_iff.1 h).2.symm

/-! ## §3. The instruction. -/

section Instruction

variable (op : Arith) (dst : Byte) {a b : Word} (vm : VM)

/-- No pair of integers makes an instruction throw. -/
theorem arithOp_int (ha : isInt a = true) (hb : isInt b = true) :
    arithOp op dst a b vm =
      if op = .div ∧ decodeInt b = 0 then .error .undefinedBehaviour vm
      else .ok () (vm.setReg dst
        (encodeInt (BitVec.ofInt 64 (intValue op (decodeInt a) (decodeInt b))))) := by
  have hdouble : isDouble a = false := by
    unfold isInt at ha
    simpa using (Bool.and_eq_true_iff.1 ha).1
  -- with two integers the double branch is not taken
  have hpick : ∀ iop : Int → Int → Exec Word, arithmetic op iop dst a b vm =
      (iop (decodeInt a) (decodeInt b) >>= fun res => setReg dst (encodeInt res)) vm := by
    intro iop
    rw [arithmetic_eq, if_neg (by simp [hdouble]), if_pos (by simp [ha, hb])]
  cases op with
  | add =>
      rw [if_neg (fun h => nomatch h.1)]
      exact hpick fun da db => return BitVec.ofInt 64 (da + db)
  | sub =>
      rw [if_neg (fun h => nomatch h.1)]
      exact hpick fun da db => return BitVec.ofInt 64 (da - db)
  | mul =>
      rw [if_neg (fun h => nomatch h.1)]
      exact hpick fun da db => return BitVec.ofInt 64 (da * db)
  -- only `div` looks at its second operand
  | div =>
      by_cases hzero : decodeInt b = 0
      · rw [if_pos ⟨rfl, hzero⟩]
        show div dst a b vm = _
        unfold div
        rw [hpick]
        simp only [if_pos hzero]
        rfl
      · rw [if_neg (fun h => hzero h.2)]
        show div dst a b vm = _
        unfold div
        rw [hpick]
        simp only [if_neg hzero]
        rfl

/-- Operands that pass the test keep the instruction defined. -/
theorem staysDefined_of_fit (ha : isInt a = true) (hb : isInt b = true)
    (hfit : OperandsFit op (decodeInt a) (decodeInt b)) : StaysDefined op dst a b vm := by
  have hexpr := (intExpr_eq_some_iff op a b).2 hfit
  have hdiv : ¬(op = .div ∧ decodeInt b = 0) := by
    intro hbad
    obtain ⟨rfl, hzero⟩ := hbad
    exact hfit hzero
  refine Or.inr ⟨(decodeInt_signedRange a).mono (by decide),
    (decodeInt_signedRange b).mono (by decide), _, hexpr, ?_⟩
  rw [arithOp_int op dst vm ha hb, if_neg hdiv]

/-- No other operands do. -/
theorem fit_of_staysDefined (ha : isInt a = true) (hb : isInt b = true)
    (h : StaysDefined op dst a b vm) : OperandsFit op (decodeInt a) (decodeInt b) := by
  rcases h with ⟨what, vm', hthrow, _⟩ | ⟨_, _, res, hres, _⟩
  · -- a throw: impossible, since both words are integers
    rw [arithOp_int op dst vm ha hb] at hthrow
    split at hthrow
    · cases hthrow
    · cases hthrow
  · have hvalue := intExpr_eq_some hres
    subst hvalue
    exact (intExpr_eq_some_iff op a b).1 hres

/-- **An instruction on two integers stays defined exactly when its operands
pass the test**: no divisor zero, and no product past `int64_t`. -/
theorem stays_defined_iff (ha : isInt a = true) (hb : isInt b = true) :
    StaysDefined op dst a b vm ↔ OperandsFit op (decodeInt a) (decodeInt b) :=
  ⟨fit_of_staysDefined op dst vm ha hb, staysDefined_of_fit op dst vm ha hb⟩

end Instruction

/-- `6 / 3` is defined, and so are two products next to the bounds of
`int64_t`. -/
theorem stays_defined_quotient :
    StaysDefined .div 0 (encodeInt 6) (encodeInt 3) (VM.booted fun _ => 0) ∧
    StaysDefined .mul 0 (encodeInt 0x400000000000) (encodeInt 0x1FFFF) (VM.booted fun _ => 0) ∧
    StaysDefined .mul 0 (encodeInt 0x400000000000) (encodeInt (-0x20000)) (VM.booted fun _ => 0) :=
  ⟨(stays_defined_iff .div 0 (VM.booted fun _ => 0) (a := encodeInt 6) (b := encodeInt 3)
      (by decide) (by decide)).2 (by decide),
    (stays_defined_iff .mul 0 (VM.booted fun _ => 0) (isInt_encodeInt _) (isInt_encodeInt _)).2
      (by decide),
    (stays_defined_iff .mul 0 (VM.booted fun _ => 0) (isInt_encodeInt _) (isInt_encodeInt _)).2
      (by decide)⟩

/-- **A division by zero is undefined, and so is the square of `2^46`.** -/
theorem int_arithmetic_undefined :
    ¬ StaysDefined .div 0 (encodeInt 1) (encodeInt 0) (VM.booted fun _ => 0) ∧
    ¬ StaysDefined .mul 0 (encodeInt 0x400000000000) (encodeInt 0x400000000000) (VM.booted fun _ => 0) := by
  constructor
  · intro h
    exact fit_of_staysDefined .div 0 _ (isInt_encodeInt _) (isInt_encodeInt _) h (by decide)
  · intro h
    have hfit := fit_of_staysDefined .mul 0 _ (isInt_encodeInt _) (isInt_encodeInt _) h
    exact absurd hfit (by decide)

end SproutLang
