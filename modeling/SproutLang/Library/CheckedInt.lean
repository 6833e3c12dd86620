/-
  SproutLang.Library.CheckedInt
  ─────────────────────────────
  **SIGNED ARITHMETIC THAT MAY OVERFLOW.**

  An expression over signed words of `bits` bits is defined as long as its
  value is in `SignedRange bits`; `checked` is that value, or nothing.  A sum
  and a quotient of short operands never leave the range; a product does
  unless the test by division passes (`signedRange_mul_iff`).
-/
import Mathlib.Algebra.Order.Ring.Int
import Mathlib.Tactic.Positivity
import Mathlib.Tactic.Ring

namespace SproutLang.Library

/-! ## §1. The range. -/

/-- The numbers a signed word of `bits` bits holds. -/
def SignedRange (bits : Nat) (n : Int) : Prop := -2 ^ (bits - 1) ≤ n ∧ n < 2 ^ (bits - 1)

instance (bits : Nat) (n : Int) : Decidable (SignedRange bits n) :=
  inferInstanceAs (Decidable (_ ∧ _))

/-- The value of an expression, where it is in range. -/
def checked (bits : Nat) (n : Int) : Option Int := if SignedRange bits n then some n else none

variable {bits : Nat} {a b n : Int}

/-- A checked number is in range and stays the same. -/
theorem checked_eq_some_iff {m : Int} : checked bits n = some m ↔ SignedRange bits n ∧ n = m := by
  unfold checked
  by_cases h : SignedRange bits n
  · simp [h]
  · simp [h]

/-- Up to `2^(bits-1) - 1` above zero. -/
theorem signedRange_natCast (m : Nat) :
    SignedRange bits (m : Int) ↔ m ≤ 2 ^ (bits - 1) - 1 := by
  have hpos : 0 < 2 ^ (bits - 1) := Nat.two_pow_pos _
  have hcast : ((2 ^ (bits - 1) : Nat) : Int) = 2 ^ (bits - 1) := by push_cast; rfl
  unfold SignedRange
  omega

/-- Down to `2^(bits-1)` below it. -/
theorem signedRange_neg_natCast (m : Nat) :
    SignedRange bits (-(m : Int)) ↔ m ≤ 2 ^ (bits - 1) := by
  have hpos : 0 < 2 ^ (bits - 1) := Nat.two_pow_pos _
  have hcast : ((2 ^ (bits - 1) : Nat) : Int) = 2 ^ (bits - 1) := by push_cast; rfl
  unfold SignedRange
  omega

/-! ## §2. Products. -/

/-- The largest magnitude a product of these signs may have. -/
def productBound (bits : Nat) (a b : Int) : Nat :=
  if 0 ≤ a ↔ 0 ≤ b then 2 ^ (bits - 1) - 1 else 2 ^ (bits - 1)

/-- The test by division that is made before a multiplication. -/
def ProductFits (bits : Nat) (a b : Int) : Prop :=
  b = 0 ∨ a.natAbs ≤ productBound bits a b / b.natAbs

instance (bits : Nat) (a b : Int) : Decidable (ProductFits bits a b) :=
  inferInstanceAs (Decidable (_ ∨ _))

/-- A product fits if the magnitudes multiply to no more than the bound. -/
theorem productFits_iff (hb : b ≠ 0) :
    ProductFits bits a b ↔ a.natAbs * b.natAbs ≤ productBound bits a b := by
  unfold ProductFits
  rw [Nat.le_div_iff_mul_le (Int.natAbs_pos.2 hb)]
  simp only [hb, false_or]

/-- **A product stays in range exactly when the test by division passes.** -/
theorem signedRange_mul_iff : SignedRange bits (a * b) ↔ ProductFits bits a b := by
  by_cases hb : b = 0
  · have hzero : SignedRange bits 0 := (signedRange_natCast 0).2 (Nat.zero_le _)
    rw [hb, mul_zero]
    exact ⟨fun _ => Or.inl rfl, fun _ => hzero⟩
  rw [productFits_iff hb]
  unfold productBound
  by_cases hsign : 0 ≤ a ↔ 0 ≤ b
  · -- equal signs: the product is the product of the magnitudes
    have hprod : a * b = ((a.natAbs * b.natAbs : Nat) : Int) := by
      push_cast
      by_cases ha : 0 ≤ a
      · rw [abs_of_nonneg ha, abs_of_nonneg (hsign.1 ha)]
      · rw [abs_of_neg (not_le.1 ha), abs_of_neg (by omega)]
        ring
    rw [if_pos hsign, hprod, signedRange_natCast]
  · -- different signs: it is the negative of that
    have hprod : a * b = -((a.natAbs * b.natAbs : Nat) : Int) := by
      push_cast
      by_cases ha : 0 ≤ a
      · rw [abs_of_nonneg ha, abs_of_neg (by omega)]
        ring
      · rw [abs_of_neg (not_le.1 ha), abs_of_nonneg (by omega)]
        ring
    rw [if_neg hsign, hprod, signedRange_neg_natCast]

/-! ## §3. Sums and quotients of short operands. -/

/-- A short number is a long one. -/
theorem SignedRange.mono {bits' : Nat} (h : SignedRange bits n) (hle : bits ≤ bits') :
    SignedRange bits' n := by
  have hpow : (2 : Int) ^ (bits - 1) ≤ 2 ^ (bits' - 1) :=
    pow_le_pow_right₀ (by decide) (by omega)
  unfold SignedRange at h ⊢
  omega

/-- A sum needs one bit more than its operands. -/
theorem SignedRange.add (ha : SignedRange (bits + 1) a) (hb : SignedRange (bits + 1) b) :
    SignedRange (bits + 2) (a + b) := by
  have hpow : (2 : Int) ^ (bits + 1) = 2 ^ bits * 2 := pow_succ 2 bits
  unfold SignedRange at ha hb ⊢
  simp only [Nat.add_sub_cancel, Nat.reduceSubDiff] at ha hb ⊢
  omega

/-- A difference takes one bit more. -/
theorem SignedRange.sub (ha : SignedRange (bits + 1) a) (hb : SignedRange (bits + 1) b) :
    SignedRange (bits + 2) (a - b) := by
  have hpow : (2 : Int) ^ (bits + 1) = 2 ^ bits * 2 := pow_succ 2 bits
  unfold SignedRange at ha hb ⊢
  simp only [Nat.add_sub_cancel, Nat.reduceSubDiff] at ha hb ⊢
  omega

/-- A quotient needs one bit more too, for the least number over `-1`. -/
theorem SignedRange.tdiv (ha : SignedRange (bits + 1) a) :
    SignedRange (bits + 2) (Int.tdiv a b) := by
  have hpow : (2 : Int) ^ (bits + 1) = 2 ^ bits * 2 := pow_succ 2 bits
  have hpos : (0 : Int) < 2 ^ bits := by positivity
  have habs : (Int.tdiv a b).natAbs ≤ a.natAbs := by
    rw [Int.natAbs_tdiv]
    exact Nat.div_le_self _ _
  unfold SignedRange at ha ⊢
  simp only [Nat.add_sub_cancel, Nat.reduceSubDiff] at ha ⊢
  omega

end SproutLang.Library
