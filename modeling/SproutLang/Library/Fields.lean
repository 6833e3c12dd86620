/-
  SproutLang.Library.Fields
  ─────────────────────────
  **BIT FIELDS AS ARITHMETIC.**

  Masking with a run of ones is taking a quotient and a remainder; joining
  fields that do not overlap is adding them.  With these two rules every
  packed word becomes a sum of digits, which `omega` can take apart.
-/
import Mathlib.Data.Nat.Bitwise
import Mathlib.Tactic.Ring

namespace SproutLang.Library

/-- Masking with `len` ones from bit `i` on keeps that field in place. -/
theorem and_field (x i len : Nat) :
    x &&& ((2 ^ len - 1) * 2 ^ i) = x / 2 ^ i % 2 ^ len * 2 ^ i := by
  apply Nat.eq_of_testBit_eq
  intro j
  rw [Nat.testBit_and, Nat.testBit_mul_two_pow, Nat.testBit_mul_two_pow,
    Nat.testBit_two_pow_sub_one, Nat.testBit_mod_two_pow, Nat.testBit_div_two_pow]
  by_cases hj : i ≤ j
  · rw [Nat.sub_add_cancel hj]
    cases x.testBit j <;> simp [hj]
  · simp [hj]

/-- Joining a low field with a field above it is adding the two. -/
theorem or_shifted {x i : Nat} (y : Nat) (hx : x < 2 ^ i) :
    y * 2 ^ i ||| x = y * 2 ^ i + x := by
  rw [Nat.mul_comm]
  exact (Nat.two_pow_add_eq_or_of_lt hx y).symm

/-- Words put side by side are digits of one number. -/
theorem toNat_append_add {m n : Nat} (x : BitVec m) (y : BitVec n) :
    (x ++ y).toNat = x.toNat * 2 ^ n + y.toNat := by
  rw [BitVec.toNat_append, Nat.shiftLeft_eq, or_shifted _ y.isLt]

end SproutLang.Library
