/-
  SproutLang.Library.BigEndian
  ────────────────────────────
  **NUMBERS AS BYTES, HIGHEST BYTE FIRST.**

  `bigEndian k n` writes the low `8 * k` bits of `n` in `k` bytes, `ofBytes`
  reads such a list back, and the round trip is the residue
  (`ofBytes_bigEndian`).
-/
import Mathlib.Data.Nat.Bitwise
import Mathlib.Tactic.Ring

namespace SproutLang.Library

/-- The low `8 * k` bits of `n` in `k` bytes. -/
def bigEndian : Nat → Nat → List (BitVec 8)
  | 0, _ => []
  | k + 1, n => BitVec.ofNat 8 (n / 2 ^ (8 * k)) :: bigEndian k n

/-- The number a byte list spells. -/
def ofBytes : List (BitVec 8) → Nat
  | [] => 0
  | b :: bs => b.toNat * 2 ^ (8 * bs.length) + ofBytes bs

@[simp] theorem length_bigEndian (k n : Nat) : (bigEndian k n).length = k := by
  induction k with
  | zero => rfl
  | succ k ih => simp [bigEndian, ih]

/-- **Round trip**: what is read back is the number modulo `2^(8k)`. -/
theorem ofBytes_bigEndian (k n : Nat) : ofBytes (bigEndian k n) = n % 2 ^ (8 * k) := by
  induction k with
  | zero => simp [bigEndian, ofBytes, Nat.mod_one]
  | succ k ih =>
      show (BitVec.ofNat 8 (n / 2 ^ (8 * k))).toNat * 2 ^ (8 * (bigEndian k n).length)
          + ofBytes (bigEndian k n) = _
      rw [ih, length_bigEndian, BitVec.toNat_ofNat,
        show 8 * (k + 1) = 8 * k + 8 from by ring, Nat.pow_add, Nat.mod_mul]
      ring

/-- Only the residue is written. -/
theorem bigEndian_mod (k n : Nat) : bigEndian k (n % 2 ^ (8 * k)) = bigEndian k n := by
  induction k generalizing n with
  | zero => rfl
  | succ k ih =>
      have hlow : n % 2 ^ (8 * (k + 1)) % 2 ^ (8 * k) = n % 2 ^ (8 * k) :=
        Nat.mod_mod_of_dvd n (Nat.pow_dvd_pow 2 (by omega))
      have hhigh : BitVec.ofNat 8 (n % 2 ^ (8 * (k + 1)) / 2 ^ (8 * k))
          = BitVec.ofNat 8 (n / 2 ^ (8 * k)) := by
        apply BitVec.eq_of_toNat_eq
        rw [BitVec.toNat_ofNat, BitVec.toNat_ofNat,
          show 2 ^ (8 * (k + 1)) = 2 ^ (8 * k) * 2 ^ 8 from by rw [← Nat.pow_add]; congr 1,
          Nat.mod_mul_right_div_self, Nat.mod_mod]
      show _ :: bigEndian k (n % 2 ^ (8 * (k + 1))) = _ :: bigEndian k n
      rw [hhigh, ← ih (n % 2 ^ (8 * (k + 1))), hlow, ih]

/-- The high bytes come first. -/
theorem bigEndian_add (j k n : Nat) :
    bigEndian (j + k) n = bigEndian j (n / 2 ^ (8 * k)) ++ bigEndian k n := by
  induction j with
  | zero => rw [Nat.zero_add]; rfl
  | succ j ih =>
      have hdiv : n / 2 ^ (8 * (j + k)) = n / 2 ^ (8 * k) / 2 ^ (8 * j) := by
        rw [Nat.div_div_eq_div_mul, ← Nat.pow_add]
        congr 2
        ring
      rw [Nat.succ_add]
      show BitVec.ofNat 8 (n / 2 ^ (8 * (j + k))) :: bigEndian (j + k) n = _
      rw [ih, hdiv]
      rfl

end SproutLang.Library
