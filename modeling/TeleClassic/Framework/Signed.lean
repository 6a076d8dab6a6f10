import Mathlib.Data.BitVec
import Mathlib.Tactic.Common

/-!
# Signed arithmetic that does not overflow

A sum or a product of words is exact as long as it stays below the sign bit,
and a word that is not negative is the same as an unsigned one, also when it is
extended.
-/

namespace TC

variable {w : Nat}

theorem bmod_of_lt {n : Int} (h : 0 ≤ n) (h' : n < 2 ^ w) : n.bmod (2 ^ (w + 1)) = n := by
  have hpow : ((2 ^ (w + 1) : Nat) : Int) = 2 * 2 ^ w := by
    rw [Nat.pow_succ]
    push_cast
    omega
  exact Int.bmod_eq_of_le (by omega) (by omega)

theorem toInt_mul_of_lt {a b : BitVec (w + 1)} (h : 0 ≤ a.toInt * b.toInt)
    (h' : a.toInt * b.toInt < 2 ^ w) : (a * b).toInt = a.toInt * b.toInt := by
  rw [BitVec.toInt_mul, bmod_of_lt h h']

theorem toInt_add_of_lt {a b : BitVec (w + 1)} (h : 0 ≤ a.toInt + b.toInt)
    (h' : a.toInt + b.toInt < 2 ^ w) : (a + b).toInt = a.toInt + b.toInt := by
  rw [BitVec.toInt_add, bmod_of_lt h h']

theorem toNat_of_nonneg {a : BitVec w} (h : 0 ≤ a.toInt) : (a.toNat : Int) = a.toInt := by
  have := a.isLt
  rw [BitVec.toInt_eq_toNat_cond] at h ⊢
  split
  · rfl
  · rename_i hs
    rw [if_neg hs] at h
    omega

theorem toNat_signExtend_of_nonneg {a : BitVec w} {v : Nat} (hv : w ≤ v) (h : 0 ≤ a.toInt) :
    ((a.signExtend v).toNat : Int) = a.toInt := by
  rw [toNat_of_nonneg (by rwa [BitVec.toInt_signExtend_of_le hv]), BitVec.toInt_signExtend_of_le hv]

end TC
