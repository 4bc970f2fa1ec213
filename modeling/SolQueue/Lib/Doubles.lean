import Mathlib.Algebra.Group.Nat.Defs
import Mathlib.Data.Nat.Log
import Mathlib.Tactic.Common

/-!
# Integers as doubles

A double has a significand of 53 bits: integers up to `2 ^ 53` are kept, larger ones are rounded to
the nearest double, and to the one with the even significand between two.

* `toNumber`: the double nearest to an integer, itself an integer.
* `toNumber_of_le`, `eq_of_toNumber_eq`: which integers are rounded to a small one.
-/

/-- The double nearest to `n`, as its significand of 53 bits times a power of two. -/
def nearestDouble (n : ℕ) : ℕ :=
  if n < 2 ^ 53 then n
  else
    let ulp := 2 ^ (Nat.log2 n - 52)
    let significand := n / ulp
    let rest := n % ulp
    if 2 * rest < ulp ∨ 2 * rest = ulp ∧ significand % 2 = 0 then significand * ulp
    else (significand + 1) * ulp

/-- `Number` of an integer: the nearest double, ties to even. -/
def toNumber (v : ℤ) : ℤ :=
  v.sign * nearestDouble v.natAbs

/-- Integers of magnitude at most `2 ^ 53` are doubles. -/
theorem nearestDouble_of_le {n : ℕ} (h : n ≤ 2 ^ 53) : nearestDouble n = n := by
  rcases h.lt_or_eq with hlt | rfl
  · rw [nearestDouble, if_pos hlt]
  · decide +kernel

/-- Larger ones are rounded to larger ones, but for the one between `2 ^ 53` and the next double. -/
theorem lt_nearestDouble {n : ℕ} (h : 2 ^ 53 + 1 < n) : 2 ^ 53 < nearestDouble n := by
  have hlog : 53 ≤ Nat.log2 n := (Nat.le_log2 (by omega)).mpr (by omega)
  have hpos : 0 < 2 ^ (Nat.log2 n - 52) := Nat.two_pow_pos _
  -- the significand of the double below `n` has 53 bits
  have hbelow : 2 ^ 53 < n / 2 ^ (Nat.log2 n - 52) * 2 ^ (Nat.log2 n - 52) := by
    rcases hlog.eq_or_lt with heq | hlt
    · rw [← heq]
      omega
    · have hsignificand : 2 ^ 52 ≤ n / 2 ^ (Nat.log2 n - 52) := by
        rw [Nat.le_div_iff_mul_le hpos, ← Nat.pow_add]
        exact (Nat.pow_le_pow_right (by decide) (by omega)).trans (Nat.log2_self_le (by omega))
      have hulp : 2 ^ 2 ≤ 2 ^ (Nat.log2 n - 52) := Nat.pow_le_pow_right (by decide) (by omega)
      calc 2 ^ 53 < 2 ^ 52 * 2 ^ 2 := by decide
        _ ≤ n / 2 ^ (Nat.log2 n - 52) * 2 ^ (Nat.log2 n - 52) := Nat.mul_le_mul hsignificand hulp
  rw [nearestDouble, if_neg (by omega)]
  dsimp only
  split_ifs
  · exact hbelow
  · rw [Nat.succ_mul]
    omega

theorem toNumber_of_le {v : ℤ} (h : v.natAbs ≤ 2 ^ 53) : toNumber v = v := by
  rw [toNumber, nearestDouble_of_le h, Int.sign_mul_natAbs]

theorem toNumber_natCast {n : ℕ} (h : n ≤ 2 ^ 53) : toNumber n = n :=
  toNumber_of_le h

/-- An integer rounded to a small one is that one, or lies just outside the small ones. -/
theorem eq_of_toNumber_eq {v c : ℤ} (h : toNumber v = c) (hc : c.natAbs ≤ 2 ^ 53) :
    v = c ∨ v.natAbs = 2 ^ 53 + 1 := by
  rcases Nat.lt_trichotomy v.natAbs (2 ^ 53 + 1) with hlt | heq | hgt
  · exact .inl (by rw [← h, toNumber_of_le (by omega)])
  · exact .inr heq
  · have hfar := lt_nearestDouble hgt
    have hv : v.sign.natAbs = 1 := Int.natAbs_sign_of_ne_zero (by omega)
    rw [← h, toNumber, Int.natAbs_mul, hv, Int.natAbs_natCast] at hc
    omega

/-- Only zero is rounded to zero. -/
theorem toNumber_eq_zero {v : ℤ} : toNumber v = 0 ↔ v = 0 := by
  refine ⟨fun h => ?_, by rintro rfl; rfl⟩
  rcases eq_of_toNumber_eq h (by decide) with hv | hv
  · exact hv
  · have hround : nearestDouble (2 ^ 53 + 1) = 2 ^ 53 := by decide +kernel
    rw [toNumber, hv, hround, Int.mul_eq_zero, Int.sign_eq_zero_iff_zero] at h
    rcases h with h | h
    · exact h
    · cases h
