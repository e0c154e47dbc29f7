import Mathlib.Algebra.Order.Field.Basic
import Mathlib.Algebra.Order.Field.Rat

/-!
# Rounding to a floating point format

A rounding is monotone and leaves the small integers alone; no more is needed to bound a rounded
quotient of two rounded numbers. A finite range is not modelled.
-/

/-- Rounding to a format with 24 bits of precision. -/
structure Rounding where
  round : ℚ → ℚ
  mono : Monotone round
  exact : ∀ n : ℕ, n ≤ 2 ^ 24 → round n = n

namespace Rounding

variable (fl : Rounding) {a b : ℕ}

theorem round_zero : fl.round 0 = 0 := by
  have := fl.exact 0 (by decide)
  rwa [Nat.cast_zero] at this

theorem round_one : fl.round 1 = 1 := by
  have := fl.exact 1 (by decide)
  rwa [Nat.cast_one] at this

/-- The quotient of two integers, each rounded first. -/
def quotient (a b : ℕ) : ℚ := fl.round (fl.round a / fl.round b)

theorem round_pos (hb : 0 < b) : 0 < fl.round b := by
  have h1 : fl.round 1 ≤ fl.round b := fl.mono (by exact_mod_cast hb)
  rw [fl.round_one] at h1
  exact zero_lt_one.trans_le h1

theorem round_nonneg : 0 ≤ fl.round a := by
  have h0 : fl.round 0 ≤ fl.round a := fl.mono (Nat.cast_nonneg a)
  rwa [fl.round_zero] at h0

theorem quotient_nonneg (hb : 0 < b) : 0 ≤ fl.quotient a b := by
  have hq : 0 ≤ fl.round a / fl.round b := div_nonneg fl.round_nonneg (fl.round_pos hb).le
  have h := fl.mono hq
  rwa [fl.round_zero] at h

theorem quotient_le_one (hab : a ≤ b) (hb : 0 < b) : fl.quotient a b ≤ 1 := by
  have hr : fl.round a ≤ fl.round b := fl.mono (by exact_mod_cast hab)
  have hq : fl.round a / fl.round b ≤ 1 := (div_le_one (fl.round_pos hb)).2 hr
  have h := fl.mono hq
  rwa [fl.round_one] at h

/-- Two or more over one. -/
theorem two_le_quotient_one (ha : 2 ≤ a) : 2 ≤ fl.quotient a 1 := by
  have htwo : fl.round 2 = 2 := by
    have := fl.exact 2 (by decide)
    rwa [Nat.cast_ofNat] at this
  have hr : 2 ≤ fl.round a := by
    rw [← htwo]
    exact fl.mono (by exact_mod_cast ha)
  unfold quotient
  rw [Nat.cast_one, fl.round_one, div_one, ← htwo]
  exact fl.mono hr

end Rounding
