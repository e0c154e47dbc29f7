import Mathlib.Data.Nat.Basic

/-!
# Distances on a circle of words

`dist a b` is how far `b` lies ahead of `a` in `2^w` wrapping words, `strides k a b` how many
whole steps of `k` that takes.
-/

namespace Distance

variable {w : Nat}

/-- Steps from `a` up to `b`, wrapping around. -/
def dist (a b : BitVec w) : Nat := (b - a).toNat

theorem dist_self (a : BitVec w) : dist a a = 0 := by simp [dist]

/-- Moving towards the target, and not past it, shortens the way. -/
theorem dist_add {a b k : BitVec w} (h : k.toNat ≤ dist a b) :
    dist (a + k) b = dist a b - k.toNat := by
  have e : b - (a + k) = (b - a) - k := by
    simp only [BitVec.sub_eq_add_neg, BitVec.neg_add, BitVec.add_assoc]
  rw [dist, e, BitVec.toNat_sub_of_le (by rw [BitVec.le_def]; exact h)]
  rfl

/-- Whole strides of `k` on the way. -/
def strides (k : BitVec w) (a b : BitVec w) : Nat := dist a b / k.toNat

/-- A stride that does not reach past the target leaves one less. -/
theorem strides_add {a b k : BitVec w} (h : 0 < strides k a b) :
    strides k (a + k) b + 1 = strides k a b := by
  have hk : 0 < k.toNat := by
    rcases Nat.eq_zero_or_pos k.toNat with h0 | h0
    · rw [strides, h0, Nat.div_zero] at h; cases h
    · exact h0
  have hle : k.toNat ≤ dist a b := by
    rcases Nat.lt_or_ge (dist a b) k.toNat with hlt | hge
    · rw [strides, Nat.div_eq_of_lt hlt] at h; cases h
    · exact hge
  rw [strides, strides, dist_add hle, Nat.div_eq_sub_div hk hle]

end Distance
