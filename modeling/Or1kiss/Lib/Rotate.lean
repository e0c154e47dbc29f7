import Mathlib.Data.Nat.Basic

/-!
# Rotations

A rotation of a word to the right moves the bit at `i + n`, modulo the width, to `i`
(`getLsbD_rotateRight_mod`). Rotations add up modulo the width, and each is undone by the one
to the left.

A rotation put together from two shifts of which the second falls one short leaves the word
with a bit twice. `Constant x n` is what it takes for that not to show: the bits that cross
the end, and the one behind them, are alike.
-/

namespace BitVec

variable {w : Nat} {x : BitVec w} {m n : Nat}

theorem getLsbD_rotateRight_mod {i : Nat} (hi : i < w) :
    (x.rotateRight n).getLsbD i = x.getLsbD ((i + n) % w) := by
  have hlt : n % w < w := Nat.mod_lt _ (by omega)
  rw [← Nat.add_mod_mod, getLsbD_rotateRight]
  generalize n % w = r at hlt
  by_cases h : i < w - r
  · rw [decide_eq_true h, cond_true, Nat.mod_eq_of_lt (by omega), Nat.add_comm]
  · have hm : (i + r) % w = i - (w - r) := by
      rw [Nat.mod_eq_sub_mod (by omega), Nat.mod_eq_of_lt (by omega)]
      omega
    rw [decide_eq_false h, cond_false, decide_eq_true hi, Bool.true_and, hm]

theorem getLsbD_rotateLeft_mod {i : Nat} (hi : i < w) (hn : n < w) :
    (x.rotateLeft n).getLsbD i = x.getLsbD ((i + (w - n)) % w) := by
  rw [getLsbD_rotateLeft_of_le hn]
  by_cases h : i < n
  · rw [decide_eq_true h, cond_true, Nat.mod_eq_of_lt (by omega), Nat.add_comm]
  · have hm : (i + (w - n)) % w = i - n := by
      rw [Nat.mod_eq_sub_mod (by omega), Nat.mod_eq_of_lt (by omega)]
      omega
    rw [decide_eq_false h, cond_false, decide_eq_true hi, Bool.true_and, hm]

/-- Rotating twice is rotating once by the sum. -/
theorem rotateRight_rotateRight :
    (x.rotateRight m).rotateRight n = x.rotateRight ((m + n) % w) := by
  apply eq_of_getLsbD_eq
  intro i hi
  rw [getLsbD_rotateRight_mod hi, getLsbD_rotateRight_mod (Nat.mod_lt _ (by omega)),
    getLsbD_rotateRight_mod hi, Nat.mod_add_mod, Nat.add_mod_mod]
  congr 2
  omega

/-- No bit is lost. -/
theorem rotateLeft_rotateRight (hn : n < w) : (x.rotateRight n).rotateLeft n = x := by
  apply eq_of_getLsbD_eq
  intro i hi
  have hs : i + (w - n) + n = i + w := by omega
  rw [getLsbD_rotateLeft_mod hi hn, getLsbD_rotateRight_mod (Nat.mod_lt _ (by omega)),
    Nat.mod_add_mod, hs, Nat.add_mod_right, Nat.mod_eq_of_lt hi]

/-! ## A rotation one place short -/

/-- The first `n` bits and the one behind them are alike; if they are set, so is the last bit. -/
def Constant (x : BitVec w) (n : Nat) : Prop :=
  (∀ i < n, x.getLsbD (i + 1) = x.getLsbD i) ∧ (x.getLsbD 0 = true → x.getLsbD (w - 1) = true)

instance : Decidable (x.Constant n) := inferInstanceAs (Decidable (_ ∧ _))

/-- The bit of the rotation that is one place short. -/
theorem getLsbD_short {i : Nat} (hi : i < w) :
    ((x >>> n) ||| (x <<< (w - 1 - n))).getLsbD i =
      (x.getLsbD (n + i) || (!decide (i < w - 1 - n) && x.getLsbD (i - (w - 1 - n)))) := by
  rw [getLsbD_or, getLsbD_ushiftRight, getLsbD_shiftLeft, decide_eq_true hi, Bool.true_and]

/-- It is a rotation exactly if the bits that cross the end are alike. -/
theorem short_eq_rotateRight_iff (hn : n < w) :
    (x >>> n) ||| (x <<< (w - 1 - n)) = x.rotateRight n ↔ x.Constant n := by
  constructor
  · intro h
    have hbit : ∀ i < w, (x.getLsbD (n + i) ||
        (!decide (i < w - 1 - n) && x.getLsbD (i - (w - 1 - n)))) = x.getLsbD ((i + n) % w) := by
      intro i hi
      rw [← getLsbD_short hi, h, getLsbD_rotateRight_mod hi]
    constructor
    · intro i hi
      have hb := hbit (w - n + i) (by omega)
      have hm : (w - n + i + n) % w = i := by
        rw [show w - n + i + n = i + w by omega, Nat.add_mod_right, Nat.mod_eq_of_lt (by omega)]
      rw [hm, getLsbD_of_ge x (n + (w - n + i)) (by omega), Bool.false_or,
        decide_eq_false (by omega), Bool.not_false, Bool.true_and] at hb
      rw [← hb]
      congr 1
      omega
    · intro h0
      have hb := hbit (w - 1 - n) (by omega)
      rw [decide_eq_false (Nat.lt_irrefl _), Nat.sub_self, h0, Bool.not_false, Bool.true_and,
        Bool.or_true, Nat.mod_eq_of_lt (by omega)] at hb
      rw [show w - 1 = w - 1 - n + n by omega]
      exact hb.symm
  · rintro ⟨hs, hl⟩
    apply eq_of_getLsbD_eq
    intro i hi
    rw [getLsbD_short hi, getLsbD_rotateRight_mod hi]
    rcases Nat.lt_trichotomy i (w - 1 - n) with hlt | heq | hgt
    · rw [decide_eq_true hlt, Bool.not_true, Bool.false_and, Bool.or_false,
        Nat.mod_eq_of_lt (by omega), Nat.add_comm]
    · rw [decide_eq_false (by omega), heq, Nat.sub_self, Bool.not_false, Bool.true_and,
        Nat.mod_eq_of_lt (by omega), show w - 1 - n + n = w - 1 by omega,
        show n + (w - 1 - n) = w - 1 by omega]
      cases h0 : x.getLsbD 0 with
      | false => exact Bool.or_false _
      | true =>
        rw [hl h0]
        rfl
    · have hm : (i + n) % w = i - (w - n) := by
        rw [Nat.mod_eq_sub_mod (by omega), Nat.mod_eq_of_lt (by omega)]
        omega
      rw [decide_eq_false (by omega), getLsbD_of_ge x (n + i) (by omega), Bool.false_or,
        Bool.not_false, Bool.true_and, hm, ← hs (i - (w - n)) (by omega)]
      congr 1
      omega

end BitVec
