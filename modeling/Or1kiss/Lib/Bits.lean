import Mathlib.Algebra.Group.Nat.Defs
import Mathlib.Logic.Basic

/-!
# Flag words

A register that packs flags is a bit vector, a flag is a mask, and code reads and
writes flags by `&`, `|` and `~`. `test v m` is C's `v & m` read as a condition. A write to
other bits keeps it.
-/

namespace Bits

variable {w : Nat}

/-- C's `v & m` as a condition. -/
def test (v m : BitVec w) : Bool := v &&& m != 0#w

theorem test_eq_false_iff {v m : BitVec w} : test v m = false ↔ v &&& m = 0#w := by
  simp [test]

theorem test_eq_true_iff {v m : BitVec w} : test v m = true ↔ v &&& m ≠ 0#w := by
  simp [test]

/-- Words that agree on a mask answer every test inside it alike. -/
theorem test_congr {v v' m k : BitVec w} (hk : m &&& k = m) (h : v &&& k = v' &&& k) :
    test v m = test v' m := by
  have e : ∀ x : BitVec w, x &&& m = (x &&& k) &&& m := fun x => by
    rw [BitVec.and_assoc, BitVec.and_comm k m, hk]
  simp only [test, e v, e v', h]

/-- A test of more bits. -/
theorem test_mono {v m k : BitVec w} (hk : k &&& m = m) (h : test v m = true) : test v k = true := by
  rw [test_eq_true_iff] at h ⊢
  intro hz
  rw [← hk, ← BitVec.and_assoc, hz, BitVec.zero_and] at h
  exact h rfl

theorem test_or (v u m : BitVec w) : test (v ||| u) m = (test v m || test u m) := by
  have hd : (v ||| u) &&& m = (v &&& m) ||| (u &&& m) := by
    ext i hi; simp [Bool.and_or_distrib_right]
  rw [Bool.eq_iff_iff, Bool.or_eq_true]
  simp only [test_eq_true_iff, hd, ne_eq, BitVec.or_eq_zero_iff]
  exact not_and_or

/-- Setting bits that cover the mask sets the flag. -/
theorem test_or_self {v m : BitVec w} (hm : m ≠ 0#w) : test (v ||| m) m = true := by
  rw [test_or]; simp [test, hm]

/-- Clearing bits that cover the mask clears the flag. -/
theorem test_and_not_self (v m : BitVec w) : test (v &&& ~~~m) m = false := by
  simp [test, BitVec.and_assoc]

/-- A write outside a mask leaves the word unchanged on it. -/
theorem or_and_of_disjoint {v u k : BitVec w} (h : u &&& k = 0#w) : (v ||| u) &&& k = v &&& k := by
  have hd : (v ||| u) &&& k = (v &&& k) ||| (u &&& k) := by
    ext i hi; simp [Bool.and_or_distrib_right]
  rw [hd, h, BitVec.or_zero]

theorem and_and_of_cover {v u k : BitVec w} (h : u &&& k = k) : (v &&& u) &&& k = v &&& k := by
  rw [BitVec.and_assoc, h]

/-- Clearing bits outside a mask leaves the word unchanged on it. -/
theorem and_not_and_of_disjoint {v u k : BitVec w} (h : u &&& k = 0#w) :
    (v &&& ~~~u) &&& k = v &&& k := by
  ext i hi
  have hb : (u &&& k)[i] = false := by rw [h]; exact BitVec.getElem_zero hi
  simp only [BitVec.getElem_and, BitVec.getElem_not] at hb ⊢
  cases hu : u[i]
  · simp
  · rw [hu, Bool.true_and] at hb
    simp [hb]

/-- The number of two words side by side. -/
theorem append_toNat {n m : Nat} (x : BitVec n) (y : BitVec m) :
    (x ++ y).toNat = x.toNat * 2 ^ m + y.toNat := by
  rw [BitVec.toNat_append, ← Nat.shiftLeft_add_eq_or_of_lt y.isLt, Nat.shiftLeft_eq]

end Bits
