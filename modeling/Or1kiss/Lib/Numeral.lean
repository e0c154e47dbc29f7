import Mathlib.Data.List.Basic
import Mathlib.Tactic.Ring

/-!
# Numerals

A numeral is its digits in a base `b`, the highest first. Leading zeros do not change its value;
without them its length says how large the number is (`length_dropWhile_le_iff`).
-/

namespace Numeral

variable {b d last : Nat} {ds : List Nat}

/-- The number of a numeral. -/
def value (b : Nat) (ds : List Nat) : Nat := ds.foldl (fun v d => b * v + d) 0

theorem foldl_eq (b n : Nat) (ds : List Nat) :
    ds.foldl (fun v d => b * v + d) n = b ^ ds.length * n + value b ds := by
  unfold value
  induction ds generalizing n with
  | nil => simp
  | cons d ds ih =>
    rw [List.foldl_cons, List.foldl_cons, ih, ih (b * 0 + d), List.length_cons, pow_succ]
    ring

theorem value_cons (b d : Nat) (ds : List Nat) :
    value b (d :: ds) = b ^ ds.length * d + value b ds := by
  show List.foldl _ (b * 0 + d) ds = _
  rw [foldl_eq, Nat.mul_zero, Nat.zero_add]

theorem value_lt (h : ∀ d ∈ ds, d < b) : value b ds < b ^ ds.length := by
  induction ds with
  | nil => exact Nat.one_pos
  | cons d ds ih =>
    have hd : d + 1 ≤ b := h d List.mem_cons_self
    have hds := ih fun e he => h e (List.mem_cons_of_mem d he)
    have hle := Nat.mul_le_mul_left (b ^ ds.length) hd
    rw [value_cons, List.length_cons, pow_succ]
    rw [Nat.mul_add, Nat.mul_one] at hle
    omega

/-- Leading zeros do not count. -/
theorem value_dropWhile (b : Nat) (ds : List Nat) (last : Nat) :
    value b (ds.dropWhile (· == 0) ++ [last]) = value b (ds ++ [last]) := by
  induction ds with
  | nil => rfl
  | cons d ds ih =>
    cases d with
    | zero =>
      rw [List.dropWhile_cons_of_pos rfl, ih, List.cons_append, value_cons, Nat.mul_zero,
        Nat.zero_add]
    | succ d => rw [List.dropWhile_cons_of_neg (by simp)]

/-- Without leading zeros the length of a numeral bounds its number exactly. -/
theorem length_dropWhile_le_iff {k : Nat} (hb : 1 < b) (hk : 0 < k) (h : ∀ d ∈ ds, d < b)
    (hl : last < b) :
    (ds.dropWhile (· == 0) ++ [last]).length ≤ k ↔ value b (ds ++ [last]) < b ^ k := by
  induction ds with
  | nil =>
    have hv : value b [last] = last := by
      rw [value_cons, List.length_nil, pow_zero, Nat.one_mul]
      rfl
    have hpow : b ≤ b ^ k := Nat.le_self_pow (Nat.ne_of_gt hk) b
    rw [List.dropWhile_nil, List.nil_append, hv]
    exact iff_of_true hk (Nat.lt_of_lt_of_le hl hpow)
  | cons d ds ih =>
    have hds : ∀ e ∈ ds, e < b := fun e he => h e (List.mem_cons_of_mem d he)
    rw [List.cons_append, value_cons]
    cases d with
    | zero => rw [List.dropWhile_cons_of_pos rfl, Nat.mul_zero, Nat.zero_add, ih hds]
    | succ d =>
      rw [List.dropWhile_cons_of_neg (by simp), List.cons_append, List.length_cons]
      -- the leading digit is worth at least `b ^ n`, and all of them less than `b ^ (n + 1)`
      have hmem : ∀ e ∈ (d + 1) :: (ds ++ [last]), e < b := by
        intro e he
        rcases List.mem_cons.1 he with rfl | he
        · exact h _ List.mem_cons_self
        · rcases List.mem_append.1 he with he | he
          · exact hds e he
          · rw [List.mem_singleton.1 he]
            exact hl
      have hlt := value_lt hmem
      rw [value_cons, List.length_cons] at hlt
      have hge : b ^ (ds ++ [last]).length ≤
          b ^ (ds ++ [last]).length * (d + 1) + value b (ds ++ [last]) :=
        Nat.le_trans (Nat.le_mul_of_pos_right _ (Nat.succ_pos d)) (Nat.le_add_right _ _)
      constructor
      · exact fun hle => Nat.lt_of_lt_of_le hlt (Nat.pow_le_pow_right (Nat.le_of_lt hb) hle)
      · intro hv
        exact (Nat.pow_lt_pow_iff_right hb).1 (Nat.lt_of_le_of_lt hge hv)

end Numeral
