import Mathlib.Data.Nat.Digits.Defs
import Mathlib.Tactic.Ring

/-!
# Adding numbers limb by limb

Limbs in a base `B` are added from the low end, each pair with the carry of the pair below. An
adder that has no carry of its own reads it off its result: a result below the first operand has
wrapped. Without a carry in, that is the carry (`seen_add_dropped`); with one, it is not seen
behind an operand `B - 1`, which the result then comes back to. What a sum of numbers loses by it
is `lost`: `value_sums` is exact with it, and `lost_eq_zero_iff` says when there is none.
-/

namespace Limbs

variable {B a b c : Nat}

/-- The carry that a comparison of the result with the first operand sees. -/
def seen (B a b c : Nat) : Nat := if (a + b + c) % B < a then 1 else 0

/-- The carry that it does not see. -/
def dropped (B b c : Nat) : Nat := if c = 1 ∧ b = B - 1 then 1 else 0

theorem seen_le : seen B a b c ≤ 1 := by
  unfold seen
  split <;> omega

theorem seen_add_dropped (ha : a < B) (hb : b < B) (hc : c ≤ 1) :
    seen B a b c + dropped B b c = (a + b + c) / B := by
  unfold seen dropped
  have hdiv := Nat.div_add_mod (a + b + c) B
  have hlt := Nat.mod_lt (a + b + c) (Nat.zero_lt_of_lt ha)
  rcases Nat.lt_or_ge (a + b + c) B with h | h
  · rw [Nat.mod_eq_of_lt h, Nat.div_eq_of_lt h, if_neg (by omega), if_neg (by omega)]
  · have hq : (a + b + c) / B = 1 := by
      rw [Nat.div_eq_sub_div (by omega) h, Nat.div_eq_of_lt (by omega)]
    have hr : (a + b + c) % B = a + b + c - B := by
      rw [Nat.mod_eq_sub_mod h, Nat.mod_eq_of_lt (by omega)]
    rw [hq, hr]
    split <;> split <;> omega

/-! ## Numbers -/

/-- The limbs of the result, and the carry behind them. -/
def sums (B : Nat) : Nat → List (Nat × Nat) → List Nat × Nat
  | c, [] => ([], c)
  | c, (a, b) :: l => ((a + b + c) % B :: (sums B (seen B a b c) l).1, (sums B (seen B a b c) l).2)

theorem sums_cons (p : Nat × Nat) (l : List (Nat × Nat)) : sums B c (p :: l) =
    ((p.1 + p.2 + c) % B :: (sums B (seen B p.1 p.2 c) l).1, (sums B (seen B p.1 p.2 c) l).2) := rfl

/-- The value of the carries that are not seen. -/
def lost (B : Nat) : Nat → List (Nat × Nat) → Nat
  | _, [] => 0
  | c, (a, b) :: l => B * (dropped B b c + lost B (seen B a b c) l)

/-- The two numbers together. -/
def total (B : Nat) (l : List (Nat × Nat)) : Nat :=
  Nat.ofDigits B (l.map Prod.fst) + Nat.ofDigits B (l.map Prod.snd)

@[simp] theorem total_nil : total B [] = 0 := rfl

theorem total_cons (p : Nat × Nat) (l : List (Nat × Nat)) :
    total B (p :: l) = p.1 + p.2 + B * total B l := by
  unfold total
  rw [List.map_cons, List.map_cons, Nat.ofDigits_cons, Nat.ofDigits_cons]
  ring

variable {l : List (Nat × Nat)}

/-- Limbs are below the base. -/
def Bounded (B : Nat) (l : List (Nat × Nat)) : Prop := ∀ p ∈ l, p.1 < B ∧ p.2 < B

theorem Bounded.head {p : Nat × Nat} (h : Bounded B (p :: l)) : p.1 < B ∧ p.2 < B :=
  h p List.mem_cons_self

theorem Bounded.tail {p : Nat × Nat} (h : Bounded B (p :: l)) : Bounded B l :=
  fun q hq => h q (List.mem_cons_of_mem p hq)

theorem length_sums : (sums B c l).1.length = l.length := by
  induction l generalizing c with
  | nil => rfl
  | cons p l ih => exact congrArg Nat.succ ih

theorem sums_lt (h : Bounded B l) : ∀ r ∈ (sums B c l).1, r < B := by
  induction l generalizing c with
  | nil => exact fun r hr => (List.not_mem_nil hr).elim
  | cons p l ih =>
    intro r hr
    rcases List.mem_cons.1 hr with rfl | hr
    · exact Nat.mod_lt _ (Nat.zero_lt_of_lt h.head.1)
    · exact ih h.tail r hr

/-- The result, the carry behind it and what is lost are the sum. -/
theorem value_sums (h : Bounded B l) (hc : c ≤ 1) :
    Nat.ofDigits B (sums B c l).1 + B ^ l.length * (sums B c l).2 + lost B c l = total B l + c := by
  induction l generalizing c with
  | nil =>
    show 0 + 1 * c + 0 = 0 + c
    omega
  | cons p l ih =>
    obtain ⟨a, b⟩ := p
    have hs := seen_add_dropped h.head.1 h.head.2 hc
    have hd := Nat.div_add_mod (a + b + c) B
    have hi := ih (c := seen B a b c) h.tail seen_le
    unfold sums lost
    rw [Nat.ofDigits_cons, total_cons, List.length_cons, pow_succ]
    calc (a + b + c) % B + B * Nat.ofDigits B (sums B (seen B a b c) l).1 +
          B ^ l.length * B * (sums B (seen B a b c) l).2 +
          B * (dropped B b c + lost B (seen B a b c) l)
        = (a + b + c) % B + B * (Nat.ofDigits B (sums B (seen B a b c) l).1 +
            B ^ l.length * (sums B (seen B a b c) l).2 + lost B (seen B a b c) l) +
            B * dropped B b c := by ring
      _ = (a + b + c) % B + B * (seen B a b c + dropped B b c) + B * total B l := by
        rw [hi]
        ring
      _ = a + b + B * total B l + c := by
        rw [hs, Nat.add_comm ((a + b + c) % B), hd]
        ring

/-- Nothing is lost exactly if no carry comes to an operand `B - 1`. -/
theorem lost_eq_zero_iff (h : Bounded B l) (hc : c ≤ 1) : lost B c l = 0 ↔
    ∀ i p, l[i]? = some p → p.2 = B - 1 → total B (l.take i) + c < B ^ i := by
  induction l generalizing c with
  | nil => exact iff_of_true rfl fun i p hp => Option.noConfusion rfl (heq_of_eq hp)
  | cons q l ih =>
    obtain ⟨a, b⟩ := q
    have hpos := Nat.zero_lt_of_lt h.head.1
    have hs := seen_add_dropped h.head.1 h.head.2 hc
    have hi := ih (c := seen B a b c) h.tail seen_le
    unfold lost
    rw [Nat.mul_eq_zero, or_iff_right (by omega), Nat.add_eq_zero_iff, hi]
    by_cases hz : dropped B b c = 0
    · rw [hz, Nat.add_zero] at hs
      have hshift : ∀ i, total B (l.take i) + seen B a b c < B ^ i ↔
          total B (((a, b) :: l).take (i + 1)) + c < B ^ (i + 1) := by
        intro i
        have hsum : a + b + c + B * total B (l.take i) = a + b + B * total B (l.take i) + c := by ring
        rw [List.take_succ_cons, total_cons, pow_succ, hs, ← hsum, ← Nat.div_lt_iff_lt_mul hpos,
          Nat.add_mul_div_left _ _ hpos, Nat.add_comm]
      constructor
      · rintro ⟨-, hall⟩ i p hp hb
        cases i with
        | zero =>
          cases hp
          unfold dropped at hz
          show 0 + c < 1
          by_contra hc1
          rw [if_pos ⟨by omega, hb⟩] at hz
          omega
        | succ i => exact (hshift i).1 (hall i p hp hb)
      · intro hall
        exact ⟨hz, fun i p hp hb => (hshift i).2 (hall (i + 1) p hp hb)⟩
    · refine iff_of_false (fun h' => hz h'.1) fun hall => hz ?_
      unfold dropped
      refine if_neg fun hcb => ?_
      have hlt : 0 + c < 1 := hall 0 (a, b) rfl hcb.2
      omega

/-- The sum modulo the limbs and its carry are what is left if nothing is lost. -/
theorem sums_exact_iff (hB : 1 < B) (h : Bounded B l) (hc : c ≤ 1) :
    (Nat.ofDigits B (sums B c l).1 = (total B l + c) % B ^ l.length ∧
      (sums B c l).2 = (total B l + c) / B ^ l.length) ↔ lost B c l = 0 := by
  have hv := value_sums h hc
  have hlt : Nat.ofDigits B (sums B c l).1 < B ^ l.length := by
    have := Nat.ofDigits_lt_base_pow_length hB (sums_lt (c := c) h)
    rwa [length_sums] at this
  have hdm := Nat.div_add_mod (total B l + c) (B ^ l.length)
  constructor
  · rintro ⟨hr, hcy⟩
    rw [hr, hcy] at hv
    omega
  · intro hz
    rw [hz, Nat.add_zero] at hv
    rw [← hv]
    constructor
    · rw [Nat.add_mul_mod_self_left, Nat.mod_eq_of_lt hlt]
    · rw [Nat.add_mul_div_left _ _ (by omega), Nat.div_eq_of_lt hlt, Nat.zero_add]

end Limbs
