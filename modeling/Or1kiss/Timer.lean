import Or1kiss.Fields
import Or1kiss.Lib.Counter
import Or1kiss.Tick

/-!
# The timer, cycle by cycle

`update delta` accounts a batch of cycles at once. `Matched n` says that the timer advanced one
cycle at a time reaches its limit within `n` cycles; until then a batch is what the single
cycles add up to (`iterate_of_not_matched`), and `next_tick` is how long that takes (`matched_iff`).
-/

namespace Or1kiss

open Bits Counter

namespace Tick

variable {t : Tick} {n j : Nat}

/-- The timer counts: it is switched on, and not a one-shot that has matched. -/
def counting (t : Tick) : Bool := t.mode != TM.D && !t.done

/-- One cycle at a time, the counter reaches the limit within `n` cycles. -/
def Matched (t : Tick) (n : Nat) : Prop :=
  ∃ j < n, ((update · 1)^[j] t).counting = true ∧ ((update · 1)^[j] t).crosses 1 = true

/-- `n` cycles without a match. -/
def later (t : Tick) (n : Nat) : Tick :=
  if t.counting then { t with ttcr := t.ttcr + BitVec.ofNat 32 n } else t

theorem passed_of_not_counting (h : t.counting = false) (delta : U32) (b : Bool) :
    t.passed delta b = t := by
  have hd : t.mode = TM.D ∨ t.done = true := by
    unfold counting at h
    rw [Bool.and_eq_false_iff] at h
    rcases h with h | h
    · exact .inl (by simpa using h)
    · exact .inr (by simpa using h)
  unfold passed
  dsimp only
  rw [if_pos hd]

theorem update_of_not_counting (h : t.counting = false) (n : Nat) : t.update n = t :=
  passed_of_not_counting h _ _

/-- A timer that counts gets past the early return. -/
theorem not_returned (hc : t.counting = true) : ¬(t.mode = TM.D ∨ t.done = true) := by
  unfold counting at hc
  rw [Bool.and_eq_true, bne_iff_ne, Bool.not_eq_true'] at hc
  rintro (hm | hd)
  · exact hc.1 hm
  · exact Bool.noConfusion (hc.2.symm.trans hd)

/-- A batch that does not cross the limit. -/
theorem passed_uncrossed (t : Tick) (n : Nat) : t.passed (BitVec.ofNat 32 n) false = t.later n := by
  unfold later
  cases hc : t.counting with
  | false =>
    rw [if_neg Bool.false_ne_true]
    exact passed_of_not_counting hc _ _
  | true =>
    unfold passed setPending
    dsimp only
    rw [if_neg (not_returned hc), if_neg Bool.false_ne_true, if_neg Bool.false_ne_true, Bool.and_false,
      if_neg Bool.false_ne_true, if_pos rfl]
    split
    · rfl
    · split <;> rfl

theorem update_of_not_crosses (h : t.counting = true → t.crosses n = false) :
    t.update n = t.later n := by
  cases hc : t.counting with
  | false =>
    rw [← passed_uncrossed, passed_of_not_counting hc]
    exact update_of_not_counting hc n
  | true =>
    unfold update
    rw [h hc]
    exact passed_uncrossed t n

theorem later_counting : (t.later n).counting = t.counting := by
  unfold later
  split <;> rfl

theorem later_ttmr : (t.later n).ttmr = t.ttmr := by
  unfold later
  split <;> rfl

theorem later_limit : (t.later n).limit = t.limit := by
  unfold limit
  rw [later_ttmr]

theorem later_zero : t.later 0 = t := by
  unfold later
  split
  · rw [show BitVec.ofNat 32 0 = 0#32 from rfl, BitVec.add_zero]
  · rfl

theorem later_later (m : Nat) : (t.later n).later m = t.later (n + m) := by
  cases hc : t.counting with
  | false =>
    have hl : ∀ k, t.later k = t := fun k => by
      unfold later
      rw [hc, if_neg Bool.false_ne_true]
    rw [hl, hl, hl]
  | true =>
    have hl : ∀ (u : Tick) k, u.counting = true →
        u.later k = { u with ttcr := u.ttcr + BitVec.ofNat 32 k } := fun u k hu => by
      unfold later
      rw [if_pos hu]
    rw [hl (t.later n) m (later_counting.trans hc), hl t n hc, hl t (n + m) hc]
    dsimp only
    rw [BitVec.ofNat_add, BitVec.add_assoc]

theorem limit_lt (t : Tick) : t.limit < 2 ^ 28 := bits32_lt t.ttmr (by decide) (by decide)

theorem current_lt (t : Tick) : t.current < 2 ^ 28 := bits32_lt t.ttcr (by decide) (by decide)

theorem current_eq (t : Tick) : t.current = t.ttcr.toNat % 2 ^ 28 := by
  unfold current
  rw [bits32_toNat t.ttcr (by decide) (by decide)]
  omega

/-- The low 28 bits count on modulo `2^28`. -/
theorem later_current (h : t.counting = true) : (t.later n).current = (t.current + n) % 2 ^ 28 := by
  rw [current_eq, current_eq]
  unfold later
  rw [if_pos h]
  dsimp only
  rw [BitVec.toNat_add, BitVec.toNat_ofNat]
  omega

theorem crosses_one : t.crosses 1 = decide (t.current + 1 = t.limit) := by
  unfold crosses
  rw [← Bool.decide_and, decide_eq_decide]
  omega

theorem not_matched_zero (t : Tick) : ¬t.Matched 0 := fun ⟨_, hj, _⟩ => Nat.not_lt_zero _ hj

/-- Until the match, every cycle counts one. -/
theorem iterate_of_not_matched (h : ¬t.Matched n) : (update · 1)^[n] t = t.later n := by
  induction n with
  | zero => exact later_zero.symm
  | succ n ih =>
    have hn : ¬t.Matched n := fun ⟨j, hj, hm⟩ => h ⟨j, by omega, hm⟩
    rw [Function.iterate_succ_apply', ih hn, update_of_not_crosses, later_later]
    intro hc
    rw [← ih hn] at hc ⊢
    exact Bool.eq_false_iff.2 fun hx => h ⟨n, Nat.lt_succ_self n, hc, hx⟩

theorem nextTick_eq : t.nextTick = wait (2 ^ 28) t.current t.limit := by
  have := t.current_lt
  unfold nextTick wait
  split <;> omega

/-- The timer steps onto its limit at the `j`-th cycle for the first time. -/
theorem matched_iff_arrival : t.Matched n ↔
    t.counting = true ∧ ∃ j < n, (t.current + j) % 2 ^ 28 + 1 = t.limit := by
  induction n with
  | zero =>
    constructor
    · rintro ⟨j, hj, -⟩
      exact (Nat.not_lt_zero j hj).elim
    · rintro ⟨-, j, hj, -⟩
      exact (Nat.not_lt_zero j hj).elim
  | succ n ih =>
    by_cases hm : t.Matched n
    · obtain ⟨hc, j, hj, h⟩ := ih.1 hm
      obtain ⟨i, hi, hw⟩ := hm
      exact iff_of_true ⟨i, by omega, hw⟩ ⟨hc, j, by omega, h⟩
    · have hl := iterate_of_not_matched hm
      constructor
      · rintro ⟨j, hj, hc, hx⟩
        rcases Nat.lt_succ_iff_lt_or_eq.1 hj with hlt | rfl
        · exact (hm ⟨j, hlt, hc, hx⟩).elim
        · rw [hl, later_counting] at hc
          rw [hl, crosses_one, later_current hc, later_limit, decide_eq_true_eq] at hx
          exact ⟨hc, j, hj, hx⟩
      · rintro ⟨hc, j, hj, hx⟩
        rcases Nat.lt_succ_iff_lt_or_eq.1 hj with hlt | rfl
        · exact (hm (ih.2 ⟨hc, j, hlt, hx⟩)).elim
        · refine ⟨j, hj, ?_, ?_⟩
          · rw [hl, later_counting, hc]
          · rw [hl, crosses_one, later_current hc, later_limit, hx, decide_eq_true rfl]

/-- `next_tick` is the time to the match. -/
theorem matched_iff : t.Matched n ↔ t.counting = true ∧ 0 < t.limit ∧ t.nextTick ≤ n := by
  rw [matched_iff_arrival, exists_arrival t.current_lt (Nat.le_of_lt t.limit_lt), nextTick_eq]

/-- A batch up to the match is what its cycles add up to. -/
theorem update_of_not_matched (h : ¬t.Matched n) : t.update n = t.later n := by
  apply update_of_not_crosses
  intro hc
  unfold crosses
  rw [← Bool.decide_and, decide_eq_false_iff_not]
  rintro ⟨hlt, hle⟩
  apply h
  rw [matched_iff]
  refine ⟨hc, by omega, ?_⟩
  unfold nextTick
  rw [if_pos hlt]
  omega

/-- A match after some cycles without one. -/
theorem matched_later {m : Nat} (h : ¬t.Matched n) : (t.later n).Matched m ↔ t.Matched (n + m) := by
  constructor
  · rintro ⟨j, hj, hc, hx⟩
    rw [← iterate_of_not_matched h, ← Function.iterate_add_apply] at hc hx
    exact ⟨j + n, by omega, hc, hx⟩
  · rintro ⟨j, hj, hc, hx⟩
    have hn : n ≤ j := by
      by_contra hlt
      exact h ⟨j, by omega, hc, hx⟩
    obtain ⟨k, rfl⟩ := Nat.exists_eq_add_of_le hn
    rw [Nat.add_comm, Function.iterate_add_apply, iterate_of_not_matched h] at hc hx
    exact ⟨k, by omega, hc, hx⟩

/-- A batch that does not wrap in front of the match crosses the limit when it matches. -/
theorem matched_iff_crosses (hc : t.counting = true) (h : t.current < t.limit ∨ n < t.nextTick) :
    t.Matched n ↔ t.crosses n = true := by
  unfold crosses
  rw [matched_iff, Bool.and_eq_true, decide_eq_true_eq, decide_eq_true_eq]
  by_cases hlt : t.current < t.limit
  · have hnext : t.nextTick = t.limit - t.current := if_pos hlt
    constructor
    · rintro ⟨-, -, hle⟩
      exact ⟨hlt, by omega⟩
    · rintro ⟨-, hle⟩
      exact ⟨hc, by omega, by omega⟩
  · have hn := h.resolve_left hlt
    constructor
    · rintro ⟨-, -, hle⟩
      omega
    · rintro ⟨hlt', -⟩
      exact (hlt hlt').elim

theorem update_irqPending (hc : t.counting = true) (hi : t.irqEnabled = true) :
    (t.update n).irqPending = (t.irqPending || t.crosses n) := by
  have hset : ∀ (u : Tick) (b : Bool), u.ttmr = t.ttmr →
      (u.setPending b).irqPending = (t.irqPending || b) := by
    intro u b hu
    have hui : u.irqEnabled = true := by
      unfold irqEnabled
      rw [hu]
      exact hi
    unfold setPending
    rw [hui, Bool.true_and]
    cases b with
    | false =>
      rw [if_neg Bool.false_ne_true, Bool.or_false]
      unfold irqPending
      rw [hu]
    | true =>
      rw [if_pos rfl, Bool.or_true]
      exact test_or_self (by decide)
  unfold update passed
  dsimp only
  rw [if_neg (not_returned hc)]
  apply hset
  split
  · split <;> rfl
  · split
    · split <;> rfl
    · rfl

/-- Short of the match no cycle raises the interrupt. -/
theorem iterate_irqPending (h : ¬t.Matched n) :
    ((update · 1)^[n] t).irqPending = t.irqPending := by
  rw [iterate_of_not_matched h]
  unfold irqPending
  rw [later_ttmr]

/-- The cycle that steps onto the limit raises the interrupt, and it is the last of
`next_tick` cycles. -/
theorem iterate_nextTick (hc : t.counting = true) (hi : t.irqEnabled = true)
    (hl : 0 < t.limit) (hn : 1 ≤ t.nextTick) :
    ((update · 1)^[t.nextTick] t).irqPending = true := by
  obtain ⟨k, hk⟩ := Nat.exists_eq_add_of_le' hn
  have hm : t.Matched (k + 1) := matched_iff.2 ⟨hc, hl, Nat.le_of_eq hk⟩
  have hnot : ¬t.Matched k := fun h => by
    have := (matched_iff.1 h).2.2
    omega
  have hlater : (t.later k).counting = true := later_counting.trans hc
  have hie : (t.later k).irqEnabled = true := by
    unfold irqEnabled
    rw [later_ttmr]
    exact hi
  -- the match within `k + 1` cycles is not one within `k`, so the last cycle crosses
  have hx : (t.later k).crosses 1 = true := by
    obtain ⟨j, hj, hcj, hxj⟩ := hm
    rcases Nat.lt_succ_iff_lt_or_eq.1 hj with hlt | rfl
    · exact (hnot ⟨j, hlt, hcj, hxj⟩).elim
    · rwa [iterate_of_not_matched hnot] at hxj
  rw [hk, Function.iterate_succ_apply', iterate_of_not_matched hnot,
    update_irqPending hlater hie, hx, Bool.or_true]

theorem nextTick_pos (t : Tick) : 1 ≤ t.nextTick := by
  have := t.current_lt
  unfold nextTick
  split <;> omega

/-- `next_tick` is neither early nor late: the interrupt is raised by the last of that many
single cycles. -/
theorem nextTick_exact (hm : t.mode = TM.RS ∨ t.mode = TM.OS ∨ t.mode = TM.CT)
    (hi : t.irqEnabled = true) (hp : t.irqPending = false) (hl : 0 < t.limit)
    (hd : t.done = false) :
    1 ≤ t.nextTick ∧ (∀ d < t.nextTick, ((update · 1)^[d] t).irqPending = false) ∧
      ((update · 1)^[t.nextTick] t).irqPending = true := by
  have hc : t.counting = true := by
    unfold counting
    rw [hd, Bool.not_false, Bool.and_true, bne_iff_ne]
    rcases hm with h | h | h <;> rw [h] <;> decide
  refine ⟨t.nextTick_pos, fun d hlt => ?_, iterate_nextTick hc hi hl t.nextTick_pos⟩
  have hnot : ¬t.Matched d := fun h => by
    have := (matched_iff.1 h).2.2
    omega
  rw [iterate_irqPending hnot, hp]

/-- A counter above its limit, restarting: it has to wrap first. -/
theorem nextTick_exact_wraps :
    let t : Tick := { done := false, ttmr := 0x60000003#32, ttcr := 0xffffffff#32 }
    1 ≤ t.nextTick ∧ (∀ d < t.nextTick, ((update · 1)^[d] t).irqPending = false) ∧
      ((update · 1)^[t.nextTick] t).irqPending = true :=
  nextTick_exact (.inl (by decide)) (by decide) (by decide) (by decide) rfl

end Tick

end Or1kiss
