import Mathlib.Logic.Function.Iterate

/-!
# A modular counter with a limit

A counter below `M` advances by one and wraps. `wait M cur lim` is the number of steps until it
steps onto the limit; `exists_arrival` says that it is, and that a limit of zero is never
stepped onto. A counter that restarts at its limit counts modulo the limit (`iterate_restart`).
-/

namespace Counter

/-- Steps until the counter steps onto the limit from below. -/
def wait (M cur lim : Nat) : Nat := if cur < lim then lim - cur else M - cur + lim

variable {M cur lim n : Nat}

theorem wait_pos (hl : 0 < lim) : 0 < wait M cur lim := by
  unfold wait
  split <;> omega

/-- Up to the limit no step arrives. -/
theorem wait_le_of_arrival (hc : cur < M) {j : Nat} (h : (cur + j) % M + 1 = lim) :
    wait M cur lim ≤ j + 1 := by
  unfold wait
  have hmod := Nat.mod_le (cur + j) M
  split
  · omega
  · rename_i hcl
    by_cases hw : cur + j < M
    · rw [Nat.mod_eq_of_lt hw] at h
      omega
    · have hsub : (cur + j) % M ≤ cur + j - M := by
        rw [Nat.mod_eq_sub_mod (by omega)]
        exact Nat.mod_le _ _
      omega

/-- The last step of the wait arrives. -/
theorem arrival_wait (hc : cur < M) (hl : 0 < lim) (hm : lim ≤ M) :
    (cur + (wait M cur lim - 1)) % M + 1 = lim := by
  unfold wait
  split
  · rw [Nat.mod_eq_of_lt (by omega)]
    omega
  · have hs : cur + (M - cur + lim - 1) = lim - 1 + M := by omega
    rw [hs, Nat.add_mod_right, Nat.mod_eq_of_lt (by omega)]
    omega

/-- The counter steps onto its limit within `n` steps exactly if the wait is that short. -/
theorem exists_arrival (hc : cur < M) (hm : lim ≤ M) :
    (∃ j < n, (cur + j) % M + 1 = lim) ↔ 0 < lim ∧ wait M cur lim ≤ n := by
  constructor
  · rintro ⟨j, hj, h⟩
    have := wait_le_of_arrival hc h
    exact ⟨by omega, by omega⟩
  · rintro ⟨hl, hn⟩
    have hw : 0 < wait M cur lim := wait_pos hl
    exact ⟨wait M cur lim - 1, by omega, arrival_wait hc hl hm⟩

/-- One step of a counter that restarts at its limit. -/
def restart (lim k : Nat) : Nat := if k + 1 = lim then 0 else k + 1

theorem restart_eq {k : Nat} (h : k < lim) : restart lim k = (k + 1) % lim := by
  unfold restart
  split
  · rename_i he
    rw [he, Nat.mod_self]
  · rw [Nat.mod_eq_of_lt (by omega)]

theorem iterate_restart {k : Nat} (h : k < lim) : (restart lim)^[n] k = (k + n) % lim := by
  induction n with
  | zero => exact (Nat.mod_eq_of_lt h).symm
  | succ n ih =>
    rw [Function.iterate_succ_apply', ih, restart_eq (Nat.mod_lt _ (by omega)), Nat.mod_add_mod,
      Nat.add_assoc]

end Counter
