import Or1kiss.Timer

/-!
# A batch of cycles and its cycles one by one

`update` is given all the cycles since it was last called. A batch without a match is what its
cycles are one after the other (`updateU64_of_not_matched`). A batch with a match need not be: in
restart mode the cycles behind the match are lost, and a match is not noticed if the counter reaches
it only after it has wrapped, or if the sum with the counter leaves 64 bits. `batchable` says when
that makes no difference.
-/

namespace Or1kiss

open Bits Counter

namespace Tick

variable {t : Tick} {n : Nat}

/-- The cycles of a batch behind its match. -/
def overshoot (t : Tick) (n : Nat) : Nat := n - t.nextTick

/-- A match would set the pending bit. -/
def unanswered (t : Tick) : Bool := t.irqEnabled && !t.irqPending

/-- A match of the batch is noticed. -/
def notices (t : Tick) (delta : U64) : Bool :=
  decide (t.current < t.limit) && decide (t.current + delta.toNat < 2 ^ 64)

/-- The batch has no match, or it is one that `update` takes for what it is. -/
def batchable (t : Tick) (delta : U64) : Prop :=
  t.counting = true ∧ 0 < t.limit ∧ t.nextTick ≤ delta.toNat →
    if t.mode = TM.RS then
      if t.notices delta then t.limit ∣ t.overshoot delta.toNat
      else t.unanswered = false ∧
        t.ttcr + delta.setWidth 32 = BitVec.ofNat 32 (t.overshoot delta.toNat % t.limit)
    else if t.mode = TM.OS then t.notices delta = true
    else t.notices delta = true ∨ t.unanswered = false

/-! ## One match -/

/-- What a match makes of a counter that has come to `v`. -/
def onMatch (t : Tick) (v : U32) : Tick :=
  (if t.mode = TM.RS then { t with ttcr := 0#32 }
    else if t.mode = TM.OS then { t with done := true, ttcr := BitVec.ofNat 32 t.limit }
    else { t with ttcr := v }).setPending true

theorem update_of_crosses (hc : t.counting = true) (hx : t.crosses n = true) :
    t.update n = t.onMatch (t.ttcr + BitVec.ofNat 32 n) := by
  unfold update passed onMatch
  dsimp only
  rw [if_neg (not_returned hc), hx, if_pos rfl, if_pos rfl]

/-- The pending bit that a match leaves. -/
def signalled (t : Tick) : U32 := if t.irqEnabled then t.ttmr ||| TM.IP else t.ttmr

theorem setPending_eq (t : Tick) : t.setPending true = { t with ttmr := t.signalled } := by
  unfold setPending signalled
  cases t.irqEnabled <;> rfl

theorem or_pending_iff (v : U32) : v ||| TM.IP = v ↔ test v TM.IP = true := by
  constructor
  · intro h
    rw [← h]
    exact test_or_self (by decide)
  · intro h
    ext i hi
    rw [BitVec.getElem_or]
    by_cases hb : i = 28
    · subst hb
      have hbit : v[28] = true := by
        by_contra hn
        refine test_eq_true_iff.1 h ?_
        ext j hj
        rw [BitVec.getElem_and, BitVec.getElem_zero]
        by_cases hj' : j = 28
        · subst hj'
          rw [eq_false_of_ne_true hn, Bool.false_and]
        · have hz : (TM.IP : U32)[j] = false := by
            rw [show (TM.IP : U32) = BitVec.twoPow 32 28 from by decide, BitVec.getElem_twoPow]
            exact decide_eq_false hj'
          rw [hz, Bool.and_false]
      rw [hbit, Bool.true_or]
    · have hz : (TM.IP : U32)[i] = false := by
        rw [show (TM.IP : U32) = BitVec.twoPow 32 28 from by decide, BitVec.getElem_twoPow]
        exact decide_eq_false hb
      rw [hz, Bool.or_false]

theorem signalled_eq_iff : t.signalled = t.ttmr ↔ t.unanswered = false := by
  unfold signalled unanswered
  cases hi : t.irqEnabled with
  | false => exact iff_of_true rfl rfl
  | true =>
    rw [if_pos rfl, or_pending_iff, Bool.true_and, Bool.not_eq_false']
    rfl

/-! ## The cycles behind a match -/

/-- The timer with a pending bit that a match does not change any more, and the counter at `v`. -/
def matched (t : Tick) (v : U32) : Tick := { t with ttmr := t.signalled, ttcr := v }

theorem signalled_and {k : U32} (h : TM.IP &&& k = 0#32) : t.signalled &&& k = t.ttmr &&& k := by
  unfold signalled
  split
  · exact or_and_of_disjoint h
  · rfl

theorem matched_mode (v : U32) : (t.matched v).mode = t.mode := signalled_and (by decide)

theorem matched_limit (v : U32) : (t.matched v).limit = t.limit := by
  have h : bits32 t.signalled 27 0 = bits32 t.ttmr 27 0 := by
    unfold signalled bits32
    split
    · rw [BitVec.shiftLeft_or_distrib, BitVec.ushiftRight_or_distrib,
        show (TM.IP <<< (31 - 27)) >>> (31 - 27 + 0) = 0#32 from by decide, BitVec.or_zero]
    · rfl
  exact congrArg BitVec.toNat h

theorem matched_irqEnabled (v : U32) : (t.matched v).irqEnabled = t.irqEnabled :=
  test_congr (k := TM.IE) (by decide) (signalled_and (by decide))

theorem matched_counting (v : U32) : (t.matched v).counting = t.counting := by
  unfold counting
  rw [matched_mode]
  rfl

/-- The next match leaves the pending bit alone. -/
theorem matched_matched (v w : U32) : (t.matched v).matched w = t.matched w := by
  have hs : (t.matched v).signalled = t.signalled := by
    unfold signalled
    rw [matched_irqEnabled]
    show (if t.irqEnabled then t.signalled ||| TM.IP else t.signalled) = _
    unfold signalled
    cases t.irqEnabled with
    | false => rfl
    | true => exact (BitVec.or_assoc ..).trans (congrArg _ BitVec.or_self)
  unfold matched at hs ⊢
  rw [hs]

theorem onMatch_restart (hm : t.mode = TM.RS) (v : U32) : t.onMatch v = t.matched 0#32 := by
  unfold onMatch
  rw [if_pos hm, setPending_eq]
  rfl

theorem onMatch_oneShot (hm : t.mode = TM.OS) (v : U32) :
    t.onMatch v = { t.matched (BitVec.ofNat 32 t.limit) with done := true } := by
  have hr : ¬t.mode = TM.RS := by
    rw [hm]
    decide
  unfold onMatch
  rw [if_neg hr, if_pos hm, setPending_eq]
  rfl

theorem onMatch_continue (hr : t.mode ≠ TM.RS) (ho : t.mode ≠ TM.OS) (v : U32) :
    t.onMatch v = t.matched v := by
  unfold onMatch
  rw [if_neg hr, if_neg ho, setPending_eq]
  rfl

/-- One cycle of a timer that counts. -/
theorem update_one (hc : t.counting = true) : t.update 1 =
    if t.current + 1 = t.limit then t.onMatch (t.ttcr + 1#32) else { t with ttcr := t.ttcr + 1#32 } := by
  split
  · rename_i he
    exact update_of_crosses hc (by rw [crosses_one, decide_eq_true he])
  · rename_i he
    rw [update_of_not_crosses fun _ => by rw [crosses_one, decide_eq_false he]]
    unfold later
    rw [if_pos hc]

/-- In restart mode the counter goes on modulo the limit. -/
theorem iterate_matched_restart (hc : t.counting = true) (hm : t.mode = TM.RS) {k : Nat}
    (hk : k < t.limit) (r : Nat) : (update · 1)^[r] (t.matched (BitVec.ofNat 32 k)) =
      t.matched (BitVec.ofNat 32 ((k + r) % t.limit)) := by
  have hlt := t.limit_lt
  have hstep : ∀ j, j < t.limit → (t.matched (BitVec.ofNat 32 j)).update 1 =
      t.matched (BitVec.ofNat 32 (restart t.limit j)) := by
    intro j hj
    have hcur : (t.matched (BitVec.ofNat 32 j)).current = j := by
      rw [current_eq]
      show (BitVec.ofNat 32 j).toNat % 2 ^ 28 = j
      rw [BitVec.toNat_ofNat]
      omega
    rw [update_one ((matched_counting _).trans hc), hcur, matched_limit,
      onMatch_restart ((matched_mode _).trans hm)]
    unfold restart
    split
    · exact matched_matched _ _
    · rw [BitVec.ofNat_add]
      rfl
  rw [← iterate_restart hk]
  induction r with
  | zero => rfl
  | succ r ih =>
    rw [Function.iterate_succ_apply', Function.iterate_succ_apply', ih, hstep]
    rw [iterate_restart hk]
    exact Nat.mod_lt _ (by omega)

/-- In continue mode it goes on as ever. -/
theorem iterate_matched_continue (hc : t.counting = true) (hr : t.mode ≠ TM.RS) (ho : t.mode ≠ TM.OS)
    (v : U32) (r : Nat) : (update · 1)^[r] (t.matched v) = t.matched (v + BitVec.ofNat 32 r) := by
  induction r with
  | zero =>
    rw [show BitVec.ofNat 32 0 = 0#32 from rfl, BitVec.add_zero]
    rfl
  | succ r ih =>
    have hstep : ∀ w : U32, (t.matched w).update 1 = t.matched (w + 1#32) := by
      intro w
      rw [update_one ((matched_counting w).trans hc),
        onMatch_continue (by rwa [matched_mode]) (by rwa [matched_mode])]
      split
      · exact matched_matched _ _
      · rfl
    rw [Function.iterate_succ_apply', ih, hstep, BitVec.ofNat_add, BitVec.add_assoc]

/-- The cycles of a batch up to its match, and behind it. -/
theorem iterate_of_matched (h : t.Matched n) : (update · 1)^[n] t =
    (update · 1)^[t.overshoot n] (t.onMatch (t.ttcr + BitVec.ofNat 32 t.nextTick)) := by
  obtain ⟨hc, hl, hle⟩ := matched_iff.1 h
  have hpos : 0 < t.nextTick := by
    rw [nextTick_eq]
    exact wait_pos hl
  have hno : ¬t.Matched (t.nextTick - 1) := by
    rw [matched_iff]
    rintro ⟨-, -, hlt⟩
    omega
  have hlast : (t.later (t.nextTick - 1)).update 1 =
      t.onMatch (t.ttcr + BitVec.ofNat 32 t.nextTick) := by
    have hcur : (t.later (t.nextTick - 1)).current + 1 = (t.later (t.nextTick - 1)).limit := by
      rw [later_current hc, later_limit, nextTick_eq]
      exact arrival_wait t.current_lt hl (Nat.le_of_lt t.limit_lt)
    have hlater : t.later (t.nextTick - 1) =
        { t with ttcr := t.ttcr + BitVec.ofNat 32 (t.nextTick - 1) } := by
      unfold later
      rw [if_pos hc]
    have hsum : t.ttcr + BitVec.ofNat 32 (t.nextTick - 1) + 1#32 =
        t.ttcr + BitVec.ofNat 32 t.nextTick := by
      rw [BitVec.add_assoc]
      show _ + (BitVec.ofNat 32 (t.nextTick - 1) + BitVec.ofNat 32 1) = _
      rw [← BitVec.ofNat_add, Nat.sub_add_cancel hpos]
    rw [update_one (later_counting.trans hc), if_pos hcur, hlater]
    dsimp only
    rw [hsum]
    rfl
  have hn : n = t.overshoot n + (1 + (t.nextTick - 1)) := by
    unfold overshoot
    omega
  calc (update · 1)^[n] t
      = (update · 1)^[t.overshoot n + (1 + (t.nextTick - 1))] t := congrArg (fun k => (update · 1)^[k] t) hn
    _ = (update · 1)^[t.overshoot n] ((t.later (t.nextTick - 1)).update 1) := by
      rw [Function.iterate_add_apply, Function.iterate_add_apply, iterate_of_not_matched hno]
      rfl
    _ = _ := congrArg _ hlast

/-- What a batch with a match comes to, in one go. -/
theorem update_of_matched (h : t.Matched n) : t.update n =
    if t.current < t.limit then t.onMatch (t.ttcr + BitVec.ofNat 32 n)
    else { t with ttcr := t.ttcr + BitVec.ofNat 32 n } := by
  obtain ⟨hc, hl, hle⟩ := matched_iff.1 h
  split
  · rename_i hlt
    have hnext : t.nextTick = t.limit - t.current := if_pos hlt
    have hx : t.crosses n = true := by
      unfold crosses
      rw [Bool.and_eq_true, decide_eq_true_eq, decide_eq_true_eq]
      omega
    exact update_of_crosses hc hx
  · rename_i hge
    have hx : t.crosses n = false := by
      unfold crosses
      rw [decide_eq_false hge, Bool.false_and]
    rw [update_of_not_crosses fun _ => hx]
    unfold later
    rw [if_pos hc]

/-! ## The 64-bit sum -/

/-- The limit is crossed in 64 bits if it is crossed and the sum does not wrap. -/
theorem crossesU64_eq (t : Tick) (delta : U64) : t.crossesU64 delta =
    (t.crosses delta.toNat && decide (t.current + delta.toNat < 2 ^ 64)) := by
  have hcur := t.current_lt
  have hsum : (BitVec.ofNat 64 t.current + delta).toNat = (t.current + delta.toNat) % 2 ^ 64 := by
    rw [BitVec.toNat_add, BitVec.toNat_ofNat, Nat.mod_eq_of_lt (by omega : t.current < 2 ^ 64)]
  have hdelta := delta.isLt
  unfold crossesU64 crosses
  rw [hsum, Bool.and_assoc, ← Bool.decide_and, ← Bool.decide_and, ← Bool.decide_and, decide_eq_decide]
  omega

theorem setWidth_eq_ofNat (delta : U64) : delta.setWidth 32 = BitVec.ofNat 32 delta.toNat := rfl

/-- A batch whose sum with the counter wraps counts without a match. -/
theorem updateU64_eq_ite (t : Tick) (delta : U64) : t.updateU64 delta =
    if t.current + delta.toNat < 2 ^ 64 then t.update delta.toNat else t.later delta.toNat := by
  unfold updateU64
  rw [crossesU64_eq, setWidth_eq_ofNat]
  split
  · rename_i hfit
    rw [decide_eq_true hfit, Bool.and_true]
    rfl
  · rename_i hfit
    rw [decide_eq_false hfit, Bool.and_false]
    exact passed_uncrossed t _

/-- Short of `2^64` the clock may as well not wrap. -/
theorem updateU64_eq {delta : U64} (h : t.current + delta.toNat < 2 ^ 64) :
    t.updateU64 delta = t.update delta.toNat := by
  rw [updateU64_eq_ite, if_pos h]

theorem updateU64_one : (updateU64 · 1#64) = (update · 1) := by
  funext t
  have hcur := t.current_lt
  exact updateU64_eq (show t.current + 1 < 2 ^ 64 by omega)

theorem updateU64_of_not_matched {delta : U64} (h : ¬t.Matched delta.toNat) :
    t.updateU64 delta = t.later delta.toNat := by
  rw [updateU64_eq_ite, update_of_not_matched h, ite_self]

theorem updateU64_of_matched {delta : U64} (h : t.Matched delta.toNat) : t.updateU64 delta =
    if t.notices delta then t.onMatch (t.ttcr + delta.setWidth 32)
    else { t with ttcr := t.ttcr + delta.setWidth 32 } := by
  rw [updateU64_eq_ite, update_of_matched h, setWidth_eq_ofNat]
  unfold notices
  by_cases hfit : t.current + delta.toNat < 2 ^ 64
  · rw [if_pos hfit, decide_eq_true hfit, Bool.and_true]
    by_cases hlt : t.current < t.limit
    · rw [if_pos hlt, decide_eq_true hlt, if_pos rfl]
    · rw [if_neg hlt, decide_eq_false hlt, if_neg Bool.false_ne_true]
  · rw [if_neg hfit, decide_eq_false hfit, Bool.and_false, if_neg Bool.false_ne_true]
    unfold later
    rw [if_pos (matched_iff.1 h).1]

theorem matched_inj {v w : U32} : t.matched v = t.matched w ↔ v = w :=
  ⟨congrArg ttcr, congrArg t.matched⟩

/-- A counter that has gone on without the match. -/
theorem unmatched_eq_iff {v w : U32} :
    { t with ttcr := v } = t.matched w ↔ t.unanswered = false ∧ v = w := by
  constructor
  · intro h
    exact ⟨signalled_eq_iff.1 (congrArg ttmr h).symm, congrArg ttcr h⟩
  · rintro ⟨hs, rfl⟩
    unfold matched
    rw [signalled_eq_iff.2 hs]

/-- A batch leaves what its cycles leave one at a time if and only if it has no match, or one that
`update` takes for what it is. -/
theorem update_iterate_iff (t : Tick) (delta : U64) :
    t.updateU64 delta = (updateU64 · 1#64)^[delta.toNat] t ↔ t.batchable delta := by
  unfold batchable
  rw [updateU64_one, ← matched_iff]
  by_cases h : t.Matched delta.toNat
  · obtain ⟨hc, hl, hle⟩ := matched_iff.1 h
    have hlt := t.limit_lt
    rw [updateU64_of_matched h, iterate_of_matched h, imp_iff_right h]
    by_cases hr : t.mode = TM.RS
    · have hit := iterate_matched_restart hc hr hl (t.overshoot delta.toNat)
      rw [if_pos hr, onMatch_restart hr, onMatch_restart hr, hit, Nat.zero_add]
      split
      · rw [matched_inj, eq_comm, ← BitVec.toNat_inj, BitVec.toNat_ofNat]
        have hmod := Nat.mod_lt (t.overshoot delta.toNat) hl
        rw [Nat.mod_eq_of_lt (by omega)]
        exact (Nat.dvd_iff_mod_eq_zero ..).symm
      · exact unmatched_eq_iff
    · rw [if_neg hr]
      by_cases ho : t.mode = TM.OS
      · have hstop : ∀ k, (update · 1)^[k] (t.onMatch (t.ttcr + BitVec.ofNat 32 t.nextTick)) =
            t.onMatch (t.ttcr + BitVec.ofNat 32 t.nextTick) := by
          intro k
          refine Function.iterate_fixed (update_of_not_counting ?_ 1) k
          rw [onMatch_oneShot ho]
          exact Bool.and_false _
        rw [if_pos ho, hstop, onMatch_oneShot ho, onMatch_oneShot ho]
        split
        · rename_i hlo
          exact iff_of_true rfl hlo
        · rename_i hlo
          refine iff_of_false (fun he => ?_) hlo
          have hdone : t.done = true := congrArg done he
          unfold counting at hc
          rw [hdone] at hc
          exact Bool.noConfusion (hc.symm.trans (Bool.and_false _))
      · rw [if_neg ho, onMatch_continue hr ho, onMatch_continue hr ho,
          iterate_matched_continue hc hr ho]
        have hsum : t.ttcr + BitVec.ofNat 32 t.nextTick + BitVec.ofNat 32 (t.overshoot delta.toNat) =
            t.ttcr + delta.setWidth 32 := by
          rw [BitVec.add_assoc, ← BitVec.ofNat_add, setWidth_eq_ofNat]
          unfold overshoot
          rw [Nat.add_sub_cancel' hle]
        rw [hsum]
        split
        · rename_i hlo
          exact iff_of_true rfl (.inl hlo)
        · rename_i hlo
          rw [unmatched_eq_iff]
          exact ⟨fun h => .inr h.1, fun h => ⟨h.resolve_left hlo, rfl⟩⟩
  · rw [updateU64_of_not_matched h, iterate_of_not_matched h]
    exact iff_of_true rfl fun hm => (h hm).elim

/-- In restart mode a batch of three cycles loses the one behind the match. -/
theorem update_iterate_iff_fails : ∃ (t : Tick) (delta : U64), t.mode = TM.RS ∧ t.limit = 2 ∧
    (t.updateU64 delta).ttcr = 0#32 ∧ ((updateU64 · 1#64)^[delta.toNat] t).ttcr = 1#32 :=
  ⟨{ done := false, ttmr := 0x40000002#32, ttcr := 0#32 }, 3#64, by decide⟩

/-- A batch whose sum wraps loses its match. -/
example : let t : Tick := { done := false, ttmr := 0xe000000a#32, ttcr := 5#32 }
    (t.updateU64 0xffffffffffffffff#64).irqPending = false ∧ (t.updateU64 5#64).irqPending = true := by
  decide

/-! ## One batch in two parts -/

/-- A match is seen by `update`, or the timer goes on as without it. -/
def seen (t : Tick) (n : Nat) : Prop :=
  t.Matched n → t.current < t.limit ∨ (t.mode = TM.CT ∧ t.unanswered = false)

theorem seen_of_not_matched (h : ¬t.Matched n) : t.seen n := fun hm => (h hm).elim

theorem onMatch_later (m : Nat) (v : U32) : (t.later m).onMatch v = t.onMatch v := by
  unfold later
  split <;> rfl

/-- Behind a batch without a match, the next one is as good as both in one. -/
theorem update_add {m : Nat} (hm : ¬t.Matched n) (hs : t.seen (n + m)) :
    (t.update n).update m = t.update (n + m) := by
  rw [update_of_not_matched hm]
  by_cases h : t.Matched (n + m)
  · obtain ⟨hc, hl, -⟩ := matched_iff.1 h
    have hlater : t.later n = { t with ttcr := t.ttcr + BitVec.ofNat 32 n } := if_pos hc
    have hsum : (t.later n).ttcr + BitVec.ofNat 32 m = t.ttcr + BitVec.ofNat 32 (n + m) := by
      rw [hlater, BitVec.ofNat_add, BitVec.add_assoc]
    have hrest : ({ t.later n with ttcr := t.ttcr + BitVec.ofNat 32 (n + m) } : Tick) =
        { t with ttcr := t.ttcr + BitVec.ofNat 32 (n + m) } := by rw [hlater]
    rw [update_of_matched ((matched_later hm).2 h), update_of_matched h, hsum, onMatch_later, hrest,
      later_limit]
    rcases hs h with hlt | ⟨hct, hu⟩
    · have hnext : t.nextTick = t.limit - t.current := if_pos hlt
      have hn : n < t.nextTick := by
        by_contra hle
        exact hm (matched_iff.2 ⟨hc, hl, Nat.le_of_not_lt hle⟩)
      have hlim := t.limit_lt
      have hcur : (t.later n).current < t.limit := by
        rw [later_current hc, Nat.mod_eq_of_lt (by omega)]
        omega
      rw [if_pos hcur, if_pos hlt]
    · have hsame : t.onMatch (t.ttcr + BitVec.ofNat 32 (n + m)) =
          { t with ttcr := t.ttcr + BitVec.ofNat 32 (n + m) } := by
        rw [onMatch_continue (by rw [hct]; decide) (by rw [hct]; decide)]
        unfold matched
        rw [signalled_eq_iff.2 hu]
      rw [hsame, ite_self, ite_self]
  · have hrest : ¬(t.later n).Matched m := fun h' => h ((matched_later hm).1 h')
    rw [update_of_not_matched h, update_of_not_matched hrest, later_later]

end Tick

end Or1kiss
