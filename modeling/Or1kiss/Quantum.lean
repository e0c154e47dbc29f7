import Or1kiss.Batch
import Or1kiss.Budget
import Or1kiss.Retimed

/-!
# Quanta

`step(n)` brings the timer up to date and samples the interrupts at the end of a mini-quantum, and
a call for fewer cycles does so earlier. `beat` does so behind every instruction: a call follows it,
whatever its quantum, as long as `keepsTime` holds of its steps.
-/

namespace Or1kiss

open Host Bits Runs

variable {σ : Type}

namespace Tick

variable {t : Tick} {n m : Nat}

instance (t : Tick) (n : Nat) : Decidable (t.seen n) :=
  inferInstanceAs (Decidable (t.Matched n → t.current < t.limit ∨ (t.mode = TM.CT ∧ t.unanswered = false)))

theorem Matched.mono (h : t.Matched n) (hle : n ≤ m) : t.Matched m :=
  let ⟨j, hj, hm⟩ := h
  ⟨j, Nat.lt_of_lt_of_le hj hle, hm⟩

theorem onMatch_ttmr (t : Tick) (v : U32) : (t.onMatch v).ttmr = t.signalled := by
  by_cases hr : t.mode = TM.RS
  · rw [onMatch_restart hr]
    rfl
  · by_cases ho : t.mode = TM.OS
    · rw [onMatch_oneShot ho]
      rfl
    · rw [onMatch_continue hr ho]
      rfl

theorem update_ttmr (t : Tick) (n : Nat) :
    (t.update n).ttmr = t.ttmr ∨ (t.update n).ttmr = t.ttmr ||| TM.IP := by
  by_cases hc : t.counting = true ∧ t.crosses n = true
  · rw [update_of_crosses hc.1 hc.2, onMatch_ttmr]
    unfold signalled
    split
    · exact .inr rfl
    · exact .inl rfl
  · have hx : t.counting = true → t.crosses n = false := fun h =>
      eq_false_of_ne_true fun hx => hc ⟨h, hx⟩
    rw [update_of_not_crosses hx]
    exact .inl later_ttmr

theorem update_enabled (t : Tick) (n : Nat) : (t.update n).enabled = t.enabled := by
  unfold enabled
  rcases t.update_ttmr n with h | h
  · rw [h]
  · rw [h, BitVec.ushiftRight_or_distrib, show (TM.IP : U32) >>> 30 = 0#32 from by decide,
      BitVec.or_zero]

end Tick

namespace Or1k

variable {s x y : Or1k σ} {e : ExType} {l k : Nat} {t : Tick}

/-! ## The end of a mini-quantum -/

/-- The timer is brought up to date. -/
def synced (s : Or1k σ) : Or1k σ := { s with tick := s.tick.update s.lag, tickUpdate := s.cycles }

/-- An interrupt is to be accepted. -/
def alarmed (s : Or1k σ) : Bool :=
  s.tick.enabled && s.tick.irqPending && s.isTickIrqEnabled ||
    s.isInterruptPending && s.isExtIrqEnabled

/-- The interrupts are sampled, that of the timer first. -/
def sampled (s : Or1k σ) : Or1k σ :=
  (if s.tick.enabled && s.tick.irqPending then s.interrupted .tickTimer else s).externalChecked

/-- What the end of a mini-quantum leaves. -/
def ended (s : Or1k σ) : Or1k σ := s.synced.sampled

theorem interrupted_tickUpdate (k : Nat) :
    { s.interrupted e with tickUpdate := k } = ({ s with tickUpdate := k } : Or1k σ).interrupted e := by
  unfold interrupted
  dsimp only
  split <;> rfl

theorem ended_eq : s.timerUpdated.externalChecked = s.ended := by
  refine congrArg externalChecked ?_
  unfold timerUpdated tickChecked
  have he : s.synced.tick.enabled = s.tick.enabled := s.tick.update_enabled _
  rw [he]
  cases hen : s.tick.enabled with
  | false =>
    rw [if_neg Bool.false_ne_true, Bool.false_and, if_neg Bool.false_ne_true]
    unfold synced
    rw [Tick.update_of_not_enabled hen]
  | true =>
    rw [if_pos rfl, Bool.true_and]
    have hp : s.synced.tick.irqPending = s.syncTick.tick.irqPending := rfl
    rw [hp]
    split
    · exact interrupted_tickUpdate _
    · rfl

theorem alarmed_of_handlerMode (h : HandlerMode s.status) : s.alarmed = false := by
  have ht : s.isTickIrqEnabled = false := by
    rw [← Bool.not_eq_true']
    exact masked_of_handlerMode h (e := .tickTimer) rfl
  have hx : s.isExtIrqEnabled = false := by
    rw [← Bool.not_eq_true']
    exact masked_of_handlerMode h (e := .external) rfl
  unfold alarmed
  rw [ht, hx, Bool.and_false, Bool.and_false, Bool.or_false]

theorem external_of_quiet (h : s.alarmed = false) :
    (s.isInterruptPending && s.isExtIrqEnabled) = false := (Bool.or_eq_false_iff.1 h).2

theorem sampled_of_quiet (h : s.alarmed = false) : s.sampled = s := by
  unfold alarmed at h
  rw [Bool.or_eq_false_iff] at h
  obtain ⟨ht, hx⟩ := h
  unfold sampled
  split
  · rename_i hp
    rw [hp, Bool.true_and] at ht
    rcases interrupted_cases (s := s) (e := .tickTimer) rfl with ⟨-, hi⟩ | ha
    · rw [hi]
      exact externalChecked_of_masked hx
    · have hm : (!s.isTickIrqEnabled) = false := ha.enabled
      rw [ht] at hm
      cases hm
  · exact externalChecked_of_masked hx

/-- An interrupt that has been sampled is masked. -/
theorem sampled_quiet : s.sampled.alarmed = false := by
  unfold sampled
  generalize hb : (if s.tick.enabled && s.tick.irqPending then s.interrupted .tickTimer else s) = b
  cases hx : b.isInterruptPending && b.isExtIrqEnabled with
  | true => exact alarmed_of_handlerMode (externalChecked_accepts hx).mode
  | false =>
    rw [externalChecked_of_masked hx]
    split at hb
    · rcases interrupted_cases (s := s) (e := .tickTimer) rfl with ⟨hm, hi⟩ | ha
      · rw [hi] at hb
        subst hb
        have hm : s.isTickIrqEnabled = false := by
          rw [← Bool.not_eq_true']
          exact hm
        unfold alarmed
        rw [hx, hm, Bool.and_false, Bool.or_false]
      · subst hb
        exact alarmed_of_handlerMode ha.mode
    · rename_i hp
      subst hb
      unfold alarmed
      rw [hx, eq_false_of_ne_true hp, Bool.false_and, Bool.or_false]

theorem externalChecked_masks :
    (s.externalChecked.isInterruptPending && s.externalChecked.isExtIrqEnabled) = false := by
  cases hx : s.isInterruptPending && s.isExtIrqEnabled with
  | true =>
    exact external_of_quiet (alarmed_of_handlerMode (externalChecked_accepts hx).mode)
  | false =>
    rw [externalChecked_of_masked hx]
    exact hx

theorem sampled_clocked : Clocked s s.sampled := by
  refine .trans ?_ externalChecked_clocked
  split
  · exact interrupted_clocked
  · exact .refl s

theorem sampled_cycles : s.sampled.cycles = s.cycles := by
  unfold sampled
  rw [Machine.externalChecked_cycles]
  split
  · exact interrupted_cycles _
  · rfl

theorem synced_eq (hk : s.tickUpdate = s.cycles) : s.synced = s := by
  unfold synced lag
  rw [hk, Nat.sub_self, Tick.update_zero, ← hk]

theorem ended_tickUpdate : s.ended.tickUpdate = s.ended.cycles := by
  have hc : s.synced.sampled.cycles = s.cycles := sampled_cycles
  exact sampled_clocked.tickUpdate.trans hc.symm

theorem ended_ended : s.ended.ended = s.ended := by
  show s.ended.synced.sampled = s.ended
  rw [synced_eq ended_tickUpdate]
  exact sampled_of_quiet sampled_quiet

/-! ## What the guest can see -/

/-- Without what is between `advance` and its caller. -/
def bare (s : Or1k σ) : Or1k σ :=
  { s with limit := 0, stopRequested := false, breakRequested := false,
           wpEvent := { s.wpEvent with hit := false } }

theorem bare_of_clear {a b c : Bool} (ha : s.stopRequested = a) (hb : s.breakRequested = b)
    (hc : s.wpEvent.hit = c) :
    ({ s with limit := l, stopRequested := a, breakRequested := b,
              wpEvent := { s.wpEvent with hit := c } } : Or1k σ) = { s with limit := l } := by
  subst ha hb hc
  rfl

theorem interrupted_bare (e : ExType) (s : Or1k σ) : s.bare.interrupted e = (s.interrupted e).bare := by
  unfold interrupted
  have hm : s.bare.toCore.masked e = s.toCore.masked e := by cases e <;> rfl
  rw [hm]
  split
  · rfl
  · unfold withCore Core.entered
    split <;> rfl

theorem externalChecked_bare (s : Or1k σ) : s.bare.externalChecked = s.externalChecked.bare := by
  unfold externalChecked
  have hp : s.bare.isInterruptPending = s.isInterruptPending := rfl
  rw [hp]
  split
  · exact interrupted_bare _ _
  · rfl

theorem sampled_bare : s.bare.sampled = s.sampled.bare := by
  unfold sampled
  have ht : s.bare.tick = s.tick := rfl
  rw [ht, ← externalChecked_bare, interrupted_bare]
  split <;> rfl

theorem ended_bare : s.bare.ended = s.ended.bare := sampled_bare (s := s.synced)

/-- The end depends on the timer only through what bringing it up to date makes of it. -/
theorem ended_retimed (h : t.update (s.cycles - k) = s.tick.update s.lag) :
    (s.retimed l t k).ended.bare = s.ended.bare := by
  have hs : (s.retimed l t k).synced.bare = s.synced.bare := by
    show ({ s with tick := t.update (s.cycles - k), tickUpdate := s.cycles } : Or1k σ).bare = _
    rw [h]
    rfl
  exact (ended_bare (s := s.retimed l t k)).symm.trans
    ((congrArg sampled hs).trans ended_bare)

/-! ## Instructions that request no break -/

/-- No interrupt is enabled or signalled that was not before. -/
structure Muted (s x : Or1k σ) : Prop where
  picMr : x.picMr = s.picMr
  picSr : x.picSr = s.picSr
  status : x.status &&& modeMask = s.status &&& modeMask ∨ HandlerMode x.status

theorem Muted.refl (s : Or1k σ) : Muted s s := ⟨rfl, rfl, .inl rfl⟩

theorem Muted.trans (h : Muted s x) (h' : Muted x y) : Muted s y := by
  refine ⟨h'.picMr.trans h.picMr, h'.picSr.trans h.picSr, ?_⟩
  rcases h'.status with hs' | hm'
  · rcases h.status with hs | hm
    · exact .inl (hs'.trans hs)
    · refine .inr ?_
      unfold HandlerMode at hm ⊢
      rw [hs', hm]
  · exact .inr hm'

theorem muted_of_outcomes (h : Core.Outcomes s.toCore x.toCore) : Muted s x := by
  refine ⟨h.picMr, h.picSr, ?_⟩
  have hcover : ∀ v : U32, v &&& modeMask = (v &&& ~~~resultFlags) &&& modeMask := fun v => by
    rw [BitVec.and_assoc, show ~~~resultFlags &&& modeMask = modeMask by decide]
  rcases h.control with hc | ⟨-, hh⟩
  · refine .inl ?_
    show x.status &&& modeMask = s.status &&& modeMask
    rw [hcover, hc.status, ← hcover]
  · exact .inr hh.mode

/-- The sampling of interrupts that it finds quiet. -/
theorem Muted.quiet (h : Muted s x) (ht : x.tick.ttmr = s.tick.ttmr) (hq : s.alarmed = false) :
    x.alarmed = false := by
  rcases h.status with hs | hm
  · have he : x.isExtIrqEnabled = s.isExtIrqEnabled := test_congr (k := modeMask) (by decide) hs
    have hk : x.isTickIrqEnabled = s.isTickIrqEnabled := test_congr (k := modeMask) (by decide) hs
    have hp : x.isInterruptPending = s.isInterruptPending := by
      unfold Core.isInterruptPending
      rw [h.picSr, h.picMr]
    have hen : x.tick.enabled = s.tick.enabled := by
      unfold Tick.enabled
      rw [ht]
    have hip : x.tick.irqPending = s.tick.irqPending := by
      unfold Tick.irqPending
      rw [ht]
    unfold alarmed
    rw [he, hk, hp, hen, hip]
    exact hq
  · exact alarmed_of_handlerMode hm

variable [EnvImpl σ] [HostLib] {ci : Instruction}

theorem executed_muted (h : Executed ci s x) (hb : x.breakRequested = false) : Muted s x := by
  cases h with
  | plain c limit e he hp h => exact muted_of_outcomes h.outcomes
  | untaken => exact .refl _
  | taken e target r c he hj ht h hr =>
    obtain ⟨hk, hj | ⟨-, hh⟩⟩ := Core.scheduleJump_outcomes h
    · exact ⟨hk.picMr, hk.picSr, .inl (congrArg (· &&& modeMask) hj.status)⟩
    · exact ⟨hk.picMr, hk.picSr, .inr hh.mode⟩
  | mtspr a b he ha hb' => cases (sprWritten_breakRequested _ _ _).symm.trans hb
  | nop x he h =>
    obtain ⟨rfl, -⟩ | ⟨rfl, -⟩ | ⟨c, rfl, ⟨g, t, a, b, rfl⟩, -⟩ := nop_ok h
    · exact ⟨rfl, rfl, .inl rfl⟩
    · cases hb
    · exact ⟨rfl, rfl, .inl rfl⟩
  | rfe x he h =>
    obtain ⟨c, hc, rfl⟩ := rfe_ok h
    unfold rfeRestored at hb
    split at hb <;> cases hb

theorem fetchExecute_muted (h : s.fetchExecute = .ok x) (hb : x.breakRequested = false) :
    Muted s x := by
  obtain ⟨ci, f, -, hf, hx⟩ | ⟨-, b, c, hf, ⟨t, addr, ht, -, rfl⟩, rfl⟩ := fetchExecute_ok h
  · have hs : Muted s f := ⟨congrArg (·.picMr) hf.eq, congrArg (·.picSr) hf.eq,
      .inl (congrArg (·.status &&& modeMask) hf.eq)⟩
    exact hs.trans (executed_muted hx hb)
  · have hk := Core.kept_entered (c := b) ht addr
    have hm : HandlerMode (b.entered t addr).status := by
      unfold Core.entered
      rw [if_neg (ne_true_of_eq_false ht)]
      exact Core.exceptionStatus_mode b
    exact ⟨hk.picMr.trans (congrArg (·.picMr) hf.eq), hk.picSr.trans (congrArg (·.picSr) hf.eq), .inr hm⟩

omit [EnvImpl σ] [HostLib] in
theorem retired_muted (limit : Nat) (x : Or1k σ) : Muted x (Machine.retired limit x).cpu := by
  have hfo : ∀ v : U32, (v ||| SR.FO) &&& modeMask = v &&& modeMask := fun v =>
    or_and_of_disjoint (by decide)
  rw [Machine.retired_cpu]
  unfold redirect
  split <;> exact ⟨rfl, rfl, .inl (hfo x.status)⟩

/-! ## One instruction after the other -/

/-- An instruction between two ends of a mini-quantum. -/
def beat (s : Or1k σ) : Or1k σ :=
  match s.beginCycle.fetchExecute with
  | .ok x => x.retire.redirect.ended.bare
  | _ => s

/-- The next instruction finds the timer as if it were up to date: it does not read a TTCR that has
counted on, and a write to the timer makes no difference between the cycles before and after it. -/
def punctual (s : Or1k σ) : Bool :=
  (s.beginCycle.mfspr != some SpReg.ttcr.num || (s.tick.update s.lag).ttcr == s.tick.ttcr) &&
    s.beginCycle.mtspr.all fun w => (TimerWrite.ofSpr w.1 w.2.1).all fun v =>
      decide ((v.apply (s.tick.update s.lag)).update 1 = (v.apply s.tick).update (s.lag + 1))

omit [HostLib] in
theorem punctual_reads (h : s.punctual = true) (hr : s.beginCycle.mfspr = some SpReg.ttcr.num) :
    (s.tick.update s.lag).ttcr = s.tick.ttcr := by
  unfold punctual at h
  rw [Bool.and_eq_true, Bool.or_eq_true, bne_iff_ne, beq_iff_eq] at h
  exact h.1.resolve_left fun hne => hne hr

omit [HostLib] in
theorem punctual_writes (h : s.punctual = true) {reg val : U32} {f : Or1k σ} {v : TimerWrite}
    (hw : s.beginCycle.mtspr = some (reg, val, f)) (hv : TimerWrite.ofSpr reg val = some v) :
    (v.apply (s.tick.update s.lag)).update 1 = (v.apply s.tick).update (s.lag + 1) := by
  unfold punctual at h
  rw [Bool.and_eq_true, hw, Option.all_some] at h
  dsimp only at h
  rw [hv, Option.all_some, decide_eq_true_eq] at h
  exact h.2

/-- Inside a mini-quantum, with an instruction to come. -/
structure Ready (limit : Nat) (s : Or1k σ) : Prop where
  stopRequested : s.stopRequested = false
  breakRequested : s.breakRequested = false
  hit : s.wpEvent.hit = false
  unmatched : ¬s.tick.Matched (limit - 1 - s.tickUpdate)
  quiet : s.synced.alarmed = false

omit [EnvImpl σ] [HostLib] in
theorem Ready.ended_bare {limit : Nat} (h : Ready limit s) :
    s.ended.bare = s.retimed 0 (s.tick.update s.lag) s.cycles := by
  have he : s.ended = s.synced := sampled_of_quiet h.quiet
  rw [he]
  exact bare_of_clear (s := s.synced) h.stopRequested h.breakRequested h.hit

omit [EnvImpl σ] [HostLib] in
theorem Ready.unmatched_lag {limit : Nat} (h : Ready limit s) (hl : s.cycles < limit) :
    ¬s.tick.Matched s.lag := fun hm => h.unmatched (hm.mono (by unfold lag; omega))

omit [EnvImpl σ] [HostLib] in
theorem redirect_retimed : (x.retimed l t k).retire.redirect = x.retire.redirect.retimed l t k := by
  unfold redirect
  have hd : (x.retimed l t k).retire.jumpDue = x.retire.jumpDue := rfl
  rw [hd]
  split <;> rfl

/-- The timer behind an instruction, in one batch or in two. -/
theorem fetchExecute_batch {limit : Nat} (h : s.beginCycle.fetchExecute = .ok x)
    (hr : Ready limit s) (hl : s.cycles < limit) (hu : s.tickUpdate ≤ s.cycles)
    (hp : s.punctual = true)
    (hz : ∀ reg val f, s.beginCycle.mtspr = some (reg, val, f) → reg = SpReg.pmr.num →
      (f.requestBreak.withCore (f.requestBreak.toCore.writeReg .pmr val)).sleepy = false)
    (hs : x.tick.seen x.lag) :
    (s.beginCycle.retimer (s.tick.update s.lag)).update (x.cycles - s.cycles) =
      x.tick.update x.lag := by
  have hno := hr.unmatched_lag hl
  -- the timer is not written: the cycles before the instruction, and its own
  have hadd : x.tick = s.tick → x.tickUpdate = s.tickUpdate → s.cycles ≤ x.cycles →
      (s.tick.update s.lag).update (x.cycles - s.cycles) = x.tick.update x.lag := by
    intro ht hk hc
    have hsum : x.lag = s.lag + (x.cycles - s.cycles) := by
      unfold lag
      omega
    rw [ht, hsum] at hs ⊢
    exact Tick.update_add hno hs
  unfold retimer
  cases hw : s.beginCycle.mtspr with
  | none =>
    obtain ⟨ht, hk, hc⟩ := fetchExecute_timed h hw
    exact hadd ht hk (Nat.le_of_succ_le_succ hc)
  | some w =>
    obtain ⟨reg, val, f⟩ := w
    obtain ⟨hf, hx⟩ := mtspr_executed hw
    cases hx.symm.trans h
    have ht : f.tick = s.tick := congrArg (·.tick) hf.eq
    have hk : f.tickUpdate = s.tickUpdate := congrArg (·.tickUpdate) hf.eq
    have hc : f.cycles = s.cycles + 1 := congrArg (·.cycles) hf.eq
    rw [Option.elim_some]
    by_cases hreg : reg = SpReg.pmr.num
    · have hsleep := hz reg val f hw hreg
      subst hreg
      have hx : f.requestBreak.regWritten SpReg.pmr.num val =
          f.requestBreak.withCore (f.requestBreak.toCore.writeReg .pmr val) := by
        rw [regWritten_pmr, dozed_of_not_sleepy hsleep]
      rw [hx] at hadd ⊢
      rw [timerWritten_of_none rfl]
      exact hadd ht hk (Nat.le_of_succ_le (Nat.le_of_eq hc.symm))
    · obtain ⟨v, hv, hx⟩ | ⟨hv, hx⟩ := regWritten_timer f.requestBreak val hreg
      · have hlag : f.cycles - f.tickUpdate = s.lag + 1 := by
          unfold lag
          omega
        have hone : f.cycles - s.cycles = 1 := by omega
        unfold timerWritten
        rw [hx, hv, Option.elim_some]
        show (v.apply (s.tick.update s.lag)).update (f.cycles - s.cycles) =
          (v.apply f.tick).update (f.cycles - f.tickUpdate)
        rw [hone, hlag, ht]
        exact punctual_writes hp hw hv
      · have hle : f.cycles ≤ (f.requestBreak.regWritten reg val).cycles := hx.cycles
        rw [timerWritten_of_none hv]
        exact hadd (hx.tick.trans ht) (hx.tickUpdate.trans hk) (by omega)

/-- The reference executes the instruction with the timer up to date. -/
theorem beat_ended {limit : Nat} (h : s.beginCycle.fetchExecute = .ok x)
    (hr : Ready limit s) (hl : s.cycles < limit) (hu : s.tickUpdate ≤ s.cycles)
    (hp : s.punctual = true)
    (hz : ∀ reg val f, s.beginCycle.mtspr = some (reg, val, f) → reg = SpReg.pmr.num →
      (f.requestBreak.withCore (f.requestBreak.toCore.writeReg .pmr val)).sleepy = false)
    (hs : x.tick.seen x.lag) : s.ended.bare.beat = x.retire.redirect.ended.bare := by
  have hm : (s.tick.update s.lag).ttmr = s.tick.ttmr := by
    rw [Tick.update_of_not_matched (hr.unmatched_lag hl), Tick.later_ttmr]
  have hbatch := fetchExecute_batch h hr hl hu hp hz hs
  have hbegin : (s.retimed 0 (s.tick.update s.lag) s.cycles).beginCycle =
      s.beginCycle.retimed 0 (s.tick.update s.lag) s.cycles := rfl
  obtain ⟨l', hx⟩ := fetchExecute_retimed (l := 0) (k := s.cycles) h hm (punctual_reads hp) hz
  unfold beat
  rw [hr.ended_bare, hbegin, hx]
  dsimp only
  rw [redirect_retimed, ended_retimed]
  have hlag : x.retire.redirect.lag = x.lag := Machine.redirect_frame lag x fun _ _ _ _ => rfl
  have hc : x.retire.redirect.cycles = x.cycles :=
    Machine.redirect_frame (·.cycles) x fun _ _ _ _ => rfl
  have ht : x.retire.redirect.tick = x.tick := Machine.redirect_frame (·.tick) x fun _ _ _ _ => rfl
  rw [hlag, hc, ht]
  exact hbatch

end Or1k

namespace Machine

open Or1k

variable {m m' : Machine σ} {s x r : Or1k σ} {n : U32}

/-! ## Steps -/

/-- A call finds no interrupt of the timer and no match outstanding, and none before its last
instruction of a mini-quantum; instructions are punctual; and no batch of cycles wraps into a match. -/
def keepsTime [EnvImpl σ] (m : Machine σ) : Bool :=
  let s := m.cpu
  match m.phase with
  | .idle _ => true
  | .outer => !decide (s.cycles < s.limit) || (!s.timerTicks && decide (¬s.tick.Matched s.lag ∧
      ¬s.tick.Matched (s.miniLimit - 1 - s.tickUpdate)))
  | .inner limit => !decide (s.cycles < limit) || s.punctual
  | .drain => decide (s.tick.seen s.lag)

/-- Behind the end of a mini-quantum a call finds nothing outstanding. -/
theorem keepsTime_of_ended [EnvImpl σ] (h : s.ended = s) : keepsTime ⟨.outer, s⟩ = true := by
  have hk : s.tickUpdate = s.cycles := by
    rw [← h]
    exact ended_tickUpdate
  have hq : s.alarmed = false := by
    rw [← h]
    exact sampled_quiet
  have htt : s.timerTicks = false := by
    unfold alarmed at hq
    unfold timerTicks syncTick
    dsimp only
    rw [hk, Nat.sub_self, Tick.update_zero]
    exact (Bool.or_eq_false_iff.1 hq).1
  have hlag : s.lag = 0 := by
    unfold lag
    omega
  have hmini : ¬s.tick.Matched (s.miniLimit - 1 - s.tickUpdate) := by
    intro hm
    obtain ⟨hc, -, hle⟩ := Tick.matched_iff.1 hm
    have hen := Tick.enabled_of_counting hc
    have hpos := s.tick.nextTick_pos
    unfold miniLimit at hle
    dsimp only at hle
    rw [if_pos hen] at hle
    omega
  have hd : decide (¬s.tick.Matched 0 ∧ ¬s.tick.Matched (s.miniLimit - 1 - s.tickUpdate)) = true :=
    decide_eq_true ⟨s.tick.not_matched_zero, hmini⟩
  unfold keepsTime
  dsimp only
  rw [htt, hlag, hd]
  exact Bool.or_true _

/-- The call has come to `r`, but for the end of the mini-quantum. -/
structure Tracks (m : Machine σ) (r : Or1k σ) : Prop where
  update : m.cpu.tickUpdate ≤ m.cpu.cycles
  external : m.phase = .outer → (m.cpu.isInterruptPending && m.cpu.isExtIrqEnabled) = false
  ready : ∀ limit, m.phase = .inner limit → m.cpu.cycles < limit → Ready limit m.cpu
  reference : m.cpu.tick.seen m.cpu.lag → m.cpu.ended.bare = r

theorem ended_of_bare {y : Or1k σ} (h : x.bare = y.bare) : x.ended.bare = y.ended.bare := by
  rw [← ended_bare, h, ended_bare]

theorem retired_going {limit limit' : Nat} (h : (retired limit x).phase = .inner limit') :
    x.stopRequested = false ∧ x.breakRequested = false ∧ x.wpEvent.hit = false ∧ limit' ≤ limit := by
  obtain ⟨hb, hle⟩ := retired_inner h
  unfold retired iterated at h
  have ha : x.retire.after = .next := by
    dsimp only at h
    split at h
    · assumption
    · cases h
    · cases h
  have hs : x.stopRequested = false := by
    cases hs : x.stopRequested with
    | false => rfl
    | true =>
      have he : x.retire.after = .exit := if_pos hs
      cases ha.symm.trans he
  refine ⟨hs, hb, ?_, hle⟩
  cases hw : x.wpEvent.hit with
  | false => rfl
  | true =>
    have he : x.retire.after = .leave := by
      unfold after
      have hs' : x.retire.stopRequested = false := hs
      have hb' : x.retire.breakRequested = false := hb
      have hw' : x.retire.wpEvent.hit = true := hw
      rw [hs', hb', hw', if_neg Bool.false_ne_true, if_neg Bool.false_ne_true, if_pos rfl]
    cases ha.symm.trans he

variable [EnvImpl σ] [HostLib]

/-- An instruction that goes on in its mini-quantum. -/
theorem ready_retired {limit limit' : Nat} (hx : s.beginCycle.fetchExecute = .ok x)
    (hr : Ready limit s) (hl : s.cycles < limit) (hp : (retired limit x).phase = .inner limit')
    (hl' : (retired limit x).cpu.cycles < limit') : Ready limit' (retired limit x).cpu := by
  obtain ⟨hs, hb, hw, hle⟩ := retired_going hp
  obtain ⟨ht, hk⟩ := retired_tick limit x
  obtain ⟨hxt, hxk, -⟩ := fetchExecute_timed hx (mtspr_none_of_going hx hb)
  have htick : (retired limit x).cpu.tick = s.tick := ht.trans hxt
  have hupdate : (retired limit x).cpu.tickUpdate = s.tickUpdate := hk.trans hxk
  have hno : ¬s.tick.Matched (limit' - 1 - s.tickUpdate) := fun hm =>
    hr.unmatched (hm.mono (by omega))
  have hlag : ¬s.tick.Matched (retired limit x).cpu.lag := fun hm => hno (hm.mono (by
    unfold lag
    rw [hupdate]
    omega))
  refine ⟨(retired_frame (·.stopRequested) limit x fun _ _ _ _ => rfl).trans hs,
    (retired_frame (·.breakRequested) limit x fun _ _ _ _ => rfl).trans hb,
    (retired_frame (·.wpEvent.hit) limit x fun _ _ _ _ => rfl).trans hw, ?_, ?_⟩
  · rw [htick, hupdate]
    exact hno
  · have hm : Muted s.beginCycle (retired limit x).cpu :=
      (fetchExecute_muted hx hb).trans (retired_muted limit x)
    have hm : Muted s.synced (retired limit x).cpu.synced := ⟨hm.picMr, hm.picSr, hm.status⟩
    refine hm.quiet ?_ hr.quiet
    show ((retired limit x).cpu.tick.update (retired limit x).cpu.lag).ttmr =
      (s.tick.update s.lag).ttmr
    rw [htick, Tick.update_of_not_matched hlag, Tick.update_of_not_matched (hr.unmatched_lag hl),
      Tick.later_ttmr, Tick.later_ttmr]

/-- A step of a call makes one beat of the reference or none. -/
theorem step_tracks (hn : m.act .run = some m') (hk : m.keepsTime = true)
    (ha : awake ⟨m, .run, m'⟩ = true) (ho : m'.phase.ordinary = true) (h : Tracks m r) :
    Tracks m' (if iterates ⟨m, .run, m'⟩ then r.beat else r) := by
  have hup := (act_timed hn).update h.update
  cases act_transition hn with
  | mini s hlt =>
    have hx := h.external rfl
    have hno : s.timerTicks = false ∧ ¬s.tick.Matched s.lag ∧
        ¬s.tick.Matched (s.miniLimit - 1 - s.tickUpdate) := by
      have hk : (!decide (s.cycles < s.limit) || (!s.timerTicks && decide (¬s.tick.Matched s.lag ∧
        ¬s.tick.Matched (s.miniLimit - 1 - s.tickUpdate)))) = true := hk
      rw [decide_eq_true hlt, Bool.not_true, Bool.false_or, Bool.and_eq_true, Bool.not_eq_true',
        decide_eq_true_eq] at hk
      exact hk
    obtain ⟨htt, hlag, hmini⟩ := hno
    refine ⟨hup, fun hp => Phase.noConfusion hp, fun limit hp hl => ?_, fun hs => ?_⟩
    · cases hp
      refine ⟨rfl, rfl, rfl, hmini, ?_⟩
      have he : s.beginMini.synced.tick.enabled = s.tick.enabled := s.tick.update_enabled _
      unfold alarmed
      rw [he, Bool.or_eq_false_iff]
      exact ⟨htt, hx⟩
    · have hb : s.beginMini.ended.bare = s.ended.bare := ended_of_bare rfl
      exact hb.trans (h.reference hs)
  | finish s hlt =>
    exact ⟨hup, fun hp => Phase.noConfusion hp, fun limit hp => Phase.noConfusion hp, h.reference⟩
  | iterate limit s x hl hx =>
    have hex : (⟨.inner limit, s⟩ : Machine σ).executes = true := decide_eq_true hl
    have hit : iterates ⟨⟨.inner limit, s⟩, .run, retired limit x⟩ = true := hex
    have hr := h.ready limit rfl hl
    have hp : s.punctual = true := by
      have hk : (!decide (s.cycles < limit) || s.punctual) = true := hk
      rwa [decide_eq_true hl, Bool.not_true, Bool.false_or] at hk
    have href : s.ended.bare = r :=
      h.reference (Tick.seen_of_not_matched (hr.unmatched_lag hl))
    rw [hit, if_pos rfl, ← href]
    refine ⟨hup, fun hp => ?_, fun limit' hp hl' => ready_retired hx hr hl hp hl', fun hs => ?_⟩
    · unfold retired iterated at hp
      split at hp <;> cases hp
    · have hlag : (retired limit x).cpu.lag = x.lag := retired_frame lag limit x fun _ _ _ _ => rfl
      rw [hlag, (retired_tick limit x).1] at hs
      rw [retired_cpu]
      exact (beat_ended hx hr hl h.update hp (fun _ _ _ hw hreg => awake_mtspr ha hex hw hreg) hs).symm
  | throw limit s x hl hx => cases ho
  | leave limit s hl =>
    have hit : iterates ⟨⟨.inner limit, s⟩, .run, ⟨.drain, s⟩⟩ = false := decide_eq_false hl
    rw [hit]
    exact ⟨hup, fun hp => Phase.noConfusion hp, fun limit hp => Phase.noConfusion hp, h.reference⟩
  | drain s =>
    have hseen : s.tick.seen s.lag := of_decide_eq_true hk
    have hcpu : (drained s.timerUpdated.externalChecked).cpu = s.ended := by
      rw [drained_cpu, ended_eq]
    refine ⟨hup, fun _ => ?_, fun limit hp => ?_, fun _ => ?_⟩
    · rw [hcpu]
      exact external_of_quiet sampled_quiet
    · unfold drained at hp
      split_ifs at hp
    · rw [hcpu, ended_ended]
      exact h.reference hseen
  | outside r s s' a hout hs => cases hout

/-! ## Calls -/

/-- A call of `step(n)` in the state `s` that returns STEP_OK, and nothing from outside meanwhile. -/
structure Quantum (n : U32) (s : Or1k σ) (l : List (Move (Machine σ) (Action σ))) (x : Or1k σ) :
    Prop extends During n s l ⟨.idle (some .ok), x⟩ where
  runs : ∀ st ∈ l, st.act.isRun = true

/-- One such call after the other. -/
inductive Quanta : List U32 → Or1k σ → List (Move (Machine σ) (Action σ)) → Or1k σ → Prop where
  | nil (s : Or1k σ) : Quanta [] s [] s
  | cons {n : U32} {ns : List U32} {s x y : Or1k σ} {l l' : List (Move (Machine σ) (Action σ))}
      (h : Quantum n s l x) (hs : Quanta ns x l' y) : Quanta (n :: ns) s (l ++ l') y

variable {l l' : List (Move (Machine σ) (Action σ))} {ns : List U32} {a b : Or1k σ}

omit [HostLib] in
theorem began_bare (h : ({ s with limit := s.cycles + n.toNat }.externalChecked).sleepy = false) :
    (began n s).bare = s.externalChecked.bare := by
  have hb : began n s = ({ s with limit := s.cycles + n.toNat } : Or1k σ).externalChecked :=
    dozed_of_not_sleepy h
  rw [hb, ← externalChecked_bare, ← externalChecked_bare]
  rfl

omit [HostLib] in
theorem began_tracks (hu : s.tickUpdate ≤ s.cycles)
    (h : ({ s with limit := s.cycles + n.toNat }.externalChecked).sleepy = false) :
    Tracks ⟨.outer, began n s⟩ s.externalChecked.ended.bare := by
  have hb : began n s = ({ s with limit := s.cycles + n.toNat } : Or1k σ).externalChecked :=
    dozed_of_not_sleepy h
  have hc := externalChecked_clocked (s := ({ s with limit := s.cycles + n.toNat } : Or1k σ))
  rw [← hb] at hc
  refine ⟨?_, fun _ => ?_, fun limit hp => Phase.noConfusion hp, fun _ => ?_⟩
  · show (began n s).tickUpdate ≤ (began n s).cycles
    rw [hc.tickUpdate]
    exact Nat.le_trans hu hc.cycles
  · rw [hb]
    exact externalChecked_masks
  · exact ended_of_bare (began_bare h)

/-- Either no instruction has been executed yet, or the last mini-quantum has been ended. -/
def Concluded (n : Nat) (m : Machine σ) : Prop :=
  m.phase = .outer ∨ m.phase = .idle (some .ok) → m.cpu.ended = m.cpu ∨ m.cpu.budget = n

theorem step_concluded {k : Nat} (hn : m.act .run = some m') (h : Concluded k m) : Concluded k m' := by
  cases act_transition hn with
  | mini s hlt => exact fun hp => hp.elim Phase.noConfusion Phase.noConfusion
  | finish s hlt => exact fun _ => h (.inl rfl)
  | iterate limit s x hl hx =>
    intro hp
    unfold retired iterated at hp
    split at hp <;> rcases hp with hp | hp <;> cases hp
  | throw limit s x hl hx => exact fun hp => hp.elim Phase.noConfusion fun hp => by cases hp
  | leave limit s hl => exact fun hp => hp.elim Phase.noConfusion Phase.noConfusion
  | drain s =>
    refine fun _ => .inl ?_
    rw [drained_cpu, ended_eq, ended_ended]
  | outside r s s' a hout hs => cases hout

/-- A call for `n` cycles is `n` beats of the reference. -/
theorem quantum_follows (hu : s.tickUpdate ≤ s.cycles) (hpos : 0 < n.toNat) (h : Quantum n s l a)
    (hk : ∀ st ∈ l, st.pre.keepsTime = true) :
    a.ended = a ∧ a.bare = beat^[n.toNat] s.externalChecked.ended.bare := by
  obtain ⟨hw, hn⟩ := began_budget h.begins
  have hrun : ∀ st ∈ l, st.act = .run := fun st hst => by
    have hr := h.runs st hst
    cases ha : st.act with
    | run => rfl
    | _ => rw [ha] at hr; cases hr
  obtain ⟨⟨-, hspent, hrest⟩, hl⟩ := h.path.forall_of
    (P := fun m => Within m ∧ (m.phase = .idle (some .ok) → m.cpu.budget = 0) ∧ Concluded n.toNat m)
    (C := fun st => (st.act = .run ∧ awake st = true) ∧ st.post.phase.ordinary = true)
    (R := fun st => st.post.cpu.budget + (if iterates st then 1 else 0) = st.pre.cpu.budget)
    (by
      intro m a m' hn hc hp
      obtain ⟨⟨hact, ha⟩, ho⟩ := hc
      have hact : a = .run := hact
      have hn : m.act a = some m' := hn
      subst hact
      obtain ⟨hw, hs, hr⟩ := hp
      have hbud := step_budget hn rfl ha ho hw
      exact ⟨⟨hbud.1, step_spent hn rfl hs, step_concluded hn hr⟩, hbud.2⟩)
    (fun st hst => ⟨⟨hrun st hst, h.awake st hst⟩, h.goes st hst⟩)
    ⟨hw, fun hp => Phase.noConfusion hp, fun _ => .inr hn⟩
  have hspent : a.budget = 0 := hspent rfl
  have hcount : a.budget + l.countP iterates = n.toNat := by
    rw [← hn]
    exact h.path.count_eq (f := fun m => m.cpu.budget) hl
  have hended : a.ended = a := (hrest (.inr rfl)).resolve_right fun hb => by
    have hb : a.budget = n.toNat := hb
    omega
  have htracks := h.path.follows (R := Tracks) (f := beat) (p := iterates)
    (C := fun st => (st.act = .run ∧ awake st = true) ∧ st.post.phase.ordinary = true ∧
      st.pre.keepsTime = true)
    (by
      intro m a m' r hn hc ht
      obtain ⟨⟨hact, ha⟩, ho, hk⟩ := hc
      have hact : a = .run := hact
      subst hact
      exact step_tracks hn hk ha ho ht)
    (fun st hst => ⟨⟨hrun st hst, h.awake st hst⟩, h.goes st hst, hk st hst⟩)
    (began_tracks hu h.begins)
  rw [show l.countP iterates = n.toNat by omega] at htracks
  have hlag : a.lag = 0 := by
    have ht := ended_tickUpdate (s := a)
    rw [hended] at ht
    unfold lag
    omega
  have href := htracks.reference (by
    show a.tick.seen a.lag
    rw [hlag]
    exact Tick.seen_of_not_matched a.tick.not_matched_zero)
  refine ⟨hended, ?_⟩
  rw [← href]
  exact congrArg bare hended.symm

/-- So are several calls that begin where a mini-quantum ended. -/
theorem quanta_follow (he : s.ended = s) (h : Quanta ns s l b) (hpos : ∀ n ∈ ns, 0 < n.toNat)
    (hk : ∀ st ∈ l, st.pre.keepsTime = true) :
    b.bare = beat^[(ns.map (·.toNat)).sum] s.bare := by
  induction h with
  | nil s => rfl
  | @cons n ns s x y l l' h hs ih =>
    have hu : s.tickUpdate ≤ s.cycles := by
      rw [← he]
      exact Nat.le_of_eq ended_tickUpdate
    obtain ⟨hx, hbeats⟩ := quantum_follows hu (hpos n List.mem_cons_self) h
      fun st hst => hk st (List.mem_append_left _ hst)
    have hs := ih hx (fun n hn => hpos n (List.mem_cons_of_mem _ hn))
      fun st hst => hk st (List.mem_append_right _ hst)
    have hext : s.externalChecked = s := by
      have hq : s.ended.alarmed = false := sampled_quiet
      rw [he] at hq
      exact externalChecked_of_masked (external_of_quiet hq)
    rw [hs, hbeats, hext, he, List.map_cons, List.sum_cons, Nat.add_comm, Function.iterate_add_apply]

/-- As long as time is kept, `step(n)` leaves what `step(n1)`, ..., `step(nk)` leave, where the sum of
`n1` to `nk` is `n`: all that is not between `advance` and its caller is the same. -/
theorem quantum_independent {env : Env σ} {size : Nat} {ret : Option StepResult}
    (hr : system.Run (init env size) ⟨.idle ret, s⟩) (h : Quantum n s l a) (h' : Quanta ns s l' b)
    (hne : ns ≠ []) (hpos : ∀ n ∈ ns, 0 < n.toNat) (hsum : (ns.map (·.toNat)).sum = n.toNat)
    (hk : ∀ st ∈ l ++ l', st.pre.keepsTime = true) : a.bare = b.bare := by
  have hu : s.tickUpdate ≤ s.cycles :=
    hr.invariant (P := fun m => m.cpu.tickUpdate ≤ m.cpu.cycles)
      (fun _ _ _ hu _ hn => (act_timed hn).update hu) (Nat.le_refl 0)
  cases h' with
  | nil => exact (hne rfl).elim
  | @cons n₁ ns _ x _ l₁ l₂ h₁ hs =>
    have hn₁ := hpos n₁ List.mem_cons_self
    rw [List.map_cons, List.sum_cons] at hsum
    obtain ⟨-, ha⟩ := quantum_follows hu (by omega) h fun st hst =>
      hk st (List.mem_append_left _ hst)
    obtain ⟨hx, hbeats⟩ := quantum_follows hu hn₁ h₁ fun st hst =>
      hk st (List.mem_append_right _ (List.mem_append_left _ hst))
    have hb := quanta_follow hx hs (fun n hn => hpos n (List.mem_cons_of_mem _ hn)) fun st hst =>
      hk st (List.mem_append_right _ (List.mem_append_right _ hst))
    rw [ha, hb, hbeats, ← Function.iterate_add_apply, Nat.add_comm, hsum]

/-! ## Calls on fixed inputs -/

/-- The state behind a call that takes `k` steps, if each of them satisfies `ok`. -/
def quantum? (ok : Machine σ → Bool) (n : U32) (k : Nat) (s : Or1k σ) : Option (Or1k σ) :=
  if ({ s with limit := s.cycles + n.toNat }.externalChecked).sleepy then none
  else
    (system.runsIf (fun m a => a.isRun && (m.dozes a).all (!·.sleepy) &&
      (m.act a).all (·.phase.ordinary) && ok m) (List.replicate k .run) ⟨.outer, began n s⟩).bind
        fun m => if m.phase = .idle (some .ok) then some m.cpu else none

theorem quantum_of_eval {ok : Machine σ → Bool} {k : Nat} (h : quantum? ok n k s = some x) :
    ∃ l, Quantum n s l x ∧ ∀ st ∈ l, ok st.pre = true := by
  unfold quantum? at h
  split at h
  · cases h
  · rename_i hz
    obtain ⟨m, hm, h⟩ := Option.bind_eq_some_iff.1 h
    split at h
    · rename_i hp
      cases h
      obtain ⟨l, hl, hok⟩ := (System.steps_of_runsIf hm).path_ok
      have hm : m = ⟨.idle (some .ok), m.cpu⟩ := by rw [← hp]
      have hnext := hl.forall (R := fun st => st.pre.act st.act = some st.post) fun _ _ _ h => h
      simp only [Bool.and_eq_true] at hok
      rw [hm] at hl
      refine ⟨l, ⟨⟨hl, fun st hst => ?_, eq_false_of_ne_true hz, fun st hst => (hok st hst).1.1.2,
        fun st hst => ?_⟩, fun st hst => (hok st hst).1.1.1⟩, fun st hst => (hok st hst).2⟩
      · have hr := (hok st hst).1.1.1
        cases ha : st.act with
        | run => rfl
        | _ => rw [ha] at hr; cases hr
      · have ho := (hok st hst).1.2
        rw [hnext st hst] at ho
        exact ho
    · cases h

end Machine

namespace Machine

open Or1k

attribute [local instance] HostLib.plain

/-- A counting timer, `l.nop`, and `l.mfspr` of TTCR: `step(2)` reads the counter as it was when it
was called, and two calls of `step(1)` read it a cycle later. -/
theorem quantum_independent_fails : ∃ (s a b : Or1k Memory)
    (l l' : List (Move (Machine Memory) (Action Memory))),
    system.Run (Memory.boot [(0x100, 0x15000000#32), (0x104, 0xb4605001#32)]) ⟨.idle none, s⟩ ∧
      Quantum 2#32 s l a ∧ Quanta [1#32, 1#32] s l' b ∧ a.gpr 3 = 0#32 ∧ b.gpr 3 = 1#32 := by
  obtain ⟨m, hr, hm⟩ := system.exists_run
    (Memory.boot [(0x100, 0x15000000#32), (0x104, 0xb4605001#32)]) [.writeSpr 0x5000#32 0xc0000000#32]
    (fun m : Machine Memory => decide (m.phase = .idle none) &&
      (quantum? (fun _ => true) 2#32 6 m.cpu).any fun a => a.gpr 3 == 0#32 &&
      (quantum? (fun _ => true) 1#32 5 m.cpu).any fun x =>
      (quantum? (fun _ => true) 1#32 5 x).any fun b => b.gpr 3 == 1#32) (by decide +kernel)
  rw [Bool.and_eq_true, decide_eq_true_eq] at hm
  obtain ⟨hp, hm⟩ := hm
  have hs : m = ⟨.idle none, m.cpu⟩ := by rw [← hp]
  rw [hs] at hr
  obtain ⟨a, ha, hm⟩ := (Option.any_eq_true _ _).1 hm
  rw [Bool.and_eq_true, beq_iff_eq] at hm
  obtain ⟨x, hx, hb⟩ := (Option.any_eq_true _ _).1 hm.2
  obtain ⟨b, hb, hg⟩ := (Option.any_eq_true _ _).1 hb
  obtain ⟨l, hl, -⟩ := quantum_of_eval ha
  obtain ⟨l₁, h₁, -⟩ := quantum_of_eval hx
  obtain ⟨l₂, h₂, -⟩ := quantum_of_eval hb
  exact ⟨m.cpu, a, b, l, _, hr, hl, .cons h₁ (.cons h₂ (.nil b)), hm.1, beq_iff_eq.1 hg⟩

/-- The same instructions the other way round. -/
theorem quantum_independent_read_first : ∃ (s a b : Or1k Memory)
    (l l' : List (Move (Machine Memory) (Action Memory))),
    Quantum 2#32 s l a ∧ Quanta [1#32, 1#32] s l' b ∧ a.bare = b.bare ∧ a.tick.ttcr = 2#32 := by
  obtain ⟨m, hr, hm⟩ := system.exists_run
    (Memory.boot [(0x100, 0xb4605001#32), (0x104, 0x15000000#32)]) [.writeSpr 0x5000#32 0xc0000000#32]
    (fun m : Machine Memory => decide (m.phase = .idle none) &&
      (quantum? keepsTime 2#32 6 m.cpu).any fun a => a.tick.ttcr == 2#32 &&
      (quantum? keepsTime 1#32 5 m.cpu).any fun x =>
      (quantum? keepsTime 1#32 5 x).isSome) (by decide +kernel)
  rw [Bool.and_eq_true, decide_eq_true_eq] at hm
  obtain ⟨hp, hm⟩ := hm
  have hs : m = ⟨.idle none, m.cpu⟩ := by rw [← hp]
  rw [hs] at hr
  obtain ⟨a, ha, hm⟩ := (Option.any_eq_true _ _).1 hm
  rw [Bool.and_eq_true, beq_iff_eq] at hm
  obtain ⟨x, hx, hb⟩ := (Option.any_eq_true _ _).1 hm.2
  obtain ⟨b, hb⟩ := Option.isSome_iff_exists.1 hb
  obtain ⟨l, hl, hk⟩ := quantum_of_eval ha
  obtain ⟨l₁, h₁, hk₁⟩ := quantum_of_eval hx
  obtain ⟨l₂, h₂, hk₂⟩ := quantum_of_eval hb
  have hq : Quanta [1#32, 1#32] m.cpu (l₁ ++ (l₂ ++ [])) b := .cons h₁ (.cons h₂ (.nil b))
  have hpos : ∀ n ∈ ([1#32, 1#32] : List U32), 0 < n.toNat := by simp
  have hsum : (([1#32, 1#32] : List U32).map (·.toNat)).sum = (2#32 : U32).toNat := by decide
  have htime : ∀ st ∈ l ++ (l₁ ++ (l₂ ++ [])), st.pre.keepsTime = true := by
    intro st hst
    rw [List.append_nil, List.mem_append, List.mem_append] at hst
    rcases hst with hst | hst | hst
    · exact hk st hst
    · exact hk₁ st hst
    · exact hk₂ st hst
  exact ⟨m.cpu, a, b, l, _, hl, hq, quantum_independent hr hl hq nofun hpos hsum htime, hm.1⟩

end Machine

end Or1kiss
