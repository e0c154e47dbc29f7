import Or1kiss.Account
import Or1kiss.Vector

/-!
# When the tick exception is entered

The counter reaches the limit at some cycle after the last synchronisation (`Due`). An armed
timer is to interrupt at the first instruction boundary from there on: no instruction starts
any more, and the `update_timer` behind the last one enters the exception. It does as long as
`timely` holds: a mini-quantum does not reach beyond the match, and `update_timer` is not given
a batch in which the counter wraps before it matches.
-/

namespace Or1kiss

open Host Bits Runs

variable {σ : Type}

namespace Tick

variable {t : Tick} {n : Nat}

/-- The timer counts towards a positive limit and is to interrupt. -/
def armed (t : Tick) : Bool := t.counting && t.irqEnabled && decide (0 < t.limit)

end Tick

/-! ## Exceptions that are not the tick -/

namespace Core

variable {c b c' : Core σ}

/-- Exceptions may have been entered, but not that of the timer. -/
def Tickless (c c' : Core σ) : Prop := ∃ ts, c'.taken = ts ++ c.taken ∧ ExType.tickTimer ∉ ts

theorem Tickless.of_taken (h : c'.taken = c.taken) : Tickless c c' := ⟨[], h, List.not_mem_nil⟩

theorem Tickless.trans (h : Tickless c b) (h' : Tickless b c') : Tickless c c' := by
  obtain ⟨ts, ht, hn⟩ := h
  obtain ⟨us, hu, hm⟩ := h'
  refine ⟨us ++ ts, by rw [hu, ht, List.append_assoc], ?_⟩
  rw [List.mem_append]
  rintro (h | h)
  · exact hm h
  · exact hn h

theorem tickless_entered {t : ExType} (ht : t ≠ .tickTimer) (addr : U32) :
    Tickless c (c.entered t addr) := by
  refine ⟨[t], entered_taken t addr, ?_⟩
  rw [List.mem_singleton]
  exact fun h => ht h.symm

theorem ne_tick_of_sync {t : ExType} (ht : t.isAsync = false) : t ≠ .tickTimer := by
  rintro rfl
  cases ht

theorem Effects.tickless [EnvImpl σ] {m : Bool} {ts : List ExType} (h : Effects m c ts c') :
    Tickless c c' := by
  induction h with
  | refl => exact .of_taken rfl
  | tail _ hs ih =>
    apply ih.trans
    cases hs with
    | raise t addr aesr ht he => exact tickless_entered (ne_tick_of_sync ht) addr
    | _ => exact .of_taken rfl

theorem scheduleJump_tickless {target : U32} {delay : Nat} (h : c.scheduleJump target delay = .ok c') :
    Tickless c c' := by
  obtain ⟨-, rfl⟩ | ⟨-, -, rfl⟩ := scheduleJump_cases h
  · exact .of_taken rfl
  · exact (Tickless.of_taken rfl).trans (tickless_entered (t := .insnAlignment) nofun target)

end Core

namespace Or1k

variable {s x f : Or1k σ}

/-- The counter at cycle `c`, as `m_tick_update` and TTCR have it. -/
def counterAt (s : Or1k σ) (c : Nat) : U32 := s.tick.ttcr + BitVec.ofNat 32 (c - s.tickUpdate)

/-- By cycle `c` the low 28 bits of the counter have equalled the limit. -/
def Due (s : Or1k σ) (c : Nat) : Prop :=
  ∃ k, s.tickUpdate < k ∧ k ≤ c ∧ bits32 (s.counterAt k) 27 0 = bits32 s.tick.ttmr 27 0

theorem due_iff (ha : s.tick.armed = true) (c : Nat) :
    s.Due c ↔ s.tick.Matched (c - s.tickUpdate) := by
  unfold Tick.armed at ha
  rw [Bool.and_eq_true, Bool.and_eq_true, decide_eq_true_eq] at ha
  obtain ⟨⟨hc, -⟩, hl⟩ := ha
  have hbits : ∀ k, bits32 (s.counterAt k) 27 0 = bits32 s.tick.ttmr 27 0 ↔
      (s.tick.current + (k - s.tickUpdate)) % 2 ^ 28 = s.tick.limit := by
    intro k
    unfold counterAt
    rw [← BitVec.toNat_inj, bits32_toNat _ (by decide) (by decide), BitVec.toNat_add,
      BitVec.toNat_ofNat, Tick.current_eq]
    show _ = s.tick.limit ↔ _
    have hm : ∀ y : Nat, (s.tick.ttcr.toNat + y % 2 ^ 32) % 2 ^ 32 / 2 ^ 0 % 2 ^ (27 + 1 - 0) =
        (s.tick.ttcr.toNat % 2 ^ 28 + y) % 2 ^ 28 := fun y => by omega
    rw [hm]
  rw [Tick.matched_iff_arrival]
  have hlt := s.tick.limit_lt
  constructor
  · rintro ⟨k, hk, hkc, he⟩
    rw [hbits] at he
    exact ⟨hc, k - s.tickUpdate - 1, by omega, by omega⟩
  · rintro ⟨-, j, hj, he⟩
    refine ⟨s.tickUpdate + (j + 1), by omega, by omega, ?_⟩
    rw [hbits]
    omega

variable [EnvImpl σ]

/-- A sleep may follow. -/
def sleepy (s : Or1k σ) : Bool := test s.pmr PMR.DME && s.allowSleep

theorem dozed_of_not_sleepy (h : s.sleepy = false) : s.dozed = s := by
  unfold dozed
  unfold sleepy at h
  rw [← Bool.not_and, h]
  rfl

/-- A sleep that the port serves, or that skips cycles. -/
theorem dozed_of_sleepy (h : s.sleepy = true) :
    s.dozed = if (s.sleep s.dozeSkip).1 ≠ 0 then (s.sleep s.dozeSkip).2.woken (s.sleep s.dozeSkip).1
      else s.skipped.timerUpdated := by
  have hn : ¬(!test s.pmr PMR.DME || !s.allowSleep) = true := by
    have h : (test s.pmr PMR.DME && s.allowSleep) = true := h
    rw [← Bool.not_and, h]
    decide
  exact if_neg hn

variable [HostLib]

/-- A permitted `l.mtspr` requests the break. -/
theorem mtspr_none_of_going (h : s.fetchExecute = .ok x) (hb : x.breakRequested = false) :
    s.mtspr = none := by
  cases hw : s.mtspr with
  | none => rfl
  | some w =>
    obtain ⟨reg, val, f⟩ := w
    cases (mtspr_executed hw).2.symm.trans h
    have hbr : (f.requestBreak.regWritten reg val).breakRequested = true := by
      by_cases hp : reg = SpReg.pmr.num
      · subst hp
        rw [regWritten_pmr]
        exact dozed_steady.breakRequested
      · exact (regWritten_write hp val).breakRequested
    cases hbr.symm.trans hb

/-- Executing an instruction does not enter the tick exception, unless it sleeps. -/
theorem fetchExecute_tickless (h : s.fetchExecute = .ok x)
    (hd : ∀ reg val f, s.mtspr = some (reg, val, f) → reg = SpReg.pmr.num →
      (f.requestBreak.withCore (f.requestBreak.toCore.writeReg .pmr val)).sleepy = false) :
    Core.Tickless s.toCore x.toCore := by
  cases hm : s.mtspr with
  | some w =>
    obtain ⟨reg, val, f⟩ := w
    obtain ⟨hfi, hx⟩ := mtspr_executed hm
    cases hx.symm.trans h
    have hf : f.taken = s.taken := congrArg (·.taken) hfi.eq
    apply Core.Tickless.of_taken
    by_cases hp : reg = SpReg.pmr.num
    · have hz := hd reg val f hm hp
      subst hp
      rw [regWritten_pmr, dozed_of_not_sleepy hz]
      exact hf
    · exact (regWritten_write hp val).taken.trans hf
  | none =>
    obtain ⟨ci, f, hf, hfi, hx⟩ | ⟨hf, hr⟩ := fetchExecute_ok h
    · have hfs : Core.Tickless s.toCore f.toCore := .of_taken (congrArg (·.taken) hfi.eq)
      apply hfs.trans
      cases hx with
      | plain c limit e he hp hr =>
        obtain ⟨ts, hts, -⟩ := hr
        exact hts.tickless
      | untaken e he hj htt => exact .of_taken rfl
      | taken e target r c he hj htt hs hr =>
        have hr : Core.Tickless f.toCore ({ f.toCore with toRegs := r } : Core σ) := .of_taken rfl
        exact hr.trans (Core.scheduleJump_tickless hs)
      | mtspr a b he ha hb =>
        have hd := mtspr_denied hf he ha hb hm
        unfold sprWritten
        rw [if_pos hd]
        exact .of_taken rfl
      | nop x he hx =>
        obtain ⟨rfl, -⟩ | ⟨rfl, -⟩ | ⟨c, rfl, ⟨g, t, a, b, rfl⟩, -⟩ := nop_ok hx <;>
        exact .of_taken rfl
      | rfe x he hx =>
        obtain ⟨c, hc, rfl⟩ := rfe_ok hx
        apply (Core.scheduleJump_tickless hc).trans
        apply Core.Tickless.of_taken
        unfold rfeRestored
        split <;> rfl
    · obtain ⟨b, c, hfb, ⟨t, addr, ht, -, rfl⟩, rfl⟩ := hr
      have hb : b.taken = s.taken := congrArg (·.taken) hfb.eq
      exact (Core.Tickless.of_taken hb).trans
        (Core.tickless_entered (Core.ne_tick_of_sync ht) addr)

end Or1k

namespace Machine

open Or1k

variable [EnvImpl σ] {m m' : Machine σ} {a : Action σ}

/-- No timer register is written, by guest or debugger, `doze` does not sleep, and SR[TEE] is
set. -/
def awaits (m : Machine σ) (a : Action σ) : Bool :=
  (m.guestWrite a).isNone && a.timerWrite.isNone && (m.dozes a).all (!·.sleepy) &&
    m.cpu.isTickIrqEnabled

/-- A mini-quantum ends at the match of a running timer; and `update_timer` finds the counter
of an armed timer below the limit, or the match still to come. -/
def timely (m : Machine σ) (a : Action σ) : Bool :=
  let s := m.cpu
  match m.phase, a with
  | .outer, .run => !s.tick.enabled || decide (s.miniLimit ≤ s.tickUpdate + s.tick.nextTick)
  | .drain, .run =>
    !s.tick.armed || decide (s.tick.current < s.tick.limit ∨ s.lag < s.tick.nextTick)
  | _, _ => true

/-- `advance` is about to call `update_timer`. -/
def updates (m : Machine σ) (a : Action σ) : Bool :=
  match m.phase, a with
  | .drain, .run => true
  | _, _ => false

/-- The inner loop does not start an instruction at the match. -/
structure Bounded (m : Machine σ) : Prop where
  update : m.cpu.tickUpdate ≤ m.cpu.cycles
  inner : ∀ limit, m.phase = .inner limit → m.cpu.tick.enabled = true →
    limit ≤ m.cpu.tickUpdate + m.cpu.tick.nextTick

variable [HostLib]

omit [EnvImpl σ] [HostLib] in
theorem retired_inner {limit limit' : Nat} {x : Or1k σ} (h : (retired limit x).phase = .inner limit') :
    x.breakRequested = false ∧ limit' ≤ limit := by
  unfold retired iterated after newLimit at h
  dsimp only at h
  split at h
  · rename_i hr
    cases h
    refine ⟨?_, ?_⟩
    · split at hr
      · cases hr
      · split at hr
        · cases hr
        · rename_i hb
          exact eq_false_of_ne_true hb
    · split
      · exact Nat.min_le_left _ _
      · exact Nat.le_refl _
  · cases h
  · cases h

theorem act_bounded (hn : m.act a = some m') (hc : timely m a = true) (h : Bounded m) :
    Bounded m' := by
  have hup : m'.cpu.tickUpdate ≤ m'.cpu.cycles := (act_timed hn).update h.update
  refine ⟨hup, fun limit hp he => ?_⟩
  cases act_transition hn with
  | mini s hlt =>
    cases hp
    unfold timely at hc
    have he : s.tick.enabled = true := he
    simp only [he, Bool.not_true, Bool.false_or, decide_eq_true_eq] at hc
    exact hc
  | iterate l s x hl hfe =>
    obtain ⟨hb, hle⟩ := retired_inner hp
    obtain ⟨ht, hu⟩ := retired_tick l x
    obtain ⟨hxt, hxu, -⟩ := fetchExecute_timed hfe (mtspr_none_of_going hfe hb)
    rw [ht, hxt] at he ⊢
    rw [hu, hxu]
    exact Nat.le_trans hle (h.inner l rfl he)
  | interrupt p s id set =>
    have ht : (s.withCore (s.toCore.interrupt id set)).tick = s.tick := rfl
    exact h.inner limit hp he
  | drain s =>
    unfold drained at hp
    split_ifs at hp
  | _ => cases hp

/-! ## Steps -/

/-- Between the steps the timer is the one of `s₀`, later, and has not matched since. -/
structure Waiting (s₀ s : Or1k σ) : Prop where
  since : s₀.tickUpdate ≤ s.tickUpdate
  unmatched : ¬s₀.tick.Matched (s.tickUpdate - s₀.tickUpdate)
  tick : s.tick = s₀.tick.later (s.tickUpdate - s₀.tickUpdate)

omit [EnvImpl σ] [HostLib] in
theorem Waiting.armed {s₀ s : Or1k σ} (h : Waiting s₀ s) : s.tick.armed = s₀.tick.armed := by
  unfold Tick.armed Tick.irqEnabled
  rw [h.tick, Tick.later_counting, Tick.later_ttmr, Tick.later_limit]

omit [EnvImpl σ] [HostLib] in
/-- The match since `s₀` is the match of the timer as it is. -/
theorem Waiting.matched {s₀ s : Or1k σ} (h : Waiting s₀ s) (hu : s.tickUpdate ≤ s.cycles) :
    s.tick.Matched s.lag ↔ s₀.tick.Matched (s.cycles - s₀.tickUpdate) := by
  have hsince := h.since
  have hsum : s.tickUpdate - s₀.tickUpdate + s.lag = s.cycles - s₀.tickUpdate := by
    unfold lag
    omega
  rw [h.tick, Tick.matched_later h.unmatched, hsum]

omit [EnvImpl σ] [HostLib] in
theorem Waiting.clocked {s₀ s x : Or1k σ} (h : Waiting s₀ s) (hc : Clocked s x) :
    Waiting s₀ x := by
  refine ⟨?_, ?_, ?_⟩
  · rw [hc.tickUpdate]
    exact h.since
  · rw [hc.tickUpdate]
    exact h.unmatched
  · rw [hc.tick, hc.tickUpdate]
    exact h.tick

omit [EnvImpl σ] [HostLib] in
theorem Waiting.synced {s₀ s x : Or1k σ} (h : Waiting s₀ s) (hu : s.tickUpdate ≤ s.cycles)
    (hm : ¬s.tick.Matched s.lag) (hs : Synced s x) : Waiting s₀ x := by
  have hsince := h.since
  have hsum : s.tickUpdate - s₀.tickUpdate + s.lag = x.tickUpdate - s₀.tickUpdate := by
    rw [hs.tickUpdate]
    unfold lag
    omega
  refine ⟨?_, ?_, ?_⟩
  · rw [hs.tickUpdate]
    omega
  · rw [hs.tickUpdate]
    exact fun hm' => hm ((h.matched hu).2 hm')
  · rw [hs.tick, Tick.update_of_not_matched hm, h.tick, Tick.later_later, hsum]

omit [EnvImpl σ] [HostLib] in
theorem not_entered_of_tickless {s x : Or1k σ} (h : Core.Tickless s.toCore x.toCore) :
    ¬Entered .tickTimer s x := by
  obtain ⟨ts, ht, hn⟩ := h
  rintro ⟨us, hu, hm⟩
  have hts : us = ts := List.append_cancel_right (hu.symm.trans ht)
  exact hn (hts ▸ hm)

omit [EnvImpl σ] [HostLib] in
theorem tickless_externalChecked {s : Or1k σ} : Core.Tickless s.toCore s.externalChecked.toCore := by
  rcases externalChecked_cases (s := s) with he | ha
  · rw [he]
    exact .of_taken rfl
  · refine ⟨[.external], ha.taken, ?_⟩
    rw [List.mem_singleton]
    exact nofun

omit [HostLib] in
theorem outside_taken {s s' : Or1k σ} (h : outside s a = .ok s')
    (hd : ((⟨.idle none, s⟩ : Machine σ).dozes a).all (!·.sleepy) = true) : s'.taken = s.taken := by
  cases outside_ok h with
  | writeSpr reg val =>
    have hs : s.sprWritten reg val true = s.requestBreak.regWritten reg val := rfl
    rw [hs]
    by_cases hp : reg = SpReg.pmr.num
    · have hz : (⟨.idle none, s⟩ : Machine σ).dozes (.writeSpr reg val) =
          some (s.requestBreak.withCore (s.requestBreak.toCore.writeReg .pmr val)) := if_pos hp
      rw [hz, Option.all_some, Bool.not_eq_true'] at hd
      subst hp
      rw [regWritten_pmr, dozed_of_not_sleepy hd]
      rfl
    · exact (regWritten_write hp val).taken
  | writeGpr | world | setUp => rfl

/-- Only `update_timer` and `doze` enter the tick exception. -/
theorem act_tickless (hn : m.act a = some m') (hd : (m.dozes a).all (!·.sleepy) = true)
    (hu : updates m a = false) : ¬Entered .tickTimer m.cpu m'.cpu := by
  apply not_entered_of_tickless
  cases act_transition hn with
  | begin r s n =>
    have hz : externalChecked { s with limit := s.cycles + n.toNat } =
        began n s := by
      have hd : (!(externalChecked { s with limit := s.cycles + n.toNat }).sleepy) = true := hd
      rw [Bool.not_eq_true'] at hd
      exact (dozed_of_not_sleepy hd).symm
    show Core.Tickless s.toCore (began n s).toCore
    rw [← hz]
    exact (Core.Tickless.of_taken rfl).trans
      (tickless_externalChecked (s := { s with limit := s.cycles + n.toNat }))
  | iterate limit s x hl hfe =>
    have hx : (⟨.inner limit, s⟩ : Machine σ).executes = true := by simpa [executes] using hl
    have hfx := fetchExecute_tickless hfe fun reg val f hw hp => by
      have hz : (⟨.inner limit, s⟩ : Machine σ).dozes .run =
          some (f.requestBreak.withCore (f.requestBreak.toCore.writeReg .pmr val)) := by
        unfold dozes mtspr
        dsimp only
        rw [if_pos hx, hw]
        exact if_pos hp
      rw [hz, Option.all_some, Bool.not_eq_true'] at hd
      exact hd
    have hb : Core.Tickless s.toCore s.beginCycle.toCore := .of_taken rfl
    apply (hb.trans hfx).trans
    apply Core.Tickless.of_taken
    exact retired_frame (·.taken) limit x fun _ _ _ _ => rfl
  | throw limit s x hl hfe =>
    apply Core.Tickless.of_taken
    rcases fetchExecute_throw hfe with hf | ⟨ci, f, e, c, -, hf, -, hm, rfl⟩
    · exact congrArg (·.taken) (fetch_throw hf).eq
    · exact ((Core.executeMem_throw_effects hm).calm rfl).taken.trans (congrArg (·.taken) hf.eq)
  | drain s => cases hu
  | interrupt p s id set =>
    apply Core.Tickless.of_taken
    show (s.toCore.interrupt id set).taken = s.taken
    obtain ⟨v, he⟩ := s.toCore.interrupt_eq id set
    rw [he]
  | outside r s s' a ha h =>
    have hz : (⟨.idle r, s⟩ : Machine σ).dozes a = (⟨.idle none, s⟩ : Machine σ).dozes a := by
      cases a with
      | call | run | interrupt => cases ha
      | _ => rfl
    rw [hz] at hd
    exact .of_taken (outside_taken h hd)
  | _ => exact .of_taken rfl

omit [EnvImpl σ] [HostLib] in
/-- What `update_timer` of an armed timer enters, and the mode it leaves. -/
theorem timerTicks_iff {s : Or1k σ} (ha : s.tick.armed = true) (ht : s.isTickIrqEnabled = true)
    (hc : s.tick.current < s.tick.limit ∨ s.lag < s.tick.nextTick) :
    s.timerTicks = true ↔ s.tick.irqPending = true ∨ s.tick.Matched s.lag := by
  unfold Tick.armed at ha
  rw [Bool.and_eq_true, Bool.and_eq_true] at ha
  obtain ⟨⟨hcount, hi⟩, -⟩ := ha
  have he := Tick.enabled_of_counting hcount
  have hp : s.syncTick.tick.irqPending = (s.tick.irqPending || s.tick.crosses s.lag) :=
    Tick.update_irqPending hcount hi
  unfold timerTicks
  rw [he, ht, hp, Bool.true_and, Bool.and_true, Bool.or_eq_true, Tick.matched_iff_crosses hcount hc]

omit [EnvImpl σ] [HostLib] in
theorem drain_entered (s : Or1k σ) :
    Entered .tickTimer s s.timerUpdated.externalChecked ↔ s.timerTicks = true := by
  cases h : s.timerTicks with
  | true =>
    have ha := timerUpdated_accepts h
    have hm := masked_of_handlerMode ha.mode (e := .external) rfl
    refine iff_of_true ?_ rfl
    rcases externalChecked_cases (s := s.timerUpdated) with he | he
    · rw [he]
      exact ⟨[.tickTimer], ha.taken, List.mem_singleton_self _⟩
    · exact nomatch he.enabled.symm.trans hm
  | false =>
    have hi := timerUpdated_ignores h
    refine iff_of_false (not_entered_of_tickless ?_) nofun
    exact (Core.Tickless.of_taken hi.taken).trans tickless_externalChecked

omit [EnvImpl σ] [HostLib] in
theorem drain_masks {s : Or1k σ} (h : s.timerTicks = true) :
    s.timerUpdated.externalChecked.isTickIrqEnabled = false := by
  have ha := timerUpdated_accepts h
  have hm := masked_of_handlerMode ha.mode (e := .tickTimer) rfl
  have hx := masked_of_handlerMode ha.mode (e := .external) rfl
  rcases externalChecked_cases (s := s.timerUpdated) with he | he
  · rw [he, ← Bool.not_eq_true']
    exact hm
  · exact nomatch he.enabled.symm.trans hx

omit [HostLib] in
theorem syncs_of_awake {u : Or1k σ} (hd : (m.dozes a).all (!·.sleepy) = true)
    (hs : m.syncs a = some u) : updates m a = true ∧ u = m.cpu := by
  obtain ⟨p, s⟩ := m
  unfold syncs at hs
  split at hs
  · rename_i f hf
    rw [hf, Option.all_some, Bool.not_eq_true'] at hd
    unfold sleepy at hd
    unfold dozeSync at hs
    rw [hd] at hs
    cases hs
  · cases p with
    | drain =>
      cases a with
      | run =>
        cases hs
        exact ⟨rfl, rfl⟩
      | _ => cases hs
    | _ => cases hs

theorem act_updates (hn : m.act a = some m') (hu : updates m a = true) :
    m'.cpu = m.cpu.timerUpdated.externalChecked := by
  cases act_transition hn with
  | drain s => exact drained_cpu _
  | interrupt p s id set => cases p <;> cases hu
  | outside r s s' a ha h => cases hu
  | _ => cases hu

omit [EnvImpl σ] [HostLib] in
theorem timely_updates (hc : timely m a = true) (hu : updates m a = true)
    (ha : m.cpu.tick.armed = true) :
    m.cpu.tick.current < m.cpu.tick.limit ∨ m.cpu.lag < m.cpu.tick.nextTick := by
  unfold updates at hu
  split at hu
  · rename_i hp
    unfold timely at hc
    rw [hp] at hc
    dsimp only at hc
    rw [ha] at hc
    exact of_decide_eq_true hc
  · cases hu

/-- The timer waits for its match, or the exception has been entered. -/
def Waits (s₀ : Or1k σ) (m : Machine σ) : Prop :=
  Bounded m ∧ (m.cpu.isTickIrqEnabled = true → Waiting s₀ m.cpu)

theorem step_waits {s₀ : Or1k σ} (ha : s₀.tick.armed = true) (hn : m.act a = some m')
    (hc : (timely m a && awaits m a) = true) (h : Waits s₀ m) : Waits s₀ m' := by
  rw [Bool.and_eq_true] at hc
  obtain ⟨ht, hw⟩ := hc
  unfold awaits at hw
  simp only [Bool.and_eq_true, Option.isNone_iff_eq_none] at hw
  obtain ⟨⟨⟨hg, hd⟩, hz⟩, htee⟩ := hw
  obtain ⟨hb, hwait⟩ := h
  have hwait := hwait htee
  refine ⟨act_bounded hn ht hb, fun htee' => ?_⟩
  cases act_timed hn with
  | left hs hg' hd' hcl => exact hwait.clocked hcl
  | synced u hs hg' hd' hcl hsy =>
    obtain ⟨hu, rfl⟩ := syncs_of_awake hz hs
    have hm' := act_updates hn hu
    have harm := hwait.armed.trans ha
    have htick := timerTicks_iff harm htee (timely_updates ht hu harm)
    apply hwait.synced hb.update ?_ hsy
    intro hm
    rw [hm', drain_masks (htick.2 (.inr hm))] at htee'
    cases htee'
  | wrote w hs hw =>
    rcases hw with hw | ⟨-, hw⟩
    · exact nomatch hg.symm.trans hw
    · exact nomatch hd.symm.trans hw

theorem steps_bounded {env : Env σ} {size : Nat}
    (h : system.Steps (fun m a => timely m a = true) (init env size) m) : Bounded m :=
  h.invariant (P := Bounded) (fun _ _ _ hb hc hn => act_bounded hn hc hb)
    ⟨Nat.le_refl _, fun _ hp => nomatch hp⟩

theorem steps_waits {m₀ : Machine σ} (ha : m₀.cpu.tick.armed = true) (hb : Bounded m₀)
    (h : system.Steps (fun m a => (timely m a && awaits m a) = true) m₀ m) :
    Waits m₀.cpu m := by
  apply h.invariant (P := Waits m₀.cpu) (fun _ _ _ hw hc hn => step_waits ha hn hc hw)
  refine ⟨hb, fun _ => ⟨Nat.le_refl _, ?_, ?_⟩⟩
  · rw [Nat.sub_self]
    exact Tick.not_matched_zero _
  · rw [Nat.sub_self, Tick.later_zero]

/-- In a timely run an armed timer that is left alone lets no instruction start once the counter
has reached the limit, and its exception is entered by the first `update_timer` from there on,
and not before. -/
theorem tick_delivered {env : Env σ} {size : Nat} {m₀ : Machine σ}
    (h₀ : system.Steps (fun m a => timely m a = true) (init env size) m₀)
    (ha : m₀.cpu.tick.armed = true)
    (h : system.Steps (fun m a => (timely m a && awaits m a) = true) m₀ m)
    (hn : system.next m a = some m') (hc : (timely m a && awaits m a) = true) :
    (a = .run → m.executes = true → ¬m₀.cpu.Due m.cpu.cycles) ∧
      (Entered .tickTimer m.cpu m'.cpu ↔ updates m a = true ∧
        (m₀.cpu.tick.irqPending = true ∨ m₀.cpu.Due m.cpu.cycles)) := by
  have hn : m.act a = some m' := hn
  obtain ⟨hb, hwait⟩ := steps_waits ha (steps_bounded h₀) h
  rw [Bool.and_eq_true] at hc
  obtain ⟨ht, hw⟩ := hc
  unfold awaits at hw
  simp only [Bool.and_eq_true] at hw
  obtain ⟨⟨-, hz⟩, htee⟩ := hw
  have hwait := hwait htee
  have harm := hwait.armed.trans ha
  have hdue : m₀.cpu.Due m.cpu.cycles ↔ m.cpu.tick.Matched m.cpu.lag :=
    (due_iff ha _).trans (hwait.matched hb.update).symm
  have hip : m.cpu.tick.irqPending = m₀.cpu.tick.irqPending := by
    unfold Tick.irqPending
    rw [hwait.tick, Tick.later_ttmr]
  rw [hdue]
  constructor
  · rintro - hx hm
    obtain ⟨hcount, hl, hle⟩ := Tick.matched_iff.1 hm
    have he := Tick.enabled_of_counting hcount
    unfold executes at hx
    split at hx
    · rename_i limit hp
      have hlim := hb.inner limit hp he
      have hlt := of_decide_eq_true hx
      have hup := hb.update
      unfold lag at hle
      omega
    · cases hx
  · cases hu : updates m a with
    | false =>
      refine iff_of_false (act_tickless hn hz hu) ?_
      rintro ⟨h, -⟩
      cases h
    | true =>
      rw [act_updates hn hu, drain_entered, timerTicks_iff harm htee (timely_updates ht hu harm),
        hip]
      exact ⟨fun h => ⟨rfl, h⟩, fun h => h.2⟩

end Machine

namespace Machine

open Or1k

attribute [local instance] HostLib.plain

/-- The counter starts above the limit and wraps in one batch. -/
theorem tick_delivered_fails : ∃ m₀ m m' : Machine Memory, system.Run (Memory.boot []) m₀ ∧
    m₀.cpu.tick.armed = true ∧ system.Steps (fun m a => awaits m a = true) m₀ m ∧
    updates m .run = true ∧ awaits m .run = true ∧ m.next = some m' ∧
    m₀.cpu.Due m.cpu.cycles ∧ ¬Entered .tickTimer m.cpu m'.cpu := by
  obtain ⟨m₀, hr, hm₀⟩ := System.exists_run system (Memory.boot [])
    [.writeSpr 0x5000#32 0xe0000001#32, .writeSpr 0x5001#32 0x0ffffffe#32,
      .writeSpr 0x11#32 0x8003#32]
    (fun m₀ => (system.runsIf awaits (.call 10#32 :: List.replicate 5 .run) m₀).any
      fun m : Machine Memory => (m.next).any fun m' : Machine Memory =>
        m₀.cpu.tick.armed && updates m .run && awaits m .run &&
        decide (m₀.cpu.tickUpdate < 3 ∧ 3 ≤ m.cpu.cycles ∧ m'.cpu.taken = m.cpu.taken ∧
          bits32 (m₀.cpu.counterAt 3) 27 0 = bits32 m₀.cpu.tick.ttmr 27 0))
    (by decide +kernel)
  obtain ⟨m, hs, hm⟩ := (Option.any_eq_true _ _).1 hm₀
  obtain ⟨m', hn, hm⟩ := (Option.any_eq_true _ _).1 hm
  simp only [Bool.and_eq_true, decide_eq_true_eq] at hm
  obtain ⟨⟨⟨ha, hu⟩, hw⟩, hlo, hhi, ht, hd⟩ := hm
  exact ⟨m₀, m, m', hr, ha, System.steps_of_runsIf hs, hu, hw, hn, ⟨3, hlo, hhi, hd⟩,
    not_entered ht⟩

/-- A counter below the limit. -/
theorem tick_delivered_below : ∃ m₀ m m' : Machine Memory, m.next = some m' ∧
    m₀.cpu.Due m.cpu.cycles ∧ Entered .tickTimer m.cpu m'.cpu := by
  obtain ⟨m₀, hr, hm₀⟩ := System.exists_steps system timely (Memory.boot [])
    [.writeSpr 0x5000#32 0xe0000003#32, .writeSpr 0x11#32 0x8003#32]
    (fun m₀ => (system.runsIf (fun m a => timely m a && awaits m a)
        (.call 10#32 :: List.replicate 5 .run) m₀).any
      fun m : Machine Memory => (m.next).isSome && m₀.cpu.tick.armed && updates m .run &&
        timely m .run && awaits m .run &&
        decide (m₀.cpu.tickUpdate < 3 ∧ 3 ≤ m.cpu.cycles ∧
          bits32 (m₀.cpu.counterAt 3) 27 0 = bits32 m₀.cpu.tick.ttmr 27 0))
    (by decide +kernel)
  obtain ⟨m, hs, hm⟩ := (Option.any_eq_true _ _).1 hm₀
  simp only [Bool.and_eq_true, decide_eq_true_eq] at hm
  obtain ⟨⟨⟨⟨⟨hn, ha⟩, hu⟩, ht⟩, hw⟩, hlo, hhi, hd⟩ := hm
  obtain ⟨m', hn⟩ := Option.isSome_iff_exists.1 hn
  have hdue : m₀.cpu.Due m.cpu.cycles := ⟨3, hlo, hhi, hd⟩
  have hc : (timely m .run && awaits m .run) = true := by rw [ht, hw]; rfl
  refine ⟨m₀, m, m', hn, hdue, ?_⟩
  have hnext : (system (σ := Memory)).next m .run = some m' := hn
  exact (tick_delivered hr ha (System.steps_of_runsIf hs) hnext hc).2.2 ⟨hu, .inr hdue⟩

end Machine

end Or1kiss
