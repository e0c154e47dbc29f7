import Or1kiss.Interrupt
import Or1kiss.Raised

/-!
# What executing an instruction does

`Executed` sorts the executors by what they do to the simulator: a plain one works on the
core, a jump schedules its target, `l.mtspr` writes a register, `l.nop` and `l.rfe` are on
their own. `iterate_ok` takes an iteration of the inner loop apart along these lines.
-/

namespace Or1kiss

open Host Bits

variable {σ : Type} {s s' : Or1k σ} {ci : Instruction}

/-- Executors that are neither jumps nor reach beyond the core. -/
def Exec.isPlain : Exec → Bool
  | .core e => !e.isJump
  | .mem _ | .mfspr => true
  | .mtspr | .nop | .rfe => false

/-- Executors that access memory. -/
def Exec.isMem : Exec → Bool
  | .mem _ => true
  | _ => false

namespace Or1k

theorem deref_eq_ok {op : Operand} {v : U32} (h : s.deref ci op = .ok v) :
    s.toCore.deref ci op = .ok v := Outcome.widen_eq_ok.1 h

variable [EnvImpl σ] [HostLib]

inductive Executed (ci : Instruction) (s : Or1k σ) : Or1k σ → Prop where
  | plain (c : Core σ) (limit : Nat) (e : Exec) (he : ci.exec = some e) (hp : e.isPlain = true)
      (h : Core.Raised e.isMem s.toCore c (s.toCore.raisesTwice ci)) :
      Executed ci s { s with toCore := c, limit := limit }
  | untaken (e : CoreExec) (he : ci.exec = some (.core e)) (hj : e.isJump = true)
      (ht : s.toCore.takenTarget ci e = none) : Executed ci s s
  | taken (e : CoreExec) (target : U32) (r : Regs) (c : Core σ) (he : ci.exec = some (.core e))
      (hj : e.isJump = true) (ht : s.toCore.takenTarget ci e = some target)
      (h : ({ s.toCore with toRegs := r } : Core σ).scheduleJump target Core.branchDelay = .ok c)
      (hr : r.aesr = s.aesr) :
      Executed ci s (s.withCore c)
  | mtspr (a b : U32) (he : ci.exec = some .mtspr) (ha : s.toCore.deref ci ci.dest = .ok a)
      (hb : s.toCore.deref ci ci.src1 = .ok b) : Executed ci s (s.sprWritten (a ||| ci.imm) b false)
  | nop (s' : Or1k σ) (he : ci.exec = some .nop) (h : s.executeOrbis32Nop ci = .ok s') :
      Executed ci s s'
  | rfe (s' : Or1k σ) (he : ci.exec = some .rfe) (h : s.executeOrbis32Rfe ci = .ok s') :
      Executed ci s s'

theorem execute_ok (h : s.execute ci = .ok s') : Executed ci s s' := by
  simp only [execute] at h
  split at h
  · cases h
  · rename_i e he
    obtain ⟨c, hc, rfl⟩ := onCore_eq_ok.1 h
    by_cases hj : e.isJump = true
    · obtain ⟨ht, rfl⟩ | ⟨target, r, ht, hr, hs⟩ := Core.execute_jump hj hc
      · exact .untaken e he hj ht
      · exact .taken e target r c he hj ht hs hr
    · exact .plain c s.limit (.core e) he (by simpa [Exec.isPlain] using hj)
        (Core.execute_raised he (by simpa using hj) hc)
  · rename_i e he
    obtain ⟨⟨stall, s1⟩, h1, h⟩ := Outcome.bind_eq_ok.1 h
    obtain ⟨_, c, hc, h2⟩ := liftCore_eq_ok.1 h1
    cases h2
    cases h
    have hr : s.toCore.raisesTwice ci = false := by rw [Core.raisesTwice, he]
    exact .plain c (s.limit + stall) (.mem e) he rfl (hr ▸ (Core.executeMem_mild hc).raised)
  · rename_i he
    obtain ⟨c, hc, rfl⟩ := onCore_eq_ok.1 h
    obtain ⟨a, -, ha⟩ := Outcome.bind_eq_ok.1 hc
    have hr : s.toCore.raisesTwice ci = false := by rw [Core.raisesTwice, he]
    exact .plain c s.limit .mfspr he rfl (hr ▸ (Core.assign_effects ha).raised)
  · rename_i he
    obtain ⟨b, hb, h⟩ := Outcome.bind_eq_ok.1 h
    obtain ⟨a, ha, h⟩ := Outcome.bind_eq_ok.1 h
    rw [setSpr_eq] at h
    cases h
    exact .mtspr a b he (deref_eq_ok ha) (deref_eq_ok hb)
  · rename_i he; exact .nop s' he h
  · rename_i he; exact .rfe s' he h

/-- `l.mtspr` writes the register that its operands name. -/
theorem Executed.of_mtspr (h : Executed ci s s') (he : ci.exec = some .mtspr) :
    ∃ a b, s.toCore.deref ci ci.dest = .ok a ∧ s.toCore.deref ci ci.src1 = .ok b ∧
      s' = s.sprWritten (a ||| ci.imm) b false := by
  cases h with
  | mtspr a b _ ha hb => exact ⟨a, b, ha, hb, rfl⟩
  | plain c limit e hci hp => cases hci.symm.trans he; cases hp
  | untaken e hci | taken e _ _ _ hci | nop _ hci | rfe _ hci => cases hci.symm.trans he

/-- A load or store works on the core and extends the call by what it stalls for. -/
theorem execute_mem {e : MemExec} (he : ci.exec = some (.mem e)) (h : s.execute ci = .ok s') :
    ∃ n, s.toCore.executeMem e ci = .ok (n, s'.toCore) ∧ s'.limit = s.limit + n := by
  unfold execute at h
  rw [he] at h
  obtain ⟨⟨n, c⟩, hc, h⟩ := Outcome.bind_eq_ok.1 h
  obtain ⟨⟨n', c'⟩, hm, heq⟩ := Outcome.lift_eq_ok.1 hc
  cases heq
  cases h
  exact ⟨n', hm, rfl⟩

/-- Of the executors only loads and stores throw. -/
theorem execute_throw (h : s.execute ci = .throw s') :
    ∃ e c, ci.exec = some (.mem e) ∧ s.toCore.executeMem e ci = .throw c ∧
      s' = s.withCore c := by
  simp only [execute] at h
  split at h
  · cases h
  · exact (onCore_ne_throw h).elim
  · rename_i e he
    rcases Outcome.bind_eq_throw.1 h with h | ⟨⟨stall, s1⟩, -, h⟩
    · obtain ⟨c, hc, rfl⟩ := liftCore_eq_throw.1 h
      exact ⟨e, c, he, hc, rfl⟩
    · cases h
  · exact (onCore_ne_throw h).elim
  · rcases Outcome.bind_eq_throw.1 h with h | ⟨b, -, h⟩
    · exact (Outcome.lift_ne_throw h).elim
    · rcases Outcome.bind_eq_throw.1 h with h | ⟨a, -, h⟩
      · exact (Outcome.lift_ne_throw h).elim
      · rw [setSpr_eq] at h; cases h
  · simp only [executeOrbis32Nop] at h
    split at h <;> try split at h
    all_goals cases h
  · rcases Outcome.bind_eq_throw.1 h with h | ⟨b, -, h⟩
    · exact (onCore_ne_throw h).elim
    · rw [setSpr_eq] at h; cases h

/-! ## `l.nop` -/

/-- Registers and host bookkeeping are all that `l.nop` writes in the core. -/
def Booked (c c' : Core σ) : Prop :=
  ∃ g t a b, c' = { c with gpr := g, traceEnabled := t, randCalls := a, timeCalls := b }

omit [EnvImpl σ] [HostLib] in
theorem Booked.kept {c c' : Core σ} (h : Booked c c') : Core.Kept c c' := by
  obtain ⟨g, t, a, b, rfl⟩ := h
  constructor <;> first | exact Nat.le_refl _ | exact List.suffix_rfl | rfl

omit [EnvImpl σ] [HostLib] in
theorem Booked.calm {c c' : Core σ} (h : Booked c c') : Core.Calm c c' := by
  obtain ⟨g, t, a, b, rfl⟩ := h
  constructor <;> rfl

omit [EnvImpl σ] in
/-- `l.nop` exits, resets the counters, or does bookkeeping. -/
theorem nop_ok (h : s.executeOrbis32Nop ci = .ok s') :
    (s' = s.exitNop ∧ (ci.imm.toNat = 0x1 ∨ ci.imm.toNat = 0xc)) ∨
      (s' = s.resetNop ∧ ci.imm.toNat = 0x5) ∨
      ∃ c, s' = s.withCore c ∧ Booked s.toCore c ∧
        ci.imm.toNat ≠ 0x1 ∧ ci.imm.toNat ≠ 0xc ∧ ci.imm.toNat ≠ 0x5 := by
  simp only [executeOrbis32Nop] at h
  split at h
  · cases h; exact .inl ⟨rfl, .inl ‹_›⟩
  · cases h; exact .inl ⟨rfl, .inr ‹_›⟩
  · cases h; exact .inr (.inl ⟨rfl, ‹_›⟩)
  · cases h
    exact .inr (.inr ⟨_, rfl, ⟨_, s.traceEnabled, s.randCalls, s.timeCalls, rfl⟩,
      by omega, by omega, by omega⟩)
  · split at h <;> cases h
    exact .inr (.inr ⟨_, rfl, ⟨_, s.traceEnabled, s.randCalls, s.timeCalls, rfl⟩,
      by omega, by omega, by omega⟩)
  · cases h
    exact .inr (.inr ⟨_, rfl, ⟨s.gpr, true, s.randCalls, s.timeCalls, rfl⟩,
      by omega, by omega, by omega⟩)
  · cases h
    exact .inr (.inr ⟨_, rfl, ⟨s.gpr, false, s.randCalls, s.timeCalls, rfl⟩,
      by omega, by omega, by omega⟩)
  · cases h
    exact .inr (.inr ⟨_, rfl, ⟨_, s.traceEnabled, s.randCalls + 1, s.timeCalls, rfl⟩,
      by omega, by omega, by omega⟩)
  · cases h
    exact .inr (.inr ⟨_, rfl, ⟨_, s.traceEnabled, s.randCalls, s.timeCalls, rfl⟩,
      by omega, by omega, by omega⟩)
  · cases h
    exact .inr (.inr ⟨_, rfl, ⟨_, s.traceEnabled, s.randCalls, s.timeCalls + 1, rfl⟩,
      by omega, by omega, by omega⟩)
  · split at h <;> cases h
    exact .inr (.inr ⟨_, rfl, ⟨s.gpr, s.traceEnabled, s.randCalls, s.timeCalls, rfl⟩,
      by omega, by omega, by omega⟩)
  · cases h
    exact .inr (.inr ⟨_, rfl, ⟨s.gpr, s.traceEnabled, s.randCalls, s.timeCalls, rfl⟩,
      by omega, by omega, by omega⟩)

/-! ## `l.rfe` -/

omit [EnvImpl σ] [HostLib] in
theorem getSpr_epcr : s.getSpr SpReg.epcr.num false = if s.readsSuper then s.expc else 0#32 := by
  have ha : s.readDenied SpReg.epcr.num false = !s.readsSuper := by
    cases h : s.readsSuper <;> simp only [readDenied, h] <;> decide
  simp only [getSpr, ha, SpReg.ofNum_num]
  cases s.readsSuper <;> rfl

omit [EnvImpl σ] [HostLib] in
theorem getSpr_esr : s.getSpr SpReg.esr.num false = if s.readsSuper then s.exsr else 0#32 := by
  have ha : s.readDenied SpReg.esr.num false = !s.readsSuper := by
    cases h : s.readsSuper <;> simp only [readDenied, h] <;> decide
  simp only [getSpr, ha, SpReg.ofNum_num]
  cases s.readsSuper <;> rfl

omit [HostLib] in
theorem sprWritten_sr (v : U32) : s.sprWritten SpReg.sr.num v false =
    if s.isSupervisor then { s.requestBreak with status := v } else s.requestBreak := by
  have ha : s.writeDenied SpReg.sr.num false = !s.isSupervisor := by
    cases h : s.isSupervisor <;> simp only [writeDenied, h] <;> decide
  simp only [sprWritten, ha]
  cases s.isSupervisor <;> rfl

/-- The address `l.rfe` jumps to. -/
def rfeTarget (s : Or1k σ) : U32 := if s.readsSuper then s.expc else 0#32

/-- The status `l.rfe` restores. -/
def rfeStatus (s : Or1k σ) : U32 := if s.readsSuper then s.exsr else 0#32

/-- The end of `l.rfe`: the status register, if the mode may write it. -/
def rfeRestored (s : Or1k σ) : Or1k σ :=
  if s.isSupervisor then { s.requestBreak with status := s.rfeStatus } else s.requestBreak

omit [HostLib] in
theorem rfe_ok (h : s.executeOrbis32Rfe ci = .ok s') :
    ∃ c, s.toCore.scheduleJump s.rfeTarget 0 = .ok c ∧ s' = (s.withCore c).rfeRestored := by
  obtain ⟨s1, h1, h⟩ := Outcome.bind_eq_ok.1 h
  obtain ⟨c, hc, rfl⟩ := onCore_eq_ok.1 h1
  rw [setSpr_eq, sprWritten_sr, getSpr_esr] at h
  rw [getSpr_epcr] at hc
  cases h
  exact ⟨c, hc, rfl⟩

/-! ## One iteration -/

theorem fetchExecute_of_fetch {f : Or1k σ} (h : s.fetch = .ok (some ci, f)) :
    s.fetchExecute = f.execute ci := by
  unfold fetchExecute
  rw [h]
  rfl

/-- An instruction is fetched and executed, or the fetch raises an exception. -/
theorem fetchExecute_ok (h : s.fetchExecute = .ok s') :
    (∃ ci f, s.fetch = .ok (some ci, f) ∧ FetchedInsn s f ∧ Executed ci f s') ∨
      (s.fetch = .ok (none, s') ∧ FetchRefused s s') := by
  obtain ⟨⟨insn, f⟩, hf, h⟩ := Outcome.bind_eq_ok.1 h
  obtain ⟨⟨ci, hci⟩, hfi⟩ | ⟨hn, hr⟩ := fetch_ok hf
  · dsimp only at hci hfi
    subst hci
    exact .inl ⟨ci, f, hf, hfi, execute_ok h⟩
  · dsimp only at hn hr
    subst hn
    cases h
    exact .inr ⟨hf, hr⟩

/-- The fetch throws, or the load or store it found. -/
theorem fetchExecute_throw (h : s.fetchExecute = .throw s') :
    s.fetch = .throw s' ∨ ∃ ci f e c, s.fetch = .ok (some ci, f) ∧ FetchedInsn s f ∧
      ci.exec = some (.mem e) ∧ f.toCore.executeMem e ci = .throw c ∧ s' = f.withCore c := by
  rcases Outcome.bind_eq_throw.1 h with h | ⟨⟨insn, f⟩, hf, h⟩
  · exact .inl h
  · obtain ⟨⟨ci, hci⟩, hfi⟩ | ⟨hn, -⟩ := fetch_ok hf
    · dsimp only at hci hfi
      subst hci
      obtain ⟨e, c, he, hc, rfl⟩ := execute_throw h
      exact .inr ⟨ci, f, e, c, hf, hfi, he, hc, rfl⟩
    · dsimp only at hn
      subst hn
      cases h

theorem iterate_ok {limit : Nat} {r : After × Nat × Or1k σ} (h : s.iterate limit = .ok r) :
    ∃ x, s.beginCycle.fetchExecute = .ok x ∧
      r = (x.retire.after, x.retire.newLimit limit, x.retire.redirect) := by
  obtain ⟨x, hx, h⟩ := Outcome.bind_eq_ok.1 h
  exact ⟨x, hx, (Outcome.ok.inj h).symm⟩

theorem iterate_throw {limit : Nat} (h : s.iterate limit = .throw s') :
    s.beginCycle.fetchExecute = .throw s' := by
  rcases Outcome.bind_eq_throw.1 h with h | ⟨x, -, h⟩
  · exact h
  · cases h

/-- The fetch members are not touched by executing. -/
theorem executed_ireq (h : Executed ci s s') : s'.ireq = s.ireq := by
  cases h with
  | plain c limit e he hp hr => exact hr.outcomes.ireq
  | untaken => rfl
  | taken e target r c he hj ht h => exact (Core.scheduleJump_outcomes h).1.ireq
  | mtspr a b he ha hb =>
    obtain ⟨-, hd⟩ | hw := sprWritten_cases (s := s) (a ||| ci.imm) b false
    · rw [hd]
      exact dozed_steady.ireq
    · exact hw.ireq
  | nop s' he h =>
    obtain ⟨rfl, -⟩ | ⟨rfl, -⟩ | ⟨c, rfl, hb, -⟩ := nop_ok h
    · rfl
    · rfl
    · exact hb.kept.ireq
  | rfe s' he h =>
    obtain ⟨c, hc, rfl⟩ := rfe_ok h
    have hk : c.ireq = s.ireq := by
      obtain ⟨-, rfl⟩ | ⟨-, -, rfl⟩ := Core.scheduleJump_cases hc
      · rfl
      · exact (Core.kept_entered (t := .insnAlignment) rfl _).ireq
    unfold rfeRestored
    split <;> exact hk

end Or1k

end Or1kiss
