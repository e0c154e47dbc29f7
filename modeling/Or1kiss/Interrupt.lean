import Or1kiss.Fetch

/-!
# Interrupts, the timer and register writes are total

Tick timer and external exceptions are entered directly, so nothing between instructions
can fail. `timerUpdated`, `dozed` and `sprWritten` are the values of `updateTimer`, `doze`
and `setSpr`.
-/

namespace Or1kiss

open Host Bits

variable {σ : Type} {s s' : Or1k σ}

namespace Or1k

/-- The state after an interrupt was accepted or found masked. -/
def interrupted (t : ExType) (s : Or1k σ) : Or1k σ :=
  if s.toCore.masked t then s else s.withCore (s.toCore.entered t 0#32)

theorem exception_async {t : ExType} (ht : t.isAsync = true) :
    s.exception t 0#32 = .ok (s.interrupted t) := by
  simp only [exception, onCore, Core.exception_eq, ht, interrupted]
  split <;> rfl

/-- External interrupts: the check at the start and at the end of a mini-quantum. -/
def externalChecked (s : Or1k σ) : Or1k σ :=
  if s.isInterruptPending then s.interrupted .external else s

theorem checkExternal_eq : s.checkExternal = .ok s.externalChecked := by
  simp only [checkExternal, externalChecked]
  split
  · exact exception_async rfl
  · rfl

/-- The tick exception of a pending timer, if the timer counts. -/
def tickChecked (s : Or1k σ) : Or1k σ :=
  if s.tick.enabled then
    if s.syncTick.tick.irqPending then s.syncTick.interrupted .tickTimer else s.syncTick
  else s

def timerUpdated (s : Or1k σ) : Or1k σ := { s.tickChecked with tickUpdate := s.cycles }

theorem interrupted_cycles (t : ExType) : (s.interrupted t).cycles = s.cycles := by
  simp only [interrupted]
  split
  · rfl
  · simp only [withCore, Core.entered]; split <;> rfl

theorem tickChecked_cycles : s.tickChecked.cycles = s.cycles := by
  simp only [tickChecked]
  split
  · split
    · rw [interrupted_cycles]; rfl
    · rfl
  · rfl

theorem interrupted_limit (t : ExType) : (s.interrupted t).limit = s.limit := by
  unfold interrupted
  split <;> rfl

theorem externalChecked_limit : s.externalChecked.limit = s.limit := by
  unfold externalChecked
  split
  · exact interrupted_limit _
  · rfl

theorem tickChecked_limit : s.tickChecked.limit = s.limit := by
  unfold tickChecked
  split
  · split
    · exact interrupted_limit _
    · rfl
  · rfl

theorem checkTick_eq : s.checkTick = .ok s.tickChecked := by
  simp only [checkTick, tickChecked]
  split
  · split
    · exact exception_async rfl
    · rfl
  · rfl

theorem updateTimer_eq : s.updateTimer = .ok s.timerUpdated := by
  simp only [updateTimer, checkTick_eq, Outcome.ok_bind, Outcome.pure_eq, timerUpdated,
    tickChecked_cycles]

theorem endMini_eq : s.endMini = .ok s.timerUpdated.externalChecked := by
  simp only [endMini, updateTimer_eq, Outcome.ok_bind, checkExternal_eq]

variable [EnvImpl σ]

def dozed (s : Or1k σ) : Or1k σ :=
  if !test s.pmr PMR.DME || !s.allowSleep then s
  else
    let r := s.sleep s.dozeSkip
    if r.1 ≠ 0 then r.2.woken r.1 else (r.2.skipCycles s.dozeSkip).timerUpdated

theorem doze_eq : s.doze = .ok s.dozed := by
  simp only [doze, dozed]
  split
  · rfl
  · split
    · rfl
    · exact updateTimer_eq

theorem beginQuantum_eq (n : U32) :
    s.beginQuantum n = .ok ({ s with limit := s.cycles + n.toNat }.externalChecked).dozed := by
  simp only [beginQuantum, checkExternal_eq, Outcome.ok_bind, doze_eq]

/-- What a permitted `set_spr` leaves. -/
def regWritten (s : Or1k σ) (reg val : U32) : Or1k σ :=
  match SpReg.ofNum reg with
  | some .icbir => { s with decodeCache := s.decodeCache.invalidateBlock val 32 }
  | some .pmr => (s.withCore (s.toCore.writeReg .pmr val)).dozed
  | some .ttmr => { s with tick := s.tick.setTtmr val }
  | some .ttcr => { s with tick := s.tick.setTtcr val }
  | some r => s.withCore (s.toCore.writeReg r val)
  | none =>
    match SprFile.ofNum reg.toNat with
    | some f => s.withCore (s.toCore.writeFile f (f.offset reg) val)
    | none => s

def sprWritten (s : Or1k σ) (reg val : U32) (debug : Bool) : Or1k σ :=
  if s.writeDenied reg debug then s.requestBreak else s.requestBreak.regWritten reg val

theorem writeSpr_eq (reg val : U32) : s.writeSpr reg val = .ok (s.regWritten reg val) := by
  simp only [writeSpr, regWritten]
  cases SpReg.ofNum reg with
  | none => cases SprFile.ofNum reg.toNat <;> rfl
  | some r => cases r <;> first | rfl | exact doze_eq

theorem setSpr_eq (reg val : U32) (debug : Bool) :
    s.setSpr reg val debug = .ok (s.sprWritten reg val debug) := by
  simp only [setSpr, sprWritten]
  split
  · rfl
  · exact writeSpr_eq reg val

/-! ## What interrupts, the timer and sleeping leave alone -/

/-- Members that neither an interrupt nor sleeping changes. -/
structure Steady (s s' : Or1k σ) : Prop where
  toRegs : s'.toRegs = s.toRegs
  stopRequested : s'.stopRequested = s.stopRequested
  breakRequested : s'.breakRequested = s.breakRequested
  instructions : s'.instructions = s.instructions
  prevPc : s'.prevPc = s.prevPc
  aecr : s'.aecr = s.aecr
  evba : s'.evba = s.evba
  shadow : s'.shadow = s.shadow
  picLevel : s'.picLevel = s.picLevel
  picMr : s'.picMr = s.picMr
  picSr : s'.picSr = s.picSr
  dmmu : s'.dmmu = s.dmmu
  immu : s'.immu = s.immu
  virtIpg : s'.virtIpg = s.virtIpg
  physIpg : s'.physIpg = s.physIpg
  ireq : s'.ireq = s.ireq
  wpEvent : s'.wpEvent = s.wpEvent
  decodeCache : s'.decodeCache = s.decodeCache
  compiles : s'.compiles = s.compiles
  allowSleep : s'.allowSleep = s.allowSleep
  breakpoints : s'.breakpoints = s.breakpoints
  cycles : s.cycles ≤ s'.cycles
  eph : s'.status &&& SR.EPH = s.status &&& SR.EPH

omit [EnvImpl σ]

variable {t : Or1k σ}

theorem Steady.refl (s : Or1k σ) : Steady s s := by
  constructor <;> first | exact Nat.le_refl _ | rfl

theorem Steady.trans (h : Steady s t) (h' : Steady t s') : Steady s s' where
  toRegs := h'.toRegs.trans h.toRegs
  stopRequested := h'.stopRequested.trans h.stopRequested
  breakRequested := h'.breakRequested.trans h.breakRequested
  instructions := h'.instructions.trans h.instructions
  prevPc := h'.prevPc.trans h.prevPc
  aecr := h'.aecr.trans h.aecr
  evba := h'.evba.trans h.evba
  shadow := h'.shadow.trans h.shadow
  picLevel := h'.picLevel.trans h.picLevel
  picMr := h'.picMr.trans h.picMr
  picSr := h'.picSr.trans h.picSr
  dmmu := h'.dmmu.trans h.dmmu
  immu := h'.immu.trans h.immu
  virtIpg := h'.virtIpg.trans h.virtIpg
  physIpg := h'.physIpg.trans h.physIpg
  ireq := h'.ireq.trans h.ireq
  wpEvent := h'.wpEvent.trans h.wpEvent
  decodeCache := h'.decodeCache.trans h.decodeCache
  compiles := h'.compiles.trans h.compiles
  allowSleep := h'.allowSleep.trans h.allowSleep
  breakpoints := h'.breakpoints.trans h.breakpoints
  cycles := Nat.le_trans h.cycles h'.cycles
  eph := h'.eph.trans h.eph

theorem steady_entered {e : ExType} (he : e.isAsync = true) (addr : U32) :
    Steady s (s.withCore (s.toCore.entered e addr)) := by
  simp only [Core.entered, he, if_true]
  constructor <;> first | exact Nat.le_refl _ | rfl | skip
  exact Core.exceptionStatus_eph s.toCore

theorem interrupted_steady {e : ExType} (he : e.isAsync = true) : Steady s (s.interrupted e) := by
  simp only [interrupted]
  split
  · exact .refl s
  · exact steady_entered he 0#32

theorem externalChecked_steady : Steady s s.externalChecked := by
  simp only [externalChecked]
  split
  · exact interrupted_steady rfl
  · exact .refl s

theorem tickChecked_steady : Steady s s.tickChecked := by
  have hs : Steady s s.syncTick := by constructor <;> first | exact Nat.le_refl _ | rfl
  simp only [tickChecked]
  split
  · split
    · exact hs.trans (interrupted_steady rfl)
    · exact hs
  · exact .refl s

theorem timerUpdated_steady : Steady s s.timerUpdated := by
  refine tickChecked_steady.trans ?_
  constructor <;> first | exact Nat.le_refl _ | rfl

theorem dozed_steady [EnvImpl σ] : Steady s s.dozed := by
  have hsleep : Steady s (s.sleep s.dozeSkip).2 := by
    constructor <;> first | exact Nat.le_refl _ | rfl
  simp only [dozed]
  split
  · exact .refl s
  · refine hsleep.trans ?_
    split
    · constructor <;> first | rfl | exact Nat.le_add_right _ _
    · refine .trans ?_ timerUpdated_steady
      constructor <;> first | rfl | exact Nat.le_add_right _ _

theorem interrupted_fixed (t : ExType) :
    (s.interrupted t).status &&& SR.FO = s.status &&& SR.FO := by
  unfold interrupted
  split
  · rfl
  · have he : (s.toCore.entered t 0#32).status = s.toCore.exceptionStatus := by
      unfold Core.entered
      dsimp only
      split <;> rfl
    show (s.toCore.entered t 0#32).status &&& SR.FO = _
    rw [he]
    exact Core.exceptionStatus_and s.toCore (by decide)

theorem interrupted_env (t : ExType) : (s.interrupted t).env = s.env := by
  unfold interrupted
  split
  · rfl
  · unfold withCore Core.entered
    dsimp only
    split <;> rfl

theorem externalChecked_fixed : s.externalChecked.status &&& SR.FO = s.status &&& SR.FO ∧
    s.externalChecked.env = s.env := by
  unfold externalChecked
  split
  · exact ⟨interrupted_fixed _, interrupted_env _⟩
  · exact ⟨rfl, rfl⟩

theorem timerUpdated_fixed : s.timerUpdated.status &&& SR.FO = s.status &&& SR.FO ∧
    s.timerUpdated.env = s.env := by
  show s.tickChecked.status &&& SR.FO = _ ∧ s.tickChecked.env = _
  unfold tickChecked
  split
  · split
    · exact ⟨interrupted_fixed (s := s.syncTick) _, interrupted_env (s := s.syncTick) _⟩
    · exact ⟨rfl, rfl⟩
  · exact ⟨rfl, rfl⟩

/-! ## Acceptance -/

/-- An interrupt was accepted: its vector is the next instruction, in handler mode. -/
structure Accepted (e : ExType) (s s' : Or1k σ) : Prop where
  async : e.isAsync = true
  enabled : s.toCore.masked e = false
  taken : s'.taken = e :: s.taken
  nextPc : s'.nextPc = s'.toCore.exceptionTarget e
  mode : HandlerMode s'.status
  expc : s'.expc = s.toCore.exceptionPc e
  exsr : s'.exsr = s.status
  jumpInsn : s'.jumpInsn = 0
  jumpTarget : s'.jumpTarget = s.jumpTarget
  awake : test s'.pmr PMR.DME = false

/-- No interrupt was accepted. -/
structure Ignored (s s' : Or1k σ) : Prop where
  taken : s'.taken = s.taken
  nextPc : s'.nextPc = s.nextPc
  status : s'.status = s.status
  jumpInsn : s'.jumpInsn = s.jumpInsn
  jumpTarget : s'.jumpTarget = s.jumpTarget
  expc : s'.expc = s.expc
  exea : s'.exea = s.exea
  exsr : s'.exsr = s.exsr

theorem Ignored.refl (s : Or1k σ) : Ignored s s := by constructor <;> rfl

theorem interrupted_cases {e : ExType} (he : e.isAsync = true) :
    (s.toCore.masked e = true ∧ s.interrupted e = s) ∨ Accepted e s (s.interrupted e) := by
  cases hm : s.toCore.masked e with
  | true => exact .inl ⟨rfl, by simp only [interrupted, hm, if_true]⟩
  | false =>
    refine .inr ?_
    simp only [interrupted, hm, Core.entered, he, if_true, Bool.false_eq_true, if_false]
    exact {
      async := he
      enabled := hm
      taken := rfl
      nextPc := rfl
      mode := Core.exceptionStatus_mode s.toCore
      expc := rfl
      exsr := rfl
      jumpInsn := rfl
      jumpTarget := rfl
      awake := test_and_not_self _ _ }

/-- In handler mode every interrupt is masked. -/
theorem masked_of_handlerMode {c : Core σ} (h : HandlerMode c.status) {e : ExType}
    (he : e.isAsync = true) : c.masked e = true := by
  have hm : ∀ m : U32, m &&& modeMask = m → SR.SM &&& m = 0#32 → test c.status m = false := by
    intro m h1 h2
    rw [test_eq_false_iff, ← h1, BitVec.and_comm m, ← BitVec.and_assoc, h, h2]
  cases e with
  | external => simp only [Core.masked, Core.isExtIrqEnabled, hm SR.IEE (by decide) (by decide)]; rfl
  | tickTimer => simp only [Core.masked, Core.isTickIrqEnabled, hm SR.TEE (by decide) (by decide)]; rfl
  | _ => cases he

theorem externalChecked_cases :
    s.externalChecked = s ∨ Accepted .external s s.externalChecked := by
  simp only [externalChecked]
  split
  · exact (interrupted_cases rfl).imp_left And.right
  · exact .inl rfl

theorem externalChecked_of_masked (h : (s.isInterruptPending && s.isExtIrqEnabled) = false) :
    s.externalChecked = s := by
  rcases externalChecked_cases (s := s) with he | ha
  · exact he
  · have hen : s.isExtIrqEnabled = true := by
      have hmask : (!s.isExtIrqEnabled) = false := ha.enabled
      simpa using hmask
    rw [hen, Bool.and_true] at h
    unfold externalChecked
    rw [h, if_neg Bool.false_ne_true]

theorem externalChecked_accepts (h : (s.isInterruptPending && s.isExtIrqEnabled) = true) :
    Accepted .external s s.externalChecked := by
  rw [Bool.and_eq_true] at h
  unfold externalChecked
  rw [if_pos h.1]
  rcases interrupted_cases (s := s) (e := .external) rfl with ⟨hm, -⟩ | ha
  · have hmask : (!s.isExtIrqEnabled) = true := hm
    rw [h.2] at hmask
    cases hmask
  · exact ha

/-- Synchronising the timer raises the tick exception. -/
def timerTicks (s : Or1k σ) : Bool :=
  s.tick.enabled && s.syncTick.tick.irqPending && s.isTickIrqEnabled

theorem timerUpdated_accepts (h : s.timerTicks = true) : Accepted .tickTimer s s.timerUpdated := by
  simp only [timerTicks, Bool.and_eq_true] at h
  obtain ⟨⟨he, hp⟩, ht⟩ := h
  simp only [timerUpdated, tickChecked, if_pos he, if_pos hp]
  rcases interrupted_cases (s := s.syncTick) (e := .tickTimer) rfl with ⟨hm, -⟩ | h
  · rw [show s.syncTick.toCore.masked .tickTimer = !s.isTickIrqEnabled from rfl, ht] at hm
    cases hm
  · exact ⟨h.async, h.enabled, h.taken, h.nextPc, h.mode, h.expc, h.exsr, h.jumpInsn,
      h.jumpTarget, h.awake⟩

theorem timerUpdated_ignores (h : s.timerTicks = false) : Ignored s s.timerUpdated := by
  simp only [timerUpdated, tickChecked]
  split <;> rename_i he
  · split <;> rename_i hp
    · have hm : s.syncTick.toCore.masked .tickTimer = true := by
        rw [timerTicks, he, hp, Bool.true_and, Bool.true_and] at h
        rw [show s.syncTick.toCore.masked .tickTimer = !s.isTickIrqEnabled from rfl, h]
        rfl
      simp only [interrupted, hm, if_true]
      constructor <;> rfl
    · constructor <;> rfl
  · constructor <;> rfl

/-- The end of a mini-quantum accepts the tick exception, or an external one, or none. -/
theorem timerUpdated_cases :
    Ignored s s.timerUpdated ∨ Accepted .tickTimer s s.timerUpdated := by
  cases h : s.timerTicks with
  | true => exact .inr (timerUpdated_accepts h)
  | false => exact .inl (timerUpdated_ignores h)

theorem endMini_cases :
    Ignored s s.timerUpdated.externalChecked ∨
      ∃ e, Accepted e s s.timerUpdated.externalChecked := by
  rcases timerUpdated_cases (s := s) with hi | ha
  · rcases externalChecked_cases (s := s.timerUpdated) with he | he
    · rw [he]; exact .inl hi
    · refine .inr ⟨.external, he.async, ?_, ?_, he.nextPc, he.mode, ?_, ?_, he.jumpInsn, ?_, he.awake⟩
      · rw [← he.enabled]; simp only [Core.masked, Core.isExtIrqEnabled, hi.status]
      · rw [he.taken, hi.taken]
      · rw [he.expc]
        exact Core.exceptionPc_congr timerUpdated_steady.instructions hi.jumpInsn hi.jumpTarget
          timerUpdated_steady.prevPc hi.nextPc _
      · rw [he.exsr, hi.status]
      · rw [he.jumpTarget, hi.jumpTarget]
  · refine .inr ⟨.tickTimer, ?_⟩
    have hm := masked_of_handlerMode ha.mode (e := .external) rfl
    rcases externalChecked_cases (s := s.timerUpdated) with he | he
    · rw [he]; exact ha
    · rw [he.enabled] at hm; cases hm

section Doze

/-- The state in which a sleep that the port does not serve synchronises the timer. -/
def skipped (s : Or1k σ) : Or1k σ := (s.sleep s.dozeSkip).2.skipCycles s.dozeSkip

/-- Sleeping from this state raises the tick exception. -/
def sleepTicks (s : Or1k σ) : Bool :=
  test s.pmr PMR.DME && s.allowSleep && (s.sleep s.dozeSkip).1 == 0 && s.skipped.timerTicks

variable [EnvImpl σ]

theorem dozed_accepts (h : s.sleepTicks = true) : Accepted .tickTimer s s.dozed := by
  simp only [sleepTicks, Bool.and_eq_true, beq_iff_eq] at h
  obtain ⟨⟨⟨h1, h2⟩, h3⟩, h4⟩ := h
  have hd : s.dozed = s.skipped.timerUpdated := by
    simp only [dozed, h1, h2, h3]; rfl
  have ha := timerUpdated_accepts h4
  rw [hd]
  exact ⟨ha.async, ha.enabled, ha.taken, ha.nextPc, ha.mode, ha.expc, ha.exsr, ha.jumpInsn,
    ha.jumpTarget, ha.awake⟩

theorem dozed_ignores (h : s.sleepTicks = false) : Ignored s s.dozed := by
  simp only [dozed]
  split
  · exact .refl s
  · rename_i h1
    split
    · constructor <;> rfl
    · rename_i h2
      have h3 : s.skipped.timerTicks = false := by
        simp only [Bool.or_eq_true, Bool.not_eq_true', not_or, Bool.not_eq_false] at h1
        simpa [sleepTicks, h1.1, h1.2, not_not.1 h2] using h
      have hi := timerUpdated_ignores h3
      exact ⟨hi.taken, hi.nextPc, hi.status, hi.jumpInsn, hi.jumpTarget, hi.expc, hi.exea, hi.exsr⟩

/-- Without doze mode there is no sleep. -/
theorem dozed_awake (h : test s.pmr PMR.DME = false) : s.dozed = s := by
  unfold dozed
  rw [h]
  rfl

/-- Sleeping accepts the tick exception or none. -/
theorem dozed_cases : Ignored s s.dozed ∨ Accepted .tickTimer s s.dozed := by
  cases h : s.sleepTicks with
  | true => exact .inr (dozed_accepts h)
  | false => exact .inl (dozed_ignores h)

end Doze

/-! ## Register writes -/

/-- What a write to a register other than PMR leaves alone. -/
structure RegWrite (reg : U32) (s s' : Or1k σ) : Prop where
  taken : s'.taken = s.taken
  instructions : s'.instructions = s.instructions
  cycles : s'.cycles = s.cycles
  jumpInsn : s'.jumpInsn = s.jumpInsn
  jumpTarget : s'.jumpTarget = s.jumpTarget
  stopRequested : s'.stopRequested = s.stopRequested
  breakRequested : s'.breakRequested = s.breakRequested
  breakpoints : s'.breakpoints = s.breakpoints
  virtIpg : s'.virtIpg = s.virtIpg
  physIpg : s'.physIpg = s.physIpg
  ireq : s'.ireq = s.ireq
  nextPc : reg ≠ SpReg.npc.num → s'.nextPc = s.nextPc
  status : reg ≠ SpReg.sr.num → s'.status = s.status
  evba : reg ≠ SpReg.evbar.num → s'.evba = s.evba
  expc : reg ≠ SpReg.epcr.num → s'.expc = s.expc
  exsr : reg ≠ SpReg.esr.num → s'.exsr = s.exsr

variable [EnvImpl σ]

omit [EnvImpl σ] in
theorem SpReg.num_of_ofNum {reg : U32} {r : SpReg} (h : SpReg.ofNum reg = some r) :
    reg = r.num := (beq_iff_eq.1 (List.find?_some h :)).symm

theorem regWritten_pmr (val : U32) :
    s.regWritten SpReg.pmr.num val = (s.withCore (s.toCore.writeReg .pmr val)).dozed := by
  simp only [regWritten, SpReg.ofNum_num]

theorem regWritten_write {reg : U32} (hp : reg ≠ SpReg.pmr.num) (val : U32) :
    RegWrite reg s (s.regWritten reg val) := by
  simp only [regWritten]
  cases hr : SpReg.ofNum reg with
  | none =>
    cases SprFile.ofNum reg.toNat with
    | none => constructor <;> intros <;> rfl
    | some f => cases f <;> constructor <;> intros <;> rfl
  | some r =>
    have hreg := SpReg.num_of_ofNum hr
    cases r with
    | pmr => exact (hp hreg).elim
    | npc | sr | evbar | epcr | esr =>
      constructor <;> first | rfl | (intro hn; first | exact (hn hreg).elim | rfl)
    | picsr =>
      simp only [Core.writeReg]
      split <;> constructor <;> intros <;> rfl
    | _ => constructor <;> intros <;> rfl

/-- A write to PMR may sleep; another one changes its register, or nothing. -/
theorem sprWritten_cases (reg val : U32) (debug : Bool) :
    (reg = SpReg.pmr.num ∧ s.sprWritten reg val debug =
      (s.requestBreak.withCore (s.requestBreak.toCore.writeReg .pmr val)).dozed) ∨
      RegWrite reg s.requestBreak (s.sprWritten reg val debug) := by
  simp only [sprWritten]
  split
  · exact .inr (by constructor <;> intros <;> rfl)
  · by_cases hp : reg = SpReg.pmr.num
    · subst hp; exact .inl ⟨rfl, regWritten_pmr val⟩
    · exact .inr (regWritten_write hp val)

/-- Every write of a special purpose register breaks the quantum. -/
theorem sprWritten_breakRequested (reg val : U32) (debug : Bool) :
    (s.sprWritten reg val debug).breakRequested = true := by
  obtain ⟨-, he⟩ | hw := sprWritten_cases (s := s) reg val debug
  · rw [he]; exact dozed_steady.breakRequested
  · exact hw.breakRequested

theorem sprWritten_breakpoints (reg val : U32) (debug : Bool) :
    (s.sprWritten reg val debug).breakpoints = s.breakpoints := by
  obtain ⟨-, he⟩ | hw := sprWritten_cases (s := s) reg val debug
  · rw [he]; exact dozed_steady.breakpoints
  · exact hw.breakpoints

end Or1k

end Or1kiss
