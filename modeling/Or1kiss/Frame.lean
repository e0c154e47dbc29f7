import Or1kiss.Effect

/-!
# What an executor of the core keeps

`Kept` lists the state no executor of the core touches. Beyond it there are two cases: no
exception took effect and the control state is as before (`Calm`), or one did and the jump
to the vector of the last one is pending in handler mode (`Handling`).
-/

namespace Or1kiss

open Host Bits Relation

variable {σ : Type}

/-- The status bits an exception entry sets. -/
abbrev modeMask : U32 := SR.SM ||| SR.IEE ||| SR.TEE ||| SR.IME ||| SR.DME

/-- Supervisor mode, interrupts and translation off. -/
def HandlerMode (s : U32) : Prop := s &&& modeMask = SR.SM

namespace Core

structure Kept (c c' : Core σ) : Prop where
  instructions : c'.instructions = c.instructions
  cycles : c.cycles ≤ c'.cycles
  nextPc : c'.nextPc = c.nextPc
  prevPc : c'.prevPc = c.prevPc
  stopRequested : c'.stopRequested = c.stopRequested
  breakRequested : c'.breakRequested = c.breakRequested
  aecr : c'.aecr = c.aecr
  evba : c'.evba = c.evba
  shadow : c'.shadow = c.shadow
  picLevel : c'.picLevel = c.picLevel
  picMr : c'.picMr = c.picMr
  picSr : c'.picSr = c.picSr
  immu : c'.immu = c.immu
  virtIpg : c'.virtIpg = c.virtIpg
  physIpg : c'.physIpg = c.physIpg
  ireq : c'.ireq = c.ireq
  insn : c'.insn = c.insn
  eph : c'.status &&& SR.EPH = c.status &&& SR.EPH
  taken : c.taken <:+ c'.taken

/-- The control state is as before. -/
structure Calm (c c' : Core σ) : Prop where
  taken : c'.taken = c.taken
  status : c'.status &&& ~~~resultFlags = c.status &&& ~~~resultFlags
  jumpTarget : c'.jumpTarget = c.jumpTarget
  jumpInsn : c'.jumpInsn = c.jumpInsn
  expc : c'.expc = c.expc
  exea : c'.exea = c.exea
  exsr : c'.exsr = c.exsr
  pmr : c'.pmr = c.pmr
  aesr : c'.aesr = c.aesr

/-- A synchronous exception took effect: its vector is the target of the pending jump, due
at the end of this instruction. -/
structure Handling (c : Core σ) : Prop where
  vector : ∃ t, t.isAsync = false ∧ c.taken.head? = some t ∧ c.jumpTarget = c.exceptionTarget t
  due : c.jumpInsn = c.instructions
  mode : HandlerMode c.status
  awake : test c.pmr PMR.DME = false
  aligned : isAligned c.evba 4 = true

/-- An executor either leaves the control state or enters exceptions. -/
structure Outcomes (c c' : Core σ) : Prop extends Kept c c' where
  control : Calm c c' ∨ (c'.taken ≠ c.taken ∧ Handling c')

variable {c b c' : Core σ}

theorem Kept.refl (c : Core σ) : Kept c c := by
  constructor <;> first | exact Nat.le_refl _ | exact List.suffix_rfl | rfl

theorem Kept.trans (h : Kept c b) (h' : Kept b c') : Kept c c' where
  instructions := h'.instructions.trans h.instructions
  cycles := Nat.le_trans h.cycles h'.cycles
  nextPc := h'.nextPc.trans h.nextPc
  prevPc := h'.prevPc.trans h.prevPc
  stopRequested := h'.stopRequested.trans h.stopRequested
  breakRequested := h'.breakRequested.trans h.breakRequested
  aecr := h'.aecr.trans h.aecr
  evba := h'.evba.trans h.evba
  shadow := h'.shadow.trans h.shadow
  picLevel := h'.picLevel.trans h.picLevel
  picMr := h'.picMr.trans h.picMr
  picSr := h'.picSr.trans h.picSr
  immu := h'.immu.trans h.immu
  virtIpg := h'.virtIpg.trans h.virtIpg
  physIpg := h'.physIpg.trans h.physIpg
  ireq := h'.ireq.trans h.ireq
  insn := h'.insn.trans h.insn
  eph := h'.eph.trans h.eph
  taken := h.taken.trans h'.taken

theorem Calm.refl (c : Core σ) : Calm c c := by constructor <;> rfl

theorem Calm.trans (h : Calm c b) (h' : Calm b c') : Calm c c' where
  taken := h'.taken.trans h.taken
  status := h'.status.trans h.status
  jumpTarget := h'.jumpTarget.trans h.jumpTarget
  jumpInsn := h'.jumpInsn.trans h.jumpInsn
  expc := h'.expc.trans h.expc
  exea := h'.exea.trans h.exea
  exsr := h'.exsr.trans h.exsr
  pmr := h'.pmr.trans h.pmr
  aesr := h'.aesr.trans h.aesr

/-- Quiet effects keep the mode of a handler. -/
theorem Calm.mode (h : Calm c c') (hm : HandlerMode c.status) : HandlerMode c'.status := by
  have hcover : ∀ v : U32, v &&& modeMask = (v &&& ~~~resultFlags) &&& modeMask := fun v => by
    rw [BitVec.and_assoc, show ~~~resultFlags &&& modeMask = modeMask by decide]
  unfold HandlerMode at hm ⊢
  rw [hcover, h.status, ← hcover, hm]

theorem exceptionTarget_congr {t : ExType} (he : c'.evba = c.evba)
    (hs : c'.status &&& SR.EPH = c.status &&& SR.EPH) :
    c'.exceptionTarget t = c.exceptionTarget t := by
  have hp : test c'.status SR.EPH = test c.status SR.EPH := test_congr (k := SR.EPH) (by decide) hs
  simp only [exceptionTarget, he, hp]

/-- A handler stays entered while no other exception is. -/
theorem Handling.calm (h : Handling b) (hk : Kept b c') (hc : Calm b c') : Handling c' where
  vector := by
    obtain ⟨t, ht, hh, hj⟩ := h.vector
    refine ⟨t, ht, by rw [hc.taken, hh], ?_⟩
    rw [hc.jumpTarget, hj, exceptionTarget_congr hk.evba hk.eph]
  due := by rw [hc.jumpInsn, hk.instructions, h.due]
  mode := hc.mode h.mode
  awake := by rw [hc.pmr, h.awake]
  aligned := by rw [hk.evba, h.aligned]

theorem exceptionStatus_mode (c : Core σ) : HandlerMode c.exceptionStatus := by
  have hx : ∀ x : U32, (x &&& ~~~SR.IEE &&& ~~~SR.TEE &&& ~~~SR.IME &&& ~~~SR.DME) &&& modeMask =
      x &&& SR.SM := fun x => by
    simp only [BitVec.and_assoc]
    congr 1
  have hsm : (c.status ||| SR.SM) &&& SR.SM = SR.SM := by
    ext i hi; simp only [BitVec.getElem_and, BitVec.getElem_or]
    cases (SR.SM)[i] <;> simp
  simp only [HandlerMode, exceptionStatus, hx]
  split
  · rw [or_and_of_disjoint (by decide), hsm]
  · exact hsm

theorem exceptionStatus_eph (c : Core σ) : c.exceptionStatus &&& SR.EPH = c.status &&& SR.EPH :=
  exceptionStatus_and c (by decide)

theorem kept_entered {t : ExType} (ht : t.isAsync = false) (addr : U32) :
    Kept c (c.entered t addr) := by
  simp only [entered, ht, Bool.false_eq_true, if_false]
  constructor <;> first | exact Nat.le_refl _ | rfl | exact List.suffix_cons _ _ | skip
  exact exceptionStatus_eph c

theorem handling_entered {t : ExType} (ht : t.isAsync = false) (addr : U32)
    (he : isAligned c.evba 4 = true) : Handling (c.entered t addr) := by
  simp only [entered, ht, Bool.false_eq_true, if_false]
  exact {
    vector := ⟨t, ht, rfl, rfl⟩
    due := rfl
    mode := exceptionStatus_mode c
    awake := test_and_not_self _ _
    aligned := he }

theorem entered_taken (t : ExType) (addr : U32) : (c.entered t addr).taken = t :: c.taken := by
  simp only [entered]; split <;> rfl

theorem kept_regs (r : Regs) {s : U32}
    (h : s &&& ~~~resultFlags = c.status &&& ~~~resultFlags) :
    Kept c { c with toRegs := r, status := s } := by
  constructor <;> first | exact Nat.le_refl _ | exact List.suffix_rfl | rfl | skip
  have hm : ∀ x : U32, x &&& SR.EPH = (x &&& ~~~resultFlags) &&& SR.EPH := fun x => by
    rw [BitVec.and_assoc, show ~~~resultFlags &&& SR.EPH = SR.EPH by decide]
  rw [hm, h, ← hm]

theorem kept_toRegs (r : Regs) : Kept c { c with toRegs := r } := kept_regs (s := c.status) r rfl

theorem kept_raise {t : ExType} (ht : t.isAsync = false) (addr aesr : U32) :
    Kept c (({ c with aesr := aesr } : Core σ).entered t addr) :=
  (kept_toRegs { c.toRegs with aesr := aesr }).trans (kept_entered ht addr)

section Effects

variable [EnvImpl σ] {ts us : List ExType}

theorem Effect.kept (h : Effect m c ts c') : Kept c c' := by
  cases h with
  | regs r s ha h => exact kept_regs r h
  | data | translate =>
    constructor <;> first | exact Nat.le_add_right _ _ | exact Nat.le_refl _ | exact List.suffix_rfl | rfl
  | raise t addr aesr ht _ => exact kept_raise ht addr aesr

theorem Effects.kept (h : Effects m c ts c') : Kept c c' := by
  induction h with
  | refl => exact .refl c
  | tail _ hs ih => exact ih.trans hs.kept

theorem Effect.calm (h : Effect m c [] c') : Calm c c' := by
  cases h with
  | regs r s ha h => exact ⟨rfl, h, rfl, rfl, rfl, rfl, rfl, rfl, ha⟩
  | data | translate => constructor <;> rfl

theorem Effects.calm (h : Effects m c ts c') (hn : ts = []) : Calm c c' := by
  induction h with
  | refl => exact .refl c
  | tail _ hs ih =>
    obtain ⟨h1, h2⟩ := List.append_eq_nil_iff.1 hn
    subst h2
    exact (ih h1).trans hs.calm

/-- Effects without a memory access. -/
theorem Effects.noAccess (h : Effects false c ts c') : c'.env = c.env ∧ c'.dmmu = c.dmmu := by
  induction h with
  | refl => exact ⟨rfl, rfl⟩
  | tail _ hs ih =>
    cases hs with
    | regs => exact ih
    | data hm | translate hm => cases hm
    | raise t addr aesr ht he =>
      simp only [entered, ht, Bool.false_eq_true, if_false]
      exact ih

/-- The exceptions of a sequence of effects are those that the history gains. -/
theorem Effects.taken (h : Effects m c ts c') : c'.taken = ts.reverse ++ c.taken := by
  induction h with
  | refl => rfl
  | tail _ hs ih =>
    rw [List.reverse_append, List.append_assoc, ← ih]
    cases hs with
    | regs | data | translate => rfl
    | raise t addr aesr ht _ => exact entered_taken t addr

/-- One case for each kind of effect. -/
theorem Effect.outcomes (h : Effect m c ts c') : Outcomes c c' where
  toKept := h.kept
  control := by
    cases h with
    | regs r s ha h => exact .inl (Effect.calm (m := m) (.regs r s ha h))
    | data hm env dreq wp stall => exact .inl (Effect.calm (.data hm env dreq wp stall))
    | translate hm req => exact .inl (Effect.calm (.translate hm req))
    | raise t addr aesr ht he =>
      refine .inr ⟨?_, handling_entered ht addr he⟩
      rw [entered_taken]; exact List.cons_ne_self _ _

end Effects

theorem Outcomes.refl (c : Core σ) : Outcomes c c := ⟨.refl c, .inl (.refl c)⟩

theorem Outcomes.trans (h : Outcomes c b) (h' : Outcomes b c') : Outcomes c c' where
  toKept := h.toKept.trans h'.toKept
  control := by
    rcases h'.control with hc' | ⟨ht', hh'⟩
    · rcases h.control with hc | ⟨ht, hh⟩
      · exact .inl (hc.trans hc')
      · exact .inr ⟨by rwa [hc'.taken], hh.calm h'.toKept hc'⟩
    · refine .inr ⟨fun he => ht' ?_, hh'⟩
      -- the history only grows, so it cannot come back to `c.taken`
      have h1 := h.taken.length_le
      have h2 := h'.taken
      rw [he] at h2
      rw [he, h2.eq_of_length (Nat.le_antisymm h2.length_le h1)]

theorem Effects.outcomes [EnvImpl σ] {ts : List ExType} (h : Effects m c ts c') : Outcomes c c' := by
  induction h with
  | refl => exact .refl c
  | tail _ hs ih => exact ih.trans hs.outcomes

/-- Effects with one exception: quiet ones around its entry. -/
theorem Effects.entry [EnvImpl σ] {ts : List ExType} {t : ExType} (h : Effects m c ts c')
    (hs : ts = [t]) : ∃ b addr aesr, t.isAsync = false ∧ Effects m c [] b ∧
      Effects m (({ b with aesr := aesr } : Core σ).entered t addr) [] c' := by
  induction h with
  | refl => cases hs
  | @tail ts us b c' h h' ih =>
    cases h' with
    | regs r s ha hr =>
      obtain ⟨b1, addr, aesr, ht, hq, hk⟩ := ih (by simpa using hs)
      exact ⟨b1, addr, aesr, ht, hq, hk.tail (.regs r s ha hr)⟩
    | data hm env dreq wp stall =>
      obtain ⟨b1, addr, aesr, ht, hq, hk⟩ := ih (by simpa using hs)
      exact ⟨b1, addr, aesr, ht, hq, hk.tail (.data hm env dreq wp stall)⟩
    | translate hm req =>
      obtain ⟨b1, addr, aesr, ht, hq, hk⟩ := ih (by simpa using hs)
      exact ⟨b1, addr, aesr, ht, hq, hk.tail (.translate hm req)⟩
    | raise u addr aesr hu he =>
      obtain ⟨rfl, rfl⟩ : ts = [] ∧ u = t := by
        cases ts with
        | nil => exact ⟨rfl, by simpa using hs⟩
        | cons a l => simp at hs
      exact ⟨b, addr, aesr, hu, h, .refl⟩

/-! ## Jumps -/

theorem branchDelay_eq : branchDelay = 1 := by decide

theorem kept_setJump (target : U32) (n : Nat) : Kept c (c.setJump target n) := by
  constructor <;> first | exact Nat.le_refl _ | exact List.suffix_rfl | rfl

/-- A jump is scheduled, or its misaligned target enters an exception. -/
theorem scheduleJump_cases {target : U32} {delay : Nat} (h : c.scheduleJump target delay = .ok c') :
    (isAligned target 4 = true ∧ c' = c.setJump target (c.instructions + delay)) ∨
      (isAligned target 4 = false ∧ isAligned c.evba 4 = true ∧
        c' = (c.setJump target (c.instructions + delay)).entered .insnAlignment target) := by
  rw [scheduleJump_eq] at h
  split at h <;> rename_i ha
  · exact .inl ⟨ha, (Outcome.ok.inj h).symm⟩
  · obtain ⟨hm, -⟩ | ⟨-, he, rfl⟩ := exception_ok h
    · cases hm
    · exact .inr ⟨by simpa using ha, he.resolve_left (by simp [ExType.isAsync]), rfl⟩

/-- A jump that does not raise an exception is pending, to an aligned target. -/
structure Jumped (c c' : Core σ) (target : U32) : Prop where
  aligned : isAligned target 4 = true
  jumpTarget : c'.jumpTarget = target
  jumpInsn : c'.jumpInsn = c.instructions + 1
  taken : c'.taken = c.taken
  status : c'.status = c.status
  expc : c'.expc = c.expc
  exea : c'.exea = c.exea
  exsr : c'.exsr = c.exsr
  pmr : c'.pmr = c.pmr

/-- A taken jump is pending, or its target is misaligned and the exception is entered. -/
theorem scheduleJump_outcomes {target : U32} (h : c.scheduleJump target branchDelay = .ok c') :
    Kept c c' ∧ (Jumped c c' target ∨ (c'.taken ≠ c.taken ∧ Handling c')) := by
  rw [branchDelay_eq] at h
  obtain ⟨ha, rfl⟩ | ⟨-, he, rfl⟩ := scheduleJump_cases h
  · exact ⟨kept_setJump _ _, .inl ⟨ha, rfl, rfl, rfl, rfl, rfl, rfl, rfl, rfl⟩⟩
  · refine ⟨(kept_setJump target _).trans (kept_entered rfl target), .inr ⟨?_, ?_⟩⟩
    · rw [entered_taken]
      exact List.cons_ne_self _ _
    · exact handling_entered rfl target he

end Core

end Or1kiss
