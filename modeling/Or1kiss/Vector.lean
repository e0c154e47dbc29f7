import Or1kiss.Entry

/-!
# From an exception to its vector

A synchronous exception schedules the jump to its vector for the end of the instruction, tick
and external ones write the program counter. `AtVector` is what both owe to the next fetch.
Two instructions do not deliver it (`derails`): `l.mtspr` to PMR, when the sleep it starts
raises the tick exception before the program counter is advanced, and `l.rfe` to a misaligned
address, which restores the old mode over that of the exception.
-/

namespace Or1kiss

open Host Bits

variable {σ : Type}

namespace Or1k

variable {s s' x f : Or1k σ} {ci : Instruction} {t : ExType}

/-- The exception `t` took effect on the way from `s` to `x`. -/
def Entered (t : ExType) (s x : Or1k σ) : Prop := ∃ ts, x.taken = ts ++ s.taken ∧ t ∈ ts

theorem not_entered (h : x.taken = s.taken) : ¬Entered t s x := by
  rintro ⟨ts, ht, hm⟩
  rw [h] at ht
  rw [List.self_eq_append_left.1 ht] at hm
  cases hm

theorem entered_cons {u : ExType} (h : x.taken = u :: s.taken) (he : Entered t s x) : t = u := by
  obtain ⟨ts, ht, hm⟩ := he
  rw [h] at ht
  have : ts = [u] := List.append_cancel_right (ht.symm.trans (List.singleton_append (l := s.taken)).symm)
  rw [this] at hm
  exact List.mem_singleton.1 hm

/-- The next instruction is the vector of `t`, and it runs in handler mode. -/
structure AtVector (t : ExType) (s : Or1k σ) : Prop where
  nextPc : s.nextPc = s.toCore.exceptionTarget t
  mode : HandlerMode s.status

/-- An exception is entered, and the jump to its vector is due. -/
structure Pending (t : ExType) (x : Or1k σ) : Prop where
  jumpTarget : x.jumpTarget = x.toCore.exceptionTarget t
  due : x.jumpInsn = x.instructions
  mode : HandlerMode x.status

theorem pending_of_handling (h : Core.Handling x.toCore) (ht : x.taken.head? = some t) :
    Pending t x := by
  obtain ⟨u, -, hu, hj⟩ := h.vector
  rw [ht] at hu
  cases hu
  exact ⟨hj, h.due, h.mode⟩

theorem handlerMode_or_fo {v : U32} : HandlerMode (v ||| SR.FO) ↔ HandlerMode v := by
  rw [HandlerMode, or_and_of_disjoint (by decide)]; rfl

theorem pending_entered {c : Core σ} {addr : U32} (ht : t.isAsync = false)
    (ha : isAligned c.evba 4 = true) (hx : x.toCore = c.entered t addr) : Pending t x :=
  pending_of_handling (hx ▸ Core.handling_entered ht addr ha) (by rw [hx, Core.entered_taken]; rfl)

theorem retired_target (t : ExType) :
    x.retire.redirect.toCore.exceptionTarget t = x.toCore.exceptionTarget t := by
  refine Core.exceptionTarget_congr ?_ ?_
  · simp only [redirect]; split <;> rfl
  · have he : (x.status ||| SR.FO) &&& SR.EPH = x.status &&& SR.EPH :=
      or_and_of_disjoint (by decide)
    simp only [redirect]; split <;> exact he

theorem retired_status : x.retire.redirect.status = x.status ||| SR.FO := by
  simp only [redirect]; split <;> rfl

/-- The jump to the vector is taken at the end of the instruction. -/
theorem Pending.atVector (h : Pending t x) : AtVector t x.retire.redirect where
  nextPc := by
    have hj : x.retire.jumpDue = true := beq_iff_eq.2 h.due.symm
    rw [retired_target, ← h.jumpTarget]
    simp only [redirect, hj, if_true]
    rfl
  mode := by rw [retired_status, handlerMode_or_fo]; exact h.mode

theorem Accepted.atVector {e : ExType} (h : Accepted e s x) : AtVector e x := ⟨h.nextPc, h.mode⟩

/-- An interrupt cannot be accepted at a vector. -/
theorem AtVector.ignored (h : AtVector t s) (hi : Ignored s s') (hs : Steady s s') :
    AtVector t s' where
  nextPc := by rw [hi.nextPc, h.nextPc, Core.exceptionTarget_congr hs.evba hs.eph]
  mode := by rw [hi.status]; exact h.mode

theorem AtVector.not_accepted {e : ExType} (h : AtVector t s) : ¬Accepted e s x := fun ha => by
  have hm := masked_of_handlerMode h.mode ha.async
  rw [ha.enabled] at hm
  cases hm

theorem AtVector.externalChecked (h : AtVector t s) : AtVector t s.externalChecked := by
  rcases externalChecked_cases (s := s) with he | ha
  · rwa [he]
  · exact (h.not_accepted ha).elim

theorem AtVector.timerUpdated (h : AtVector t s) : AtVector t s.timerUpdated := by
  rcases timerUpdated_cases (s := s) with hi | ha
  · exact h.ignored hi timerUpdated_steady
  · exact (h.not_accepted ha).elim

theorem AtVector.dozed [EnvImpl σ] (h : AtVector t s) : AtVector t s.dozed := by
  rcases dozed_cases (s := s) with hi | ha
  · exact h.ignored hi dozed_steady
  · exact (h.not_accepted ha).elim

/-- The program counter is advanced past the vector that a tick exception has set. -/
theorem Accepted.not_atVector {e : ExType} {g : Or1k σ} (h : Accepted e g x)
    (hi : 0 < x.instructions) : ¬AtVector e x.retire.redirect := fun hv => by
  have hj : x.retire.jumpDue = false := by
    show (x.instructions == x.jumpInsn) = false
    rw [h.jumpInsn]
    exact beq_false_of_ne (Nat.ne_of_gt hi)
  have hn := hv.nextPc
  rw [retired_target, ← h.nextPc] at hn
  simp only [redirect, hj, Bool.false_eq_true, if_false] at hn
  have : x.nextPc + 4#32 = x.nextPc := hn
  simp at this

theorem FetchedInsn.taken (h : FetchedInsn s f) : f.taken = s.taken := congrArg (·.taken) h.eq

theorem FetchedInsn.instructions (h : FetchedInsn s f) : f.instructions = s.instructions :=
  congrArg (·.instructions) h.eq

theorem Entered.of_taken (h : Entered t s x) (hf : f.taken = s.taken) : Entered t f x := by
  rwa [Entered, hf]

variable {c : Core σ}

/-! ## `l.rfe` to a misaligned address -/

/-- `l.rfe` has a misaligned target, and the mode is not that of a handler. -/
def rfeReturns (f : Or1k σ) : Bool :=
  f.readsSuper && !isAligned f.expc 4 && (f.status &&& modeMask) != SR.SM

/-- `l.rfe` to a misaligned address enters an exception, and then restores the status that it
was executed in. -/
theorem rfe_restored
    (hc : c = (f.setJump f.rfeTarget (f.instructions + 0)).entered .insnAlignment f.rfeTarget) :
    (f.withCore c).rfeRestored = { (f.withCore c).requestBreak with status := f.status } := by
  have hm : HandlerMode c.status := by rw [hc]; exact Core.exceptionStatus_mode _
  have hs : (f.withCore c).isSupervisor = true := by
    have : test c.status SR.SM = test SR.SM SR.SM :=
      test_congr (k := modeMask) (by decide) hm
    exact this
  have hx : (f.withCore c).rfeStatus = f.status := by
    rw [rfeStatus, readsSuper, hs, Bool.true_or, if_pos rfl, hc]
    rfl
  rw [rfeRestored, if_pos hs, hx]

theorem rfe_misaligned (hm : isAligned f.rfeTarget 4 = false) :
    f.readsSuper = true ∧ isAligned f.expc 4 = false := by
  have hr : f.readsSuper = true := by
    by_contra hn
    rw [rfeTarget, if_neg hn] at hm
    exact absurd hm (by decide)
  rw [rfeTarget, if_pos hr] at hm
  exact ⟨hr, hm⟩

theorem rfe_pending (hm : isAligned f.rfeTarget 4 = false)
    (hc : c = (f.setJump f.rfeTarget (f.instructions + 0)).entered .insnAlignment f.rfeTarget)
    (hl : f.rfeReturns = false) : Pending .insnAlignment (f.withCore c).rfeRestored := by
  obtain ⟨hr, ha⟩ := rfe_misaligned hm
  rw [rfe_restored hc]
  have hmode : f.status &&& modeMask = SR.SM := by
    simpa [rfeReturns, hr, ha] using hl
  subst hc
  refine ⟨?_, rfl, hmode⟩
  exact Core.exceptionTarget_congr rfl
    (Core.exceptionStatus_eph (f.setJump f.rfeTarget (f.instructions + 0)))

/-! ## The instruction that enters -/

variable [EnvImpl σ]

/-- `l.mtspr` to PMR starts a sleep that raises the tick exception. -/
def mtsprTicks (f : Or1k σ) (ci : Instruction) : Bool :=
  match f.toCore.deref ci ci.dest, f.toCore.deref ci ci.src1 with
  | .ok a, .ok b => (a ||| ci.imm) == SpReg.pmr.num && f.isSupervisor &&
      (f.withCore (f.toCore.writeReg .pmr b)).sleepTicks
  | _, _ => false

/-- The instruction enters an exception but does not deliver it. -/
def loses (f : Or1k σ) (ci : Instruction) : Bool :=
  match ci.exec with
  | some .mtspr => f.mtsprTicks ci
  | some .rfe => f.rfeReturns
  | _ => false

/-- Only a sleep makes a register write enter an exception. -/
theorem sprWritten_taken {reg val : U32}
    (h : (reg == SpReg.pmr.num && s.isSupervisor &&
      (s.withCore (s.toCore.writeReg .pmr val)).sleepTicks) = false) :
    (s.sprWritten reg val false).taken = s.taken := by
  cases hs : s.isSupervisor with
  | false =>
    by_cases hp : reg = SpReg.pmr.num
    · have hd : s.writeDenied SpReg.pmr.num false = true := by
        simp only [writeDenied, hs]; decide
      simp only [hp, sprWritten, hd, if_true]
      rfl
    · obtain ⟨he, -⟩ | hw := sprWritten_cases (s := s) reg val false
      · exact (hp he).elim
      · exact hw.taken
  | true =>
    obtain ⟨hp, he⟩ | hw := sprWritten_cases (s := s) reg val false
    · rw [hp, hs, beq_self_eq_true, Bool.true_and, Bool.true_and] at h
      rw [he]
      exact (dozed_ignores (s := s.requestBreak.withCore
        (s.requestBreak.toCore.writeReg .pmr val)) h).taken
    · exact hw.taken

variable [HostLib]

/-- An instruction that enters and does not lose its exception leaves it pending. -/
theorem executed_pending (h : Executed ci f x) (he : Entered t f x) (hl : f.loses ci = false) :
    Pending t x := by
  cases h with
  | plain c limit e hci hp hr =>
    obtain ⟨ts, hs, hu, -⟩ := hr
    obtain ⟨us, hus, hmem⟩ := he
    have ht : c.taken = ts.reverse ++ f.taken := hs.taken
    have hus' : us = ts.reverse := List.append_cancel_right (hus.symm.trans ht)
    subst hus'
    rcases hs.outcomes.control with hc | ⟨-, hh⟩
    · rw [hc.taken] at ht
      rw [List.self_eq_append_left.1 ht] at hmem
      cases hmem
    · refine pending_of_handling (x := { f with toCore := c, limit := limit }) hh ?_
      show c.taken.head? = some t
      cases hts : ts.reverse with
      | nil => rw [hts] at hmem; cases hmem
      | cons u l =>
        have hm : ∀ v, v ∈ u :: l → v ∈ ts := fun v hv => List.mem_reverse.1 (hts ▸ hv)
        rw [ht, hts, List.cons_append, List.head?_cons,
          hu u (hm u List.mem_cons_self) t (hm t (hts ▸ hmem))]
  | untaken e hci hj ht => exact (not_entered rfl he).elim
  | taken e target r c hci hj ht hs =>
    obtain ⟨-, rfl⟩ | ⟨-, ha, rfl⟩ := Core.scheduleJump_cases hs
    · exact (not_entered rfl he).elim
    · rw [entered_cons (Core.entered_taken _ _) he]
      exact pending_entered (c := ({ f.toCore with toRegs := r } : Core σ).setJump target _)
        rfl ha rfl
  | mtspr a b hci ha hb =>
    refine (not_entered (sprWritten_taken ?_) he).elim
    simpa only [loses, hci, mtsprTicks, ha, hb] using hl
  | nop x hci hn =>
    obtain ⟨rfl, -⟩ | ⟨rfl, -⟩ | ⟨c, rfl, hb, -⟩ := nop_ok hn
    · exact (not_entered rfl he).elim
    · exact (not_entered rfl he).elim
    · exact (not_entered hb.calm.taken he).elim
  | rfe x hci hx =>
    obtain ⟨c, hc, rfl⟩ := rfe_ok hx
    obtain ⟨-, rfl⟩ | ⟨hm, ha, hc⟩ := Core.scheduleJump_cases hc
    · refine (not_entered ?_ he).elim
      simp only [rfeRestored]; split <;> rfl
    · have hl' : f.rfeReturns = false := by simpa only [loses, hci] using hl
      have ht : (f.withCore c).rfeRestored.taken = .insnAlignment :: f.taken := by
        rw [rfe_restored hc, hc]; exact Core.entered_taken _ _
      rw [entered_cons ht he]
      exact rfe_pending hm hc hl'

/-- The instruction at the program counter enters an exception that it does not deliver. -/
def derails (s : Or1k σ) : Bool :=
  match s.fetch with
  | .ok (some ci, f) => f.loses ci
  | _ => false

theorem fetchExecute_pending (h : s.fetchExecute = .ok x) (he : Entered t s x)
    (hd : s.derails = false) : Pending t x := by
  obtain ⟨ci, f, hf, hfi, hx⟩ | ⟨-, b, c, hb, ⟨u, addr, hu, ha, rfl⟩, rfl⟩ := fetchExecute_ok h
  · rw [derails, hf] at hd
    exact executed_pending hx (he.of_taken hfi.taken) hd
  · have ht : b.taken = s.taken := congrArg (·.taken) hb.eq
    have hx : (s.withCore (b.entered u addr)).taken = u :: s.taken :=
      (Core.entered_taken u addr).trans (ht ▸ rfl)
    rw [entered_cons hx he]
    exact pending_entered hu ha rfl

omit [HostLib] in
/-- The sleep of `l.mtspr` ends in the tick exception. -/
theorem sprWritten_ticks {val : U32} (hs : s.isSupervisor = true)
    (h : (s.withCore (s.toCore.writeReg .pmr val)).sleepTicks = true) :
    ∃ g, Accepted .tickTimer g (s.sprWritten SpReg.pmr.num val false) ∧ g.taken = s.taken ∧
      (s.sprWritten SpReg.pmr.num val false).instructions = s.instructions := by
  have hd : s.writeDenied SpReg.pmr.num false = false := by
    simp only [writeDenied, hs]; decide
  have hw : s.sprWritten SpReg.pmr.num val false =
      (s.requestBreak.withCore (s.requestBreak.toCore.writeReg .pmr val)).dozed := by
    simp only [sprWritten, hd, Bool.false_eq_true, if_false, regWritten, SpReg.ofNum_num]
  rw [hw]
  exact ⟨_, dozed_accepts h, rfl, dozed_steady.instructions⟩

theorem loses_not_atVector (h : Executed ci f x) (he : Entered t f x) (hl : f.loses ci = true)
    (hi : 0 < f.instructions) : ¬AtVector t x.retire.redirect := by
  cases h with
  | plain c limit e hci hp hr =>
    simp only [loses, hci] at hl
    cases e <;> first | cases hl | cases hp
  | untaken e hci hj ht => simp [loses, hci] at hl
  | taken e target r c hci hj ht hs => simp [loses, hci] at hl
  | mtspr a b hci ha hb =>
    simp only [loses, hci, mtsprTicks, ha, hb, Bool.and_eq_true, beq_iff_eq] at hl
    obtain ⟨⟨hr, hs⟩, hl⟩ := hl
    rw [hr] at he ⊢
    obtain ⟨g, hg, hgt, hgi⟩ := sprWritten_ticks hs hl
    rw [entered_cons (by rw [hg.taken, hgt]) he]
    exact hg.not_atVector (hgi ▸ hi)
  | nop x hci hn => simp [loses, hci] at hl
  | rfe x hci hx =>
    simp only [loses, hci, rfeReturns, Bool.and_eq_true, bne_iff_ne] at hl
    obtain ⟨c, hc, rfl⟩ := rfe_ok hx
    obtain ⟨ha, -⟩ | ⟨-, -, hc⟩ := Core.scheduleJump_cases hc
    · rw [rfeTarget, if_pos hl.1.1] at ha
      simp [ha] at hl
    · intro hv
      have hm := hv.mode
      rw [retired_status, handlerMode_or_fo, rfe_restored hc] at hm
      exact hl.2 hm

theorem fetchExecute_derails (h : s.fetchExecute = .ok x) (he : Entered t s x)
    (hd : s.derails = true) (hi : 0 < s.instructions) : ¬AtVector t x.retire.redirect := by
  obtain ⟨ci, f, hf, hfi, hx⟩ | ⟨hf, -⟩ := fetchExecute_ok h
  · rw [derails, hf] at hd
    exact loses_not_atVector hx (he.of_taken hfi.taken) hd (hfi.instructions ▸ hi)
  · rw [derails, hf] at hd
    cases hd

end Or1k

namespace Machine

open Runs Or1k

/-- A step without the fetch of an instruction, in which no debugger redirects the CPU. -/
def Quiet (m : Machine σ) : Action σ → Prop
  | .run => m.executes = false
  | .writeSpr reg _ => reg ≠ SpReg.npc.num ∧ reg ≠ SpReg.sr.num ∧ reg ≠ SpReg.evbar.num
  | _ => True

variable [EnvImpl σ] [HostLib] {m m' : Machine σ} {a : Action σ} {t : ExType}

omit [HostLib] in
/-- What a debugger writes besides the control registers does not move a vector. -/
theorem atVector_sprWritten {s : Or1k σ} {reg val : U32} (h : AtVector t s)
    (hq : reg ≠ SpReg.npc.num ∧ reg ≠ SpReg.sr.num ∧ reg ≠ SpReg.evbar.num) (debug : Bool) :
    AtVector t (s.sprWritten reg val debug) := by
  obtain ⟨-, he⟩ | hw := sprWritten_cases (s := s) reg val debug
  · rw [he]
    have hp : AtVector t (s.requestBreak.withCore (s.requestBreak.toCore.writeReg .pmr val)) :=
      ⟨h.nextPc, h.mode⟩
    exact hp.dozed
  · have hs := hw.status hq.2.1
    refine ⟨?_, by rw [hs]; exact h.mode⟩
    rw [hw.nextPc hq.1, Core.exceptionTarget_congr (hw.evba hq.2.2) (by rw [hs])]
    exact h.nextPc

/-- A vector that is due stays due until it is fetched. -/
theorem atVector_quiet (h : AtVector t m.cpu) (hq : Quiet m a) (hn : m.act a = some m') :
    AtVector t m'.cpu := by
  cases act_transition hn with
  | begin r s n =>
    have hb : AtVector t { s with limit := s.cycles + n.toNat } := ⟨h.nextPc, h.mode⟩
    exact hb.externalChecked.dozed
  | mini s hl => exact ⟨h.nextPc, h.mode⟩
  | finish | leave => exact h
  | iterate limit s x hl hx | throw limit s x hl hx => simp [Quiet, executes, hl] at hq
  | drain s => rw [drained_cpu]; exact h.timerUpdated.externalChecked
  | interrupt p s id set =>
    obtain ⟨v, he⟩ := s.toCore.interrupt_eq id set
    rw [he]
    exact ⟨h.nextPc, h.mode⟩
  | outside r s s' a ha ho =>
    cases outside_ok ho with
    | writeSpr reg val => exact atVector_sprWritten h hq true
    | writeGpr | world | setUp => exact ⟨h.nextPc, h.mode⟩

/-- The instruction of the step enters an exception that it does not deliver. -/
def Derails (st : Move (Machine σ) (Action σ)) : Prop :=
  IsIteration st ∧ st.pre.cpu.beginCycle.derails = true

omit [HostLib] in
/-- Between calls only a register write enters an exception, the tick exception of a sleep. -/
theorem entered_outside {s s' : Or1k σ} (ho : outside s a = .ok s') (he : Entered t s s') :
    AtVector t s' := by
  cases outside_ok ho with
  | writeSpr reg val =>
    obtain ⟨-, hd⟩ | hw := sprWritten_cases (s := s) reg val true
    · rw [hd] at he ⊢
      rcases dozed_cases (s := s.requestBreak.withCore (s.requestBreak.toCore.writeReg .pmr val))
        with hi | ha
      · exact (not_entered hi.taken he).elim
      · rw [entered_cons ha.taken (he.of_taken rfl)]; exact ha.atVector
    · exact (not_entered hw.taken he).elim
  | writeGpr | world | setUp => exact (not_entered rfl he).elim

/-- A step enters an exception at its vector, unless its instruction derails. -/
theorem entered_step (hn : m.act a = some m') (he : Entered t m.cpu m'.cpu) :
    AtVector t m'.cpu ↔ ¬Derails ⟨m, a, m'⟩ := by
  have hno : (a = .run → m.executes = false) → ¬Derails ⟨m, a, m'⟩ := fun hx ⟨⟨ha, hr⟩, _⟩ => by
    rw [hx ha] at hr; cases hr
  cases act_transition hn with
  | begin r s n =>
    rcases began_cases (n := n) (s := s) with hi | ⟨e, ha⟩
    · exact (not_entered hi.taken he).elim
    · rw [entered_cons ha.taken he]
      exact iff_of_true ha.atVector (hno nofun)
  | mini | finish => exact (not_entered rfl he).elim
  | leave => exact (not_entered rfl he).elim
  | iterate limit s x hl hx =>
    have hd : Derails ⟨⟨.inner limit, s⟩, .run, retired limit x⟩ ↔ s.beginCycle.derails = true :=
      ⟨And.right, fun h => ⟨⟨rfl, by simpa [executes] using hl⟩, h⟩⟩
    rw [retired_cpu] at he ⊢
    have hex : Entered t s.beginCycle x := by
      rwa [Entered, (redirect_saved x).1] at he
    rw [hd, Bool.not_eq_true]
    constructor
    · intro hv
      by_contra hn
      exact fetchExecute_derails hx hex (by simpa using hn) (Nat.succ_pos _) hv
    · exact fun h => (fetchExecute_pending hx hex h).atVector
  | throw limit s x hl hx => exact (not_entered (fetchExecute_throw_taken hx).1 he).elim
  | drain s =>
    rw [drained_cpu] at he ⊢
    rcases endMini_cases (s := s) with hi | ⟨e, ha⟩
    · exact (not_entered hi.taken he).elim
    · rw [entered_cons ha.taken he]
      exact iff_of_true ha.atVector (hno fun _ => rfl)
  | interrupt p s id set =>
    refine (not_entered ?_ he).elim
    obtain ⟨v, he⟩ := s.toCore.interrupt_eq id set
    rw [he]
    rfl
  | outside r s s' a ha ho => exact iff_of_true (entered_outside ho he) (hno fun _ => rfl)

/-- In every run, an exception that took effect is followed by its vector, fetched in handler
mode, exactly if it was not entered by an instruction that derails. -/
theorem vectors_reached {m₀ m : Machine σ} {l : List (Move (Machine σ) (Action σ))}
    (h : system.Path m₀ l m) : ∀ st ∈ l, ∀ t, Entered t st.pre.cpu st.post.cpu →
      ((∀ m', system.Steps Quiet st.post m' → AtVector t m'.cpu) ↔ ¬Derails st) := by
  refine h.forall fun m a m' hn t he => ?_
  rw [← entered_step hn he]
  exact ⟨fun hv => hv m' (.refl m'), fun hv m'' hs =>
    hs.invariant (P := fun m => AtVector t m.cpu) (fun _ _ _ h hq hn => atVector_quiet h hq hn) hv⟩

end Machine

namespace Machine

open Runs Or1k

attribute [local instance] HostLib.plain

/-- The timer on, tick exceptions on, and then to sleep. -/
def dozeProgram : List (Nat × U32) :=
  [(0x100, 0x1860e000#32), (0x104, 0xa8630040#32), (0x108, 0xc1401800#32), (0x10c, 0x9c800003#32),
   (0x110, 0xc0002011#32), (0x114, 0x9ca00010#32), (0x118, 0xc1002800#32)]

/-- The tick exception raised by `l.mtspr` to PMR continues behind its vector. -/
theorem vectors_reached_fails : ∃ m m' m'' : Machine Memory,
    system.Run (Memory.boot dozeProgram) m ∧ m.next = some m' ∧
      Entered .tickTimer m.cpu m'.cpu ∧ system.Steps Quiet m' m'' ∧ m''.executes = true ∧
      isAligned m''.cpu.evba 4 = true ∧ ¬AtVector .tickTimer m''.cpu := by
  obtain ⟨m, hr, hm⟩ := System.exists_run system (Memory.boot dozeProgram)
    (.call 1000#32 :: List.replicate 11 .run)
    (fun m => (m.next).any fun m' : Machine Memory => !m'.executes &&
      decide (m.cpu.taken = [] ∧ m'.cpu.taken = [.tickTimer]) &&
      (m'.next).any fun d : Machine Memory => !d.executes && (d.next).any fun m'' : Machine Memory =>
        m''.executes && isAligned m''.cpu.evba 4 &&
        m''.cpu.nextPc != m''.cpu.toCore.exceptionTarget .tickTimer)
    (by decide +kernel)
  obtain ⟨m', hn, hm⟩ := (Option.any_eq_true _ _).1 hm
  simp only [Bool.and_eq_true, Bool.not_eq_true', decide_eq_true_eq] at hm
  obtain ⟨⟨hx, ht, ht'⟩, hm⟩ := hm
  obtain ⟨d, hd, hm⟩ := (Option.any_eq_true _ _).1 hm
  simp only [Bool.and_eq_true, Bool.not_eq_true'] at hm
  obtain ⟨hdx, hm⟩ := hm
  obtain ⟨m'', hn', hm⟩ := (Option.any_eq_true _ _).1 hm
  simp only [Bool.and_eq_true, bne_iff_ne] at hm
  obtain ⟨⟨hx'', ha⟩, hne⟩ := hm
  refine ⟨m, m', m'', hr, hn, ⟨[.tickTimer], ?_, List.mem_singleton_self _⟩, ?_, hx'', ha,
    fun hv => hne hv.nextPc⟩
  · rw [ht, ht']; rfl
  · exact .head (a := .run) hx hd (.head (a := .run) hdx hn' (.refl m''))

/-- `l.sys` after reset continues at its vector. -/
theorem vectors_reached_sys : ∃ m m' : Machine Memory, m.next = some m' ∧
    Entered .syscall m.cpu m'.cpu ∧
      ∀ m'', system.Steps Quiet m' m'' → AtVector .syscall m''.cpu := by
  obtain ⟨m, hr, hm⟩ := System.exists_run system (Memory.boot [(0x100, 0x20000000#32)])
    [.call 10#32, .run]
    (fun m => !m.cpu.beginCycle.derails && (m.next).any fun m' : Machine Memory =>
      decide (m.cpu.taken = [] ∧ m'.cpu.taken = [.syscall]))
    (by decide +kernel)
  simp only [Bool.and_eq_true, Bool.not_eq_true'] at hm
  obtain ⟨hd, hm⟩ := hm
  obtain ⟨m', hn, ht⟩ := (Option.any_eq_true _ _).1 hm
  obtain ⟨ht, ht'⟩ := of_decide_eq_true ht
  have he : Entered .syscall m.cpu m'.cpu :=
    ⟨[.syscall], by rw [ht, ht']; rfl, List.mem_singleton_self _⟩
  obtain ⟨l, hl, hmem⟩ := hr.path_tail (a := Action.run) hn
  refine ⟨m, m', hn, he, (vectors_reached hl _ hmem _ he).2 fun hx => ?_⟩
  rw [show m.cpu.beginCycle.derails = true from hx.2] at hd
  cases hd

end Machine

end Or1kiss
