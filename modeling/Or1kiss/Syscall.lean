import Or1kiss.Mark

/-!
# Behind a system call

`l.sys` and the floating point exception save the address behind their instruction, so that
`l.rfe` does not execute it again. In a delay slot that is the target of the jump. The source
takes it when `m_jump_insn` is the number of the next instruction, which is a jump that has
just been executed, and never the one in whose delay slot the exception is raised.
-/

namespace Or1kiss

open Host Bits Runs DelaySlot

variable {σ : Type}

namespace Or1k

variable [EnvImpl σ] [HostLib] {s f x : Or1k σ} {ci : Instruction}

/-- The next instruction is `l.sys`. -/
def atSyscall (s : Or1k σ) : Bool :=
  match s.fetch with
  | .ok (some ci, _) => ci.exec == some (.core .sys)
  | _ => false

/-- EPCR comes out right for an exception that is resumed behind its instruction: `due` is the
target of the jump in whose delay slot it is. Elsewhere the counters may only take it for a
jump if that does not matter. -/
def ResumesRightly (due : Option U32) (s : Or1k σ) : Prop :=
  isAligned s.nextPc 4 = true ∧
    match due with
    | some target => target = s.nextPc + 4#32
    | none => s.toCore.isJumpInsn = true → s.place ≠ .again → s.jumpTarget = s.nextPc + 4#32

theorem fetchExecute_sys (hs : s.atSyscall = true) (h : s.fetchExecute = .ok x) :
    x.taken = .syscall :: s.taken := by
  unfold atSyscall at hs
  split at hs
  · rename_i ci f hf
    rw [beq_iff_eq] at hs
    rw [fetchExecute_of_fetch hf] at h
    unfold execute at h
    rw [hs] at h
    obtain ⟨c, hc, rfl⟩ := onCore_eq_ok.1 h
    have hc : f.toCore.exception .syscall 0#32 = .ok c := hc
    obtain ⟨hm, -⟩ | ⟨-, -, rfl⟩ := Core.exception_ok hc
    · cases hm
    · rw [← (FetchedInsn.of_fetch hf).taken]
      exact Core.entered_taken _ _
  · cases hs

theorem fetchExecute_sys_ne_throw (hs : s.atSyscall = true) : s.fetchExecute ≠ .throw x := by
  intro h
  unfold atSyscall at hs
  split at hs
  · rename_i ci f hf
    rw [beq_iff_eq] at hs
    rw [fetchExecute_of_fetch hf] at h
    obtain ⟨e, c, he, -, -⟩ := execute_throw h
    rw [hs] at he
    cases he
  · cases hs

omit [EnvImpl σ] [HostLib] in
/-- What is saved of an exception that is resumed behind its instruction. -/
theorem SavedAt.past {t : ExType} {c x : Core σ} {p : Place} (h : SavedAt t c x p)
    (hr : t.restarts = false) (ha : t.isAsync = false) : HandlerMode x.status ∧
      x.expc = if c.isJumpInsn = true ∧ p ≠ .again then c.jumpTarget else c.nextPc + 4#32 := by
  cases p with
  | first =>
    refine ⟨h.mode, ?_⟩
    rw [h.expc, Core.exceptionPc_of_past hr ha]
    simp
  | again =>
    refine ⟨h.mode, ?_⟩
    rw [h.expc, hr]
    simp
  | jump | rfe =>
    rw [h.1] at hr
    cases hr

end Or1k

namespace Machine

open Or1k

variable [EnvImpl σ] [HostLib] {m m' : Machine σ} {a : Action σ} {due : Option U32}

/-- No instruction is executed, and no debugger writes a register. -/
def pauses (m : Machine σ) (a : Action σ) : Bool :=
  (match a with
    | .run => !m.executes
    | _ => true) && !a.writesRegister

/-- In a pause the handler stays about to run. -/
theorem step_pauses {pc : U32} (hn : m.act a = some m') (hp : pauses m a = true)
    (h : m.cpu.expc = pc ∧ HandlerMode m.cpu.status) :
    m'.cpu.expc = pc ∧ HandlerMode m'.cpu.status := by
  unfold pauses at hp
  rw [Bool.and_eq_true, Bool.not_eq_true'] at hp
  have hx : ¬IsIteration ⟨m, a, m'⟩ := by
    rintro ⟨ha, hx⟩
    dsimp only at ha hx
    subst ha
    rw [hx] at hp
    cases hp.1
  obtain ⟨-, hi | ⟨e, ha⟩⟩ := act_aside hx hp.2 hn
  · rw [hi.expc, hi.status]
    exact h
  · have hmask := masked_of_handlerMode h.2 ha.async
    rw [ha.enabled] at hmask
    cases hmask

theorem next_of_fetchExecute {x : Or1k σ} (hx : m.executes = true)
    (h : m.cpu.beginCycle.fetchExecute = .ok x) : ∃ limit, m.next = some (retired limit x) := by
  obtain ⟨p, s⟩ := m
  cases p with
  | inner limit =>
    have hl : s.cycles < limit := of_decide_eq_true hx
    have hi : s.iterate limit =
        .ok (x.retire.after, x.retire.newLimit limit, x.retire.redirect) := by
      unfold iterate
      rw [show s.beginCycle.fetchExecute = .ok x from h]
      rfl
    refine ⟨limit, ?_⟩
    unfold next
    dsimp only
    rw [if_pos hl, hi]
    rfl
  | idle | outer | drain => cases hx

/-- `l.rfe` returns to EPCR, if that is aligned; otherwise it raises an exception. -/
theorem rfe_resumes_iff {ci : Instruction} {f : Or1k σ} {pc : U32}
    (hm : HandlerMode m.cpu.status) (hx : m.executes = true)
    (hf : m.cpu.beginCycle.fetch = .ok (some ci, f)) (hr : ci.exec = some .rfe) :
    (∃ m', m.next = some m' ∧ m'.cpu.taken = m.cpu.taken ∧ m'.cpu.nextPc = pc) ↔
      isAligned m.cpu.expc 4 = true ∧ m.cpu.expc = pc := by
  obtain ⟨hfi, hfe⟩ := fetchExecute_rfe hf hr
  have hexpc : f.expc = m.cpu.expc := congrArg (·.expc) hfi.eq
  have hstat : f.status = m.cpu.status := congrArg (·.status) hfi.eq
  have htarget : f.rfeTarget = m.cpu.expc := by
    unfold rfeTarget
    rw [if_pos (supervises (hstat ▸ hm)).2, hexpc]
  have htaken : f.taken = m.cpu.taken := hfi.taken
  constructor
  · rintro ⟨m', hn, ht, hpc⟩
    rcases iteration_cases hx hn with ⟨limit, x, hok, rfl⟩ | ⟨x, hth, rfl⟩
    · rw [hfe] at hok
      obtain ⟨c, hc, rfl⟩ := rfe_ok hok
      rw [retired_cpu] at ht hpc
      rw [redirect_counters.2.2.2] at ht
      rw [htarget] at hc
      obtain ⟨ha, rfl⟩ | ⟨-, -, rfl⟩ := Core.scheduleJump_cases hc
      · refine ⟨ha, ?_⟩
        rw [← hpc, redirect_nextPc]
        unfold rfeRestored
        split
        · exact (if_pos (beq_self_eq_true f.instructions)).symm
        · exact (if_pos (beq_self_eq_true f.instructions)).symm
      · have hcons : (f.withCore ((f.setJump m.cpu.expc (f.instructions + 0)).entered
            .insnAlignment m.cpu.expc)).rfeRestored.taken = .insnAlignment :: m.cpu.taken := by
          rw [← htaken]
          unfold rfeRestored
          split <;> exact Core.entered_taken _ _
        rw [hcons] at ht
        exact (List.cons_ne_self _ _ ht).elim
    · exact (rfe_ne_throw (hfe ▸ hth)).elim
  · rintro ⟨ha, rfl⟩
    have hok : f.executeOrbis32Rfe ci =
        .ok (f.withCore (f.setJump m.cpu.expc (f.instructions + 0))).rfeRestored := by
      have hs : f.toCore.scheduleJump (f.getSpr SpReg.epcr.num false) 0 =
          .ok (f.setJump m.cpu.expc (f.instructions + 0)) := by
        rw [getSpr_epcr]
        show f.toCore.scheduleJump f.rfeTarget 0 = _
        rw [htarget, Core.scheduleJump_eq, if_pos ha]
      unfold executeOrbis32Rfe scheduleJump
      dsimp only
      rw [hs]
      show Or1k.setSpr _ _ _ _ = _
      rw [setSpr_eq, sprWritten_sr, getSpr_esr]
      rfl
    obtain ⟨limit, hn⟩ := next_of_fetchExecute hx (hfe.trans hok)
    refine ⟨_, hn, ?_, ?_⟩
    · rw [retired_cpu, redirect_counters.2.2.2, ← htaken]
      unfold rfeRestored
      split <;> rfl
    · rw [retired_cpu, redirect_nextPc]
      unfold rfeRestored
      split
      · exact if_pos (beq_self_eq_true f.instructions)
      · exact if_pos (beq_self_eq_true f.instructions)

/-- EPCR of an instruction in the delay slot of `due` that raises an exception. -/
theorem past_expc_iff {t : ExType} {s : Or1k σ} {x : Core σ}
    (hd : ∀ target, due = some target → s.toCore.isDelayInsn = true)
    (h : SavedAt t s.toCore x s.place) (hr : t.restarts = false) (ha : t.isAsync = false) :
    (isAligned x.expc 4 = true ∧ x.expc = due.getD (s.nextPc + 4#32)) ↔ ResumesRightly due s := by
  rw [(h.past hr ha).2]
  unfold ResumesRightly
  have hal := isAligned_add_four s.nextPc
  cases due with
  | some target =>
    have hj := Core.isJumpInsn_of_isDelayInsn (hd target rfl)
    rw [if_neg (by simp [hj]), hal]
    exact and_congr_right fun _ => eq_comm
  | none =>
    dsimp only [Option.getD_none]
    split <;> rename_i hc
    · constructor
      · rintro ⟨ht, he⟩
        rw [he, hal] at ht
        exact ⟨ht, fun _ _ => he⟩
      · rintro ⟨ht, he⟩
        have he := he hc.1 hc.2
        rw [he, hal]
        exact ⟨ht, rfl⟩
    · rw [hal]
      exact and_congr_right fun _ => iff_of_true rfl fun hj hp => (hc ⟨hj, hp⟩).elim

/-- In every run from reset: behind `l.sys`, or a floating point instruction that raises its
exception, a handler that is a single `l.rfe` resumes where control would have gone without the
exception, exactly if the instruction is in no delay slot, or control goes on behind it anyway. -/
theorem syscalls_resume_iff {env : Env σ} {size : Nat} {m₁ m₂ : Machine σ} {ci : Instruction}
    {f : Or1k σ} (h : delayed.Run (init env size, none) (m, due)) (hx : m.executes = true)
    (hn : m.next = some m₁)
    (hs : m.cpu.beginCycle.atSyscall = true ∨ lastEntered ⟨m, .run, m₁⟩ = some .fp)
    (h₂ : system.Steps (fun m a => pauses m a = true) m₁ m₂) (hx₂ : m₂.executes = true)
    (hf₂ : m₂.cpu.beginCycle.fetch = .ok (some ci, f)) (hr : ci.exec = some .rfe) :
    (∃ m₃, m₂.next = some m₃ ∧ m₃.cpu.taken = m₂.cpu.taken ∧
      m₃.cpu.nextPc = due.getD (m.cpu.nextPc + 4#32)) ↔
        ResumesRightly due m.cpu.beginCycle := by
  have hd : Delayed due m.cpu := by
    have h0 : Delayed none (init env size).cpu := nofun
    exact h.invariant (P := fun q => Delayed q.2 q.1.cpu)
      (fun _ _ _ hd _ hn => (step_lawful hn hd).1) h0
  rcases iteration_cases hx hn with ⟨limit, x, hf, rfl⟩ | ⟨x, hf, rfl⟩
  · have hlast : ∀ t, lastEntered ⟨m, .run, retired limit x⟩ = some t →
        x.taken ≠ m.cpu.beginCycle.taken ∧ ∀ u us, x.taken = u :: us → t = u := by
      intro t hl
      have ht := taken_of_lastEntered hl
      rw [retired_cpu, redirect_counters.2.2.2] at ht
      exact ⟨ht, fun u us hus => lastEntered_eq hl (by
        rw [retired_cpu, redirect_counters.2.2.2, hus])⟩
    have hne : x.taken ≠ m.cpu.beginCycle.taken := by
      rcases hs with hs | hl
      · rw [fetchExecute_sys hs hf]
        exact List.cons_ne_self _ _
      · exact (hlast _ hl).1
    obtain ⟨t, ⟨ts, hts⟩, hsaved⟩ := fetchExecute_savedAt hf hne
    have ht : t = .syscall ∨ t = .fp := by
      rcases hs with hs | hl
      · rw [fetchExecute_sys hs hf] at hts
        exact .inl (List.cons.inj hts).1.symm
      · exact .inr ((hlast _ hl).2 t ts hts).symm
    obtain ⟨hr', ha⟩ : t.restarts = false ∧ t.isAsync = false := by
      rcases ht with rfl | rfl <;> exact ⟨rfl, rfl⟩
    obtain ⟨hmode, -⟩ := hsaved.past hr' ha
    have hkeep : m₂.cpu.expc = x.expc ∧ HandlerMode m₂.cpu.status := by
      refine h₂.invariant (P := fun m' => m'.cpu.expc = x.expc ∧ HandlerMode m'.cpu.status)
        (fun _ _ _ hk hp hn => step_pauses hn hp hk) ⟨?_, ?_⟩
      · rw [retired_cpu]
        exact (retire_mark x).1
      · rw [retired_cpu, retired_status, handlerMode_or_fo]
        exact hmode
    rw [rfe_resumes_iff hkeep.2 hx₂ hf₂ hr, hkeep.1]
    have hdelay : ∀ target, due = some target → m.cpu.beginCycle.toCore.isDelayInsn = true :=
      fun target hdue => beq_iff_eq.2 (hd target hdue).1.symm
    exact past_expc_iff hdelay hsaved hr' ha
  · rcases hs with hs | hl
    · exact (fetchExecute_sys_ne_throw hs hf).elim
    · exact (taken_of_lastEntered hl (fetchExecute_throw_counters hf).taken).elim

end Machine

namespace Machine

open Or1k

attribute [local instance] HostLib.plain

/-- A run by the actions `as` to an `l.sys`, and the handler behind it, a single `l.rfe`,
evaluated up to a test of the ends. -/
theorem exists_handled (m : Machine Memory) (as : List (Action Memory))
    (p : Machine Memory × Option U32 → Machine Memory → Bool)
    (h : ((delayed.runsIf (fun _ _ => true) as (m, none)).any fun q =>
      q.1.executes && q.1.cpu.beginCycle.atSyscall && (q.1.next).any fun m₁ => m₁.executes &&
        (match m₁.cpu.beginCycle.fetch with
          | .ok (some ci, _) => decide (ci.exec = some .rfe)
          | _ => false) && p q m₁) = true) :
    ∃ q m₁ ci f, delayed.Run (m, none) q ∧ q.1.executes = true ∧
      q.1.cpu.beginCycle.atSyscall = true ∧ q.1.next = some m₁ ∧ m₁.executes = true ∧
      m₁.cpu.beginCycle.fetch = .ok (some ci, f) ∧ ci.exec = some .rfe ∧ p q m₁ = true := by
  obtain ⟨q, hr, h⟩ := System.exists_run delayed _ _ _ h
  simp only [Bool.and_eq_true] at h
  obtain ⟨⟨hx, hs⟩, h⟩ := h
  obtain ⟨m₁, h₁, h⟩ := (Option.any_eq_true _ _).1 h
  simp only [Bool.and_eq_true] at h
  obtain ⟨⟨hx₁, hf⟩, hp⟩ := h
  split at hf
  · rename_i ci f hfe
    exact ⟨q, m₁, ci, f, hr, hx, hs, h₁, hx₁, hfe, of_decide_eq_true hf, hp⟩
  · cases hf

/-- `l.sys` in the delay slot of `l.j`: the handler returns behind the delay slot, and the jump
is lost. -/
theorem syscalls_resume_iff_fails : ∃ (m m₁ m₂ : Machine Memory) (ci : Instruction)
    (f : Or1k Memory), delayed.Run (Memory.boot
      [(0x100, 0x3#32), (0x104, 0x20000000#32), (0xc00, 0x24000000#32)], none)
        (m, some 0x10c#32) ∧ m.executes = true ∧ m.cpu.beginCycle.atSyscall = true ∧
    m.next = some m₁ ∧ m₁.executes = true ∧ m₁.cpu.beginCycle.fetch = .ok (some ci, f) ∧
    ci.exec = some .rfe ∧ m₁.next = some m₂ ∧ m₂.cpu.nextPc = 0x108#32 ∧
    m₂.cpu.nextPc ≠ (some 0x10c#32).getD (m.cpu.nextPc + 4#32) := by
  obtain ⟨⟨m, due⟩, m₁, ci, f, hr, hx, hs, h₁, hx₁, hf, he, hp⟩ := exists_handled
    (Memory.boot [(0x100, 0x3#32), (0x104, 0x20000000#32), (0xc00, 0x24000000#32)])
    [.call 10#32, .run, .run]
    (fun q m₁ => decide (q.2 = some 0x10c#32) && (m₁.next).any fun m₂ : Machine Memory =>
      decide (m₂.cpu.nextPc = 0x108#32))
    (by decide +kernel)
  rw [Bool.and_eq_true, decide_eq_true_eq] at hp
  obtain ⟨hdue, hp⟩ := hp
  dsimp only at hdue
  subst hdue
  obtain ⟨m₂, h₂, hpc⟩ := (Option.any_eq_true _ _).1 hp
  have hpc := of_decide_eq_true hpc
  refine ⟨m, m₁, m₂, ci, f, hr, hx, hs, h₁, hx₁, hf, he, h₂, hpc, ?_⟩
  rw [hpc, Option.getD_some]
  decide

/-- `l.sys` after reset, resumed behind itself. -/
theorem syscalls_resume_iff_sys : ∃ m₁ m₂ : Machine Memory, m₁.next = some m₂ ∧
    m₁.cpu.nextPc = 0xc00#32 ∧ m₂.cpu.nextPc = 0x104#32 := by
  obtain ⟨⟨m, due⟩, m₁, ci, f, hr, hx, hs, h₁, hx₁, hf, he, hp⟩ := exists_handled
    (Memory.boot [(0x100, 0x20000000#32), (0xc00, 0x24000000#32)]) [.call 10#32, .run]
    (fun q m₁ => decide (q.2 = none ∧ q.1.cpu.nextPc = 0x100#32 ∧
      q.1.cpu.beginCycle.toCore.isJumpInsn = false ∧ m₁.cpu.nextPc = 0xc00#32))
    (by decide +kernel)
  obtain ⟨hdue, hpc, hj, hv⟩ := of_decide_eq_true hp
  dsimp only at hdue hpc hj hv
  subst hdue
  have hright : ResumesRightly none m.cpu.beginCycle := by
    refine ⟨?_, fun h => ?_⟩
    · show isAligned m.cpu.nextPc 4 = true
      rw [hpc]
      decide
    · rw [hj] at h
      cases h
  obtain ⟨m₂, h₂, -, hback⟩ := (syscalls_resume_iff hr hx h₁ (.inl hs) (.refl m₁) hx₁ hf he).2 hright
  refine ⟨m₁, m₂, h₂, hv, ?_⟩
  rw [hback, hpc]
  decide

end Machine

end Or1kiss
