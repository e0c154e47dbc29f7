import Or1kiss.Budget
import Or1kiss.StopReplies

/-!
# The halted simulator

A halted debugger goes on to call the simulator, for no cycles. Such a call executes nothing, but
it begins like any other: it samples the interrupt lines and may go to sleep. `Still` says when
that leaves the architectural state as it is.
-/

namespace Or1kiss

open Host Bits Runs

variable {σ : Type}

/-- The architectural state. The timer is its registers and the cycles it has still to count. -/
@[ext]
structure Arch where
  gpr : Fin 32 → U32
  nextPc : U32
  prevPc : U32
  status : U32
  expc : U32
  exsr : U32
  exea : U32
  mem : Nat → U8
  dmmu : Mmu
  immu : Mmu
  tick : Tick
  uncounted : Int

namespace Or1k

variable {s x y : Or1k σ}

def arch (s : Or1k σ) : Arch :=
  { gpr := s.gpr, nextPc := s.nextPc, prevPc := s.prevPc, status := s.status, expc := s.expc,
    exsr := s.exsr, exea := s.exea, mem := s.env.world.mem, dmmu := s.dmmu, immu := s.immu,
    tick := s.tick, uncounted := (s.cycles : Int) - s.tickUpdate }

/-- The beginning of a call for no cycles. -/
def idle (s : Or1k σ) : Or1k σ := { s with limit := s.cycles }

/-- An interrupt that is accepted is masked from then on. -/
theorem Accepted.status_ne {e : ExType} (h : Accepted e s x) : x.status ≠ s.status := by
  intro hs
  have hm := masked_of_handlerMode (hs ▸ h.mode : HandlerMode s.status) h.async
  cases hm.symm.trans h.enabled

variable [EnvImpl σ]

/-- What a call for no cycles must find to change nothing: no interrupt that it may accept, and no
sleep, or one that the port does not serve, behind a synchronised timer that does not interrupt. -/
structure Still (s : Or1k σ) : Prop where
  external : (s.isInterruptPending && s.isExtIrqEnabled) = false
  memory : s.sleepy = true → (s.sleep s.dozeSkip).2.env.world.mem = s.env.world.mem
  unserved : s.sleepy = true → (s.sleep s.dozeSkip).1 = 0
  synchronised : s.sleepy = true → s.tickUpdate = s.cycles
  tick : s.sleepy = true → (s.tick.enabled && s.tick.irqPending && s.isTickIrqEnabled) = false

/-- Sleeping in a quantum that has ended: the port sleeps, or the timer is synchronised. -/
theorem idle_dozed_arch (hd : s.sleepy = true) : s.idle.dozed.arch = s.arch ↔
    (s.sleep s.dozeSkip).2.env.world.mem = s.env.world.mem ∧ (s.sleep s.dozeSkip).1 = 0 ∧
      s.tickUpdate = s.cycles ∧
      (s.tick.enabled && s.tick.irqPending && s.isTickIrqEnabled) = false := by
  have hdz := dozed_of_sleepy (s := s.idle) hd
  have hsleep : (s.idle.sleep s.idle.dozeSkip).1 = (s.sleep s.dozeSkip).1 := rfl
  by_cases hz : (s.sleep s.dozeSkip).1 = 0
  · rw [hsleep, if_neg (not_not.2 hz)] at hdz
    rw [hdz]
    have hc : s.idle.skipped.cycles = s.cycles := by
      show s.cycles + min _ (s.cycles - s.cycles) = s.cycles
      omega
    have ht : s.idle.skipped.timerTicks = (s.tick.enabled &&
        (s.tick.update (s.cycles - s.tickUpdate)).irqPending && s.isTickIrqEnabled) := by
      rw [← hc]
      rfl
    cases htt : s.idle.skipped.timerTicks with
    | true =>
      refine iff_of_false (fun ha => ?_) ?_
      · exact (timerUpdated_accepts htt).status_ne (congrArg Arch.status ha)
      · rintro ⟨-, -, hs, hf⟩
        rw [htt, hs, Nat.sub_self, Tick.update_zero, hf] at ht
        cases ht
    | false =>
      have hi := timerUpdated_ignores htt
      have hst := timerUpdated_steady (s := s.idle.skipped)
      have hsy := timerUpdated_synced (s := s.idle.skipped)
      have henv := (timerUpdated_fixed (s := s.idle.skipped)).2
      have huncounted : s.idle.skipped.timerUpdated.arch.uncounted = 0 := by
        show ((s.idle.skipped.timerUpdated.cycles : Nat) : Int) -
          s.idle.skipped.timerUpdated.tickUpdate = 0
        rw [hsy.tickUpdate, hsy.cycles]
        omega
      have htick : s.idle.skipped.timerUpdated.tick = s.tick.update (s.cycles - s.tickUpdate) := by
        rw [hsy.tick, ← hc]
        rfl
      rw [htt] at ht
      constructor
      · intro ha
        have hmem : s.idle.skipped.timerUpdated.env.world.mem = s.env.world.mem :=
          congrArg Arch.mem ha
        have hsync : s.tickUpdate = s.cycles := by
          have : (0 : Int) = (s.cycles : Int) - s.tickUpdate :=
            huncounted.symm.trans (congrArg Arch.uncounted ha)
          omega
        refine ⟨?_, hz, hsync, ?_⟩
        · rw [← hmem, henv]
          rfl
        · rw [hsync, Nat.sub_self, Tick.update_zero] at ht
          exact ht.symm
      · rintro ⟨hmem, -, hsync, -⟩
        rw [hsync, Nat.sub_self, Tick.update_zero] at htick
        have hun : (0 : Int) = (s.cycles : Int) - s.tickUpdate := by omega
        exact Arch.ext (congrArg Regs.gpr hst.toRegs) hi.nextPc hst.prevPc hi.status hi.expc hi.exsr
          hi.exea ((congrArg (fun e : Env σ => e.world.mem) henv).trans hmem) hst.dmmu hst.immu htick
          (huncounted.trans hun)
  · rw [hsleep, if_pos hz] at hdz
    refine iff_of_false (fun ha => ?_) fun h => hz h.2.1
    rw [hdz] at ha
    have hl : ((s.cycles + (s.sleep s.dozeSkip).1 : Nat) : Int) - s.tickUpdate =
        (s.cycles : Int) - s.tickUpdate := congrArg Arch.uncounted ha
    omega

/-- A call for no cycles keeps the architectural state if and only if it finds the CPU still. -/
theorem began_arch_iff : (Machine.began 0#32 s).arch = s.arch ↔ Still s := by
  have hb : Machine.began 0#32 s = s.idle.externalChecked.dozed := rfl
  rw [hb]
  cases he : s.isInterruptPending && s.isExtIrqEnabled with
  | true =>
    have ha := externalChecked_accepts (s := s.idle) he
    refine iff_of_false (fun h => ?_) fun h => by cases h.external.symm.trans he
    rw [dozed_awake ha.awake] at h
    exact ha.status_ne (congrArg Arch.status h)
  | false =>
    rw [externalChecked_of_masked (s := s.idle) he]
    cases hd : s.sleepy with
    | false =>
      rw [dozed_of_not_sleepy (s := s.idle) hd]
      have hno : ∀ {p : Prop}, s.sleepy = true → p := fun h => by cases hd.symm.trans h
      exact iff_of_true rfl ⟨he, hno, hno, hno, hno⟩
    | true =>
      rw [idle_dozed_arch hd]
      constructor
      · rintro ⟨hmem, hz, hs, ht⟩
        exact ⟨he, fun _ => hmem, fun _ => hz, fun _ => hs, fun _ => ht⟩
      · intro h
        exact ⟨h.memory hd, h.unserved hd, h.synchronised hd, h.tick hd⟩

end Or1k

namespace Machine

open Or1k

variable [EnvImpl σ] [HostLib] {m m' : Machine σ} {a : Action σ} {s x : Or1k σ}

omit [EnvImpl σ] [HostLib] in
theorem interrupt_arch (id : Fin 32) (set : Bool) :
    (s.withCore (s.toCore.interrupt id set)).arch = s.arch := by
  obtain ⟨v, he⟩ := s.toCore.interrupt_eq id set
  rw [he]
  rfl

/-- Behind its limit `advance` only returns. -/
theorem Ended.arch (h : m.Ended) (ha : a.inside = true) (hn : m.act a = some m') :
    m'.cpu.arch = m.cpu.arch := by
  cases act_transition hn with
  | begin r s n => cases ha
  | mini s hlt => exact absurd hlt (Nat.not_lt.2 h)
  | finish s hlt => rfl
  | iterate | throw | leave | drain => exact h.elim
  | interrupt p s id set => exact interrupt_arch id set
  | outside r s s' a hout hs => cases hout.symm.trans (Action.isOutside_of_inside ha)

end Machine

/-- The state that a call for no cycles leaves. -/
theorem Or1k.step_zero_arch [EnvImpl σ] [HostLib] {s s' : Or1k σ} {actions : List (Action σ)}
    {res : StepResult} (h : s.step 0#32 actions = some (res, s')) :
    s'.arch = (Machine.began 0#32 s).arch := by
  obtain ⟨m, hm, h⟩ := Option.bind_eq_some_iff.1 h
  obtain ⟨m', hm', h⟩ := Option.bind_eq_some_iff.1 h
  have hm : Machine.ofOutcome (s.beginQuantum 0#32) _ = some m := hm
  have hq := beginQuantum_eq (s := s) 0#32
  rw [hq] at hm
  cases hm
  have hrun := (System.steps_of_runsIf hm').invariant
    (P := fun m : Machine σ => m.Ended ∧ m.cpu.arch = (Machine.began 0#32 s).arch)
    (fun m a t hp ha hn => ⟨hp.1.act ha hn, (hp.1.arch ha hn).trans hp.2⟩)
    ⟨beginQuantum_zero hq, rfl⟩
  obtain ⟨p, x⟩ := m'
  cases p with
  | idle r =>
    cases r with
    | none => cases h
    | some r =>
      cases h
      exact hrun.2
  | outer | inner _ | drain => cases h

/-! ## A halted session -/

/-- An event of `gdb::step`. -/
def Session.Event.ofStep : Session.Event σ → Bool
  | .read | .run _ _ | .finish => true
  | _ => false

namespace Session

variable [EnvImpl σ] [HostLib] {s t : Session σ}

/-- The program is halted, and `gdb::step` has found it so. -/
structure Resting (s : Session σ) : Prop where
  mode : s.stub.mode = .halted
  sim : s.sim = .ready ∨ s.sim = .read .halted ∨ s.sim = .ran .halted .ok

/-- What one part of `gdb::step` does while the program is halted. -/
theorem Resting.step {e : Event σ} (h : Resting s) (he : e.ofStep = true) (hn : s.next e = some t) :
    Resting t ∧ (t.stub.cpu.arch = s.stub.cpu.arch ↔
      ∀ cycles actions, e = .run cycles actions → Or1k.Still s.stub.cpu) := by
  obtain ⟨hmode, hsim⟩ := h
  cases e with
  | client | listen => cases he
  | read =>
    unfold next at hn
    dsimp only at hn
    split at hn
    · cases hn
      exact ⟨⟨hmode, .inr (.inl (congrArg _ hmode))⟩, iff_of_true rfl fun _ _ h => by cases h⟩
    · cases hn
  | run cycles actions =>
    unfold next at hn
    dsimp only at hn
    split at hn
    · rename_i mode hr
      have hm : mode = .halted := by
        rcases hsim with h | h | h <;> cases hr.symm.trans h
        rfl
      subst hm
      obtain ⟨⟨res, cpu⟩, hstep, rfl⟩ := Option.map_eq_some_iff.1 hn
      have hok := Or1k.step_zero hstep
      subst hok
      refine ⟨⟨hmode, .inr (.inr rfl)⟩, ?_⟩
      show cpu.arch = _ ↔ _
      rw [Or1k.step_zero_arch hstep, Or1k.began_arch_iff]
      exact ⟨fun h _ _ _ => h, fun h => h cycles actions rfl⟩
    · cases hn
  | finish =>
    unfold next at hn
    dsimp only at hn
    split at hn
    · rename_i mode res hr
      have hm : mode = .halted ∧ res = .ok := by
        rcases hsim with h | h | h <;> cases hr.symm.trans h
        exact ⟨rfl, rfl⟩
      obtain ⟨rfl, rfl⟩ := hm
      cases hn
      exact ⟨⟨hmode, .inl rfl⟩, iff_of_true rfl fun _ _ h => by cases h⟩
    · cases hn

/-- While the program is halted, no call of `gdb::step` changes the architectural state if and only
if each of them finds the CPU still. -/
theorem halted_frozen {l : List (Move (Session σ) (Event σ))} (hm : s.stub.mode = .halted)
    (hs : s.sim = .ready) (h : system.Path s l t) (hl : ∀ st ∈ l, st.act.ofStep = true) :
    (∀ st ∈ l, st.post.stub.cpu.arch = st.pre.stub.cpu.arch) ↔
      ∀ st ∈ l, ∀ cycles actions, st.act = .run cycles actions → Or1k.Still st.pre.stub.cpu := by
  have hstep := (h.forall_of (P := Resting) (C := fun st => st.act.ofStep = true)
    (R := fun st => st.post.stub.cpu.arch = st.pre.stub.cpu.arch ↔
      ∀ cycles actions, st.act = .run cycles actions → Or1k.Still st.pre.stub.cpu)
    (fun _ _ _ hn he hp => hp.step he hn) hl ⟨hm, .inl hs⟩).2
  exact forall₂_congr hstep

end Session

namespace Session

attribute [local instance] HostLib.plain

/-- A program that enables external interrupts, under a debugger. -/
def interruptible : Session Memory :=
  { stub := .init (Memory.boot [(0x100, 0xa8608005#32), (0x104, 0xc0001811#32)]).cpu none
      { isOpen := true, input := [], output := [] }, sim := .ready }

/-- The client steps one instruction, in `n` stretches of `advance`. -/
def stepInsn (n : Nat) : List (Event Memory) :=
  [.client (Packet.frame (ascii "s")), .listen, .read, .run 0#32 (List.replicate n .run), .finish]

/-- A line goes up while the program is halted, and the next call enters the exception. -/
theorem halted_frozen_fails : ∃ (s t : Session Memory) (l : List (Move (Session Memory) (Event Memory))),
    system.Run interruptible s ∧ s.stub.mode = .halted ∧ s.sim = .ready ∧ system.Path s l t ∧
      (∀ st ∈ l, st.act.ofStep = true) ∧
        ¬∀ st ∈ l, st.post.stub.cpu.arch = st.pre.stub.cpu.arch := by
  obtain ⟨s, hr, hs⟩ := system.exists_run interruptible (stepInsn 5 ++ stepInsn 4)
    (fun s : Session Memory => decide (s.stub.mode = .halted ∧ s.sim = .ready ∧
      s.stub.cpu.nextPc = 0x108#32) && (system.runsIf (fun _ e => e.ofStep)
        [.read, .run 0#32 [.run, .interrupt 0 true], .finish, .read, .run 0#32 [.run]] s).any
          fun t : Session Memory => decide (t.stub.cpu.nextPc = 0x800#32))
    (by decide +kernel)
  rw [Bool.and_eq_true] at hs
  obtain ⟨hmode, hsim, hpc⟩ := of_decide_eq_true hs.1
  obtain ⟨t, ht, hpc'⟩ := system.exists_steps _ s _ _ hs.2
  obtain ⟨l, hl, hok⟩ := ht.path_ok
  refine ⟨s, t, l, hr, hmode, hsim, hl, hok, fun ha => ?_⟩
  have hsame := hl.const (f := fun s => s.stub.cpu.arch) ha
  have hnext : t.stub.cpu.nextPc = s.stub.cpu.nextPc := congrArg Arch.nextPc hsame
  rw [hpc, of_decide_eq_true hpc'] at hnext
  cases hnext

/-- The same line, masked. -/
theorem halted_frozen_masked : ∃ (t : Session Memory)
    (l : List (Move (Session Memory) (Event Memory))), system.Path interruptible l t ∧
      t.stub.cpu.isInterruptPending = true ∧
        ∀ st ∈ l, st.post.stub.cpu.arch = st.pre.stub.cpu.arch := by
  obtain ⟨t, ht, hp⟩ := system.exists_steps (fun s e => e.ofStep &&
      !(s.stub.cpu.isInterruptPending && s.stub.cpu.isExtIrqEnabled) && !s.stub.cpu.sleepy) interruptible
    [.read, .run 0#32 [.run, .interrupt 0 true], .finish, .read, .run 0#32 [.run], .finish]
    (fun t : Session Memory => t.stub.cpu.isInterruptPending) (by decide +kernel)
  obtain ⟨l, hl, hok⟩ := ht.path_ok
  simp only [Bool.and_eq_true, Bool.not_eq_true'] at hok
  refine ⟨t, l, hl, hp, (halted_frozen rfl rfl hl fun st hst => (hok st hst).1.1).2 ?_⟩
  intro st hst _ _ _
  have hno : ∀ {p : Prop}, st.pre.stub.cpu.sleepy = true → p :=
    fun h => by cases (hok st hst).2.symm.trans h
  exact ⟨(hok st hst).1.2, hno, hno, hno, hno⟩

end Session

end Or1kiss
