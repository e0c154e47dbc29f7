import Or1kiss.Lib.DelaySlot
import Or1kiss.Memory
import Or1kiss.Transition

/-!
# Delay slots

A pending jump is encoded as the equality of two counters: a taken jump puts the number of its
delay slot in `m_jump_insn`, and the loop compares that with `m_instructions` after every
instruction. `Lawful` is the law of delayed jumps for the steps of a run, against a delay slot
that is kept on the side. `Slips` says where the counters decide otherwise: only for `l.nop`
codes that change `m_instructions`, and after the one that resets it.
-/

namespace Or1kiss

open Host Bits DelaySlot Runs

variable {σ : Type}

namespace Or1k

variable {s f x : Or1k σ} {ci : Instruction}

/-- What an instruction that does not fault does to control. -/
def control (f : Or1k σ) (ci : Instruction) : Event 32 :=
  match ci.exec with
  | some (.core e) =>
    match f.toCore.takenTarget ci e with
    | some target => .jump target
    | none => .plain
  | some .rfe => .elsewhere
  | some .mtspr =>
    match f.toCore.deref ci ci.dest with
    | .ok a => if a ||| ci.imm = SpReg.npc.num then .elsewhere else .plain
    | _ => .elsewhere
  | _ => .plain

/-- `m_instructions` after an instruction that found it at `n`. -/
def counted (ci : Instruction) (n : Nat) : Nat :=
  if ci.exec = some .nop then
    match ci.imm.toNat with
    | 0x1 | 0xc => n - 1
    | 0x5 => 0
    | _ => n
  else n

/-- What an instruction does to control, and to the two counters. -/
inductive Steered (ci : Instruction) (f x : Or1k σ) : Prop where
  | plain (hc : f.control ci = .plain) (ht : x.taken = f.taken) (hn : x.nextPc = f.nextPc)
      (hj : x.jumpInsn = f.jumpInsn) (hg : x.jumpTarget = f.jumpTarget)
      (hi : x.instructions = counted ci f.instructions)
  | jump (target : U32) (hc : f.control ci = .jump target) (ht : x.taken = f.taken)
      (hn : x.nextPc = f.nextPc) (hj : x.jumpInsn = f.instructions + 1)
      (hg : x.jumpTarget = target) (hi : x.instructions = f.instructions)
  | elsewhere (hc : x.taken = f.taken → f.control ci = .elsewhere)
      (hb : f.jumpInsn ≤ f.instructions → x.jumpInsn ≤ x.instructions)

theorem control_of_not_jump {e : CoreExec} (he : ci.exec = some (.core e)) (hj : e.isJump = false) :
    f.control ci = .plain := by
  have ht : f.toCore.takenTarget ci e = none := by
    cases e <;> first | rfl | cases hj
  unfold control
  rw [he]
  dsimp only
  rw [ht]

theorem counted_of_not_nop {n : Nat} (he : ci.exec ≠ some .nop) : counted ci n = n := by
  unfold counted
  exact if_neg he

/-- An exception of an executor is due at once. -/
theorem steered_handling {c : Core σ} (limit : Nat) (ht : c.taken ≠ f.taken)
    (hh : Core.Handling c) : Steered ci f { f with toCore := c, limit := limit } :=
  .elsewhere (fun h => (ht h).elim) fun _ => Nat.le_of_eq hh.due

variable [EnvImpl σ]

theorem steered_mtspr {a b : U32} (he : ci.exec = some .mtspr)
    (ha : f.toCore.deref ci ci.dest = .ok a) :
    Steered ci f (f.sprWritten (a ||| ci.imm) b false) := by
  have hn : ci.exec ≠ some .nop := by rw [he]; nofun
  have hctrl : f.control ci = if a ||| ci.imm = SpReg.npc.num then .elsewhere else .plain := by
    unfold control
    rw [he]
    dsimp only
    rw [ha]
  obtain ⟨hp, hd⟩ | hw := sprWritten_cases (s := f) (a ||| ci.imm) b false
  · have hs := dozed_steady (s := f.requestBreak.withCore (f.requestBreak.toCore.writeReg .pmr b))
    rw [hd]
    rcases dozed_cases (s := f.requestBreak.withCore (f.requestBreak.toCore.writeReg .pmr b))
      with hi | hacc
    · refine .plain ?_ hi.taken hi.nextPc hi.jumpInsn hi.jumpTarget ?_
      · rw [hctrl, hp]; decide
      · rw [counted_of_not_nop hn]; exact hs.instructions
    · refine .elsewhere (fun h => ?_) fun _ => by rw [hacc.jumpInsn]; exact Nat.zero_le _
      rw [hacc.taken] at h
      exact (List.cons_ne_self _ _ h).elim
  · by_cases hr : a ||| ci.imm = SpReg.npc.num
    · refine .elsewhere (fun _ => by rw [hctrl, if_pos hr]) fun h => ?_
      rw [hw.jumpInsn, hw.instructions]
      exact h
    · refine .plain (by rw [hctrl, if_neg hr]) hw.taken (hw.nextPc hr) hw.jumpInsn hw.jumpTarget ?_
      rw [counted_of_not_nop hn]
      exact hw.instructions

variable [HostLib]

omit [EnvImpl σ] in
theorem steered_nop (he : ci.exec = some .nop) (h : f.executeOrbis32Nop ci = .ok x) :
    Steered ci f x := by
  have hctrl : f.control ci = .plain := by
    unfold control
    rw [he]
  obtain ⟨rfl, hi⟩ | ⟨rfl, hi⟩ | ⟨c, rfl, hb, h1, hc, h5⟩ := nop_ok h
  · refine .plain hctrl rfl rfl rfl rfl ?_
    unfold counted
    rw [if_pos he]
    rcases hi with hi | hi <;> rw [hi] <;> rfl
  · refine .plain hctrl rfl rfl rfl rfl ?_
    unfold counted
    rw [if_pos he, hi]
    rfl
  · refine .plain hctrl hb.calm.taken hb.kept.nextPc hb.calm.jumpInsn hb.calm.jumpTarget ?_
    unfold counted
    rw [if_pos he, show (f.withCore c).instructions = f.instructions from hb.kept.instructions]
    split
    · exact (h1 ‹_›).elim
    · exact (hc ‹_›).elim
    · exact (h5 ‹_›).elim
    · rfl

omit [HostLib] in
theorem steered_rfe (he : ci.exec = some .rfe) (h : f.executeOrbis32Rfe ci = .ok x) :
    Steered ci f x := by
  have hctrl : f.control ci = .elsewhere := by
    unfold control
    rw [he]
  obtain ⟨c, hc, rfl⟩ := rfe_ok h
  refine .elsewhere (fun _ => hctrl) fun _ => ?_
  have hj : (f.withCore c).rfeRestored.jumpInsn = c.jumpInsn ∧
      (f.withCore c).rfeRestored.instructions = c.instructions := by
    unfold rfeRestored
    split <;> exact ⟨rfl, rfl⟩
  rw [hj.1, hj.2]
  obtain ⟨-, rfl⟩ | ⟨-, ha, rfl⟩ := Core.scheduleJump_cases hc
  · exact Nat.le_refl _
  · exact Nat.le_refl _

/-- One case for each kind of instruction. -/
theorem executed_steered (h : Executed ci f x) : Steered ci f x := by
  cases h with
  | plain c limit e he hp hr =>
    have hn : ci.exec ≠ some .nop := by
      rw [he]
      intro h
      cases h
      cases hp
    have ho := hr.outcomes
    rcases ho.control with hc | ⟨ht, hh⟩
    · refine .plain ?_ hc.taken ho.nextPc hc.jumpInsn hc.jumpTarget ?_
      · cases e with
        | core e => exact control_of_not_jump he (by simpa [Exec.isPlain] using hp)
        | mem e | mfspr =>
          unfold control
          rw [he]
        | mtspr | nop | rfe => cases hp
      · rw [counted_of_not_nop hn]
        exact ho.instructions
    · exact steered_handling limit ht hh
  | untaken e he hj ht =>
    have hn : ci.exec ≠ some .nop := by
      rw [he]
      intro h
      cases h
    refine .plain ?_ rfl rfl rfl rfl (counted_of_not_nop hn).symm
    unfold control
    rw [he]
    dsimp only
    rw [ht]
  | taken e target r c he hj ht h =>
    have hctrl : f.control ci = .jump target := by
      unfold control
      rw [he]
      dsimp only
      rw [ht]
    obtain ⟨hk, hd | ⟨hne, hh⟩⟩ := Core.scheduleJump_outcomes h
    · exact .jump target hctrl hd.taken hk.nextPc hd.jumpInsn hd.jumpTarget hk.instructions
    · exact steered_handling f.limit hne hh
  | mtspr a b he ha hb => exact steered_mtspr he ha
  | nop x he h => exact steered_nop he h
  | rfe x he h => exact steered_rfe he h

/-- What the instruction at the program counter does to control. -/
def event (s : Or1k σ) : Event 32 :=
  match s.fetchExecute, s.fetch with
  | .ok x, .ok (some ci, f) => if x.taken = s.taken then f.control ci else .elsewhere
  | _, _ => .elsewhere

/-- At the end of a plain instruction the counters disagree with the delay slot, and control
goes wrong. -/
def slips (due : Option U32) (s : Or1k σ) : Bool :=
  match s.fetch with
  | .ok (some ci, _) =>
    s.jumpTarget != s.nextPc + 4#32 && (counted ci s.instructions == s.jumpInsn) != due.isSome
  | _ => false

/-- The instruction at the program counter leaves `m_instructions` alone, or well ahead of the
last jump. -/
def countsOn (s : Or1k σ) : Bool :=
  match s.fetch with
  | .ok (some ci, _) =>
    counted ci s.instructions == s.instructions || decide (s.jumpInsn < counted ci s.instructions)
  | _ => true

/-- The counters encode the delay slot: what is due is pending for the next instruction. -/
def Delayed (due : Option U32) (s : Or1k σ) : Prop :=
  ∀ target, due = some target → s.jumpInsn = s.instructions + 1 ∧ s.jumpTarget = target

/-- No jump is pending for an instruction further on. -/
def Bounded (due : Option U32) (s : Or1k σ) : Prop :=
  s.jumpInsn ≤ s.instructions + 1 ∧ (due = none → s.jumpInsn ≤ s.instructions)

omit [EnvImpl σ] [HostLib] in
theorem redirect_nextPc : x.retire.redirect.nextPc =
    if (x.instructions == x.jumpInsn) = true then x.jumpTarget else x.nextPc + 4#32 := by
  unfold redirect
  split
  · rename_i h
    rw [if_pos (show (x.instructions == x.jumpInsn) = true from h)]
    rfl
  · rename_i h
    rw [if_neg (show ¬(x.instructions == x.jumpInsn) = true from h)]
    rfl

omit [EnvImpl σ] [HostLib] in
theorem redirect_counters : x.retire.redirect.instructions = x.instructions ∧
    x.retire.redirect.jumpInsn = x.jumpInsn ∧ x.retire.redirect.jumpTarget = x.jumpTarget ∧
    x.retire.redirect.taken = x.taken := by
  unfold redirect
  split <;> exact ⟨rfl, rfl, rfl, rfl⟩

omit [EnvImpl σ] [HostLib] in
theorem counted_le (ci : Instruction) (n : Nat) : counted ci n ≤ n := by
  unfold counted
  split
  · split <;> omega
  · omega

/-- What fetching an instruction leaves alone, of what control depends on. -/
structure SameCounters (s f : Or1k σ) : Prop where
  taken : f.taken = s.taken
  nextPc : f.nextPc = s.nextPc
  instructions : f.instructions = s.instructions
  jumpInsn : f.jumpInsn = s.jumpInsn
  jumpTarget : f.jumpTarget = s.jumpTarget

omit [EnvImpl σ] [HostLib] in
theorem FetchedInsn.sameCounters (h : FetchedInsn s f) : SameCounters s f where
  taken := congrArg (·.taken) h.eq
  nextPc := congrArg (·.nextPc) h.eq
  instructions := congrArg (·.instructions) h.eq
  jumpInsn := congrArg (·.jumpInsn) h.eq
  jumpTarget := congrArg (·.jumpTarget) h.eq

/-- One instruction obeys the law exactly if the counters agree with the delay slot, and leaves
them in agreement. -/
theorem fetchExecute_lawful {due : Option U32} (h : s.fetchExecute = .ok x)
    (hd : ∀ target, due = some target → s.jumpInsn = s.instructions ∧ s.jumpTarget = target) :
    (s.event.Law 4#32 due s.nextPc x.retire.redirect.nextPc ↔
      ¬(s.event = .plain ∧ s.slips due = true)) ∧
    Delayed (s.event.slot due) x.retire.redirect := by
  obtain ⟨hri, hrj, hrt, -⟩ := redirect_counters (x := x)
  have hout : s.event = .elsewhere → (s.event.Law 4#32 due s.nextPc x.retire.redirect.nextPc ↔
      ¬(s.event = .plain ∧ s.slips due = true)) ∧
      Delayed (s.event.slot due) x.retire.redirect := fun he => by
    rw [he]
    exact ⟨iff_of_true trivial (fun h => by cases h.1), nofun⟩
  obtain ⟨ci, f, hf, hfi, hx⟩ | ⟨hf, -⟩ := fetchExecute_ok h
  · have hs := hfi.sameCounters
    have hev : s.event = if x.taken = s.taken then f.control ci else .elsewhere := by
      unfold event
      rw [h, hf]
    have hsl : s.slips due = (s.jumpTarget != s.nextPc + 4#32 &&
        (counted ci s.instructions == s.jumpInsn) != due.isSome) := by
      unfold slips
      rw [hf]
    cases executed_steered hx with
    | plain hc ht hn hj hg hi =>
      rw [if_pos (ht.trans hs.taken), hc] at hev
      rw [hev, hsl]
      refine ⟨?_, nofun⟩
      have hp := redirect_nextPc (x := x)
      rw [hi, hj, hg, hn, hs.instructions, hs.jumpInsn, hs.jumpTarget, hs.nextPc] at hp
      rw [Event.law_plain_iff (fun t hdue => (hd t hdue).2) hp]
      simp
    | jump target hc ht hn hj hg hi =>
      rw [if_pos (ht.trans hs.taken), hc] at hev
      rw [hev]
      refine ⟨iff_of_true (fun _ => ?_) (fun h => by cases h.1), fun t htt => ?_⟩
      · have hne : ¬(x.instructions == x.jumpInsn) = true := by
          rw [hi, hj, beq_iff_eq]
          omega
        rw [redirect_nextPc, if_neg hne, hn, hs.nextPc]
      · cases htt
        rw [hri, hrj, hrt]
        exact ⟨by rw [hj, hi], hg⟩
    | elsewhere hc hb =>
      apply hout
      rw [hev]
      split
      · rename_i ht
        exact hc (ht.trans hs.taken.symm)
      · rfl
  · apply hout
    unfold event
    rw [h, hf]

/-- A thrown C++ exception leaves the counters as they were. -/
theorem fetchExecute_throw_counters (h : s.fetchExecute = .throw x) : SameCounters s x := by
  rcases fetchExecute_throw h with hf | ⟨ci, f, e, c, -, hfi, -, hm, rfl⟩
  · exact (fetch_throw hf).sameCounters
  · have hs := hfi.sameCounters
    have hc := Core.executeMem_throw_effects hm
    have hk := hc.kept
    have hcalm := hc.calm rfl
    exact ⟨hcalm.taken.trans hs.taken, hk.nextPc.trans hs.nextPc,
      hk.instructions.trans hs.instructions, hcalm.jumpInsn.trans hs.jumpInsn,
      hcalm.jumpTarget.trans hs.jumpTarget⟩

/-- While the counter runs on, no jump is left behind for a later instruction. -/
theorem fetchExecute_bounded {due : Option U32} (h : s.fetchExecute = .ok x)
    (hb : s.jumpInsn ≤ s.instructions) (hc : s.countsOn = true) :
    Bounded (s.event.slot due) x.retire.redirect := by
  obtain ⟨hri, hrj, -, -⟩ := redirect_counters (x := x)
  have hle : x.jumpInsn ≤ x.instructions → Bounded (s.event.slot due) x.retire.redirect :=
    fun h => by
      rw [Bounded, hri, hrj]
      exact ⟨by omega, fun _ => h⟩
  obtain ⟨ci, f, hf, hfi, hx⟩ | ⟨hf, b, c, hfb, ⟨t, addr, ht, ha, rfl⟩, rfl⟩ := fetchExecute_ok h
  · have hs := hfi.sameCounters
    unfold countsOn at hc
    rw [hf] at hc
    simp only [Bool.or_eq_true, beq_iff_eq, decide_eq_true_eq] at hc
    cases executed_steered hx with
    | plain hp ht hn hj hg hi =>
      apply hle
      rw [hj, hi, hs.instructions, hs.jumpInsn]
      omega
    | jump target hp ht hn hj hg hi =>
      have hev : s.event = .jump target := by
        unfold event
        rw [h, hf]
        dsimp only
        rw [if_pos (ht.trans hs.taken), hp]
      rw [hev, Bounded, hri, hrj, hj, hi]
      exact ⟨Nat.le_refl _, nofun⟩
    | elsewhere hp hle' =>
      apply hle
      apply hle'
      rw [hs.jumpInsn, hs.instructions]
      exact hb
  · apply hle
    exact Nat.le_of_eq (Core.handling_entered ht addr ha).due

end Or1k

/-- A debugger writes the program counter. -/
def Action.writesNpc : Action σ → Bool
  | .writeSpr reg _ => reg == SpReg.npc.num
  | _ => false

namespace Machine

open Or1k

variable [EnvImpl σ] [HostLib] {m m' : Machine σ} {a : Action σ} {due : Option U32}

/-- What a step does to control. -/
def event (st : Move (Machine σ) (Action σ)) : Event 32 :=
  if st.post.cpu.taken ≠ st.pre.cpu.taken then .elsewhere
  else
    match st.act with
    | .run => if st.pre.executes then st.pre.cpu.beginCycle.event else .idle
    | a => if a.writesNpc then .elsewhere else .idle

/-- The delay slot after a step: the target of the jump that is due. -/
def slotAfter (due : Option U32) (st : Move (Machine σ) (Action σ)) : Option U32 :=
  (event st).slot due

/-- The simulator with its delay slot. -/
abbrev delayed : System (Machine σ × Option U32) (Action σ) := system.watch slotAfter

/-- The law of delayed jumps, for a step. -/
def Lawful (st : Move (Machine σ × Option U32) (Action σ)) : Prop :=
  (event st.base).Law 4#32 st.pre.2 st.pre.1.cpu.nextPc st.post.1.cpu.nextPc

/-- The step executes a plain instruction that ends with the counters in disagreement. -/
def Slips (st : Move (Machine σ × Option U32) (Action σ)) : Prop :=
  IsIteration st.base ∧ event st.base = .plain ∧ st.pre.1.cpu.beginCycle.slips st.pre.2 = true

/-- The step does not set the counter back to a jump, nor does a debugger move the program
counter. -/
def CountsOn (st : Move (Machine σ × Option U32) (Action σ)) : Prop :=
  (IsIteration st.base → st.pre.1.cpu.beginCycle.countsOn = true) ∧ st.act.writesNpc = false

/-- What a step that enters no exception and executes no instruction leaves alone. -/
structure Rested (a : Action σ) (s s' : Or1k σ) : Prop where
  taken : s'.taken = s.taken
  instructions : s'.instructions = s.instructions
  jumpInsn : s'.jumpInsn = s.jumpInsn
  jumpTarget : s'.jumpTarget = s.jumpTarget
  nextPc : a.writesNpc = false → s'.nextPc = s.nextPc

omit [EnvImpl σ] [HostLib] in
theorem rested_of_ignored {s s' : Or1k σ} (hi : Ignored s s') (hs : Steady s s') :
    Rested a s s' :=
  ⟨hi.taken, hs.instructions, hi.jumpInsn, hi.jumpTarget, fun _ => hi.nextPc⟩

/-- An interrupt was accepted. -/
def Interrupted (s s' : Or1k σ) : Prop := s'.taken ≠ s.taken ∧ s'.jumpInsn = 0

omit [EnvImpl σ] [HostLib] in
theorem interrupted_of_accepted {s s' : Or1k σ} {e : ExType} (h : Accepted e s s') :
    Interrupted s s' := by
  refine ⟨fun ht => ?_, h.jumpInsn⟩
  rw [h.taken] at ht
  exact List.cons_ne_self _ _ ht

omit [HostLib] in
theorem outside_rested {s s' : Or1k σ} (h : outside s a = .ok s') :
    Rested a s s' ∨ Interrupted s s' := by
  cases outside_ok h with
  | writeSpr reg val =>
    obtain ⟨-, hd⟩ | hw := sprWritten_cases (s := s) reg val true
    · rw [hd]
      have hs := dozed_steady (s := s.requestBreak.withCore (s.requestBreak.toCore.writeReg .pmr val))
      rcases dozed_cases (s := s.requestBreak.withCore (s.requestBreak.toCore.writeReg .pmr val))
        with hi | ha
      · exact .inl ⟨hi.taken, hs.instructions, hi.jumpInsn, hi.jumpTarget, fun _ => hi.nextPc⟩
      · have hi := interrupted_of_accepted ha
        exact .inr ⟨hi.1, hi.2⟩
    · exact .inl ⟨hw.taken, hw.instructions, hw.jumpInsn, hw.jumpTarget, fun hn =>
        hw.nextPc (by simpa [Action.writesNpc] using hn)⟩
  | writeGpr | world | setUp => exact .inl ⟨rfl, rfl, rfl, rfl, fun _ => rfl⟩

/-- A step that executes no instruction rests, or an interrupt is accepted. -/
theorem act_rested (hx : ¬IsIteration ⟨m, a, m'⟩) (hn : m.act a = some m') :
    Rested a m.cpu m'.cpu ∨ Interrupted m.cpu m'.cpu := by
  cases act_transition hn with
  | begin r s n =>
    rcases began_cases (n := n) (s := s) with hi | ⟨e, ha⟩
    · exact .inl (rested_of_ignored hi began_steady)
    · exact .inr (interrupted_of_accepted ha)
  | mini | finish | leave => exact .inl ⟨rfl, rfl, rfl, rfl, fun _ => rfl⟩
  | iterate limit s x hl hfe | throw limit s x hl hfe =>
    exact (hx ⟨rfl, by simpa [executes] using hl⟩).elim
  | drain s =>
    rw [drained_cpu]
    rcases endMini_cases (s := s) with hi | ⟨e, ha⟩
    · exact .inl (rested_of_ignored hi (timerUpdated_steady.trans externalChecked_steady))
    · exact .inr (interrupted_of_accepted ha)
  | interrupt p s id set =>
    left
    obtain ⟨v, he⟩ := s.toCore.interrupt_eq id set
    rw [he]
    exact ⟨rfl, rfl, rfl, rfl, fun _ => rfl⟩
  | outside r s s' a ha h => exact outside_rested h

/-- The event of a step without an instruction. -/
theorem event_of_not_iteration (hx : ¬IsIteration ⟨m, a, m'⟩) :
    event ⟨m, a, m'⟩ = if m'.cpu.taken ≠ m.cpu.taken then .elsewhere
      else if a.writesNpc then .elsewhere else .idle := by
  unfold event
  dsimp only
  split
  · rfl
  · cases a with
    | run =>
      have he : m.executes = false := by
        by_contra h
        exact hx ⟨rfl, by simpa using h⟩
      dsimp only
      rw [he]
      rfl
    | _ => rfl

/-- The event of a step that completes an instruction. -/
theorem event_of_iteration (hx : m.executes = true) :
    event ⟨m, .run, m'⟩ =
      if m'.cpu.taken ≠ m.cpu.taken then .elsewhere else m.cpu.beginCycle.event := by
  unfold event
  dsimp only
  rw [hx]
  rfl

theorem event_of_retired (limit : Nat) {x : Or1k σ} (hx : m.executes = true)
    (hf : m.cpu.beginCycle.fetchExecute = .ok x) :
    event ⟨m, .run, retired limit x⟩ = m.cpu.beginCycle.event := by
  rw [event_of_iteration hx]
  split
  · rename_i ht
    rw [retired_cpu, redirect_counters.2.2.2] at ht
    unfold Or1k.event
    rw [hf]
    split
    · rename_i ci f hx' hf'
      cases hx'
      exact (if_neg ht).symm
    · rfl
  · rfl

theorem event_of_throw {x : Or1k σ} (hx : m.executes = true)
    (hf : m.cpu.beginCycle.fetchExecute = .throw x) :
    event ⟨m, .run, ⟨.idle none, x⟩⟩ = .elsewhere := by
  rw [event_of_iteration hx]
  split
  · rfl
  · unfold Or1k.event
    rw [hf]

/-- A step obeys the law exactly if it does not slip, and keeps the counters in agreement with
the delay slot. -/
theorem step_lawful {q q' : Machine σ × Option U32} (hn : delayed.next q a = some q')
    (hd : Delayed q.2 q.1.cpu) :
    Delayed q'.2 q'.1.cpu ∧ (Lawful ⟨q, a, q'⟩ ↔ ¬Slips ⟨q, a, q'⟩) := by
  obtain ⟨m, due⟩ := q
  obtain ⟨m', hm, rfl⟩ := System.watch_next hn
  dsimp only at hm hd ⊢
  by_cases hx : IsIteration ⟨m, a, m'⟩
  · obtain ⟨ha, hx⟩ := hx
    dsimp only at ha hx
    subst ha
    rcases iteration_cases hx hm with ⟨limit, x, hf, rfl⟩ | ⟨x, hf, rfl⟩
    · have hpre : ∀ target, due = some target →
          m.cpu.beginCycle.jumpInsn = m.cpu.beginCycle.instructions ∧
            m.cpu.beginCycle.jumpTarget = target := hd
      obtain ⟨hlaw, hdel⟩ := fetchExecute_lawful hf hpre
      have hev := event_of_retired limit hx hf
      refine ⟨?_, ?_⟩
      · rw [slotAfter, hev, retired_cpu]
        exact hdel
      · rw [Lawful, Slips]
        simp only [Move.base, hev, retired_cpu]
        rw [show m.cpu.nextPc = m.cpu.beginCycle.nextPc from rfl, hlaw]
        exact not_congr ⟨fun h => ⟨⟨rfl, hx⟩, h⟩, fun h => h.2⟩
    · have hev := event_of_throw hx hf
      rw [slotAfter, Lawful, Slips]
      simp only [Move.base, hev]
      exact ⟨nofun, iff_of_true trivial (fun h => by cases h.2.1)⟩
  · have hev := event_of_not_iteration hx
    have hslip : ¬Slips ⟨(m, due), a, (m', slotAfter due ⟨m, a, m'⟩)⟩ := fun h => hx h.1
    rcases act_rested hx hm with hr | hi
    · rw [if_neg (not_not.2 hr.taken)] at hev
      rw [slotAfter, Lawful]
      simp only [Move.base, hev]
      split
      · exact ⟨nofun, iff_of_true trivial hslip⟩
      · rename_i hw
        refine ⟨?_, iff_of_true (hr.nextPc (by simpa using hw)) hslip⟩
        intro target ht
        rw [hr.jumpInsn, hr.instructions, hr.jumpTarget]
        exact hd target ht
    · rw [if_pos hi.1] at hev
      rw [slotAfter, Lawful]
      simp only [Move.base, hev]
      exact ⟨nofun, iff_of_true trivial hslip⟩

/-- While the counter runs on, no jump is left behind. -/
theorem step_bounded {q q' : Machine σ × Option U32} (hn : delayed.next q a = some q')
    (hc : CountsOn ⟨q, a, q'⟩) (hb : Bounded q.2 q.1.cpu) : Bounded q'.2 q'.1.cpu := by
  obtain ⟨m, due⟩ := q
  obtain ⟨m', hm, rfl⟩ := System.watch_next hn
  dsimp only at hm hb ⊢
  by_cases hx : IsIteration ⟨m, a, m'⟩
  · have hcount := hc.1 hx
    obtain ⟨ha, hx⟩ := hx
    dsimp only at ha hx
    subst ha
    rcases iteration_cases hx hm with ⟨limit, x, hf, rfl⟩ | ⟨x, hf, rfl⟩
    · rw [slotAfter, event_of_retired _ hx hf, retired_cpu]
      exact fetchExecute_bounded hf hb.1 hcount
    · have hs := fetchExecute_throw_counters hf
      have hle : x.jumpInsn ≤ x.instructions := by
        rw [hs.jumpInsn, hs.instructions]
        exact hb.1
      rw [slotAfter, event_of_throw hx hf]
      exact ⟨Nat.le_succ_of_le hle, fun _ => hle⟩
  · have hev := event_of_not_iteration hx
    rcases act_rested hx hm with hr | hi
    · have hw : a.writesNpc = false := hc.2
      rw [if_neg (not_not.2 hr.taken), if_neg (by simp [hw])] at hev
      rw [slotAfter, hev, Bounded, hr.jumpInsn, hr.instructions]
      exact hb
    · rw [if_pos hi.1] at hev
      rw [slotAfter, hev, Bounded, hi.2]
      exact ⟨Nat.zero_le _, fun _ => Nat.zero_le _⟩

/-- A counter that runs on agrees with the delay slot. -/
theorem not_slips {st : Move (Machine σ × Option U32) (Action σ)} (hc : CountsOn st)
    (hd : Delayed st.pre.2 st.pre.1.cpu) (hb : Bounded st.pre.2 st.pre.1.cpu) : ¬Slips st := by
  rintro ⟨hx, -, hs⟩
  have hcount := hc.1 hx
  have hi : st.pre.1.cpu.beginCycle.instructions = st.pre.1.cpu.instructions + 1 := rfl
  unfold slips at hs
  unfold countsOn at hcount
  split at hs
  · rename_i ci f hf
    rw [hf] at hcount
    simp only [Bool.or_eq_true, beq_iff_eq, decide_eq_true_eq, Bool.and_eq_true, bne_iff_ne,
      ne_eq, hi] at hcount hs
    have hle := counted_le ci (st.pre.1.cpu.instructions + 1)
    have hj : st.pre.1.cpu.beginCycle.jumpInsn = st.pre.1.cpu.jumpInsn := rfl
    rw [hj] at hcount hs
    apply hs.2
    cases hdue : st.pre.2 with
    | none =>
      have hle' := hb.2 hdue
      rw [Option.isSome_none]
      apply beq_false_of_ne
      omega
    | some target =>
      have ht := (hd target hdue).1
      rw [Option.isSome_some, beq_iff_eq]
      omega
  · cases hs

/-- In every run from reset, a step obeys the law of delayed jumps exactly if it does not slip;
and no step does while the counter runs on. -/
theorem jumps_once {env : Env σ} {size : Nat} {q : Machine σ × Option U32}
    {l : List (Move (Machine σ × Option U32) (Action σ))}
    (h : delayed.Path (init env size, none) l q) :
    (∀ st ∈ l, Lawful st ↔ ¬Slips st) ∧
      ((∀ st ∈ l, CountsOn st) → ∀ st ∈ l, Lawful st) := by
  have hd : Delayed none (init env size).cpu := nofun
  have hb : Bounded none (init env size).cpu := ⟨Nat.zero_le _, fun _ => Nat.le_refl _⟩
  constructor
  · exact (h.forall_of (C := fun _ => True) (P := fun q => Delayed q.2 q.1.cpu)
      (R := fun st => Lawful st ↔ ¬Slips st) (fun _ _ _ hn _ hd => step_lawful hn hd)
      (fun _ _ => trivial) hd).2
  · intro hc
    refine (h.forall_of (C := CountsOn) (P := fun q => Delayed q.2 q.1.cpu ∧ Bounded q.2 q.1.cpu)
      (R := Lawful) (fun s a t hn hc ⟨hd, hb⟩ => ?_) hc ⟨hd, hb⟩).2
    obtain ⟨hd', hlaw⟩ := step_lawful hn hd
    exact ⟨⟨hd', step_bounded hn hc hb⟩, hlaw.2 (not_slips hc hd hb)⟩

end Machine

namespace Machine

attribute [local instance] HostLib.plain

/-- `l.nop 5` in the delay slot of a jump: the counter is reset, and the jump is lost. -/
theorem jumps_once_fails : ∃ l q, delayed.Path (Memory.boot [(0x100, 0x3#32),
    (0x104, 0x15000005#32)], none) l q ∧ ∃ st ∈ l, IsIteration st.base ∧
      event st.base = .plain ∧ st.pre.2 = some 0x10c#32 ∧ st.post.1.cpu.nextPc = 0x108#32 ∧
      ¬Lawful st := by
  obtain ⟨q, hr, hq⟩ := System.exists_run delayed
    (Memory.boot [(0x100, 0x3#32), (0x104, 0x15000005#32)], none) [.call 10#32, .run, .run]
    (fun q => q.1.executes && decide (q.2 = some 0x10c#32) && (q.1.next).any fun m' : Machine Memory =>
      decide (event ⟨q.1, .run, m'⟩ = .plain ∧ m'.cpu.nextPc = 0x108#32))
    (by decide +kernel)
  simp only [Bool.and_eq_true, decide_eq_true_eq] at hq
  obtain ⟨⟨hx, hdue⟩, hq⟩ := hq
  obtain ⟨m', hn, hm⟩ := (Option.any_eq_true _ _).1 hq
  obtain ⟨hev, hpc⟩ := of_decide_eq_true hm
  obtain ⟨l, hl, hmem⟩ := hr.path_tail (System.next_watch (M := system) slotAfter (a := .run) hn)
  refine ⟨l, _, hl, _, hmem, ⟨rfl, hx⟩, hev, hdue, hpc, fun hlaw => ?_⟩
  simp only [Lawful, Move.base, hev, Event.Law, hdue, hpc, Option.getD_some] at hlaw
  exact absurd hlaw (by decide)

/-- `l.nop` in the delay slot: control is at the target of the jump. -/
theorem jumps_once_nop : ∃ q q' : Machine Memory × Option U32,
    delayed.next q .run = some q' ∧ q.2 = some 0x10c#32 ∧ q'.1.cpu.nextPc = 0x10c#32 := by
  obtain ⟨q, hr, hq⟩ := System.exists_run delayed
    (Memory.boot [(0x100, 0x3#32), (0x104, 0x15000000#32)], none) [.call 10#32, .run, .run]
    (fun q => decide (q.2 = some 0x10c#32) && !q.1.cpu.beginCycle.slips q.2 &&
      (q.1.next).any fun m' : Machine Memory => decide (event ⟨q.1, .run, m'⟩ = .plain))
    (by decide +kernel)
  simp only [Bool.and_eq_true, decide_eq_true_eq, Bool.not_eq_true'] at hq
  obtain ⟨⟨hdue, hs⟩, hq⟩ := hq
  obtain ⟨m', hn, hm⟩ := (Option.any_eq_true _ _).1 hq
  have hev := of_decide_eq_true hm
  have hnext := System.next_watch (M := system) slotAfter (a := .run) hn
  obtain ⟨l, hl, hmem⟩ := hr.path_tail hnext
  refine ⟨q, _, hnext, hdue, ?_⟩
  have hlaw := ((jumps_once hl).1 _ hmem).2 fun h => by rw [h.2.2] at hs; cases hs
  simpa only [Lawful, Move.base, hev, Event.Law, hdue, Option.getD_some] using hlaw

end Machine

end Or1kiss
