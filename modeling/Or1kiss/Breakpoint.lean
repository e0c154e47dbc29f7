import Or1kiss.Lib.Distance
import Or1kiss.Memory
import Or1kiss.Transition

/-!
# Breakpoints

`advance` does not compare every program counter with the breakpoints: it bounds the inner
loop by the cycle at which straight-line code would reach the nearest one. The invariant is
`Guarded`: the limit lies at most as many cycles ahead as there are instructions to any
breakpoint. An instruction takes at least one cycle, and whatever moves the program counter
otherwise recomputes the limit or leaves the loop.
-/

namespace Or1kiss

open Host Bits Distance

variable {σ : Type} {s s' x : Or1k σ} {limit : Nat}

namespace Or1k

/-- No breakpoint is nearer than the limit. -/
def Guarded (limit : Nat) (s : Or1k σ) : Prop :=
  ∀ bp ∈ s.breakpoints, limit ≤ s.cycles + strides 4#32 s.nextPc bp

theorem nextBreakpoint_le {bp : U32} (h : bp ∈ s.breakpoints) :
    s.nextBreakpoint ≤ s.cycles + strides 4#32 s.nextPc bp := by
  have hf : ∀ l : List U32, bp ∈ l →
      l.foldr (fun bp next => min next ((bp - s.nextPc).toNat / 4)) 0xffffffff ≤
        strides 4#32 s.nextPc bp := by
    intro l
    induction l with
    | nil => intro h; cases h
    | cons b l ih =>
      intro h
      rcases List.mem_cons.1 h with rfl | h
      · exact Nat.min_le_right _ _
      · exact Nat.le_trans (Nat.min_le_left _ _) (ih h)
  rw [nextBreakpoint, Nat.add_comm]
  exact Nat.add_le_add_left (hf s.breakpoints h) _

/-- A limit below the next breakpoint guards. -/
theorem guarded_of_le (h : limit ≤ s.nextBreakpoint) : Guarded limit s := fun _ hb =>
  Nat.le_trans h (nextBreakpoint_le hb)

theorem miniLimit_le : s.miniLimit ≤ s.nextBreakpoint := by
  simp only [miniLimit]
  split
  · exact Nat.le_trans (Nat.min_le_left _ _) (Nat.min_le_right _ _)
  · exact Nat.min_le_right _ _

theorem miniLimit_le_limit : s.miniLimit ≤ s.limit := by
  simp only [miniLimit]
  split
  · exact Nat.le_trans (Nat.min_le_left _ _) (Nat.min_le_left _ _)
  · exact Nat.min_le_left _ _

/-- Where the limit is ahead of the cycle counter, the program counter is at no breakpoint. -/
theorem Guarded.not_mem (h : Guarded limit s) (hl : s.cycles < limit) :
    s.nextPc ∉ s.breakpoints := by
  intro hb
  have := h _ hb
  rw [strides, dist_self, Nat.zero_div] at this
  omega

/-- An executor moves the program counter only if it leaves the loop, and takes no cycle
back unless it ends the run. -/
structure Flow (s s' : Or1k σ) : Prop where
  breakpoints : s'.breakpoints = s.breakpoints
  flow : s'.stopRequested = true ∨ s'.breakRequested = true ∨
    (s.cycles ≤ s'.cycles ∧ s'.nextPc = s.nextPc)

theorem flow_of_kept {c : Core σ} (h : Core.Kept s.toCore c) (hc : s'.toCore = c)
    (hb : s'.breakpoints = s.breakpoints) : Flow s s' := by
  subst hc
  exact ⟨hb, .inr (.inr ⟨h.cycles, h.nextPc⟩)⟩

variable [EnvImpl σ] [HostLib]

theorem executed_flow {ci : Instruction} (h : Executed ci s s') : Flow s s' := by
  cases h with
  | plain c limit e he hp h => exact flow_of_kept h.outcomes.toKept rfl rfl
  | untaken e he hj ht => exact flow_of_kept (.refl _) rfl rfl
  | taken e target r c he hj ht h =>
    have hj := (Core.scheduleJump_outcomes h).1
    exact flow_of_kept ((Core.kept_toRegs r).trans hj) rfl rfl
  | mtspr a b he ha hb =>
    exact ⟨sprWritten_breakpoints _ _ _, .inr (.inl (sprWritten_breakRequested _ _ _))⟩
  | nop s' he h =>
    obtain ⟨rfl, -⟩ | ⟨rfl, -⟩ | ⟨c, rfl, hb, -⟩ := nop_ok h
    · exact ⟨rfl, .inl rfl⟩
    · exact ⟨rfl, .inr (.inl rfl)⟩
    · exact flow_of_kept hb.kept rfl rfl
  | rfe s' he h =>
    obtain ⟨c, hc, rfl⟩ := rfe_ok h
    have hr : ∀ t : Or1k σ, t.rfeRestored.breakpoints = t.breakpoints ∧
        t.rfeRestored.breakRequested = true := fun t => by
      simp only [rfeRestored]; split <;> exact ⟨rfl, rfl⟩
    exact ⟨(hr _).1, .inr (.inl (hr _).2)⟩

theorem fetchExecute_flow (h : s.fetchExecute = .ok s') : Flow s s' := by
  obtain ⟨ci, f, -, ⟨_, dc, n, ⟨_, _, _, _, _, _, _, rfl⟩, rfl⟩, he⟩ |
    ⟨-, b, c, ⟨immu, env, ireq, insn, v, p, -, rfl⟩, ⟨t, addr, ht, -, rfl⟩, rfl⟩ := fetchExecute_ok h
  · have hf := executed_flow he
    exact ⟨hf.breakpoints, hf.flow⟩
  · have hk := Core.kept_entered
      (c := { s.toCore with immu, env, ireq, insn, virtIpg := v, physIpg := p }) ht addr
    exact ⟨rfl, .inr (.inr ⟨hk.cycles, hk.nextPc⟩)⟩

/-- The end of an iteration keeps the guard, as long as the loop goes on. -/
theorem guarded_retired (hg : Guarded limit s) (hl : s.cycles < limit)
    (hx : s.beginCycle.fetchExecute = .ok x) (ha : x.retire.after = .next) :
    Guarded (x.retire.newLimit limit) x.retire.redirect := by
  have hf := fetchExecute_flow hx
  have hgo : s.cycles + 1 ≤ x.cycles ∧ x.nextPc = s.nextPc := by
    simp only [after] at ha
    rcases hf.flow with h | h | h
    · rw [if_pos (show x.retire.stopRequested = true from h)] at ha; cases ha
    · split at ha
      · cases ha
      · rw [if_pos (show x.retire.breakRequested = true from h)] at ha; cases ha
    · exact h
  have hb : x.breakpoints = s.breakpoints := hf.breakpoints
  by_cases hj : x.retire.jumpDue = true
  · refine guarded_of_le ?_
    rw [newLimit, if_pos hj]
    exact Nat.min_le_right _ _
  · intro bp hbp
    rw [newLimit, if_neg hj]
    simp only [redirect, if_neg hj] at hbp ⊢
    have hbp : bp ∈ s.breakpoints := hb ▸ hbp
    have hd := hg bp hbp
    have hn : x.retire.nextPc = s.nextPc + 4#32 := congrArg (· + 4#32) hgo.2
    have hc : x.retire.cycles = x.cycles := rfl
    have hs := strides_add (k := 4#32) (a := s.nextPc) (b := bp) (by omega)
    rw [hn, hc]
    omega

end Or1k

namespace Machine

open Runs

/-- Inside the inner loop the limit guards the breakpoints. -/
def Guarded (m : Machine σ) : Prop := ∀ limit, m.phase = .inner limit → m.cpu.Guarded limit

variable {m m' : Machine σ}

theorem guarded_of_phase (h : ∀ limit, m.phase ≠ .inner limit) : Guarded m := fun l hl =>
  (h l hl).elim

theorem Guarded.not_mem (h : Guarded m) (hx : m.executes = true) :
    m.cpu.nextPc ∉ m.cpu.breakpoints := by
  simp only [executes] at hx
  split at hx
  · rename_i limit hp
    exact (h limit hp).not_mem (by simpa using hx)
  · cases hx

theorem guarded_interrupt {limit : Nat} (h : s.Guarded limit) (id : Fin 32) (set : Bool) :
    (s.withCore (s.toCore.interrupt id set)).Guarded limit := by
  obtain ⟨v, he⟩ := s.toCore.interrupt_eq id set
  rw [he]
  exact h

variable [EnvImpl σ] [HostLib]

theorem guarded_iterated {limit : Nat} (hg : s.Guarded limit) (hl : s.cycles < limit)
    (hx : s.beginCycle.fetchExecute = .ok x) : Guarded (retired limit x) := by
  simp only [retired, iterated]
  cases ha : x.retire.after with
  | next =>
    intro l hl'
    cases hl'
    exact Or1k.guarded_retired hg hl hx ha
  | exit | leave => exact guarded_of_phase (by simp)

/-- Every step of `advance`, and every event around it, keeps the guard. -/
theorem guarded_step {a : Action σ} (hg : Guarded m) (h : m.act a = some m') : Guarded m' := by
  cases act_transition h with
  | begin | finish | throw | leave => exact guarded_of_phase (by simp)
  | mini s h =>
    intro l hl
    cases hl
    exact Or1k.guarded_of_le Or1k.miniLimit_le
  | iterate limit s x hl hx => exact guarded_iterated (hg limit rfl) hl hx
  | drain s => exact guarded_of_phase (by intro l; simp only [drained]; split_ifs <;> simp)
  | interrupt p s id set => exact fun l hl => guarded_interrupt (hg l hl) id set
  | outside => exact guarded_of_phase (by simp)

/-- In a run that starts outside `advance` every machine is guarded. -/
theorem guarded_run {r : Option StepResult} {s : Or1k σ} (h : system.Run ⟨.idle r, s⟩ m) :
    Guarded m :=
  h.invariant (fun _ _ _ hg _ hn => guarded_step hg hn) (guarded_of_phase (by simp))

/-! ## Stopping at a breakpoint -/

/-- `advance` is done at `pc` without executing there: it has returned, it was redirected to
an interrupt vector, or its next stretch, in which no instruction is executed, leads there. -/
inductive Yields (pc : U32) : Machine σ → Prop where
  | returned (r : StepResult) (s : Or1k σ) (h : s.nextPc = pc) : Yields pc ⟨.idle (some r), s⟩
  | redirected (e : ExType) (s : Or1k σ) (m : Machine σ) (h : s.nextPc = pc)
      (ha : Or1k.Accepted e s m.cpu) : Yields pc m
  | stretch (m m' : Machine σ) (hx : m.executes = false) (hn : m.next = some m')
      (h : Yields pc m') : Yields pc m

/-- `advance` with an explicit comparison of every program counter with the breakpoints. -/
def checkedNext (m : Machine σ) : Option (Machine σ) :=
  match m.phase with
  | .inner _ => if m.cpu.breakpointHit then some { m with phase := .drain } else m.next
  | _ => m.next

omit [EnvImpl σ] [HostLib] in
theorem breakpointHit_iff : s.breakpointHit = true ↔ s.nextPc ∈ s.breakpoints := by
  simp [Or1k.breakpointHit]

theorem next_mini (hl : s.cycles < s.limit) : (⟨.outer, s⟩ : Machine σ).next =
    some ⟨.inner s.beginMini.miniLimit, s.beginMini⟩ := by
  simp only [next, if_pos hl]

theorem next_finish (hl : ¬s.cycles < s.limit) :
    (⟨.outer, s⟩ : Machine σ).next = some ⟨.idle (some .ok), s⟩ := by
  simp only [next, if_neg hl]

theorem next_inner {limit : Nat} (hl : ¬s.cycles < limit) :
    (⟨.inner limit, s⟩ : Machine σ).next = some ⟨.drain, s⟩ := by
  simp only [next, if_neg hl]

theorem next_drain : (⟨.drain, s⟩ : Machine σ).next =
    some (drained s.timerUpdated.externalChecked) := by
  simp only [next, Or1k.endMini_eq, ofOutcome]

/-- After the inner loop a breakpoint stops the run unless an interrupt is accepted. -/
theorem yields_drain (hb : s.nextPc ∈ s.breakpoints) : Yields s.nextPc ⟨.drain, s⟩ := by
  refine .stretch _ _ rfl next_drain ?_
  rcases Or1k.endMini_cases (s := s) with hi | ⟨e, ha⟩
  · have hs := (Or1k.timerUpdated_steady (s := s)).trans Or1k.externalChecked_steady
    have hh : s.timerUpdated.externalChecked.breakpointHit = true := by
      rw [breakpointHit_iff, hi.nextPc, hs.breakpoints]; exact hb
    rw [drained, if_pos hh]
    exact .returned .breakpoint _ hi.nextPc
  · exact .redirected e s _ rfl (by rw [drained_cpu]; exact ha)

theorem yields_inner {limit : Nat} (hg : s.Guarded limit) (hb : s.nextPc ∈ s.breakpoints) :
    Yields s.nextPc ⟨.inner limit, s⟩ := by
  have hl : ¬s.cycles < limit := fun hl => hg.not_mem hl hb
  exact .stretch _ _ (by simpa [executes] using hl) (next_inner hl) (yields_drain hb)

theorem yields_outer (hb : s.nextPc ∈ s.breakpoints) : Yields s.nextPc ⟨.outer, s⟩ := by
  by_cases hl : s.cycles < s.limit
  · refine .stretch _ _ rfl (next_mini hl) ?_
    exact yields_inner (s := s.beginMini) (Or1k.guarded_of_le Or1k.miniLimit_le) hb
  · exact .stretch _ _ rfl (next_finish hl) (.returned .ok s rfl)

/-- One case for each point of control of `advance`. -/
theorem Guarded.yields (hg : Guarded m) (hp : ∀ r, m.phase ≠ .idle r)
    (hb : m.cpu.nextPc ∈ m.cpu.breakpoints) : Yields m.cpu.nextPc m := by
  obtain ⟨p, s⟩ := m
  cases p with
  | idle r => exact (hp r rfl).elim
  | outer => exact yields_outer hb
  | inner limit => exact yields_inner (hg limit rfl) hb
  | drain => exact yields_drain hb

theorem Guarded.checkedNext_eq (hg : Guarded m) : m.checkedNext = m.next := by
  obtain ⟨p, s⟩ := m
  cases p with
  | idle r | outer | drain => rfl
  | inner limit =>
    simp only [checkedNext]
    split
    · rename_i hb
      exact (next_inner fun hl => (hg limit rfl).not_mem hl (breakpointHit_iff.1 hb)).symm
    · rfl

/-- `STEP_BREAKPOINT` is returned at breakpoints only. -/
theorem breakpoint_of_next (h : m.next = some ⟨.idle (some .breakpoint), s⟩) :
    s.nextPc ∈ s.breakpoints := by
  have hd : ∀ t : Or1k σ, drained t = ⟨.idle (some .breakpoint), s⟩ → s.nextPc ∈ s.breakpoints := by
    intro t ht
    simp only [drained] at ht
    split_ifs at ht with hb hw
    · cases ht; exact breakpointHit_iff.1 hb
    · cases ht
    · cases ht
  generalize he : (⟨.idle (some .breakpoint), s⟩ : Machine σ) = e at h
  cases next_transition h with
  | mini | finish | throw | leave => cases he
  | iterate limit t x hl hx =>
    simp only [retired, iterated] at he
    split at he <;> cases he
  | drain t => exact hd _ he.symm
  | outside r t t' a ha h => cases ha

/-- No instruction at a breakpoint is executed, in any run that starts outside `advance`:
where the program counter is at one, `advance` returns or is redirected first. The loop is
the one that compares every program counter with the list. -/
theorem breakpoints_respected {r : Option StepResult} (h : system.Run ⟨.idle r, s⟩ m) :
    (m.executes = true → m.cpu.nextPc ∉ m.cpu.breakpoints) ∧
    ((∀ r, m.phase ≠ .idle r) → m.cpu.nextPc ∈ m.cpu.breakpoints → Yields m.cpu.nextPc m) ∧
    m.checkedNext = m.next ∧
    ∀ t, m.next = some ⟨.idle (some .breakpoint), t⟩ → t.nextPc ∈ t.breakpoints :=
  ⟨(guarded_run h).not_mem, (guarded_run h).yields, (guarded_run h).checkedNext_eq,
    fun _ => breakpoint_of_next⟩

end Machine

namespace Machine

open Runs

attribute [local instance] HostLib.plain

/-- Two `l.nop` in front of a breakpoint: the third stretch of the inner loop stops there. -/
theorem breakpoints_respected_nops : ∃ m : Machine Memory,
    m.cpu.nextPc = 0x108#32 ∧ Yields 0x108#32 m := by
  obtain ⟨m, hr, hm⟩ := System.exists_run system
    (Memory.boot [(0x100, 0x15000000#32), (0x104, 0x15000000#32)])
    [.insertBreakpoint 0x108#32, .call 10#32, .run, .run, .run]
    (fun m => decide (m.cpu.nextPc = 0x108#32 ∧ 0x108#32 ∈ m.cpu.breakpoints ∧
      m.phase = .inner 2))
    (by decide +kernel)
  simp only [decide_eq_true_eq] at hm
  obtain ⟨hn, hb, hp⟩ := hm
  have h := breakpoints_respected hr
  exact ⟨m, hn, hn ▸ h.2.1 (by simp [hp]) (hn ▸ hb)⟩

end Machine

end Or1kiss
