import Or1kiss.Memory
import Or1kiss.Timer
import Or1kiss.Transition

/-!
# Sleeping

`doze` is called when a quantum begins and by every write to PMR. A regular sleep skips cycles
that must all be cycles of sleep: no interrupt pending, and the timer, counted on from its last
synchronisation, short of its match. `doze` looks at the counter as the last synchronisation
left it and at no pending interrupt; `Restful` says when that makes no difference.
-/

namespace Or1kiss

open Host Bits Runs

variable {σ : Type}

namespace Or1k

variable {s f x : Or1k σ} {reg val : U32}

/-- Cycles that the timer has not accounted yet. -/
def lag (s : Or1k σ) : Nat := s.cycles - s.tickUpdate

/-- The timer after `k` more cycles, counted one at a time from its last synchronisation. -/
def timerAfter (s : Or1k σ) (k : Nat) : Tick := (Tick.update · 1)^[s.lag + k] s.tick

/-- The CPU would still be asleep after `k` more cycles. -/
structure AsleepAfter (s : Or1k σ) (k : Nat) : Prop where
  external : s.isInterruptPending = false
  tick : (s.timerAfter k).irqPending = false
  waiting : ¬s.tick.Matched (s.lag + k)

/-- The cycles that a regular sleep skips. -/
def skips (s : Or1k σ) : Nat :=
  if test s.pmr PMR.DME && s.allowSleep then min s.dozeSkip (s.limit - s.cycles) else 0

/-- No interrupt is pending, and the sleep ends before the match of a counting timer. -/
structure Restful (s : Or1k σ) : Prop where
  external : s.isInterruptPending = false
  tick : s.tick.irqPending = false
  short : s.tick.counting = true → 0 < s.tick.limit → s.lag + s.skips ≤ s.tick.nextTick

/-- A sleeping CPU sleeps on exactly until the match. -/
theorem asleepAfter_iff {n : Nat} (hn : 0 < n) : (∀ k < n, s.AsleepAfter k) ↔
    s.isInterruptPending = false ∧ s.tick.irqPending = false ∧
      (s.tick.counting = true → 0 < s.tick.limit → s.lag + n ≤ s.tick.nextTick) := by
  have hip : ∀ k, ¬s.tick.Matched (s.lag + k) → (s.timerAfter k).irqPending = s.tick.irqPending := by
    intro k hm
    unfold timerAfter Tick.irqPending
    rw [Tick.iterate_of_not_matched hm, Tick.later_ttmr]
  constructor
  · intro h
    have h0 := h 0 hn
    have hl := h (n - 1) (by omega)
    refine ⟨h0.external, (hip 0 h0.waiting).symm.trans h0.tick, fun hc hlim => ?_⟩
    by_contra hlt
    exact hl.waiting (Tick.matched_iff.2 ⟨hc, hlim, by omega⟩)
  · rintro ⟨he, ht, hs⟩ k hk
    have hm : ¬s.tick.Matched (s.lag + k) := by
      intro hm
      obtain ⟨hc, hlim, hle⟩ := Tick.matched_iff.1 hm
      have := hs hc hlim
      omega
    exact ⟨he, (hip k hm).trans ht, hm⟩

variable [EnvImpl σ]

/-- A regular sleep advances the time by what it skips. -/
theorem dozed_cycles (hs : (s.sleep s.dozeSkip).1 = 0) : s.dozed.cycles = s.cycles + s.skips := by
  unfold dozed skips
  by_cases hd : (test s.pmr PMR.DME && s.allowSleep) = true
  · have hn : ¬(!test s.pmr PMR.DME || !s.allowSleep) = true := by
      rw [← Bool.not_and, hd]
      decide
    rw [if_neg hn, if_pos hd]
    dsimp only
    rw [if_neg (not_not.2 hs)]
    show (tickChecked _).cycles = _
    rw [tickChecked_cycles]
    rfl
  · have hn : (!test s.pmr PMR.DME || !s.allowSleep) = true := by
      rw [← Bool.not_and, eq_false_of_ne_true hd]
      rfl
    rw [if_pos hn, if_neg hd]
    rfl

/-- The permitted `l.mtspr` at the program counter: its register, its value and the state that
executes it. -/
def mtspr (s : Or1k σ) : Option (U32 × U32 × Or1k σ) :=
  match s.fetch with
  | .ok (some ci, f) =>
    match ci.exec, f.toCore.deref ci ci.dest, f.toCore.deref ci ci.src1 with
    | some .mtspr, .ok a, .ok b =>
      if f.writeDenied (a ||| ci.imm) false then none else some (a ||| ci.imm, b, f)
    | _, _, _ => none
  | _ => none

/-- Another `l.mtspr` is denied. -/
theorem mtspr_denied {ci : Instruction} {a b : U32} (hf : s.fetch = .ok (some ci, f))
    (he : ci.exec = some .mtspr) (ha : f.toCore.deref ci ci.dest = .ok a)
    (hb : f.toCore.deref ci ci.src1 = .ok b) (hm : s.mtspr = none) :
    f.writeDenied (a ||| ci.imm) false = true := by
  unfold mtspr at hm
  rw [hf] at hm
  dsimp only at hm
  rw [he, ha, hb] at hm
  dsimp only at hm
  split at hm
  · assumption
  · cases hm

/-- A denied `l.mtspr` only requests the break. -/
theorem executed_denied [HostLib] {ci : Instruction} (hf : s.fetch = .ok (some ci, f))
    (he : ci.exec = some .mtspr) (hx : Executed ci f x) (hm : s.mtspr = none) :
    x = f.requestBreak := by
  obtain ⟨a, b, ha, hb, rfl⟩ := hx.of_mtspr he
  unfold sprWritten
  rw [if_pos (mtspr_denied hf he ha hb hm)]

theorem mtspr_executed [HostLib] (h : s.mtspr = some (reg, val, f)) :
    FetchedInsn s f ∧ s.fetchExecute = .ok (f.requestBreak.regWritten reg val) := by
  unfold mtspr at h
  split at h
  · rename_i ci g hf
    split at h
    · rename_i a b he ha hb
      split at h
      · cases h
      · rename_i hw
        have hw := eq_false_of_ne_true hw
        have hx : g.execute ci = .ok (g.requestBreak.regWritten (a ||| ci.imm) b) := by
          unfold execute
          rw [he]
          show g.executeOrbis32Mtspr ci = _
          unfold executeOrbis32Mtspr deref
          rw [ha, hb]
          show g.setSpr (a ||| ci.imm) b false = _
          rw [setSpr_eq]
          unfold sprWritten
          rw [hw, if_neg Bool.false_ne_true]
        have hfe : s.fetchExecute = .ok (g.requestBreak.regWritten (a ||| ci.imm) b) :=
          (fetchExecute_of_fetch hf).trans hx
        cases h
        exact ⟨.of_fetch hf, hfe⟩
    · cases h
  · cases h

end Or1k

namespace Machine

open Or1k

variable [EnvImpl σ] {m m' : Machine σ} {a : Action σ} {s : Or1k σ}

/-- The permitted `l.mtspr` that an action executes. -/
def mtspr (m : Machine σ) : Action σ → Option (U32 × U32 × Or1k σ)
  | .run => if m.executes then m.cpu.beginCycle.mtspr else none
  | _ => none

theorem mtspr_run (hx : m.executes = true) : m.mtspr .run = m.cpu.beginCycle.mtspr := if_pos hx

/-- The state in which an action calls `doze`. -/
def dozes (m : Machine σ) (a : Action σ) : Option (Or1k σ) :=
  match a, m.phase with
  | .call n, .idle _ => some (externalChecked { m.cpu with limit := m.cpu.cycles + n.toNat })
  | .writeSpr reg val, .idle _ =>
    if reg = SpReg.pmr.num then
      some (m.cpu.requestBreak.withCore (m.cpu.requestBreak.toCore.writeReg .pmr val))
    else none
  | .run, _ =>
    match m.mtspr .run with
    | some (reg, val, f) =>
      if reg = SpReg.pmr.num then some (f.requestBreak.withCore (f.requestBreak.toCore.writeReg .pmr val))
      else none
    | none => none
  | _, _ => none

variable [HostLib]

omit [HostLib] in
theorem mtspr_eq_some {w : U32 × U32 × Or1k σ} (h : m.mtspr a = some w) :
    a = .run ∧ m.executes = true ∧ m.cpu.beginCycle.mtspr = some w := by
  cases a with
  | run =>
    unfold mtspr at h
    dsimp only at h
    split at h
    · exact ⟨rfl, ‹_›, h⟩
    · cases h
  | _ => cases h

/-- The action leaves the time that `doze` left. -/
theorem dozes_cycles (h : m.dozes a = some s) (hn : m.act a = some m') :
    m'.cpu.cycles = s.dozed.cycles := by
  unfold dozes at h
  split at h
  · rename_i n r hp
    cases h
    cases act_transition hn with
    | begin => rfl
    | outside r s s' a ha ho => cases ha
  · rename_i reg val r hp
    split at h
    · rename_i hreg
      cases h
      cases act_transition hn with
      | outside r s s' a ha ho =>
        have ho : s.setSpr reg val true = .ok s' := ho
        rw [setSpr_eq, hreg] at ho
        cases ho
        show (s.sprWritten SpReg.pmr.num val true).cycles = _
        unfold sprWritten
        rw [show s.writeDenied SpReg.pmr.num true = false from rfl, if_neg Bool.false_ne_true,
          regWritten_pmr]
    · cases h
  · split at h
    · rename_i reg val f hw
      split at h
      · rename_i hreg
        cases h
        obtain ⟨-, hx, hw⟩ := mtspr_eq_some hw
        obtain ⟨-, hfe⟩ := mtspr_executed hw
        rcases iteration_cases hx hn with ⟨limit, x, hf, rfl⟩ | ⟨x, hf, rfl⟩
        · cases hfe.symm.trans hf
          rw [retired_frame (·.cycles) limit _ fun _ _ _ _ => rfl, hreg, regWritten_pmr]
        · cases hfe.symm.trans hf
      · cases h
    · cases h
  · cases h

/-- In every run, a call of `doze` that the port does not serve skips cycles of sleep only, if
and only if it skips none or finds the state restful. -/
theorem doze_rests {env : Env σ} {size : Nat} {l : List (Move (Machine σ) (Action σ))}
    (h : system.Path (init env size) l m) : ∀ st ∈ l, ∀ s, st.pre.dozes st.act = some s →
      (s.sleep s.dozeSkip).1 = 0 →
        ((∀ k, s.cycles + k < st.post.cpu.cycles → s.AsleepAfter k) ↔ s.skips = 0 ∨ s.Restful) := by
  refine h.forall fun m a m' hn s hd hs => ?_
  have hc : m'.cpu.cycles = s.cycles + s.skips := (dozes_cycles hd hn).trans (dozed_cycles hs)
  dsimp only
  rw [hc]
  rcases Nat.eq_zero_or_pos s.skips with h0 | hpos
  · rw [h0]
    exact iff_of_true (fun k hk => by omega) (.inl rfl)
  · have hlt : (∀ k, s.cycles + k < s.cycles + s.skips → s.AsleepAfter k) ↔
        ∀ k < s.skips, s.AsleepAfter k :=
      forall_congr' fun k => imp_congr_left (by omega)
    rw [hlt, asleepAfter_iff hpos]
    constructor
    · rintro ⟨he, ht, hm⟩
      exact .inr ⟨he, ht, hm⟩
    · rintro (h0 | hr)
      · omega
      · exact ⟨hr.external, hr.tick, hr.short⟩

end Machine

namespace Machine

attribute [local instance] HostLib.plain

/-- `l.mtspr` to PMR while an interrupt line is up that no exception takes. -/
theorem doze_rests_fails : ∃ (m m' : Machine Memory) (s : Or1k Memory),
    system.Run (Memory.boot [(0x100, 0xa8600010#32), (0x104, 0xc1001800#32)]) m ∧
    m.next = some m' ∧ m.dozes .run = some s ∧ (s.sleep s.dozeSkip).1 = 0 ∧
      ¬∀ k, s.cycles + k < m'.cpu.cycles → s.AsleepAfter k := by
  obtain ⟨m, hr, hm⟩ := System.exists_run system
    (Memory.boot [(0x100, 0xa8600010#32), (0x104, 0xc1001800#32)])
    [.interrupt 0 true, .call 100#32, .run, .run]
    (fun m : Machine Memory => m.next.any fun m' : Machine Memory =>
      (m.dozes .run).any fun s : Or1k Memory =>
      decide ((s.sleep s.dozeSkip).1 = 0 ∧ s.cycles < m'.cpu.cycles ∧ s.isInterruptPending = true))
    (by decide +kernel)
  obtain ⟨m', hn, hm⟩ := (Option.any_eq_true _ _).1 hm
  obtain ⟨s, hd, hm⟩ := (Option.any_eq_true _ _).1 hm
  obtain ⟨hs, hlt, hp⟩ := of_decide_eq_true hm
  refine ⟨m, m', s, hr, hn, hd, hs, fun hall => ?_⟩
  exact nomatch hp.symm.trans (hall 0 hlt).external

/-- Going to sleep with the timer off and no interrupt pending. -/
theorem doze_rests_quiet : ∃ (m m' : Machine Memory) (s : Or1k Memory), m.dozes .run = some s ∧
    m.next = some m' ∧ s.cycles < m'.cpu.cycles ∧
      ∀ k, s.cycles + k < m'.cpu.cycles → s.AsleepAfter k := by
  obtain ⟨m, hr, hm⟩ := System.exists_run system
    (Memory.boot [(0x100, 0xa8600010#32), (0x104, 0xc1001800#32)]) [.call 100#32, .run, .run]
    (fun m : Machine Memory => m.next.any fun m' : Machine Memory =>
      (m.dozes .run).any fun s : Or1k Memory =>
      decide ((s.sleep s.dozeSkip).1 = 0 ∧ s.cycles < m'.cpu.cycles ∧
        s.isInterruptPending = false ∧ s.tick.irqPending = false ∧ s.tick.counting = false))
    (by decide +kernel)
  obtain ⟨m', hn, hm⟩ := (Option.any_eq_true _ _).1 hm
  obtain ⟨s, hd, hm⟩ := (Option.any_eq_true _ _).1 hm
  obtain ⟨hs, hlt, hp, ht, hc⟩ := of_decide_eq_true hm
  have hnext : (system (σ := Memory)).next m .run = some m' := hn
  obtain ⟨l, hl, hmem⟩ := hr.path_tail hnext
  refine ⟨m, m', s, hd, hn, hlt, (doze_rests hl _ hmem s hd hs).2 (.inr ⟨hp, ht, fun h => ?_⟩)⟩
  exact nomatch hc.symm.trans h

end Machine

end Or1kiss
