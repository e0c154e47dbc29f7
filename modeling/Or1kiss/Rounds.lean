import Or1kiss.Budget
import Or1kiss.Halted

/-!
# The rounds of the outer loop

A round of the outer loop of `advance` returns, or it has advanced the clock: its mini-quantum
executes an instruction. The exception are instructions with a breakpoint at or inside them
(`spansBreakpoint`), in front of which the mini-quantum is empty. Such a round returns only if the
program counter that it ends with is itself a breakpoint; otherwise nothing has changed for the next
round.
-/

namespace Or1kiss

open Host Bits Runs

variable {σ : Type}

namespace Or1k

variable {s x y : Or1k σ}

/-- A breakpoint lies at the instruction that is to come, or inside it. -/
def spansBreakpoint (s : Or1k σ) : Bool := s.breakpoints.any fun bp => decide ((bp - s.nextPc).toNat < 4)

theorem spansBreakpoint_iff : s.spansBreakpoint = true ↔ s.nextBreakpoint ≤ s.cycles := by
  unfold spansBreakpoint
  rw [List.any_eq_true]
  constructor
  · rintro ⟨bp, hm, hb⟩
    have hz : Distance.strides 4#32 s.nextPc bp = 0 := Nat.div_eq_of_lt (of_decide_eq_true hb)
    have hn := nextBreakpoint_le hm
    omega
  · intro h
    obtain ⟨bp, hm, hb⟩ := Machine.near_of_nextBreakpoint h
    exact ⟨bp, hm, decide_eq_true hb⟩

/-- The mini-quantum in front of an instruction that spans a breakpoint is empty, any other one is
not. -/
theorem miniLimit_le_iff (h : s.cycles < s.limit) : s.miniLimit ≤ s.cycles ↔ s.spansBreakpoint = true := by
  rw [spansBreakpoint_iff]
  exact ⟨Machine.nextBreakpoint_of_empty h, fun hb => Nat.le_trans miniLimit_le hb⟩

/-- The program counter with which a round ends: an interrupt that is accepted has moved it. -/
def settledPc (s : Or1k σ) : U32 :=
  if s.timerTicks then s.toCore.exceptionTarget .tickTimer
  else if s.isInterruptPending && s.isExtIrqEnabled then s.toCore.exceptionTarget .external
  else s.nextPc

theorem Accepted.target {e : ExType} (h : Accepted e s x) (hs : Steady s x) :
    x.nextPc = s.toCore.exceptionTarget e := by
  rw [h.nextPc]
  exact Core.exceptionTarget_congr hs.evba hs.eph

theorem endMini_nextPc : s.timerUpdated.externalChecked.nextPc = s.settledPc := by
  unfold settledPc
  split <;> rename_i ht
  · have ha := timerUpdated_accepts ht
    rcases externalChecked_cases (s := s.timerUpdated) with he | he
    · rw [he]
      exact ha.target timerUpdated_steady
    · have hm := masked_of_handlerMode ha.mode (e := .external) rfl
      rw [he.enabled] at hm
      cases hm
  · have hi := timerUpdated_ignores (eq_false_of_ne_true ht)
    have hs := timerUpdated_steady (s := s)
    have hsame : (s.timerUpdated.isInterruptPending && s.timerUpdated.isExtIrqEnabled) =
        (s.isInterruptPending && s.isExtIrqEnabled) := by
      unfold Core.isInterruptPending Core.isExtIrqEnabled
      rw [hs.picSr, hs.picMr, hi.status]
    rw [← hsame]
    split <;> rename_i he
    · rw [(externalChecked_accepts he).target externalChecked_steady]
      exact Core.exceptionTarget_congr hs.evba hs.eph
    · rw [externalChecked_of_masked (eq_false_of_ne_true he), hi.nextPc]

/-! ## The clock and its limit -/

/-- The clock and its limit have moved forward, and there is no more left of the quantum. -/
structure Forward (s x : Or1k σ) : Prop where
  cycles : s.cycles ≤ x.cycles
  limit : s.limit ≤ x.limit
  budget : x.limit + s.cycles ≤ x.cycles + s.limit

theorem Paced.forward (h : Paced s x) : Forward s x := by
  have hc := h.cycles
  have hl := h.limit
  exact ⟨hc, by omega, by omega⟩

theorem Forward.trans (h : Forward s x) (h' : Forward x y) : Forward s y := by
  have hb := h.budget
  have hb' := h'.budget
  exact ⟨Nat.le_trans h.cycles h'.cycles, Nat.le_trans h.limit h'.limit, by omega⟩

theorem Forward.of_limit (hc : s.cycles ≤ x.cycles) (hl : x.limit = s.limit) : Forward s x :=
  ⟨hc, Nat.le_of_eq hl.symm, by omega⟩

theorem Forward.budget_le (h : Forward s x) : x.budget ≤ s.budget := by
  have hb := h.budget
  unfold Or1k.budget
  omega

variable [EnvImpl σ]

/-- Sleeping uses up the quantum. -/
theorem dozed_forward : Forward s s.dozed := by
  have hsleep : Forward s (s.sleep s.dozeSkip).2 := .of_limit (Nat.le_refl _) rfl
  unfold dozed
  split
  · exact .of_limit (Nat.le_refl _) rfl
  · refine hsleep.trans ?_
    dsimp only
    split
    · -- the port slept, and the limit has moved along
      refine (Paced.mk (Nat.le_add_right _ _) ?_).forward
      exact (Nat.add_right_comm _ _ _).trans (Nat.add_assoc _ _ _)
    · have hskip : Forward (s.sleep s.dozeSkip).2 ((s.sleep s.dozeSkip).2.skipCycles s.dozeSkip) :=
        .of_limit (Nat.le_add_right _ _) rfl
      exact hskip.trans timerUpdated_paced.forward

variable [HostLib]

theorem fetchExecute_forward (h : s.fetchExecute = .ok x) (hx : x.stopRequested = false) :
    Forward s x := by
  by_cases hm : ∃ reg val f, s.mtspr = some (reg, val, f) ∧ reg = SpReg.pmr.num
  · obtain ⟨reg, val, f, hm, rfl⟩ := hm
    obtain ⟨hfi, hfe⟩ := mtspr_executed hm
    cases hfe.symm.trans h
    rw [regWritten_pmr]
    have hf : Paced s (f.requestBreak.withCore (f.requestBreak.toCore.writeReg .pmr val)) :=
      ⟨hfi.paced.cycles, hfi.paced.limit⟩
    exact hf.forward.trans dozed_forward
  · exact (fetchExecute_paced h hx fun reg val f hw hr => (hm ⟨reg, val, f, hw, hr⟩).elim).forward

end Or1k

/-! ## Rounds -/

namespace Machine

open Or1k

variable {m m' : Machine σ} {a : Action σ} {s g x : Or1k σ} {n : U32}

/-- The state at the head of the round, kept beside the machine. -/
def headAfter (g : Or1k σ) (st : Move (Machine σ) (Action σ)) : Or1k σ :=
  match st.pre.phase, st.act with
  | .outer, .run => st.pre.cpu
  | _, _ => g

/-- A round that comes to its end returns, or has advanced the clock. -/
def Progresses (st : Move (Machine σ × Or1k σ) (Action σ)) : Prop :=
  st.act.isRun = true → st.pre.1.phase = .drain →
    (∃ r, st.post.1.phase = .idle r) ∨ st.pre.2.cycles < st.post.1.cpu.cycles

/-- A round that began in front of an instruction that spans a breakpoint ends at a breakpoint. -/
def Stops (st : Move (Machine σ × Or1k σ) (Action σ)) : Prop :=
  st.act.isRun = true → st.pre.1.phase = .drain → st.pre.2.spansBreakpoint = true →
    st.pre.1.cpu.settledPc ∈ st.pre.1.cpu.breakpoints

/-- How far a round has come that began in the state `g`. -/
def InRound (s g : Or1k σ) : Phase → Prop
  | .inner limit => limit ≤ s.limit ∧ g.cycles ≤ s.cycles ∧
    if g.spansBreakpoint then limit ≤ s.cycles ∧ s.wpEvent.hit = false ∧ s.cycles = g.cycles
    else s.cycles = g.cycles → s.cycles < limit
  | .drain => if g.spansBreakpoint then s.wpEvent.hit = false ∧ s.cycles = g.cycles
    else g.cycles < s.cycles
  | _ => True

/-- A bound on the steps that are left of a call. -/
def remaining (s g : Or1k σ) : Phase → Nat
  | .idle _ => 0
  | .outer => 4 * s.budget + 1
  | .inner _ =>
    if g.spansBreakpoint then 2 else if s.cycles = g.cycles then 4 * s.budget else 4 * s.budget + 3
  | .drain => if g.spansBreakpoint then 1 else 4 * s.budget + 2

theorem inRound_interrupt (id : Fin 32) (set : Bool) (p : Phase) :
    (InRound (s.withCore (s.toCore.interrupt id set)) g p ↔ InRound s g p) ∧
      remaining (s.withCore (s.toCore.interrupt id set)) g p = remaining s g p := by
  have hsame : (s.withCore (s.toCore.interrupt id set)).cycles = s.cycles ∧
      (s.withCore (s.toCore.interrupt id set)).wpEvent = s.wpEvent := by
    obtain ⟨v, he⟩ := s.toCore.interrupt_eq id set
    rw [he]
    exact ⟨rfl, rfl⟩
  obtain ⟨hc, hw⟩ := hsame
  have hl : (s.withCore (s.toCore.interrupt id set)).limit = s.limit := rfl
  unfold InRound remaining Or1k.budget
  rw [hc, hw, hl]
  exact ⟨Iff.rfl, rfl⟩

/-- The end of a round in front of an instruction that spans a breakpoint. -/
theorem drained_spanned (hw : s.wpEvent.hit = false) :
    (∃ r, (drained s.timerUpdated.externalChecked).phase = .idle r) ↔
      s.settledPc ∈ s.breakpoints := by
  have hs := timerUpdated_steady.trans (externalChecked_steady (s := s.timerUpdated))
  have hb : s.timerUpdated.externalChecked.breakpointHit = true ↔ s.settledPc ∈ s.breakpoints := by
    unfold breakpointHit
    rw [hs.breakpoints, endMini_nextPc, List.any_eq_true]
    constructor
    · rintro ⟨bp, hm, he⟩
      rwa [← beq_iff_eq.1 he]
    · exact fun hm => ⟨_, hm, BEq.rfl⟩
  have hh : s.timerUpdated.externalChecked.wpEvent.hit = false := by
    rw [hs.wpEvent]
    exact hw
  rw [← hb]
  unfold drained
  rw [hh, if_neg Bool.false_ne_true]
  constructor
  · rintro ⟨r, hr⟩
    split at hr
    · assumption
    · cases hr
  · intro h
    rw [if_pos h]
    exact ⟨_, rfl⟩

/-- Behind a mini-quantum nothing is spent. -/
theorem drained_remaining (s g : Or1k σ) :
    InRound (drained s.timerUpdated.externalChecked).cpu g
        (drained s.timerUpdated.externalChecked).phase ∧
      remaining (drained s.timerUpdated.externalChecked).cpu g
        (drained s.timerUpdated.externalChecked).phase ≤ 4 * s.budget + 1 ∧
      (drained s.timerUpdated.externalChecked).cpu.cycles = s.cycles := by
  have hp := timerUpdated_paced.trans (externalChecked_paced (s := s.timerUpdated))
  have hc : s.timerUpdated.externalChecked.cycles = s.cycles := by
    rw [externalChecked_cycles]
    exact tickChecked_cycles
  have hb : s.timerUpdated.externalChecked.budget = s.budget := by
    have hl := hp.limit
    unfold Or1k.budget
    omega
  rw [drained_cpu, ← hb]
  refine ⟨?_, ?_, hc⟩
  · unfold drained
    split_ifs <;> exact trivial
  · unfold drained
    split_ifs
    · exact Nat.zero_le _
    · exact Nat.zero_le _
    · exact Nat.le_refl _

theorem drained_progresses {q' : Machine σ × Or1k σ} (h : InRound s g .drain)
    (hq : q'.1 = drained s.timerUpdated.externalChecked) :
    Progresses ⟨(⟨.drain, s⟩, g), .run, q'⟩ ↔ Stops ⟨(⟨.drain, s⟩, g), .run, q'⟩ := by
  have hcyc : q'.1.cpu.cycles = s.cycles := hq ▸ (drained_remaining s g).2.2
  cases hspan : g.spansBreakpoint with
  | false =>
    have hlt : g.cycles < s.cycles := by
      have hr : if g.spansBreakpoint then _ else g.cycles < s.cycles := h
      rwa [hspan] at hr
    exact ⟨fun _ _ _ hc => Bool.noConfusion (hspan.symm.trans hc), fun _ _ _ => .inr (hcyc ▸ hlt)⟩
  | true =>
    have hr : if g.spansBreakpoint then s.wpEvent.hit = false ∧ s.cycles = g.cycles else _ := h
    rw [hspan, if_pos rfl] at hr
    have hiff := drained_spanned hr.1
    rw [← hq] at hiff
    constructor
    · intro hp _ _ _
      rcases hp rfl rfl with hidle | hlt
      · exact hiff.1 hidle
      · have hlt : g.cycles < q'.1.cpu.cycles := hlt
        rw [hcyc, hr.2] at hlt
        exact absurd hlt (Nat.lt_irrefl _)
    · exact fun hs _ _ => .inl (hiff.2 (hs rfl rfl hspan))

theorem drained_stops {q' : Machine σ × Or1k σ} (h : InRound s g .drain)
    (hq : q'.1 = drained s.timerUpdated.externalChecked)
    (hs : Stops ⟨(⟨.drain, s⟩, g), .run, q'⟩) :
    remaining q'.1.cpu g q'.1.phase + 1 ≤ remaining s g .drain := by
  rw [hq]
  have hdrain : remaining s g .drain = if g.spansBreakpoint then 1 else 4 * s.budget + 2 := rfl
  rw [hdrain]
  cases hspan : g.spansBreakpoint with
  | false => exact Nat.succ_le_succ (drained_remaining s g).2.1
  | true =>
    have hr : if g.spansBreakpoint then s.wpEvent.hit = false ∧ s.cycles = g.cycles else _ := h
    rw [hspan, if_pos rfl] at hr
    obtain ⟨r, hidle⟩ := (drained_spanned hr.1).2 (hs rfl rfl hspan)
    rw [hidle]
    exact Nat.le_refl _

variable [EnvImpl σ] [HostLib]

/-- The system with the state at the head of the round beside it. -/
def rounds : System (Machine σ × Or1k σ) (Action σ) := system.watch headAfter

/-- An iteration has advanced the clock and used up a cycle of the budget. -/
theorem retired_remaining {limit : Nat} (h : s.beginCycle.fetchExecute = .ok x)
    (hlt : s.cycles < limit) (hlim : limit ≤ s.limit) (hg : g.cycles ≤ s.cycles)
    (hspan : g.spansBreakpoint = false) :
    InRound (retired limit x).cpu g (retired limit x).phase ∧
      remaining (retired limit x).cpu g (retired limit x).phase + 1 ≤ 4 * s.budget := by
  have hpos : 1 ≤ s.budget := by
    unfold Or1k.budget
    omega
  cases hstop : x.stopRequested with
  | true =>
    rw [retired_stopped hstop]
    exact ⟨trivial, by show 0 + 1 ≤ _; omega⟩
  | false =>
    have hf : Forward s.beginCycle (retired limit x).cpu :=
      (fetchExecute_forward h hstop).trans (retired_paced limit x).forward
    have hc : s.cycles + 1 ≤ (retired limit x).cpu.cycles := hf.cycles
    have hl : s.limit ≤ (retired limit x).cpu.limit := hf.limit
    have hb : (retired limit x).cpu.limit + (s.cycles + 1) ≤ (retired limit x).cpu.cycles + s.limit :=
      hf.budget
    have hbud : (retired limit x).cpu.budget + 1 ≤ s.budget := by
      unfold Or1k.budget at hpos ⊢
      omega
    have hne : (retired limit x).cpu.cycles ≠ g.cycles := by omega
    cases hp : (retired limit x).phase with
    | idle r => exact ⟨trivial, by show 0 + 1 ≤ _; omega⟩
    | outer =>
      unfold retired iterated at hp
      split at hp <;> cases hp
    | inner limit' =>
      have hle := (retired_inner hp).2
      unfold InRound remaining
      dsimp only
      rw [hspan, if_neg Bool.false_ne_true, if_neg Bool.false_ne_true, if_neg hne]
      exact ⟨⟨by omega, by omega, fun he => (hne he).elim⟩, by omega⟩
    | drain =>
      unfold InRound remaining
      dsimp only
      rw [hspan, if_neg Bool.false_ne_true, if_neg Bool.false_ne_true]
      exact ⟨by omega, by omega⟩

/-- One step of a round: at its end the round progresses if and only if it stops where it has to,
and every step then brings the call nearer to its end. -/
theorem round_step {q q' : Machine σ × Or1k σ} (hn : rounds.next q a = some q')
    (hin : a.inside = true) (h : InRound q.1.cpu q.2 q.1.phase) :
    InRound q'.1.cpu q'.2 q'.1.phase ∧ (Progresses ⟨q, a, q'⟩ ↔ Stops ⟨q, a, q'⟩) ∧
      (Stops ⟨q, a, q'⟩ → remaining q'.1.cpu q'.2 q'.1.phase + (if a.isRun then 1 else 0) ≤
        remaining q.1.cpu q.2 q.1.phase) := by
  obtain ⟨m, g⟩ := q
  obtain ⟨m', hm, rfl⟩ := System.watch_next hn
  have hno : m.phase ≠ .drain → ∀ q', Progresses ⟨(m, g), a, q'⟩ ↔ Stops ⟨(m, g), a, q'⟩ :=
    fun hp q' => ⟨fun _ _ hd => (hp hd).elim, fun _ _ hd => (hp hd).elim⟩
  dsimp only at h hm
  cases act_transition hm with
  | begin r s n => cases hin
  | mini s hlt =>
    refine ⟨?_, hno Phase.noConfusion _, fun _ => ?_⟩
    · show s.beginMini.miniLimit ≤ s.limit ∧ s.cycles ≤ s.cycles ∧ _
      refine ⟨miniLimit_le_limit, Nat.le_refl _, ?_⟩
      split <;> rename_i hspan
      · exact ⟨(miniLimit_le_iff hlt).2 hspan, rfl, rfl⟩
      · exact fun _ => Nat.lt_of_not_le fun hle => hspan ((miniLimit_le_iff hlt).1 hle)
    · have hpos : 0 < s.budget := Nat.sub_pos_of_lt hlt
      show (if s.spansBreakpoint then 2 else if s.cycles = s.cycles then 4 * s.budget else _) + 1 ≤
        4 * s.budget + 1
      rw [if_pos rfl]
      split <;> omega
  | finish s hlt =>
    exact ⟨trivial, hno Phase.noConfusion _, fun _ => Nat.le_add_left _ _⟩
  | iterate limit s x hlt hx =>
    obtain ⟨hlim, hg, hrest⟩ := h
    have hspan : g.spansBreakpoint = false := by
      by_contra hc
      rw [if_pos (by simpa using hc)] at hrest
      exact absurd hlt (Nat.not_lt.2 hrest.1)
    obtain ⟨hround, hrem⟩ := retired_remaining hx hlt hlim hg hspan
    refine ⟨hround, hno Phase.noConfusion _, fun _ => Nat.le_trans hrem ?_⟩
    unfold remaining
    dsimp only
    rw [hspan, if_neg Bool.false_ne_true]
    split <;> omega
  | throw limit s x hlt hx =>
    obtain ⟨hlim, hg, hrest⟩ := h
    refine ⟨trivial, hno Phase.noConfusion _, fun _ => ?_⟩
    have hpos : 0 < s.budget := Nat.sub_pos_of_lt (Nat.lt_of_lt_of_le hlt hlim)
    show 0 + 1 ≤ remaining s g (.inner limit)
    unfold remaining
    dsimp only
    split_ifs <;> omega
  | leave limit s hlt =>
    obtain ⟨hlim, hg, hrest⟩ := h
    have hle : limit ≤ s.cycles := Nat.le_of_not_lt hlt
    refine ⟨?_, hno Phase.noConfusion _, fun _ => ?_⟩
    · show if g.spansBreakpoint then _ else _
      split <;> rename_i hspan
      · rw [if_pos hspan] at hrest
        exact hrest.2
      · rw [if_neg hspan] at hrest
        exact Nat.lt_of_le_of_ne hg fun he => hlt (hrest he.symm)
    · show remaining s g .drain + 1 ≤ remaining s g (.inner limit)
      unfold remaining
      dsimp only
      split <;> rename_i hspan
      · exact Nat.le_refl _
      · rw [if_neg hspan] at hrest
        rw [if_neg fun he => hlt (hrest he)]
  | drain s =>
    obtain ⟨hround, -, -⟩ := drained_remaining s g
    exact ⟨hround, drained_progresses h rfl, drained_stops h rfl⟩
  | interrupt p s id set =>
    obtain ⟨hround, hrem⟩ := inRound_interrupt (s := s) (g := g) id set p
    have hh : ∀ m' : Machine σ, headAfter g ⟨⟨p, s⟩, .interrupt id set, m'⟩ = g := fun m' => by
      cases p <;> rfl
    rw [hh]
    exact ⟨hround.2 h, ⟨fun _ hr => Bool.noConfusion hr, fun _ hr => Bool.noConfusion hr⟩,
      fun _ => Nat.le_of_eq hrem⟩
  | outside r s s' a hout hs => cases hout.symm.trans (Action.isOutside_of_inside hin)

omit [HostLib] in
theorem began_budget_le (n : U32) (s : Or1k σ) : (began n s).budget ≤ n.toNat := by
  have hp := (externalChecked_paced (s := ({ s with limit := s.cycles + n.toNat } : Or1k σ))).forward
  have hb : (began n s).budget ≤ ({ s with limit := s.cycles + n.toNat } : Or1k σ).budget :=
    (hp.trans dozed_forward).budget_le
  refine Nat.le_trans hb ?_
  unfold Or1k.budget
  dsimp only
  omega

/-- In a call of `step(n)` every round that comes to its end returns or has advanced the clock, and
the call comes to its end within `4 * n + 1` steps of `advance`, if and only if every round that
began in front of an instruction that spans a breakpoint ends at a breakpoint. -/
theorem rounds_progress_iff {l : List (Move (Machine σ × Or1k σ) (Action σ))} {q : Machine σ × Or1k σ}
    (h : rounds.Path (⟨.outer, began n s⟩, began n s) l q) (hin : ∀ st ∈ l, st.act.inside = true) :
    ((∀ st ∈ l, Progresses st) ∧ l.countP (fun st => st.act.isRun) ≤ 4 * n.toNat + 1 ∧
      (q.1.next = none → (∃ r, q.1.phase = .idle r) ∨
        ∃ limit f, q.1.phase = .inner limit ∧ q.1.cpu.iterate limit = .fault f)) ↔
      ∀ st ∈ l, Stops st := by
  have hstart : InRound (began n s) (began n s) .outer := trivial
  have hl := (h.forall_of (P := fun q => InRound q.1.cpu q.2 q.1.phase)
    (C := fun st => st.act.inside = true)
    (R := fun st => (Progresses st ↔ Stops st) ∧ (Stops st →
      remaining st.post.1.cpu st.post.2 st.post.1.phase + (if st.act.isRun then 1 else 0) ≤
        remaining st.pre.1.cpu st.pre.2 st.pre.1.phase))
    (fun _ _ _ hn hin hp => round_step hn hin hp) hin hstart).2
  refine ⟨fun hp st hst => (hl st hst).1.1 (hp.1 st hst), fun hs => ⟨fun st hst =>
    (hl st hst).1.2 (hs st hst), ?_, next_eq_none⟩⟩
  have hcount := h.count_le (f := fun q => remaining q.1.cpu q.2 q.1.phase)
    (p := fun st => st.act.isRun) fun st hst => (hl st hst).2 (hs st hst)
  have hrem : remaining (began n s) (began n s) .outer = 4 * (began n s).budget + 1 := rfl
  have hbud := began_budget_le n s
  dsimp only at hcount
  omega

end Machine

namespace Machine

open Or1k

attribute [local instance] HostLib.plain

/-- With a breakpoint at the last byte of the instruction at the reset vector, a call for two cycles
goes on for ever. -/
theorem rounds_progress_fails : ∃ s : Or1k Memory, system.Run (Memory.boot []) ⟨.idle none, s⟩ ∧
    ∀ l m, system.Path ⟨.outer, began 2#32 s⟩ l m → (∀ st ∈ l, st.act.isRun = true) →
      m.next ≠ none := by
  obtain ⟨m, hr, hm⟩ := system.exists_run (Memory.boot []) [.insertBreakpoint 0x103#32]
    (fun m : Machine Memory => decide (m.phase = .idle none) && stuckAhead (began 2#32 m.cpu))
    (by decide +kernel)
  rw [Bool.and_eq_true] at hm
  have hm' : m = ⟨.idle none, m.cpu⟩ := by rw [← of_decide_eq_true hm.1]
  rw [hm'] at hr
  refine ⟨m.cpu, hr, fun l m' hpath hrun hnone => ?_⟩
  obtain ⟨m'', hn, -⟩ := (stuck_for_ever (stuck_of_ahead hm.2) hpath hrun).1.next
  cases hn.symm.trans hnone

/-- Two instructions up to the breakpoint at 0x108, and the round that returns there. -/
theorem rounds_progress_stops : ∃ (s : Or1k Memory)
    (l : List (Move (Machine Memory × Or1k Memory) (Action Memory))) (q : Machine Memory × Or1k Memory),
    rounds.Path (⟨.outer, began 5#32 s⟩, began 5#32 s) l q ∧
      q.1.phase = .idle (some .breakpoint) ∧
      (((∀ st ∈ l, Progresses st) ∧ l.countP (fun st => st.act.isRun) ≤ 4 * (5#32 : U32).toNat + 1 ∧
        (q.1.next = none → (∃ r, q.1.phase = .idle r) ∨
          ∃ limit f, q.1.phase = .inner limit ∧ q.1.cpu.iterate limit = .fault f)) ↔
        ∀ st ∈ l, Stops st) := by
  let s : Or1k Memory := (Memory.boot []).cpu.insertBreakpoint 0x108#32
  obtain ⟨q, hr, hq⟩ := rounds.exists_steps (fun _ a => a.inside)
    (⟨.outer, began 5#32 s⟩, began 5#32 s) [.run, .run, .run, .run, .run]
    (fun q => decide (q.1.phase = .idle (some .breakpoint))) (by decide +kernel)
  obtain ⟨l, hl, hok⟩ := hr.path_ok
  exact ⟨s, l, q, hl, of_decide_eq_true hq, rounds_progress_iff hl hok⟩

end Machine

end Or1kiss
