import Or1kiss.Breakpoint
import Or1kiss.Delivery

/-!
# The budget of a quantum

`step(n)` may spend `n` cycles, and every instruction spends one. What a memory access takes
besides is added to `m_limit` as well as to `m_cycles`, so that it does not count. A call then
makes exactly `n` iterations of the inner loop, and comes to its end, unless a breakpoint lies
between two instructions: `next_breakpoint` rounds its distance down, and the mini-quantum in front
of it is empty.
-/

namespace Or1kiss

open Host Bits Runs

variable {σ : Type}

/-! ## Charges -/

namespace Core

variable {c c' : Core σ} {ci : Instruction} {req : Request}

theorem entered_cycles (t : ExType) (addr : U32) : (c.entered t addr).cycles = c.cycles := by
  unfold entered
  split <;> rfl

theorem exception_cycles {t : ExType} {addr : U32} (h : c.exception t addr = .ok c') :
    c'.cycles = c.cycles := by
  obtain ⟨-, rfl⟩ | ⟨-, -, rfl⟩ := exception_ok h
  · rfl
  · exact entered_cycles t addr

theorem scheduleJump_cycles {target : U32} {delay : Nat} (h : c.scheduleJump target delay = .ok c') :
    c'.cycles = c.cycles := by
  obtain ⟨-, rfl⟩ | ⟨-, -, rfl⟩ := scheduleJump_cases h
  · rfl
  · exact entered_cycles _ _

theorem assign_cycles {op : Operand} {v : U32} (h : c.assign op v = .ok c') :
    c'.cycles = c.cycles := by
  obtain ⟨i, -, rfl⟩ := assign_ok h
  rfl

theorem checkWatchpoints_cycles : (c.checkWatchpoints req).cycles = c.cycles := by
  unfold checkWatchpoints
  split <;> rfl

section Effects

variable [EnvImpl σ]

/-- Without a memory access the clock stands still. -/
theorem Effects.cycles {ts : List ExType} (h : Effects false c ts c') : c'.cycles = c.cycles := by
  induction h with
  | refl => rfl
  | tail _ hs ih =>
    cases hs with
    | regs => exact ih
    | data hm | translate hm => cases hm
    | raise t addr aesr => exact (entered_cycles t addr).trans ih

theorem translateData_cycles : (c.translateData req).2.2.cycles = c.cycles := by
  unfold translateData
  split <;> rfl

/-- The clock has advanced by what the access reports to its caller. -/
def Charged (c : Core σ) (r : Access σ) : Prop := r.core.cycles = c.cycles + r.stall

omit [EnvImpl σ] in
theorem abort_charged {t : ExType} {r : Access σ} (h : c.abort t req = .ok r) : Charged c r := by
  obtain ⟨c1, h1, rfl⟩ := Outcome.lift_eq_ok.1 h
  exact exception_cycles h1

omit [EnvImpl σ] in
theorem complete_charged : Charged c (c.complete req) := by
  unfold complete
  split <;> rfl

theorem send_charged {r : Access σ} (h : c.send req = .ok r) : Charged c r := by
  simp only [send] at h
  split at h
  · have ha := abort_charged h
    exact ha
  · split at h
    · cases h
    · cases h
      exact complete_charged (c := clearFlag _ SR.F)
  · cases h
    refine (complete_charged (c := ite _ _ _)).trans (congrArg (· + _) ?_)
    split <;> rfl

theorem transact_charged {r : Access σ} (h : c.transact req = .ok r) : Charged c r := by
  unfold transact at h
  dsimp only at h
  have hw : (c.checkWatchpoints (c.dataRequest req)).cycles = c.cycles := checkWatchpoints_cycles
  unfold Charged
  rw [← hw]
  split at h
  · exact abort_charged h
  · unfold translateSend at h
    have ht : ((c.checkWatchpoints (c.dataRequest req)).translateData (c.dataRequest req)).2.2.cycles =
        (c.checkWatchpoints (c.dataRequest req)).cycles := translateData_cycles
    split at h <;> rename_i he <;> rw [he] at ht <;> rw [← ht]
    · exact abort_charged h
    · exact abort_charged h
    · exact send_charged h

theorem executeMem_charged {e : MemExec} {n : Nat} (h : c.executeMem e ci = .ok (n, c')) :
    c'.cycles = c.cycles + n := by
  obtain ⟨_, _, _, _, _, he⟩ := executeMem_eq c ci e
  rw [he] at h
  obtain ⟨i, req, he⟩ := accessMemory_eq (by rw [h]; simp)
  obtain ⟨r, hr, hc⟩ := Outcome.lift_eq_ok.1 (he.symm.trans h)
  obtain ⟨rfl, rfl⟩ := Prod.mk.inj hc
  have hch : r.core.cycles = c.cycles + r.stall := transact_charged hr
  rw [← hch]
  split <;> rfl

theorem execute_cycles [HostLib] {e : CoreExec} (he : ci.exec = some (.core e))
    (h : c.execute e ci = .ok c') : c'.cycles = c.cycles := by
  by_cases hj : e.isJump = true
  · obtain ⟨-, rfl⟩ | ⟨target, r, -, -, hs⟩ := execute_jump hj h
    · rfl
    · have hc := scheduleJump_cycles hs
      exact hc
  · obtain ⟨ts, hts, -⟩ := execute_raised (m := false) he (eq_false_of_ne_true hj) h
    exact hts.cycles

end Effects

end Core

/-! ## Pace -/

namespace Or1k

variable {s f x y : Or1k σ} {ci : Instruction} {reg val : U32}

/-- What is left of the quantum. -/
def budget (s : Or1k σ) : Nat := s.limit - s.cycles

/-- The limit has moved along with the clock. -/
structure Paced (s x : Or1k σ) : Prop where
  cycles : s.cycles ≤ x.cycles
  limit : x.cycles + s.limit = s.cycles + x.limit

theorem Paced.of_eq (hc : x.cycles = s.cycles) (hl : x.limit = s.limit) : Paced s x :=
  ⟨Nat.le_of_eq hc.symm, by rw [hc, hl]⟩

theorem Paced.refl (s : Or1k σ) : Paced s s := .of_eq rfl rfl

theorem Paced.trans (h : Paced s x) (h' : Paced x y) : Paced s y := by
  have hl := h.limit
  have hl' := h'.limit
  exact ⟨Nat.le_trans h.cycles h'.cycles, by omega⟩

theorem externalChecked_paced : Paced s s.externalChecked :=
  .of_eq Machine.externalChecked_cycles externalChecked_limit

theorem timerUpdated_paced : Paced s s.timerUpdated := .of_eq tickChecked_cycles tickChecked_limit

theorem nop_paced [HostLib] (h : s.executeOrbis32Nop ci = .ok x) (hx : x.stopRequested = false) :
    Paced s x := by
  obtain ⟨rfl, -⟩ | ⟨rfl, -⟩ | ⟨c, rfl, ⟨g, t, a, b, rfl⟩, -⟩ := nop_ok h
  · cases hx
  · exact .of_eq rfl rfl
  · exact .of_eq rfl rfl

variable [EnvImpl σ]

/-- A register other than PMR. -/
theorem regWritten_paced (hp : reg ≠ SpReg.pmr.num) : Paced s (s.regWritten reg val) := by
  refine .of_eq (regWritten_write hp val).cycles ?_
  unfold regWritten
  cases hr : SpReg.ofNum reg with
  | none =>
    cases SprFile.ofNum reg.toNat with
    | none => rfl
    | some f => rfl
  | some r =>
    cases r with
    | pmr => exact (hp (SpReg.num_of_ofNum hr)).elim
    | _ => rfl

theorem rfe_paced (h : s.executeOrbis32Rfe ci = .ok x) : Paced s x := by
  obtain ⟨c, hc, rfl⟩ := rfe_ok h
  refine .of_eq ?_ ?_
  · refine .trans ?_ (Core.scheduleJump_cycles hc)
    unfold rfeRestored
    split <;> rfl
  · unfold rfeRestored
    split <;> rfl

variable [HostLib]

/-- The limit takes over the stall cycles of a memory access. -/
theorem execute_paced (h : s.execute ci = .ok x) (hm : ci.exec ≠ some .mtspr)
    (hx : x.stopRequested = false) : Paced s x := by
  simp only [execute] at h
  split at h
  · cases h
  · rename_i e he
    obtain ⟨c, hc, rfl⟩ := onCore_eq_ok.1 h
    exact .of_eq (Core.execute_cycles he hc) rfl
  · rename_i e he
    obtain ⟨⟨stall, s1⟩, h1, h⟩ := Outcome.bind_eq_ok.1 h
    obtain ⟨_, c, hc, h2⟩ := liftCore_eq_ok.1 h1
    cases h2
    cases h
    have hch := Core.executeMem_charged hc
    refine ⟨?_, ?_⟩
    · show s.cycles ≤ c.cycles
      omega
    · show c.cycles + s.limit = s.cycles + (s.limit + stall)
      omega
  · obtain ⟨c, hc, rfl⟩ := onCore_eq_ok.1 h
    obtain ⟨a, -, ha⟩ := Outcome.bind_eq_ok.1 hc
    exact .of_eq (Core.assign_cycles ha) rfl
  · rename_i he
    exact (hm he).elim
  · exact nop_paced h hx
  · exact rfe_paced h

omit [EnvImpl σ] [HostLib] in
theorem FetchedInsn.paced (h : FetchedInsn s f) : Paced s f :=
  .of_eq (congrArg (·.cycles) h.eq) (congrArg (·.limit) h.eq)

/-- An instruction that neither exits nor sleeps. -/
theorem fetchExecute_paced (h : s.fetchExecute = .ok x) (hx : x.stopRequested = false)
    (hd : ∀ reg val f, s.mtspr = some (reg, val, f) → reg = SpReg.pmr.num →
      (f.requestBreak.withCore (f.requestBreak.toCore.writeReg .pmr val)).sleepy = false) :
    Paced s x := by
  cases hm : s.mtspr with
  | some w =>
    obtain ⟨reg, val, f⟩ := w
    obtain ⟨hfi, hfe⟩ := mtspr_executed hm
    cases hfe.symm.trans h
    refine hfi.paced.trans ?_
    by_cases hp : reg = SpReg.pmr.num
    · have hz := hd reg val f hm hp
      subst hp
      rw [regWritten_pmr, dozed_of_not_sleepy hz]
      exact .of_eq rfl rfl
    · have hw : Paced f.requestBreak (f.requestBreak.regWritten reg val) := regWritten_paced hp
      exact ⟨hw.cycles, hw.limit⟩
  | none =>
    obtain ⟨ci, f, hf, hfi, he⟩ | ⟨hf, b, c, hfb, ⟨t, addr, -, -, rfl⟩, rfl⟩ := fetchExecute_ok h
    · refine hfi.paced.trans ?_
      by_cases hmt : ci.exec = some .mtspr
      · cases executed_denied hf hmt he hm
        exact .of_eq rfl rfl
      · have hex : f.execute ci = .ok x := (fetchExecute_of_fetch hf).symm.trans h
        exact execute_paced hex hmt hx
    · obtain ⟨_, _, _, _, _, _, -, rfl⟩ := hfb
      exact .of_eq (Core.entered_cycles t addr) rfl

end Or1k

/-! ## The iterations of a call -/

/-- A call that is in such a phase has not been ended early. -/
def Phase.ordinary : Phase → Bool
  | .idle r => r == some .ok
  | _ => true

def Action.isRun : Action σ → Bool
  | .run => true
  | _ => false

namespace Machine

open Or1k

variable {m m' : Machine σ} {a : Action σ} {s x y : Or1k σ} {n : U32}

/-- The step makes an iteration of the inner loop. -/
def iterates (st : Move (Machine σ) (Action σ)) : Bool := st.act.isRun && st.pre.executes

/-- The clock is inside the quantum. -/
structure Within (m : Machine σ) : Prop where
  cycles : m.cpu.cycles ≤ m.cpu.limit
  inner : ∀ limit, m.phase = .inner limit → limit ≤ m.cpu.limit

/-- A requested stop ends the call. -/
theorem retired_stopped {limit : Nat} (hs : x.stopRequested = true) :
    (retired limit x).phase = .idle (some .exit) := by
  have ha : x.retire.after = .exit := if_pos hs
  unfold retired iterated
  rw [ha]

theorem retired_ordinary {limit : Nat} (h : (retired limit x).phase.ordinary = true) :
    x.stopRequested = false := by
  cases hs : x.stopRequested with
  | false => rfl
  | true =>
    rw [retired_stopped hs] at h
    cases h

theorem retired_paced (limit : Nat) (x : Or1k σ) : Paced x (retired limit x).cpu := by
  rw [retired_cpu]
  unfold redirect
  split <;> exact .of_eq rfl rfl

theorem interrupt_paced (id : Fin 32) (set : Bool) :
    Paced s (s.withCore (s.toCore.interrupt id set)) := by
  refine .of_eq ?_ rfl
  show (s.toCore.interrupt id set).cycles = s.cycles
  obtain ⟨v, he⟩ := s.toCore.interrupt_eq id set
  rw [he]

/-- A step that is no iteration stays within the quantum, and spends nothing. -/
theorem Within.paced (h : Within m) (hp : Paced m.cpu m'.cpu)
    (hi : ∀ limit, m'.phase = .inner limit → limit ≤ m.cpu.limit) :
    Within m' ∧ m'.cpu.budget = m.cpu.budget := by
  have hc := h.cycles
  have h1 := hp.cycles
  have h2 := hp.limit
  refine ⟨⟨by omega, fun limit hl => ?_⟩, by unfold budget; omega⟩
  have := hi limit hl
  omega

/-! ## The end of a call -/

/-- An empty mini-quantum is in front of a breakpoint less than one instruction ahead. -/
theorem near_of_nextBreakpoint (h : s.nextBreakpoint ≤ s.cycles) :
    ∃ bp ∈ s.breakpoints, (bp - s.nextPc).toNat < 4 := by
  have hf : ∀ l : List U32,
      l.foldr (fun bp next => min next ((bp - s.nextPc).toNat / 4)) 0xffffffff = 0 →
        ∃ bp ∈ l, (bp - s.nextPc).toNat < 4 := by
    intro l
    induction l with
    | nil => intro h; cases h
    | cons b l ih =>
      intro h
      rcases Nat.min_eq_zero_iff.1 h with h | h
      · obtain ⟨bp, hb, hlt⟩ := ih h
        exact ⟨bp, List.mem_cons_of_mem b hb, hlt⟩
      · exact ⟨b, List.mem_cons_self, by omega⟩
  apply hf
  unfold nextBreakpoint at h
  omega

theorem nextBreakpoint_of_empty (h : s.cycles < s.limit) (he : s.miniLimit ≤ s.cycles) :
    s.nextBreakpoint ≤ s.cycles := by
  have ht := s.tick.nextTick_pos
  unfold miniLimit at he
  dsimp only at he
  split at he <;> omega

/-- A breakpoint lies behind the instruction that is to come, and before the next one. -/
def betweenInsns (s : Or1k σ) : Bool :=
  s.breakpoints.any fun bp => bp != s.nextPc && decide ((bp - s.nextPc).toNat < 4)

/-- `advance` goes on with a mini-quantum in front of a breakpoint between two instructions. -/
def blocked (m : Machine σ) : Bool :=
  match m.phase with
  | .outer => decide (m.cpu.cycles < m.cpu.limit) && betweenInsns m.cpu
  | _ => false

theorem hit_of_empty (h : s.cycles < s.limit) (he : s.miniLimit ≤ s.cycles)
    (hb : betweenInsns s = false) : s.breakpointHit = true := by
  obtain ⟨bp, hm, hlt⟩ := near_of_nextBreakpoint (nextBreakpoint_of_empty h he)
  have hn := List.any_eq_false.1 hb bp hm
  have he : bp = s.nextPc := by
    by_contra hne
    exact hn (by rw [Bool.and_eq_true, bne_iff_ne]; exact ⟨hne, decide_eq_true hlt⟩)
  exact List.any_eq_true.2 ⟨bp, hm, beq_iff_eq.2 he⟩

/-- One, as long as an interrupt may be accepted. -/
def alert (s : Or1k σ) : Nat := if s.isExtIrqEnabled || s.isTickIrqEnabled then 1 else 0

/-- What is left to do behind a mini-quantum. A breakpoint ends the call, unless an interrupt is
accepted. -/
def rest (s : Or1k σ) : Nat :=
  if s.breakpointHit then (if alert s = 0 then 0 else 7 * s.budget + 1)
  else 7 * s.budget + 3 * alert s + 1

/-- A bound on the steps that `advance` has left to do. -/
def effort (m : Machine σ) : Nat :=
  match m.phase with
  | .idle _ => 0
  | .outer => 7 * m.cpu.budget + 3 * alert m.cpu + 1
  | .inner limit =>
    if m.cpu.cycles < limit then 7 * m.cpu.budget + 3 * alert m.cpu else rest m.cpu + 2
  | .drain => rest m.cpu + 1

theorem alert_le (s : Or1k σ) : alert s ≤ 1 := by
  unfold alert
  split <;> decide

theorem rest_le (s : Or1k σ) : rest s ≤ 7 * s.budget + 4 := by
  have := alert_le s
  unfold rest
  split_ifs <;> omega

theorem alert_interrupt (id : Fin 32) (set : Bool) :
    alert (s.withCore (s.toCore.interrupt id set)) = alert s ∧
      (s.withCore (s.toCore.interrupt id set)).breakpointHit = s.breakpointHit := by
  obtain ⟨v, he⟩ := s.toCore.interrupt_eq id set
  rw [he]
  exact ⟨rfl, rfl⟩

/-- Behind a mini-quantum an interrupt is accepted at most once, and none is enabled any more. -/
theorem effort_drained (hp : Paced s y) (hs : Steady s y) (h : Ignored s y ∨ ∃ e, Accepted e s y)
    (ho : (drained y).phase.ordinary = true) : effort (drained y) ≤ rest s := by
  have hb : y.budget = s.budget := by
    have h1 := hp.limit
    unfold budget
    omega
  have hy : y.breakpointHit = false ∧ effort (drained y) = 7 * s.budget + 3 * alert y + 1 := by
    unfold drained at ho ⊢
    split_ifs at ho ⊢ with h1 h2
    · cases ho
    · cases ho
    · exact ⟨eq_false_of_ne_true h1, by rw [← hb]; rfl⟩
  obtain ⟨hny, he⟩ := hy
  rw [he]
  unfold rest
  rcases h with hi | ⟨e, ha⟩
  · have hsame : s.breakpointHit = y.breakpointHit := by
      unfold breakpointHit
      rw [hs.breakpoints, hi.nextPc]
    have halert : alert y = alert s := by
      unfold alert Core.isExtIrqEnabled Core.isTickIrqEnabled
      rw [hi.status]
    rw [hsame, hny, if_neg Bool.false_ne_true, halert]
  · have halert : alert y = 0 := by
      have hx := masked_of_handlerMode ha.mode (e := .external) rfl
      have ht := masked_of_handlerMode ha.mode (e := .tickTimer) rfl
      unfold Core.masked at hx ht
      unfold alert
      simp_all
    have halert' : alert s = 1 := by
      have hen := ha.enabled
      have hasync := ha.async
      unfold alert
      cases e <;> simp_all [Core.masked, ExType.isAsync]
    rw [halert, halert', if_neg Nat.one_ne_zero]
    split <;> omega

/-! ## Steps -/

variable [EnvImpl σ] [HostLib]

/-- No step sleeps. -/
def awake (st : Move (Machine σ) (Action σ)) : Bool := (st.pre.dozes st.act).all (!·.sleepy)

omit [HostLib] in
/-- The `l.mtspr` of such a step does not sleep. -/
theorem awake_mtspr {reg val : U32} {f : Or1k σ} (ha : awake ⟨m, .run, m'⟩ = true)
    (hx : m.executes = true) (hw : m.cpu.beginCycle.mtspr = some (reg, val, f))
    (hreg : reg = SpReg.pmr.num) :
    (f.requestBreak.withCore (f.requestBreak.toCore.writeReg .pmr val)).sleepy = false := by
  unfold awake dozes mtspr at ha
  dsimp only at ha
  rw [if_pos hx, hw] at ha
  dsimp only at ha
  rw [if_pos hreg] at ha
  simpa using ha

/-- An iteration spends one cycle of the budget, whatever the memory charges; nothing else does. -/
theorem step_budget (hn : m.act a = some m') (hin : a.inside = true)
    (ha : awake ⟨m, a, m'⟩ = true) (ho : m'.phase.ordinary = true) (h : Within m) :
    Within m' ∧ m'.cpu.budget + (if iterates ⟨m, a, m'⟩ then 1 else 0) = m.cpu.budget := by
  have hquiet : iterates ⟨m, a, m'⟩ = false → Paced m.cpu m'.cpu →
      (∀ limit, m'.phase = .inner limit → limit ≤ m.cpu.limit) →
      Within m' ∧ m'.cpu.budget + (if iterates ⟨m, a, m'⟩ then 1 else 0) = m.cpu.budget := by
    intro hit hp hi
    rw [hit, if_neg Bool.false_ne_true]
    exact h.paced hp hi
  cases act_transition hn with
  | begin r s n => cases hin
  | mini s hlt =>
    refine hquiet rfl (.of_eq rfl rfl) fun limit hl => ?_
    cases hl
    exact miniLimit_le_limit
  | finish s hlt => exact hquiet rfl (.refl s) fun limit hl => Phase.noConfusion hl
  | iterate limit s x hlt hx =>
    have hex : (⟨.inner limit, s⟩ : Machine σ).executes = true := decide_eq_true hlt
    have hit : iterates ⟨⟨.inner limit, s⟩, .run, retired limit x⟩ = true := hex
    have hp : Paced s.beginCycle (retired limit x).cpu :=
      (fetchExecute_paced hx (retired_ordinary ho) fun _ _ _ hw hreg =>
        awake_mtspr ha hex hw hreg).trans (retired_paced limit x)
    have hle : limit ≤ s.limit := h.inner limit rfl
    have h1 : s.cycles + 1 ≤ (retired limit x).cpu.cycles := hp.cycles
    have h2 : (retired limit x).cpu.cycles + s.limit = s.cycles + 1 + (retired limit x).cpu.limit :=
      hp.limit
    refine ⟨⟨by omega, fun limit' hl => ?_⟩, ?_⟩
    · have := (retired_inner hl).2
      omega
    · rw [hit, if_pos rfl]
      unfold budget
      dsimp only
      omega
  | throw limit s x hlt hx => cases ho
  | leave limit s hlt =>
    have hit : iterates ⟨⟨.inner limit, s⟩, .run, ⟨.drain, s⟩⟩ = false := decide_eq_false hlt
    exact hquiet hit (.refl s) fun limit hl => Phase.noConfusion hl
  | drain s =>
    refine hquiet rfl ?_ fun limit hl => ?_
    · rw [drained_cpu]
      exact timerUpdated_paced.trans externalChecked_paced
    · unfold drained at hl
      split_ifs at hl
  | interrupt p s id set => exact hquiet rfl (interrupt_paced id set) h.inner
  | outside r s s' a hout hs => cases hout.symm.trans (Action.isOutside_of_inside hin)

/-- Every step of `advance` brings the call nearer to its end, where no breakpoint blocks it. -/
theorem step_effort (hn : m.act a = some m') (hin : a.inside = true)
    (ha : awake ⟨m, a, m'⟩ = true) (ho : m'.phase.ordinary = true) (hb : m.blocked = false)
    (h : Within m) : effort m' + (if a.isRun then 1 else 0) ≤ effort m := by
  have hbud := (step_budget hn hin ha ho h).2
  cases act_transition hn with
  | begin r s n => cases hin
  | mini s hlt =>
    show effort ⟨.inner s.beginMini.miniLimit, s.beginMini⟩ + 1 ≤ 7 * s.budget + 3 * alert s + 1
    have hpos : 0 < s.budget := Nat.sub_pos_of_lt hlt
    have halert := alert_le s
    by_cases hlim : s.cycles < s.miniLimit
    · have he : effort ⟨.inner s.beginMini.miniLimit, s.beginMini⟩ = 7 * s.budget + 3 * alert s :=
        if_pos hlim
      omega
    · have hbetween : betweenInsns s = false := by
        unfold blocked at hb
        dsimp only at hb
        rwa [decide_eq_true hlt, Bool.true_and] at hb
      have hhit := hit_of_empty hlt (Nat.le_of_not_lt hlim) hbetween
      have he : effort ⟨.inner s.beginMini.miniLimit, s.beginMini⟩ = rest s + 2 := if_neg hlim
      have hr : rest s = if alert s = 0 then 0 else 7 * s.budget + 1 := if_pos hhit
      rw [he, hr]
      split_ifs <;> omega
  | finish s hlt => exact Nat.le_add_left _ _
  | iterate limit s x hlt hx =>
    have hex : (⟨.inner limit, s⟩ : Machine σ).executes = true := decide_eq_true hlt
    have hit : iterates ⟨⟨.inner limit, s⟩, .run, retired limit x⟩ = true := hex
    rw [hit, if_pos rfl] at hbud
    have he : effort ⟨.inner limit, s⟩ = 7 * s.budget + 3 * alert s := if_pos hlt
    have hr := rest_le (retired limit x).cpu
    have halert := alert_le (retired limit x).cpu
    have hpost : effort (retired limit x) ≤ 7 * (retired limit x).cpu.budget + 6 := by
      unfold effort
      split
      · omega
      · rename_i hp
        unfold retired iterated at hp
        split at hp <;> cases hp
      · split_ifs <;> omega
      · omega
    have hbud : (retired limit x).cpu.budget + 1 = s.budget := hbud
    rw [he]
    show effort (retired limit x) + 1 ≤ _
    omega
  | throw limit s x hlt hx => cases ho
  | leave limit s hlt =>
    have he : effort ⟨.inner limit, s⟩ = rest s + 2 := if_neg hlt
    rw [he]
    exact Nat.le_refl _
  | drain s =>
    exact Nat.succ_le_succ (effort_drained (timerUpdated_paced.trans externalChecked_paced)
      (timerUpdated_steady.trans externalChecked_steady) endMini_cases ho)
  | interrupt p s id set =>
    obtain ⟨h1, h2⟩ := alert_interrupt (s := s) id set
    have hp := interrupt_paced (s := s) id set
    have hlim : (s.withCore (s.toCore.interrupt id set)).limit = s.limit := rfl
    have hc : (s.withCore (s.toCore.interrupt id set)).cycles = s.cycles := by
      have := hp.limit
      omega
    have hbud : (s.withCore (s.toCore.interrupt id set)).budget = s.budget := by
      unfold budget
      rw [hlim, hc]
    have hr : rest (s.withCore (s.toCore.interrupt id set)) = rest s := by
      unfold rest
      rw [h1, h2, hbud]
    refine Nat.le_of_eq ?_
    show effort ⟨p, s.withCore (s.toCore.interrupt id set)⟩ = effort ⟨p, s⟩
    unfold effort
    dsimp only
    rw [h1, hbud, hr, hc]
  | outside r s s' a hout hs => cases hout.symm.trans (Action.isOutside_of_inside hin)

/-- A call returns STEP_OK when its budget is spent. -/
theorem step_spent (hn : m.act a = some m') (hin : a.inside = true)
    (h : m.phase = .idle (some .ok) → m.cpu.budget = 0) :
    m'.phase = .idle (some .ok) → m'.cpu.budget = 0 := by
  cases act_transition hn with
  | begin r s n => cases hin
  | finish s hlt => exact fun _ => Nat.sub_eq_zero_of_le (Nat.le_of_not_lt hlt)
  | iterate limit s x hlt hx =>
    intro hp
    unfold retired iterated at hp
    split at hp <;> cases hp
  | drain s =>
    intro hp
    unfold drained at hp
    split_ifs at hp <;> cases hp
  | interrupt p s id set =>
    intro hp
    have hb := h hp
    have hc := (interrupt_paced (s := s) id set).limit
    have hl : (s.withCore (s.toCore.interrupt id set)).limit = s.limit := rfl
    unfold budget at hb ⊢
    dsimp only at hb ⊢
    omega
  | outside r s s' a hout hs => cases hout.symm.trans (Action.isOutside_of_inside hin)
  | _ => exact fun hp => by cases hp

/-- Where `advance` cannot go on it has returned, or the host has stopped it. -/
theorem next_eq_none (h : m.next = none) :
    (∃ r, m.phase = .idle r) ∨ ∃ limit f, m.phase = .inner limit ∧ m.cpu.iterate limit = .fault f := by
  obtain ⟨p, s⟩ := m
  cases p with
  | idle r => exact .inl ⟨r, rfl⟩
  | outer =>
    unfold next at h
    dsimp only at h
    split at h <;> cases h
  | inner limit =>
    unfold next at h
    dsimp only at h
    split at h
    · cases hi : s.iterate limit with
      | ok r => rw [hi] at h; cases h
      | throw x => rw [hi] at h; cases h
      | fault f => exact .inr ⟨limit, f, rfl, hi⟩
    · cases h
  | drain =>
    unfold next at h
    dsimp only at h
    rw [endMini_eq] at h
    cases h

/-- A stretch of `step(n)`, called in the state `s`, that does not sleep and is not ended early. -/
structure During (n : U32) (s : Or1k σ) (l : List (Move (Machine σ) (Action σ))) (m : Machine σ) :
    Prop where
  path : system.Path ⟨.outer, began n s⟩ l m
  inside : ∀ st ∈ l, st.act.inside = true
  begins : ({ s with limit := s.cycles + n.toNat }.externalChecked).sleepy = false
  awake : ∀ st ∈ l, awake st = true
  goes : ∀ st ∈ l, st.post.phase.ordinary = true

variable {l : List (Move (Machine σ) (Action σ))}

omit [HostLib] in
theorem began_budget
    (h : ({ s with limit := s.cycles + n.toNat }.externalChecked).sleepy = false) :
    Within ⟨.outer, began n s⟩ ∧ (began n s).budget = n.toNat := by
  have hb : began n s = ({ s with limit := s.cycles + n.toNat } : Or1k σ).externalChecked :=
    dozed_of_not_sleepy h
  have hp := externalChecked_paced (s := ({ s with limit := s.cycles + n.toNat } : Or1k σ))
  rw [← hb] at hp
  have h1 : s.cycles ≤ (began n s).cycles := hp.cycles
  have h2 : (began n s).cycles + (s.cycles + n.toNat) = s.cycles + (began n s).limit := hp.limit
  refine ⟨⟨by dsimp only; omega, fun limit hl => Phase.noConfusion hl⟩, ?_⟩
  unfold budget
  omega

/-- A call of `step(n)` that is not ended early and does not sleep makes `n` iterations of the inner
loop, each of which takes one cycle from its budget, and it comes to its end, as long as no
mini-quantum is in front of a breakpoint between two instructions. -/
theorem step_iterations (h : During n s l m) (hb : ∀ st ∈ l, st.pre.blocked = false) :
    (∀ st ∈ l, st.post.cpu.budget + (if iterates st then 1 else 0) = st.pre.cpu.budget) ∧
      m.cpu.budget + l.countP iterates = n.toNat ∧
      l.countP (fun st => st.act.isRun) ≤ 7 * n.toNat + 4 ∧
      (m.next = none → (m.phase = .idle (some .ok) ∧ l.countP iterates = n.toNat) ∨
        ∃ limit f, m.phase = .inner limit ∧ m.cpu.iterate limit = .fault f) := by
  obtain ⟨hw, hn⟩ := began_budget h.begins
  obtain ⟨⟨⟨-, hspent⟩, hord⟩, hl⟩ := h.path.forall_of
    (P := fun m => (Within m ∧ (m.phase = .idle (some .ok) → m.cpu.budget = 0)) ∧
      m.phase.ordinary = true)
    (C := fun st => (st.act.inside = true ∧ awake st = true) ∧ st.post.phase.ordinary = true ∧
      st.pre.blocked = false)
    (R := fun st => st.post.cpu.budget + (if iterates st then 1 else 0) = st.pre.cpu.budget ∧
      effort st.post + (if st.act.isRun then 1 else 0) ≤ effort st.pre)
    (by
      intro m a m' hn hc hp
      obtain ⟨⟨hin, ha⟩, ho, hb⟩ := hc
      obtain ⟨⟨hw, hs⟩, -⟩ := hp
      have hbud := step_budget hn hin ha ho hw
      exact ⟨⟨⟨hbud.1, step_spent hn hin hs⟩, ho⟩, hbud.2, step_effort hn hin ha ho hb hw⟩)
    (fun st hst => ⟨⟨h.inside st hst, h.awake st hst⟩, h.goes st hst, hb st hst⟩)
    ⟨⟨hw, fun hp => Phase.noConfusion hp⟩, rfl⟩
  have hcount : m.cpu.budget + l.countP iterates = n.toNat := by
    rw [← hn]
    exact h.path.count_eq (f := fun m => m.cpu.budget) fun st hst => (hl st hst).1
  refine ⟨fun st hst => (hl st hst).1, hcount, ?_, fun hnone => ?_⟩
  · have he := h.path.count_le (f := effort) (p := fun st => st.act.isRun)
      fun st hst => (hl st hst).2
    have ha := alert_le (began n s)
    have hstart : effort ⟨.outer, began n s⟩ = 7 * n.toNat + 3 * alert (began n s) + 1 := by
      rw [← hn]
      rfl
    omega
  · rcases next_eq_none hnone with ⟨r, hr⟩ | hf
    · have hr' : r = some .ok := by
        rw [hr] at hord
        exact beq_iff_eq.1 hord
      subst hr'
      have h0 := hspent hr
      exact .inl ⟨hr, by omega⟩
    · exact .inr hf

/-! ## Breakpoints between two instructions -/

/-- A call that goes round in its outer loop: nothing interrupts it, and every mini-quantum is in
front of a breakpoint between two instructions. -/
structure Stuck (m : Machine σ) : Prop where
  left : m.cpu.cycles < m.cpu.limit
  timer : m.cpu.tick.enabled = false
  lines : m.cpu.isInterruptPending = false
  between : betweenInsns m.cpu = true
  missed : m.cpu.breakpointHit = false
  phase : m.phase = .outer ∨ ((m.phase = .drain ∨ ∃ limit, m.phase = .inner limit ∧
    limit ≤ m.cpu.cycles) ∧ m.cpu.wpEvent.hit = false)

/-- The check of it at the head of the outer loop. -/
def stuckAhead (s : Or1k σ) : Bool :=
  decide (s.cycles < s.limit) && !s.tick.enabled && !s.isInterruptPending && betweenInsns s &&
    !s.breakpointHit

omit [EnvImpl σ] [HostLib] in
theorem stuck_of_ahead (h : stuckAhead s = true) : Stuck ⟨.outer, s⟩ := by
  unfold stuckAhead at h
  simp only [Bool.and_eq_true, decide_eq_true_eq, Bool.not_eq_true'] at h
  obtain ⟨⟨⟨⟨hleft, htimer⟩, hlines⟩, hbetween⟩, hmissed⟩ := h
  exact ⟨hleft, htimer, hlines, hbetween, hmissed, .inl rfl⟩

omit [EnvImpl σ] [HostLib] in
theorem miniLimit_of_between (h : betweenInsns s = true) : s.miniLimit ≤ s.cycles := by
  obtain ⟨bp, hm, hb⟩ := List.any_eq_true.1 h
  rw [Bool.and_eq_true, decide_eq_true_eq] at hb
  have hn := nextBreakpoint_le hm
  have hz : Distance.strides 4#32 s.nextPc bp = 0 := Nat.div_eq_of_lt hb.2
  exact Nat.le_trans miniLimit_le (by omega)

theorem Stuck.next (h : Stuck m) : ∃ m', m.next = some m' ∧ Stuck m' ∧ m'.phase.ordinary = true := by
  obtain ⟨p, s⟩ := m
  obtain ⟨hleft, htimer, hlines, hbetween, hmissed, hphase⟩ := h
  rcases hphase with rfl | ⟨rfl | ⟨limit, rfl, hle⟩, hwp⟩
  · exact ⟨_, if_pos hleft, ⟨hleft, htimer, hlines, hbetween, hmissed,
      .inr ⟨.inr ⟨_, rfl, miniLimit_of_between hbetween⟩, rfl⟩⟩, rfl⟩
  · have ht : s.timerUpdated.externalChecked = { s with tickUpdate := s.cycles } := by
      have htu : s.timerUpdated = { s with tickUpdate := s.cycles } := by
        unfold timerUpdated tickChecked
        rw [if_neg (fun he => by cases htimer.symm.trans he)]
      rw [htu]
      exact if_neg (fun he => by cases hlines.symm.trans he)
    have hd : drained { s with tickUpdate := s.cycles } =
        ⟨.outer, { s with tickUpdate := s.cycles }⟩ := by
      unfold drained
      rw [if_neg (fun he => by cases hmissed.symm.trans he),
        if_neg (fun he => by cases hwp.symm.trans he)]
    refine ⟨⟨.outer, { s with tickUpdate := s.cycles }⟩, ?_, ⟨hleft, htimer, hlines, hbetween,
      hmissed, .inl rfl⟩, rfl⟩
    unfold next
    dsimp only
    rw [endMini_eq, ht, ← hd]
    rfl
  · exact ⟨⟨.drain, s⟩, if_neg (Nat.not_lt.2 hle), ⟨hleft, htimer, hlines, hbetween, hmissed,
      .inr ⟨.inl rfl, hwp⟩⟩, rfl⟩

omit [EnvImpl σ] [HostLib] in
theorem Stuck.executes (h : Stuck m) : m.executes = false := by
  unfold Machine.executes
  rcases h.phase with hp | ⟨hp | ⟨limit, hp, hle⟩, -⟩
  · rw [hp]
  · rw [hp]
  · rw [hp]
    exact decide_eq_false (Nat.not_lt.2 hle)

/-- It never executes an instruction, and never returns. -/
theorem stuck_for_ever (hs : Stuck m) (h : system.Path m l m') (hr : ∀ st ∈ l, st.act.isRun = true) :
    Stuck m' ∧ ∀ st ∈ l, iterates st = false ∧ awake st = true ∧ st.post.phase.ordinary = true := by
  refine h.forall_of (C := fun st => st.act.isRun = true) (fun m a m' hn ha hs => ?_) hr hs
  cases a with
  | run =>
    obtain ⟨x, hx, hsx, ho⟩ := hs.next
    cases hx.symm.trans hn
    have hex := hs.executes
    refine ⟨hsx, ?_, ?_, ho⟩
    · unfold iterates
      rw [hex, Bool.and_false]
    · unfold awake dozes
      dsimp only
      rw [mtspr_of_not_executes hex]
      rfl
  | _ => cases ha

end Machine

namespace Machine

open Or1k

attribute [local instance] HostLib.plain

/-- A breakpoint in the middle of the instruction at the reset vector: a call for one cycle goes on
for ever. -/
theorem step_iterations_fails : ∃ s : Or1k Memory, system.Run (Memory.boot []) ⟨.idle none, s⟩ ∧
    ∀ l m, system.Path ⟨.outer, began 1#32 s⟩ l m → (∀ st ∈ l, st.act.isRun = true) →
      During 1#32 s l m ∧ l.countP iterates = 0 ∧ m.next ≠ none := by
  obtain ⟨m, hr, hm⟩ := system.exists_run (Memory.boot []) [.insertBreakpoint 0x102#32]
    (fun m : Machine Memory => decide (m.phase = .idle none ∧
      ({ m.cpu with limit := m.cpu.cycles + (1#32 : U32).toNat }.externalChecked).sleepy = false) &&
      stuckAhead (began 1#32 m.cpu)) (by decide +kernel)
  rw [Bool.and_eq_true] at hm
  obtain ⟨hphase, hsleepy⟩ := of_decide_eq_true hm.1
  have hm' : m = ⟨.idle none, m.cpu⟩ := by rw [← hphase]
  rw [hm'] at hr
  refine ⟨m.cpu, hr, fun l m hpath hrun => ?_⟩
  obtain ⟨hstuck, hl⟩ := stuck_for_ever (stuck_of_ahead hm.2) hpath hrun
  obtain ⟨m', hn, -⟩ := hstuck.next
  refine ⟨⟨hpath, fun st hst => ?_, hsleepy, fun st hst => (hl st hst).2.1,
    fun st hst => (hl st hst).2.2⟩, ?_, fun hnone => ?_⟩
  · have hact := hrun st hst
    cases ha : st.act with
    | run => rfl
    | _ => rw [ha] at hact; cases hact
  · refine List.countP_eq_zero.2 fun st hst => ?_
    rw [(hl st hst).1]
    exact Bool.false_ne_true
  · cases hn.symm.trans hnone

/-- Two instructions without a breakpoint, the second of them a load. -/
theorem step_iterations_load : ∃ (s : Or1k Memory) (l : List (Move (Machine Memory) (Action Memory)))
    (m : Machine Memory), During 2#32 s l m ∧ m.phase = .idle (some .ok) ∧ l.countP iterates = 2 ∧
      m.cpu.cycles = s.cycles + 4 := by
  obtain ⟨m, hr, hm⟩ := system.exists_steps (fun m a => a.inside && (m.dozes a).all (!·.sleepy) &&
      !m.blocked && (m.act a).all (·.phase.ordinary))
    ⟨.outer, began 2#32 (Memory.boot [(0x104, 0x84600000#32)]).cpu⟩
    [.run, .run, .run, .run, .run, .run]
    (fun m => decide (m.phase = .idle (some .ok) ∧ m.cpu.cycles = 4)) (by decide +kernel)
  obtain ⟨hp, hc⟩ := of_decide_eq_true hm
  obtain ⟨l, hl, hok⟩ := hr.path_ok
  have hnext := hl.forall (R := fun st => system.next st.pre st.act = some st.post) fun _ _ _ h => h
  simp only [Bool.and_eq_true, Bool.not_eq_true'] at hok
  have hd : During 2#32 (Memory.boot [(0x104, 0x84600000#32)]).cpu l m := by
    refine ⟨hl, fun st hst => (hok st hst).1.1.1, by decide +kernel, fun st hst => (hok st hst).1.1.2,
      fun st hst => ?_⟩
    have ho := (hok st hst).2
    have hn : st.pre.act st.act = some st.post := hnext st hst
    rw [hn] at ho
    exact ho
  have hnone : m.next = none := by
    unfold next
    rw [hp]
  refine ⟨_, l, m, hd, hp, ?_, hc⟩
  rcases (step_iterations hd fun st hst => (hok st hst).1.2).2.2.2 hnone with ⟨-, hn⟩ | ⟨limit, f, hi, -⟩
  · exact hn
  · cases hp.symm.trans hi

end Machine

end Or1kiss
