import Or1kiss.Reply

/-!
# The cycles that a call reports

`step` adds what the clock has run past `m_limit` to the budget that it was given. Stall cycles
and the sleep of the port are added to `m_limit` as well as to `m_cycles`, so they are not part
of the sum. The limit of a call is its start, its budget, and all that has been added (`Tally`).
-/

namespace Or1kiss

open Host Bits Runs

variable {σ : Type}

/-! ## What moves the limit -/

namespace Core

variable [EnvImpl σ] {c x : Core σ} {ci : Instruction} {e : MemExec}

/-- The stall cycles of a load or store that the port serves, with those of its table walk. -/
def stall (e : MemExec) (ci : Instruction) (c : Core σ) : Nat :=
  match c.reply e ci with
  | some (.error, _) | none => 0
  | some (_, r) => if r.debug then 0 else r.cycles

theorem executeMem_stall {n : Nat} (h : c.executeMem e ci = .ok (n, x)) : n = c.stall e ci := by
  unfold stall
  cases executeMem_served h with
  | aborted hr hn ht =>
    cases hrep : c.reply e ci with
    | none => exact hn
    | some p =>
      obtain ⟨resp, r⟩ := p
      cases hr _ hrep
      exact hn
  | served resp r hr he hn ht hs =>
    rw [hr, hn]
    cases resp with
    | error => exact (he rfl).elim
    | failed | success => rfl

end Core

namespace Or1k

variable [EnvImpl σ] {s f x : Or1k σ} {ci : Instruction}

/-- The cycles that the port sleeps. -/
def slept (s : Or1k σ) : Nat := if s.sleepy then (s.sleep s.dozeSkip).1 else 0

/-- The limit has moved by `k`, the clock by `k` at least, and not past the limit. -/
structure Slipped (k : Nat) (s x : Or1k σ) : Prop where
  limit : x.limit = s.limit + k
  cycles : s.cycles + k ≤ x.cycles
  within : s.cycles ≤ s.limit → x.cycles ≤ x.limit

omit [EnvImpl σ] in
theorem Paced.slipped {k : Nat} (h : Paced s x) (hl : x.limit = s.limit + k) : Slipped k s x := by
  have hp := h.limit
  exact ⟨hl, by omega, fun hw => by omega⟩

omit [EnvImpl σ] in
theorem Slipped.of_eq (hc : x.cycles = s.cycles) (hl : x.limit = s.limit) : Slipped 0 s x :=
  (Paced.of_eq hc hl).slipped hl

theorem dozed_slipped (s : Or1k σ) : Slipped s.slept s s.dozed := by
  unfold slept
  cases hz : s.sleepy with
  | false =>
    rw [dozed_of_not_sleepy hz, if_neg Bool.false_ne_true]
    exact .of_eq rfl rfl
  | true =>
    rw [dozed_of_sleepy hz, if_pos rfl]
    split
    · exact ⟨rfl, Nat.le_refl _, fun hw => Nat.add_le_add_right hw _⟩
    · rename_i hn
      rw [not_not.1 hn]
      have hc : s.skipped.timerUpdated.cycles = s.skipped.cycles := tickChecked_cycles
      have hl : s.skipped.timerUpdated.limit = s.skipped.limit := tickChecked_limit
      have hs : s.skipped.cycles = s.cycles + min s.dozeSkip (s.limit - s.cycles) := rfl
      have hsl : s.skipped.limit = s.limit := rfl
      exact ⟨hl, by omega, fun hw => by omega⟩

variable [HostLib]

/-- The stall cycles of the load or store at the program counter. -/
def stalls (s : Or1k σ) : Nat :=
  match s.memInsn with
  | some (e, ci, c) => c.stall e ci
  | none => 0

omit [HostLib] in
theorem stalls_of_fetch {e : MemExec} (hf : s.fetch = .ok (some ci, f)) (he : ci.exec = some (.mem e)) :
    s.stalls = f.toCore.stall e ci := by
  unfold stalls
  rw [memInsn_of_fetch hf he]

omit [HostLib] in
theorem stalls_of_not_mem (hf : s.fetch = .ok (some ci, f)) (hx : ∀ e, ci.exec ≠ some (.mem e)) :
    s.stalls = 0 := by
  unfold stalls
  split
  · rename_i e ci' c hmem
    obtain ⟨g, hg, he, -⟩ := memInsn_eq_some hmem
    cases hf.symm.trans hg
    exact (hx e he).elim
  · rfl

/-- What the instruction moves the limit by: the sleep of a write to PMR, or stall cycles. -/
def moves (s : Or1k σ) : Nat :=
  match s.mtspr with
  | some (reg, val, f) =>
    if reg = SpReg.pmr.num then
      (f.requestBreak.withCore (f.requestBreak.toCore.writeReg .pmr val)).slept
    else 0
  | none => s.stalls

/-- An instruction that does not exit moves the limit along with the clock; `l.nop` takes a cycle
back. -/
theorem execute_slipped (hf : s.fetch = .ok (some ci, f)) (h : f.execute ci = .ok x)
    (hm : ci.exec ≠ some .mtspr) :
    Slipped s.stalls f x ∨ (x = f.exitNop ∧ s.stalls = 0) := by
  by_cases hx : ∃ e, ci.exec = some (.mem e)
  · obtain ⟨e, he⟩ := hx
    rw [stalls_of_fetch hf he]
    unfold execute at h
    rw [he] at h
    obtain ⟨⟨n, y⟩, hy, h⟩ := Outcome.bind_eq_ok.1 h
    obtain ⟨_, c, hc, heq⟩ := liftCore_eq_ok.1 hy
    cases heq
    cases h
    have hs := Core.executeMem_stall hc
    have hch := Core.executeMem_charged hc
    refine .inl ⟨congrArg (f.limit + ·) hs, ?_, fun hw => ?_⟩
    · show f.cycles + f.toCore.stall e ci ≤ c.cycles
      omega
    · show c.cycles ≤ f.limit + n
      omega
  · rw [stalls_of_not_mem hf fun e he => hx ⟨e, he⟩]
    unfold execute at h
    split at h
    · cases h
    · rename_i e he
      obtain ⟨c, hc, rfl⟩ := onCore_eq_ok.1 h
      exact .inl (.of_eq (Core.execute_cycles he hc) rfl)
    · rename_i e he
      exact (hx ⟨e, he⟩).elim
    · obtain ⟨c, hc, rfl⟩ := onCore_eq_ok.1 h
      obtain ⟨a, -, ha⟩ := Outcome.bind_eq_ok.1 hc
      exact .inl (.of_eq (Core.assign_cycles ha) rfl)
    · rename_i he
      exact (hm he).elim
    · obtain ⟨rfl, -⟩ | ⟨rfl, -⟩ | ⟨c, rfl, ⟨g, t, a, b, rfl⟩, -⟩ := nop_ok h
      · exact .inr ⟨rfl, rfl⟩
      · exact .inl (.of_eq rfl rfl)
      · exact .inl (.of_eq rfl rfl)
    · obtain ⟨c, hc, rfl⟩ := rfe_ok h
      refine .inl (.of_eq ?_ ?_)
      · refine .trans ?_ (Core.scheduleJump_cycles hc)
        unfold rfeRestored
        split <;> rfl
      · unfold rfeRestored
        split <;> rfl

omit [EnvImpl σ] [HostLib] in
/-- Fetching an instruction is no part of it. -/
theorem Slipped.fetched {k : Nat} (hf : FetchedInsn s f) (h : Slipped k f x) : Slipped k s x := by
  obtain ⟨_, _, _, ⟨_, _, _, _, _, _, -, rfl⟩, rfl⟩ := hf
  exact ⟨h.limit, h.cycles, h.within⟩

/-- What an instruction does to the limit and to the clock. -/
theorem fetchExecute_slipped (h : s.fetchExecute = .ok x) :
    Slipped s.moves s x ∨ (x.cycles = s.cycles - 1 ∧ x.limit = s.limit ∧ s.moves = 0) := by
  unfold moves
  cases hm : s.mtspr with
  | some w =>
    obtain ⟨reg, val, f⟩ := w
    obtain ⟨hfi, hfe⟩ := mtspr_executed hm
    cases hfe.symm.trans h
    dsimp only
    by_cases hr : reg = SpReg.pmr.num
    · subst hr
      rw [if_pos rfl, regWritten_pmr]
      have hd := dozed_slipped (f.requestBreak.withCore (f.requestBreak.toCore.writeReg .pmr val))
      exact .inl (Slipped.fetched hfi ⟨hd.limit, hd.cycles, hd.within⟩)
    · rw [if_neg hr]
      have hp : Paced f.requestBreak (f.requestBreak.regWritten reg val) := regWritten_paced hr
      have hc := (regWritten_write (s := f.requestBreak) hr val).cycles
      have hl := hp.limit
      have hw : Slipped 0 f.requestBreak (f.requestBreak.regWritten reg val) := hp.slipped (by omega)
      exact .inl (Slipped.fetched hfi ⟨hw.limit, hw.cycles, hw.within⟩)
  | none =>
    dsimp only
    obtain ⟨ci, f, hf, hfi, he⟩ | ⟨hf, b, c, hfb, ⟨t, addr, -, -, rfl⟩, rfl⟩ := fetchExecute_ok h
    · by_cases hmt : ci.exec = some .mtspr
      · rw [stalls_of_not_mem hf fun e he => by rw [hmt] at he; cases he]
        cases executed_denied hf hmt he hm
        exact .inl (Slipped.fetched hfi (.of_eq rfl rfl))
      · have hex : f.execute ci = .ok x := (fetchExecute_of_fetch hf).symm.trans h
        rcases execute_slipped hf hex hmt with hs | ⟨rfl, hz⟩
        · exact .inl (hs.fetched hfi)
        · obtain ⟨hc, -, -⟩ := hfi.counters
          have hl := hfi.paced.limit
          refine .inr ⟨congrArg (· - 1) hc, ?_, hz⟩
          show f.limit = s.limit
          omega
    · have hz : s.stalls = 0 := by
        unfold stalls memInsn
        rw [hf]
      rw [hz]
      obtain ⟨_, _, _, _, _, _, -, rfl⟩ := hfb
      exact .inl (.of_eq (Core.entered_cycles t addr) rfl)

end Or1k

/-! ## The report of a call -/

/-- `cycles += m_cycles - m_limit`, an `unsigned int` and two 64-bit counters. -/
def Or1k.reported (n : U32) (s : Or1k σ) : U32 :=
  (n.setWidth 64 + (BitVec.ofNat 64 s.cycles - BitVec.ofNat 64 s.limit)).setWidth 32

namespace Machine

open Or1k

variable [EnvImpl σ] [HostLib] {m m' m₁ m₂ : Machine σ} {a : Action σ} {s x : Or1k σ} {n : U32}

/-- What an action moves the limit by. -/
def moves (m : Machine σ) : Action σ → Nat
  | .call n => (externalChecked { m.cpu with limit := m.cpu.cycles + n.toNat }).slept
  | .run => if m.executes then m.cpu.beginCycle.moves else 0
  | _ => 0

/-- The limit of a call that began at `start` with the budget `n`, `k` cycles having been added
to it. -/
structure Tally (start n k : Nat) (m : Machine σ) : Prop where
  limit : m.cpu.limit = start + n + k
  start : start + k ≤ m.cpu.cycles
  cycles : m.cpu.cycles ≤ m.cpu.limit
  inner : ∀ limit, m.phase = .inner limit → limit ≤ m.cpu.limit

omit [HostLib] in
theorem tally_begin (s : Or1k σ) (n : U32) : Tally s.cycles n.toNat
    (externalChecked { s with limit := s.cycles + n.toNat }).slept ⟨.outer, began n s⟩ := by
  have hc : (externalChecked { s with limit := s.cycles + n.toNat }).cycles = s.cycles :=
    externalChecked_cycles
  have hl : (externalChecked { s with limit := s.cycles + n.toNat }).limit = s.cycles + n.toNat :=
    externalChecked_limit
  have hd := dozed_slipped (externalChecked { s with limit := s.cycles + n.toNat })
  have h1 := hd.limit
  have h2 := hd.cycles
  have h3 := hd.within (by omega)
  exact ⟨h1.trans (congrArg (· + _) hl), Nat.le_trans (Nat.le_of_eq (congrArg (· + _) hc.symm)) h2, h3,
    fun limit h => Phase.noConfusion h⟩

omit [EnvImpl σ] [HostLib] in
/-- A step that moves neither the clock nor the limit. -/
theorem Tally.still {start k n : Nat} (h : Tally start n k m) (hc : m'.cpu.cycles = m.cpu.cycles)
    (hl : m'.cpu.limit = m.cpu.limit)
    (hi : ∀ limit, m'.phase = .inner limit → limit ≤ m.cpu.limit) : Tally start n k m' :=
  ⟨hl.trans h.limit, hc ▸ h.start, hc ▸ hl ▸ h.cycles, hl ▸ hi⟩

/-- A step inside a call adds what it moves the limit by. -/
theorem step_tally {start k n : Nat} (hn : m.act a = some m') (hi : a.inside = true)
    (h : Tally start n k m) :
    m'.phase = .idle none ∨ Tally start n (k + m.moves a) m' := by
  cases act_transition hn with
  | begin r s n => cases hi
  | mini s hlt =>
    refine .inr (h.still rfl rfl fun limit hl => ?_)
    cases hl
    exact miniLimit_le_limit
  | finish s hlt => exact .inr (h.still rfl rfl fun limit hl => Phase.noConfusion hl)
  | iterate limit s x hlt hx =>
    have hmoves : moves ⟨.inner limit, s⟩ .run = s.beginCycle.moves := if_pos (decide_eq_true hlt)
    have hlim := h.limit
    have hst := h.start
    have hle := h.inner limit rfl
    have hrc : (retired limit x).cpu.cycles = x.cycles ∧ (retired limit x).cpu.limit = x.limit :=
      ⟨retired_frame (·.cycles) limit x fun _ _ _ _ => rfl,
        retired_frame (·.limit) limit x fun _ _ _ _ => rfl⟩
    have hinner : ∀ limit', (retired limit x).phase = .inner limit' → limit' ≤ limit :=
      fun limit' hl => (retired_inner hl).2
    have hbc : s.beginCycle.cycles = s.cycles + 1 ∧ s.beginCycle.limit = s.limit := ⟨rfl, rfl⟩
    rw [hmoves]
    dsimp only at hlim hst hle
    obtain ⟨hl, hc, hw⟩ | ⟨hc, hl, hz⟩ := fetchExecute_slipped hx
    · have hw := hw (by omega)
      exact .inr ⟨by omega, by omega, by omega, fun limit' h => by have := hinner limit' h; omega⟩
    · exact .inr ⟨by omega, by omega, by omega, fun limit' h => by have := hinner limit' h; omega⟩
  | throw limit s x hlt hx => exact .inl rfl
  | leave limit s hlt =>
    have hz : moves ⟨.inner limit, s⟩ .run = 0 := if_neg (by simpa [executes] using hlt)
    rw [hz]
    exact .inr (h.still rfl rfl fun limit hl => Phase.noConfusion hl)
  | drain s =>
    refine .inr (h.still ?_ ?_ fun limit hl => ?_)
    · rw [drained_cpu]
      exact externalChecked_cycles.trans tickChecked_cycles
    · rw [drained_cpu]
      exact externalChecked_limit.trans tickChecked_limit
    · unfold drained at hl
      split_ifs at hl
  | interrupt p s id set =>
    have hp := interrupt_paced (s := s) id set
    have hl := hp.limit
    refine .inr (h.still ?_ rfl h.inner)
    show (s.toCore.interrupt id set).cycles = s.cycles
    obtain ⟨v, he⟩ := s.toCore.interrupt_eq id set
    rw [he]
  | outside r s s' a ha ho =>
    rw [Action.isOutside_of_inside hi] at ha
    cases ha

/-- An exception of the host ends the call without a report. -/
theorem thrown_stays (hn : m.act a = some m') (hi : a.inside = true) (h : m.phase = .idle none) :
    m'.phase = .idle none := by
  cases a with
  | run =>
    have hnone : m.next = none := by
      unfold next
      rw [h]
    rw [show m.next = some m' from hn] at hnone
    cases hnone
  | interrupt id set =>
    cases hn
    exact h
  | _ => cases hi

theorem path_tally {start k n : Nat} {l : List (Move (Machine σ) (Action σ))}
    (h : system.Path m₁ l m₂) (hi : ∀ st ∈ l, st.act.inside = true) (h0 : Tally start n k m₁) :
    m₂.phase = .idle none ∨ Tally start n (k + (l.map fun st => st.pre.moves st.act).sum) m₂ := by
  induction h with
  | refl => exact .inr h0
  | @tail l t u a _ hn ih =>
    have hin : a.inside = true := hi ⟨t, a, u⟩ (List.mem_append_right _ (List.mem_singleton_self _))
    rw [List.map_append, List.sum_append, List.map_singleton, List.sum_singleton, ← Nat.add_assoc]
    rcases ih fun st hst => hi st (List.mem_append_left _ hst) with hp | ht
    · exact .inl (thrown_stays hn hin hp)
    · exact step_tally hn hin ht

omit [EnvImpl σ] [HostLib] in
/-- The report leaves out what has been added to the limit. -/
theorem Tally.reported {start k : Nat} {n : U32} (h : Tally start n.toNat k m) :
    (m.cpu.reported n).toNat + k + start = m.cpu.cycles := by
  have hl := h.limit
  have hs := h.start
  have hc := h.cycles
  have hn := n.isLt
  unfold Or1k.reported
  simp only [BitVec.toNat_setWidth, BitVec.toNat_add, BitVec.toNat_sub, BitVec.toNat_ofNat]
  omega

/-- A call of `step` reports the cycles that have elapsed exactly if nothing has been added to the
limit: no load or store stalls, and the port does not sleep. -/
theorem step_reports_iff {l : List (Move (Machine σ) (Action σ))} {r : StepResult}
    (hc : m.act (.call n) = some m₁) (h : system.Path m₁ l m₂) (hi : ∀ st ∈ l, st.act.inside = true)
    (hr : m₂.phase = .idle (some r)) :
    (m₂.cpu.reported n).toNat = m₂.cpu.cycles - m.cpu.cycles ↔
      m.moves (.call n) = 0 ∧ ∀ st ∈ l, st.pre.moves st.act = 0 := by
  have h0 : Tally m.cpu.cycles n.toNat (m.moves (.call n)) m₁ := by
    cases act_transition hc with
    | begin r s n => exact tally_begin s n
    | outside r s s' a ha ho => cases ha
  rcases path_tally h hi h0 with hp | ht
  · rw [hr] at hp
    cases hp
  · have hrep := ht.reported
    have hsum : (l.map fun st => st.pre.moves st.act).sum = 0 ↔ ∀ st ∈ l, st.pre.moves st.act = 0 := by
      rw [List.sum_eq_zero_iff_forall_eq_nat]
      exact List.forall_mem_map
    rw [← hsum]
    omega

end Machine

namespace Machine

open Or1k

attribute [local instance] HostLib.plain

/-- A call evaluated up to its end, with its steps. -/
theorem exists_call (m : Machine Memory) (n : U32) (k : Nat) (okb : Machine Memory → Action Memory → Bool)
    (p : Machine Memory → Bool) (h : (m.act (.call n)).any (fun m₁ =>
      (system.runsIf okb (List.replicate k .run) m₁).any p) = true) :
    ∃ m₁ l m₂, m.act (.call n) = some m₁ ∧ system.Path m₁ l m₂ ∧
      (∀ st ∈ l, okb st.pre st.act = true) ∧ p m₂ = true := by
  obtain ⟨m₁, h₁, h⟩ := (Option.any_eq_true _ _).1 h
  obtain ⟨m₂, hr, hp⟩ := System.exists_steps system okb m₁ _ _ h
  obtain ⟨l, hl, hok⟩ := hr.path_ok
  exact ⟨m₁, l, m₂, h₁, hl, hok, hp⟩

/-- `l.lwz r3,0(r0)` with a budget of one cycle takes three, and one is reported. -/
theorem step_reports_iff_fails : ∃ m₁ l m₂,
    (Memory.boot [(0x100, 0x84600000#32)]).act (.call 1#32) = some m₁ ∧ system.Path m₁ l m₂ ∧
      (∀ st ∈ l, st.act.inside = true) ∧ m₂.phase = .idle (some .ok) ∧
      (m₂.cpu.reported 1#32).toNat = 1 ∧
      m₂.cpu.cycles - (Memory.boot [(0x100, 0x84600000#32)]).cpu.cycles = 3 := by
  obtain ⟨m₁, l, m₂, h₁, hl, hin, hp⟩ := exists_call (Memory.boot [(0x100, 0x84600000#32)]) 1#32 5
    (fun _ a => a.inside) (fun m₂ => decide (m₂.phase = .idle (some .ok) ∧
      (m₂.cpu.reported 1#32).toNat = 1 ∧ m₂.cpu.cycles = 3)) (by decide +kernel)
  obtain ⟨hphase, hrep, hc⟩ := of_decide_eq_true hp
  exact ⟨m₁, l, m₂, h₁, hl, hin, hphase, hrep, hc⟩

/-- Two `l.nop` instructions with a budget of two. -/
theorem step_reports_iff_nop : ∃ m₂ : Machine Memory, m₂.phase = .idle (some .ok) ∧
    (m₂.cpu.reported 2#32).toNat = m₂.cpu.cycles - 0 := by
  let m : Machine Memory := Memory.boot [(0x100, 0x15000000#32), (0x104, 0x15000000#32)]
  obtain ⟨m₁, l, m₂, h₁, hl, hok, hp⟩ := exists_call m 2#32 6
    (fun m a => a.inside && decide (m.moves a = 0))
    (fun m₂ => decide (m₂.phase = .idle (some .ok))) (by decide +kernel)
  simp only [Bool.and_eq_true, decide_eq_true_eq] at hok hp
  have hz : m.moves (.call 2#32) = 0 := by decide +kernel
  exact ⟨m₂, hp, (step_reports_iff h₁ hl (fun st hst => (hok st hst).1) hp).2
    ⟨hz, fun st hst => (hok st hst).2⟩⟩

end Machine

end Or1kiss
