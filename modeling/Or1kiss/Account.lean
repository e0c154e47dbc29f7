import Or1kiss.Sleep

/-!
# What the timer counts

The timer is brought up to date by `update_timer`, at the end of a mini-quantum and in `doze`;
`m_tick_update` is when that last happened. A guest that writes TTCR, or switches the timer on,
expects it to count from the start of that `l.mtspr`; `noteAfter` remembers the value and the
cycle. The timer counts from its last synchronisation instead, so the two agree for writes that
come first after one (`prompt`).
-/

namespace Or1kiss

open Host Bits Runs

variable {σ : Type}

namespace Tick

instance (t : Tick) (n : Nat) : Decidable (t.Matched n) := decidable_of_iff _ t.matched_iff.symm

theorem update_zero (t : Tick) : t.update 0 = t := by
  rw [update_of_not_matched t.not_matched_zero, later_zero]

theorem setTtmr_eq (t : Tick) (v : U32) : t.setTtmr v = { t with ttmr := v } := update_zero _

theorem setTtcr_eq (t : Tick) (v : U32) : t.setTtcr v = { t with ttcr := v, done := false } :=
  update_zero _

theorem counting_of_enabled {t : Tick} (hm : t.mode ≠ TM.D) (hd : t.done = false) :
    t.counting = true := by
  unfold counting
  rw [hd, Bool.not_false, Bool.and_true, bne_iff_ne]
  exact hm

theorem mode_of_not_enabled {t : Tick} (h : t.enabled = false) : t.mode = TM.D := by
  unfold enabled at h
  rw [bne_eq_false_iff_eq] at h
  have hmask : TM.mask = 3#32 <<< 30 := by decide
  unfold mode
  rw [hmask]
  ext i hi
  rw [BitVec.getElem_and, BitVec.getElem_shiftLeft]
  by_cases hlt : i < 30
  · simp [hlt]
  · have hbit := congrArg (·.getLsbD (i - 30)) h
    have hi' : 30 + (i - 30) = i := by omega
    simp only [BitVec.getLsbD_ushiftRight, hi'] at hbit
    rw [← BitVec.getLsbD_eq_getElem, hbit]
    simp

theorem enabled_of_counting {t : Tick} (h : t.counting = true) : t.enabled = true := by
  by_contra hne
  unfold counting at h
  rw [mode_of_not_enabled (eq_false_of_ne_true hne)] at h
  cases h

theorem update_of_not_enabled {t : Tick} (h : t.enabled = false) (n : Nat) : t.update n = t := by
  apply update_of_not_counting
  unfold counting
  rw [mode_of_not_enabled h]
  rfl

end Tick

namespace Or1k

variable {s u x f : Or1k σ} {reg val : U32}

/-- The timer is left alone while time passes. -/
structure Clocked (s x : Or1k σ) : Prop where
  tick : x.tick = s.tick
  tickUpdate : x.tickUpdate = s.tickUpdate
  cycles : s.cycles ≤ x.cycles

theorem Clocked.refl (s : Or1k σ) : Clocked s s := ⟨rfl, rfl, Nat.le_refl _⟩

theorem Clocked.trans (h : Clocked s u) (h' : Clocked u x) : Clocked s x :=
  ⟨h'.tick.trans h.tick, h'.tickUpdate.trans h.tickUpdate, Nat.le_trans h.cycles h'.cycles⟩

/-- The timer is synchronised. -/
structure Synced (u x : Or1k σ) : Prop where
  tick : x.tick = u.tick.update u.lag
  tickUpdate : x.tickUpdate = u.cycles
  cycles : x.cycles = u.cycles

theorem interrupted_clocked {e : ExType} : Clocked s (s.interrupted e) := by
  refine ⟨?_, ?_, Nat.le_of_eq (interrupted_cycles e).symm⟩ <;>
  · unfold interrupted
    split <;> rfl

theorem externalChecked_clocked : Clocked s s.externalChecked := by
  unfold externalChecked
  split
  · exact interrupted_clocked
  · exact .refl s

theorem timerUpdated_synced : Synced s s.timerUpdated := by
  refine ⟨?_, rfl, tickChecked_cycles⟩
  show s.tickChecked.tick = _
  unfold tickChecked
  cases he : s.tick.enabled with
  | false =>
    rw [if_neg Bool.false_ne_true]
    exact (Tick.update_of_not_enabled he _).symm
  | true =>
    rw [if_pos rfl]
    split
    · exact interrupted_clocked.tick
    · rfl

variable [EnvImpl σ]

/-- The state in which `doze` synchronises the timer. -/
def dozeSync (s : Or1k σ) : Option (Or1k σ) :=
  if test s.pmr PMR.DME && s.allowSleep && (s.sleep s.dozeSkip).1 == 0 then some s.skipped else none

theorem dozed_timed : (∃ u, s.dozeSync = some u ∧ Clocked s u ∧ Synced u s.dozed) ∨
    (s.dozeSync = none ∧ Clocked s s.dozed) := by
  unfold dozeSync dozed
  by_cases hd : (test s.pmr PMR.DME && s.allowSleep) = true
  · have hn : ¬(!test s.pmr PMR.DME || !s.allowSleep) = true := by
      rw [← Bool.not_and, hd]
      decide
    rw [if_neg hn, hd, Bool.true_and]
    by_cases hs : (s.sleep s.dozeSkip).1 = 0
    · refine .inl ⟨s.skipped, if_pos (beq_iff_eq.2 hs), ⟨rfl, rfl, Nat.le_add_right _ _⟩, ?_⟩
      dsimp only
      rw [if_neg (not_not.2 hs)]
      exact timerUpdated_synced
    · refine .inr ⟨if_neg (fun h => hs (beq_iff_eq.1 h)), ?_⟩
      dsimp only
      rw [if_pos hs]
      exact ⟨rfl, rfl, Nat.le_add_right _ _⟩
  · have hn : (!test s.pmr PMR.DME || !s.allowSleep) = true := by
      rw [← Bool.not_and, eq_false_of_ne_true hd]
      rfl
    rw [if_pos hn, eq_false_of_ne_true hd, Bool.false_and, if_neg Bool.false_ne_true]
    exact .inr ⟨rfl, .refl s⟩

/-- A write to a register that is not one of the timer, nor PMR. -/
theorem regWritten_clocked (hp : reg ≠ SpReg.pmr.num) (hm : reg ≠ SpReg.ttmr.num)
    (hc : reg ≠ SpReg.ttcr.num) : Clocked s (s.regWritten reg val) := by
  refine ⟨?_, ?_, Nat.le_of_eq (regWritten_write hp val).cycles.symm⟩ <;>
  · unfold regWritten
    cases hr : SpReg.ofNum reg with
    | none =>
      cases SprFile.ofNum reg.toNat with
      | none => rfl
      | some f => cases f <;> rfl
    | some r =>
      have hreg := SpReg.num_of_ofNum hr
      cases r with
      | pmr => exact (hp hreg).elim
      | ttmr => exact (hm hreg).elim
      | ttcr => exact (hc hreg).elim
      | _ => rfl

theorem regWritten_ttmr : s.regWritten SpReg.ttmr.num val = { s with tick := s.tick.setTtmr val } := by
  simp only [regWritten, SpReg.ofNum_num]

theorem regWritten_ttcr : s.regWritten SpReg.ttcr.num val = { s with tick := s.tick.setTtcr val } := by
  simp only [regWritten, SpReg.ofNum_num]

variable [HostLib]

/-- An instruction that is not a permitted `l.mtspr`; the cycle it takes has been counted. -/
theorem fetchExecute_timed (h : s.fetchExecute = .ok x) (hn : s.mtspr = none) :
    x.tick = s.tick ∧ x.tickUpdate = s.tickUpdate ∧ s.cycles ≤ x.cycles + 1 := by
  obtain ⟨ci, f, hf, hfi, hx⟩ | ⟨hf, hr⟩ := fetchExecute_ok h
  · have ht : f.tick = s.tick := congrArg (·.tick) hfi.eq
    have hu : f.tickUpdate = s.tickUpdate := congrArg (·.tickUpdate) hfi.eq
    have hc : f.cycles = s.cycles := congrArg (·.cycles) hfi.eq
    rw [← ht, ← hu, ← hc]
    cases hx with
    | plain c limit e he hp hr => exact ⟨rfl, rfl, Nat.le_succ_of_le hr.outcomes.cycles⟩
    | untaken => exact ⟨rfl, rfl, Nat.le_succ _⟩
    | taken e target r c he hj htt hs hr =>
      have hk := (Core.scheduleJump_outcomes hs).1.cycles
      exact ⟨rfl, rfl, Nat.le_succ_of_le hk⟩
    | mtspr a b he ha hb =>
      have hd := mtspr_denied hf he ha hb hn
      unfold sprWritten
      rw [if_pos hd]
      exact ⟨rfl, rfl, Nat.le_succ _⟩
    | nop x he hx =>
      obtain ⟨rfl, -⟩ | ⟨rfl, -⟩ | ⟨c, rfl, ⟨g, t, a, b, rfl⟩, -⟩ := nop_ok hx
      · exact ⟨rfl, rfl, by show f.cycles ≤ f.cycles - 1 + 1; omega⟩
      · exact ⟨rfl, rfl, Nat.le_succ _⟩
      · exact ⟨rfl, rfl, Nat.le_succ _⟩
    | rfe x he hx =>
      obtain ⟨c, hc, rfl⟩ := rfe_ok hx
      have hk : f.cycles ≤ c.cycles := by
        obtain ⟨-, rfl⟩ | ⟨-, -, rfl⟩ := Core.scheduleJump_cases hc
        · exact Nat.le_refl _
        · exact ((Core.kept_setJump _ _).trans (Core.kept_entered rfl _)).cycles
      unfold rfeRestored
      split <;> exact ⟨rfl, rfl, Nat.le_succ_of_le hk⟩
  · obtain ⟨b, c, hfb, ⟨t, addr, ht, -, rfl⟩, rfl⟩ := hr
    have hk := (Core.kept_entered ht addr (c := b)).cycles
    have hb : b.cycles = s.cycles := congrArg (·.cycles) hfb.eq
    exact ⟨rfl, rfl, Nat.le_succ_of_le (hb ▸ hk)⟩

end Or1k

/-- A write to a register of the timer. -/
inductive TimerWrite where
  | ttmr (v : U32)
  | ttcr (v : U32)
  deriving DecidableEq, Repr

namespace TimerWrite

def ofSpr (reg val : U32) : Option TimerWrite :=
  if reg = SpReg.ttmr.num then some (.ttmr val)
  else if reg = SpReg.ttcr.num then some (.ttcr val)
  else none

def apply : TimerWrite → Tick → Tick
  | .ttmr v, t => t.setTtmr v
  | .ttcr v, t => t.setTtcr v

end TimerWrite

/-- A value of TTCR and the cycle at which it was written; up to cycle `since` there was no match. -/
structure Note where
  value : U32
  cycle : Nat
  since : Nat
  deriving DecidableEq, Repr

namespace Note

/-- The timer at `since`, had it counted every cycle from the write. -/
def tick (n : Note) (ttmr : U32) : Tick :=
  { done := false, ttmr := ttmr, ttcr := n.value + BitVec.ofNat 32 (n.since - n.cycle) }

/-- It matches between `since` and cycle `c`. -/
def Matched (n : Note) (ttmr : U32) (c : Nat) : Prop := (n.tick ttmr).Matched (c - n.since)

instance (n : Note) (ttmr : U32) (c : Nat) : Decidable (n.Matched ttmr c) :=
  inferInstanceAs (Decidable ((n.tick ttmr).Matched (c - n.since)))

def upTo (n : Note) (ttmr : U32) (c : Nat) : Option Note :=
  if n.Matched ttmr c then none else some { n with since := c }

end Note

/-- A debugger writes a register of the timer. -/
def Action.timerWrite : Action σ → Option TimerWrite
  | .writeSpr reg val => TimerWrite.ofSpr reg val
  | _ => none

namespace Or1k

theorem regWritten_timer [EnvImpl σ] (s : Or1k σ) {reg : U32} (val : U32) (hp : reg ≠ SpReg.pmr.num) :
    (∃ w, TimerWrite.ofSpr reg val = some w ∧ s.regWritten reg val = { s with tick := w.apply s.tick }) ∨
      (TimerWrite.ofSpr reg val = none ∧ Clocked s (s.regWritten reg val)) := by
  unfold TimerWrite.ofSpr
  by_cases hm : reg = SpReg.ttmr.num
  · subst hm
    exact .inl ⟨.ttmr val, if_pos rfl, regWritten_ttmr⟩
  · rw [if_neg hm]
    by_cases hc : reg = SpReg.ttcr.num
    · subst hc
      exact .inl ⟨.ttcr val, if_pos rfl, regWritten_ttcr⟩
    · rw [if_neg hc]
      exact .inr ⟨rfl, regWritten_clocked hp hm hc⟩

end Or1k

namespace Machine

open Or1k

variable [EnvImpl σ] {m m' : Machine σ} {a : Action σ}

/-- A guest writes a register of the timer. -/
def guestWrite (m : Machine σ) (a : Action σ) : Option TimerWrite :=
  match m.mtspr a with
  | some (reg, val, _) => TimerWrite.ofSpr reg val
  | none => none

/-- The state in which an action calls `update_timer`. -/
def syncs (m : Machine σ) (a : Action σ) : Option (Or1k σ) :=
  match m.dozes a with
  | some s => s.dozeSync
  | none =>
    match m.phase, a with
    | .drain, .run => some m.cpu
    | _, _ => none

/-- What a step does to the timer. -/
inductive Timed (m : Machine σ) (a : Action σ) (m' : Machine σ) : Prop where
  | left (hs : m.syncs a = none) (hg : m.guestWrite a = none) (hd : a.timerWrite = none)
      (h : Clocked m.cpu m'.cpu)
  | synced (u : Or1k σ) (hs : m.syncs a = some u) (hg : m.guestWrite a = none)
      (hd : a.timerWrite = none) (hc : Clocked m.cpu u) (h : Synced u m'.cpu)
  | wrote (w : TimerWrite) (hs : m.syncs a = none)
      (hw : m.guestWrite a = some w ∨ (m.guestWrite a = none ∧ a.timerWrite = some w))
      (ht : m'.cpu.tick = w.apply m.cpu.tick) (hu : m'.cpu.tickUpdate = m.cpu.tickUpdate)
      (hc : m.cpu.cycles ≤ m'.cpu.cycles)

/-- The timer is not brought up to date beyond the clock. -/
theorem Timed.update (h : Timed m a m') (hu : m.cpu.tickUpdate ≤ m.cpu.cycles) :
    m'.cpu.tickUpdate ≤ m'.cpu.cycles := by
  cases h with
  | left hs hg hd hcl =>
    rw [hcl.tickUpdate]
    exact Nat.le_trans hu hcl.cycles
  | synced u hs hg hd hcl hsy => exact Nat.le_of_eq (hsy.tickUpdate.trans hsy.cycles.symm)
  | wrote w hs hw ht hk hcy =>
    rw [hk]
    exact Nat.le_trans hu hcy

theorem timed_of_doze {s : Or1k σ} (hd : m.dozes a = some s) (hg : m.guestWrite a = none)
    (hw : a.timerWrite = none) (hc : Clocked m.cpu s) (h : Clocked s.dozed m'.cpu)
    (he : m'.cpu.cycles = s.dozed.cycles) : Timed m a m' := by
  have hsync : m.syncs a = s.dozeSync := by
    unfold syncs
    rw [hd]
  rcases dozed_timed (s := s) with ⟨u, hu, hcu, hs⟩ | ⟨hn, hcd⟩
  · exact .synced u (hsync.trans hu) hg hw (hc.trans hcu)
      ⟨h.tick.trans hs.tick, h.tickUpdate.trans hs.tickUpdate, he.trans hs.cycles⟩
  · exact .left (hsync.trans hn) hg hw (hc.trans (hcd.trans h))

variable [HostLib]

omit [EnvImpl σ] [HostLib] in
theorem retired_tick (limit : Nat) (x : Or1k σ) : (retired limit x).cpu.tick = x.tick ∧
    (retired limit x).cpu.tickUpdate = x.tickUpdate :=
  ⟨retired_frame (·.tick) limit x fun _ _ _ _ => rfl,
    retired_frame (·.tickUpdate) limit x fun _ _ _ _ => rfl⟩

/-- The timer of an iteration. -/
theorem iterate_timed {limit : Nat} {x : Or1k σ} (hx : m.executes = true)
    (h : m.cpu.beginCycle.fetchExecute = .ok x) : Timed m .run (retired limit x) := by
  obtain ⟨ht, hu⟩ := retired_tick limit x
  have hc : (retired limit x).cpu.cycles = x.cycles :=
    retired_frame (·.cycles) limit x fun _ _ _ _ => rfl
  have hmt : m.mtspr .run = m.cpu.beginCycle.mtspr := mtspr_run hx
  have hph : (match m.phase, (Action.run : Action σ) with
      | .drain, .run => some m.cpu
      | _, _ => none) = none := by
    unfold executes at hx
    split at hx
    · rename_i limit hp
      rw [hp]
    · cases hx
  cases hw : m.cpu.beginCycle.mtspr with
  | none =>
    obtain ⟨h1, h2, h3⟩ := fetchExecute_timed h hw
    have hd : m.dozes .run = none := by
      unfold dozes
      rw [hmt, hw]
    refine .left ?_ ?_ rfl ⟨ht.trans h1, hu.trans h2, ?_⟩
    · unfold syncs
      rw [hd]
      exact hph
    · unfold guestWrite
      rw [hmt, hw]
    · have h3 : m.cpu.cycles + 1 ≤ x.cycles + 1 := h3
      omega
  | some w =>
    obtain ⟨reg, val, f⟩ := w
    obtain ⟨hfi, hfe⟩ := mtspr_executed hw
    cases hfe.symm.trans h
    have hft : f.tick = m.cpu.tick := congrArg (·.tick) hfi.eq
    have hfu : f.tickUpdate = m.cpu.tickUpdate := congrArg (·.tickUpdate) hfi.eq
    have hfc : f.cycles = m.cpu.cycles + 1 := congrArg (·.cycles) hfi.eq
    by_cases hp : reg = SpReg.pmr.num
    · have hd : m.dozes .run = some (f.requestBreak.withCore (f.requestBreak.toCore.writeReg .pmr val)) := by
        unfold dozes
        rw [hmt, hw]
        dsimp only
        rw [if_pos hp]
      have hx : f.requestBreak.regWritten reg val =
          (f.requestBreak.withCore (f.requestBreak.toCore.writeReg .pmr val)).dozed := by
        rw [hp, regWritten_pmr]
      rw [hx] at ht hu hc ⊢
      refine timed_of_doze hd ?_ rfl ⟨hft, hfu, ?_⟩ ⟨ht, hu, Nat.le_of_eq hc.symm⟩ hc
      · unfold guestWrite
        rw [hmt, hw]
        dsimp only
        rw [hp]
        rfl
      · show m.cpu.cycles ≤ f.cycles
        omega
    · have hd : m.dozes .run = none := by
        unfold dozes
        rw [hmt, hw]
        dsimp only
        rw [if_neg hp]
      have hsync : m.syncs .run = none := by
        unfold syncs
        rw [hd]
        exact hph
      have hg : m.guestWrite .run = TimerWrite.ofSpr reg val := by
        unfold guestWrite
        rw [hmt, hw]
      have hle : m.cpu.cycles ≤ (f.requestBreak.regWritten reg val).cycles := by
        rw [(regWritten_write hp val).cycles]
        show m.cpu.cycles ≤ f.cycles
        omega
      rcases regWritten_timer f.requestBreak val hp with ⟨w, hw, he⟩ | ⟨hn, hcl⟩
      · refine .wrote w hsync (.inl (hg.trans hw)) ?_ ?_ (hc ▸ hle)
        · rw [ht, he, ← hft]
          rfl
        · rw [hu, he, ← hfu]
          rfl
      · refine .left hsync (hg.trans hn) rfl ⟨?_, ?_, hc ▸ hle⟩
        · rw [ht, hcl.tick, ← hft]
          rfl
        · rw [hu, hcl.tickUpdate, ← hfu]
          rfl

omit [HostLib] in
theorem mtspr_of_not_executes (hx : m.executes = false) : m.mtspr a = none := by
  cases a with
  | run =>
    unfold mtspr
    dsimp only
    rw [hx, if_neg Bool.false_ne_true]
  | _ => rfl

omit [HostLib] in
theorem guestWrite_of_not_executes (hx : m.executes = false) : m.guestWrite a = none := by
  unfold guestWrite
  rw [mtspr_of_not_executes hx]

omit [EnvImpl σ] [HostLib] in
theorem externalChecked_cycles {s : Or1k σ} : s.externalChecked.cycles = s.cycles := by
  unfold externalChecked
  split
  · exact interrupted_cycles _
  · rfl

/-- A C++ exception out of an iteration. -/
theorem throw_clocked {s x : Or1k σ} (h : s.beginCycle.fetchExecute = .throw x) : Clocked s x := by
  rcases fetchExecute_throw h with hf | ⟨ci, f, e, c, -, hf, -, hm, rfl⟩
  · obtain ⟨_, _, _, ⟨_, _, _, _, _, _, -, rfl⟩, rfl⟩ := fetch_throw hf
    exact ⟨rfl, rfl, Nat.le_succ _⟩
  · have hk := (Core.executeMem_throw_effects hm).kept.cycles
    obtain ⟨_, _, _, ⟨_, _, _, _, _, _, -, rfl⟩, rfl⟩ := hf
    exact ⟨rfl, rfl, Nat.le_trans (Nat.le_succ _) hk⟩

omit [HostLib] in
/-- A debugger writes a register. -/
theorem writeSpr_timed {s s' : Or1k σ} {r : Option StepResult} {reg val : U32}
    (h : outside s (.writeSpr reg val) = .ok s') :
    Timed ⟨.idle r, s⟩ (.writeSpr reg val) ⟨.idle r, s'⟩ := by
  have h : s.setSpr reg val true = .ok s' := h
  rw [setSpr_eq] at h
  cases h
  have hs : s.sprWritten reg val true = s.requestBreak.regWritten reg val := rfl
  rw [hs]
  by_cases hp : reg = SpReg.pmr.num
  · have hd : (⟨.idle r, s⟩ : Machine σ).dozes (.writeSpr reg val) =
        some (s.requestBreak.withCore (s.requestBreak.toCore.writeReg .pmr val)) := if_pos hp
    subst hp
    rw [regWritten_pmr]
    exact timed_of_doze hd rfl rfl ⟨rfl, rfl, Nat.le_refl _⟩ (.refl _) rfl
  · have hd : (⟨.idle r, s⟩ : Machine σ).dozes (.writeSpr reg val) = none := if_neg hp
    have hsync : (⟨.idle r, s⟩ : Machine σ).syncs (.writeSpr reg val) = none := by
      unfold syncs
      rw [hd]
    rcases regWritten_timer s.requestBreak val hp with ⟨w, hw, he⟩ | ⟨hn, hcl⟩
    · rw [he]
      exact .wrote w hsync (.inr ⟨rfl, hw⟩) rfl rfl (Nat.le_refl _)
    · exact .left hsync rfl hn ⟨hcl.tick, hcl.tickUpdate, hcl.cycles⟩

omit [HostLib] in
theorem outside_clocked {s s' : Or1k σ} (h : outside s a = .ok s')
    (hw : ¬∃ reg val, a = .writeSpr reg val) : Clocked s s' := by
  cases outside_ok h with
  | writeSpr reg val => exact (hw ⟨reg, val, rfl⟩).elim
  | writeGpr | world | setUp => exact ⟨rfl, rfl, Nat.le_refl _⟩

/-- What an action does to the timer. -/
theorem act_timed (hn : m.act a = some m') : Timed m a m' := by
  have hquiet : ∀ {s s' : Or1k σ} {p p' : Phase}, m = ⟨p, s⟩ → m' = ⟨p', s'⟩ → m.executes = false →
      a.timerWrite = none → m.dozes a = none → p ≠ .drain ∨ a ≠ .run → Clocked s s' →
        Timed m a m' := by
    intro s s' p p' hm hm' hx hw hd hp hc
    subst hm hm'
    refine .left ?_ (guestWrite_of_not_executes hx) hw hc
    unfold syncs
    rw [hd]
    dsimp only
    split
    · rcases hp with hp | hp <;> exact (hp rfl).elim
    · rfl
  cases act_transition hn with
  | begin r s n =>
    have hd : (⟨.idle r, s⟩ : Machine σ).dozes (.call n) =
        some (externalChecked { s with limit := s.cycles + n.toNat }) := rfl
    have hc : Clocked s { s with limit := s.cycles + n.toNat } := ⟨rfl, rfl, Nat.le_refl _⟩
    exact timed_of_doze hd rfl rfl (hc.trans externalChecked_clocked) (.refl _) rfl
  | mini s h =>
    exact hquiet rfl rfl rfl rfl rfl (.inl Phase.noConfusion) ⟨rfl, rfl, Nat.le_refl _⟩
  | finish s h =>
    exact hquiet rfl rfl rfl rfl rfl (.inl Phase.noConfusion) ⟨rfl, rfl, Nat.le_refl _⟩
  | iterate limit s x hl hfe =>
    have hx : (⟨.inner limit, s⟩ : Machine σ).executes = true := by simpa [executes] using hl
    exact iterate_timed hx hfe
  | throw limit s x hl hfe =>
    have hx : (⟨.inner limit, s⟩ : Machine σ).executes = true := by simpa [executes] using hl
    have hm : (⟨.inner limit, s⟩ : Machine σ).mtspr .run = none := by
      rw [mtspr_run hx]
      show s.beginCycle.mtspr = none
      cases hw : s.beginCycle.mtspr with
      | none => rfl
      | some w => cases (mtspr_executed hw).2.symm.trans hfe
    refine .left ?_ ?_ rfl (throw_clocked hfe)
    · unfold syncs dozes
      rw [hm]
    · unfold guestWrite
      rw [hm]
  | leave limit s hl =>
    have hx : (⟨.inner limit, s⟩ : Machine σ).executes = false := by simpa [executes] using hl
    refine hquiet rfl rfl hx rfl ?_ (.inl Phase.noConfusion) ⟨rfl, rfl, Nat.le_refl _⟩
    unfold dozes
    rw [mtspr_of_not_executes hx]
  | drain s =>
    refine .synced s rfl rfl rfl (.refl s) ?_
    rw [drained_cpu]
    have hs := timerUpdated_synced (s := s)
    have hc := externalChecked_clocked (s := s.timerUpdated)
    exact ⟨hc.tick.trans hs.tick, hc.tickUpdate.trans hs.tickUpdate,
      externalChecked_cycles.trans hs.cycles⟩
  | interrupt p s id set =>
    have hc : Clocked s (s.withCore (s.toCore.interrupt id set)) := by
      refine ⟨rfl, rfl, Nat.le_of_eq ?_⟩
      show s.cycles = (s.toCore.interrupt id set).cycles
      obtain ⟨v, he⟩ := s.toCore.interrupt_eq id set
      rw [he]
    refine .left ?_ rfl rfl hc
    unfold syncs dozes
    cases p <;> rfl
  | outside r s s' a ha h =>
    by_cases hw : ∃ reg val, a = .writeSpr reg val
    · obtain ⟨reg, val, rfl⟩ := hw
      exact writeSpr_timed h
    · have hd : (⟨.idle r, s⟩ : Machine σ).dozes a = none := by
        cases a with
        | writeSpr reg val => exact (hw ⟨reg, val, rfl⟩).elim
        | call | run | interrupt => cases ha
        | _ => rfl
      have ht : a.timerWrite = none := by
        cases a with
        | writeSpr reg val => exact (hw ⟨reg, val, rfl⟩).elim
        | _ => rfl
      exact hquiet rfl rfl rfl ht hd (.inl Phase.noConfusion) (outside_clocked h hw)

/-! ## The account of a write -/

/-- The value and the cycle from which the timer is to count: a guest wrote TTCR in a counting
mode, or switched the timer on. It is void once the timer matches, is switched off, or is set by
a debugger. -/
def noteAfter (g : Option Note) (st : Move (Machine σ) (Action σ)) : Option Note :=
  match st.pre.guestWrite st.act, st.act.timerWrite with
  | some (.ttcr v), _ =>
    if st.pre.cpu.tick.mode = TM.D then none
    else some { value := v, cycle := st.pre.cpu.cycles, since := st.pre.cpu.cycles }
  | some (.ttmr v), _ =>
    if v &&& TM.mask = TM.D then none
    else if st.pre.cpu.tick.mode = TM.D then
      some { value := st.pre.cpu.tick.ttcr, cycle := st.pre.cpu.cycles, since := st.pre.cpu.cycles }
    else g.bind fun n => n.upTo st.pre.cpu.tick.ttmr st.pre.cpu.cycles
  | none, some _ => none
  | none, none =>
    match st.pre.syncs st.act with
    | some u => g.bind fun n => n.upTo u.tick.ttmr u.cycles
    | none => g

/-- The simulator with the account of the last write. -/
abbrev noting : System (Machine σ × Option Note) (Action σ) := system.watch noteAfter

/-- The timer was synchronised in this very cycle. -/
def fresh (m : Machine σ) : Bool := m.cpu.tickUpdate == m.cpu.cycles

/-- A write that opens an account, or changes TTMR under an open one, comes first after a
synchronisation; and it does not switch on a finished one-shot. -/
def prompt (q : Machine σ × Option Note) (a : Action σ) : Bool :=
  let t := q.1.cpu.tick
  match q.1.guestWrite a with
  | some (.ttcr _) => t.mode == TM.D || q.1.fresh
  | some (.ttmr v) =>
    v &&& TM.mask == TM.D || (t.mode != TM.D || q.1.fresh && !t.done) && (q.2.isNone || q.1.fresh)
  | none => true

/-- The timer at its last synchronisation agrees with the account. -/
structure Accounted (g : Option Note) (s : Or1k σ) : Prop where
  update : s.tickUpdate ≤ s.cycles
  note : ∀ n, g = some n → n.cycle ≤ n.since ∧ n.since = s.tickUpdate ∧
    n.tick s.tick.ttmr = s.tick ∧ s.tick.mode ≠ TM.D

omit [EnvImpl σ] [HostLib] in
theorem Accounted.clocked {g : Option Note} {s x : Or1k σ} (h : Accounted g s)
    (hc : Clocked s x) : Accounted g x := by
  refine ⟨?_, fun n hg => ?_⟩
  · rw [hc.tickUpdate]
    exact Nat.le_trans h.update hc.cycles
  · rw [hc.tick, hc.tickUpdate]
    exact h.note n hg

omit [EnvImpl σ] [HostLib] in
/-- A synchronisation before the match. -/
theorem Accounted.synced {n : Note} {u x : Or1k σ} (h : Accounted (some n) u)
    (hm : ¬n.Matched u.tick.ttmr u.cycles) (hs : Synced u x) :
    x.tick = { n with since := u.cycles }.tick u.tick.ttmr := by
  obtain ⟨hle, hsince, htick, hmode⟩ := h.note n rfl
  have hup := h.update
  unfold Note.Matched at hm
  rw [htick, hsince] at hm
  have hm : ¬u.tick.Matched u.lag := hm
  have hcount : u.tick.counting = true := by
    rw [← htick] at hmode ⊢
    exact Tick.counting_of_enabled hmode rfl
  have hsum : u.cycles - n.cycle = (n.since - n.cycle) + u.lag := by
    unfold lag
    omega
  rw [hs.tick, Tick.update_of_not_matched hm]
  unfold Tick.later
  rw [if_pos hcount, ← htick]
  unfold Note.tick
  dsimp only
  rw [hsum, BitVec.ofNat_add, ← BitVec.add_assoc]

omit [EnvImpl σ] [HostLib] in
/-- A new account, opened at a synchronised timer. -/
theorem accounted_open {v : U32} {s x : Or1k σ} (hs : s.tickUpdate = s.cycles)
    (hu : x.tickUpdate = s.tickUpdate) (hc : s.cycles ≤ x.cycles) (hd : x.tick.done = false)
    (hv : x.tick.ttcr = v) (hm : x.tick.mode ≠ TM.D) :
    Accounted (some { value := v, cycle := s.cycles, since := s.cycles }) x := by
  refine ⟨by omega, fun n hg => ?_⟩
  cases hg
  have hsince : s.cycles = x.tickUpdate := by omega
  refine ⟨Nat.le_refl _, hsince, ?_, hm⟩
  unfold Note.tick
  dsimp only
  rw [Nat.sub_self, ← hv, ← hd]
  exact congrArg (fun w => Tick.mk _ _ w) (BitVec.add_zero _)

omit [EnvImpl σ] [HostLib] in
theorem accounted_none {s : Or1k σ} (h : s.tickUpdate ≤ s.cycles) : Accounted none s :=
  ⟨h, fun _ hg => nomatch hg⟩

omit [EnvImpl σ] [HostLib] in
/-- A match closes the account; otherwise it goes on from the synchronisation. -/
theorem accounted_upTo {g : Option Note} {s : Or1k σ} {mr : U32} {c : Nat}
    (hle : s.tickUpdate ≤ s.cycles)
    (hn : ∀ n, g = some n → ¬n.Matched mr c → n.cycle ≤ c ∧ c = s.tickUpdate ∧
      { n with since := c }.tick s.tick.ttmr = s.tick ∧ s.tick.mode ≠ TM.D) :
    Accounted (g.bind fun n => n.upTo mr c) s := by
  cases g with
  | none => exact accounted_none hle
  | some n =>
    rw [Option.bind_some]
    unfold Note.upTo
    by_cases hmt : n.Matched mr c
    · rw [if_pos hmt]
      exact accounted_none hle
    · rw [if_neg hmt]
      refine ⟨hle, fun n' hg => ?_⟩
      cases hg
      exact hn n rfl hmt

omit [EnvImpl σ] [HostLib] in
theorem accounted_synced {g : Option Note} {u x : Or1k σ} (h : Accounted g u) (hs : Synced u x) :
    Accounted (g.bind fun n => n.upTo u.tick.ttmr u.cycles) x := by
  refine accounted_upTo (Nat.le_of_eq (hs.tickUpdate.trans hs.cycles.symm)) fun n hg hmt => ?_
  subst hg
  have hx := h.synced hmt hs
  obtain ⟨hcs, hsu, -, hmode⟩ := h.note n rfl
  have hup := h.update
  have httmr : x.tick.ttmr = u.tick.ttmr := by
    rw [hx]
    rfl
  refine ⟨by omega, hs.tickUpdate.symm, ?_, ?_⟩
  · rw [httmr, hx]
  · unfold Tick.mode
    rw [httmr]
    exact hmode

section Written

variable {g : Option Note} {s x : Or1k σ} {v : U32} (hle : x.tickUpdate ≤ x.cycles)
  (hu : x.tickUpdate = s.tickUpdate) (hcy : s.cycles ≤ x.cycles)

omit [EnvImpl σ] [HostLib]
include hle hu hcy

/-- A counter that is written at a synchronised timer. -/
theorem accounted_ttcr (ht : x.tick = s.tick.setTtcr v)
    (hc : s.tick.mode = TM.D ∨ s.tickUpdate = s.cycles) :
    Accounted (if s.tick.mode = TM.D then none
      else some { value := v, cycle := s.cycles, since := s.cycles }) x := by
  have ht : x.tick = { s.tick with ttcr := v, done := false } := ht.trans (Tick.setTtcr_eq _ v)
  by_cases hmode : s.tick.mode = TM.D
  · rw [if_pos hmode]
    exact accounted_none hle
  · rw [if_neg hmode]
    refine accounted_open (hc.resolve_left hmode) hu hcy ?_ ?_ ?_ <;> rw [ht]
    exact hmode

/-- A mode that is written: the timer stops, starts from its counter, or goes on. -/
theorem accounted_ttmr (h : Accounted g s) (ht : x.tick = s.tick.setTtmr v)
    (hc : v &&& TM.mask = TM.D ∨ (s.tick.mode ≠ TM.D ∨ s.tickUpdate = s.cycles ∧
      s.tick.done = false) ∧ (g = none ∨ s.tickUpdate = s.cycles)) :
    Accounted (if v &&& TM.mask = TM.D then none
      else if s.tick.mode = TM.D then
        some { value := s.tick.ttcr, cycle := s.cycles, since := s.cycles }
      else g.bind fun n => n.upTo s.tick.ttmr s.cycles) x := by
  have ht : x.tick = { s.tick with ttmr := v } := ht.trans (Tick.setTtmr_eq _ v)
  by_cases hv : v &&& TM.mask = TM.D
  · rw [if_pos hv]
    exact accounted_none hle
  obtain ⟨hopen, hgo⟩ := hc.resolve_left hv
  have hmv : x.tick.mode ≠ TM.D := by
    rw [ht]
    exact hv
  rw [if_neg hv]
  by_cases hmode : s.tick.mode = TM.D
  · rw [if_pos hmode]
    obtain ⟨hsync, hdone⟩ := hopen.resolve_left (not_not.2 hmode)
    exact accounted_open hsync hu hcy (by rw [ht]; exact hdone) (by rw [ht]) hmv
  · rw [if_neg hmode]
    refine accounted_upTo hle fun n hg _ => ?_
    subst hg
    have hsync := hgo.resolve_left nofun
    obtain ⟨hcs, hsu, htick, -⟩ := h.note n rfl
    refine ⟨by omega, by omega, ?_, hmv⟩
    have hsame : n.since = s.cycles := hsu.trans hsync
    rw [ht, ← hsame]
    conv => rhs; rw [← htick]
    rfl

end Written

theorem step_accounts {q q' : Machine σ × Option Note} (hn : noting.next q a = some q')
    (hc : prompt q a = true) (h : Accounted q.2 q.1.cpu) : Accounted q'.2 q'.1.cpu := by
  obtain ⟨m, g⟩ := q
  obtain ⟨m', hm, rfl⟩ := System.watch_next hn
  dsimp only at hm h ⊢
  cases act_timed hm with
  | left hs hg hd hcl =>
    have hnote : noteAfter g ⟨m, a, m'⟩ = g := by
      unfold noteAfter
      dsimp only
      rw [hg, hd, hs]
    rw [hnote]
    exact h.clocked hcl
  | synced u hs hg hd hcl hsy =>
    have hnote : noteAfter g ⟨m, a, m'⟩ = g.bind fun n => n.upTo u.tick.ttmr u.cycles := by
      unfold noteAfter
      dsimp only
      rw [hg, hd, hs]
    rw [hnote]
    exact accounted_synced (h.clocked hcl) hsy
  | wrote w hs hw ht hu hcy =>
    have hle : m'.cpu.tickUpdate ≤ m'.cpu.cycles := (act_timed hm).update h.update
    rcases hw with hw | ⟨hg, hd⟩
    · unfold prompt fresh at hc
      dsimp only at hc
      rw [hw] at hc
      cases w with
      | ttcr v =>
        have hnote : noteAfter g ⟨m, a, m'⟩ = if m.cpu.tick.mode = TM.D then none
            else some { value := v, cycle := m.cpu.cycles, since := m.cpu.cycles } := by
          unfold noteAfter
          dsimp only
          rw [hw]
        simp only [Bool.or_eq_true, beq_iff_eq] at hc
        rw [hnote]
        exact accounted_ttcr hle hu hcy ht hc
      | ttmr v =>
        have hnote : noteAfter g ⟨m, a, m'⟩ = if v &&& TM.mask = TM.D then none
            else if m.cpu.tick.mode = TM.D then
              some { value := m.cpu.tick.ttcr, cycle := m.cpu.cycles, since := m.cpu.cycles }
            else g.bind fun n => n.upTo m.cpu.tick.ttmr m.cpu.cycles := by
          unfold noteAfter
          dsimp only
          rw [hw]
        simp only [Bool.or_eq_true, Bool.and_eq_true, beq_iff_eq, bne_iff_ne, Bool.not_eq_true',
          Option.isNone_iff_eq_none] at hc
        rw [hnote]
        exact accounted_ttmr hle hu hcy h ht hc
    · have hnote : noteAfter g ⟨m, a, m'⟩ = none := by
        unfold noteAfter
        dsimp only
        rw [hg, hd]
      rw [hnote]
      exact accounted_none hle

theorem steps_accounts {env : Env σ} {size : Nat} {q : Machine σ × Option Note}
    (h : noting.Steps (fun q a => prompt q a = true) (init env size, none) q) :
    Accounted q.2 q.1.cpu :=
  h.invariant (P := fun q => Accounted q.2 q.1.cpu) (fun _ _ _ hp hc hn => step_accounts hn hc hp)
    (accounted_none (Nat.le_refl _))

/-- In a run whose writes to the timer come first after a synchronisation, every synchronisation
before the match leaves in TTCR what the account says. -/
theorem timer_accounts {env : Env σ} {size : Nat} {q q' : Machine σ × Option Note} {n : Note}
    {u : Or1k σ} (h : noting.Steps (fun q a => prompt q a = true) (init env size, none) q)
    (hn : noting.next q a = some q') (hg : q.2 = some n) (hu : q.1.syncs a = some u)
    (hm : ¬n.Matched u.tick.ttmr u.cycles) :
    q'.1.cpu.tick.ttcr = n.value + BitVec.ofNat 32 (u.cycles - n.cycle) := by
  have hacc := steps_accounts h
  obtain ⟨m, g⟩ := q
  obtain ⟨m', hact, rfl⟩ := System.watch_next hn
  have hg : g = some n := hg
  subst hg
  cases act_timed hact with
  | left hs => cases hs.symm.trans hu
  | synced v hs _ _ hcl hsy =>
    cases hs.symm.trans hu
    show m'.cpu.tick.ttcr = _
    rw [(hacc.clocked hcl).synced hm hsy]
    rfl
  | wrote w hs => cases hs.symm.trans hu

end Machine

namespace Machine

attribute [local instance] HostLib.plain

/-- The timer is switched on by the second instruction of a mini-quantum. -/
theorem timer_accounts_fails : ∃ (q q' : Machine Memory × Option Note) (n : Note) (u : Or1k Memory),
    noting.Run (Memory.boot [(0x100, 0x1860c000#32), (0x104, 0xc1401800#32)], none) q ∧
    noting.next q .run = some q' ∧ q.2 = some n ∧ q.1.syncs .run = some u ∧
    ¬n.Matched u.tick.ttmr u.cycles ∧
      q'.1.cpu.tick.ttcr ≠ n.value + BitVec.ofNat 32 (u.cycles - n.cycle) := by
  obtain ⟨q, hr, hq⟩ := System.exists_run noting
    (Memory.boot [(0x100, 0x1860c000#32), (0x104, 0xc1401800#32)], none)
    [.call 2#32, .run, .run, .run]
    (fun q : Machine Memory × Option Note => (noting.next q .run).any
      fun q' : Machine Memory × Option Note => q.2.any fun n : Note =>
        (q.1.syncs .run).any fun u : Or1k Memory => decide (¬n.Matched u.tick.ttmr u.cycles ∧
          q'.1.cpu.tick.ttcr ≠ n.value + BitVec.ofNat 32 (u.cycles - n.cycle)))
    (by decide +kernel)
  obtain ⟨q', hn, hq⟩ := (Option.any_eq_true _ _).1 hq
  obtain ⟨n, hg, hq⟩ := (Option.any_eq_true _ _).1 hq
  obtain ⟨u, hu, hq⟩ := (Option.any_eq_true _ _).1 hq
  obtain ⟨hm, ht⟩ := of_decide_eq_true hq
  exact ⟨q, q', n, u, hr, hn, hg, hu, hm, ht⟩

/-- The same program, every instruction in a mini-quantum of its own. -/
theorem timer_accounts_stepped : ∃ (q q' : Machine Memory × Option Note) (n : Note)
    (u : Or1k Memory), noting.next q .run = some q' ∧ q.2 = some n ∧ q.1.syncs .run = some u ∧
      q'.1.cpu.tick.ttcr = n.value + BitVec.ofNat 32 (u.cycles - n.cycle) := by
  obtain ⟨q, hr, hq⟩ := System.exists_steps noting prompt
    (Memory.boot [(0x100, 0x1860c000#32), (0x104, 0xc1401800#32)], none)
    [.call 1#32, .run, .run, .run, .run, .run, .call 1#32, .run, .run]
    (fun q : Machine Memory × Option Note => (noting.next q .run).isSome && q.2.any fun n : Note =>
        (q.1.syncs .run).any fun u : Or1k Memory => decide (¬n.Matched u.tick.ttmr u.cycles))
    (by decide +kernel)
  rw [Bool.and_eq_true] at hq
  obtain ⟨q', hn⟩ := Option.isSome_iff_exists.1 hq.1
  obtain ⟨n, hg, hq⟩ := (Option.any_eq_true _ _).1 hq.2
  obtain ⟨u, hu, hq⟩ := (Option.any_eq_true _ _).1 hq
  exact ⟨q, q', n, u, hn, hg, hu, timer_accounts hr hn hg hu (of_decide_eq_true hq)⟩

end Machine

end Or1kiss
