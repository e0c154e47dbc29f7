import Or1kiss.Lib.Delayed
import Or1kiss.Quantum

/-!
# Interrupt lines

A raised line is latched in PICSR. It is looked at where a call of `step` starts and at the end of
each mini-quantum, and an instruction that could unmask it ends its mini-quantum. So a line does not
get lost, and from the first look at it on no instruction starts that it should have interrupted.
-/

namespace Or1kiss

open Host Runs Bits

variable {σ : Type} {id : Fin 32}

/-- `1 << id` -/
def irqLine (id : Fin 32) : U32 := 1#32 <<< id.val

namespace Core

variable {c : Core σ}

def raised (c : Core σ) (id : Fin 32) : Bool := test c.picSr (irqLine id)

/-- The line interrupts: it is unmasked, and external interrupts are enabled. -/
def admits (c : Core σ) (id : Fin 32) : Bool := test c.picMr (irqLine id) && c.isExtIrqEnabled

theorem line_bit (v : U32) (id : Fin 32) : test v (irqLine id) = v.getLsbD id.val := by
  rw [Bool.eq_iff_iff, test_eq_true_iff]
  unfold irqLine
  rw [← BitVec.twoPow_eq, BitVec.and_twoPow]
  cases hb : v.getLsbD id.val with
  | false => simp
  | true =>
    simp only [if_true, iff_true]
    intro hz
    have hbit : (BitVec.twoPow 32 id.val).getLsbD id.val = true := by
      rw [BitVec.getLsbD_twoPow, decide_eq_true id.isLt, decide_eq_true rfl, Bool.and_true]
    rw [hz, BitVec.getLsbD_zero] at hbit
    cases hbit

theorem pending_of_line (hr : c.raised id = true) (ha : c.admits id = true) :
    (c.isInterruptPending && c.isExtIrqEnabled) = true := by
  unfold raised at hr
  unfold admits at ha
  rw [Bool.and_eq_true, line_bit] at ha
  rw [line_bit] at hr
  rw [Bool.and_eq_true]
  refine ⟨?_, ha.2⟩
  unfold isInterruptPending
  rw [test_eq_true_iff]
  intro hz
  have hbit : (c.picSr &&& c.picMr).getLsbD id.val = true := by
    rw [BitVec.getLsbD_and, hr, ha.1, Bool.and_true]
  rw [hz, BitVec.getLsbD_zero] at hbit
  cases hbit

/-- What is found not to interrupt has not been admitted. -/
theorem admits_of_calm (hr : c.raised id = true)
    (h : (c.isInterruptPending && c.isExtIrqEnabled) = false) : c.admits id = false := by
  cases ha : c.admits id with
  | false => rfl
  | true =>
    rw [pending_of_line hr ha] at h
    cases h

theorem admits_of_disabled (h : c.isExtIrqEnabled = false) : c.admits id = false := by
  unfold admits
  rw [h, Bool.and_false]

end Core

namespace Or1k

variable {s x : Or1k σ} {reg val : U32}

theorem admits_of_handlerMode (h : HandlerMode s.status) : s.admits id = false := by
  have hm := masked_of_handlerMode h (e := .external) rfl
  refine Core.admits_of_disabled ?_
  rw [← Bool.not_eq_true']
  exact hm

theorem Muted.admits (h : Muted s x) (hs : s.admits id = false) : x.admits id = false := by
  rcases h.status with he | hm
  · have hen : x.isExtIrqEnabled = s.isExtIrqEnabled := test_congr (k := modeMask) (by decide) he
    unfold Core.admits at hs ⊢
    rw [h.picMr, hen]
    exact hs
  · exact admits_of_handlerMode hm

/-! ## Raising and withdrawing -/

/-- The lines that a write to a register acknowledges: those written to PICSR, when the lines are
edge-triggered. -/
def acknowledged (s : Or1k σ) (reg val : U32) : U32 :=
  if reg = SpReg.picsr.num && !s.picLevel then val else 0#32

variable [EnvImpl σ]

theorem regWritten_picSr (s : Or1k σ) (reg val : U32) :
    (s.regWritten reg val).picSr = s.picSr &&& ~~~s.acknowledged reg val := by
  have hkeep : ∀ v : U32, v &&& ~~~0#32 = v := fun v => by
    rw [BitVec.not_zero, BitVec.and_allOnes]
  unfold acknowledged
  by_cases hp : reg = SpReg.picsr.num
  · subst hp
    have hw : s.regWritten SpReg.picsr.num val = s.withCore (s.toCore.writeReg .picsr val) := by
      unfold regWritten
      rw [SpReg.ofNum_num]
    rw [hw, decide_eq_true rfl, Bool.true_and]
    show (s.toCore.writeReg .picsr val).picSr = _
    unfold Core.writeReg
    cases s.picLevel with
    | true => exact (hkeep _).symm
    | false => rfl
  · rw [decide_eq_false hp, Bool.false_and, if_neg Bool.false_ne_true, hkeep]
    unfold regWritten
    cases hr : SpReg.ofNum reg with
    | none =>
      cases SprFile.ofNum reg.toNat with
      | none => rfl
      | some f => cases f <;> rfl
    | some r =>
      have hreg := SpReg.num_of_ofNum hr
      cases r with
      | picsr => exact (hp hreg).elim
      | pmr => exact dozed_steady.picSr
      | _ => rfl

variable [HostLib]

/-- The lines that the next instruction acknowledges. -/
def acks (s : Or1k σ) : U32 :=
  match s.mtspr with
  | some (reg, val, _) => s.acknowledged reg val
  | none => 0#32

omit [EnvImpl σ] [HostLib] in
theorem rest_of_fetched (h : FetchedInsn s x) : x.picSr = s.picSr ∧ x.picLevel = s.picLevel :=
  ⟨congrArg (·.picSr) h.eq, congrArg (·.picLevel) h.eq⟩

/-- Only `l.mtspr` writes to PICSR. -/
theorem fetchExecute_picSr (h : s.fetchExecute = .ok x) : x.picSr = s.picSr &&& ~~~s.acks := by
  unfold acks
  cases hm : s.mtspr with
  | some w =>
    obtain ⟨reg, val, f⟩ := w
    obtain ⟨hf, hx⟩ := mtspr_executed hm
    cases hx.symm.trans h
    obtain ⟨hp, hl⟩ := rest_of_fetched hf
    have ha : f.requestBreak.acknowledged reg val = s.acknowledged reg val := by
      unfold acknowledged
      rw [show f.requestBreak.picLevel = s.picLevel from hl]
    rw [regWritten_picSr, ha, show f.requestBreak.picSr = s.picSr from hp]
  | none =>
    show x.picSr = s.picSr &&& ~~~0#32
    rw [BitVec.not_zero, BitVec.and_allOnes]
    obtain ⟨ci, f, hf, hfi, hx⟩ | ⟨-, b, c, hf, ⟨t, addr, ht, -, rfl⟩, rfl⟩ := fetchExecute_ok h
    · obtain ⟨hp, -⟩ := rest_of_fetched hfi
      cases hx with
      | plain c limit e he hpl hr => exact hr.outcomes.picSr.trans hp
      | untaken => exact hp
      | taken e target r c he hj ht hs hr => exact (Core.scheduleJump_outcomes hs).1.picSr.trans hp
      | mtspr a b he ha hb =>
        rw [executed_denied hf he (.mtspr a b he ha hb) hm]
        exact hp
      | nop x he hn =>
        obtain ⟨rfl, -⟩ | ⟨rfl, -⟩ | ⟨c, rfl, ⟨g, t, a, b, rfl⟩, -⟩ := nop_ok hn <;> exact hp
      | rfe x he hr =>
        obtain ⟨c, hc, rfl⟩ := rfe_ok hr
        have hk : c.picSr = f.picSr := by
          obtain ⟨-, rfl⟩ | ⟨-, -, rfl⟩ := Core.scheduleJump_cases hc
          · rfl
          · exact (Core.kept_entered (t := .insnAlignment) rfl f.rfeTarget).picSr
        unfold rfeRestored
        split <;> exact hk.trans hp
    · exact (Core.kept_entered (c := b) ht addr).picSr.trans (congrArg (·.picSr) hf.eq)

theorem fetchExecute_throw_picSr (h : s.fetchExecute = .throw x) :
    x.picSr = s.picSr &&& ~~~s.acks := by
  have ha : s.acks = 0#32 := by
    unfold acks
    cases hm : s.mtspr with
    | some w => cases (mtspr_executed hm).2.symm.trans h
    | none => rfl
  rw [ha, BitVec.not_zero, BitVec.and_allOnes]
  obtain hf | ⟨ci, f, e, c, -, hfi, -, hc, rfl⟩ := fetchExecute_throw h
  · exact (rest_of_fetched (fetch_throw hf)).1
  · exact (Core.executeMem_throw_effects hc).outcomes.picSr.trans (rest_of_fetched hfi).1

end Or1k

namespace Machine

open Or1k (Entered)

variable {m m' : Machine σ} {a : Action σ}

/-- The lines that an action raises. -/
def raises (a : Action σ) : U32 :=
  match a with
  | .interrupt id true => irqLine id
  | _ => 0#32

section Run

variable [EnvImpl σ] [HostLib]

/-- The lines that an action withdraws: the device lowers a level-triggered line, or the program or
a debugger acknowledges an edge-triggered one. -/
def withdraws (m : Machine σ) (a : Action σ) : U32 :=
  match a with
  | .interrupt id false => if m.cpu.picLevel then irqLine id else 0#32
  | .writeSpr reg val => m.cpu.acknowledged reg val
  | .run => if m.executes then m.cpu.beginCycle.acks else 0#32
  | _ => 0#32

/-- The lines are looked at. -/
def samples (m : Machine σ) (a : Action σ) : Bool :=
  match a with
  | .call _ => true
  | .run => m.phase == .drain
  | _ => false

omit [EnvImpl σ] [HostLib] in
theorem keep_lines (v : U32) : v = (v ||| 0#32) &&& ~~~0#32 := by
  rw [BitVec.or_zero, BitVec.not_zero, BitVec.and_allOnes]

/-- Lines are pending from when they are raised until they are withdrawn. -/
theorem act_picSr (hn : m.act a = some m') :
    m'.cpu.picSr = (m.cpu.picSr ||| raises a) &&& ~~~m.withdraws a := by
  cases act_transition hn with
  | begin r s n => exact began_steady.picSr.trans (keep_lines _)
  | mini | finish => exact keep_lines _
  | iterate limit s x hlt hx =>
    have hw : (⟨.inner limit, s⟩ : Machine σ).withdraws .run = s.beginCycle.acks :=
      if_pos (decide_eq_true hlt)
    have hx := Or1k.fetchExecute_picSr hx
    rw [show s.beginCycle.picSr = s.picSr from rfl] at hx
    have hr : (retired limit x).cpu.picSr = x.picSr :=
      retired_frame (fun s : Or1k σ => s.picSr) limit x fun _ _ _ _ => rfl
    rw [hw, hr, hx]
    exact congrArg (· &&& ~~~s.beginCycle.acks) BitVec.or_zero.symm
  | throw limit s x hlt hx =>
    have hw : (⟨.inner limit, s⟩ : Machine σ).withdraws .run = s.beginCycle.acks :=
      if_pos (decide_eq_true hlt)
    have hx := Or1k.fetchExecute_throw_picSr hx
    rw [show s.beginCycle.picSr = s.picSr from rfl] at hx
    rw [hw]
    exact hx.trans (congrArg (· &&& ~~~s.beginCycle.acks) BitVec.or_zero.symm)
  | leave limit s hlt =>
    have hw : (⟨.inner limit, s⟩ : Machine σ).withdraws .run = 0#32 :=
      if_neg fun h => hlt (of_decide_eq_true h)
    rw [hw]
    exact keep_lines _
  | drain s =>
    rw [drained_cpu]
    exact (Or1k.timerUpdated_steady.trans Or1k.externalChecked_steady).picSr.trans (keep_lines _)
  | interrupt p s i set =>
    cases set with
    | true =>
      show s.picSr ||| irqLine i = (s.picSr ||| irqLine i) &&& ~~~0#32
      rw [BitVec.not_zero, BitVec.and_allOnes]
    | false =>
      show (s.toCore.interrupt i false).picSr = (s.picSr ||| 0#32) &&&
        ~~~(if s.picLevel then irqLine i else 0#32)
      rw [BitVec.or_zero]
      unfold Core.interrupt
      dsimp only
      rw [if_neg Bool.false_ne_true]
      cases s.picLevel with
      | true => rfl
      | false =>
        show s.picSr = s.picSr &&& ~~~0#32
        rw [BitVec.not_zero, BitVec.and_allOnes]
  | outside r s s' a ha h =>
    cases a with
    | call | run | interrupt => cases ha
    | writeSpr reg val =>
      have h : s.setSpr reg val true = .ok s' := h
      rw [Or1k.setSpr_eq] at h
      cases h
      show (s.requestBreak.regWritten reg val).picSr = (s.picSr ||| 0#32) &&& ~~~s.acknowledged reg val
      rw [Or1k.regWritten_picSr, BitVec.or_zero]
      rfl
    | _ => cases outside_ok h <;> exact keep_lines _

/-! ## Looking at the lines -/

/-- A line that is raised and not withdrawn stays raised. -/
theorem act_raised (hn : m.act a = some m') (hr : m.cpu.raised id = true)
    (hw : test (m.withdraws a) (irqLine id) = false) : m'.cpu.raised id = true := by
  unfold Core.raised at hr ⊢
  rw [Core.line_bit] at hr hw ⊢
  rw [act_picSr hn, BitVec.getLsbD_and, BitVec.getLsbD_not, BitVec.getLsbD_or, hr, hw,
    Bool.true_or, decide_eq_true id.isLt]
  rfl

/-- Within a quantum, the line has been looked at. -/
def Looked (id : Fin 32) (m : Machine σ) : Prop :=
  (∀ r, m.phase ≠ .idle r) → m.phase ≠ .drain → m.cpu.admits id = false

omit [EnvImpl σ] [HostLib] in
theorem looked_of_idle {r : Option StepResult} {s : Or1k σ} : Looked id ⟨.idle r, s⟩ :=
  fun hi => absurd rfl (hi r)

omit [EnvImpl σ] [HostLib] in
theorem looked_of_sampled {s : Or1k σ} (hr : s.externalChecked.raised id = true) :
    s.externalChecked.admits id = false :=
  Core.admits_of_calm hr Or1k.externalChecked_masks

omit [HostLib] in
theorem began_looked {n : U32} {s : Or1k σ} (hr : s.raised id = true) :
    (began n s).admits id = false := by
  let b : Or1k σ := { s with limit := s.cycles + n.toNat }
  have hb : b.externalChecked.raised id = true := by
    unfold Core.raised at hr ⊢
    rw [Or1k.externalChecked_steady.picSr]
    exact hr
  have hc : b.externalChecked.admits id = false := looked_of_sampled hb
  show b.externalChecked.dozed.admits id = false
  rcases Or1k.dozed_cases (s := b.externalChecked) with hi | ha
  · unfold Core.admits Core.isExtIrqEnabled at hc ⊢
    rw [Or1k.dozed_steady.picMr, hi.status]
    exact hc
  · exact Or1k.admits_of_handlerMode ha.mode

/-- A look at the lines, or a step behind one. -/
theorem act_looked (hn : m.act a = some m') (hr : m.cpu.raised id = true)
    (h : samples m a = true ∨ Looked id m) : Looked id m' := by
  cases act_transition hn with
  | begin r s n => exact fun _ _ => began_looked hr
  | mini s hlt =>
    intro _ _
    exact h.elim nofun fun h => h nofun nofun
  | finish | throw | outside => exact looked_of_idle
  | leave => exact fun _ hd => absurd rfl hd
  | iterate limit s x hlt hx =>
    intro hi hd
    have hb : x.breakRequested = false := by
      cases hp : (retired limit x).phase with
      | idle r => exact (hi r hp).elim
      | drain => exact (hd hp).elim
      | inner l => exact (retired_inner hp).1
      | outer =>
        unfold retired iterated at hp
        dsimp only at hp
        split at hp <;> cases hp
    have hs : s.admits id = false := h.elim nofun fun h => h nofun nofun
    exact ((Or1k.fetchExecute_muted hx hb).trans (Or1k.retired_muted limit x)).admits hs
  | drain s =>
    intro _ _
    rw [drained_cpu]
    apply looked_of_sampled
    unfold Core.raised at hr ⊢
    rw [(Or1k.timerUpdated_steady.trans Or1k.externalChecked_steady).picSr]
    exact hr
  | interrupt p s i set =>
    intro hi hd
    have hs : s.admits id = false := h.elim nofun fun h => h hi hd
    obtain ⟨v, he⟩ := s.toCore.interrupt_eq i set
    rw [he]
    exact hs

/-- A line that is found to interrupt is served, unless the tick comes before it. -/
theorem act_serves (hn : m.act a = some m') (hs : samples m a = true) (hr : m.cpu.raised id = true)
    (ha : m.cpu.admits id = true) :
    Entered .external m.cpu m'.cpu ∨ Entered .tickTimer m.cpu m'.cpu := by
  cases act_transition hn with
  | begin r s n =>
    let b : Or1k σ := { s with limit := s.cycles + n.toNat }
    have hx : Or1k.Accepted .external b b.externalChecked :=
      Or1k.externalChecked_accepts (Core.pending_of_line hr ha)
    have hb : began n s = b.externalChecked := Or1k.dozed_awake hx.awake
    refine .inl ⟨[.external], ?_, List.mem_singleton_self _⟩
    rw [hb]
    exact hx.taken
  | drain s =>
    rw [drained_cpu]
    rcases Or1k.timerUpdated_cases (s := s) with hi | ht
    · have hx : Or1k.Accepted .external s.timerUpdated s.timerUpdated.externalChecked := by
        apply Or1k.externalChecked_accepts
        have hp := Core.pending_of_line hr ha
        unfold Core.isInterruptPending Core.isExtIrqEnabled at hp ⊢
        rw [Or1k.timerUpdated_steady.picSr, Or1k.timerUpdated_steady.picMr, hi.status]
        exact hp
      refine .inl ⟨[.external], ?_, List.mem_singleton_self _⟩
      rw [hx.taken, hi.taken]
      rfl
    · have hm := Or1k.masked_of_handlerMode ht.mode (e := .external) rfl
      refine .inr ⟨[.tickTimer], ?_, List.mem_singleton_self _⟩
      rcases Or1k.externalChecked_cases (s := s.timerUpdated) with he | he
      · rw [he, ht.taken]
        rfl
      · rw [he.enabled] at hm
        cases hm
  | mini | finish | iterate | throw | leave | interrupt => cases hs
  | outside r s s' a hout h =>
    cases a with
    | call | run | interrupt => cases hout
    | _ => cases hs

/-- No interrupt is lost: a raised line stays pending until it is withdrawn; it interrupts the first
time that it is looked at while it may; and once it has been looked at, no instruction starts while
it may. -/
theorem line_served {l : List (Move (Machine σ) (Action σ))} (h : system.Path m l m')
    (hr : m.cpu.raised id = true)
    (hw : ∀ st ∈ l, test (st.pre.withdraws st.act) (irqLine id) = false) :
    m'.cpu.raised id = true ∧
      (∀ st ∈ l, samples st.pre st.act = true → st.pre.cpu.admits id = true →
        Entered .external st.pre.cpu st.post.cpu ∨ Entered .tickTimer st.pre.cpu st.post.cpu) ∧
      ((∃ st ∈ l, samples st.pre st.act = true) → m'.executes = true → m'.cpu.admits id = false) := by
  suffices hall : m'.cpu.raised id = true ∧
      (∀ st ∈ l, samples st.pre st.act = true → st.pre.cpu.admits id = true →
        Entered .external st.pre.cpu st.post.cpu ∨ Entered .tickTimer st.pre.cpu st.post.cpu) ∧
      ((∃ st ∈ l, samples st.pre st.act = true) → Looked id m') by
    refine ⟨hall.1, hall.2.1, fun hs hx => ?_⟩
    have hinner : ∃ limit, m'.phase = .inner limit := by
      unfold executes at hx
      split at hx
      · exact ⟨_, ‹_›⟩
      · cases hx
    obtain ⟨limit, hp⟩ := hinner
    exact hall.2.2 hs (fun r => by rw [hp]; exact nofun) (by rw [hp]; exact nofun)
  induction h with
  | refl =>
    exact ⟨hr, fun st hm => (List.not_mem_nil hm).elim, fun ⟨st, hm, _⟩ => (List.not_mem_nil hm).elim⟩
  | @tail l t u a _ hn ih =>
    obtain ⟨hraised, hserved, hlooked⟩ := ih fun st hm => hw st (List.mem_append_left _ hm)
    have hlast : (⟨t, a, u⟩ : Move (Machine σ) (Action σ)) ∈ l ++ [⟨t, a, u⟩] :=
      List.mem_append_right _ (List.mem_singleton_self _)
    refine ⟨act_raised hn hraised (hw _ hlast), fun st hm hs ha => ?_, fun ⟨st, hm, hs⟩ => ?_⟩
    · rcases List.mem_append.1 hm with hm | hm
      · exact hserved st hm hs ha
      · cases List.mem_singleton.1 hm
        exact act_serves hn hs hraised ha
    · refine act_looked hn hraised ?_
      rcases List.mem_append.1 hm with hm | hm
      · exact .inr (hlooked ⟨st, hm, hs⟩)
      · cases List.mem_singleton.1 hm
        exact .inl hs

end Run

attribute [local instance] HostLib.plain

/-- A program that unmasks line 3 and enables interrupts, while the line is raised. -/
theorem line_served_unmasked : ∃ (m m' : Machine Memory) (l : List (Move (Machine Memory) (Action Memory))),
    m.cpu.raised 3 = true ∧ system.Path m l m' ∧
      (∃ st ∈ l, samples st.pre st.act = true ∧ st.pre.cpu.admits 3 = true ∧
        (Entered .external st.pre.cpu st.post.cpu ∨ Entered .tickTimer st.pre.cpu st.post.cpu)) ∧
      m'.executes = true ∧ m'.cpu.raised 3 = true ∧ m'.cpu.admits 3 = false := by
  let b : Machine Memory := Memory.boot [(0x100, 0xa8600008#32), (0x104, 0xc1201800#32),
    (0x108, 0xa8800005#32), (0x10c, 0xc0002011#32)]
  let m : Machine Memory := { b with cpu := b.cpu.withCore (b.cpu.toCore.interrupt 3 true) }
  obtain ⟨l, m', hl, hn, hk, hx⟩ := System.exists_path system
    (fun st => samples st.pre st.act && st.pre.cpu.admits 3)
    (fun m a => !test (m.withdraws a) (irqLine 3)) m
    [.call 8, .run, .run, .run, .run, .run, .run, .run, .run, .run] 1 executes (by decide +kernel)
  have hw : ∀ st ∈ l, test (st.pre.withdraws st.act) (irqLine 3) = false := fun st hm => by
    rw [← Bool.not_eq_true']
    exact hk st hm
  have hr : m.cpu.raised 3 = true := by decide +kernel
  obtain ⟨hraised, hserved, hlooked⟩ := line_served hl hr hw
  obtain ⟨st, hm, hp⟩ := List.countP_pos_iff.1 (hn ▸ Nat.one_pos)
  rw [Bool.and_eq_true] at hp
  exact ⟨m, m', l, hr, hl, ⟨st, hm, hp.1, hp.2, hserved st hm hp.1 hp.2⟩, hx, hraised,
    hlooked ⟨st, hm, hp.1⟩ hx⟩

end Machine

end Or1kiss
