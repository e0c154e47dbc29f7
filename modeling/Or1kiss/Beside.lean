import Or1kiss.Aside
import Or1kiss.Transition

/-!
# What the simulator around the core does not look at

Besides fetches, loads and stores, nothing in `advance` depends on the port, on the request of the
last fetch, on the decode cache or on the number of compiled instructions (`Rest`) in any other way
than through the few operations of `Bystander`: simulators whose rests are related there (`Beside`)
go to such simulators (`execute_beside`, `next_beside`, `outside_beside`).
-/

namespace Or1kiss

open Host Bits Outcome

variable {σ : Type}

/-- The port, the request of the last fetch, the decode cache and the compile counter. -/
structure Rest (σ : Type) where
  env : Env σ
  ireq : Request
  decodeCache : DecodeCache
  compiles : Nat

/-- A relation that the operations on a rest keep, and by which they return the same. -/
structure Bystander [EnvImpl σ] (P : Rest σ → Rest σ → Prop) : Prop where
  host : ∀ {p q}, P p q → q.env.hostEndian = p.env.hostEndian
  direct : ∀ {p q}, P p q → ∀ a, q.env.getDataPtr a = p.env.getDataPtr a
  sleep : ∀ {p q}, P p q → ∀ n,
    (EnvImpl.sleep n q.env.world).1 = (EnvImpl.sleep n p.env.world).1 ∧
      P { p with env := { p.env with world := (EnvImpl.sleep n p.env.world).2 } }
        { q with env := { q.env with world := (EnvImpl.sleep n q.env.world).2 } }
  invalidate : ∀ {p q}, P p q → ∀ a n,
    P { p with decodeCache := p.decodeCache.invalidateBlock a n }
      { q with decodeCache := q.decodeCache.invalidateBlock a n }
  reset : ∀ {p q}, P p q → P { p with compiles := 0 } { q with compiles := 0 }

namespace Or1k

def rest (s : Or1k σ) : Rest σ := ⟨s.env, s.ireq, s.decodeCache, s.compiles⟩

/-- The same simulator with another rest. -/
def swap (r : Rest σ) (s : Or1k σ) : Or1k σ :=
  { s with env := r.env, ireq := r.ireq, decodeCache := r.decodeCache, compiles := r.compiles }

/-- The rests are related, and all else is the same. -/
def Beside (P : Rest σ → Rest σ → Prop) (s t : Or1k σ) : Prop := ∃ r, P s.rest r ∧ t = s.swap r

variable {P : Rest σ → Rest σ → Prop} {s t : Or1k σ} {ci : Instruction}

variable [EnvImpl σ] (hP : Bystander P)

include hP

/-- What the core does beside its port and its request. -/
theorem onCore_beside {f : Core σ → Outcome Empty (Core σ)}
    (hf : ∀ {o n : Env σ × Request} {c d : Core σ}, n.1.hostEndian = o.1.hostEndian →
      Core.Aside o n c d → Core.Beside o n (f c) (f d)) (h : Beside P s t) :
    Both (Beside P) (Beside P) (s.onCore (f s.toCore)) (t.onCore (f t.toCore)) := by
  obtain ⟨r, hr, rfl⟩ := h
  have ha : Core.Aside (s.env, s.ireq) (r.env, r.ireq) s.toCore (s.swap r).toCore := ⟨rfl, rfl, rfl⟩
  refine (hf (hP.host hr) ha).lift (fun e => e.elim) fun c d hcd => ⟨r, ?_, ?_⟩
  · show P ⟨c.env, c.ireq, s.decodeCache, s.compiles⟩ r
    rw [hcd.env, hcd.ireq]
    exact hr
  · rw [hcd.eq]
    rfl

theorem exception_beside (h : Beside P s t) (e : ExType) (addr : U32) :
    Both (Beside P) (Beside P) (s.exception e addr) (t.exception e addr) :=
  onCore_beside hP (fun _ h => Core.exception_aside h e addr) h

theorem interrupted_beside (h : Beside P s t) {e : ExType} (he : e.isAsync = true) :
    Beside P (s.interrupted e) (t.interrupted e) := by
  have hx := exception_beside hP h e 0#32
  rw [exception_async he, exception_async he] at hx
  cases hx with
  | ok h => exact h

theorem externalChecked_beside (h : Beside P s t) : Beside P s.externalChecked t.externalChecked := by
  have hp : t.isInterruptPending = s.isInterruptPending := by
    obtain ⟨r, hr, rfl⟩ := h
    rfl
  unfold externalChecked
  rw [hp]
  split
  · exact interrupted_beside hP h rfl
  · exact h

theorem timerUpdated_beside (h : Beside P s t) : Beside P s.timerUpdated t.timerUpdated := by
  have hc : Beside P s.tickChecked t.tickChecked := by
    have ht : t.tick.enabled = s.tick.enabled ∧ t.syncTick.tick.irqPending =
        s.syncTick.tick.irqPending ∧ Beside P s.syncTick t.syncTick := by
      obtain ⟨r, hr, rfl⟩ := h
      exact ⟨rfl, rfl, r, hr, rfl⟩
    obtain ⟨he, hp, hs⟩ := ht
    unfold tickChecked
    rw [he, hp]
    split
    · split
      · exact interrupted_beside hP hs rfl
      · exact hs
    · exact h
  have hcyc : t.cycles = s.cycles := by
    obtain ⟨r, hr, rfl⟩ := h
    rfl
  obtain ⟨r, hr, hc⟩ := hc
  unfold timerUpdated
  rw [hc, hcyc]
  exact ⟨r, hr, rfl⟩

theorem dozed_beside (h : Beside P s t) : Beside P s.dozed t.dozed := by
  have hp : (!test t.pmr PMR.DME || !t.allowSleep) = (!test s.pmr PMR.DME || !s.allowSleep) ∧
      t.dozeSkip = s.dozeSkip := by
    obtain ⟨r, hr, rfl⟩ := h
    exact ⟨rfl, rfl⟩
  have hs : ∀ skip, (t.sleep skip).1 = (s.sleep skip).1 ∧
      Beside P (s.sleep skip).2 (t.sleep skip).2 := by
    obtain ⟨r, hr, rfl⟩ := h
    exact fun skip => ⟨(hP.sleep hr skip).1, _, (hP.sleep hr skip).2, rfl⟩
  obtain ⟨hr, hx⟩ := hs s.dozeSkip
  unfold dozed
  rw [hp.1, hp.2]
  dsimp only
  rw [hr]
  split
  · exact h
  · split
    · obtain ⟨r, hr, hx⟩ := hx
      rw [hx]
      exact ⟨r, hr, rfl⟩
    · refine timerUpdated_beside hP ?_
      obtain ⟨r, hr, hx⟩ := hx
      rw [hx]
      exact ⟨r, hr, rfl⟩

theorem regWritten_beside (h : Beside P s t) (reg val : U32) :
    Beside P (s.regWritten reg val) (t.regWritten reg val) := by
  unfold regWritten
  cases SpReg.ofNum reg with
  | none =>
    obtain ⟨r, hr, rfl⟩ := h
    cases SprFile.ofNum reg.toNat with
    | none => exact ⟨r, hr, rfl⟩
    | some f => cases f <;> exact ⟨r, hr, rfl⟩
  | some x =>
    cases x with
    | icbir =>
      obtain ⟨r, hr, rfl⟩ := h
      have hi := hP.invalidate hr val 32
      dsimp only [rest] at hi
      dsimp only
      rw [show (s.swap r).decodeCache = r.decodeCache from rfl]
      generalize s.decodeCache.invalidateBlock val 32 = d at hi ⊢
      generalize r.decodeCache.invalidateBlock val 32 = d' at hi ⊢
      exact ⟨_, hi, rfl⟩
    | pmr =>
      refine dozed_beside hP ?_
      obtain ⟨r, hr, rfl⟩ := h
      exact ⟨r, hr, rfl⟩
    | picsr =>
      obtain ⟨r, hr, rfl⟩ := h
      dsimp only [Core.writeReg]
      rw [show (s.swap r).picLevel = s.picLevel from rfl]
      split <;> exact ⟨r, hr, rfl⟩
    | _ =>
      obtain ⟨r, hr, rfl⟩ := h
      exact ⟨r, hr, rfl⟩

theorem sprWritten_beside (h : Beside P s t) (reg val : U32) (debug : Bool) :
    Beside P (s.sprWritten reg val debug) (t.sprWritten reg val debug) := by
  have hd : t.writeDenied reg debug = s.writeDenied reg debug ∧
      Beside P s.requestBreak t.requestBreak := by
    obtain ⟨r, hr, rfl⟩ := h
    exact ⟨rfl, r, hr, rfl⟩
  unfold sprWritten
  rw [hd.1]
  split
  · exact hd.2
  · exact regWritten_beside hP hd.2 reg val

/-! ## Executors -/

theorem mfspr_beside (h : Beside P s t) :
    Both (Beside P) (Beside P) (s.executeOrbis32Mfspr ci) (t.executeOrbis32Mfspr ci) := by
  obtain ⟨r, hr, rfl⟩ := h
  refine onCore_beside hP (f := fun c => c.deref ci ci.src1 >>= fun a =>
    c.assign ci.dest (s.getSpr (a ||| ci.imm) false)) (fun _ ha => ?_) ⟨r, hr, rfl⟩
  obtain ⟨he, hq, rfl⟩ := ha
  exact Core.aside_reads _ fun a => Core.assign_aside ⟨he, hq, rfl⟩ _ _

omit [EnvImpl σ] hP in
theorem deref_beside (h : Beside P s t) (op : Operand) :
    Both (Beside P) Eq (s.deref ci op) (t.deref ci op) := by
  obtain ⟨r, hr, rfl⟩ := h
  change Both (Beside P) Eq (s.toCore.deref ci op).widen (s.toCore.deref ci op).widen
  cases s.toCore.deref ci op with
  | ok a => exact .ok rfl
  | throw e => exact e.elim
  | fault f => exact .fault f

theorem mtspr_beside (h : Beside P s t) :
    Both (Beside P) (Beside P) (s.executeOrbis32Mtspr ci) (t.executeOrbis32Mtspr ci) := by
  refine (deref_beside h ci.src1).bind fun b _ hb => (deref_beside h ci.dest).bind fun a _ ha => ?_
  subst hb ha
  rw [setSpr_eq, setSpr_eq]
  exact .ok (sprWritten_beside hP h _ _ _)

theorem rfe_beside (h : Beside P s t) :
    Both (Beside P) (Beside P) (s.executeOrbis32Rfe ci) (t.executeOrbis32Rfe ci) := by
  have hg : ∀ {s t : Or1k σ} (reg : U32), Beside P s t → t.getSpr reg false = s.getSpr reg false := by
    rintro s t reg ⟨r, hr, rfl⟩
    rfl
  unfold executeOrbis32Rfe
  rw [hg _ h]
  refine Both.bind (onCore_beside hP (fun _ h => Core.scheduleJump_aside h _ _) h) fun x y hxy => ?_
  rw [setSpr_eq, setSpr_eq, hg _ hxy]
  exact .ok (sprWritten_beside hP hxy _ _ _)

variable [HostLib]

theorem nop_beside (h : Beside P s t) :
    Both (Beside P) (Beside P) (s.executeOrbis32Nop ci) (t.executeOrbis32Nop ci) := by
  obtain ⟨r, hr, rfl⟩ := h
  have hd : (s.swap r).env.getDataPtr ((s.swap r).gpr 3) = s.env.getDataPtr (s.gpr 3) :=
    hP.direct hr (s.gpr 3)
  unfold executeOrbis32Nop
  rw [hd]
  split
  any_goals exact .ok ⟨r, hr, rfl⟩
  · exact .ok ⟨_, hP.reset hr, rfl⟩
  · rw [show (s.swap r).clock = s.clock from rfl]
    split
    · exact .fault _
    · exact .ok ⟨r, hr, rfl⟩
  · split
    · exact .ok ⟨r, hr, rfl⟩
    · exact .fault _

/-- Only loads and stores look at the port, and nothing that is executed looks at the cache. -/
theorem execute_beside (h : Beside P s t) (hm : ∀ e, ci.exec = some (.mem e) →
      Both (Beside P) (Beside P) (s.executeMem e ci) (t.executeMem e ci)) :
    Both (Beside P) (Beside P) (s.execute ci) (t.execute ci) := by
  unfold execute
  split
  · exact .fault _
  · exact onCore_beside hP (fun hh h => Core.execute_aside hh h _) h
  · exact hm _ ‹_›
  · exact mfspr_beside hP h
  · exact mtspr_beside hP h
  · exact nop_beside hP h
  · exact rfe_beside hP h

/-! ## The loop -/

omit hP [EnvImpl σ] [HostLib] in
theorem retire_beside (h : Beside P s t) (limit : Nat) : t.retire.after = s.retire.after ∧
    t.retire.newLimit limit = s.retire.newLimit limit ∧
      Beside P s.retire.redirect t.retire.redirect := by
  have hj : t.retire.jumpDue = s.retire.jumpDue := by
    obtain ⟨r, hr, rfl⟩ := h
    rfl
  unfold newLimit redirect
  rw [hj]
  obtain ⟨r, hr, rfl⟩ := h
  split <;> exact ⟨rfl, rfl, r, hr, rfl⟩

end Or1k

namespace Machine

open Or1k

variable {P : Rest σ → Rest σ → Prop} {m t : Machine σ} {a : Action σ}

/-- Both are at the same point of `advance`. -/
def Beside (P : Rest σ → Rest σ → Prop) (m t : Machine σ) : Prop :=
  t.phase = m.phase ∧ Or1k.Beside P m.cpu t.cpu

theorem ofOutcome_beside {α β : Type} {R : α → β → Prop} {x : Outcome (Or1k σ) α}
    {y : Outcome (Or1k σ) β} {f : α → Machine σ} {g : β → Machine σ} (h : Both (Or1k.Beside P) R x y)
    (hf : ∀ a b, R a b → Beside P (f a) (g b)) : Option.Rel (Beside P) (ofOutcome x f) (ofOutcome y g) := by
  cases h with
  | ok h => exact .some (hf _ _ h)
  | throw h => exact .some ⟨rfl, h⟩
  | fault e => exact .none

variable [EnvImpl σ] (hP : Bystander P)

include hP

/-- One stretch of `advance`, if the instruction that it may execute goes the same way. -/
theorem next_beside [HostLib] (h : Beside P m t) (hx : m.executes = true →
      Both (Or1k.Beside P) (Or1k.Beside P) m.cpu.beginCycle.fetchExecute t.cpu.beginCycle.fetchExecute) :
    Option.Rel (Beside P) m.next t.next := by
  obtain ⟨p, s⟩ := m
  obtain ⟨q, u⟩ := t
  obtain ⟨hphase, h⟩ := h
  dsimp only at hphase h hx
  subst hphase
  have hcyc : u.cycles = s.cycles ∧ u.limit = s.limit := by
    obtain ⟨r, hr, rfl⟩ := h
    exact ⟨rfl, rfl⟩
  unfold next
  cases q with
  | idle r => exact .none
  | outer =>
    dsimp only
    rw [hcyc.1, hcyc.2]
    obtain ⟨r, hr, rfl⟩ := h
    split <;> exact .some ⟨rfl, r, hr, rfl⟩
  | inner limit =>
    dsimp only
    rw [hcyc.1]
    split
    · rename_i hl
      have hi : Both (Or1k.Beside P) (fun a b => b.1 = a.1 ∧ b.2.1 = a.2.1 ∧
          Or1k.Beside P a.2.2 b.2.2) (s.iterate limit) (u.iterate limit) :=
        (hx (decide_eq_true hl)).bind fun x y hxy => .ok (retire_beside hxy limit)
      refine ofOutcome_beside hi ?_
      rintro ⟨i, l, x⟩ ⟨j, l', y⟩ ⟨hi, hlim, hxy⟩
      dsimp only at hi hlim hxy
      subst hi hlim
      unfold iterated
      cases j <;> exact ⟨rfl, hxy⟩
    · exact .some ⟨rfl, h⟩
  | drain =>
    dsimp only
    rw [endMini_eq, endMini_eq]
    have hx := externalChecked_beside hP (timerUpdated_beside hP h)
    generalize s.timerUpdated.externalChecked = x at hx ⊢
    obtain ⟨r, hr, hx⟩ := hx
    rw [hx]
    refine .some ?_
    unfold drained
    rw [show (x.swap r).breakpointHit = x.breakpointHit from rfl]
    split
    · exact ⟨rfl, r, hr, rfl⟩
    · rw [show (x.swap r).wpEvent = x.wpEvent from rfl]
      split <;> exact ⟨rfl, r, hr, rfl⟩

theorem outside_beside {s u : Or1k σ} (h : Or1k.Beside P s u) (a : Action σ)
    (hw : ∀ w, a = .world w → Or1k.Beside P { s with env := { s.env with world := w } }
      { u with env := { u.env with world := w } }) :
    Both (Or1k.Beside P) (Or1k.Beside P) (outside s a) (outside u a) := by
  cases a with
  | writeSpr reg val =>
    show Both _ _ (s.setSpr reg val true) (u.setSpr reg val true)
    rw [setSpr_eq, setSpr_eq]
    exact .ok (sprWritten_beside hP h reg val true)
  | world w => exact .ok (hw w rfl)
  | insertBreakpoint addr =>
    obtain ⟨r, hr, rfl⟩ := h
    refine .ok ?_
    unfold insertBreakpoint
    rw [show (s.swap r).breakpoints = s.breakpoints from rfl]
    split <;> exact ⟨r, hr, rfl⟩
  | insertWatchpoint w wp | removeWatchpoint w wp =>
    obtain ⟨r, hr, rfl⟩ := h
    cases w <;> exact .ok ⟨r, hr, rfl⟩
  | _ =>
    obtain ⟨r, hr, rfl⟩ := h
    exact .ok ⟨r, hr, rfl⟩

/-- The two take every step together. -/
theorem act_beside [HostLib] (h : Beside P m t)
    (hx : a = .run → m.executes = true → Both (Or1k.Beside P) (Or1k.Beside P)
      m.cpu.beginCycle.fetchExecute t.cpu.beginCycle.fetchExecute)
    (hw : ∀ w, a = .world w → Or1k.Beside P { m.cpu with env := { m.cpu.env with world := w } }
      { t.cpu with env := { t.cpu.env with world := w } }) :
    Option.Rel (Beside P) (m.act a) (t.act a) := by
  have hout : a.isOutside = true → Option.Rel (Beside P) (m.act a) (t.act a) := by
    intro ha
    rw [act_outside ha, act_outside ha, between, between, h.1]
    split
    · exact ofOutcome_beside (outside_beside hP h.2 a hw) fun _ _ hxy => ⟨rfl, hxy⟩
    · exact .none
  cases a with
  | run => exact next_beside hP h (hx rfl)
  | interrupt id set =>
    refine .some ⟨h.1, ?_⟩
    obtain ⟨r, hr, he⟩ := h.2
    have hi : (m.cpu.swap r).toCore.interrupt id set =
        (m.cpu.toCore.interrupt id set).aside (r.env, r.ireq) := by
      unfold Core.interrupt
      rw [show (m.cpu.swap r).picLevel = m.cpu.picLevel from rfl]
      split_ifs <;> rfl
    have hk : (m.cpu.toCore.interrupt id set).env = m.cpu.env ∧
        (m.cpu.toCore.interrupt id set).ireq = m.cpu.ireq := by
      obtain ⟨v, he⟩ := m.cpu.toCore.interrupt_eq id set
      rw [he]
      exact ⟨rfl, rfl⟩
    refine ⟨r, ?_, ?_⟩
    · show P ⟨(m.cpu.toCore.interrupt id set).env, (m.cpu.toCore.interrupt id set).ireq, _, _⟩ r
      rw [hk.1, hk.2]
      exact hr
    · rw [he, hi]
      rfl
  | call n =>
    obtain ⟨p, s⟩ := m
    obtain ⟨q, u⟩ := t
    obtain ⟨hphase, h⟩ := h
    dsimp only at hphase h
    subst hphase
    cases q with
    | idle r =>
      unfold act
      dsimp only
      rw [beginQuantum_eq, beginQuantum_eq]
      refine .some ⟨rfl, dozed_beside hP (externalChecked_beside hP ?_)⟩
      obtain ⟨r, hr, rfl⟩ := h
      exact ⟨r, hr, rfl⟩
    | outer | inner _ | drain => exact .none
  | _ => exact hout rfl

end Machine

end Or1kiss
