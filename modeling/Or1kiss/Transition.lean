import Or1kiss.Executed
import Or1kiss.Machine

/-!
# The transitions of a machine

`Transition` lists what an action can do, one constructor for each stretch of `advance` and
each kind of outside event. Invariants of runs are proved by cases on it.
-/

namespace Or1kiss

open Host Bits

variable {σ : Type}

/-- An action of the owner of the CPU object between two calls. -/
def Action.isOutside : Action σ → Bool
  | .call _ | .run | .interrupt _ _ => false
  | _ => true

/-- What takes place while `or1k::step` runs. -/
def Action.inside : Action σ → Bool
  | .run => true
  | .interrupt _ _ => true
  | _ => false

theorem Action.isOutside_of_inside {a : Action σ} (h : a.inside = true) : a.isOutside = false := by
  cases a with
  | run | interrupt => rfl
  | _ => cases h

namespace Machine

/-- `advance` is about to execute an instruction. -/
def executes (m : Machine σ) : Bool :=
  match m.phase with
  | .inner limit => decide (m.cpu.cycles < limit)
  | _ => false

/-- The step executes an instruction. -/
def IsIteration (st : Runs.Move (Machine σ) (Action σ)) : Prop :=
  st.act = .run ∧ st.pre.executes = true

/-- The machine after an iteration that left `x` before retiring. -/
def retired (limit : Nat) (x : Or1k σ) : Machine σ :=
  iterated (x.retire.after, x.retire.newLimit limit, x.retire.redirect)

theorem retired_cpu (limit : Nat) (x : Or1k σ) : (retired limit x).cpu = x.retire.redirect := by
  simp only [retired, iterated]
  cases x.retire.after <;> rfl

/-- What reads neither registers, SR nor the program counters is the same behind retiring. -/
theorem redirect_frame {T : Type} (f : Or1k σ → T) (x : Or1k σ)
    (hf : ∀ g st pc npc, f { x with gpr := g, status := st, prevPc := pc, nextPc := npc } = f x) :
    f x.retire.redirect = f x := by
  unfold Or1k.redirect
  split <;> exact hf _ _ _ _

theorem retired_frame {T : Type} (f : Or1k σ → T) (limit : Nat) (x : Or1k σ)
    (hf : ∀ g st pc npc, f { x with gpr := g, status := st, prevPc := pc, nextPc := npc } = f x) :
    f (retired limit x).cpu = f x := by
  rw [retired_cpu]
  exact redirect_frame f x hf

theorem drained_cpu (s : Or1k σ) : (drained s).cpu = s := by
  simp only [drained]; split_ifs <;> rfl

variable [EnvImpl σ]

/-- The state in which `advance` reaches its outer loop. -/
def began (n : U32) (s : Or1k σ) : Or1k σ :=
  ({ s with limit := s.cycles + n.toNat }.externalChecked).dozed

/-- The start of a call accepts an external exception, or the tick exception, or none. -/
theorem began_cases {n : U32} {s : Or1k σ} :
    Or1k.Ignored s (began n s) ∨ ∃ e, Or1k.Accepted e s (began n s) := by
  let b : Or1k σ := { s with limit := s.cycles + n.toNat }
  rcases Or1k.externalChecked_cases (s := b) with he | ha
  · have hd : began n s = b.dozed := congrArg Or1k.dozed he
    rw [hd]
    rcases Or1k.dozed_cases (s := b) with hi | ha
    · exact .inl ⟨hi.taken, hi.nextPc, hi.status, hi.jumpInsn, hi.jumpTarget, hi.expc, hi.exea,
        hi.exsr⟩
    · exact .inr ⟨.tickTimer, ha.async, ha.enabled, ha.taken, ha.nextPc, ha.mode, ha.expc, ha.exsr,
        ha.jumpInsn, ha.jumpTarget, ha.awake⟩
  · have hd : began n s = b.externalChecked := Or1k.dozed_awake ha.awake
    rw [hd]
    exact .inr ⟨.external, ha.async, ha.enabled, ha.taken, ha.nextPc, ha.mode, ha.expc, ha.exsr,
      ha.jumpInsn, ha.jumpTarget, ha.awake⟩

theorem began_steady {n : U32} {s : Or1k σ} : Or1k.Steady s (began n s) := by
  have hb : Or1k.Steady s { s with limit := s.cycles + n.toNat } := by
    constructor <;> first | exact Nat.le_refl _ | rfl
  exact hb.trans (Or1k.externalChecked_steady.trans Or1k.dozed_steady)

/-- What an action from outside leaves: a debugger has written a register, memory and devices have
changed, or the owner of the CPU object has set it up. -/
inductive Outside (s : Or1k σ) : Action σ → Or1k σ → Prop where
  | writeSpr (reg val : U32) : Outside s (.writeSpr reg val) (s.sprWritten reg val true)
  | writeGpr (i : Fin 32) (v : U32) : Outside s (.writeGpr i v) (s.setGpr i v)
  | world (w : World σ) : Outside s (.world w) { s with env := { s.env with world := w } }
  | setUp (a : Action σ) (b : List U32) (r w : List Watchpoint) (clock : Nat) (sleep level : Bool)
      (id n : U32) : Outside s a { s with
        breakpoints := b, watchpointsR := r, watchpointsW := w, clock := clock,
        allowSleep := sleep, picLevel := level, coreId := id, numCores := n }

theorem outside_ok {s s' : Or1k σ} {a : Action σ} (h : outside s a = .ok s') : Outside s a s' := by
  cases a with
  | writeSpr reg val =>
    have h : s.setSpr reg val true = .ok s' := h
    rw [Or1k.setSpr_eq] at h
    cases h
    exact .writeSpr reg val
  | writeGpr i v =>
    cases h
    exact .writeGpr i v
  | world w =>
    cases h
    exact .world w
  | insertBreakpoint addr =>
    cases h
    unfold Or1k.insertBreakpoint
    split <;> exact .setUp ..
  | insertWatchpoint w wp | removeWatchpoint w wp =>
    cases h
    cases w <;> exact .setUp ..
  | _ =>
    cases h
    exact .setUp ..

theorem outside_ne_throw {s s' : Or1k σ} {a : Action σ} : outside s a ≠ .throw s' := by
  cases a <;> simp [outside, Or1k.setSpr_eq]

variable [HostLib]

inductive Transition : Machine σ → Action σ → Machine σ → Prop where
  | begin (r : Option StepResult) (s : Or1k σ) (n : U32) :
      Transition ⟨.idle r, s⟩ (.call n) ⟨.outer, began n s⟩
  | mini (s : Or1k σ) (h : s.cycles < s.limit) :
      Transition ⟨.outer, s⟩ .run ⟨.inner s.beginMini.miniLimit, s.beginMini⟩
  | finish (s : Or1k σ) (h : ¬s.cycles < s.limit) :
      Transition ⟨.outer, s⟩ .run ⟨.idle (some .ok), s⟩
  | iterate (limit : Nat) (s x : Or1k σ) (h : s.cycles < limit)
      (hx : s.beginCycle.fetchExecute = .ok x) :
      Transition ⟨.inner limit, s⟩ .run (retired limit x)
  | throw (limit : Nat) (s x : Or1k σ) (h : s.cycles < limit)
      (hx : s.beginCycle.fetchExecute = .throw x) :
      Transition ⟨.inner limit, s⟩ .run ⟨.idle none, x⟩
  | leave (limit : Nat) (s : Or1k σ) (h : ¬s.cycles < limit) :
      Transition ⟨.inner limit, s⟩ .run ⟨.drain, s⟩
  | drain (s : Or1k σ) : Transition ⟨.drain, s⟩ .run (drained s.timerUpdated.externalChecked)
  | interrupt (p : Phase) (s : Or1k σ) (id : Fin 32) (set : Bool) :
      Transition ⟨p, s⟩ (.interrupt id set) ⟨p, s.withCore (s.toCore.interrupt id set)⟩
  | outside (r : Option StepResult) (s s' : Or1k σ) (a : Action σ) (ha : a.isOutside = true)
      (h : outside s a = .ok s') : Transition ⟨.idle r, s⟩ a ⟨.idle r, s'⟩

variable {m m' : Machine σ} {a : Action σ}

theorem next_transition (h : m.next = some m') : Transition m .run m' := by
  obtain ⟨p, s⟩ := m
  cases p with
  | idle r => cases h
  | outer =>
    simp only [next] at h
    split at h
    · cases h; exact .mini s ‹_›
    · cases h; exact .finish s ‹_›
  | inner limit =>
    simp only [next] at h
    split at h
    · rename_i hl
      cases hi : s.iterate limit with
      | ok r =>
        rw [hi] at h
        cases h
        obtain ⟨x, hx, rfl⟩ := Or1k.iterate_ok hi
        exact .iterate limit s x hl hx
      | throw s' =>
        rw [hi] at h
        cases h
        exact .throw limit s s' hl (Or1k.iterate_throw hi)
      | fault f => rw [hi] at h; cases h
    · cases h; exact .leave limit s ‹_›
  | drain =>
    simp only [next, Or1k.endMini_eq] at h
    cases h; exact .drain s

/-- An action from outside, taken between two calls. -/
def between (m : Machine σ) (a : Action σ) : Option (Machine σ) :=
  match m.phase with
  | .idle r => ofOutcome (outside m.cpu a) fun s => { phase := .idle r, cpu := s }
  | _ => none

theorem act_outside {a : Action σ} (ha : a.isOutside = true) : m.act a = m.between a := by
  cases a with
  | run => cases ha
  | call n => cases ha
  | interrupt id set => cases ha
  | _ => rfl

/-- What an action can do. -/
theorem act_transition (h : m.act a = some m') : Transition m a m' := by
  have hout : ∀ b : Action σ, b.isOutside = true → m.act b = some m' → Transition m b m' := by
    intro b hb h
    rw [act_outside hb] at h
    obtain ⟨p, s⟩ := m
    cases p with
    | idle r =>
      cases hs : outside s b with
      | ok s' =>
        simp only [between, hs, ofOutcome] at h
        cases h
        exact .outside r s s' b hb hs
      | throw s' => exact (outside_ne_throw hs).elim
      | fault f =>
        simp only [between, hs, ofOutcome] at h
        cases h
    | outer | inner _ | drain => cases h
  cases a with
  | run => exact next_transition h
  | interrupt id set => cases h; exact .interrupt m.phase m.cpu id set
  | call n =>
    obtain ⟨p, s⟩ := m
    cases p with
    | idle r =>
      simp only [act, Or1k.beginQuantum_eq] at h
      cases h; exact .begin r s n
    | outer | inner _ | drain => cases h
  | _ => exact hout _ rfl h

/-- An iteration leaves what its instruction left, retired, or what the host unwound to. -/
theorem iteration_cases (hx : m.executes = true) (hn : m.next = some m') :
    (∃ limit x, m.cpu.beginCycle.fetchExecute = .ok x ∧ m' = retired limit x) ∨
      ∃ x, m.cpu.beginCycle.fetchExecute = .throw x ∧ m' = ⟨.idle none, x⟩ := by
  cases next_transition hn with
  | mini | finish | drain => cases hx
  | iterate limit s x hl h => exact .inl ⟨limit, x, h, rfl⟩
  | throw limit s x hl h => exact .inr ⟨x, h, rfl⟩
  | leave limit s hl => simp [executes, hl] at hx
  | outside r s s' a ha h => cases ha

end Machine

end Or1kiss
