import Or1kiss.Transition
import Or1kiss.HostStack
import Or1kiss.Memory

/-!
# How deep exceptions nest

A misaligned jump target raises an exception, whose vector is a jump target in turn. If EVBAR is
aligned to words, so are all vectors, and two nested calls are enough (`Core.Shallow`). If it is
not, no number of calls is: every synchronous exception raises another one. EVBAR is written by
`l.mtspr` and by a debugger, as it comes; `exceptions_nest_iff` says that those writes decide.
-/

namespace Or1kiss

open Host Bits Outcome Runs

variable {σ : Type}

namespace Core

variable {c : Core σ} {t : ExType}

/-- No call of `exception` or `schedule_jump` nests deeper than two. -/
structure Shallow (c : Core σ) : Prop where
  exception : ∀ t addr, Returns (exceptionAt 2 t addr c)
  jump : ∀ target delay, Returns (c.scheduleJumpWith (exceptionAt 1) target delay)

theorem exceptionAt_returns (h : t.isAsync = true ∨ isAligned c.evba 4 = true) (n : Nat)
    (addr : U32) : Returns (exceptionAt (n + 1) t addr c) := by
  rw [exceptionAt_succ h]
  split <;> exact avoids_ok _

/-- A call of `exception` ends within two calls, or never. -/
theorem exceptionAt_two_or_never (c : Core σ) (t : ExType) (addr : U32) :
    (t.isAsync = true ∨ isAligned c.evba 4 = true → Returns (exceptionAt 2 t addr c)) ∧
      (¬(t.isAsync = true ∨ isAligned c.evba 4 = true) → ∀ n, ¬Returns (exceptionAt n t addr c)) := by
  refine ⟨fun h => exceptionAt_returns h 1 addr, fun h n hr => ?_⟩
  rw [not_or, Bool.not_eq_true, Bool.not_eq_true] at h
  exact hr (exceptionAt_misaligned h.1 h.2 n addr)

theorem shallow_iff : c.Shallow ↔ isAligned c.evba 4 = true := by
  constructor
  · intro h
    by_contra he
    have hr := h.exception .syscall 0#32
    rw [exceptionAt_misaligned rfl (by simpa using he)] at hr
    exact hr rfl
  · intro he
    refine ⟨fun t addr => exceptionAt_returns (.inr he) 1 addr, fun target delay => ?_⟩
    unfold scheduleJumpWith
    dsimp only
    split
    · exact avoids_ok _
    · exact exceptionAt_returns (c := c.setJump target (c.instructions + delay)) (.inr he) 0 _

theorem entered_evba (t : ExType) (addr : U32) : (c.entered t addr).evba = c.evba := by
  unfold entered
  dsimp only
  split <;> rfl

end Core

/-! ## Writes to EVBAR -/

namespace Or1k

variable {s x : Or1k σ} {ci : Instruction}

/-- A write of a register, if it is one of EVBAR. -/
def evbarWrite (reg val : U32) : Option U32 := if reg = SpReg.evbar.num then some val else none

/-- What an `l.mtspr` writes to EVBAR; user mode may not. -/
def movedToEvbar (s : Or1k σ) (ci : Instruction) : Option U32 :=
  match s.toCore.deref ci ci.dest, s.toCore.deref ci ci.src1 with
  | .ok a, .ok b => if s.isSupervisor then evbarWrite (a ||| ci.imm) b else none
  | _, _ => none

/-- What the next instruction writes to EVBAR. -/
def evbarUpdate [EnvImpl σ] (s : Or1k σ) : Option U32 :=
  match s.fetch with
  | .ok (some ci, f) => if ci.exec = some .mtspr then f.movedToEvbar ci else none
  | _ => none

theorem FetchedInsn.evba (h : FetchedInsn s x) : x.evba = s.evba := by
  obtain ⟨c, _, _, hc, rfl⟩ := h
  exact hc.evba

theorem FetchRefused.evba (h : FetchRefused s x) : x.evba = s.evba := by
  obtain ⟨b, c, hb, ⟨t, addr, -, -, rfl⟩, rfl⟩ := h
  exact (Core.entered_evba t addr).trans hb.evba

variable [EnvImpl σ]

theorem sprWritten_evba (reg val : U32) (debug : Bool) :
    (s.sprWritten reg val debug).evba =
      (if debug || s.isSupervisor then evbarWrite reg val else none).getD s.evba := by
  unfold evbarWrite
  by_cases hr : reg = SpReg.evbar.num
  · subst hr
    have hd : s.writeDenied SpReg.evbar.num debug = !(debug || s.isSupervisor) := by
      cases debug <;> cases h : s.isSupervisor <;> simp only [writeDenied, h] <;> decide
    unfold sprWritten
    rw [hd]
    cases debug || s.isSupervisor with
    | false => rfl
    | true =>
      simp only [Bool.not_true, Bool.false_eq_true, if_false, if_true, regWritten, SpReg.ofNum_num]
      rfl
  · have hn : (if debug || s.isSupervisor then
        if reg = SpReg.evbar.num then some val else none else none) = none := by
      rw [if_neg hr]
      split <;> rfl
    rw [hn]
    obtain ⟨-, he⟩ | hw := sprWritten_cases (s := s) reg val debug
    · rw [he]
      exact dozed_steady.evba
    · exact hw.evba hr

variable [HostLib]

theorem executed_evba (h : Executed ci s x) :
    x.evba = (if ci.exec = some .mtspr then s.movedToEvbar ci else none).getD s.evba := by
  have hother : ∀ e, ci.exec = some e → e ≠ .mtspr → x.evba = s.evba →
      x.evba = (if ci.exec = some .mtspr then s.movedToEvbar ci else none).getD s.evba := by
    intro e he hne hx
    rw [if_neg fun h => hne (Option.some.inj (he.symm.trans h)), hx]
    rfl
  cases h with
  | plain c limit e he hp hr =>
    refine hother e he (fun h => ?_) hr.outcomes.evba
    rw [h] at hp
    cases hp
  | untaken e he => exact hother _ he Exec.noConfusion rfl
  | taken e target r c he hj ht h =>
    exact hother _ he Exec.noConfusion (Core.scheduleJump_outcomes h).1.evba
  | mtspr a b he ha hb =>
    rw [if_pos he, movedToEvbar, ha, hb, sprWritten_evba, Bool.false_or]
  | nop s' he h =>
    refine hother _ he Exec.noConfusion ?_
    obtain ⟨rfl, -⟩ | ⟨rfl, -⟩ | ⟨c, rfl, hb, -⟩ := nop_ok h
    · rfl
    · rfl
    · exact hb.kept.evba
  | rfe s' he h =>
    refine hother _ he Exec.noConfusion ?_
    obtain ⟨c, hc, rfl⟩ := rfe_ok h
    have hk : c.evba = s.evba := by
      obtain ⟨-, rfl⟩ | ⟨-, -, rfl⟩ := Core.scheduleJump_cases hc
      · rfl
      · exact Core.entered_evba _ _
    unfold rfeRestored
    split <;> exact hk

theorem fetchExecute_evba : Ends (fun x => x.evba = s.evbarUpdate.getD s.evba)
    (fun x => x.evba = s.evbarUpdate.getD s.evba) s.fetchExecute := by
  refine ends_of (fun x h => ?_) fun x h => ?_
  · obtain ⟨ci, f, hf, hfi, hx⟩ | ⟨hf, hr⟩ := fetchExecute_ok h
    · rw [executed_evba hx, evbarUpdate, hf, hfi.evba]
    · rw [hr.evba, evbarUpdate, hf]
      rfl
  · rcases fetchExecute_throw h with h | ⟨ci, f, e, c, hf, hfi, he, hm, rfl⟩
    · have hu : s.evbarUpdate = none := by rw [evbarUpdate, h]
      rw [hu]
      exact (fetch_throw h).evba
    · have hu : s.evbarUpdate = none := by
        rw [evbarUpdate, hf]
        exact if_neg fun h => Exec.noConfusion (Option.some.inj (he.symm.trans h))
      rw [hu]
      exact (Core.executeMem_throw_effects hm).kept.evba.trans hfi.evba

end Or1k

/-! ## Runs -/

namespace Machine

variable [EnvImpl σ] {m m' : Machine σ} {a : Action σ}

/-- What a step writes to EVBAR. -/
def evbarUpdate (st : Move (Machine σ) (Action σ)) : Option U32 :=
  match st.act with
  | .run => if st.pre.executes then st.pre.cpu.beginCycle.evbarUpdate else none
  | .writeSpr reg val => Or1k.evbarWrite reg val
  | _ => none

/-- A step that writes no misaligned address to EVBAR. -/
def AlignsVectors (st : Move (Machine σ) (Action σ)) : Prop :=
  ∀ v, evbarUpdate st = some v → isAligned v 4 = true

variable [HostLib]

theorem act_evba (hn : m.act a = some m') :
    m'.cpu.evba = (evbarUpdate ⟨m, a, m'⟩).getD m.cpu.evba := by
  cases act_transition hn with
  | begin r s n => exact began_steady.evba
  | mini | finish => rfl
  | leave limit s h =>
    have he : executes ⟨.inner limit, s⟩ = false := decide_eq_false h
    unfold evbarUpdate
    dsimp only
    rw [he]
    rfl
  | iterate limit s x hl hx =>
    have he : executes ⟨.inner limit, s⟩ = true := decide_eq_true hl
    unfold evbarUpdate
    dsimp only
    rw [he, if_pos rfl, retired_cpu]
    refine Eq.trans ?_ (Or1k.fetchExecute_evba.of_ok hx)
    unfold Or1k.redirect
    split <;> rfl
  | throw limit s x hl hx =>
    have he : executes ⟨.inner limit, s⟩ = true := decide_eq_true hl
    unfold evbarUpdate
    dsimp only
    rw [he, if_pos rfl]
    exact Or1k.fetchExecute_evba.of_throw hx
  | drain s =>
    rw [drained_cpu]
    exact (Or1k.timerUpdated_steady.trans Or1k.externalChecked_steady).evba
  | interrupt p s id set =>
    obtain ⟨v, he⟩ := s.toCore.interrupt_eq id set
    rw [he]
    rfl
  | outside r s s' a ha h =>
    cases a with
    | writeSpr reg val =>
      have h : s.setSpr reg val true = .ok s' := h
      rw [Or1k.setSpr_eq] at h
      cases h
      exact Or1k.sprWritten_evba reg val true
    | insertBreakpoint addr =>
      cases h
      show (s.insertBreakpoint addr).evba = _
      unfold Or1k.insertBreakpoint
      split <;> rfl
    | insertWatchpoint w wp | removeWatchpoint w wp =>
      cases h
      cases w <;> rfl
    | call | run | interrupt => cases ha
    | _ =>
      cases h
      rfl

/-- Exceptions nest no deeper than two in every state of a run if and only if no step of the run
writes a misaligned address to EVBAR. In each state a call of `exception` ends within two calls if
its type is asynchronous or EVBAR is aligned, and never otherwise. -/
theorem exceptions_nest_iff {env : Env σ} {size : Nat} {l : List (Move (Machine σ) (Action σ))}
    (h : system.Path (Machine.init env size) l m) :
    ((∀ st ∈ l, st.post.cpu.toCore.Shallow) ↔ ∀ st ∈ l, AlignsVectors st) ∧
      ∀ st ∈ l, ∀ t addr,
        (t.isAsync = true ∨ isAligned st.post.cpu.evba 4 = true →
          Core.Returns (Core.exceptionAt 2 t addr st.post.cpu.toCore)) ∧
        (¬(t.isAsync = true ∨ isAligned st.post.cpu.evba 4 = true) →
          ∀ n, ¬Core.Returns (Core.exceptionAt n t addr st.post.cpu.toCore)) := by
  have haligned : isAligned (0#32) 4 = true := by decide
  refine ⟨?_, fun st _ t addr => Core.exceptionAt_two_or_never _ t addr⟩
  refine h.forall_iff (P := fun m => isAligned m.cpu.evba 4 = true) (fun m a m' hn hc hp => ?_)
    (fun m a m' hn hc hp hr => ?_) haligned
  · have he : isAligned m'.cpu.evba 4 = true := by
      rw [act_evba hn]
      cases hu : evbarUpdate ⟨m, a, m'⟩ with
      | none => exact hp
      | some v => exact hc v hu
    exact ⟨he, Core.shallow_iff.2 he⟩
  · refine hc fun v hv => ?_
    have he := Core.shallow_iff.1 hr
    rw [act_evba hn, hv] at he
    exact he

end Machine

section Witness

attribute [local instance] HostLib.plain

/-- `l.addi r3, r0, 2`, `l.mtspr r0, r3, EVBAR`, `l.sys 0` -/
def evbarProgram : List (Nat × U32) :=
  [(0x100, 0x9c600002#32), (0x104, 0xc000180b#32), (0x108, 0x20000000#32)]

def evbarBoot : Machine Memory := .init (Memory.env 0x8000 (Memory.image evbarProgram)) 0

/-- The run moves 2 to EVBAR. -/
theorem exceptions_nest_iff_moved : ∃ (l : List (Move (Machine Memory) (Action Memory)))
    (m : Machine Memory), Machine.system.Path evbarBoot l m ∧ m.cpu.evba = 2#32 ∧
      (((∀ st ∈ l, st.post.cpu.toCore.Shallow) ↔ ∀ st ∈ l, Machine.AlignsVectors st) ∧
        ∀ st ∈ l, ∀ t addr,
          (t.isAsync = true ∨ isAligned st.post.cpu.evba 4 = true →
            Core.Returns (Core.exceptionAt 2 t addr st.post.cpu.toCore)) ∧
          (¬(t.isAsync = true ∨ isAligned st.post.cpu.evba 4 = true) →
            ∀ n, ¬Core.Returns (Core.exceptionAt n t addr st.post.cpu.toCore))) := by
  obtain ⟨m, hr, hm⟩ := Machine.system.exists_run evbarBoot [.call 3, .run, .run, .run]
    (fun m => m.cpu.evba == 2#32) (by decide +kernel)
  obtain ⟨l, hl⟩ := hr.path
  exact ⟨l, m, hl, by simpa using hm, Machine.exceptions_nest_iff hl⟩

/-- A guest reaches a state in which no number of calls is enough for `l.sys`, and executes it. -/
theorem exceptions_nest_iff_fails : ∃ m : Machine Memory, Machine.system.Run evbarBoot m ∧
    (∀ n, ¬Core.Returns (Core.exceptionAt n .syscall 0#32 m.cpu.toCore)) ∧ m.act .run = none := by
  obtain ⟨m, hr, hm⟩ := Machine.system.exists_run evbarBoot
    [.call 3, .run, .run, .run, .run, .run]
    (fun m => m.executes && !isAligned m.cpu.evba 4 && (m.act .run).isNone) (by decide +kernel)
  rw [Bool.and_eq_true, Bool.and_eq_true, Bool.not_eq_true', Option.isNone_iff_eq_none] at hm
  refine ⟨m, hr, (Core.exceptionAt_two_or_never _ _ _).2 ?_, hm.2⟩
  rintro (ha | he)
  · cases ha
  · rw [hm.1.2] at he
    cases he

end Witness

end Or1kiss
