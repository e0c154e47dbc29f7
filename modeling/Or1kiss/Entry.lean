import Or1kiss.HostStack
import Or1kiss.Memory
import Or1kiss.Transition

/-!
# One exception for one instruction

`EnteredOnce` says what the entry of an exception owes to the instruction that raised it:
there is one entry at most, ESR holds the mode the instruction was executed in, and EPCR is
computed from the control state before the entry. It fails exactly for the instructions that
raise several exceptions (`fetchExecute_once`): the second entry saves the mode of the first.
-/

namespace Or1kiss

open Host Bits

variable {σ : Type}

/-- The status bits that an exception saves for the instruction it interrupts. -/
abbrev savedBits : U32 := SR.SM ||| SR.IEE ||| SR.TEE ||| SR.IME ||| SR.DME ||| SR.DSX

namespace Core

variable {c b c' x : Core σ}

/-- The jump of an instruction whose target is misaligned. -/
def OwnJump (c p : Core σ) : Prop :=
  ∃ target delay, isAligned target 4 = false ∧ p = c.setJump target (c.instructions + delay)

/-- At most one exception took effect. It saved the mode the instruction was executed in, and
the program counter is that of the control state before the instruction, or of the jump to a
misaligned target that the instruction scheduled. -/
def EnteredOnce (c x : Core σ) : Prop :=
  x.taken = c.taken ∨ ∃ t p, x.taken = t :: c.taken ∧ (p = c ∨ OwnJump c p) ∧
    x.expc = p.exceptionPc t ∧ x.exsr &&& savedBits = c.status &&& savedBits

/-- What `EnteredOnce` reads of the state before. -/
structure SameControl (b c : Core σ) : Prop where
  taken : b.taken = c.taken
  status : b.status &&& savedBits = c.status &&& savedBits
  instructions : b.instructions = c.instructions
  jumpInsn : b.jumpInsn = c.jumpInsn
  jumpTarget : b.jumpTarget = c.jumpTarget
  prevPc : b.prevPc = c.prevPc
  nextPc : b.nextPc = c.nextPc

theorem SameControl.symm (h : SameControl b c) : SameControl c b :=
  ⟨h.taken.symm, h.status.symm, h.instructions.symm, h.jumpInsn.symm, h.jumpTarget.symm,
    h.prevPc.symm, h.nextPc.symm⟩

theorem SameControl.exceptionPc (h : SameControl b c) (t : ExType) :
    b.exceptionPc t = c.exceptionPc t :=
  exceptionPc_congr h.instructions h.jumpInsn h.jumpTarget h.prevPc h.nextPc t

theorem EnteredOnce.congr (h : EnteredOnce b x) (hc : SameControl b c) : EnteredOnce c x := by
  rcases h with h | ⟨t, p, ht, hp, hx, hs⟩
  · exact .inl (h.trans hc.taken)
  · rcases hp with rfl | ⟨target, delay, ha, rfl⟩
    · exact .inr ⟨t, c, ht.trans (hc.taken ▸ rfl), .inl rfl, hx.trans (hc.exceptionPc t),
        hs.trans hc.status⟩
    · refine .inr ⟨t, c.setJump target (c.instructions + delay), ht.trans (hc.taken ▸ rfl),
        .inr ⟨target, delay, ha, rfl⟩, hx.trans ?_, hs.trans hc.status⟩
      rw [hc.instructions]
      apply exceptionPc_congr
      · exact hc.instructions
      · rfl
      · rfl
      · exact hc.prevPc
      · exact hc.nextPc

/-- What `EnteredOnce` reads of the state after. -/
theorem EnteredOnce.post (h : EnteredOnce c x) (ht : c'.taken = x.taken) (he : c'.expc = x.expc)
    (hs : c'.exsr = x.exsr) : EnteredOnce c c' := by
  rwa [EnteredOnce, ht, he, hs]

/-- From user mode the status saved is one of user mode. -/
theorem EnteredOnce.user (h : EnteredOnce c x) (hu : c.isSupervisor = false)
    (ht : x.taken ≠ c.taken) : test x.exsr SR.SM = false := by
  rcases h with h | ⟨t, p, -, -, -, hs⟩
  · exact (ht h).elim
  · rw [← hu, isSupervisor]
    exact test_congr (by decide) hs

/-- Quiet effects keep the saved bits. -/
theorem Calm.savedBits (h : Calm c c') : c'.status &&& savedBits = c.status &&& savedBits := by
  have hm : ∀ v : U32, v &&& Or1kiss.savedBits = (v &&& ~~~resultFlags) &&& Or1kiss.savedBits :=
    fun v => by
      rw [BitVec.and_assoc, show ~~~resultFlags &&& Or1kiss.savedBits = Or1kiss.savedBits by decide]
  rw [hm, h.status, ← hm]

variable [EnvImpl σ] {m : Bool}

/-- Effects enter once if they raise one exception at most. -/
theorem Effects.enteredOnce {ts : List ExType} (h : Effects m c ts x) (hl : ts.length ≤ 1) :
    EnteredOnce c x := by
  match ts, hl with
  | [], _ => exact .inl h.taken
  | [t], _ =>
    obtain ⟨b, addr, aesr, ht, hq, hk⟩ := h.entry rfl
    have hb := hq.calm rfl
    have hkb := hq.kept
    have hx := hk.calm rfl
    refine .inr ⟨t, c, h.taken, .inl rfl, ?_, ?_⟩
    · rw [hx.expc]
      simp only [entered, ht, Bool.false_eq_true, if_false]
      exact exceptionPc_congr hkb.instructions hb.jumpInsn hb.jumpTarget hkb.prevPc hkb.nextPc t
    · rw [hx.exsr]
      simp only [entered, ht, Bool.false_eq_true, if_false]
      exact hb.savedBits

/-- Effects with more exceptions do not. -/
theorem Effects.not_enteredOnce {ts : List ExType} (h : Effects m c ts x) (hl : 2 ≤ ts.length) :
    ¬EnteredOnce c x := by
  have hn : x.taken.length = ts.length + c.taken.length := by
    rw [h.taken, List.length_append, List.length_reverse]
  rintro (ht | ⟨t, p, ht, -⟩)
  · rw [ht] at hn; omega
  · rw [ht, List.length_cons] at hn; omega

theorem Raised.enteredOnce {twice : Bool} (h : Raised m c x twice) : EnteredOnce c x ↔ twice = false := by
  obtain ⟨ts, he, -, ht⟩ := h
  constructor
  · intro ho
    by_contra hn
    exact he.not_enteredOnce (ht.1 (by simpa using hn)) ho
  · intro hf
    refine he.enteredOnce ?_
    by_contra hn
    rw [hf] at ht
    exact Bool.false_ne_true (ht.2 (by omega))

omit [EnvImpl σ] in
/-- A jump enters an exception for its misaligned target at most. -/
theorem scheduleJump_enteredOnce {target : U32} {delay : Nat}
    (h : c.scheduleJump target delay = .ok x) : EnteredOnce c x := by
  rw [scheduleJump_eq] at h
  split at h <;> rename_i ha
  · cases h; exact .inl rfl
  · obtain ⟨hm, -⟩ | ⟨-, -, rfl⟩ := exception_ok h
    · cases hm
    · exact .inr ⟨.insnAlignment, _, rfl, .inr ⟨target, delay, by simpa using ha, rfl⟩, rfl, rfl⟩

end Core

namespace Or1k

variable {s s' x : Or1k σ} {ci : Instruction}

/-- The instruction at the program counter raises several exceptions. -/
def nextRaisesTwice [EnvImpl σ] [HostLib] (s : Or1k σ) : Bool :=
  match s.fetch with
  | .ok (some ci, _) => s.toCore.raisesTwice ci
  | _ => false

theorem Accepted.enteredOnce {e : ExType} (h : Accepted e s x) :
    s.toCore.EnteredOnce x.toCore :=
  .inr ⟨e, s.toCore, h.taken, .inl rfl, h.expc, by rw [h.exsr]⟩

theorem jump_not_twice [HostLib] {c : Core σ} {e : CoreExec} (he : ci.exec = some (.core e))
    (hj : e.isJump = true) : c.raisesTwice ci = false := by
  simp only [Core.raisesTwice, he]
  cases e <;> first | rfl | cases hj

variable [EnvImpl σ]

/-- Writing a special purpose register raises the tick exception at most, out of a sleep. -/
theorem sprWritten_enteredOnce (reg val : U32) (debug : Bool) :
    s.toCore.EnteredOnce (s.sprWritten reg val debug).toCore := by
  obtain ⟨-, he⟩ | hw := sprWritten_cases (s := s) reg val debug
  · rw [he]
    rcases dozed_cases (s := s.requestBreak.withCore (s.requestBreak.toCore.writeReg .pmr val))
      with h | h
    · exact .inl h.taken
    · exact h.enteredOnce.congr ⟨rfl, rfl, rfl, rfl, rfl, rfl, rfl⟩
  · exact .inl hw.taken

variable [HostLib]

theorem executed_once (h : Executed ci s x) :
    s.toCore.EnteredOnce x.toCore ↔ s.toCore.raisesTwice ci = false := by
  have hother : (∀ e, ci.exec ≠ some (.core e)) → s.toCore.raisesTwice ci = false := by
    intro hn
    simp only [Core.raisesTwice]
  cases h with
  | plain c limit e he hp h => exact h.enteredOnce
  | untaken e he hj ht => exact iff_of_true (.inl rfl) (jump_not_twice he hj)
  | taken e target r c he hj ht h =>
    exact iff_of_true ((Core.scheduleJump_enteredOnce h).congr ⟨rfl, rfl, rfl, rfl, rfl, rfl, rfl⟩)
      (jump_not_twice he hj)
  | mtspr a b he ha hb =>
    exact iff_of_true (sprWritten_enteredOnce _ _ _) (hother (by simp [he]))
  | nop x he h =>
    refine iff_of_true ?_ (hother (by simp [he]))
    obtain ⟨rfl, -⟩ | ⟨rfl, -⟩ | ⟨c, rfl, hb, -⟩ := nop_ok h
    · exact .inl rfl
    · exact .inl rfl
    · exact .inl hb.calm.taken
  | rfe x he h =>
    refine iff_of_true ?_ (hother (by simp [he]))
    obtain ⟨c, hc, rfl⟩ := rfe_ok h
    have hr : (s.withCore c).rfeRestored.taken = c.taken ∧
        (s.withCore c).rfeRestored.expc = c.expc ∧ (s.withCore c).rfeRestored.exsr = c.exsr := by
      simp only [rfeRestored]; split <;> exact ⟨rfl, rfl, rfl⟩
    exact (Core.scheduleJump_enteredOnce hc).post hr.1 hr.2.1 hr.2.2

omit [EnvImpl σ] [HostLib] in
theorem Fetched.sameControl {c c' : Core σ} (h : Core.Fetched c c') : Core.SameControl c c' := by
  obtain ⟨_, _, _, _, _, _, -, rfl⟩ := h
  exact ⟨rfl, rfl, rfl, rfl, rfl, rfl, rfl⟩

omit [EnvImpl σ] in
/-- Fetching changes nothing that decides whether an instruction raises twice. -/
theorem Fetched.raisesTwice {c c' : Core σ} (h : Core.Fetched c c') (ci : Instruction) :
    c'.raisesTwice ci = c.raisesTwice ci := by
  obtain ⟨_, _, _, _, _, _, ⟨_, _, _, rfl⟩, rfl⟩ := h
  rfl

/-- An iteration enters once unless its instruction raises several exceptions. -/
theorem fetchExecute_once (h : s.fetchExecute = .ok x) :
    s.toCore.EnteredOnce x.toCore ↔ s.nextRaisesTwice = false := by
  obtain ⟨ci, f, hf, ⟨_, dc, n, hc, rfl⟩, he⟩ | ⟨hf, b, c, hc, ⟨t, addr, ht, ha, rfl⟩, rfl⟩ :=
    fetchExecute_ok h
  · have hs := Fetched.sameControl hc
    rw [nextRaisesTwice, hf]
    dsimp only
    rw [← Fetched.raisesTwice hc ci, ← executed_once he]
    exact ⟨fun h => h.congr hs, fun h => h.congr hs.symm⟩
  · refine iff_of_true ?_ (by rw [nextRaisesTwice, hf])
    have hb : b.EnteredOnce (b.entered t addr) := by
      refine .inr ⟨t, b, Core.entered_taken t addr, .inl rfl, ?_, ?_⟩
      · simp only [Core.entered, ht, Bool.false_eq_true, if_false]; rfl
      · simp only [Core.entered, ht, Bool.false_eq_true, if_false]; rfl
    exact hb.congr (Fetched.sameControl hc).symm

/-- A thrown C++ exception comes with no exception of the guest. -/
theorem fetchExecute_throw_taken (h : s.fetchExecute = .throw x) :
    x.taken = s.taken ∧ s.nextRaisesTwice = false := by
  have htaken {f : Or1k σ} (hfi : FetchedInsn s f) : f.taken = s.taken :=
    congrArg (·.taken) hfi.eq
  rcases fetchExecute_throw h with hf | ⟨ci, f, e, c, hf, hfi, hci, hm, rfl⟩
  · exact ⟨htaken (fetch_throw hf), by rw [nextRaisesTwice, hf]⟩
  · have hc := (Core.executeMem_throw_effects hm).calm rfl
    exact ⟨hc.taken.trans (htaken hfi), by
      simp only [nextRaisesTwice, hf, Core.raisesTwice, hci]⟩

end Or1k

namespace Machine

open Runs

variable [EnvImpl σ] [HostLib] {m m' : Machine σ}

omit [EnvImpl σ] [HostLib] in
theorem redirect_saved (x : Or1k σ) : x.retire.redirect.taken = x.taken ∧
    x.retire.redirect.expc = x.expc ∧ x.retire.redirect.exsr = x.exsr := by
  simp only [Or1k.redirect]
  split <;> exact ⟨rfl, rfl, rfl⟩

theorem next_once (hx : m.executes = true) (hn : m.next = some m') :
    m.cpu.beginCycle.toCore.EnteredOnce m'.cpu.toCore ↔ m.cpu.beginCycle.nextRaisesTwice = false := by
  rcases iteration_cases hx hn with ⟨limit, x, hf, rfl⟩ | ⟨x, hf, rfl⟩
  · rw [← Or1k.fetchExecute_once hf, retired_cpu]
    obtain ⟨h1, h2, h3⟩ := redirect_saved x
    exact ⟨fun h => h.post h1.symm h2.symm h3.symm, fun h => h.post h1 h2 h3⟩
  · have ht := Or1k.fetchExecute_throw_taken hf
    exact iff_of_true (.inl ht.1) ht.2

/-- In every run, an instruction enters one exception at most, and leaves in ESR and EPCR what
it was executed with, exactly if it is not one that raises several. In particular ESR then
has SM clear after an exception from user mode. No exception but one with a misaligned vector
exhausts the host stack. -/
theorem exceptions_once {m₀ m : Machine σ} {l : List (Move (Machine σ) (Action σ))}
    (h : system.Path m₀ l m) : ∀ st ∈ l, IsIteration st →
      (st.pre.cpu.beginCycle.toCore.EnteredOnce st.post.cpu.toCore ↔
        st.pre.cpu.beginCycle.nextRaisesTwice = false) ∧
      (st.pre.cpu.beginCycle.nextRaisesTwice = false → st.pre.cpu.isSupervisor = false →
        st.post.cpu.taken ≠ st.pre.cpu.taken → test st.post.cpu.exsr SR.SM = false) ∧
      (isAligned st.pre.cpu.evba 4 = true →
        st.pre.cpu.beginCycle.fetchExecute.Avoids .stackOverflow) := by
  refine h.forall fun m a m' hn ⟨ha, hx⟩ => ?_
  dsimp only at ha hx ⊢
  subst ha
  have ho := next_once hx hn
  exact ⟨ho, fun hr hu ht => (ho.2 hr).user hu ht, fun he =>
    Or1k.fetchExecute_returns (s := m.cpu.beginCycle) he⟩

end Machine

namespace Machine

open Runs

attribute [local instance] HostLib.plain

/-- `l.sys` after reset enters one exception. -/
theorem exceptions_once_sys : ∃ m m' : Machine Memory, m.next = some m' ∧
    m.cpu.beginCycle.toCore.EnteredOnce m'.cpu.toCore ∧ m'.cpu.taken = [.syscall] := by
  obtain ⟨m, hr, hm⟩ := System.exists_run system (Memory.boot [(0x100, 0x20000000#32)])
    [.call 10#32, .run]
    (fun m => m.executes && !m.cpu.beginCycle.nextRaisesTwice &&
      (m.next).any fun m' : Machine Memory => decide (m'.cpu.taken = [.syscall]))
    (by decide +kernel)
  simp only [Bool.and_eq_true, Bool.not_eq_true'] at hm
  obtain ⟨⟨hx, hr2⟩, hm⟩ := hm
  obtain ⟨m', hn, ht⟩ := (Option.any_eq_true _ _).1 hm
  obtain ⟨l, hl, hmem⟩ := hr.path_tail (a := Action.run) hn
  have h := (exceptions_once hl _ hmem ⟨rfl, hx⟩).1
  exact ⟨m, m', hn, h.2 hr2, of_decide_eq_true ht⟩

/-- Both range exceptions on, in user mode: `0x7fffffff - 0xffffffff` carries and overflows. -/
def subProgram : List (Nat × U32) :=
  [(0x100, 0x18807fff#32), (0x104, 0xa884ffff#32), (0x108, 0x9ca0ffff#32), (0x10c, 0x9cc00003#32),
   (0x110, 0xc000300c#32), (0x114, 0xa8e01000#32), (0x118, 0xc0003811#32), (0x11c, 0xe0642802#32)]

/-- The second entry saves the mode that the first one set. -/
theorem exceptions_once_fails : ∃ m m' : Machine Memory,
    system.Run (Memory.boot subProgram) m ∧ m.executes = true ∧ m.next = some m' ∧
      m.cpu.isSupervisor = false ∧ ¬m.cpu.beginCycle.toCore.EnteredOnce m'.cpu.toCore ∧
      test m'.cpu.exsr SR.SM = true := by
  obtain ⟨m, hr, hm⟩ := System.exists_run system (Memory.boot subProgram)
    [.call 100#32, .run, .run, .run, .run, .run, .run, .run, .run, .run, .run, .run, .run]
    (fun m => m.executes && !m.cpu.isSupervisor && (m.next).any fun m' : Machine Memory =>
      decide (m'.cpu.taken = [.range, .range] ∧ m.cpu.taken = []) && test m'.cpu.exsr SR.SM)
    (by decide +kernel)
  simp only [Bool.and_eq_true, Bool.not_eq_true'] at hm
  obtain ⟨⟨hx, hu⟩, hm⟩ := hm
  obtain ⟨m', hn, ht⟩ := (Option.any_eq_true _ _).1 hm
  obtain ⟨ht, hs⟩ := Bool.and_eq_true_iff.1 ht
  obtain ⟨ht, h0⟩ := of_decide_eq_true ht
  refine ⟨m, m', hr, hx, hn, hu, ?_, hs⟩
  rintro (h | ⟨t, p, h, -⟩)
  · rw [ht, show m.cpu.beginCycle.taken = [] from h0] at h; cases h
  · rw [ht, show m.cpu.beginCycle.taken = [] from h0] at h; cases h

end Machine

end Or1kiss
