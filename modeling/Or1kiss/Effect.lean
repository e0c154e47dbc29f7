import Mathlib.Logic.Relation
import Or1kiss.Advance

/-!
# What an executor can do

An executor of the core that is not a jump is a sequence of three kinds of effect: it writes
registers and the flags F, CY and OV, it accesses memory, it raises a synchronous
exception. There is one lemma for each executor (`add_mild`, `executeMem_mild`); invariants are
then proved by one case for each kind. A jump writes the link register and schedules its target
(`execute_jump`).
-/

namespace Or1kiss

open Host Bits Relation

variable {σ : Type}

/-- The bits of the status word that computing writes. -/
abbrev resultFlags : U32 := SR.F ||| SR.CY ||| SR.OV

namespace Core

/-- One effect, with the exceptions it raises. -/
inductive Effect [EnvImpl σ] (m : Bool) (c : Core σ) : List ExType → Core σ → Prop where
  | regs (r : Regs) (s : U32) (ha : r.aesr = c.aesr)
      (h : s &&& ~~~resultFlags = c.status &&& ~~~resultFlags) :
      Effect m c [] { c with toRegs := r, status := s }
  | data (hm : m = true) (env : Env σ) (dreq : Request) (wp : WatchpointEvent) (stall : Nat) :
      Effect m c [] { c with env := env, dreq := dreq, wpEvent := wp, cycles := c.cycles + stall }
  | translate (hm : m = true) (req : Request) : Effect m c [] { c with
      dmmu := (c.dmmu.translate c.env req).2.1, env := (c.dmmu.translate c.env req).2.2.1 }
  | raise (t : ExType) (addr aesr : U32) (ht : t.isAsync = false) (he : isAligned c.evba 4 = true) :
      Effect m c [t] (({ c with aesr := aesr } : Core σ).entered t addr)

/-- A sequence of effects, with the exceptions it raises in their order. -/
inductive Effects [EnvImpl σ] (m : Bool) (c : Core σ) : List ExType → Core σ → Prop where
  | refl : Effects m c [] c
  | tail {ts us : List ExType} {b c' : Core σ} (h : Effects m c ts b) (h' : Effect m b us c') :
      Effects m c (ts ++ us) c'

variable [EnvImpl σ] {m : Bool} {c b c' : Core σ} {ci : Instruction} {ts us : List ExType}

theorem Effects.single (h : Effect m c ts c') : Effects m c ts c' := .tail .refl h

theorem Effects.trans (h : Effects m c ts b) (h' : Effects m b us c') : Effects m c (ts ++ us) c' := by
  induction h' with
  | refl => rwa [List.append_nil]
  | tail _ hs ih => rw [← List.append_assoc]; exact ih.tail hs

/-- Effects without an exception behind others. -/
theorem Effects.quiet (h : Effects m c ts b) (h' : Effects m b [] c') : Effects m c ts c' := by
  have := h.trans h'
  rwa [List.append_nil] at this

/-! ## Pieces -/

theorem effects_regs (r : Regs) {s : U32} (ha : r.aesr = c.aesr)
    (h : s &&& ~~~resultFlags = c.status &&& ~~~resultFlags) :
    Effects m c [] { c with toRegs := r, status := s } := .single (.regs r s ha h)

theorem effects_toRegs (r : Regs) (ha : r.aesr = c.aesr) : Effects m c [] { c with toRegs := r } :=
  effects_regs r ha rfl

theorem effects_setFlag {f : U32} (hf : f &&& ~~~resultFlags = 0#32) :
    Effects m c [] (c.setFlag f) := effects_regs c.toRegs rfl (or_and_of_disjoint hf)

theorem effects_clearFlag {f : U32} (hf : ~~~f &&& ~~~resultFlags = ~~~resultFlags) :
    Effects m c [] (c.clearFlag f) := effects_regs c.toRegs rfl (and_and_of_cover hf)

theorem effects_clearFlags : Effects m c [] ((c.clearFlag SR.CY).clearFlag SR.OV) :=
  (effects_clearFlag (by decide)).quiet (effects_clearFlag (by decide))

theorem effects_putFlag (v : Bool) : Effects m c [] (c.putFlag SR.F v) := by
  cases v
  · exact effects_clearFlag (by decide)
  · exact effects_setFlag (by decide)

theorem effects_setGpr (i : Fin 32) (v : U32) : Effects m c [] (c.setGpr i v) := effects_toRegs _ rfl

omit [EnvImpl σ] in
/-- Only registers are assigned to. -/
theorem assign_ok {op : Operand} {v : U32} (h : c.assign op v = .ok c') :
    ∃ i : Fin 32, op = .reg i ∧ c' = c.setGpr i v := by
  cases op with
  | null => cases h
  | imm => cases h
  | reg i =>
    simp only [assign] at h
    split at h
    · rename_i hi
      cases h
      exact ⟨⟨i, hi⟩, rfl, rfl⟩
    · cases h

theorem assign_effects {op : Operand} {v : U32} (h : c.assign op v = .ok c') :
    Effects m c [] c' := by
  obtain ⟨i, -, rfl⟩ := assign_ok h
  exact effects_setGpr i v

theorem exception_effects {t : ExType} {addr : U32} (ht : t.isAsync = false)
    (h : c.exception t addr = .ok c') : Effects m c [t] c' := by
  obtain ⟨hm, -⟩ | ⟨-, ha, rfl⟩ := exception_ok h
  · rw [masked_of_sync c ht] at hm; cases hm
  · exact .single (.raise t addr c.aesr ht (ha.resolve_left (by simp [ht])))

/-- A conditional exception. -/
def raises (t : ExType) (cond : Bool) : List ExType := if cond then [t] else []

theorem length_raises (t : ExType) (cond : Bool) : (raises t cond).length ≤ 1 := by
  cases cond <;> simp [raises]

/-- Overflows of a kind raise the range exception. -/
def rangeEnabled (c : Core σ) (ae : U32) : Bool := test c.status SR.OVE && test c.aecr ae

theorem rangeException_effects {ae : U32} (h : c.rangeException ae = .ok c') :
    Effects m c (raises .range (c.rangeEnabled ae)) c' := by
  simp only [rangeException] at h
  split at h <;> rename_i he
  · obtain ⟨hm, -⟩ | ⟨-, ha, rfl⟩ := exception_ok h
    · cases hm
    · rw [rangeEnabled, he]
      exact .single (.raise .range 0#32 _ rfl (ha.resolve_left (by decide)))
  · rw [rangeEnabled, eq_false_of_ne_true he]
    cases h; exact .refl

omit [EnvImpl σ] in
theorem rangeEnabled_congr {ae : U32} (hs : c'.status &&& SR.OVE = c.status &&& SR.OVE)
    (ha : c'.aecr = c.aecr) : c'.rangeEnabled ae = c.rangeEnabled ae := by
  rw [rangeEnabled, rangeEnabled, test_congr (k := SR.OVE) (by decide) hs, ha]

theorem overflow_effects {ovf : Bool} {flag ae : U32} (hf : flag &&& ~~~resultFlags = 0#32)
    (h : c.overflow ovf flag ae = .ok c') :
    Effects m c (raises .range (ovf && c.rangeEnabled ae)) c' := by
  simp only [overflow] at h
  split at h <;> rename_i ho
  · have hs : (c.setFlag flag).rangeEnabled ae = c.rangeEnabled ae :=
      rangeEnabled_congr (or_and_of_disjoint (by
        rw [show SR.OVE = ~~~resultFlags &&& SR.OVE by decide, ← BitVec.and_assoc, hf,
          BitVec.zero_and])) rfl
    rw [ho, Bool.true_and, ← hs]
    exact (effects_setFlag hf).trans (rangeException_effects h)
  · rw [eq_false_of_ne_true ho]
    cases h; exact .refl

/-! ## Shapes -/

/-- Effects with one exception at most. -/
def Mild (m : Bool) (c c' : Core σ) : Prop := ∃ ts, ts.length ≤ 1 ∧ Effects m c ts c'

theorem Effects.mild (h : Effects m c [] c') : Mild m c c' := ⟨[], Nat.zero_le 1, h⟩

theorem mild_exception {t : ExType} {addr : U32} (ht : t.isAsync = false)
    (h : c.exception t addr = .ok c') : Mild m c c' := ⟨[t], Nat.le_refl 1, exception_effects ht h⟩

theorem mild_overflow {ovf : Bool} {flag ae : U32} (hq : Effects m c [] b)
    (hf : flag &&& ~~~resultFlags = 0#32) (h : b.overflow ovf flag ae = .ok c') : Mild m c c' :=
  ⟨_, length_raises _ _, hq.trans (overflow_effects hf h)⟩

theorem unary_effects {f : U32 → U32} (h : unary f ci c = .ok c') : Effects m c [] c' := by
  obtain ⟨a, -, h⟩ := Outcome.bind_eq_ok.1 h
  exact assign_effects h

theorem binary_effects {f : U32 → U32 → U32} (h : binary f ci c = .ok c') : Effects m c [] c' := by
  obtain ⟨a, -, h⟩ := Outcome.bind_eq_ok.1 h
  obtain ⟨b, -, h⟩ := Outcome.bind_eq_ok.1 h
  exact assign_effects h

theorem compare_effects {p : U32 → U32 → Bool} (h : compare p ci c = .ok c') :
    Effects m c [] c' := by
  obtain ⟨a, -, h⟩ := Outcome.bind_eq_ok.1 h
  obtain ⟨b, -, h⟩ := Outcome.bind_eq_ok.1 h
  cases h; exact effects_putFlag _

theorem add_mild (h : c.executeOrbis32Add ci = .ok c') : Mild m c c' := by
  obtain ⟨a, -, h⟩ := Outcome.bind_eq_ok.1 h
  obtain ⟨b, -, h⟩ := Outcome.bind_eq_ok.1 h
  obtain ⟨c1, h1, h⟩ := Outcome.bind_eq_ok.1 h
  refine mild_overflow (((assign_effects h1).quiet effects_clearFlags).quiet ?_) (by decide) h
  split
  · exact effects_setFlag (by decide)
  · exact .refl

theorem mul_mild (h : c.executeOrbis32Mul ci = .ok c') : Mild m c c' := by
  obtain ⟨a, -, h⟩ := Outcome.bind_eq_ok.1 h
  obtain ⟨b, -, h⟩ := Outcome.bind_eq_ok.1 h
  obtain ⟨c1, h1, h⟩ := Outcome.bind_eq_ok.1 h
  exact mild_overflow ((assign_effects h1).quiet (effects_clearFlag (by decide))) (by decide) h

theorem mulu_mild (h : c.executeOrbis32Mulu ci = .ok c') : Mild m c c' := by
  obtain ⟨a, -, h⟩ := Outcome.bind_eq_ok.1 h
  obtain ⟨b, -, h⟩ := Outcome.bind_eq_ok.1 h
  obtain ⟨c1, h1, h⟩ := Outcome.bind_eq_ok.1 h
  exact mild_overflow ((assign_effects h1).quiet (effects_clearFlag (by decide))) (by decide) h

theorem effects_setMac (v : U64) : Effects m c [] (c.setMac v) := effects_toRegs _ rfl

theorem macSigned_mild (f : U64 → U64 → U64) (ae : U32) (h : macSigned f ae ci c = .ok c') :
    Mild m c c' := by
  obtain ⟨a, -, h⟩ := Outcome.bind_eq_ok.1 h
  obtain ⟨b, -, h⟩ := Outcome.bind_eq_ok.1 h
  exact mild_overflow ((effects_setMac _).quiet (effects_clearFlag (by decide))) (by decide) h

theorem macUnsigned_mild (f : U64 → U64 → U64) (ae : U32) (h : macUnsigned f ae ci c = .ok c') :
    Mild m c c' := by
  obtain ⟨a, -, h⟩ := Outcome.bind_eq_ok.1 h
  obtain ⟨b, -, h⟩ := Outcome.bind_eq_ok.1 h
  exact mild_overflow ((effects_setMac _).quiet (effects_clearFlag (by decide))) (by decide) h

theorem mild_divByZero {flag : U32} (hf : flag &&& ~~~resultFlags = 0#32)
    (h : (c.setFlag flag).rangeException AE.DBZE = .ok c') : Mild m c c' :=
  ⟨_, length_raises _ _, (effects_setFlag hf).trans (rangeException_effects h)⟩

theorem div_mild (h : c.executeOrbis32Div ci = .ok c') : Mild m c c' := by
  obtain ⟨a, -, h⟩ := Outcome.bind_eq_ok.1 h
  obtain ⟨b, -, h⟩ := Outcome.bind_eq_ok.1 h
  split at h
  · exact mild_divByZero (by decide) h
  · split at h
    · cases h
    · exact ((effects_clearFlag (by decide)).quiet (assign_effects h)).mild

theorem divu_mild (h : c.executeOrbis32Divu ci = .ok c') : Mild m c c' := by
  obtain ⟨a, -, h⟩ := Outcome.bind_eq_ok.1 h
  obtain ⟨b, -, h⟩ := Outcome.bind_eq_ok.1 h
  split at h
  · exact mild_divByZero (by decide) h
  · exact ((effects_clearFlag (by decide)).quiet (assign_effects h)).mild

theorem macrc_effects (h : c.executeOrbis32Macrc ci = .ok c') : Effects m c [] c' := by
  obtain ⟨c1, h1, h⟩ := Outcome.bind_eq_ok.1 h
  cases h
  exact (assign_effects h1).quiet (effects_toRegs { c1.toRegs with mac := .zero } rfl)

/-! ## Carry and overflow of one instruction -/

theorem Effect.rangeEnabled (h : Effect m c ts c') (ae : U32) :
    c'.rangeEnabled ae = c.rangeEnabled ae := by
  cases h with
  | regs r s ha h =>
    refine rangeEnabled_congr ?_ rfl
    have hm : ∀ x : U32, x &&& SR.OVE = (x &&& ~~~resultFlags) &&& SR.OVE := fun x => by
      rw [BitVec.and_assoc, show ~~~resultFlags &&& SR.OVE = SR.OVE by decide]
    rw [hm, h, ← hm]
  | data | translate => rfl
  | raise t addr aesr ht he =>
    simp only [entered, ht, Bool.false_eq_true, if_false]
    exact rangeEnabled_congr (exceptionStatus_and _ (by decide)) rfl

theorem Effects.rangeEnabled (h : Effects m c ts c') (ae : U32) :
    c'.rangeEnabled ae = c.rangeEnabled ae := by
  induction h with
  | refl => rfl
  | tail _ hs ih => rw [hs.rangeEnabled, ih]

/-- Two exceptions, if both conditions hold and both are enabled. -/
theorem carryOverflow_effects {carry ovf : Bool} (h : c.carryOverflow carry ovf = .ok c') :
    Effects m c (raises .range (carry && c.rangeEnabled AE.CYADDE) ++
      raises .range (ovf && c.rangeEnabled AE.OVADDE)) c' := by
  obtain ⟨c1, h1, h⟩ := Outcome.bind_eq_ok.1 h
  have hc := (effects_clearFlags (m := m) (c := c)).rangeEnabled
  have e1 := (effects_clearFlags (m := m)).trans (overflow_effects (by decide) h1)
  have e2 := e1.trans (overflow_effects (by decide) h)
  rw [e1.rangeEnabled, hc] at e2
  exact e2

/-! ## Floating point -/

/-- Floating point exceptions are enabled. -/
def fpEnabled (c : Core σ) : Bool := test c.fpcfg FPS.FPEE

theorem fpTest_effects {flag : U32} {cond : Bool} (hf : flag &&& FPS.FPEE = 0#32)
    (h : c.fpTest flag cond = .ok c') :
    Effects m c (raises .fp (cond && c.fpEnabled)) c' ∧ c'.fpEnabled = c.fpEnabled ∧
      c'.fpEnv = c.fpEnv := by
  simp only [fpTest] at h
  split at h <;> rename_i hc
  · have hs : Effects m c [] { c with fpcfg := c.fpcfg ||| flag } := effects_toRegs _ rfl
    have he : test (c.fpcfg ||| flag) FPS.FPEE = c.fpEnabled :=
      test_congr (k := FPS.FPEE) (by decide) (or_and_of_disjoint hf)
    rw [hc, Bool.true_and, ← he]
    split at h <;> rename_i hp
    · rw [hp]
      have ht := exception_effects (m := m) (t := .fp) rfl h
      obtain ⟨hm, -⟩ | ⟨-, -, rfl⟩ := exception_ok h
      · cases hm
      · exact ⟨hs.trans ht, hp, rfl⟩
    · cases h
      rw [eq_false_of_ne_true hp]
      exact ⟨hs, eq_false_of_ne_true hp, rfl⟩
  · cases h
    rw [eq_false_of_ne_true hc]
    exact ⟨.refl, rfl, rfl⟩

/-- The conditions that `reset_fp_flags` tests, in order. -/
def fpSignals (k : FpClass) (e : FpEnv) : List Bool :=
  [k.zero, k.inf, k.nan, e.overflow, e.underflow, e.divByZero]

theorem fpTests_effects {k : FpClass}
    (h : (do let c ← c.fpTest FPS.ZF k.zero
             let c ← c.fpTest FPS.INF k.inf
             let c ← c.fpTest FPS.QNF k.nan
             let c ← c.fpTest FPS.OV c.fpEnv.overflow
             let c ← c.fpTest FPS.UNF c.fpEnv.underflow
             c.fpTest FPS.DZF c.fpEnv.divByZero) = .ok c') :
    Effects m c ((fpSignals k c.fpEnv).flatMap fun s => raises .fp (s && c.fpEnabled)) c' := by
  obtain ⟨c1, h1, h⟩ := Outcome.bind_eq_ok.1 h
  obtain ⟨c2, h2, h⟩ := Outcome.bind_eq_ok.1 h
  obtain ⟨c3, h3, h⟩ := Outcome.bind_eq_ok.1 h
  obtain ⟨c4, h4, h⟩ := Outcome.bind_eq_ok.1 h
  obtain ⟨c5, h5, h⟩ := Outcome.bind_eq_ok.1 h
  obtain ⟨e1, p1, f1⟩ := fpTest_effects (m := m) (by decide) h1
  obtain ⟨e2, p2, f2⟩ := fpTest_effects (m := m) (by decide) h2
  obtain ⟨e3, p3, f3⟩ := fpTest_effects (m := m) (by decide) h3
  obtain ⟨e4, p4, f4⟩ := fpTest_effects (m := m) (by decide) h4
  obtain ⟨e5, p5, f5⟩ := fpTest_effects (m := m) (by decide) h5
  obtain ⟨e6, -, -⟩ := fpTest_effects (m := m) (by decide) h
  -- no test changes what the later ones read
  have g3 := f3.trans (f2.trans f1)
  rw [p1] at e2
  rw [p2.trans p1] at e3
  rw [p3.trans (p2.trans p1), g3] at e4
  rw [p4.trans (p3.trans (p2.trans p1)), f4.trans g3] at e5
  rw [p5.trans (p4.trans (p3.trans (p2.trans p1))), f5.trans (f4.trans g3)] at e6
  have e := e1.trans (e2.trans (e3.trans (e4.trans (e5.trans e6))))
  simpa [fpSignals] using e

/-- One exception for each condition that holds. -/
theorem resetFpFlags_effects {k : FpClass} (h : c.resetFpFlags k = .ok c') :
    Effects m c ((fpSignals k c.fpEnv).flatMap fun s => raises .fp (s && c.fpEnabled)) c' := by
  have hs : Effects m c [] { c with fpcfg := c.fpcfg &&&
      ~~~(FPS.ZF ||| FPS.INF ||| FPS.QNF ||| FPS.OV ||| FPS.UNF ||| FPS.DZF) } :=
    effects_toRegs _ rfl
  have he : test (c.fpcfg &&& ~~~(FPS.ZF ||| FPS.INF ||| FPS.QNF ||| FPS.OV ||| FPS.UNF |||
      FPS.DZF)) FPS.FPEE = c.fpEnabled :=
    test_congr (k := FPS.FPEE) (by decide) (and_and_of_cover (by decide))
  rw [← he]
  exact hs.trans (fpTests_effects h)

theorem effects_raiseFp (f : FpEnv) : Effects m c [] (c.raiseFp f) := effects_toRegs _ rfl

theorem assignAt_effects {op : Operand} {off : Nat} {v : U32} (h : c.assignAt op off v = .ok c') :
    Effects m c [] c' := by
  cases op with
  | null => cases h
  | imm => cases h
  | reg i => simp only [assignAt] at h; exact assign_effects h

theorem assignPair_effects {op : Operand} {off : Nat} {v : U64}
    (h : c.assignPair op off v = .ok c') : Effects m c [] c' := by
  obtain ⟨c1, h1, h⟩ := Outcome.bind_eq_ok.1 h
  exact (assignAt_effects h1).quiet (assignAt_effects h)

theorem fp32Convert_effects {g : U32 → U32 × FpEnv}
    (h : (do let a ← c.deref ci ci.src1
             (c.raiseFp (g a).2).assign ci.dest (g a).1) = .ok c') : Effects m c [] c' := by
  obtain ⟨a, -, h⟩ := Outcome.bind_eq_ok.1 h
  exact (effects_raiseFp _).quiet (assign_effects h)

theorem fp64Convert_effects {g : U64 → U64 × FpEnv}
    (h : (do let a ← c.derefPair ci ci.src1 9
             (c.raiseFp (g a).2).assignPair ci.dest 1 (g a).1) = .ok c') : Effects m c [] c' := by
  obtain ⟨a, -, h⟩ := Outcome.bind_eq_ok.1 h
  exact (effects_raiseFp _).quiet (assignPair_effects h)

theorem fp64Compare_effects {p : U64 → U64 → Bool} (h : fp64Compare p ci c = .ok c') :
    Effects m c [] c' := by
  obtain ⟨a, -, h⟩ := Outcome.bind_eq_ok.1 h
  obtain ⟨b, -, h⟩ := Outcome.bind_eq_ok.1 h
  cases h; exact effects_putFlag _

end Core

/-- The executors of jumps and branches. -/
def CoreExec.isJump : CoreExec → Bool
  | .bf | .bnf | .jumpRel | .jumpAbs => true
  | _ => false

namespace Core

variable {c c' : Core σ} {ci : Instruction} {req : Request}

/-! ## Jumps -/

/-- The target of the jump an executor takes. -/
def takenTarget (c : Core σ) (ci : Instruction) (e : CoreExec) : Option U32 :=
  match e with
  | .bf => if test c.status SR.F then some (ci.imm + c.nextPc) else none
  | .bnf => if !test c.status SR.F then some (ci.imm + c.nextPc) else none
  | .jumpRel =>
    match c.deref ci ci.src2 with
    | .ok b => some (b + c.nextPc)
    | _ => none
  | .jumpAbs =>
    match c.deref ci ci.src2 with
    | .ok b => some b
    | _ => none
  | _ => none

theorem link_eq (h : c.link ci = .ok c') :
    ∃ r, r.aesr = c.aesr ∧ c' = { c with toRegs := r } := by
  simp only [link] at h
  split at h
  · cases h; exact ⟨c.toRegs, rfl, rfl⟩
  · generalize c.nextPc + _ = v at h
    obtain ⟨i, -, rfl⟩ := assign_ok h
    exact ⟨(c.setGpr i v).toRegs, rfl, rfl⟩

/-- A jump or branch: nothing, or the link register and the pending jump. -/
theorem execute_jump [HostLib] {e : CoreExec} (he : e.isJump = true) (h : c.execute e ci = .ok c') :
    (c.takenTarget ci e = none ∧ c' = c) ∨
      ∃ target r, c.takenTarget ci e = some target ∧ r.aesr = c.aesr ∧
        ({ c with toRegs := r } : Core σ).scheduleJump target branchDelay = .ok c' := by
  cases e with
  | bf =>
    simp only [execute, executeOrbis32Bf] at h
    split at h <;> rename_i hf
    · exact .inr ⟨_, c.toRegs, by rw [takenTarget, if_pos hf], rfl, h⟩
    · cases h; exact .inl ⟨by rw [takenTarget, if_neg hf], rfl⟩
  | bnf =>
    simp only [execute, executeOrbis32Bnf] at h
    split at h <;> rename_i hf
    · exact .inr ⟨_, c.toRegs, by rw [takenTarget, if_pos hf], rfl, h⟩
    · cases h; exact .inl ⟨by rw [takenTarget, if_neg hf], rfl⟩
  | jumpRel =>
    obtain ⟨b, hb, h⟩ := Outcome.bind_eq_ok.1 h
    obtain ⟨c1, h1, h⟩ := Outcome.bind_eq_ok.1 h
    obtain ⟨r, hr, rfl⟩ := link_eq h1
    exact .inr ⟨_, r, by rw [takenTarget, hb], hr, h⟩
  | jumpAbs =>
    obtain ⟨b, hb, h⟩ := Outcome.bind_eq_ok.1 h
    obtain ⟨c1, h1, h⟩ := Outcome.bind_eq_ok.1 h
    obtain ⟨r, hr, rfl⟩ := link_eq h1
    exact .inr ⟨_, r, by rw [takenTarget, hb], hr, h⟩
  | _ => cases he

/-! ## Loads and stores -/

theorem abort_ne_throw {t : ExType} {x : Core σ × Request} : c.abort t req ≠ .throw x :=
  Outcome.lift_ne_throw

variable [EnvImpl σ]

theorem effects_env (env : Env σ) : Effects true c [] { c with env := env } :=
  .single (.data rfl env c.dreq c.wpEvent 0)

theorem effects_stall (stall : Nat) : Effects true c [] { c with cycles := c.cycles + stall } :=
  .single (.data rfl c.env c.dreq c.wpEvent stall)

theorem effects_checkWatchpoints : Effects true c [] (c.checkWatchpoints req) := by
  simp only [checkWatchpoints]
  split
  · exact .single (.data rfl c.env c.dreq (eventOf req) 0)
  · exact .refl

theorem effects_writeBack (req : Request) (i : Fin 32) : Effects true c [] (c.writeBack i req) :=
  (effects_setGpr _ _).quiet (.single (.data rfl c.env _ c.wpEvent 0))

theorem abort_mild {t : ExType} {r : Access σ} (ht : t.isAsync = false)
    (h : c.abort t req = .ok r) : Mild true c r.core := by
  obtain ⟨c1, h1, rfl⟩ := Outcome.lift_eq_ok.1 h
  exact mild_exception ht h1

theorem complete_effects : Effects true c [] (c.complete req).core := by
  simp only [complete]
  split
  · exact .refl
  · exact effects_stall _

theorem Mild.after {b : Core σ} (hq : Effects true c [] b) (h : Mild true b c') : Mild true c c' := by
  obtain ⟨ts, hl, h⟩ := h
  exact ⟨ts, hl, hq.trans h⟩

theorem Mild.before {b : Core σ} (h : Mild true c b) (hq : Effects true b [] c') : Mild true c c' := by
  obtain ⟨ts, hl, h⟩ := h
  exact ⟨ts, hl, h.quiet hq⟩

theorem effects_translateData (c : Core σ) (req : Request) :
    Effects true c [] (c.translateData req).2.2 := by
  simp only [translateData]
  split
  · exact .single (.translate rfl req)
  · exact .refl

theorem send_mild {r : Access σ} (h : c.send req = .ok r) : Mild true c r.core := by
  simp only [send] at h
  refine .after (effects_env (c.env.convertAndTransact req).2.2) ?_
  split at h
  · exact abort_mild rfl h
  · split at h
    · cases h
    · cases h
      exact ((effects_clearFlag (by decide)).quiet complete_effects).mild
  · cases h
    refine (Effects.quiet ?_ complete_effects).mild
    split
    · exact effects_setFlag (by decide)
    · exact .refl

theorem send_throw_effects {x : Core σ × Request} (h : c.send req = .throw x) :
    Effects true c [] x.1 := by
  simp only [send] at h
  split at h
  · exact (abort_ne_throw h).elim
  · split at h
    · cases h; exact effects_env _
    · cases h
  · cases h

/-- Where `transact` goes: to an exception, or to the port. -/
theorem transact_cases (c : Core σ) (req : Request) :
    ∃ c1 req1, Effects true c [] c1 ∧
      (c.transact req = c1.send req1 ∨
        ∃ t, t.isAsync = false ∧ c.transact req = c1.abort t req1) := by
  simp only [transact]
  split
  · exact ⟨_, _, effects_checkWatchpoints, .inr ⟨.dataAlignment, rfl, rfl⟩⟩
  · have ht := effects_checkWatchpoints.quiet (effects_translateData
      (c.checkWatchpoints (c.dataRequest req)) (c.dataRequest req))
    simp only [translateSend]
    split <;> rename_i h <;> rw [h] at ht
    · exact ⟨_, _, ht, .inr ⟨.dataTlbMiss, rfl, rfl⟩⟩
    · exact ⟨_, _, ht, .inr ⟨.dataPageFault, rfl, rfl⟩⟩
    · exact ⟨_, _, ht, .inl rfl⟩

theorem transact_mild {r : Access σ} (h : c.transact req = .ok r) : Mild true c r.core := by
  obtain ⟨c1, req1, he, hs | ⟨t, ht, ha⟩⟩ := transact_cases c req
  · exact .after he (send_mild (hs ▸ h))
  · exact .after he (abort_mild ht (ha ▸ h))

/-- A thrown access has raised no exception of the guest. -/
theorem transact_throw_effects {x : Core σ × Request} (h : c.transact req = .throw x) :
    Effects true c [] x.1 := by
  obtain ⟨c1, req1, he, hs | ⟨t, ht, ha⟩⟩ := transact_cases c req
  · exact he.quiet (send_throw_effects (hs ▸ h))
  · exact (abort_ne_throw (ha ▸ h)).elim

/-- A load or store that gets past its operands is a call of `transact`, written back. -/
theorem accessMemory_eq {read excl : Bool} {size : Nat} {post : U32 → U32} {buf : Operand}
    (h : ∀ f, accessMemory read excl size post buf ci c ≠ .fault f) :
    ∃ (i : Fin 32) (req : Request), accessMemory read excl size post buf ci c =
      (c.transact req).lift (fun t => t.1.writeBack i t.2) fun r =>
        let c := r.core.writeBack i r.req
        (r.stall, if r.done && read then c.setGpr i (post (c.gpr i)) else c) := by
  revert h
  simp only [accessMemory]
  cases c.deref ci ci.src1 with
  | throw e => exact e.elim
  | fault f => intro h; exact (h f rfl).elim
  | ok a =>
    cases c.deref ci buf with
    | throw e => exact e.elim
    | fault f => intro h; exact (h f rfl).elim
    | ok v =>
      intro h
      cases buf with
      | null | imm => exact (h _ rfl).elim
      | reg i =>
        simp only [Outcome.widen, Outcome.lift_ok, id_eq, Outcome.ok_bind] at h ⊢
        split at h
        · rename_i hi
          exact ⟨⟨i, hi⟩, _, by rw [dif_pos hi]⟩
        · exact (h _ rfl).elim

theorem accessMemory_mild {read excl : Bool} {size : Nat} {post : U32 → U32} {buf : Operand}
    {n : Nat} (h : accessMemory read excl size post buf ci c = .ok (n, c')) : Mild true c c' := by
  obtain ⟨i, req, he⟩ := accessMemory_eq (by rw [h]; simp)
  obtain ⟨r, hr, hc⟩ := Outcome.lift_eq_ok.1 (he.symm.trans h)
  obtain ⟨rfl, rfl⟩ := Prod.mk.inj hc
  refine (transact_mild hr).before ((effects_writeBack r.req i).quiet ?_)
  split
  · exact effects_setGpr _ _
  · exact .refl

theorem accessMemory_throw_effects {read excl : Bool} {size : Nat} {post : U32 → U32}
    {buf : Operand} (h : accessMemory read excl size post buf ci c = .throw c') :
    Effects true c [] c' := by
  obtain ⟨i, req, he⟩ := accessMemory_eq (by rw [h]; simp)
  obtain ⟨t, ht, rfl⟩ := Outcome.lift_eq_throw.1 (he.symm.trans h)
  exact (transact_throw_effects ht).quiet (effects_writeBack _ i)

/-- Every load and store is an access of some kind. -/
theorem executeMem_eq (c : Core σ) (ci : Instruction) (e : MemExec) : ∃ read excl size post buf,
    c.executeMem e ci = accessMemory read excl size post buf ci c := by
  cases e with
  | lwa => exact ⟨true, true, 4, id, ci.dest, rfl⟩
  | lw => exact ⟨true, false, 4, id, ci.dest, rfl⟩
  | lhz => exact ⟨true, false, 2, (· &&& 0xffff#32), ci.dest, rfl⟩
  | lhs => exact ⟨true, false, 2, (signExtend32 · 15), ci.dest, rfl⟩
  | lbz => exact ⟨true, false, 1, (· &&& 0xff#32), ci.dest, rfl⟩
  | lbs => exact ⟨true, false, 1, (signExtend32 · 7), ci.dest, rfl⟩
  | swa => exact ⟨false, true, 4, id, ci.src2, rfl⟩
  | sw => exact ⟨false, false, 4, id, ci.src2, rfl⟩
  | sh => exact ⟨false, false, 2, id, ci.src2, rfl⟩
  | sb => exact ⟨false, false, 1, id, ci.src2, rfl⟩

theorem executeMem_mild {e : MemExec} {n : Nat} (h : c.executeMem e ci = .ok (n, c')) :
    Mild true c c' := by
  obtain ⟨_, _, _, _, _, he⟩ := executeMem_eq c ci e
  exact accessMemory_mild (he.symm.trans h)

theorem executeMem_throw_effects {e : MemExec} (h : c.executeMem e ci = .throw c') :
    Effects true c [] c' := by
  obtain ⟨_, _, _, _, _, he⟩ := executeMem_eq c ci e
  exact accessMemory_throw_effects (he.symm.trans h)

end Core

end Or1kiss
