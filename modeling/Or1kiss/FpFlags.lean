import Or1kiss.Memory
import Or1kiss.Raised
import Or1kiss.Transition

/-!
# The flags of a floating point operation

`reset_fp_flags` reads overflow, underflow and division by zero from the exception flags of the
host, which nothing clears. `fpResult` is what it is given, `ownResult` what the operation itself
contributes to that: its result, and the exceptions it raises on a host without any.
-/

namespace Or1kiss

open Host Bits Runs

variable {σ : Type}

/-! ## The flags of the host -/

namespace FpEnv

theorem raise_raise (e f g : FpEnv) : (e.raise f).raise g = e.raise (f.raise g) := by
  unfold raise
  rw [Bool.or_assoc, Bool.or_assoc, Bool.or_assoc]

/-- Every flag that is raised in `e` is raised in `f`. -/
def within (e f : FpEnv) : Bool :=
  (!e.overflow || f.overflow) && (!e.underflow || f.underflow) && (!e.divByZero || f.divByZero)

theorem within_iff {e f : FpEnv} : e.within f = true ↔ e.raise f = f := by
  obtain ⟨eo, eu, ed⟩ := e
  obtain ⟨fo, fu, fd⟩ := f
  revert eo eu ed fo fu fd
  decide

end FpEnv

/-! ## The bits of FPCSR -/

/-- The bits that `reset_fp_flags` writes. -/
abbrev FPS.result : U32 := FPS.ZF ||| FPS.INF ||| FPS.QNF ||| FPS.OV ||| FPS.UNF ||| FPS.DZF

namespace Core

/-- The bits for a result and the exceptions of an operation. -/
def fpBits (k : FpClass) (e : FpEnv) : U32 :=
  (if k.zero then FPS.ZF else 0#32) ||| (if k.inf then FPS.INF else 0#32) |||
    (if k.nan then FPS.QNF else 0#32) ||| (if e.overflow then FPS.OV else 0#32) |||
    (if e.underflow then FPS.UNF else 0#32) ||| (if e.divByZero then FPS.DZF else 0#32)

theorem fpBits_masked (k : FpClass) (e : FpEnv) : fpBits k e &&& FPS.result = fpBits k e := by
  obtain ⟨z, i, n⟩ := k
  obtain ⟨o, u, d⟩ := e
  revert z i n o u d
  decide

/-- The exceptions can be read off the bits. -/
theorem fpBits_exceptions (k : FpClass) (e : FpEnv) : test (fpBits k e) FPS.OV = e.overflow ∧
    test (fpBits k e) FPS.UNF = e.underflow ∧ test (fpBits k e) FPS.DZF = e.divByZero := by
  obtain ⟨z, i, n⟩ := k
  obtain ⟨o, u, d⟩ := e
  revert z i n o u d
  decide

theorem fpBits_injective {k : FpClass} {e f : FpEnv} (h : fpBits k e = fpBits k f) : e = f := by
  obtain ⟨ho, hu, hd⟩ := fpBits_exceptions k e
  obtain ⟨ho', hu', hd'⟩ := fpBits_exceptions k f
  rw [h] at ho hu hd
  obtain ⟨eo, eu, ed⟩ := e
  obtain ⟨fo, fu, fd⟩ := f
  cases ho.symm.trans ho'
  cases hu.symm.trans hu'
  cases hd.symm.trans hd'
  rfl

variable {c c' : Core σ} {ci : Instruction} {e : CoreExec} {k : FpClass} {f : FpEnv}

theorem exception_fpcfg {t : ExType} {addr : U32} (h : c.exception t addr = .ok c') :
    c'.fpcfg = c.fpcfg ∧ c'.fpEnv = c.fpEnv := by
  obtain ⟨-, rfl⟩ | ⟨-, -, rfl⟩ := exception_ok h
  · exact ⟨rfl, rfl⟩
  · unfold entered
    split <;> exact ⟨rfl, rfl⟩

theorem fpTest_fpcfg {flag : U32} {cond : Bool} (h : c.fpTest flag cond = .ok c') :
    c'.fpcfg = c.fpcfg ||| (if cond then flag else 0#32) ∧ c'.fpEnv = c.fpEnv := by
  simp only [fpTest] at h
  split at h <;> rename_i hc
  · rw [hc, if_pos rfl]
    split at h
    · exact exception_fpcfg h
    · cases h
      exact ⟨rfl, rfl⟩
  · cases h
    rw [if_neg hc, BitVec.or_zero]
    exact ⟨rfl, rfl⟩

/-- FPCSR behind `reset_fp_flags`. -/
theorem resetFpFlags_fpcfg (h : c.resetFpFlags k = .ok c') :
    c'.fpcfg = (c.fpcfg &&& ~~~FPS.result) ||| fpBits k c.fpEnv := by
  obtain ⟨c1, h1, h⟩ := Outcome.bind_eq_ok.1 h
  obtain ⟨c2, h2, h⟩ := Outcome.bind_eq_ok.1 h
  obtain ⟨c3, h3, h⟩ := Outcome.bind_eq_ok.1 h
  obtain ⟨c4, h4, h⟩ := Outcome.bind_eq_ok.1 h
  obtain ⟨c5, h5, h⟩ := Outcome.bind_eq_ok.1 h
  obtain ⟨p1, f1⟩ := fpTest_fpcfg h1
  obtain ⟨p2, f2⟩ := fpTest_fpcfg h2
  obtain ⟨p3, f3⟩ := fpTest_fpcfg h3
  obtain ⟨p4, f4⟩ := fpTest_fpcfg h4
  obtain ⟨p5, f5⟩ := fpTest_fpcfg h5
  obtain ⟨p6, -⟩ := fpTest_fpcfg h
  have e3 : c3.fpEnv = c.fpEnv := f3.trans (f2.trans f1)
  have e4 : c4.fpEnv = c.fpEnv := f4.trans e3
  have e5 : c5.fpEnv = c.fpEnv := f5.trans e4
  rw [p6, p5, p4, p3, p2, p1, e3, e4, e5]
  dsimp only
  unfold fpBits
  simp only [BitVec.or_assoc, FPS.result]

theorem resetFpFlags_bits (h : c.resetFpFlags k = .ok c') :
    c'.fpcfg &&& FPS.result = fpBits k c.fpEnv := by
  rw [resetFpFlags_fpcfg h]
  have hd : ((c.fpcfg &&& ~~~FPS.result) ||| fpBits k c.fpEnv) &&& FPS.result =
      fpBits k c.fpEnv &&& FPS.result := by
    rw [BitVec.or_comm]
    refine or_and_of_disjoint ?_
    rw [BitVec.and_assoc, BitVec.and_comm (~~~_), BitVec.and_not_self]
    exact BitVec.and_zero
  rw [hd, fpBits_masked]

variable [HostLib]

/-- The result of an operation and the exceptions that it raises itself. -/
def ownResult (c : Core σ) (ci : Instruction) (e : CoreExec) : Option (FpClass × FpEnv) :=
  ({ c with fpEnv := .clear } : Core σ).fpResult ci e

/-- The host adds the exceptions of the operation to those before it. -/
theorem fpResult_eq (c : Core σ) (ci : Instruction) (e : CoreExec) :
    c.fpResult ci e = (c.ownResult ci e).map fun p => (p.1, c.fpEnv.raise p.2) := by
  cases e with
  | orfpx32 op =>
    have hown : ∀ a b, c.fpResult32 a b op =
        (({ c with fpEnv := .clear } : Core σ).fpResult32 a b op).map
          fun p => (p.1, c.fpEnv.raise p.2) := by
      intro a b
      cases op with
      | madd => exact congrArg (fun f => some (_, f)) (FpEnv.raise_raise _ _ _)
      | _ => rfl
    have hderef : ∀ op, ({ c with fpEnv := .clear } : Core σ).deref ci op = c.deref ci op :=
      fun _ => rfl
    unfold ownResult fpResult
    dsimp only
    rw [hderef, hderef]
    split
    · exact hown _ _
    · rfl
  | orfpx64 op =>
    have hown : ∀ a b, c.fpResult64 a b op =
        (({ c with fpEnv := .clear } : Core σ).fpResult64 a b op).map
          fun p => (p.1, c.fpEnv.raise p.2) := by
      intro a b
      cases op <;> rfl
    have hderef : ∀ op i, ({ c with fpEnv := .clear } : Core σ).derefPair ci op i =
        c.derefPair ci op i := fun _ _ => rfl
    unfold ownResult fpResult
    dsimp only
    rw [hderef, hderef]
    split
    · exact hown _ _
    · rfl
  | _ => rfl

variable [EnvImpl σ]

/-- The flags behind an operation with this result and these exceptions of its own, and whether it
has raised the floating point exception. -/
structure OwnFlags (k : FpClass) (f : FpEnv) (c c' : Core σ) : Prop where
  bits : c'.fpcfg &&& FPS.result = fpBits k f
  raised : c'.taken ≠ c.taken ↔ c.fpEnabled = true ∧ true ∈ fpSignals k f

/-- An operation that ends with `reset_fp_flags`. -/
theorem execute_resets (h : c.execute e ci = .ok c') (ho : c.ownResult ci e = some (k, f)) :
    Resets false c (some (k, c.fpEnv.raise f)) c' := by
  have hr := fpResult_eq c ci e
  rw [ho] at hr
  cases e with
  | orfpx32 op =>
    have hres := orfpx32_resets (m := false) h
    rwa [hr] at hres
  | orfpx64 op =>
    have hres := orfpx64_resets (m := false) h
    rwa [hr] at hres
  | _ => cases ho

/-- The bits and the exception are those of the operation itself, with the exceptions that the host
has raised before. -/
theorem execute_flags (h : c.execute e ci = .ok c') (ho : c.ownResult ci e = some (k, f)) :
    OwnFlags k (c.fpEnv.raise f) c c' := by
  obtain ⟨b, hq, hf, hp, hr⟩ := execute_resets h ho
  have hen : b.fpEnabled = c.fpEnabled := by
    unfold fpEnabled
    rw [hp]
  have htaken : b.taken = c.taken := hq.taken
  refine ⟨?_, ?_⟩
  · rw [resetFpFlags_bits hr, hf]
  · have hl := (resetFpFlags_effects (m := false) hr).taken
    rw [hf, hen, htaken] at hl
    rw [hl, ne_eq, List.append_left_eq_self, List.reverse_eq_nil_iff, ← List.length_eq_zero_iff,
      length_signals]
    cases c.fpEnabled <;> simp [List.count_eq_zero]

theorem ownFlags_iff (h : c.execute e ci = .ok c') (ho : c.ownResult ci e = some (k, f)) :
    OwnFlags k f c c' ↔ c.fpEnv.within f = true := by
  have hflags := execute_flags h ho
  rw [FpEnv.within_iff]
  constructor
  · intro hown
    exact fpBits_injective (hflags.bits.symm.trans hown.bits)
  · intro hw
    rwa [hw] at hflags

end Core

/-! ## Runs -/

namespace Or1k

open Or1kiss.Core

variable [EnvImpl σ] [HostLib] {s x : Or1k σ} {ci : Instruction} {e : CoreExec} {k : FpClass}
  {f : FpEnv} {c : Core σ}

/-- The floating point operation at the program counter: its result, the exceptions that it raises
itself, and the core that executes it. -/
def fpInsn (s : Or1k σ) : Option (FpClass × FpEnv × Core σ) :=
  match s.fetch with
  | .ok (some ci, g) =>
    match ci.exec with
    | some (.core e) => (g.toCore.ownResult ci e).map fun p => (p.1, p.2, g.toCore)
    | _ => none
  | _ => none

theorem fpInsn_eq_some (h : s.fpInsn = some (k, f, c)) : ∃ ci e g,
    s.fetch = .ok (some ci, g) ∧ ci.exec = some (.core e) ∧ g.toCore.ownResult ci e = some (k, f) ∧
      c = g.toCore := by
  unfold fpInsn at h
  split at h
  · rename_i ci g hf
    split at h
    · rename_i e he
      obtain ⟨⟨k', f'⟩, ho, hp⟩ := Option.map_eq_some_iff.1 h
      cases hp
      exact ⟨ci, e, g, hf, he, ho, rfl⟩
    · cases h
  · cases h

omit [EnvImpl σ] [HostLib] in
/-- The host's flags are not touched between two instructions. -/
theorem FetchedInsn.fpEnv (h : FetchedInsn s x) : x.fpEnv = s.fpEnv := congrArg (·.fpEnv) h.eq

theorem execute_core (he : ci.exec = some (.core e)) (h : s.execute ci = .ok x) :
    s.toCore.execute e ci = .ok x.toCore := by
  unfold execute at h
  rw [he] at h
  obtain ⟨c, hc, rfl⟩ := onCore_eq_ok.1 h
  exact hc

theorem execute_core_ne_throw (he : ci.exec = some (.core e)) : s.execute ci ≠ .throw x := by
  unfold execute
  rw [he]
  exact onCore_ne_throw

end Or1k

namespace Machine

open Or1k Or1kiss.Core

variable [EnvImpl σ] [HostLib] {m m' : Machine σ}

/-- The floating point operation that a step executes. -/
def fpInsn (m : Machine σ) : Action σ → Option (FpClass × FpEnv × Core σ)
  | .run => if m.executes then m.cpu.beginCycle.fpInsn else none
  | _ => none

theorem fpInsn_eq_some {a : Action σ} {k : FpClass} {f : FpEnv} {c : Core σ}
    (h : m.fpInsn a = some (k, f, c)) :
    a = .run ∧ m.executes = true ∧ m.cpu.beginCycle.fpInsn = some (k, f, c) := by
  cases a with
  | run =>
    unfold fpInsn at h
    dsimp only at h
    split at h
    · exact ⟨rfl, ‹_›, h⟩
    · cases h
  | _ => cases h

/-- The flags behind the operation are its own. -/
def OwnStep (st : Move (Machine σ) (Action σ)) : Prop :=
  ∀ k f c, st.pre.fpInsn st.act = some (k, f, c) → OwnFlags k f c st.post.cpu.toCore

/-- The operation raises each exception again that is raised in the host. -/
def unmixed (m : Machine σ) (a : Action σ) : Bool :=
  match m.fpInsn a with
  | some (_, f, _) => m.cpu.fpEnv.within f
  | none => true

/-- The step that executes an operation, as the core does. -/
theorem fpInsn_executes {k : FpClass} {f : FpEnv} {c : Core σ} (h : m.fpInsn .run = some (k, f, c))
    (hn : m.next = some m') : ∃ ci e x, c.ownResult ci e = some (k, f) ∧
      c.execute e ci = .ok x ∧ c.fpEnv = m.cpu.fpEnv ∧ m'.cpu.fpcfg = x.fpcfg ∧
        m'.cpu.taken = x.taken := by
  obtain ⟨-, hexec, hi⟩ := fpInsn_eq_some h
  obtain ⟨ci, e, s, hf, he, ho, rfl⟩ := Or1k.fpInsn_eq_some hi
  have henv : s.fpEnv = m.cpu.fpEnv := (FetchedInsn.of_fetch hf).fpEnv
  have hfe : m.cpu.beginCycle.fetchExecute = s.execute ci := fetchExecute_of_fetch hf
  obtain ⟨limit, x, hx, rfl⟩ | ⟨x, hx, rfl⟩ := iteration_cases hexec hn
  · have hcx := execute_core he (hfe.symm.trans hx)
    exact ⟨ci, e, x.toCore, ho, hcx, henv, retired_frame (·.fpcfg) limit x fun _ _ _ _ => rfl,
      retired_frame (·.taken) limit x fun _ _ _ _ => rfl⟩
  · exact (execute_core_ne_throw he (hfe.symm.trans hx)).elim

/-- One step: an operation has its own flags exactly if it is not mixed with earlier ones. -/
theorem ownStep_iff {a : Action σ} (hn : m.act a = some m') :
    OwnStep ⟨m, a, m'⟩ ↔ m.unmixed a = true := by
  unfold OwnStep unmixed
  dsimp only
  cases hfp : m.fpInsn a with
  | none =>
    refine iff_of_true (fun k f c h => ?_) rfl
    cases h
  | some p =>
    obtain ⟨k, f, c⟩ := p
    obtain ⟨rfl, -, -⟩ := fpInsn_eq_some hfp
    obtain ⟨ci, e, x, ho, hx, henv, hcfg, htaken⟩ := fpInsn_executes hfp hn
    have hpost : OwnFlags k f c m'.cpu.toCore ↔ m.cpu.fpEnv.within f = true := by
      rw [← henv, ← ownFlags_iff hx ho]
      constructor
      · exact fun h => ⟨hcfg ▸ h.bits, htaken ▸ h.raised⟩
      · exact fun h => ⟨hcfg ▸ h.bits, htaken ▸ h.raised⟩
    constructor
    · exact fun h => hpost.1 (h k f _ rfl)
    · intro h k' f' c' hp
      cases hp
      exact hpost.2 h

/-- In every run each floating point operation leaves the flags of its own result and exceptions, and
raises the exception for them only, if and only if it raises each exception itself that an earlier
operation has raised. -/
theorem fp_flags_iff {l : List (Move (Machine σ) (Action σ))} (h : system.Path m l m') :
    (∀ st ∈ l, OwnStep st) ↔ ∀ st ∈ l, st.pre.unmixed st.act = true := by
  have hsteps := h.forall (R := fun st => OwnStep st ↔ st.pre.unmixed st.act = true)
    fun _ _ _ hn => ownStep_iff hn
  constructor
  · exact fun ho st hst => (hsteps st hst).1 (ho st hst)
  · exact fun hu st hst => (hsteps st hst).2 (hu st hst)

end Machine

/-- A host that has been asked for `1.0 / 0.0` and `1.0 + 1.0`. -/
@[reducible] def HostLib.dividing : HostLib :=
  { HostLib.plain with
    fp32 := fun op _ _ _ =>
      if op = .div then (0x7f800000#32, { FpEnv.clear with divByZero := true })
      else (0x40000000#32, .clear) }

namespace Machine

open Or1kiss.Core

attribute [local instance] HostLib.dividing

/-- `l.movhi r1,0x3f80`, the instruction `insn`, and `lf.add.s r4,r1,r1`. -/
def adding (insn : U32) : Machine Memory :=
  Memory.boot [(0x100, 0x18203f80#32), (0x104, insn), (0x108, 0xc8810800#32)]

/-- The addition evaluated up to the step that executes it, with the steps before. It raises
nothing, and its result is neither zero nor special. -/
theorem exists_adding (insn : U32) (okb : Machine Memory → Action Memory → Bool)
    (p : Machine Memory → Machine Memory → Bool)
    (h : (system.runsIf okb [.call 3#32, .run, .run, .run] (adding insn)).any (fun m =>
        match m.fpInsn .run, m.next with
        | some (k, f, _), some m' => !(k.zero || k.inf || k.nan) && decide (f = .clear) && p m m'
        | _, _ => false) = true) :
    ∃ l m m' c, system.Path (adding insn) l m ∧ (∀ st ∈ l, okb st.pre st.act = true) ∧
      m.fpInsn .run = some (⟨false, false, false⟩, .clear, c) ∧ m.next = some m' ∧
        p m m' = true := by
  obtain ⟨m, hr, h⟩ := System.exists_steps system okb _ _ _ h
  obtain ⟨l, hl, hok⟩ := hr.path_ok
  split at h
  · rename_i k f c m' hm hn
    obtain ⟨z, i, n⟩ := k
    rw [Bool.and_eq_true, Bool.and_eq_true, decide_eq_true_iff] at h
    obtain ⟨⟨hk, rfl⟩, hp⟩ := h
    cases z <;> cases i <;> cases n <;> cases hk
    exact ⟨l, m, m', c, hl, hok, hm, hn, hp⟩
  · cases h

/-- Behind `lf.div.s r3,r1,r0` the addition leaves FPCSR[DZF] set, behind `l.nop` clear. -/
theorem fp_flags_iff_fails : ∃ l₁ l₂ m₁ m₂ m₁' m₂' k f c₁ c₂,
    system.Path (adding 0xc8610003#32) l₁ m₁ ∧ system.Path (adding 0x15000000#32) l₂ m₂ ∧
      m₁.fpInsn .run = some (k, f, c₁) ∧ m₂.fpInsn .run = some (k, f, c₂) ∧
      m₁.next = some m₁' ∧ m₂.next = some m₂' ∧
      m₁'.cpu.fpcfg &&& FPS.result ≠ m₂'.cpu.fpcfg &&& FPS.result := by
  obtain ⟨l₁, m₁, m₁', c₁, h₁, -, hm₁, hn₁, hp₁⟩ := exists_adding 0xc8610003#32 (fun _ _ => true)
    (fun _ m' => decide (m'.cpu.fpcfg &&& FPS.result = FPS.DZF)) (by decide +kernel)
  obtain ⟨l₂, m₂, m₂', c₂, h₂, -, hm₂, hn₂, hp₂⟩ := exists_adding 0x15000000#32 (fun _ _ => true)
    (fun _ m' => decide (m'.cpu.fpcfg &&& FPS.result = 0#32)) (by decide +kernel)
  refine ⟨l₁, l₂, m₁, m₂, m₁', m₂', _, _, c₁, c₂, h₁, h₂, hm₁, hm₂, hn₁, hn₂, ?_⟩
  rw [of_decide_eq_true hp₁, of_decide_eq_true hp₂]
  decide

/-- Behind `l.nop` it has its own flags. -/
theorem fp_flags_iff_add : ∃ l m m' c, system.Path (adding 0x15000000#32) (l ++ [⟨m, .run, m'⟩]) m' ∧
    m.fpInsn .run = some (⟨false, false, false⟩, .clear, c) ∧
      ∀ st ∈ l ++ [⟨m, .run, m'⟩], OwnStep st := by
  obtain ⟨l, m, m', c, hl, hok, hm, hn, hp⟩ := exists_adding 0x15000000#32 unmixed
    (fun m _ => m.unmixed .run) (by decide +kernel)
  have hpath : system.Path (adding 0x15000000#32) (l ++ [⟨m, .run, m'⟩]) m' := hl.tail hn
  refine ⟨l, m, m', c, hpath, hm, (fp_flags_iff hpath).2 fun st hst => ?_⟩
  rcases List.mem_append.1 hst with hst | hst
  · exact hok st hst
  · cases List.mem_singleton.1 hst
    exact hp

end Machine

end Or1kiss
