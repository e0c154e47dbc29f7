import Or1kiss.Frame

/-!
# Executors that raise more than one exception

`l.addc` and `l.sub` raise the range exception for a carry and again for an overflow,
`reset_fp_flags` raises once for every condition that holds. `raisesTwice` is the condition
on the operands under which an instruction raises several exceptions, all of one type
(`execute_raised`); every other executor raises one at most.
-/

namespace Or1kiss

open Host Bits

variable {σ : Type}

/-- The operation of an arithmetic executor. -/
def FpExec.arith : FpExec → Option FpOp
  | .add => some .add
  | .sub => some .sub
  | .mul => some .mul
  | .div => some .div
  | .rem => some .rem
  | _ => none

namespace Core

/-! ## Two exceptions of one instruction -/

/-- The operands give both a carry and an overflow, to an executor that tests both. -/
def carriesAndOverflows (c : Core σ) (ci : Instruction) (e : CoreExec) : Bool :=
  match e, c.deref ci ci.src1, c.deref ci ci.src2 with
  | .addc, .ok a, .ok b =>
    decide (c.addcResult a b < a) && addOverflows a b (c.addcResult a b)
  | .sub, .ok a, .ok b => decide (b > a) && subOverflows a b (a - b)
  | _, _, _ => false

section FloatingPoint

variable [HostLib]

/-- The result of a single precision operation and the host flags after it. -/
def fpResult32 (c : Core σ) (a b : U32) : FpExec → Option (FpClass × FpEnv)
  | .madd =>
    let (s, f) := HostLib.fp32 .add c.roundingMode a b
    let (r, g) := HostLib.fp32 .add c.roundingMode c.fmac.lo s
    some (fpClass32 r, (c.fpEnv.raise f).raise g)
  | op => op.arith.map fun o =>
    let (r, f) := HostLib.fp32 o c.roundingMode a b
    (fpClass32 r, c.fpEnv.raise f)

/-- The result of a double precision operation and the host flags after it. -/
def fpResult64 (c : Core σ) (a b : U64) : FpExec → Option (FpClass × FpEnv)
  | .madd =>
    let (r, f) := HostLib.fp64 .sub c.roundingMode a b
    some (fpClass64 r, c.fpEnv.raise f)
  | op => op.arith.map fun o =>
    let (r, f) := HostLib.fp64 o c.roundingMode a b
    (fpClass64 r, c.fpEnv.raise f)

/-- What `reset_fp_flags` is given by an executor that calls it. -/
def fpResult (c : Core σ) (ci : Instruction) : CoreExec → Option (FpClass × FpEnv)
  | .orfpx32 op =>
    match c.deref ci ci.src1, c.deref ci ci.src2 with
    | .ok a, .ok b => c.fpResult32 a b op
    | _, _ => none
  | .orfpx64 op =>
    match c.derefPair ci ci.src1 9, c.derefPair ci ci.src2 8 with
    | .ok a, .ok b => c.fpResult64 a b op
    | _, _ => none
  | _ => none

/-- More than one floating point condition holds. -/
def fpTwice (c : Core σ) (ci : Instruction) (e : CoreExec) : Bool :=
  match c.fpResult ci e with
  | some (k, f) => c.fpEnabled && decide (2 ≤ (fpSignals k f).count true)
  | none => false

/-- The instruction raises more than one exception. -/
def raisesTwice (c : Core σ) (ci : Instruction) : Bool :=
  match ci.exec with
  | some (.core e) =>
    c.carriesAndOverflows ci e && c.rangeEnabled AE.CYADDE && c.rangeEnabled AE.OVADDE ||
      c.fpTwice ci e
  | _ => false

end FloatingPoint

variable [EnvImpl σ] {m : Bool} {c c' : Core σ} {ci : Instruction}

/-- Effects with exceptions of one type; `twice` says that there are several. -/
def Raised (m : Bool) (c c' : Core σ) (twice : Bool) : Prop :=
  ∃ ts, Effects m c ts c' ∧ (∀ t ∈ ts, ∀ u ∈ ts, t = u) ∧ (twice = true ↔ 2 ≤ ts.length)

theorem Raised.outcomes {twice : Bool} (h : Raised m c c' twice) : Outcomes c c' := by
  obtain ⟨ts, h, -⟩ := h
  exact h.outcomes

theorem Mild.raised (h : Mild m c c') : Raised m c c' false := by
  obtain ⟨ts, hl, h⟩ := h
  refine ⟨ts, h, ?_, ⟨fun h => (Bool.false_ne_true h).elim, fun h => by omega⟩⟩
  match ts, hl with
  | [], _ => simp
  | [t], _ => simp

theorem Effects.raised (h : Effects m c [] c') : Raised m c c' false := h.mild.raised

theorem carryOverflow_raised {carry ovf : Bool} {c1 : Core σ} (hq : Effects m c [] c1)
    (h : c1.carryOverflow carry ovf = .ok c') :
    Raised m c c' (carry && ovf && c.rangeEnabled AE.CYADDE && c.rangeEnabled AE.OVADDE) := by
  have he := hq.trans (carryOverflow_effects h)
  rw [hq.rangeEnabled, hq.rangeEnabled] at he
  refine ⟨_, he, ?_, ?_⟩
  · simp only [List.nil_append, raises]
    split <;> split <;> simp
  · simp only [List.nil_append, raises]
    cases carry <;> cases ovf <;> cases c.rangeEnabled AE.CYADDE <;>
      cases c.rangeEnabled AE.OVADDE <;> simp

theorem addc_raised (h : c.executeOrbis32Addc ci = .ok c') :
    Raised m c c' (c.carriesAndOverflows ci .addc && c.rangeEnabled AE.CYADDE &&
      c.rangeEnabled AE.OVADDE) := by
  obtain ⟨a, ha, h⟩ := Outcome.bind_eq_ok.1 h
  obtain ⟨b, hb, h⟩ := Outcome.bind_eq_ok.1 h
  obtain ⟨c1, h1, h⟩ := Outcome.bind_eq_ok.1 h
  simp only [carriesAndOverflows, ha, hb]
  exact carryOverflow_raised (assign_effects h1) h

theorem sub_raised (h : c.executeOrbis32Sub ci = .ok c') :
    Raised m c c' (c.carriesAndOverflows ci .sub && c.rangeEnabled AE.CYADDE &&
      c.rangeEnabled AE.OVADDE) := by
  obtain ⟨a, ha, h⟩ := Outcome.bind_eq_ok.1 h
  obtain ⟨b, hb, h⟩ := Outcome.bind_eq_ok.1 h
  obtain ⟨c1, h1, h⟩ := Outcome.bind_eq_ok.1 h
  simp only [carriesAndOverflows, ha, hb]
  exact carryOverflow_raised (assign_effects h1) h

theorem length_signals (l : List Bool) (en : Bool) :
    (l.flatMap fun s => raises .fp (s && en)).length = if en then l.count true else 0 := by
  induction l with
  | nil => cases en <;> rfl
  | cons s l ih =>
    rw [List.flatMap_cons, List.length_append, ih]
    cases s <;> cases en <;> simp [raises, Nat.add_comm]

theorem resetFpFlags_raised {k : FpClass} {f : FpEnv} {c1 : Core σ} (hq : Effects m c [] c1)
    (hf : c1.fpEnv = f) (hp : c1.fpEnabled = c.fpEnabled) (h : c1.resetFpFlags k = .ok c') :
    Raised m c c' (c.fpEnabled && decide (2 ≤ (fpSignals k f).count true)) := by
  have he := hq.trans (resetFpFlags_effects h)
  rw [hf, hp, List.nil_append] at he
  refine ⟨_, he, ?_, ?_⟩
  · have hm : ∀ t ∈ (fpSignals k f).flatMap fun s => raises .fp (s && c.fpEnabled), t = .fp := by
      intro t ht
      obtain ⟨s, -, hs⟩ := List.mem_flatMap.1 ht
      simp only [raises] at hs
      split at hs
      · simpa using hs
      · cases hs
    intro t ht u hu
    rw [hm t ht, hm u hu]
  · rw [length_signals]
    cases c.fpEnabled <;> simp

omit [EnvImpl σ] in
/-- Registers keep the floating point environment and FPCSR. -/
theorem assign_fp {op : Operand} {v : U32} (h : c.assign op v = .ok c') :
    c'.fpEnv = c.fpEnv ∧ c'.fpcfg = c.fpcfg := by
  obtain ⟨i, -, rfl⟩ := assign_ok h
  exact ⟨rfl, rfl⟩

omit [EnvImpl σ] in
theorem assignAt_fp {op : Operand} {off : Nat} {v : U32} (h : c.assignAt op off v = .ok c') :
    c'.fpEnv = c.fpEnv ∧ c'.fpcfg = c.fpcfg := by
  cases op with
  | null => cases h
  | imm => cases h
  | reg i => simp only [assignAt] at h; exact assign_fp h

omit [EnvImpl σ] in
theorem assignPair_fp {op : Operand} {off : Nat} {v : U64} (h : c.assignPair op off v = .ok c') :
    c'.fpEnv = c.fpEnv ∧ c'.fpcfg = c.fpcfg := by
  obtain ⟨c1, h1, h⟩ := Outcome.bind_eq_ok.1 h
  have p1 := assignAt_fp h1
  have p2 := assignAt_fp h
  exact ⟨p2.1.trans p1.1, p2.2.trans p1.2⟩

/-- An executor ends with `reset_fp_flags` on this class, in this environment, or does not call it. -/
def Resets (m : Bool) (c : Core σ) (o : Option (FpClass × FpEnv)) (c' : Core σ) : Prop :=
  match o with
  | none => Effects m c [] c'
  | some (k, f) => ∃ b, Effects m c [] b ∧ b.fpEnv = f ∧ b.fpcfg = c.fpcfg ∧
      b.resetFpFlags k = .ok c'

variable [HostLib]

theorem Resets.raised {e : CoreExec} (h : Resets m c (c.fpResult ci e) c') :
    Raised m c c' (c.fpTwice ci e) := by
  unfold fpTwice
  generalize c.fpResult ci e = o at h
  match o, h with
  | none, h => exact Effects.raised h
  | some (k, f), ⟨b, hq, hf, hp, hr⟩ =>
    have hen : b.fpEnabled = c.fpEnabled := by
      unfold fpEnabled
      rw [hp]
    exact resetFpFlags_raised hq hf hen hr

theorem fp32Arith_resets {op : FpOp} (h : fp32Arith op ci c = .ok c') :
    ∃ a b, c.deref ci ci.src1 = .ok a ∧ c.deref ci ci.src2 = .ok b ∧
      Resets m c (some (fpClass32 (HostLib.fp32 op c.roundingMode a b).1,
        c.fpEnv.raise (HostLib.fp32 op c.roundingMode a b).2)) c' := by
  obtain ⟨a, ha, h⟩ := Outcome.bind_eq_ok.1 h
  obtain ⟨b, hb, h⟩ := Outcome.bind_eq_ok.1 h
  obtain ⟨c1, h1, h⟩ := Outcome.bind_eq_ok.1 h
  have hp := assign_fp h1
  exact ⟨a, b, ha, hb, c1, (effects_raiseFp _).quiet (assign_effects h1), hp.1, hp.2, h⟩

theorem fp64Arith_resets {op : FpOp} (h : fp64Arith op ci c = .ok c') :
    ∃ a b, c.derefPair ci ci.src1 9 = .ok a ∧ c.derefPair ci ci.src2 8 = .ok b ∧
      Resets m c (some (fpClass64 (HostLib.fp64 op c.roundingMode a b).1,
        c.fpEnv.raise (HostLib.fp64 op c.roundingMode a b).2)) c' := by
  obtain ⟨a, ha, h⟩ := Outcome.bind_eq_ok.1 h
  obtain ⟨b, hb, h⟩ := Outcome.bind_eq_ok.1 h
  obtain ⟨c1, h1, h⟩ := Outcome.bind_eq_ok.1 h
  have hp := assignPair_fp h1
  exact ⟨a, b, ha, hb, c1, (effects_raiseFp _).quiet (assignPair_effects h1), hp.1, hp.2, h⟩

theorem orfpx32_resets {op : FpExec} (h : c.executeOrfpx32 op ci = .ok c') :
    Resets m c (c.fpResult ci (.orfpx32 op)) c' := by
  have harith : ∀ o, op.arith = some o → fp32Arith o ci c = .ok c' →
      Resets m c (c.fpResult ci (.orfpx32 op)) c' := by
    intro o ho h
    obtain ⟨a, b, ha, hb, hr⟩ := fp32Arith_resets h
    have hf : c.fpResult32 a b op = op.arith.map fun o =>
        (fpClass32 (HostLib.fp32 o c.roundingMode a b).1,
          c.fpEnv.raise (HostLib.fp32 o c.roundingMode a b).2) := by
      cases op <;> first | rfl | cases ho
    simp only [fpResult, ha, hb, hf, ho, Option.map_some]
    exact hr
  have hnone : (∀ a b, c.fpResult32 a b op = none) → Effects m c [] c' →
      Resets m c (c.fpResult ci (.orfpx32 op)) c' := by
    intro hn he
    have hf : c.fpResult ci (.orfpx32 op) = none := by
      simp only [fpResult]; split
      · exact hn _ _
      · rfl
    rw [hf]
    exact he
  cases op with
  | add => exact harith .add rfl h
  | sub => exact harith .sub rfl h
  | mul => exact harith .mul rfl h
  | div => exact harith .div rfl h
  | rem => exact harith .rem rfl h
  | madd =>
    obtain ⟨a, ha, h⟩ := Outcome.bind_eq_ok.1 h
    obtain ⟨b, hb, h⟩ := Outcome.bind_eq_ok.1 h
    have hq : Effects m c [] { c with
        fpEnv := (c.fpEnv.raise (HostLib.fp32 .add c.roundingMode a b).2).raise
          (HostLib.fp32 .add c.roundingMode c.fmac.lo
            (HostLib.fp32 .add c.roundingMode a b).1).2
        fmac := { c.fmac with lo := (HostLib.fp32 .add c.roundingMode c.fmac.lo
            (HostLib.fp32 .add c.roundingMode a b).1).1 } } := effects_toRegs _ rfl
    simp only [fpResult, ha, hb]
    exact ⟨_, hq, rfl, rfl, h⟩
  | itof | ftoi => exact hnone (fun _ _ => rfl) (fp32Convert_effects h)
  | sfeq | sfne | sfgt | sfge | sflt | sfle => exact hnone (fun _ _ => rfl) (compare_effects h)

theorem orfpx64_resets {op : FpExec} (h : c.executeOrfpx64 op ci = .ok c') :
    Resets m c (c.fpResult ci (.orfpx64 op)) c' := by
  have harith : ∀ o, op.arith = some o → fp64Arith o ci c = .ok c' →
      Resets m c (c.fpResult ci (.orfpx64 op)) c' := by
    intro o ho h
    obtain ⟨a, b, ha, hb, hr⟩ := fp64Arith_resets h
    have hf : c.fpResult64 a b op = op.arith.map fun o =>
        (fpClass64 (HostLib.fp64 o c.roundingMode a b).1,
          c.fpEnv.raise (HostLib.fp64 o c.roundingMode a b).2) := by
      cases op <;> first | rfl | cases ho
    simp only [fpResult, ha, hb, hf, ho, Option.map_some]
    exact hr
  have hnone : (∀ a b, c.fpResult64 a b op = none) → Effects m c [] c' →
      Resets m c (c.fpResult ci (.orfpx64 op)) c' := by
    intro hn he
    have hf : c.fpResult ci (.orfpx64 op) = none := by
      simp only [fpResult]; split
      · exact hn _ _
      · rfl
    rw [hf]
    exact he
  cases op with
  | add => exact harith .add rfl h
  | sub => exact harith .sub rfl h
  | mul => exact harith .mul rfl h
  | div => exact harith .div rfl h
  | rem => exact harith .rem rfl h
  | madd =>
    obtain ⟨a, ha, h⟩ := Outcome.bind_eq_ok.1 h
    obtain ⟨b, hb, h⟩ := Outcome.bind_eq_ok.1 h
    have hq : Effects m c [] { c with
        fpEnv := c.fpEnv.raise (HostLib.fp64 .sub c.roundingMode a b).2
        fmac := .ofU c.env.hostEndian (HostLib.fp64 .sub c.roundingMode a b).1 } :=
      effects_toRegs _ rfl
    simp only [fpResult, ha, hb]
    exact ⟨_, hq, rfl, rfl, h⟩
  | itof | ftoi => exact hnone (fun _ _ => rfl) (fp64Convert_effects h)
  | sfeq | sfne | sfgt | sfge | sflt | sfle => exact hnone (fun _ _ => rfl) (fp64Compare_effects h)

/-- Executors outside floating point other than `l.addc` and `l.sub`. -/
theorem execute_mild {e : CoreExec} (he : e.isJump = false) (ha : e ≠ .addc) (hs : e ≠ .sub)
    (h32 : ∀ op, e ≠ .orfpx32 op) (h64 : ∀ op, e ≠ .orfpx64 op) (h : c.execute e ci = .ok c') :
    Mild m c c' := by
  cases e with
  | bf | bnf | jumpRel | jumpAbs => cases he
  | addc => exact (ha rfl).elim
  | sub => exact (hs rfl).elim
  | orfpx32 op => exact (h32 op rfl).elim
  | orfpx64 op => exact (h64 op rfl).elim
  | movhi => exact (assign_effects h).mild
  | extw | exthz | exths | extbz | extbs | ff1 | fl1 => exact (unary_effects h).mild
  | add => exact add_mild h
  | and | or | xor | cmov | sll | srl | sra | ror => exact (binary_effects h).mild
  | mul => exact mul_mild h
  | mulu => exact mulu_mild h
  | muld => exact macSigned_mild (fun _ p => p) AE.OVMULE h
  | muldu => exact macUnsigned_mild (fun _ p => p) AE.CYMULE h
  | mac => exact macSigned_mild (· + ·) AE.OVMACADDE h
  | macu => exact macUnsigned_mild (· + ·) AE.CYMACADDE h
  | msb => exact macSigned_mild (· - ·) AE.OVMACADDE h
  | msbu => exact macUnsigned_mild (· - ·) AE.CYMACADDE h
  | div => exact div_mild h
  | divu => exact divu_mild h
  | sfeq | sfne | sfgtu | sfgeu | sfltu | sfleu | sfgts | sfges | sflts | sfles =>
    exact (compare_effects h).mild
  | macrc => exact (macrc_effects h).mild
  | sys => exact mild_exception (t := .syscall) rfl h
  | trap => exact mild_exception (t := .trap) rfl h
  | csync | msync | psync => cases h; exact Effects.refl.mild

/-- Every executor that is not a jump is a sequence of effects; it raises at most one
exception unless `raisesTwice` says otherwise. -/
theorem execute_raised {e : CoreExec} (hci : ci.exec = some (.core e)) (he : e.isJump = false)
    (h : c.execute e ci = .ok c') : Raised m c c' (c.raisesTwice ci) := by
  have hmild : e ≠ .addc → e ≠ .sub → (∀ op, e ≠ .orfpx32 op) → (∀ op, e ≠ .orfpx64 op) →
      Raised m c c' (c.raisesTwice ci) := by
    intro ha hs h32 h64
    have hr : c.raisesTwice ci = false := by
      have h1 : c.carriesAndOverflows ci e = false := by
        cases e <;> first | rfl | exact (ha rfl).elim | exact (hs rfl).elim
      have h2 : c.fpResult ci e = none := by
        cases e <;> first | rfl | exact (h32 _ rfl).elim | exact (h64 _ rfl).elim
      simp only [raisesTwice, hci, h1, fpTwice, h2, Bool.false_and, Bool.or_false]
    rw [hr]
    exact (execute_mild he ha hs h32 h64 h).raised
  cases e with
  | addc =>
    have hr : c.raisesTwice ci = (c.carriesAndOverflows ci .addc && c.rangeEnabled AE.CYADDE &&
        c.rangeEnabled AE.OVADDE) := by
      simp only [raisesTwice, hci, fpTwice, fpResult, Bool.or_false]
    rw [hr]
    exact addc_raised h
  | sub =>
    have hr : c.raisesTwice ci = (c.carriesAndOverflows ci .sub && c.rangeEnabled AE.CYADDE &&
        c.rangeEnabled AE.OVADDE) := by
      simp only [raisesTwice, hci, fpTwice, fpResult, Bool.or_false]
    rw [hr]
    exact sub_raised h
  | orfpx32 op =>
    have hr : c.raisesTwice ci = c.fpTwice ci (.orfpx32 op) := by
      simp only [raisesTwice, hci, carriesAndOverflows, Bool.false_and, Bool.false_or]
    rw [hr]
    exact (orfpx32_resets h).raised
  | orfpx64 op =>
    have hr : c.raisesTwice ci = c.fpTwice ci (.orfpx64 op) := by
      simp only [raisesTwice, hci, carriesAndOverflows, Bool.false_and, Bool.false_or]
    rw [hr]
    exact (orfpx64_resets h).raised
  | _ => exact hmild (by simp) (by simp) (by simp) (by simp)

end Core

end Or1kiss
