import Or1kiss.Executed

/-!
# The host stack

`exception` calls `schedule_jump`, which calls `exception` for a misaligned target. The calls
nest without end if the vector itself is misaligned, that is if EVBAR is; otherwise no
instruction exhausts the host stack (`fetchExecute_returns`).
-/

namespace Or1kiss

open Host Bits Outcome

variable {σ : Type}

namespace Core

variable {c c' : Core σ} {ci : Instruction}

/-- The computation does not exhaust the host stack. -/
abbrev Returns {S α : Type} (x : Outcome S α) : Prop := x.Avoids .stackOverflow

theorem deref_returns (op : Operand) : Returns (c.deref ci op) := by
  cases op with
  | null => exact avoids_fault nofun
  | imm => exact avoids_ok _
  | reg i =>
    simp only [deref]
    split
    · exact avoids_ok _
    · exact avoids_fault nofun

theorem assign_returns (op : Operand) (v : U32) : Returns (c.assign op v) := by
  cases op with
  | null | imm => exact avoids_fault Fault.noConfusion
  | reg i =>
    simp only [assign]
    split
    · exact avoids_ok _
    · exact avoids_fault Fault.noConfusion

theorem exception_returns (he : isAligned c.evba 4 = true) (t : ExType) (addr : U32) :
    Returns (c.exception t addr) := by
  rw [exception_eq, he, Bool.or_true, if_pos rfl]
  split <;> exact avoids_ok _

theorem scheduleJump_returns (he : isAligned c.evba 4 = true) (target : U32) (delay : Nat) :
    Returns (c.scheduleJump target delay) := by
  rw [scheduleJump_eq]
  split
  · exact avoids_ok _
  · refine exception_returns ?_ _ _
    exact he

theorem rangeException_returns (he : isAligned c.evba 4 = true) (ae : U32) :
    Returns (c.rangeException ae) := by
  simp only [rangeException]
  split
  · exact exception_returns (c := { c with aesr := c.aesr ||| ae }) he _ _
  · exact avoids_ok _

theorem overflow_returns (he : isAligned c.evba 4 = true) (ovf : Bool) (flag ae : U32) :
    Returns (c.overflow ovf flag ae) := by
  simp only [overflow]
  split
  · exact rangeException_returns (c := c.setFlag flag) he ae
  · exact avoids_ok _

theorem abort_returns (he : isAligned c.evba 4 = true) (t : ExType) (req : Request) :
    Returns (c.abort t req) := (exception_returns he t _).lift

theorem refuse_returns (he : isAligned c.evba 4 = true) (t : ExType) : Returns (c.refuse t) :=
  (exception_returns he t _).lift

/-! ## Shapes -/

theorem unary_returns (f : U32 → U32) : Returns (unary f ci c) :=
  (deref_returns _).bind fun _ _ => assign_returns _ _

theorem binary_returns (f : U32 → U32 → U32) : Returns (binary f ci c) :=
  (deref_returns _).bind fun _ _ => (deref_returns _).bind fun _ _ => assign_returns _ _

theorem compare_returns (p : U32 → U32 → Bool) : Returns (compare p ci c) :=
  (deref_returns _).bind fun _ _ => (deref_returns _).bind fun _ _ => avoids_ok _

section Aligned

variable [EnvImpl σ] (he : isAligned c.evba 4 = true)

/-- No effect moves the vectors. -/
theorem Effects.aligned {ts : List ExType} (h : Effects true c ts c') (he : isAligned c.evba 4 = true) :
    isAligned c'.evba 4 = true := by rw [h.kept.evba, he]

include he

theorem carryOverflow_returns (carry ovf : Bool) : Returns (c.carryOverflow carry ovf) := by
  have he' : isAligned ((c.clearFlag SR.CY).clearFlag SR.OV).evba 4 = true := he
  refine (overflow_returns he' _ _ _).bind fun c1 h1 => ?_
  exact overflow_returns ((overflow_effects (by decide) h1).aligned he') _ _ _

theorem add_returns : Returns (c.executeOrbis32Add ci) :=
  (deref_returns _).bind fun _ _ => (deref_returns _).bind fun _ _ =>
    (assign_returns _ _).bind fun c1 h1 => by
      refine overflow_returns ?_ _ _ _
      have := (assign_effects h1).aligned he
      split <;> exact this

theorem addc_returns : Returns (c.executeOrbis32Addc ci) :=
  (deref_returns _).bind fun _ _ => (deref_returns _).bind fun _ _ =>
    (assign_returns _ _).bind fun _ h1 =>
      carryOverflow_returns ((assign_effects h1).aligned he) _ _

theorem sub_returns : Returns (c.executeOrbis32Sub ci) :=
  (deref_returns _).bind fun _ _ => (deref_returns _).bind fun _ _ =>
    (assign_returns _ _).bind fun _ h1 =>
      carryOverflow_returns ((assign_effects h1).aligned he) _ _

theorem mul_returns : Returns (c.executeOrbis32Mul ci) :=
  (deref_returns _).bind fun _ _ => (deref_returns _).bind fun _ _ =>
    (assign_returns _ _).bind fun c1 h1 =>
      overflow_returns (c := c1.clearFlag SR.OV) ((assign_effects h1).aligned he) _ _ _

theorem mulu_returns : Returns (c.executeOrbis32Mulu ci) :=
  (deref_returns _).bind fun _ _ => (deref_returns _).bind fun _ _ =>
    (assign_returns _ _).bind fun c1 h1 =>
      overflow_returns (c := c1.clearFlag SR.CY) ((assign_effects h1).aligned he) _ _ _

omit [EnvImpl σ] in
theorem macSigned_returns (f : U64 → U64 → U64) (ae : U32) : Returns (macSigned f ae ci c) :=
  (deref_returns _).bind fun _ _ => (deref_returns _).bind fun _ _ =>
    overflow_returns (c := (c.setMac _).clearFlag SR.OV) he _ _ _

omit [EnvImpl σ] in
theorem macUnsigned_returns (f : U64 → U64 → U64) (ae : U32) : Returns (macUnsigned f ae ci c) :=
  (deref_returns _).bind fun _ _ => (deref_returns _).bind fun _ _ =>
    overflow_returns (c := (c.setMac _).clearFlag SR.CY) he _ _ _

omit [EnvImpl σ] in
theorem div_returns : Returns (c.executeOrbis32Div ci) :=
  (deref_returns _).bind fun _ _ => (deref_returns _).bind fun _ _ => by
    split
    · exact rangeException_returns (c := c.setFlag SR.OV) he _
    · split
      · exact avoids_fault nofun
      · exact assign_returns _ _

omit [EnvImpl σ] in
theorem divu_returns : Returns (c.executeOrbis32Divu ci) :=
  (deref_returns _).bind fun _ _ => (deref_returns _).bind fun _ _ => by
    split
    · exact rangeException_returns (c := c.setFlag SR.CY) he _
    · exact assign_returns _ _

/-! ## Floating point -/

omit [EnvImpl σ] in
theorem fpTest_returns (flag : U32) (cond : Bool) : Returns (c.fpTest flag cond) := by
  simp only [fpTest]
  split
  · split
    · exact exception_returns (c := { c with fpcfg := c.fpcfg ||| flag }) he _ _
    · exact avoids_ok _
  · exact avoids_ok _

omit he [EnvImpl σ] in
theorem fpTest_aligned {flag : U32} {cond : Bool} (h : c.fpTest flag cond = .ok c')
    (he : isAligned c.evba 4 = true) : isAligned c'.evba 4 = true := by
  simp only [fpTest] at h
  split at h
  · split at h
    · obtain ⟨hm, -⟩ | ⟨-, -, rfl⟩ := exception_ok h
      · cases hm
      · exact he
    · cases h; exact he
  · cases h; exact he

omit [EnvImpl σ] in
theorem resetFpFlags_returns (k : FpClass) : Returns (c.resetFpFlags k) := by
  refine Avoids.bind (fpTest_returns ?_ _ _) fun c1 h1 => ?_
  · exact he
  have he1 := fpTest_aligned h1 he
  refine (fpTest_returns he1 _ _).bind fun c2 h2 => ?_
  have he2 := fpTest_aligned h2 he1
  refine (fpTest_returns he2 _ _).bind fun c3 h3 => ?_
  have he3 := fpTest_aligned h3 he2
  refine (fpTest_returns he3 _ _).bind fun c4 h4 => ?_
  have he4 := fpTest_aligned h4 he3
  refine (fpTest_returns he4 _ _).bind fun c5 h5 => ?_
  exact fpTest_returns (fpTest_aligned h5 he4) _ _

omit he [EnvImpl σ] in
theorem derefAt_returns (op : Operand) (off : Nat) : Returns (c.derefAt ci op off) := by
  cases op with
  | null | imm => exact avoids_fault nofun
  | reg i => exact @deref_returns σ c ci (.reg (i + off))

omit he [EnvImpl σ] in
theorem derefPair_returns (op : Operand) (idx : Nat) : Returns (c.derefPair ci op idx) :=
  (derefAt_returns _ _).bind fun _ _ => (derefAt_returns _ _).bind fun _ _ => avoids_ok _

omit he [EnvImpl σ] in
theorem assignAt_returns (op : Operand) (off : Nat) (v : U32) : Returns (c.assignAt op off v) := by
  cases op with
  | null | imm => exact avoids_fault nofun
  | reg i => exact assign_returns (.reg (i + off)) v

omit he [EnvImpl σ] in
theorem assignPair_returns (op : Operand) (off : Nat) (v : U64) :
    Returns (c.assignPair op off v) :=
  (assignAt_returns _ _ _).bind fun _ _ => assignAt_returns _ _ _

variable [HostLib]

theorem fp32Arith_returns (op : FpOp) : Returns (fp32Arith op ci c) :=
  (deref_returns _).bind fun _ _ => (deref_returns _).bind fun _ _ =>
    (assign_returns _ _).bind fun _ h1 => resetFpFlags_returns
      (((effects_raiseFp _).quiet (assign_effects h1)).aligned he) _

theorem fp64Arith_returns (op : FpOp) : Returns (fp64Arith op ci c) :=
  (derefPair_returns _ _).bind fun _ _ => (derefPair_returns _ _).bind fun _ _ =>
    (assignPair_returns _ _ _).bind fun _ h1 => resetFpFlags_returns
      (((effects_raiseFp _).quiet (assignPair_effects h1)).aligned he) _

theorem orfpx32_returns (op : FpExec) : Returns (c.executeOrfpx32 op ci) := by
  cases op with
  | add | sub | mul | div | rem => exact fp32Arith_returns he _
  | madd =>
    refine (deref_returns _).bind fun a _ => (deref_returns _).bind fun b _ => ?_
    refine resetFpFlags_returns ?_ _
    exact he
  | itof | ftoi => exact (deref_returns _).bind fun _ _ => assign_returns _ _
  | sfeq | sfne | sfgt | sfge | sflt | sfle => exact compare_returns _

theorem orfpx64_returns (op : FpExec) : Returns (c.executeOrfpx64 op ci) := by
  cases op with
  | add | sub | mul | div | rem => exact fp64Arith_returns he _
  | madd =>
    refine (derefPair_returns _ _).bind fun a _ => (derefPair_returns _ _).bind fun b _ => ?_
    refine resetFpFlags_returns ?_ _
    exact he
  | itof | ftoi => exact (derefPair_returns _ _).bind fun _ _ => assignPair_returns _ _ _
  | sfeq | sfne | sfgt | sfge | sflt | sfle =>
    exact (derefPair_returns _ _).bind fun _ _ => (derefPair_returns _ _).bind fun _ _ =>
      avoids_ok _

omit he [EnvImpl σ] [HostLib] in
theorem link_returns : Returns (c.link ci) := by
  simp only [link]
  split
  · exact avoids_ok _
  · exact assign_returns _ _

/-- No register executor exhausts the host stack. -/
theorem execute_returns (e : CoreExec) : Returns (c.execute e ci) := by
  have hjump : ∀ b, Returns (do let c ← c.link ci; c.scheduleJump b branchDelay) := fun b =>
    link_returns.bind fun c1 h1 => scheduleJump_returns (by
      obtain ⟨r, -, rfl⟩ := link_eq h1
      exact he) _ _
  cases e with
  | bf =>
    simp only [execute, executeOrbis32Bf]
    split
    · exact scheduleJump_returns he _ _
    · exact avoids_ok _
  | bnf =>
    simp only [execute, executeOrbis32Bnf]
    split
    · exact scheduleJump_returns he _ _
    · exact avoids_ok _
  | jumpRel | jumpAbs => exact (deref_returns _).bind fun _ _ => hjump _
  | movhi => exact assign_returns _ _
  | extw | exthz | exths | extbz | extbs | ff1 | fl1 => exact unary_returns _
  | add => exact add_returns he
  | addc => exact addc_returns he
  | sub => exact sub_returns he
  | and | or | xor | cmov | sll | srl | sra | ror => exact binary_returns _
  | mul => exact mul_returns he
  | mulu => exact mulu_returns he
  | muld => exact macSigned_returns he (fun _ p => p) AE.OVMULE
  | muldu => exact macUnsigned_returns he (fun _ p => p) AE.CYMULE
  | mac => exact macSigned_returns he (· + ·) AE.OVMACADDE
  | macu => exact macUnsigned_returns he (· + ·) AE.CYMACADDE
  | msb => exact macSigned_returns he (· - ·) AE.OVMACADDE
  | msbu => exact macUnsigned_returns he (· - ·) AE.CYMACADDE
  | div => exact div_returns he
  | divu => exact divu_returns he
  | sfeq | sfne | sfgtu | sfgeu | sfltu | sfleu | sfgts | sfges | sflts | sfles =>
    exact compare_returns _
  | macrc => exact (assign_returns _ _).bind fun _ _ => avoids_ok _
  | sys => exact exception_returns he .syscall 0#32
  | trap => exact exception_returns he .trap 0#32
  | csync | msync | psync => exact avoids_ok _
  | orfpx32 op => exact orfpx32_returns he op
  | orfpx64 op => exact orfpx64_returns he op

/-! ## Loads, stores and fetch -/

omit [HostLib]

theorem transact_returns (req : Request) : Returns (c.transact req) := by
  have hsend : ∀ (b : Core σ) (r : Request), isAligned b.evba 4 = true → Returns (b.send r) := by
    intro b r hb
    simp only [send]
    split
    · refine abort_returns ?_ _ _
      exact hb
    · split
      · exact avoids_throw _
      · exact avoids_ok _
    · exact avoids_ok _
  obtain ⟨c1, req1, hq, hs | ⟨t, -, ha⟩⟩ := transact_cases c req
  · rw [hs]; exact hsend _ _ (hq.aligned he)
  · rw [ha]; exact abort_returns (hq.aligned he) _ _

theorem executeMem_returns (e : MemExec) : Returns (c.executeMem e ci) := by
  obtain ⟨read, excl, size, post, buf, h⟩ := executeMem_eq c ci e
  rw [h]
  refine (deref_returns _).lift.bind fun a _ => (deref_returns _).lift.bind fun v _ => ?_
  split
  · split
    · exact (transact_returns he _).lift
    · exact avoids_fault nofun
  · exact avoids_fault nofun

theorem fetchAddress_returns : Returns c.fetchAddress := by
  simp only [fetchAddress]
  split
  · split
    · exact avoids_ok _
    · have ht := (fetched_translateFetch (c := c))
      split <;> rename_i h <;> rw [h] at ht <;> obtain ⟨_, _, _, _, _, _, -, rfl⟩ := ht
      · refine refuse_returns ?_ _
        exact he
      · refine refuse_returns ?_ _
        exact he
      · exact avoids_ok _
  · exact avoids_ok _

theorem fetchWord_returns : Returns c.fetchWord := by
  simp only [fetchWord]
  split
  · exact avoids_ok _
  · have ht := fetched_readInsn (c := c)
    split <;> rename_i h <;> rw [h] at ht <;> obtain ⟨_, _, _, _, _, _, -, rfl⟩ := ht
    · refine refuse_returns ?_ _
      exact he
    · exact avoids_throw _
    · exact avoids_ok _

end Aligned

end Core

namespace Or1k

open Or1kiss.Core (Returns)

variable {s : Or1k σ} {ci : Instruction} (he : isAligned s.evba 4 = true)

include he

theorem compile_returns : Returns s.compile := by
  simp only [compile]
  split
  · exact (Core.exception_returns he _ _).lift.bind fun _ _ => avoids_ok _
  · split
    · exact avoids_throw _
    · exact avoids_ok _

variable [EnvImpl σ]

theorem fetch_returns : Returns s.fetch := by
  refine (Core.fetchAddress_returns he).lift.bind fun r h => ?_
  obtain ⟨_, c1, hc1, rfl⟩ := liftCore_eq_ok.1 h
  obtain ⟨hf, hc⟩ | ⟨hf, -⟩ := Core.fetchAddress_ok hc1 <;> dsimp only at hf <;> subst hf
  · have he1 : isAligned c1.evba 4 = true := hc.evba ▸ he
    dsimp only
    rw [if_neg (by simp)]
    split
    · exact avoids_ok _
    · refine Avoids.bind (Avoids.lift (Core.fetchWord_returns he1)) fun r h => ?_
      obtain ⟨_, c2, hc2, rfl⟩ := liftCore_eq_ok.1 h
      obtain ⟨hf, hd⟩ | ⟨hf, -⟩ := Core.fetchWord_ok hc2 <;> dsimp only at hf <;> subst hf
      · dsimp only
        rw [if_neg (by simp)]
        exact compile_returns (s := s.withCore c2) (hd.evba ▸ he1)
      · dsimp only
        rw [if_pos (by simp)]
        exact avoids_ok _
  · dsimp only
    rw [if_pos (by simp)]
    exact avoids_ok _

variable [HostLib]

theorem execute_returns : Returns (s.execute ci) := by
  simp only [execute]
  split
  · exact avoids_fault Fault.noConfusion
  · exact (Core.execute_returns he _).lift
  · exact (Core.executeMem_returns he _).lift.bind fun _ _ => avoids_ok _
  · exact ((Core.deref_returns _).bind fun _ _ => Core.assign_returns _ _).lift
  · exact (Core.deref_returns _).lift.bind fun _ _ => (Core.deref_returns _).lift.bind fun _ _ => by
      rw [setSpr_eq]; exact avoids_ok _
  · simp only [executeOrbis32Nop]
    split <;> first | exact avoids_ok _ | (split <;> first | exact avoids_ok _ | exact avoids_fault Fault.noConfusion)
  · exact (Core.scheduleJump_returns he _ _).lift.bind fun _ _ => by
      rw [setSpr_eq]; exact avoids_ok _

/-- With word-aligned vectors no iteration exhausts the host stack. -/
theorem fetchExecute_returns : Returns s.fetchExecute := by
  refine (fetch_returns he).bind fun r h => ?_
  obtain ⟨⟨ci, hci⟩, c, _, _, hc, hr⟩ | ⟨hn, -⟩ := fetch_ok h
  · obtain ⟨_, f⟩ := r
    dsimp only at hci hr
    subst hci
    have hf : f.evba = s.evba := by rw [hr]; exact hc.evba
    exact execute_returns (hf ▸ he)
  · obtain ⟨_, f⟩ := r
    dsimp only at hn
    subst hn
    exact avoids_ok _

end Or1k

end Or1kiss
