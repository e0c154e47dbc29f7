import Or1kiss.Effect

/-!
# What the executors do not look at

The executors of the register instructions look at the endianness of the host only, of all there is
in the port and in the request of the last fetch: cores that have another port and another request
there (`Aside`) go to such cores (`execute_aside`).
-/

namespace Or1kiss

open Host Bits Outcome

variable {σ : Type}

namespace Core

/-- Another port, and another request of the last fetch. -/
def aside (p : Env σ × Request) (c : Core σ) : Core σ := { c with env := p.1, ireq := p.2 }

/-- The port and the request of a core are put aside for others. -/
structure Aside (o n : Env σ × Request) (c d : Core σ) : Prop where
  env : c.env = o.1
  ireq : c.ireq = o.2
  eq : d = c.aside n

/-- Two executors do the same beside it; they throw nothing. -/
abbrev Beside (o n : Env σ × Request) (x y : Outcome Empty (Core σ)) : Prop :=
  Both (fun _ _ => True) (Aside o n) x y

variable {o n : Env σ × Request} {c d : Core σ} {ci : Instruction}

/-- Operands are read first, and they are the same. -/
theorem aside_reads {α : Type} (x : Outcome Empty α) {f g : α → Outcome Empty (Core σ)}
    (h : ∀ a, Beside o n (f a) (g a)) : Beside o n (x >>= f) (x >>= g) :=
  Both.bind_same (fun _ => trivial) x h

theorem assign_aside (h : Aside o n c d) (op : Operand) (v : U32) :
    Beside o n (c.assign op v) (d.assign op v) := by
  obtain ⟨he, hq, rfl⟩ := h
  unfold assign
  split
  · split
    · exact .ok ⟨he, hq, rfl⟩
    · exact .fault _
  · exact .fault _

theorem entered_aside (t : ExType) (addr : U32) :
    (c.aside n).entered t addr = (c.entered t addr).aside n := by
  have hx : (c.aside n).enter t addr = (c.enter t addr).aside n := by cases t <;> rfl
  unfold entered
  rw [hx]
  dsimp only
  split <;> rfl

theorem entered_port (t : ExType) (addr : U32) :
    (c.entered t addr).env = c.env ∧ (c.entered t addr).ireq = c.ireq := by
  unfold entered
  dsimp only
  split <;> exact ⟨rfl, rfl⟩

theorem exception_aside (h : Aside o n c d) (t : ExType) (addr : U32) :
    Beside o n (c.exception t addr) (d.exception t addr) := by
  obtain ⟨he, hq, rfl⟩ := h
  have hm : (c.aside n).masked t = c.masked t := by cases t <;> rfl
  rw [exception_eq, exception_eq, hm, show (c.aside n).evba = c.evba from rfl, entered_aside]
  obtain ⟨h1, h2⟩ := entered_port (c := c) t addr
  split
  · exact .ok ⟨he, hq, rfl⟩
  · split
    · exact .ok ⟨h1.trans he, h2.trans hq, rfl⟩
    · exact .fault _

theorem scheduleJump_aside (h : Aside o n c d) (target : U32) (delay : Nat) :
    Beside o n (c.scheduleJump target delay) (d.scheduleJump target delay) := by
  obtain ⟨he, hq, rfl⟩ := h
  rw [scheduleJump_eq, scheduleJump_eq]
  split
  · exact .ok ⟨he, hq, rfl⟩
  · refine exception_aside ?_ _ _
    exact ⟨he, hq, rfl⟩

theorem rangeException_aside (h : Aside o n c d) (ae : U32) :
    Beside o n (c.rangeException ae) (d.rangeException ae) := by
  obtain ⟨he, hq, rfl⟩ := h
  unfold rangeException
  by_cases hr : (test c.status SR.OVE && test c.aecr ae) = true
  · rw [if_pos hr, if_pos (show (test (c.aside n).status SR.OVE && test (c.aside n).aecr ae) = true from hr)]
    refine exception_aside ?_ _ _
    exact ⟨he, hq, rfl⟩
  · rw [if_neg hr, if_neg (show ¬(test (c.aside n).status SR.OVE && test (c.aside n).aecr ae) = true from hr)]
    exact .ok ⟨he, hq, rfl⟩

theorem overflow_aside (h : Aside o n c d) (ovf : Bool) (flag ae : U32) :
    Beside o n (c.overflow ovf flag ae) (d.overflow ovf flag ae) := by
  obtain ⟨he, hq, rfl⟩ := h
  unfold overflow
  split
  · refine rangeException_aside ?_ ae
    exact ⟨he, hq, rfl⟩
  · exact .ok ⟨he, hq, rfl⟩

/-! ## Shapes -/

theorem unary_aside (h : Aside o n c d) (f : U32 → U32) : Beside o n (unary f ci c) (unary f ci d) := by
  obtain ⟨he, hq, rfl⟩ := h
  exact aside_reads (c.deref ci ci.src1) fun _ => assign_aside (n := n) ⟨he, hq, rfl⟩ _ _

theorem binary_aside (h : Aside o n c d) (f : U32 → U32 → U32) :
    Beside o n (binary f ci c) (binary f ci d) := by
  obtain ⟨he, hq, rfl⟩ := h
  exact aside_reads (c.deref ci ci.src1) fun _ => aside_reads (c.deref ci ci.src2) fun _ =>
    assign_aside (n := n) ⟨he, hq, rfl⟩ _ _

theorem putFlag_aside (h : Aside o n c d) (f : U32) (b : Bool) : Aside o n (c.putFlag f b) (d.putFlag f b) := by
  obtain ⟨he, hq, rfl⟩ := h
  cases b <;> exact ⟨he, hq, rfl⟩

theorem compare_aside (h : Aside o n c d) (p : U32 → U32 → Bool) :
    Beside o n (compare p ci c) (compare p ci d) := by
  obtain ⟨he, hq, rfl⟩ := h
  exact aside_reads (c.deref ci ci.src1) fun _ => aside_reads (c.deref ci ci.src2) fun _ =>
    .ok (putFlag_aside (n := n) ⟨he, hq, rfl⟩ _ _)

theorem add_aside (h : Aside o n c d) : Beside o n (c.executeOrbis32Add ci) (d.executeOrbis32Add ci) := by
  obtain ⟨he, hq, rfl⟩ := h
  refine aside_reads (c.deref ci ci.src1) fun a => aside_reads (c.deref ci ci.src2) fun b =>
    (assign_aside (n := n) ⟨he, hq, rfl⟩ _ _).bind fun x y hxy => overflow_aside (o := o) (n := n) ?_ _ _ _
  obtain ⟨he, hq, rfl⟩ := hxy
  by_cases hc : a + b < a
  · rw [if_pos hc, if_pos hc]
    exact ⟨he, hq, rfl⟩
  · rw [if_neg hc, if_neg hc]
    exact ⟨he, hq, rfl⟩

theorem carryOverflow_aside (h : Aside o n c d) (carry ovf : Bool) :
    Beside o n (c.carryOverflow carry ovf) (d.carryOverflow carry ovf) := by
  obtain ⟨he, hq, rfl⟩ := h
  refine Both.bind (overflow_aside (o := o) (n := n) ?_ _ _ _) fun x y hxy => overflow_aside hxy _ _ _
  exact ⟨he, hq, rfl⟩

theorem addc_aside (h : Aside o n c d) : Beside o n (c.executeOrbis32Addc ci) (d.executeOrbis32Addc ci) := by
  obtain ⟨he, hq, rfl⟩ := h
  exact aside_reads (c.deref ci ci.src1) fun a => aside_reads (c.deref ci ci.src2) fun b =>
    (assign_aside (n := n) ⟨he, hq, rfl⟩ _ _).bind fun x y hxy => carryOverflow_aside hxy _ _

theorem sub_aside (h : Aside o n c d) : Beside o n (c.executeOrbis32Sub ci) (d.executeOrbis32Sub ci) := by
  obtain ⟨he, hq, rfl⟩ := h
  exact aside_reads (c.deref ci ci.src1) fun a => aside_reads (c.deref ci ci.src2) fun b =>
    (assign_aside (n := n) ⟨he, hq, rfl⟩ _ _).bind fun x y hxy => carryOverflow_aside hxy _ _

theorem clearFlag_aside (h : Aside o n c d) (f : U32) : Aside o n (c.clearFlag f) (d.clearFlag f) := by
  obtain ⟨he, hq, rfl⟩ := h
  exact ⟨he, hq, rfl⟩

theorem mul_aside (h : Aside o n c d) : Beside o n (c.executeOrbis32Mul ci) (d.executeOrbis32Mul ci) := by
  obtain ⟨he, hq, rfl⟩ := h
  exact aside_reads (c.deref ci ci.src1) fun a => aside_reads (c.deref ci ci.src2) fun b =>
    (assign_aside (n := n) ⟨he, hq, rfl⟩ _ _).bind fun x y hxy => overflow_aside (clearFlag_aside hxy _) _ _ _

theorem mulu_aside (h : Aside o n c d) : Beside o n (c.executeOrbis32Mulu ci) (d.executeOrbis32Mulu ci) := by
  obtain ⟨he, hq, rfl⟩ := h
  exact aside_reads (c.deref ci ci.src1) fun a => aside_reads (c.deref ci ci.src2) fun b =>
    (assign_aside (n := n) ⟨he, hq, rfl⟩ _ _).bind fun x y hxy => overflow_aside (clearFlag_aside hxy _) _ _ _

theorem macSigned_aside (h : Aside o n c d) (f : U64 → U64 → U64) (ae : U32) :
    Beside o n (macSigned f ae ci c) (macSigned f ae ci d) := by
  obtain ⟨he, hq, rfl⟩ := h
  refine aside_reads (c.deref ci ci.src1) fun a => aside_reads (c.deref ci ci.src2) fun b =>
    overflow_aside (o := o) (n := n) ?_ _ _ _
  exact ⟨he, hq, rfl⟩

theorem macUnsigned_aside (h : Aside o n c d) (f : U64 → U64 → U64) (ae : U32) :
    Beside o n (macUnsigned f ae ci c) (macUnsigned f ae ci d) := by
  obtain ⟨he, hq, rfl⟩ := h
  refine aside_reads (c.deref ci ci.src1) fun a => aside_reads (c.deref ci ci.src2) fun b =>
    overflow_aside (o := o) (n := n) ?_ _ _ _
  exact ⟨he, hq, rfl⟩

theorem div_aside (h : Aside o n c d) : Beside o n (c.executeOrbis32Div ci) (d.executeOrbis32Div ci) := by
  obtain ⟨he, hq, rfl⟩ := h
  refine aside_reads (c.deref ci ci.src1) fun a => aside_reads (c.deref ci ci.src2) fun b => ?_
  split
  · refine rangeException_aside (o := o) (n := n) ?_ _
    exact ⟨he, hq, rfl⟩
  · split
    · exact .fault _
    · exact assign_aside (clearFlag_aside (n := n) ⟨he, hq, rfl⟩ _) _ _

theorem divu_aside (h : Aside o n c d) : Beside o n (c.executeOrbis32Divu ci) (d.executeOrbis32Divu ci) := by
  obtain ⟨he, hq, rfl⟩ := h
  refine aside_reads (c.deref ci ci.src1) fun a => aside_reads (c.deref ci ci.src2) fun b => ?_
  split
  · refine rangeException_aside (o := o) (n := n) ?_ _
    exact ⟨he, hq, rfl⟩
  · exact assign_aside (clearFlag_aside (n := n) ⟨he, hq, rfl⟩ _) _ _

theorem macrc_aside (h : Aside o n c d) : Beside o n (c.executeOrbis32Macrc ci) (d.executeOrbis32Macrc ci) := by
  obtain ⟨he, hq, rfl⟩ := h
  refine Both.bind (assign_aside (n := n) ⟨he, hq, rfl⟩ _ _) fun x y hxy => ?_
  obtain ⟨he, hq, rfl⟩ := hxy
  exact .ok ⟨he, hq, rfl⟩

/-! ## Jumps -/

theorem link_aside (h : Aside o n c d) : Beside o n (c.link ci) (d.link ci) := by
  obtain ⟨he, hq, rfl⟩ := h
  unfold link
  split
  · exact .ok ⟨he, hq, rfl⟩
  · exact assign_aside (n := n) ⟨he, hq, rfl⟩ _ _

theorem branch_aside (h : Aside o n c d) (b : Bool) (target : U32) (delay : Nat) :
    Beside o n (if b then c.scheduleJump target delay else .ok c)
      (if b then d.scheduleJump target delay else .ok d) := by
  cases b
  · exact .ok h
  · exact scheduleJump_aside h _ _

theorem bf_aside (h : Aside o n c d) : Beside o n (c.executeOrbis32Bf ci) (d.executeOrbis32Bf ci) := by
  obtain ⟨he, hq, rfl⟩ := h
  exact branch_aside ⟨he, hq, rfl⟩ (test c.status SR.F) (ci.imm + c.nextPc) branchDelay

theorem bnf_aside (h : Aside o n c d) :
    Beside o n (c.executeOrbis32Bnf ci) (d.executeOrbis32Bnf ci) := by
  obtain ⟨he, hq, rfl⟩ := h
  exact branch_aside ⟨he, hq, rfl⟩ (!test c.status SR.F) (ci.imm + c.nextPc) branchDelay

theorem jumpRel_aside (h : Aside o n c d) :
    Beside o n (c.executeOrbis32JumpRel ci) (d.executeOrbis32JumpRel ci) := by
  obtain ⟨he, hq, rfl⟩ := h
  exact aside_reads (c.deref ci ci.src2) fun b =>
    (link_aside (n := n) ⟨he, hq, rfl⟩).bind fun x y hxy => scheduleJump_aside hxy _ _

theorem jumpAbs_aside (h : Aside o n c d) :
    Beside o n (c.executeOrbis32JumpAbs ci) (d.executeOrbis32JumpAbs ci) := by
  obtain ⟨he, hq, rfl⟩ := h
  exact aside_reads (c.deref ci ci.src2) fun b =>
    (link_aside (n := n) ⟨he, hq, rfl⟩).bind fun x y hxy => scheduleJump_aside hxy _ _

/-! ## Floating point -/

theorem fpTest_aside (h : Aside o n c d) (flag : U32) (cond : Bool) :
    Beside o n (c.fpTest flag cond) (d.fpTest flag cond) := by
  obtain ⟨he, hq, rfl⟩ := h
  unfold fpTest
  dsimp only [aside]
  split
  · split
    · refine exception_aside ?_ _ _
      exact ⟨he, hq, rfl⟩
    · exact .ok ⟨he, hq, rfl⟩
  · exact .ok ⟨he, hq, rfl⟩

theorem Aside.fpEnv (h : Aside o n c d) : d.fpEnv = c.fpEnv := by
  obtain ⟨he, hq, rfl⟩ := h
  rfl

theorem resetFpFlags_aside (h : Aside o n c d) (k : FpClass) :
    Beside o n (c.resetFpFlags k) (d.resetFpFlags k) := by
  obtain ⟨he, hq, rfl⟩ := h
  refine Both.bind (fpTest_aside (o := o) (n := n) ?_ _ _) fun x y hxy => ?_
  · exact ⟨he, hq, rfl⟩
  refine Both.bind (fpTest_aside hxy _ _) fun x y hxy => ?_
  refine Both.bind (fpTest_aside hxy _ _) fun x y hxy => ?_
  rw [hxy.fpEnv]
  refine Both.bind (fpTest_aside hxy _ _) fun x y hxy => ?_
  rw [hxy.fpEnv]
  refine Both.bind (fpTest_aside hxy _ _) fun x y hxy => ?_
  rw [hxy.fpEnv]
  exact fpTest_aside hxy _ _

theorem assignAt_aside (h : Aside o n c d) (op : Operand) (off : Nat) (v : U32) :
    Beside o n (c.assignAt op off v) (d.assignAt op off v) := by
  unfold assignAt
  split
  · exact assign_aside h _ _
  · exact .fault _

theorem raiseFp_aside (h : Aside o n c d) (f : FpEnv) : Aside o n (c.raiseFp f) (d.raiseFp f) := by
  obtain ⟨he, hq, rfl⟩ := h
  exact ⟨he, hq, rfl⟩

variable (hh : n.1.hostEndian = o.1.hostEndian)

include hh

theorem Aside.hostEndian (h : Aside o n c d) : d.env.hostEndian = c.env.hostEndian := by
  obtain ⟨he, -, rfl⟩ := h
  rw [he]
  exact hh

/-- A register pair is put together in the order of the host. -/
theorem Aside.derefPair (h : Aside o n c d) (op : Operand) (i : Nat) :
    d.derefPair ci op i = c.derefPair ci op i := by
  have hd : ∀ off, d.derefAt ci op off = c.derefAt ci op off := fun off => by
    rw [h.eq]
    cases op <;> rfl
  unfold Core.derefPair
  rw [hd, hd, h.hostEndian hh]

theorem assignPair_aside (h : Aside o n c d) (op : Operand) (off : Nat) (v : U64) :
    Beside o n (c.assignPair op off v) (d.assignPair op off v) := by
  unfold assignPair
  rw [h.hostEndian hh]
  exact (assignAt_aside h _ _ _).bind fun x y hxy => assignAt_aside hxy _ _ _

theorem fp64Compare_aside (h : Aside o n c d) (p : U64 → U64 → Bool) :
    Beside o n (fp64Compare p ci c) (fp64Compare p ci d) := by
  unfold fp64Compare
  rw [h.derefPair hh, h.derefPair hh]
  exact aside_reads _ fun a => aside_reads _ fun b => .ok (putFlag_aside h _ _)

omit hh

variable [HostLib]

theorem fp32Arith_aside (h : Aside o n c d) (op : FpOp) :
    Beside o n (fp32Arith op ci c) (fp32Arith op ci d) := by
  obtain ⟨he, hq, rfl⟩ := h
  exact aside_reads (c.deref ci ci.src1) fun a => aside_reads (c.deref ci ci.src2) fun b =>
    (assign_aside (raiseFp_aside (n := n) ⟨he, hq, rfl⟩ _) _ _).bind fun x y hxy => resetFpFlags_aside hxy _

include hh in
theorem fp64Arith_aside (h : Aside o n c d) (op : FpOp) :
    Beside o n (fp64Arith op ci c) (fp64Arith op ci d) := by
  unfold fp64Arith
  rw [h.derefPair hh, h.derefPair hh, show d.roundingMode = c.roundingMode by rw [h.eq]; rfl]
  exact aside_reads _ fun a => aside_reads _ fun b =>
    (assignPair_aside hh (raiseFp_aside h _) _ _ _).bind fun x y hxy => resetFpFlags_aside hxy _

theorem orfpx32_aside (h : Aside o n c d) (op : FpExec) :
    Beside o n (c.executeOrfpx32 op ci) (d.executeOrfpx32 op ci) := by
  cases op with
  | add | sub | mul | div | rem => exact fp32Arith_aside h _
  | madd =>
    obtain ⟨he, hq, rfl⟩ := h
    refine aside_reads (c.deref ci ci.src1) fun a => aside_reads (c.deref ci ci.src2) fun b => ?_
    refine resetFpFlags_aside (o := o) (n := n) ?_ _
    exact ⟨he, hq, rfl⟩
  | itof | ftoi =>
    obtain ⟨he, hq, rfl⟩ := h
    exact aside_reads (c.deref ci ci.src1) fun a => assign_aside (raiseFp_aside (n := n) ⟨he, hq, rfl⟩ _) _ _
  | sfeq | sfne | sfgt | sfge | sflt | sfle => exact compare_aside h _

include hh in
theorem orfpx64_aside (h : Aside o n c d) (op : FpExec) :
    Beside o n (c.executeOrfpx64 op ci) (d.executeOrfpx64 op ci) := by
  cases op with
  | add | sub | mul | div | rem => exact fp64Arith_aside hh h _
  | madd =>
    unfold executeOrfpx64 executeOrfpx64Madd
    dsimp only
    rw [h.derefPair hh, h.derefPair hh, show d.roundingMode = c.roundingMode by rw [h.eq]; rfl,
      h.hostEndian hh]
    refine aside_reads _ fun a => aside_reads _ fun b => ?_
    obtain ⟨he, hq, rfl⟩ := h
    refine resetFpFlags_aside ?_ _
    exact ⟨he, hq, rfl⟩
  | itof =>
    unfold executeOrfpx64 executeOrfpx64Itof
    dsimp only
    rw [h.derefPair hh]
    exact aside_reads _ fun a => assignPair_aside hh (raiseFp_aside h _) _ _ _
  | ftoi =>
    unfold executeOrfpx64 executeOrfpx64Ftoi
    dsimp only
    rw [h.derefPair hh]
    exact aside_reads _ fun a => assignPair_aside hh (raiseFp_aside h _) _ _ _
  | sfeq | sfne | sfgt | sfge | sflt | sfle => exact fp64Compare_aside hh h _

include hh in
/-- No register executor looks at what is put aside, and it leaves it there. -/
theorem execute_aside (h : Aside o n c d) (e : CoreExec) :
    Beside o n (c.execute e ci) (d.execute e ci) := by
  cases e with
  | movhi => exact assign_aside h _ _
  | bf => exact bf_aside h
  | bnf => exact bnf_aside h
  | jumpRel => exact jumpRel_aside h
  | jumpAbs => exact jumpAbs_aside h
  | extw | exthz | exths | extbz | extbs | ff1 | fl1 => exact unary_aside h _
  | add => exact add_aside h
  | addc => exact addc_aside h
  | sub => exact sub_aside h
  | cmov =>
    obtain ⟨he, hq, rfl⟩ := h
    exact binary_aside ⟨he, hq, rfl⟩ fun a b => if test c.status SR.F then a else b
  | and | or | xor | sll | srl | sra | ror => exact binary_aside h _
  | mul => exact mul_aside h
  | mulu => exact mulu_aside h
  | muld => exact macSigned_aside h (fun _ p => p) AE.OVMULE
  | muldu => exact macUnsigned_aside h (fun _ p => p) AE.CYMULE
  | mac => exact macSigned_aside h (· + ·) AE.OVMACADDE
  | macu => exact macUnsigned_aside h (· + ·) AE.CYMACADDE
  | msb => exact macSigned_aside h (· - ·) AE.OVMACADDE
  | msbu => exact macUnsigned_aside h (· - ·) AE.CYMACADDE
  | div => exact div_aside h
  | divu => exact divu_aside h
  | sfeq | sfne | sfgtu | sfgeu | sfltu | sfleu | sfgts | sfges | sflts | sfles =>
    exact compare_aside h _
  | macrc => exact macrc_aside h
  | sys => exact exception_aside h .syscall 0#32
  | trap => exact exception_aside h .trap 0#32
  | csync | msync | psync => exact .ok h
  | orfpx32 op => exact orfpx32_aside h op
  | orfpx64 op => exact orfpx64_aside hh h op

end Core

end Or1kiss
