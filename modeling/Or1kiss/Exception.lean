import Mathlib.Tactic.SplitIfs
import Or1kiss.State

/-!
# Exceptions and jumps

`exception` and `schedule_jump` of the class `or1k`. Synchronous exceptions reach their
vector through a jump scheduled for the end of the current instruction, and a misaligned
jump target raises an exception in turn, so the two functions are mutually recursive.
`exception_eq` is their meaning: one entry, or no return when EVBAR is misaligned.
-/

namespace Or1kiss

open Host Bits

variable {σ : Type}

namespace Core

/-- Tick timer and external exceptions can be switched off. -/
def masked (c : Core σ) : ExType → Bool
  | .external => !c.isExtIrqEnabled
  | .tickTimer => !c.isTickIrqEnabled
  | _ => false

/-- The current instruction is a jump whose delay slot comes next. -/
def isJumpInsn (c : Core σ) : Bool := c.instructions + 1 == c.jumpInsn

def isDelayInsn (c : Core σ) : Bool := c.instructions == c.jumpInsn

def exceptionPc (c : Core σ) : ExType → U32
  | .syscall | .fp => if c.isJumpInsn then c.jumpTarget else c.nextPc + 4#32
  | .tickTimer | .external => if c.isJumpInsn then c.prevPc else c.nextPc
  | _ => if c.isDelayInsn then c.prevPc else c.nextPc

theorem exceptionPc_congr {c c' : Core σ} (hi : c'.instructions = c.instructions)
    (hj : c'.jumpInsn = c.jumpInsn) (ht : c'.jumpTarget = c.jumpTarget)
    (hp : c'.prevPc = c.prevPc) (hn : c'.nextPc = c.nextPc) (t : ExType) :
    c'.exceptionPc t = c.exceptionPc t := by
  have h1 : c'.isJumpInsn = c.isJumpInsn := by rw [isJumpInsn, isJumpInsn, hi, hj]
  have h2 : c'.isDelayInsn = c.isDelayInsn := by rw [isDelayInsn, isDelayInsn, hi, hj]
  cases t <;> simp only [exceptionPc, h1, h2, ht, hp, hn]

/-- Supervisor mode, interrupts and address translation off. -/
def exceptionStatus (c : Core σ) : U32 :=
  let s := c.status ||| SR.SM
  let s := if c.isDelayInsn then s ||| SR.DSX else s
  s &&& ~~~SR.IEE &&& ~~~SR.TEE &&& ~~~SR.IME &&& ~~~SR.DME

/-- Bits that an exception does not touch. -/
theorem exceptionStatus_and (c : Core σ) {m : U32}
    (hm : m &&& (SR.SM ||| SR.DSX ||| SR.IEE ||| SR.TEE ||| SR.IME ||| SR.DME) = 0#32) :
    c.exceptionStatus &&& m = c.status &&& m := by
  have hz : ∀ k : U32, k &&& (SR.SM ||| SR.DSX ||| SR.IEE ||| SR.TEE ||| SR.IME ||| SR.DME) = k →
      k &&& m = 0#32 := fun k hk => by
    rw [← hk, BitVec.and_assoc, BitVec.and_comm _ m, hm, BitVec.and_zero]
  simp only [exceptionStatus]
  rw [and_not_and_of_disjoint (hz SR.DME (by decide)),
    and_not_and_of_disjoint (hz SR.IME (by decide)),
    and_not_and_of_disjoint (hz SR.TEE (by decide)),
    and_not_and_of_disjoint (hz SR.IEE (by decide))]
  split
  · rw [or_and_of_disjoint (hz SR.DSX (by decide)), or_and_of_disjoint (hz SR.SM (by decide))]
  · exact or_and_of_disjoint (hz SR.SM (by decide))

/-- The registers an exception saves and the status it enters with. -/
def enter (c : Core σ) (type : ExType) (addr : U32) : Core σ :=
  { c with
    expc := c.exceptionPc type
    jumpInsn := 0
    exea := addr
    exsr := c.status
    status := c.exceptionStatus
    pmr := c.pmr &&& ~~~PMR.DME
    taken := type :: c.taken }

/-- Address of the exception vector. -/
def exceptionTarget (c : Core σ) (type : ExType) : U32 :=
  let target := type.vector + c.evba
  if test c.status SR.EPH then target ||| 0xf0000000#32 else target

def setJump (c : Core σ) (target : U32) (insn : Nat) : Core σ :=
  { c with jumpTarget := target, jumpInsn := insn }

@[simp] theorem setJump_jumpTarget (c : Core σ) (target : U32) (insn : Nat) :
    (c.setJump target insn).jumpTarget = target := rfl

/-- `schedule_jump`, with the exception it raises on a misaligned target. -/
def scheduleJumpWith (raise : ExType → U32 → Core σ → Outcome Empty (Core σ)) (target : U32)
    (delay : Nat) (c : Core σ) : Outcome Empty (Core σ) :=
  let c := c.setJump target (c.instructions + delay)
  if isAligned c.jumpTarget 4 then .ok c else raise .insnAlignment c.jumpTarget c

/-- `exception` on a host stack with room for that many calls. -/
def exceptionAt : Nat → ExType → U32 → Core σ → Outcome Empty (Core σ)
  | 0, _, _, _ => .fault .stackOverflow
  | depth + 1, type, addr, c =>
    if c.masked type then .ok c
    else
      let c := c.enter type addr
      let target := c.exceptionTarget type
      -- the program counter has already been updated when tick and external are raised
      if type.isAsync then .ok { c with nextPc := target }
      else c.scheduleJumpWith (exceptionAt depth) target 0

/-- Room for calls on the host stack; every nesting from two on gives the same result. -/
def hostStack : Nat := 64

def exception (type : ExType) (addr : U32) (c : Core σ) : Outcome Empty (Core σ) :=
  exceptionAt hostStack type addr c

def scheduleJump (target : U32) (delay : Nat) (c : Core σ) : Outcome Empty (Core σ) :=
  c.scheduleJumpWith exception target delay

/-! ## The meaning of `exception` -/

/-- The state after an exception took effect. -/
def entered (c : Core σ) (type : ExType) (addr : U32) : Core σ :=
  let e := c.enter type addr
  if type.isAsync then { e with nextPc := e.exceptionTarget type }
  else e.setJump (e.exceptionTarget type) e.instructions

theorem isAligned_four (a : U32) : isAligned a 4 = (a &&& 3#32 == 0#32) := rfl

theorem vector_and_three (t : ExType) : t.vector &&& 3#32 = 0#32 := by
  cases t <;> decide

/-- The low two bits of a vector address are those of EVBAR. -/
theorem exceptionTarget_and_three (c : Core σ) (t : ExType) :
    c.exceptionTarget t &&& 3#32 = c.evba &&& 3#32 := by
  have hv := vector_and_three t
  have hadd : (t.vector + c.evba) &&& 3#32 = c.evba &&& 3#32 := by
    generalize t.vector = v at hv ⊢
    apply BitVec.eq_of_toNat_eq
    have hv' := congrArg BitVec.toNat hv
    simp only [BitVec.toNat_and, BitVec.toNat_add, BitVec.toNat_ofNat] at hv' ⊢
    rw [show (3 % 2 ^ 32) = 2 ^ 2 - 1 by decide, Nat.and_two_pow_sub_one_eq_mod,
      Nat.and_two_pow_sub_one_eq_mod] at *
    omega
  simp only [exceptionTarget]
  split
  · rw [or_and_of_disjoint (by decide), hadd]
  · exact hadd

theorem isAligned_exceptionTarget (c : Core σ) (t : ExType) :
    isAligned (c.exceptionTarget t) 4 = isAligned c.evba 4 := by
  simp only [isAligned_four, exceptionTarget_and_three]

theorem masked_of_sync (c : Core σ) {t : ExType} (ht : t.isAsync = false) : c.masked t = false := by
  cases t <;> first | rfl | cases ht

/-- A synchronous exception under a misaligned EVBAR raises itself until the stack is full. -/
theorem exceptionAt_misaligned {c : Core σ} {t : ExType} (ht : t.isAsync = false)
    (he : isAligned c.evba 4 = false) (n : Nat) (addr : U32) :
    exceptionAt n t addr c = .fault .stackOverflow := by
  induction n generalizing c t addr with
  | zero => rfl
  | succ n ih =>
    have he' : isAligned (c.enter t addr).evba 4 = false := he
    simp only [exceptionAt, masked_of_sync c ht, ht, scheduleJumpWith, setJump_jumpTarget,
      isAligned_exceptionTarget, he', Bool.false_eq_true, if_false]
    exact ih (c := (c.enter t addr).setJump _ _) (t := .insnAlignment) rfl he _

/-- Otherwise a single call is enough. -/
theorem exceptionAt_succ {c : Core σ} {t : ExType}
    (h : t.isAsync = true ∨ isAligned c.evba 4 = true) (n : Nat) (addr : U32) :
    exceptionAt (n + 1) t addr c = if c.masked t then .ok c else .ok (c.entered t addr) := by
  simp only [exceptionAt, entered]
  by_cases ha : t.isAsync = true
  · simp only [ha, if_true]
  · have he : isAligned (c.enter t addr).evba 4 = true := h.resolve_left ha
    simp only [ha, scheduleJumpWith, setJump_jumpTarget, isAligned_exceptionTarget, he, if_true,
      Bool.false_eq_true, if_false, Nat.add_zero]

/-- One entry with the vector scheduled or in place, or no return. -/
theorem exception_eq (c : Core σ) (t : ExType) (addr : U32) :
    c.exception t addr =
      if c.masked t then .ok c
      else if t.isAsync || isAligned c.evba 4 then .ok (c.entered t addr)
      else .fault .stackOverflow := by
  by_cases h : t.isAsync = true ∨ isAligned c.evba 4 = true
  · rw [exception, hostStack, exceptionAt_succ h, if_pos (c := (_ || _) = true) (by simpa using h)]
  · simp only [not_or, Bool.not_eq_true] at h
    rw [exception, exceptionAt_misaligned h.1 h.2]
    simp only [masked_of_sync c h.1, h.1, h.2, Bool.or_self, Bool.false_eq_true, if_false]

/-- What a successful call of `exception` did. -/
theorem exception_ok {c c' : Core σ} {t : ExType} {addr : U32} (h : c.exception t addr = .ok c') :
    (c.masked t = true ∧ c' = c) ∨
      (c.masked t = false ∧ (t.isAsync = true ∨ isAligned c.evba 4 = true) ∧
        c' = c.entered t addr) := by
  rw [exception_eq] at h
  split_ifs at h with hm ha
  · exact .inl ⟨hm, (Outcome.ok.inj h).symm⟩
  · exact .inr ⟨by simpa using hm, by simpa using ha, (Outcome.ok.inj h).symm⟩

/-- A jump is scheduled, or its misaligned target raises an exception. -/
theorem scheduleJump_eq (c : Core σ) (target : U32) (delay : Nat) :
    c.scheduleJump target delay =
      if isAligned target 4 then .ok (c.setJump target (c.instructions + delay))
      else (c.setJump target (c.instructions + delay)).exception .insnAlignment target := rfl

end Core

end Or1kiss
