import Or1kiss.Accumulate

/-!
# What the accumulator holds

An instruction adds a product to the accumulator or takes it away, sets the accumulator, or sets
a half of it (`MacUpdate`); `Core.macUpdate` says which, from the instruction word and the
registers. A `Ledger` keeps the value that was set last and the products since. Along every run
the accumulator is the value of the ledger of the run's steps.
-/

namespace Or1kiss

open Host Bits Outcome Runs

variable {σ : Type}

/-! ## Products since a value -/

inductive MacUpdate where
  | product (p : Int)
  | value (v : U64)
  | high (v : U32)
  | low (v : U32)

/-- The value set last, and the products since. -/
structure Ledger where
  base : U64
  products : List Int

namespace Ledger

def value (g : Ledger) : U64 := g.base + BitVec.ofInt 64 g.products.sum

def after (g : Ledger) : MacUpdate → Ledger
  | .product p => { g with products := g.products ++ [p] }
  | .value v => { base := v, products := [] }
  | .high v => { base := v ++ g.value.extractLsb' 0 32, products := [] }
  | .low v => { base := g.value.extractLsb' 32 32 ++ v, products := [] }

end Ledger

/-- The accumulator after an update. -/
def MacUpdate.apply (v : U64) : MacUpdate → U64
  | .product p => v + BitVec.ofInt 64 p
  | .value w => w
  | .high w => w ++ v.extractLsb' 0 32
  | .low w => v.extractLsb' 32 32 ++ w

/-- The accumulator after an update or none. -/
def MacUpdate.applied (u : Option MacUpdate) (v : U64) : U64 := u.elim v (apply v)

theorem Ledger.value_after (g : Ledger) (u : MacUpdate) : (g.after u).value = u.apply g.value := by
  have hset : ∀ v : U64, v + BitVec.ofInt 64 ([] : List Int).sum = v := fun v => BitVec.add_zero v
  cases u with
  | product p =>
    show g.base + BitVec.ofInt 64 (g.products ++ [p]).sum = g.value + BitVec.ofInt 64 p
    rw [List.sum_append, List.sum_singleton, BitVec.ofInt_add, ← BitVec.add_assoc]
    rfl
  | value v => exact hset v
  | high v => exact hset _
  | low v => exact hset _

/-! ## What an instruction does -/

/-- The signed or unsigned product, and its sign. -/
def Mac.product : Mac → U32 → U32 → Int
  | .mac, a, b => a.toInt * b.toInt
  | .msb, a, b => -(a.toInt * b.toInt)
  | .macu, a, b => a.toNat * b.toNat
  | .msbu, a, b => -(a.toNat * b.toNat)

theorem Mac.ofInt_exact (k : Mac) (acc : U64) (a b : U32) :
    BitVec.ofInt 64 (k.exact acc a b) = acc + BitVec.ofInt 64 (k.product a b) := by
  have hu : BitVec.ofInt 64 (acc.toNat : Int) = acc := by
    rw [BitVec.ofInt_natCast, BitVec.ofNat_toNat, BitVec.setWidth_eq]
  cases k with
  | mac => exact (add_ofInt _ _).symm
  | msb => exact (add_ofInt _ _).symm
  | macu => exact (BitVec.ofInt_add _ _).trans (by rw [hu]; rfl)
  | msbu => exact (BitVec.ofInt_add _ _).trans (by rw [hu]; rfl)

/-- A write to MACHI or MACLO. -/
def macWrite (reg val : U32) : Option MacUpdate :=
  match SpReg.ofNum reg with
  | some .machi => some (.high val)
  | some .maclo => some (.low val)
  | _ => none

/-- What an instruction word does to the accumulator. User mode may not write MACHI and MACLO. -/
def Core.macUpdate (c : Core σ) (w : U32) : Option MacUpdate :=
  match (decode w).accumulation with
  | some (k, b) => some (.product (k.product (c.gpr (rA w)) (b.value c w)))
  | none =>
    match decode w with
    | .orbis32Muld =>
      some (.value (BitVec.ofInt 64 ((c.gpr (rA w)).toInt * (c.gpr (rB w)).toInt)))
    | .orbis32Muldu =>
      some (.value (BitVec.ofNat 64 ((c.gpr (rA w)).toNat * (c.gpr (rB w)).toNat)))
    | .orbis32Macrc => some (.value 0#64)
    | .orbis32Mtspr =>
      if c.isSupervisor then macWrite (c.gpr (rA w) ||| fieldSplit w) (c.gpr (rB w)) else none
    | _ => none

/-! ## Executors that leave it alone -/

/-- Executors that write the accumulator. -/
def CoreExec.writesMac : CoreExec → Bool
  | .mac | .macu | .msb | .msbu | .macrc | .muld | .muldu => true
  | _ => false

namespace Core

variable {c d : Core σ} {ci : Instruction} {v : DoubleRegister}

/-- The accumulator is `v` in the end. -/
abbrev HoldsMac (v : DoubleRegister) (x : Outcome Empty (Core σ)) : Prop :=
  Ends (fun _ => True) (fun d => d.mac = v) x

theorem entered_mac (t : ExType) (addr : U32) : (c.entered t addr).mac = c.mac := by
  unfold entered
  dsimp only
  split <;> rfl

theorem assign_mac (h : c.mac = v) (op : Operand) (w : U32) : HoldsMac v (c.assign op w) := by
  unfold assign
  split
  · split
    · exact .ok h
    · exact .fault _
  · exact .fault _

theorem exception_mac (h : c.mac = v) (t : ExType) (addr : U32) : HoldsMac v (c.exception t addr) := by
  rw [exception_eq]
  split
  · exact .ok h
  · split
    · exact .ok ((entered_mac t addr).trans h)
    · exact .fault _

theorem scheduleJump_mac (h : c.mac = v) (target : U32) (delay : Nat) :
    HoldsMac v (c.scheduleJump target delay) := by
  rw [scheduleJump_eq]
  split
  · exact .ok h
  · refine exception_mac ?_ _ _
    exact h

theorem rangeException_mac (h : c.mac = v) (ae : U32) : HoldsMac v (c.rangeException ae) := by
  unfold rangeException
  split
  · exact exception_mac (c := { c with aesr := c.aesr ||| ae }) h _ _
  · exact .ok h

theorem overflow_mac (h : c.mac = v) (ovf : Bool) (flag ae : U32) :
    HoldsMac v (c.overflow ovf flag ae) := by
  unfold overflow
  split
  · exact rangeException_mac (c := c.setFlag flag) h ae
  · exact .ok h

theorem putFlag_mac (flag : U32) (b : Bool) : (c.putFlag flag b).mac = c.mac := by
  cases b <;> rfl

theorem fpTest_mac (h : c.mac = v) (flag : U32) (cond : Bool) : HoldsMac v (c.fpTest flag cond) := by
  unfold fpTest
  split
  · dsimp only
    split
    · exact exception_mac (c := { c with fpcfg := c.fpcfg ||| flag }) h _ _
    · exact .ok h
  · exact .ok h

theorem resetFpFlags_mac (h : c.mac = v) (k : FpClass) : HoldsMac v (c.resetFpFlags k) := by
  unfold resetFpFlags
  exact (fpTest_mac (by exact h) _ _).bind fun _ h => (fpTest_mac h _ _).bind fun _ h =>
    (fpTest_mac h _ _).bind fun _ h => (fpTest_mac h _ _).bind fun _ h =>
      (fpTest_mac h _ _).bind fun _ h => fpTest_mac h _ _

/-- Operands are read first. -/
theorem reads_mac {α : Type} {x : Outcome Empty α} {f : α → Outcome Empty (Core σ)}
    (h : ∀ a, HoldsMac v (f a)) : HoldsMac v (x >>= f) :=
  (ends_trivial x).bind fun a _ => h a

theorem unary_mac (h : c.mac = v) (f : U32 → U32) : HoldsMac v (unary f ci c) :=
  reads_mac fun _ => assign_mac h _ _

theorem binary_mac (h : c.mac = v) (f : U32 → U32 → U32) : HoldsMac v (binary f ci c) :=
  reads_mac fun _ => reads_mac fun _ => assign_mac h _ _

theorem compare_mac (h : c.mac = v) (p : U32 → U32 → Bool) : HoldsMac v (compare p ci c) :=
  reads_mac fun _ => reads_mac fun _ => .ok ((putFlag_mac _ _).trans h)

theorem carryOverflow_mac (h : c.mac = v) (carry ovf : Bool) :
    HoldsMac v (c.carryOverflow carry ovf) := by
  unfold carryOverflow
  exact (overflow_mac (by exact h) _ _ _).bind fun _ h => overflow_mac h _ _ _

theorem add_mac (h : c.mac = v) : HoldsMac v (c.executeOrbis32Add ci) := by
  refine reads_mac fun a => reads_mac fun b => (assign_mac h _ _).bind fun x hx => ?_
  dsimp only
  refine overflow_mac ?_ _ _ _
  split <;> exact hx

theorem div_mac (h : c.mac = v) : HoldsMac v (c.executeOrbis32Div ci) := by
  refine reads_mac fun a => reads_mac fun b => ?_
  split
  · exact rangeException_mac (c := c.setFlag SR.OV) h _
  · split
    · exact .fault _
    · exact assign_mac (c := c.clearFlag SR.OV) h _ _

theorem divu_mac (h : c.mac = v) : HoldsMac v (c.executeOrbis32Divu ci) := by
  refine reads_mac fun a => reads_mac fun b => ?_
  split
  · exact rangeException_mac (c := c.setFlag SR.CY) h _
  · exact assign_mac (c := c.clearFlag SR.CY) h _ _

theorem jump_mac (h : c.mac = v) (target : U32) :
    HoldsMac v (do let c ← c.link ci; c.scheduleJump target branchDelay) := by
  refine Ends.bind (Q := fun d => d.mac = v) ?_ fun d hd => scheduleJump_mac hd _ _
  unfold link
  split
  · exact .ok h
  · exact assign_mac h _ _

theorem assignAt_mac (h : c.mac = v) (op : Operand) (off : Nat) (w : U32) :
    HoldsMac v (c.assignAt op off w) := by
  unfold assignAt
  split
  · exact assign_mac h _ _
  · exact .fault _

theorem assignPair_mac (h : c.mac = v) (op : Operand) (off : Nat) (w : U64) :
    HoldsMac v (c.assignPair op off w) :=
  (assignAt_mac h _ _ _).bind fun _ h => assignAt_mac h _ _ _

theorem fp64Compare_mac (h : c.mac = v) (p : U64 → U64 → Bool) : HoldsMac v (fp64Compare p ci c) :=
  reads_mac fun _ => reads_mac fun _ => .ok ((putFlag_mac _ _).trans h)

section Host

variable [HostLib]

theorem fp32Arith_mac (h : c.mac = v) (op : FpOp) : HoldsMac v (fp32Arith op ci c) := by
  refine reads_mac fun a => reads_mac fun b => Ends.bind (Q := fun d => d.mac = v) ?_
    fun d hd => resetFpFlags_mac hd _
  refine assign_mac ?_ _ _
  exact h

theorem fp64Arith_mac (h : c.mac = v) (op : FpOp) : HoldsMac v (fp64Arith op ci c) := by
  refine reads_mac fun a => reads_mac fun b => Ends.bind (Q := fun d => d.mac = v) ?_
    fun d hd => resetFpFlags_mac hd _
  refine assignPair_mac ?_ _ _ _
  exact h

theorem orfpx32_mac (h : c.mac = v) (op : FpExec) : HoldsMac v (c.executeOrfpx32 op ci) := by
  cases op with
  | add | sub | mul | div | rem =>
    exact fp32Arith_mac h _
  | madd =>
    refine reads_mac fun a => reads_mac fun b => resetFpFlags_mac ?_ _
    exact h
  | itof | ftoi =>
    refine reads_mac fun a => assign_mac ?_ _ _
    exact h
  | sfeq | sfne | sfgt | sfge | sflt | sfle => exact compare_mac h _

theorem orfpx64_mac (h : c.mac = v) (op : FpExec) : HoldsMac v (c.executeOrfpx64 op ci) := by
  cases op with
  | add | sub | mul | div | rem =>
    exact fp64Arith_mac h _
  | madd =>
    refine reads_mac fun a => reads_mac fun b => resetFpFlags_mac ?_ _
    exact h
  | itof | ftoi =>
    refine reads_mac fun a => assignPair_mac ?_ _ _ _
    exact h
  | sfeq | sfne | sfgt | sfge | sflt | sfle => exact fp64Compare_mac h _

theorem execute_mac {e : CoreExec} (he : e.writesMac = false) (h : c.mac = v) :
    HoldsMac v (c.execute e ci) := by
  cases e with
  | bf =>
    show HoldsMac v (c.executeOrbis32Bf ci)
    unfold executeOrbis32Bf
    split
    · exact scheduleJump_mac h _ _
    · exact .ok h
  | bnf =>
    show HoldsMac v (c.executeOrbis32Bnf ci)
    unfold executeOrbis32Bnf
    split
    · exact scheduleJump_mac h _ _
    · exact .ok h
  | jumpRel | jumpAbs => exact reads_mac fun _ => jump_mac h _
  | movhi => exact assign_mac h _ _
  | extw | exthz | exths | extbz | extbs | ff1 | fl1 => exact unary_mac h _
  | add => exact add_mac h
  | addc | sub =>
    exact reads_mac fun a => reads_mac fun b => (assign_mac h _ _).bind fun _ h =>
      carryOverflow_mac h _ _
  | mul | mulu =>
    refine reads_mac fun a => reads_mac fun b => (assign_mac h _ _).bind fun x hx => ?_
    exact overflow_mac (c := x.clearFlag _) hx _ _ _
  | and | or | xor | cmov | sll | srl | sra | ror => exact binary_mac h _
  | div => exact div_mac h
  | divu => exact divu_mac h
  | sfeq | sfne | sfgtu | sfgeu | sfltu | sfleu | sfgts | sfges | sflts | sfles =>
    exact compare_mac h _
  | sys => exact exception_mac h .syscall 0#32
  | trap => exact exception_mac h .trap 0#32
  | csync | msync | psync => exact .ok h
  | orfpx32 op => exact orfpx32_mac h op
  | orfpx64 op => exact orfpx64_mac h op
  | mac | macu | msb | msbu | macrc | muld | muldu => cases he

end Host

/-! ## Loads, stores and fetches -/

section Memory

/-- The accumulator is `v` however the access ends. -/
abbrev AccessHoldsMac (v : DoubleRegister) (x : Outcome (Core σ × Request) (Access σ)) : Prop :=
  Ends (fun t => t.1.mac = v) (fun r => r.core.mac = v) x

theorem complete_mac (req : Request) : (c.complete req).core.mac = c.mac := by
  unfold complete
  split <;> rfl

theorem Fetched.leaves (h : Fetched c d) : d.mac = c.mac ∧ d.gpr = c.gpr ∧ d.status = c.status :=
  ⟨congrArg (·.mac) h.eq, congrArg (·.gpr) h.eq, congrArg (·.status) h.eq⟩

variable [EnvImpl σ]

theorem send_mac (h : c.mac = v) (req : Request) : AccessHoldsMac v (c.send req) := by
  unfold send
  dsimp only
  split
  · exact (exception_mac (by exact h) _ _).lift (fun e => e.elim) fun _ h => h
  · split
    · exact .throw h
    · exact .ok ((complete_mac _).trans h)
  · refine .ok ((complete_mac _).trans ?_)
    split <;> exact h

theorem translateData_mac (req : Request) : (c.translateData req).2.2.mac = c.mac := by
  unfold translateData
  split <;> rfl

theorem transact_mac (h : c.mac = v) (req : Request) : AccessHoldsMac v (c.transact req) := by
  have hw : ∀ r, (c.checkWatchpoints r).mac = v := fun r => by
    unfold checkWatchpoints
    split <;> exact h
  have habort : ∀ (b : Core σ) t r, b.mac = v → AccessHoldsMac v (b.abort t r) := fun b t r hb =>
    (exception_mac hb t _).lift (fun e => e.elim) fun _ h => h
  unfold transact
  dsimp only
  split
  · exact habort _ _ _ (hw _)
  · unfold translateSend
    have ht := (translateData_mac (c := c.checkWatchpoints (c.dataRequest req))
      (c.dataRequest req)).trans (hw _)
    split <;> rename_i he <;> rw [he] at ht
    · exact habort _ _ _ ht
    · exact habort _ _ _ ht
    · exact send_mac ht _

theorem executeMem_mac (h : c.mac = v) (e : MemExec) :
    Ends (fun d => d.mac = v) (fun r => r.2.mac = v) (c.executeMem e ci) := by
  obtain ⟨read, excl, size, post, buf, he⟩ := executeMem_eq c ci e
  rw [he]
  refine Ends.bind (Q := fun _ => True) ((ends_trivial _).lift (fun e => e.elim) fun _ h => h)
    fun a _ => Ends.bind (Q := fun _ => True) ((ends_trivial _).lift (fun e => e.elim) fun _ h => h)
      fun w _ => ?_
  split
  · split
    · refine (transact_mac h _).lift (fun _ h => h) fun r hr => ?_
      dsimp only
      split <;> exact hr
    · exact .fault _
  · exact .fault _

end Memory

end Core

/-! ## Executing an instruction word -/

/-- The opcodes that change the accumulator. -/
def Opcode.writesMac : Opcode → Bool
  | .orbis32Mac | .orbis32Maci | .orbis32Msb | .orbis32Macu | .orbis32Msbu | .orbis32Muld
  | .orbis32Muldu | .orbis32Macrc | .orbis32Mtspr => true
  | _ => false

/-- Executors that never change the accumulator. -/
def Exec.leavesMac : Exec → Bool
  | .core e => !e.writesMac
  | .mtspr => false
  | _ => true

theorem handler_leavesMac {op : Opcode} {handler : U32 → Instruction → Instruction}
    (h : decodeTable op = some handler) (ho : op.writesMac = false) (addr w : U32) :
    ∃ e, (handler w (.blank addr w)).exec = some e ∧ e.leavesMac = true := by
  cases op <;> cases h <;> first | exact ⟨_, rfl, rfl⟩ | cases ho

theorem Core.macUpdate_eq_none {c : Core σ} {w : U32} (h : (decode w).writesMac = false) :
    c.macUpdate w = none := by
  unfold Core.macUpdate
  generalize decode w = op at h
  cases op <;> first | rfl | cases h

namespace Or1k

variable {s : Or1k σ} {ci : Instruction}

theorem macValue_writeMac (hi lo v : U32) :
    v ++ lo = v ++ (hi ++ lo).extractLsb' 0 32 ∧ hi ++ v = (hi ++ lo).extractLsb' 32 32 ++ v := by
  rw [BitVec.extractLsb'_append_eq_right, BitVec.extractLsb'_append_eq_left]
  exact ⟨rfl, rfl⟩

variable [EnvImpl σ]

theorem regWritten_macValue (reg val : U32) :
    (s.regWritten reg val).macValue = MacUpdate.applied (macWrite reg val) s.macValue := by
  unfold regWritten macWrite
  cases SpReg.ofNum reg with
  | none =>
    cases SprFile.ofNum reg.toNat with
    | none => rfl
    | some f => cases f <;> rfl
  | some r =>
    cases r with
    | pmr => exact congrArg (fun r : Regs => r.mac.hi ++ r.mac.lo) dozed_steady.toRegs
    | machi => exact (macValue_writeMac s.mac.hi s.mac.lo val).1
    | maclo => exact (macValue_writeMac s.mac.hi s.mac.lo val).2
    | picsr =>
      dsimp only [Core.writeReg]
      split <;> rfl
    | _ => rfl

/-- Who may not write it leaves it alone. -/
theorem sprWritten_macValue (reg val : U32) (debug : Bool) :
    (s.sprWritten reg val debug).macValue =
      MacUpdate.applied (if debug || s.isSupervisor then macWrite reg val else none) s.macValue := by
  unfold sprWritten
  split <;> rename_i hd
  · rw [writeDenied, Bool.and_eq_true, Bool.not_eq_true', Bool.not_eq_true'] at hd
    obtain ⟨rfl, hd⟩ := hd
    split <;> rename_i hs
    · -- the supervisor may write both halves
      have hs : s.isSupervisor = true := by simpa using hs
      have hn : macWrite reg val = none := by
        unfold macWrite
        rw [sprCheckAccess, sprGetAccess, hs] at hd
        cases hr : SpReg.ofNum reg with
        | none => rfl
        | some r =>
          rw [hr] at hd
          cases r <;> first | rfl | cases hd
      rw [hn]
      rfl
    · rfl
  · rw [regWritten_macValue]
    split <;> rename_i hs
    · rfl
    · -- the user may write neither
      rw [Bool.or_eq_true, not_or, Bool.not_eq_true, Bool.not_eq_true] at hs
      have hn : macWrite reg val = none := by
        unfold macWrite
        rw [writeDenied, hs.1, hs.2, sprCheckAccess, sprGetAccess] at hd
        cases hr : SpReg.ofNum reg with
        | none => rfl
        | some r =>
          rw [hr] at hd
          cases r <;> first | rfl | exact (hd rfl).elim
      rw [hn]
      rfl

variable [HostLib]

/-- What a computation does to the accumulator, also where it throws. -/
abbrev Updates (u : Option MacUpdate) (s : Or1k σ) (x : Outcome (Or1k σ) (Or1k σ)) : Prop :=
  Ends (fun d => d.macValue = MacUpdate.applied u s.macValue)
    (fun d => d.macValue = MacUpdate.applied u s.macValue) x

omit [EnvImpl σ] [HostLib] in
theorem updates_of_mac {x : Outcome (Or1k σ) (Or1k σ)}
    (h : Ends (fun d => d.mac = s.mac) (fun d => d.mac = s.mac) x) : Updates none s x := by
  have hv : ∀ d : Or1k σ, d.mac = s.mac → d.macValue = s.macValue := fun d hd =>
    congrArg (fun r : DoubleRegister => r.hi ++ r.lo) hd
  exact h.mono hv hv

omit [EnvImpl σ] [HostLib] in
theorem updates_onCore {u : Option MacUpdate} {x : Outcome Empty (Core σ)}
    (h : Ends (fun _ => True) (fun d => d.macValue = MacUpdate.applied u s.macValue) x) :
    Updates u s (s.onCore x) := h.lift (fun e => e.elim) fun _ h => h

/-- An executor that leaves the accumulator alone. -/
theorem execute_leaves {e : Exec} (he : ci.exec = some e) (hl : e.leavesMac = true) :
    Updates none s (s.execute ci) := by
  apply updates_of_mac
  have hcore : ∀ x : Outcome Empty (Core σ), Core.HoldsMac s.mac x →
      Ends (fun d => d.mac = s.mac) (fun d => d.mac = s.mac) (s.onCore x) :=
    fun x h => h.lift (fun e => e.elim) fun _ h => h
  unfold execute
  rw [he]
  cases e with
  | core e =>
    rw [Exec.leavesMac, Bool.not_eq_true'] at hl
    exact hcore _ (Core.execute_mac hl rfl)
  | mem e =>
    have hm : Ends (fun d : Or1k σ => d.mac = s.mac) (fun r : Nat × Or1k σ => r.2.mac = s.mac)
        (s.liftCore (s.toCore.executeMem e ci)) :=
      (Core.executeMem_mac rfl e).lift (fun _ h => h) fun _ h => h
    exact hm.bind fun _ h => .ok h
  | mfspr => exact hcore _ (Core.reads_mac fun a => Core.assign_mac rfl _ _)
  | mtspr => cases hl
  | nop =>
    refine ends_of (fun x h => ?_) fun x h => ?_
    · obtain ⟨rfl, -⟩ | ⟨rfl, -⟩ | ⟨c, rfl, ⟨_, _, _, _, rfl⟩, -⟩ := nop_ok h <;> rfl
    · have ht : s.execute ci = .throw x := by
        unfold execute
        rw [he]
        exact h
      obtain ⟨e, -, h', -⟩ := execute_throw ht
      cases he.symm.trans h'
  | rfe =>
    refine ends_of (fun x h => ?_) fun x h => ?_
    · obtain ⟨c, hc, rfl⟩ := rfe_ok h
      have hm : c.mac = s.mac := (Core.scheduleJump_mac rfl _ _).of_ok hc
      unfold rfeRestored
      split <;> exact hm
    · have ht : s.execute ci = .throw x := by
        unfold execute
        rw [he]
        exact h
      obtain ⟨e, -, h', -⟩ := execute_throw ht
      cases he.symm.trans h'

omit [EnvImpl σ] [HostLib] in
theorem updates_setMac {c : Core σ} (v : U64) (flag : U32) (o : Bool) (f ae : U32) :
    Ends (fun _ => True) (fun d => d.macValue = v)
      (((c.setMac v).clearFlag flag).overflow o f ae) :=
  (Core.overflow_mac rfl _ _ _).mono (fun _ _ => trivial) fun _ h =>
    (congrArg (fun r : DoubleRegister => r.hi ++ r.lo) h).trans (Core.macValue_setMac c v)

/-- Executing the instruction of a word does to the accumulator what the word says. -/
theorem execute_updates (hf : ci.Full) : Updates (s.macUpdate ci.insn) s (s.execute ci) := by
  by_cases ho : (decode ci.insn).writesMac = false
  · obtain ⟨handler, hh, he⟩ := hf.decoded
    obtain ⟨e, hx, hl⟩ := handler_leavesMac hh ho ci.addr ci.insn
    rw [Core.macUpdate_eq_none ho]
    exact execute_leaves ((congrArg Instruction.exec he).trans hx) hl
  unfold Core.macUpdate
  cases hk : (decode ci.insn).accumulation with
  | some kb =>
    obtain ⟨k, b⟩ := kb
    have hb := Mac.binds hf hk
    unfold execute
    rw [hb.exec]
    refine updates_onCore ?_
    rw [Mac.execute_eq hf hk rfl rfl, Mac.ofInt_exact]
    exact updates_setMac _ _ _ _ _
  | none =>
    generalize hd : decode ci.insn = op at ho hk
    cases op <;> try first | exact (ho rfl).elim | cases hk
    · -- `l.mtspr`
      have hh : decodeTable (decode ci.insn) = some decodeOrbis32Mtspr := by
        rw [hd]
        rfl
      have he := hf.eq hh
      have hb : s.toCore.deref ci ci.src1 = .ok (s.gpr (rB ci.insn)) := by
        rw [congrArg Instruction.src1 he]
        exact dif_pos (rB ci.insn).isLt
      have ha : s.toCore.deref ci ci.dest = .ok (s.gpr (rA ci.insn)) := by
        rw [congrArg Instruction.dest he]
        exact dif_pos (rA ci.insn).isLt
      have hx : s.execute ci =
          .ok (s.sprWritten (s.gpr (rA ci.insn) ||| fieldSplit ci.insn) (s.gpr (rB ci.insn)) false) := by
        unfold execute
        rw [congrArg Instruction.exec he]
        show s.executeOrbis32Mtspr ci = _
        unfold executeOrbis32Mtspr deref
        rw [hb, ha, ← setSpr_eq, congrArg Instruction.imm he]
        rfl
      rw [hx]
      refine .ok ((sprWritten_macValue _ _ _).trans ?_)
      rw [Bool.false_or]
    · -- `l.muld`
      have hb := hf.regPair (e := .muld) (by rw [hd]; rfl)
      unfold execute
      rw [hb.exec]
      refine updates_onCore ?_
      show Ends _ _ (s.toCore.macSigned (fun _ p => p) AE.OVMULE ci)
      rw [Core.macSigned_eq hb]
      exact updates_setMac _ _ _ _ _
    · -- `l.muldu`
      have hb := hf.regPair (e := .muldu) (by rw [hd]; rfl)
      unfold execute
      rw [hb.exec]
      refine updates_onCore ?_
      show Ends _ _ (s.toCore.macUnsigned (fun _ p => p) AE.CYMULE ci)
      rw [Core.macUnsigned_eq hb]
      exact updates_setMac _ _ _ _ _
    · -- `l.macrc`
      have hh : decodeTable (decode ci.insn) = some decodeOrbis32Macrc := by
        rw [hd]
        rfl
      have he := hf.eq hh
      unfold execute
      rw [congrArg Instruction.exec he]
      have hz : (0#32 ++ 0#32 : U64) = 0#64 := by decide
      exact updates_onCore ((ends_trivial _).bind fun c _ => .ok hz)

/-! ## Fetched instructions -/

omit [HostLib] in
/-- What holds of the slots and of decoded instructions holds of what a fetch leaves and finds. -/
theorem Cached.forall {P : Instruction → Prop} {r : Option Instruction} {dc : DecodeCache}
    (h : Cached s r dc) (hs : ∀ i, P (s.decodeCache.slots i)) (hb : ∀ addr w, P (.blank addr w))
    (hf : ∀ ci : Instruction, ci.Full → P ci) :
    (∀ i, P (dc.slots i)) ∧ ∀ ci, r = some ci → P ci := by
  cases h with
  | hit ci h =>
    obtain ⟨c, -, -, rfl⟩ := h
    refine ⟨hs, fun ci h => ?_⟩
    cases h
    exact hs _
  | decoded addr w handler h hl hh =>
    have hfull := hf _ (Instruction.full_handler hh addr)
    refine ⟨DecodeCache.forall_store hs addr hfull, fun ci h => ?_⟩
    cases h
    exact hfull
  | unsupported addr w h hl hh =>
    exact ⟨DecodeCache.forall_store hs addr (hb addr w), fun ci h => by cases h⟩
  | unused h => exact ⟨hs, fun ci h => by cases h⟩

end Or1k

/-- An instruction without an executor faults; any other one is fully decoded. -/
def Instruction.Sound (ci : Instruction) : Prop := ci.exec = none ∨ ci.Full

def DecodeCache.AllSound (c : DecodeCache) : Prop := ∀ i, (c.slots i).Sound

namespace Or1k

variable {s x : Or1k σ} {ci : Instruction}

theorem macUpdate_congr {c d : Core σ} (hg : d.gpr = c.gpr) (hs : d.status = c.status) (w : U32) :
    d.macUpdate w = c.macUpdate w := by
  have hv : ∀ b : Second, b.value d w = b.value c w := fun b => by
    cases b with
    | rB => exact congrFun hg _
    | imm f => rfl
  have hm : d.isSupervisor = c.isSupervisor := by
    unfold Core.isSupervisor
    rw [hs]
  unfold Core.macUpdate
  simp only [hg, hv, hm]

theorem FetchedInsn.leaves (h : FetchedInsn s x) :
    x.macValue = s.macValue ∧ x.gpr = s.gpr ∧ x.status = s.status := by
  obtain ⟨c, _, _, hc, rfl⟩ := h
  obtain ⟨hm, hg, hs⟩ := hc.leaves
  exact ⟨congrArg (fun r : DoubleRegister => r.hi ++ r.lo) hm, hg, hs⟩

variable [EnvImpl σ]

theorem Cached.allSound {r : Option Instruction} {dc : DecodeCache} (h : Cached s r dc)
    (hs : s.decodeCache.AllSound) : dc.AllSound ∧ ∀ ci, r = some ci → ci.Sound :=
  h.forall hs (fun _ _ => .inl rfl) fun _ hf => .inr hf

theorem Invalidated.allSound {c c' : DecodeCache} (h : Invalidated c c') (hs : c.AllSound) :
    c'.AllSound := by
  have hp : ∀ ci : Instruction, ci.Sound → Instruction.Sound { ci with addr := 0xffffffff#32 } :=
    fun ci h => h.imp_right fun hf => hf.retag 0xffffffff#32
  rcases h with h | ⟨addr, h⟩
  · rw [h]
    exact hs
  · rw [h]
    exact DecodeCache.forall_invalidateBlock hp hs addr 32

/-- What fetching and executing does to the accumulator. -/
def macUpdate (s : Or1k σ) : Option MacUpdate :=
  match s.fetch with
  | .ok (some ci, _) => s.toCore.macUpdate ci.insn
  | _ => none

variable [HostLib]

theorem fetchExecute_updates (hs : s.decodeCache.AllSound) :
    Updates s.macUpdate s s.fetchExecute := by
  unfold macUpdate fetchExecute
  cases hf : s.fetch with
  | ok r =>
    obtain ⟨insn, f⟩ := r
    obtain ⟨⟨ci, hci⟩, hfi⟩ | ⟨hn, hr⟩ := fetch_ok hf
    · dsimp only at hci hfi
      subst hci
      obtain ⟨hm, hg, hst⟩ := hfi.leaves
      rcases ((fetch_cached hf).allSound hs).2 ci rfl with he | hfull
      · show Updates _ s (f.execute ci)
        unfold execute
        rw [he]
        exact .fault _
      · have hu := execute_updates (s := f) hfull
        rw [macUpdate_congr hg hst, Updates, hm] at hu
        exact hu
    · dsimp only at hn hr
      subst hn
      obtain ⟨b, c, hb, ⟨t, addr, -, -, rfl⟩, rfl⟩ := hr
      have hm := (Core.entered_mac (c := b) t addr).trans hb.leaves.1
      exact .ok (congrArg (fun r : DoubleRegister => r.hi ++ r.lo) hm)
  | throw x => exact .throw (fetch_throw hf).leaves.1
  | fault e => exact .fault e

end Or1k

/-! ## Runs -/

/-- What a step does to the accumulator. -/
def Machine.macUpdate [EnvImpl σ] (st : Move (Machine σ) (Action σ)) : Option MacUpdate :=
  match st.act with
  | .run => if st.pre.executes then st.pre.cpu.beginCycle.macUpdate else none
  | .writeSpr reg val => macWrite reg val
  | _ => none

/-- The ledger after a step. -/
def Ledger.step [EnvImpl σ] (g : Ledger) (st : Move (Machine σ) (Action σ)) : Ledger :=
  match Machine.macUpdate st with
  | some u => g.after u
  | none => g

theorem Ledger.value_step [EnvImpl σ] (g : Ledger) (st : Move (Machine σ) (Action σ)) :
    (g.step st).value = MacUpdate.applied (Machine.macUpdate st) g.value := by
  unfold Ledger.step
  cases Machine.macUpdate st with
  | none => rfl
  | some u => exact g.value_after u

namespace Machine

variable [EnvImpl σ] [HostLib] {m m' : Machine σ} {a : Action σ}

theorem act_allSound (hn : m.act a = some m') (hs : m.cpu.decodeCache.AllSound) :
    m'.cpu.decodeCache.AllSound := by
  by_cases hx : IsIteration ⟨m, a, m'⟩
  · obtain ⟨ci, dc, hc, hi, -⟩ := iteration_cached hx hn
    exact hi.allSound (hc.allSound (s := m.cpu.beginCycle) hs).1
  · exact (act_invalidated hx hn).allSound hs

theorem act_macValue (hn : m.act a = some m') (hs : m.cpu.decodeCache.AllSound) :
    m'.cpu.macValue = MacUpdate.applied (macUpdate ⟨m, a, m'⟩) m.cpu.macValue := by
  have hregs : ∀ x y : Or1k σ, y.toRegs = x.toRegs → y.macValue = x.macValue := fun x y h =>
    congrArg (fun r : Regs => r.mac.hi ++ r.mac.lo) h
  cases act_transition hn with
  | begin r s n => exact hregs _ _ began_steady.toRegs
  | mini | finish => rfl
  | leave limit s h =>
    have he : executes ⟨.inner limit, s⟩ = false := decide_eq_false h
    unfold macUpdate
    dsimp only
    rw [he]
    rfl
  | iterate limit s x hl hx | throw limit s x hl hx =>
    have he : executes ⟨.inner limit, s⟩ = true := decide_eq_true hl
    have hu := Or1k.fetchExecute_updates (s := s.beginCycle) hs
    rw [hx] at hu
    unfold macUpdate
    dsimp only
    rw [he, if_pos rfl]
    first
    | exact hu.of_throw rfl
    | rw [retired_cpu]
      refine Eq.trans ?_ (hu.of_ok rfl)
      unfold Or1k.redirect
      split <;> rfl
  | drain s =>
    rw [drained_cpu]
    exact hregs _ _ (Or1k.timerUpdated_steady.trans Or1k.externalChecked_steady).toRegs
  | interrupt p s id set =>
    obtain ⟨v, he⟩ := s.toCore.interrupt_eq id set
    rw [he]
    rfl
  | outside r s s' a ha h =>
    cases a with
    | writeSpr reg val =>
      have h : s.setSpr reg val true = .ok s' := h
      rw [Or1k.setSpr_eq] at h
      cases h
      exact Or1k.sprWritten_macValue reg val true
    | insertBreakpoint addr =>
      cases h
      show (s.insertBreakpoint addr).macValue = _
      unfold Or1k.insertBreakpoint
      split <;> rfl
    | insertWatchpoint w wp | removeWatchpoint w wp =>
      cases h
      cases w <;> rfl
    | call | run | interrupt => cases ha
    | _ =>
      cases h
      rfl

/-- Along every run the accumulator is the value set last plus the products since, modulo
`2 ^ 64`, and a step that neither sets it nor accumulates leaves it alone. -/
theorem accumulator_eq {env : Env σ} {size : Nat} {l : List (Move (Machine σ) (Action σ))}
    (h : system.Path (Machine.init env size) l m) :
    m.cpu.macValue = (l.foldl Ledger.step { base := 0#64, products := [] }).value ∧
      ∀ st ∈ l, macUpdate st = none → st.post.cpu.macValue = st.pre.cpu.macValue := by
  have hinit : (Machine.init env size).cpu.decodeCache.AllSound := fun _ => .inl rfl
  have hzero : (Machine.init env size).cpu.macValue = Ledger.value { base := 0#64, products := [] } := by
    show (0#32 ++ 0#32 : U64) = 0#64 + BitVec.ofInt 64 0
    decide
  have hstep : ∀ (m : Machine σ) a m', system.next m a = some m' → m.cpu.decodeCache.AllSound →
      m'.cpu.decodeCache.AllSound ∧
        m'.cpu.macValue = MacUpdate.applied (macUpdate ⟨m, a, m'⟩) m.cpu.macValue :=
    fun _ _ _ hn hs => ⟨act_allSound hn hs, act_macValue hn hs⟩
  constructor
  · refine (h.record (R := fun m (g : Ledger) => m.cpu.decodeCache.AllSound ∧ m.cpu.macValue = g.value)
      (fun m a m' g hn hr => ?_) ⟨hinit, hzero⟩).2
    obtain ⟨hs, hv⟩ := hstep m a m' hn hr.1
    rw [Ledger.value_step, ← hr.2]
    exact ⟨hs, hv⟩
  · refine (h.forall_of (P := fun m => m.cpu.decodeCache.AllSound) (C := fun _ => True)
      (fun m a m' hn _ hs => ⟨(hstep m a m' hn hs).1, fun hu => ?_⟩) (fun _ _ => trivial) hinit).2
    have hv := (hstep m a m' hn hs).2
    rw [hu] at hv
    exact hv

end Machine

section Witness

attribute [local instance] HostLib.plain

/-- `r3 = -2`, then `l.maci r3, 5`, `l.muld r3, r3`, `l.macu r3, r3`, `l.msb r3, r3`. -/
def macProgram : List (Nat × U32) :=
  [(0x100, 0x9c60fffe#32), (0x104, 0x4c030005#32), (0x108, 0xe0031b07#32), (0x10c, 0xc4031803#32),
   (0x110, 0xc4031802#32)]

def macBoot : Machine Memory := .init (Memory.env 0x8000 (Memory.image macProgram)) 0

/-- The signed square comes in with `l.muld` and goes out with `l.msb`. -/
theorem accumulator_eq_square : ∃ (l : List (Move (Machine Memory) (Action Memory)))
    (m : Machine Memory), Machine.system.Path macBoot l m ∧
      m.cpu.macValue = 0xfffffffc00000004#64 ∧
      (m.cpu.macValue = (l.foldl Ledger.step { base := 0#64, products := [] }).value ∧
        ∀ st ∈ l, Machine.macUpdate st = none → st.post.cpu.macValue = st.pre.cpu.macValue) := by
  obtain ⟨m, hr, hm⟩ := Machine.system.exists_run macBoot [.call 5, .run, .run, .run, .run, .run, .run]
    (fun m => m.cpu.macValue == 0xfffffffc00000004#64) (by decide +kernel)
  obtain ⟨l, hl⟩ := hr.path
  exact ⟨l, m, hl, by simpa using hm, Machine.accumulator_eq hl⟩

end Witness

end Or1kiss
