import Or1kiss.Lib.CInt
import Or1kiss.Accumulate
import Or1kiss.Shift

/-!
# The integer operations of the executors

The executors of the register instructions once more, written with the operators of `CInt`: every
signed operation, division and shift that they perform is on record. They compute what the
executors compute (`checked_out`). All operations are defined but for two: the quotient of
`l.div`, and the sum or difference of `l.mac`, `l.maci` and `l.msb`.
-/

namespace Or1kiss

open Host Bits Outcome CInt

variable {σ : Type}

namespace Core

/-! ## bitops.h -/

/-- `s32 t = (v << (31 - i)); return t >> (31 - i);` -/
def signExtendC {S : Type} (v : U32) (i : Nat) : Checked S U32 := do
  let n ← CInt.sub 31#32 (BitVec.ofNat 32 i)
  let t ← ushl v n.toNat
  let n ← CInt.sub 31#32 (BitVec.ofNat 32 i)
  sshr t n.toNat

/-- The loop of `fls32`, from bit `n - 1` down. -/
def flsFrom (v : U32) : Nat → Checked Empty U32
  | 0 => return 0#32
  | i + 1 => do
    let s ← ushr v i
    if s &&& 1#32 ≠ 0#32 then CInt.add (BitVec.ofNat 32 i) 1#32
    else
      let _ ← CInt.sub (BitVec.ofNat 32 i) 1#32
      flsFrom v i

/-! ## Shapes -/

/-- `*d = f(*a)` -/
def unaryC (f : U32 → Checked Empty U32) (ci : Instruction) (c : Core σ) :
    Checked Empty (Core σ) := do
  let a ← .lift (c.deref ci ci.src1)
  let v ← f a
  .lift (c.assign ci.dest v)

/-- `*d = f(*a, *b)` -/
def binaryC (f : U32 → U32 → Checked Empty U32) (ci : Instruction) (c : Core σ) :
    Checked Empty (Core σ) := do
  let a ← .lift (c.deref ci ci.src1)
  let b ← .lift (c.deref ci ci.src2)
  let v ← f a b
  .lift (c.assign ci.dest v)

/-! ## Executors -/

def checkedSra (a b : U32) : Checked Empty U32 := do
  let s ← ushr a (shiftOf b)
  signExtendC s (31 - shiftOf b)

def checkedRor (a b : U32) : Checked Empty U32 := do
  let r ← ushr a (shiftOf b)
  let l ← ushl a (31 - shiftOf b)
  return r ||| l

def checkedMul (ci : Instruction) (c : Core σ) : Checked Empty (Core σ) := do
  let src1 ← .lift (c.deref ci ci.src1)
  let src2 ← .lift (c.deref ci ci.src2)
  let result ← CInt.mul (src1.signExtend 64) (src2.signExtend 64)
  let c ← .lift (c.assign ci.dest (result.setWidth 32))
  .lift ((c.clearFlag SR.OV).overflow (exceedsS32 result.toInt) SR.OV AE.OVMULE)

def checkedDiv (ci : Instruction) (c : Core σ) : Checked Empty (Core σ) := do
  let src1 ← .lift (c.deref ci ci.src1)
  let src2 ← .lift (c.deref ci ci.src2)
  if src2 = 0#32 then .lift ((c.setFlag SR.OV).rangeException AE.DBZE)
  else
    let q ← CInt.div src1 src2
    .lift ((c.clearFlag SR.OV).assign ci.dest q)

def checkedDivu (ci : Instruction) (c : Core σ) : Checked Empty (Core σ) := do
  let src1 ← .lift (c.deref ci ci.src1)
  let src2 ← .lift (c.deref ci ci.src2)
  if src2 = 0#32 then .lift ((c.setFlag SR.CY).rangeException AE.DBZE)
  else
    let q ← CInt.udiv src1 src2
    .lift ((c.clearFlag SR.CY).assign ci.dest q)

/-- The halves of a signed result go to the accumulator. -/
def storeSigned (result : U64) (ae : U32) (c : Core σ) : Checked Empty (Core σ) := do
  let hi ← sshr result 32
  let lo ← sshr result 0
  .lift (({ c with mac := { hi := hi.setWidth 32, lo := lo.setWidth 32 } }.clearFlag SR.OV).overflow
    (exceedsS32 result.toInt) SR.OV ae)

/-- Two halves and the flag of an unsigned result. -/
def storeUnsigned (hi lo result : U64) (ae : U32) (c : Core σ) : Outcome Empty (Core σ) :=
  ({ c with mac := { hi := hi.setWidth 32, lo := lo.setWidth 32 } }.clearFlag SR.CY).overflow
    (decide (0xffffffff < result.toNat)) SR.CY ae

def checkedMuld (ci : Instruction) (c : Core σ) : Checked Empty (Core σ) := do
  let src1 ← .lift (c.deref ci ci.src1)
  let src2 ← .lift (c.deref ci ci.src2)
  let result ← CInt.mul (src1.signExtend 64) (src2.signExtend 64)
  c.storeSigned result AE.OVMULE

def checkedMuldu (ci : Instruction) (c : Core σ) : Checked Empty (Core σ) := do
  let src1 ← .lift (c.deref ci ci.src1)
  let src2 ← .lift (c.deref ci ci.src2)
  let result := src1.setWidth 64 * src2.setWidth 64
  let hi ← ushr result 32
  let lo ← ushr result 0
  .lift (c.storeUnsigned hi lo result AE.CYMULE)

/-- `static_cast<s64>(m_mac.hi) << 32 | static_cast<s64>(m_mac.lo)` -/
def signedMac (c : Core σ) : Checked Empty U64 := do
  let hi ← shl (c.mac.hi.setWidth 64) 32
  return hi ||| c.mac.lo.setWidth 64

/-- `static_cast<u64>(m_mac.hi) << 32 | static_cast<u64>(m_mac.lo)` -/
def unsignedMac (c : Core σ) : Checked Empty U64 := do
  let hi ← ushl (c.mac.hi.setWidth 64) 32
  return hi ||| c.mac.lo.setWidth 64

/-- `l.mac`, `l.maci` and `l.msb`: the product is added to the accumulator or taken away. -/
def checkedMacSigned (op : U64 → U64 → Checked Empty U64) (ci : Instruction) (c : Core σ) :
    Checked Empty (Core σ) := do
  let src1 ← .lift (c.deref ci ci.src1)
  let src2 ← .lift (c.deref ci ci.src2)
  let acc ← c.signedMac
  let product ← CInt.mul (src1.signExtend 64) (src2.signExtend 64)
  let result ← op acc product
  c.storeSigned result AE.OVMACADDE

def checkedMacUnsigned (op : U64 → U64 → U64) (ci : Instruction) (c : Core σ) :
    Checked Empty (Core σ) := do
  let src1 ← .lift (c.deref ci ci.src1)
  let src2 ← .lift (c.deref ci ci.src2)
  let acc ← c.unsignedMac
  let result := op acc (src1.setWidth 64 * src2.setWidth 64)
  let hi ← ushr result 32
  .lift (c.storeUnsigned hi result result AE.CYMACADDE)

/-- The executor with its operations; those not listed perform none of them. -/
def checked [HostLib] (e : CoreExec) (ci : Instruction) (c : Core σ) : Checked Empty (Core σ) :=
  match e with
  | .exths => unaryC (signExtendC · 15) ci c
  | .extbs => unaryC (signExtendC · 7) ci c
  | .fl1 => unaryC (flsFrom · 32) ci c
  | .sll => binaryC (fun a b => ushl a (shiftOf b)) ci c
  | .srl => binaryC (fun a b => ushr a (shiftOf b)) ci c
  | .sra => binaryC checkedSra ci c
  | .ror => binaryC checkedRor ci c
  | .mul => c.checkedMul ci
  | .muld => c.checkedMuld ci
  | .muldu => c.checkedMuldu ci
  | .div => c.checkedDiv ci
  | .divu => c.checkedDivu ci
  | .mac => c.checkedMacSigned CInt.add ci
  | .msb => c.checkedMacSigned CInt.sub ci
  | .macu => c.checkedMacUnsigned (· + ·) ci
  | .msbu => c.checkedMacUnsigned (· - ·) ci
  | e => .lift (c.execute e ci)

/-! ## They are the executors -/

section

variable {c : Core σ} {ci : Instruction}

theorem unaryC_out {g : U32 → Checked Empty U32} {f : U32 → U32} (h : ∀ a, (g a).out = .ok (f a)) :
    (unaryC g ci c).out = c.unary f ci := by
  unfold unaryC unary
  rw [Checked.out_bind]
  refine congrArg _ (funext fun a => ?_)
  rw [Checked.out_bind, h, ok_bind]
  rfl

theorem binaryC_out {g : U32 → U32 → Checked Empty U32} {f : U32 → U32 → U32}
    (h : ∀ a b, (g a b).out = .ok (f a b)) : (binaryC g ci c).out = c.binary f ci := by
  unfold binaryC binary
  rw [Checked.out_bind]
  refine congrArg _ (funext fun a => ?_)
  rw [Checked.out_bind]
  refine congrArg _ (funext fun b => ?_)
  rw [Checked.out_bind, h, ok_bind]
  rfl

theorem sub_31 {i : Nat} (hi : i < 32) :
    (31#32).ssubOverflow (BitVec.ofNat 32 i) = false ∧ (31#32 - BitVec.ofNat 32 i).toNat = 31 - i := by
  have h : ∀ i : Fin 32, (31#32).ssubOverflow (BitVec.ofNat 32 i) = false ∧
      (31#32 - BitVec.ofNat 32 i).toNat = 31 - i := by decide
  exact h ⟨i, hi⟩

theorem signExtendC_out {S : Type} (v : U32) {i : Nat} (hi : i < 32) :
    (signExtendC v i : Checked S U32).out = .ok (signExtend32 v i) := by
  unfold signExtend32
  rw [← (sub_31 hi).2]
  rfl

theorem signExtendC_defined {S : Type} (v : U32) {i : Nat} (hi : i < 32) :
    (signExtendC v i : Checked S U32).Defined := by
  obtain ⟨h, hn⟩ := sub_31 hi
  unfold signExtendC
  refine Checked.defined_perform_bind.2 ⟨h, Checked.defined_perform_bind.2 ⟨?_,
    Checked.defined_perform_bind.2 ⟨h, Checked.defined_perform.2 ?_⟩⟩⟩
  · exact defined_shift.2 (by omega)
  · exact defined_shift.2 (by omega)

theorem bit_ne_zero_iff (v : U32) (i : Nat) : (v >>> i) &&& 1#32 ≠ 0#32 ↔ v.getLsbD i = true := by
  rw [BitVec.and_one_eq_setWidth_ofBool_getLsbD, BitVec.getLsbD_ushiftRight, Nat.add_zero]
  cases v.getLsbD i <;> decide

theorem flsFrom_out (v : U32) (n : Nat) : (flsFrom v n).out =
    .ok (match (List.range n).reverse.find? (fun i => v.getLsbD i) with
      | some i => BitVec.ofNat 32 (i + 1)
      | none => 0#32) := by
  induction n with
  | zero => rfl
  | succ i ih =>
    have hb := bit_ne_zero_iff v i
    unfold flsFrom
    rw [List.range_succ, List.reverse_append, List.reverse_singleton, List.singleton_append,
      List.find?_cons, Checked.out_bind]
    show ((if (v >>> i) &&& 1#32 ≠ 0#32 then CInt.add (BitVec.ofNat 32 i) 1#32 else _) :
      Checked Empty U32).out = _
    by_cases h : v.getLsbD i = true
    · rw [if_pos (hb.2 h), h]
      exact congrArg Outcome.ok (BitVec.ofNat_add i 1).symm
    · rw [if_neg fun h' => h (hb.1 h'), eq_false_of_ne_true h]
      exact ih

theorem flsFrom_defined (v : U32) {n : Nat} (hn : n ≤ 32) : (flsFrom v n).Defined := by
  induction n with
  | zero => exact Checked.defined_pure _
  | succ i ih =>
    have hs : ∀ i : Fin 32, (BitVec.ofNat 32 i).saddOverflow 1#32 = false ∧
        (BitVec.ofNat 32 i).ssubOverflow 1#32 = false := by decide
    obtain ⟨hadd, hsub⟩ := hs ⟨i, by omega⟩
    unfold flsFrom
    refine Checked.defined_perform_bind.2 ⟨defined_shift.2 (by omega), ?_⟩
    split
    · exact Checked.defined_perform.2 hadd
    · exact Checked.defined_perform_bind.2 ⟨hsub, ih (by omega)⟩

/-! Accumulators -/

theorem signExtend_mul (a b : U32) :
    a.signExtend 64 * b.signExtend 64 = BitVec.ofInt 64 (a.toInt * b.toInt) := by
  rw [BitVec.ofInt_mul]
  rfl

theorem setWidth_mul (a b : U32) :
    a.setWidth 64 * b.setWidth 64 = BitVec.ofNat 64 (a.toNat * b.toNat) := by
  rw [BitVec.ofNat_mul, BitVec.ofNat_toNat, BitVec.ofNat_toNat]

theorem signExtend_toInt (a : U32) : (a.signExtend 64).toInt = a.toInt :=
  BitVec.toInt_signExtend_of_le (by decide)

/-- A product of two words fits 64 bits. -/
theorem smulOverflow_signExtend (a b : U32) :
    (a.signExtend 64).smulOverflow (b.signExtend 64) = false := by
  have h := BitVec.toInt_mul_toInt_le (x := a) (y := b)
  have h' := BitVec.le_toInt_mul_toInt (x := a) (y := b)
  unfold BitVec.smulOverflow
  rw [signExtend_toInt, signExtend_toInt, Bool.or_eq_false_iff, decide_eq_false_iff_not,
    decide_eq_false_iff_not]
  omega

theorem signExtend_mul_toInt (a b : U32) :
    (a.signExtend 64 * b.signExtend 64).toInt = a.toInt * b.toInt := by
  rw [BitVec.toInt_mul_of_not_smulOverflow (by rw [smulOverflow_signExtend]; decide),
    signExtend_toInt, signExtend_toInt]

theorem halves_append (hi lo : U32) : hi.setWidth 64 <<< 32 ||| lo.setWidth 64 = hi ++ lo := by
  apply BitVec.eq_of_getLsbD_eq
  intro i h
  rw [BitVec.getLsbD_or, BitVec.getLsbD_shiftLeft, BitVec.getLsbD_setWidth, BitVec.getLsbD_setWidth,
    BitVec.getLsbD_append, decide_eq_true h, decide_eq_true (show i - 32 < 64 by omega)]
  by_cases hl : i < 32
  · simp [hl]
  · simp [hl, BitVec.getLsbD_of_ge lo i (by omega)]

theorem setWidth_sshiftRight (r : U64) : (r.sshiftRight 32).setWidth 32 = (r >>> 32).setWidth 32 := by
  ext i h
  rw [BitVec.getElem_setWidth, BitVec.getElem_setWidth, BitVec.getLsbD_sshiftRight,
    BitVec.getLsbD_ushiftRight, if_pos (by omega)]
  simp
  omega

theorem storeSigned_out (r : U64) (ae : U32) : (c.storeSigned r ae).out =
    ((c.setMac r).clearFlag SR.OV).overflow (exceedsS32 r.toInt) SR.OV ae := by
  show (({ c with mac := { hi := (r.sshiftRight 32).setWidth 32, lo := (r.sshiftRight 0).setWidth 32 } } :
    Core σ).clearFlag SR.OV).overflow (exceedsS32 r.toInt) SR.OV ae = _
  rw [setWidth_sshiftRight, BitVec.sshiftRight_zero]
  rfl

theorem storeUnsigned_eq (r : U64) (ae : U32) : c.storeUnsigned (r >>> 32) r r ae =
    ((c.setMac r).clearFlag SR.CY).overflow (decide (0xffffffff < r.toNat)) SR.CY ae := rfl

theorem signedMac_out : (c.signedMac).out = .ok c.macValue := congrArg Outcome.ok (halves_append ..)

theorem unsignedMac_out : (c.unsignedMac).out = .ok c.macValue := congrArg Outcome.ok (halves_append ..)

/-- A word in front of the low half is not pushed out of 64 bits. -/
theorem signedMac_defined : (c.signedMac).Defined := by
  have hi : (c.mac.hi.setWidth 64).toInt = c.mac.hi.toNat := by
    have hn : (c.mac.hi.setWidth 64).toNat = c.mac.hi.toNat := BitVec.toNat_setWidth_of_le (by decide)
    rw [BitVec.toInt_eq_toNat_of_lt (by omega), hn]
  refine Checked.defined_perform_bind.2 ⟨⟨by decide, by decide, ?_, ?_⟩, Checked.defined_pure _⟩
  · rw [hi]
    omega
  · rw [hi]
    have := c.mac.hi.isLt
    show (c.mac.hi.toNat : Int) * 2 ^ 32 < 2 ^ 64
    omega

theorem unsignedMac_defined : (c.unsignedMac).Defined :=
  Checked.defined_perform_bind.2 ⟨defined_shift.2 (by decide), Checked.defined_pure _⟩

theorem storeSigned_defined (r : U64) (ae : U32) : (c.storeSigned r ae).Defined :=
  Checked.defined_perform_bind.2 ⟨defined_shift.2 (by decide), Checked.defined_perform_bind.2
    ⟨defined_shift.2 (by decide), Checked.defined_lift _⟩⟩

theorem checkedMacSigned_out {g : U64 → U64 → Checked Empty U64} {f : U64 → U64 → U64}
    (h : ∀ a b, (g a b).out = .ok (f a b)) :
    (c.checkedMacSigned g ci).out = c.macSigned f AE.OVMACADDE ci := by
  unfold checkedMacSigned macSigned
  rw [Checked.out_bind]
  refine congrArg _ (funext fun a => ?_)
  rw [Checked.out_bind]
  refine congrArg _ (funext fun b => ?_)
  rw [Checked.out_bind, signedMac_out, ok_bind, Checked.out_bind]
  show (g c.macValue (a.signExtend 64 * b.signExtend 64) >>= fun r => c.storeSigned r AE.OVMACADDE).out = _
  rw [Checked.out_bind, h, ok_bind, storeSigned_out, signExtend_mul]

theorem checkedMacUnsigned_out (f : U64 → U64 → U64) :
    (c.checkedMacUnsigned f ci).out = c.macUnsigned f AE.CYMACADDE ci := by
  unfold checkedMacUnsigned macUnsigned
  rw [Checked.out_bind]
  refine congrArg _ (funext fun a => ?_)
  rw [Checked.out_bind]
  refine congrArg _ (funext fun b => ?_)
  rw [Checked.out_bind, unsignedMac_out, ok_bind]
  dsimp only
  rw [setWidth_mul]
  exact storeUnsigned_eq _ _

theorem setWidth_ofInt (v : Int) : (BitVec.ofInt 64 v).setWidth 32 = BitVec.ofInt 32 v := by
  apply BitVec.eq_of_toNat_eq
  rw [BitVec.toNat_setWidth, BitVec.toNat_ofInt, BitVec.toNat_ofInt]
  omega

/-- The one quotient that is too large. -/
theorem sdivOverflow_iff (a b : U32) :
    a.sdivOverflow b = true ↔ a = 0x80000000#32 ∧ b = 0xffffffff#32 := by
  rw [BitVec.sdivOverflow_eq, Bool.and_eq_true, Bool.and_eq_true, decide_eq_true_eq,
    decide_eq_true_eq, decide_eq_true_eq]
  exact ⟨fun h => ⟨h.1.2, h.2⟩, fun h => ⟨⟨by decide, h.1⟩, h.2⟩⟩

theorem checkedMul_out : (c.checkedMul ci).out = c.executeOrbis32Mul ci := by
  unfold checkedMul executeOrbis32Mul
  rw [Checked.out_bind]
  refine congrArg _ (funext fun a => ?_)
  rw [Checked.out_bind]
  refine congrArg _ (funext fun b => ?_)
  unfold CInt.mul
  rw [Checked.out_bind, Checked.out_perform, ok_bind, Checked.out_bind, signExtend_mul_toInt,
    signExtend_mul, setWidth_ofInt]
  rfl

theorem checkedMuld_out : (c.checkedMuld ci).out = c.executeOrbis32Muld ci := by
  unfold checkedMuld executeOrbis32Muld macSigned
  rw [Checked.out_bind]
  refine congrArg _ (funext fun a => ?_)
  rw [Checked.out_bind]
  refine congrArg _ (funext fun b => ?_)
  rw [Checked.out_bind]
  refine (storeSigned_out _ _).trans ?_
  rw [signExtend_mul]

theorem checkedMuldu_out : (c.checkedMuldu ci).out = c.executeOrbis32Muldu ci := by
  unfold checkedMuldu executeOrbis32Muldu macUnsigned
  rw [Checked.out_bind]
  refine congrArg _ (funext fun a => ?_)
  rw [Checked.out_bind]
  refine congrArg _ (funext fun b => ?_)
  dsimp only
  rw [setWidth_mul]
  exact storeUnsigned_eq _ _

theorem checkedDiv_out : (c.checkedDiv ci).out = c.executeOrbis32Div ci := by
  unfold checkedDiv executeOrbis32Div
  rw [Checked.out_bind]
  refine congrArg _ (funext fun a => ?_)
  rw [Checked.out_bind]
  refine congrArg _ (funext fun b => ?_)
  split
  · rfl
  · rename_i hb
    rw [Checked.out_bind]
    unfold CInt.div
    by_cases ho : a = 0x80000000#32 ∧ b = 0xffffffff#32
    · rw [if_pos ho, if_pos (.inr ((sdivOverflow_iff a b).2 ho))]
      rfl
    · rw [if_neg ho, if_neg fun h => h.elim hb fun h => ho ((sdivOverflow_iff a b).1 h)]
      rfl

theorem checkedDivu_out : (c.checkedDivu ci).out = c.executeOrbis32Divu ci := by
  unfold checkedDivu executeOrbis32Divu
  rw [Checked.out_bind]
  refine congrArg _ (funext fun a => ?_)
  rw [Checked.out_bind]
  refine congrArg _ (funext fun b => ?_)
  split
  · rfl
  · rename_i hb
    rw [Checked.out_bind]
    unfold CInt.udiv
    rw [if_neg hb]
    rfl

/-- The instrumented executors compute what the executors compute. -/
theorem checked_out [HostLib] (e : CoreExec) (ci : Instruction) (c : Core σ) :
    (c.checked e ci).out = c.execute e ci := by
  cases e with
  | exths => exact unaryC_out fun a => signExtendC_out a (by decide)
  | extbs => exact unaryC_out fun a => signExtendC_out a (by decide)
  | fl1 => exact unaryC_out fun a => flsFrom_out a 32
  | sll | srl => exact binaryC_out fun a b => rfl
  | sra =>
    refine binaryC_out fun a b => ?_
    unfold checkedSra
    rw [Checked.out_bind]
    exact signExtendC_out _ (by omega)
  | ror => exact binaryC_out fun a b => rfl
  | mul => exact checkedMul_out
  | muld => exact checkedMuld_out
  | muldu => exact checkedMuldu_out
  | div => exact checkedDiv_out
  | divu => exact checkedDivu_out
  | mac => exact checkedMacSigned_out fun a b => rfl
  | msb => exact checkedMacSigned_out fun a b => rfl
  | macu => exact checkedMacUnsigned_out _
  | msbu => exact checkedMacUnsigned_out _
  | _ => rfl

/-! ## Which operations are defined -/

theorem unaryC_defined {g : U32 → Checked Empty U32} (h : ∀ a, (g a).Defined) :
    (unaryC g ci c).Defined :=
  (Checked.defined_lift _).bind fun a _ => (h a).bind fun _ _ => Checked.defined_lift _

theorem binaryC_defined {g : U32 → U32 → Checked Empty U32} (h : ∀ a b, (g a b).Defined) :
    (binaryC g ci c).Defined :=
  (Checked.defined_lift _).bind fun a _ => (Checked.defined_lift _).bind fun b _ =>
    (h a b).bind fun _ _ => Checked.defined_lift _

theorem shiftOf_lt (b : U32) : shiftOf b < 32 := by
  rw [Shift.shiftOf_eq]
  exact Nat.mod_lt _ (by decide)

theorem mul_defined (a b : U32) :
    (CInt.mul (a.signExtend 64) (b.signExtend 64) : Checked Empty U64).Defined :=
  Checked.defined_perform.2 (smulOverflow_signExtend a b)

theorem checkedMul_defined : (c.checkedMul ci).Defined :=
  (Checked.defined_lift _).bind fun a _ => (Checked.defined_lift _).bind fun b _ =>
    (mul_defined a b).bind fun _ _ => (Checked.defined_lift _).bind fun _ _ => Checked.defined_lift _

theorem checkedMuld_defined : (c.checkedMuld ci).Defined :=
  (Checked.defined_lift _).bind fun a _ => (Checked.defined_lift _).bind fun b _ =>
    (mul_defined a b).bind fun _ _ => storeSigned_defined _ _

theorem checkedMuldu_defined : (c.checkedMuldu ci).Defined :=
  (Checked.defined_lift _).bind fun _ _ => (Checked.defined_lift _).bind fun _ _ =>
    Checked.defined_perform_bind.2 ⟨defined_shift.2 (by decide), Checked.defined_perform_bind.2
      ⟨defined_shift.2 (by decide), Checked.defined_lift _⟩⟩

theorem checkedDivu_defined : (c.checkedDivu ci).Defined := by
  refine (Checked.defined_lift _).bind fun a _ => (Checked.defined_lift _).bind fun b _ => ?_
  split
  · exact Checked.defined_lift _
  · rename_i hb
    have hu : (CInt.udiv a b : Checked Empty U32).Defined :=
      (List.forall_mem_singleton (p := Op.Defined)).2 hb
    exact hu.bind fun _ _ => Checked.defined_lift _

theorem checkedMacUnsigned_defined (f : U64 → U64 → U64) : (c.checkedMacUnsigned f ci).Defined :=
  (Checked.defined_lift _).bind fun _ _ => (Checked.defined_lift _).bind fun _ _ =>
    unsignedMac_defined.bind fun _ _ => Checked.defined_perform_bind.2
      ⟨defined_shift.2 (by decide), Checked.defined_lift _⟩

/-- Two operands in front, which may be missing. -/
theorem operands_bind_iff {f : U32 → U32 → Checked Empty (Core σ)} :
    (do
      let a ← Checked.lift (c.deref ci ci.src1)
      let b ← Checked.lift (c.deref ci ci.src2)
      f a b).Defined ↔
    ∀ a b, c.deref ci ci.src1 = .ok a → c.deref ci ci.src2 = .ok b → (f a b).Defined := by
  cases ha : c.deref ci ci.src1 with
  | ok a =>
    rw [Checked.defined_lift_bind rfl]
    cases hb : c.deref ci ci.src2 with
    | ok b =>
      rw [Checked.defined_lift_bind rfl]
      refine ⟨fun h x y hx hy => ?_, fun h => h a b rfl rfl⟩
      cases hx
      cases hy
      exact h
    | throw s => exact s.elim
    | fault g => exact iff_of_true (Checked.defined_lift _) fun x y _ hy => by cases hy
  | throw s => exact s.elim
  | fault g => exact iff_of_true (Checked.defined_lift _) fun x y hx => by cases hx

/-- The quotient of `l.div`. -/
theorem checkedDiv_defined_iff : (c.checkedDiv ci).Defined ↔
    ∀ a b, c.deref ci ci.src1 = .ok a → c.deref ci ci.src2 = .ok b →
      ¬(a = 0x80000000#32 ∧ b = 0xffffffff#32) := by
  refine operands_bind_iff.trans (forall₂_congr fun a b => imp_congr_right fun _ =>
    imp_congr_right fun _ => ?_)
  rw [← sdivOverflow_iff, Bool.not_eq_true]
  split
  · rename_i hb
    refine iff_of_true (Checked.defined_lift _) ?_
    rw [← Bool.not_eq_true, sdivOverflow_iff, hb]
    exact fun h => absurd h.2 (by decide)
  · rename_i hb
    have hq : (CInt.div a b : Checked Empty U32).Defined ↔ a.sdivOverflow b = false :=
      (List.forall_mem_singleton (p := Op.Defined)).trans (and_iff_right hb)
    exact ⟨fun hd => hq.1 hd.left, fun ho => (hq.2 ho).bind fun _ _ => Checked.defined_lift _⟩

/-- The sum or the difference of `l.mac`, `l.maci` and `l.msb`. -/
theorem checkedMacSigned_defined_iff {o : U64 → U64 → Op} {f : U64 → U64 → U64} :
    (c.checkedMacSigned (fun x y => .perform (o x y) (f x y)) ci).Defined ↔
      ∀ a b, c.deref ci ci.src1 = .ok a → c.deref ci ci.src2 = .ok b →
        (o c.macValue (a.signExtend 64 * b.signExtend 64)).Defined := by
  refine operands_bind_iff.trans (forall₂_congr fun a b => imp_congr_right fun _ =>
    imp_congr_right fun _ => ?_)
  rw [Checked.defined_bind signedMac_out, and_iff_right signedMac_defined]
  refine Checked.defined_perform_bind.trans ((and_iff_right (smulOverflow_signExtend _ _)).trans ?_)
  exact Checked.defined_perform_bind.trans (and_iff_left (storeSigned_defined _ _))

theorem saddOverflow_iff (x y : U64) :
    x.saddOverflow y = false ↔ -2 ^ 63 ≤ x.toInt + y.toInt ∧ x.toInt + y.toInt < 2 ^ 63 := by
  unfold BitVec.saddOverflow
  rw [Bool.or_eq_false_iff, decide_eq_false_iff_not, decide_eq_false_iff_not]
  omega

theorem ssubOverflow_iff (x y : U64) :
    x.ssubOverflow y = false ↔ -2 ^ 63 ≤ x.toInt - y.toInt ∧ x.toInt - y.toInt < 2 ^ 63 := by
  unfold BitVec.ssubOverflow
  rw [Bool.or_eq_false_iff, decide_eq_false_iff_not, decide_eq_false_iff_not]
  omega

/-- The sum of `l.mac` is the exact result. -/
theorem add_defined_iff (a b : U32) :
    (Op.add c.macValue (a.signExtend 64 * b.signExtend 64)).Defined ↔
      Mac.mac.Fits (Mac.mac.exact c.macValue a b) := by
  refine (saddOverflow_iff _ _).trans ?_
  rw [signExtend_mul_toInt]
  rfl

theorem sub_defined_iff (a b : U32) :
    (Op.sub c.macValue (a.signExtend 64 * b.signExtend 64)).Defined ↔
      Mac.msb.Fits (Mac.msb.exact c.macValue a b) := by
  refine (ssubOverflow_iff _ _).trans ?_
  rw [signExtend_mul_toInt]
  rfl

/-- All other executors perform defined operations only. -/
theorem checked_defined [HostLib] {e : CoreExec} (hd : e ≠ .div) (ha : e ≠ .mac) (hs : e ≠ .msb) :
    (c.checked e ci).Defined := by
  cases e with
  | exths => exact unaryC_defined fun a => signExtendC_defined a (by decide)
  | extbs => exact unaryC_defined fun a => signExtendC_defined a (by decide)
  | fl1 => exact unaryC_defined fun a => flsFrom_defined a (Nat.le_refl 32)
  | sll | srl =>
    exact binaryC_defined fun a b => Checked.defined_perform.2 (defined_shift.2 (shiftOf_lt b))
  | sra =>
    exact binaryC_defined fun a b => Checked.defined_perform_bind.2
      ⟨defined_shift.2 (shiftOf_lt b), signExtendC_defined _ (by omega)⟩
  | ror =>
    exact binaryC_defined fun a b => Checked.defined_perform_bind.2
      ⟨defined_shift.2 (shiftOf_lt b), Checked.defined_perform_bind.2
        ⟨defined_shift.2 (by omega), Checked.defined_pure _⟩⟩
  | mul => exact checkedMul_defined
  | muld => exact checkedMuld_defined
  | muldu => exact checkedMuldu_defined
  | div => exact absurd rfl hd
  | divu => exact checkedDivu_defined
  | mac => exact absurd rfl ha
  | msb => exact absurd rfl hs
  | macu | msbu => exact checkedMacUnsigned_defined _
  | _ => exact Checked.defined_lift _

end

end Core

/-! ## Every executor -/

namespace Or1k

/-- The sign extension behind a load of `size` bytes. -/
def loadOps [EnvImpl σ] (size i : Nat) (ci : Instruction) (c : Core σ) : List Op :=
  match c.accessMemory true false size id ci.dest ci with
  | .ok (_, c) =>
    match c.deref ci ci.dest with
    | .ok v => (Core.signExtendC v i : Checked Empty U32).ops
    | _ => []
  | _ => []

/-- The operations of an executor. Those of `l.nop` take a counter apart, or compute the picoseconds
of a clock period and milliseconds. The executors that call `get_spr` and `set_spr` have none, and
floating point is not on record. -/
def operations [EnvImpl σ] [HostLib] (ci : Instruction) (s : Or1k σ) : List Op :=
  match ci.exec with
  | some (.core e) => (s.toCore.checked e ci).ops
  | some (.mem .lhs) => loadOps 2 15 ci s.toCore
  | some (.mem .lbs) => loadOps 1 7 ci s.toCore
  | some .nop =>
    match ci.imm.toNat with
    | 0x6 => [.shift 64 32]
    | 0x7 => [.udiv (BitVec.ofNat 64 s.clock)]
    | 0xd => [.udiv 1000#64, .shift 64 32]
    | _ => []
  | _ => []

variable [EnvImpl σ] [HostLib] {s : Or1k σ} {ci : Instruction}

/-- The operands for which C++ defines all operations of an executor. -/
structure Computable (s : Or1k σ) (ci : Instruction) : Prop where
  div : ci.exec = some (.core .div) → ∀ a b, s.toCore.deref ci ci.src1 = .ok a →
    s.toCore.deref ci ci.src2 = .ok b → ¬(a = 0x80000000#32 ∧ b = 0xffffffff#32)
  mac : ∀ k : Mac, k.isSigned = true → ci.exec = some (.core k.exec) → ∀ a b,
    s.toCore.deref ci ci.src1 = .ok a → s.toCore.deref ci ci.src2 = .ok b →
      k.Fits (k.exact s.macValue a b)
  clock : ci.exec = some .nop → ci.imm = 0x7#32 → BitVec.ofNat 64 s.clock ≠ 0#64

omit [HostLib] in
theorem loadOps_defined {size i : Nat} (hi : i < 32) (c : Core σ) :
    ∀ o ∈ loadOps size i ci c, o.Defined := by
  unfold loadOps
  split
  · split
    · exact Core.signExtendC_defined _ hi
    · exact fun o h => (List.not_mem_nil h).elim
  · exact fun o h => (List.not_mem_nil h).elim

omit [EnvImpl σ] [HostLib] in
/-- Most executors compute with all operands. -/
theorem computable_of (hd : ci.exec ≠ some (.core .div)) (ha : ci.exec ≠ some (.core .mac))
    (hs : ci.exec ≠ some (.core .msb)) (hn : ci.exec ≠ some .nop) : s.Computable ci := by
  refine ⟨fun h => (hd h).elim, fun k hk h => ?_, fun h => (hn h).elim⟩
  cases k with
  | mac => exact (ha h).elim
  | msb => exact (hs h).elim
  | macu | msbu => cases hk

omit [EnvImpl σ] [HostLib] in
/-- The executors that add to the signed accumulator. -/
theorem computable_mac_iff {k : Mac} (hk : k.isSigned = true) (he : ci.exec = some (.core k.exec)) :
    s.Computable ci ↔ ∀ a b, s.toCore.deref ci ci.src1 = .ok a →
      s.toCore.deref ci ci.src2 = .ok b → k.Fits (k.exact s.macValue a b) := by
  refine ⟨fun h => h.mac k hk he, fun h => ⟨fun hd => ?_, fun k' hk' he' => ?_, fun hn => ?_⟩⟩
  · rw [he] at hd
    cases k <;> cases hd
  · have hkk : k' = k := by
      rw [he] at he'
      cases k <;> cases k' <;> first | rfl | cases he'
    rw [hkk]
    exact h
  · rw [he] at hn
    cases hn

/-- C++ defines every signed operation, division and shift of an executor if and only if it is not
`l.div` of the least integer by -1, the accumulator of `l.mac`, `l.maci` or `l.msb` can hold the
result, and `l.nop` is not asked for the period of a clock that stands still. -/
theorem operations_defined_iff (s : Or1k σ) (ci : Instruction) :
    (∀ o ∈ s.operations ci, o.Defined) ↔ s.Computable ci := by
  have hnone : ∀ o ∈ ([] : List Op), o.Defined := fun o h => (List.not_mem_nil h).elim
  unfold operations
  cases he : ci.exec with
  | none => exact iff_of_true hnone (by apply computable_of <;> rw [he] <;> decide)
  | some e =>
    cases e with
    | core e =>
      by_cases hd : e = .div
      · subst hd
        refine Core.checkedDiv_defined_iff.trans
          ⟨fun h => ⟨fun _ => h, fun k hk h' => ?_, fun h' => ?_⟩, fun h => h.div he⟩
        · rw [he] at h'
          cases k <;> cases h'
        · rw [he] at h'
          cases h'
      · by_cases ha : e = .mac
        · subst ha
          refine Iff.trans ?_ (computable_mac_iff (k := .mac) rfl he).symm
          refine Core.checkedMacSigned_defined_iff.trans (forall₂_congr fun a b =>
            imp_congr_right fun _ => imp_congr_right fun _ => Core.add_defined_iff a b)
        · by_cases hs : e = .msb
          · subst hs
            refine Iff.trans ?_ (computable_mac_iff (k := .msb) rfl he).symm
            refine Core.checkedMacSigned_defined_iff.trans (forall₂_congr fun a b =>
              imp_congr_right fun _ => imp_congr_right fun _ => Core.sub_defined_iff a b)
          · refine iff_of_true (Core.checked_defined hd ha hs) ?_
            apply computable_of <;> rw [he]
            · exact fun h => hd (by cases h; rfl)
            · exact fun h => ha (by cases h; rfl)
            · exact fun h => hs (by cases h; rfl)
            · exact fun h => by cases h
    | mem e =>
      refine iff_of_true ?_ (by apply computable_of <;> rw [he] <;> exact fun h => by cases h)
      cases e with
      | lhs => exact loadOps_defined (by decide) _
      | lbs => exact loadOps_defined (by decide) _
      | _ => exact hnone
    | nop =>
      have hclock : s.Computable ci ↔ (ci.imm = 0x7#32 → BitVec.ofNat 64 s.clock ≠ 0#64) := by
        refine ⟨fun h => h.clock he, fun h => ⟨fun hd => ?_, fun k _ hk => ?_, fun _ => h⟩⟩
        · rw [he] at hd
          cases hd
        · rw [he] at hk
          cases hk
      have hne : ∀ n, ci.imm.toNat = n → n ≠ 7 → s.Computable ci :=
        fun n hn h7 => hclock.2 fun hi => (h7 (by rw [← hn, hi]; rfl)).elim
      rw [hclock]
      show (∀ o ∈ (match ci.imm.toNat with
        | 0x6 => [Op.shift 64 32]
        | 0x7 => [.udiv (BitVec.ofNat 64 s.clock)]
        | 0xd => [.udiv 1000#64, .shift 64 32]
        | _ => []), o.Defined) ↔ _
      split
      · rename_i hn
        refine iff_of_true ?_ (hclock.1 (hne _ hn (by decide)))
        exact (List.forall_mem_singleton (p := Op.Defined)).2 (defined_shift.2 (by decide))
      · rename_i hn
        have hi : ci.imm = 0x7#32 := BitVec.eq_of_toNat_eq hn
        exact (List.forall_mem_singleton (p := Op.Defined)).trans (imp_iff_right hi).symm
      · rename_i hn
        refine iff_of_true ?_ (hclock.1 (hne _ hn (by decide)))
        exact List.forall_mem_cons.2 ⟨show 1000#64 ≠ 0#64 by decide, (List.forall_mem_singleton (p := Op.Defined)).2
          (defined_shift.2 (by decide))⟩
      · rename_i h7 _
        exact iff_of_true hnone (hclock.1 (hne _ rfl h7))
    | mfspr | mtspr | rfe =>
      exact iff_of_true hnone (by apply computable_of <;> rw [he] <;> exact fun h => by cases h)

end Or1k

namespace Or1k

attribute [local instance] HostLib.plain

/-- `l.div r3,r4,r5` -/
abbrev divide : Instruction := decodeOrbis32Div 0xe0642b09#32 (.blank 0x100#32 0xe0642b09#32)

theorem decode_divide : decode divide.insn = .orbis32Div := by decide

theorem full_divide : divide.Full := Instruction.full_handler (congrArg decodeTable decode_divide) _

/-- The least integer divided by -1 traps. -/
theorem operations_defined_iff_fails : ∃ (s : Or1k Memory) (ci : Instruction), ci.Full ∧
    decode ci.insn = .orbis32Div ∧ s.execute ci = .fault .intTrap ∧
    ¬∀ o ∈ s.operations ci, o.Defined := by
  let c := Carry.withLimbs (Memory.boot []).cpu.toCore 0x80000000#32 0xffffffff#32
  have hb := (full_divide.regReg (e := .div) (congrArg decodeTable decode_divide)).1
  have h1 : c.deref divide divide.src1 = .ok 0x80000000#32 :=
    (Core.deref_first hb).trans (congrArg Outcome.ok (Carry.withLimbs_first ..))
  have h2 : c.deref divide divide.src2 = .ok 0xffffffff#32 :=
    (Core.deref_second hb).trans (congrArg Outcome.ok (Carry.withLimbs_second ..))
  refine ⟨(Memory.boot []).cpu.withCore c, divide, full_divide, decode_divide, ?_, fun h => ?_⟩
  · have he : c.executeOrbis32Div divide = .fault .intTrap := by
      unfold Core.executeOrbis32Div
      rw [h1, ok_bind, h2, ok_bind, if_neg (by decide), if_pos ⟨rfl, rfl⟩]
    show onCore _ (c.executeOrbis32Div divide) = _
    rw [he]
    rfl
  · exact Core.checkedDiv_defined_iff.1 h _ _ h1 h2 ⟨rfl, rfl⟩

end Or1k

end Or1kiss
