import Or1kiss.Carry

/-!
# Multiply and accumulate

`l.mac`, `l.maci`, `l.msb`, `l.macu` and `l.msbu` add a product to the 64-bit accumulator or take
it away. The accumulator gets the exact result (`Mac.exact`) modulo `2 ^ 64`. The overflow flag is
tested against the limits of 32 bits, so it is also set by results that fit the accumulator;
`Mac.Tells` is what a result has to be for the flag to say whether it fits.
-/

namespace Or1kiss

open Host Bits Outcome

variable {σ : Type}

inductive Mac where
  | mac | msb | macu | msbu
  deriving DecidableEq, Repr

namespace Mac

variable {k : Mac}

def exec : Mac → CoreExec
  | .mac => .mac
  | .msb => .msb
  | .macu => .macu
  | .msbu => .msbu

/-- The operands and the accumulator are signed. -/
def isSigned : Mac → Bool
  | .mac | .msb => true
  | .macu | .msbu => false

/-- The overflow flag. -/
def flag (k : Mac) : U32 := if k.isSigned then SR.OV else SR.CY

/-- The bit of AECR that enables its exception. -/
def enable (k : Mac) : U32 := if k.isSigned then AE.OVMACADDE else AE.CYMACADDE

/-- The result over the integers. -/
def exact : Mac → U64 → U32 → U32 → Int
  | .mac, acc, a, b => acc.toInt + a.toInt * b.toInt
  | .msb, acc, a, b => acc.toInt - a.toInt * b.toInt
  | .macu, acc, a, b => acc.toNat + a.toNat * b.toNat
  | .msbu, acc, a, b => acc.toNat - a.toNat * b.toNat

/-- The accumulator can hold the result. -/
def Fits (k : Mac) (v : Int) : Prop :=
  if k.isSigned then -2 ^ 63 ≤ v ∧ v < 2 ^ 63 else 0 ≤ v ∧ v < 2 ^ 64

/-- A result that the flag is right about. -/
def Tells : Mac → Int → Prop
  | .mac, v | .msb, v => -2 ^ 63 ≤ v ∧ v < 2 ^ 63 → -2 ^ 31 ≤ v ∧ v < 2 ^ 31
  | .macu, v => v < 2 ^ 32 ∨ 2 ^ 64 + 2 ^ 32 ≤ v
  | .msbu, v => v < 2 ^ 32

/-- The test of the executor. -/
def exceeds (k : Mac) (r : U64) : Bool :=
  if k.isSigned then Core.exceedsS32 r.toInt else decide (0xffffffff < r.toNat)

theorem exceedsS32_iff (v : Int) : Core.exceedsS32 v = true ↔ ¬(-2 ^ 31 ≤ v ∧ v < 2 ^ 31) := by
  unfold Core.exceedsS32
  rw [Bool.or_eq_true, decide_eq_true_eq, decide_eq_true_eq]
  omega

/-- A signed result that leaves the accumulator comes back far from zero. -/
theorem exceedsS32_ofInt_iff {v : Int} (h : -(2 ^ 63 + 2 ^ 62) ≤ v) (h' : v < 2 ^ 63 + 2 ^ 62) :
    (Core.exceedsS32 (BitVec.ofInt 64 v).toInt = true ↔ ¬(-2 ^ 63 ≤ v ∧ v < 2 ^ 63)) ↔
      (-2 ^ 63 ≤ v ∧ v < 2 ^ 63 → -2 ^ 31 ≤ v ∧ v < 2 ^ 31) := by
  rw [exceedsS32_iff, BitVec.toInt_ofInt, Int.bmod_def]
  split <;> omega

/-- An unsigned sum that leaves the accumulator may come back close to zero. -/
theorem exceeds_sum_iff {v : Int} (h : 0 ≤ v) (h' : v < 2 ^ 65) :
    (decide (0xffffffff < (BitVec.ofInt 64 v).toNat) = true ↔ ¬(0 ≤ v ∧ v < 2 ^ 64)) ↔
      (v < 2 ^ 32 ∨ 2 ^ 64 + 2 ^ 32 ≤ v) := by
  rw [decide_eq_true_eq, BitVec.toNat_ofInt]
  omega

/-- An unsigned difference below zero comes back large. -/
theorem exceeds_difference_iff {v : Int} (h : 2 ^ 32 - 2 ^ 64 ≤ v) (h' : v < 2 ^ 64) :
    (decide (0xffffffff < (BitVec.ofInt 64 v).toNat) = true ↔ ¬(0 ≤ v ∧ v < 2 ^ 64)) ↔
      v < 2 ^ 32 := by
  rw [decide_eq_true_eq, BitVec.toNat_ofInt]
  omega

/-- The flag says whether the result fits exactly if the result is one it tells. -/
theorem exceeds_iff (acc : U64) (a b : U32) :
    (k.exceeds (BitVec.ofInt 64 (k.exact acc a b)) = true ↔ ¬k.Fits (k.exact acc a b)) ↔
      k.Tells (k.exact acc a b) := by
  have hs := BitVec.toInt_mul_toInt_le (x := a) (y := b)
  have hs' := BitVec.le_toInt_mul_toInt (x := a) (y := b)
  have hacc := BitVec.toInt_lt (x := acc)
  have hacc' := BitVec.le_toInt acc
  have hu : a.toNat * b.toNat ≤ (2 ^ 32 - 1) * (2 ^ 32 - 1) :=
    Nat.mul_le_mul (Nat.le_pred_of_lt a.isLt) (Nat.le_pred_of_lt b.isLt)
  have hn := acc.isLt
  cases k with
  | mac =>
    refine exceedsS32_ofInt_iff (v := acc.toInt + a.toInt * b.toInt) ?_ ?_ <;> omega
  | msb =>
    refine exceedsS32_ofInt_iff (v := acc.toInt - a.toInt * b.toInt) ?_ ?_ <;> omega
  | macu =>
    refine exceeds_sum_iff (v := acc.toNat + a.toNat * b.toNat) ?_ ?_ <;> omega
  | msbu =>
    refine exceeds_difference_iff (v := acc.toNat - a.toNat * b.toNat) ?_ ?_ <;> omega

/-! ## The instructions -/

end Mac

/-- The accumulation an opcode stands for, and its second factor. -/
def Opcode.accumulation : Opcode → Option (Mac × Second)
  | .orbis32Mac => some (.mac, .rB)
  | .orbis32Maci => some (.mac, .imm fieldI)
  | .orbis32Msb => some (.msb, .rB)
  | .orbis32Macu => some (.macu, .rB)
  | .orbis32Msbu => some (.msbu, .rB)
  | _ => none

namespace Core

variable {c d : Core σ} {flag ae : U32}

theorem macValue_setMac (c : Core σ) (v : U64) : (c.setMac v).macValue = v := by
  unfold macValue setMac
  ext i hi
  simp only [BitVec.getElem_append, BitVec.getElem_setWidth, BitVec.getLsbD_ushiftRight]
  split <;> simp_all

/-- A product that goes to the accumulator, signed. -/
theorem macSigned_eq {e : CoreExec} {b : Second} {ci : Instruction} (h : ci.Binds e b)
    (f : U64 → U64 → U64) (ae : U32) : c.macSigned f ae ci =
      ((c.setMac (f c.macValue (BitVec.ofInt 64 ((c.gpr (rA ci.insn)).toInt *
        (b.value c ci.insn).toInt)))).clearFlag SR.OV).overflow
        (exceedsS32 (f c.macValue (BitVec.ofInt 64 ((c.gpr (rA ci.insn)).toInt *
          (b.value c ci.insn).toInt))).toInt) SR.OV ae := by
  unfold macSigned
  rw [deref_first h, ok_bind, deref_second h, ok_bind]

/-- A product that goes to the accumulator, unsigned. -/
theorem macUnsigned_eq {e : CoreExec} {b : Second} {ci : Instruction} (h : ci.Binds e b)
    (f : U64 → U64 → U64) (ae : U32) : c.macUnsigned f ae ci =
      ((c.setMac (f c.macValue (BitVec.ofNat 64 ((c.gpr (rA ci.insn)).toNat *
        (b.value c ci.insn).toNat)))).clearFlag SR.CY).overflow
        (decide (0xffffffff < (f c.macValue (BitVec.ofNat 64 ((c.gpr (rA ci.insn)).toNat *
          (b.value c ci.insn).toNat))).toNat)) SR.CY ae := by
  unfold macUnsigned
  rw [deref_first h, ok_bind, deref_second h, ok_bind]

/-- The flag after an overflow is what it found, and its exception was raised if enabled. -/
theorem overflow_ok {o : Bool} (hf : flag &&& (SR.SM ||| SR.DSX ||| SR.IEE ||| SR.TEE ||| SR.IME |||
    SR.DME) = 0#32) (hz : flag ≠ 0#32) (ho : flag &&& SR.OVE = 0#32) (hc : test c.status flag = false)
    (h : c.overflow o flag ae = .ok d) : test d.status flag = o ∧
      d.taken = if o && c.rangeEnabled ae then .range :: c.taken else c.taken := by
  unfold overflow at h
  cases o with
  | false =>
    cases h
    exact ⟨hc, rfl⟩
  | true =>
    have hset : test (c.status ||| flag) flag = true := test_or_self hz
    rw [if_pos rfl, rangeException] at h
    rw [Bool.true_and, ← rangeEnabled_setFlag ho]
    unfold rangeEnabled
    split at h
    · rename_i he
      rw [he, if_pos rfl]
      obtain ⟨hm, -⟩ | ⟨-, -, rfl⟩ := exception_ok h
      · cases hm
      · exact ⟨(test_congr BitVec.and_self (exceptionStatus_and _ hf)).trans hset, rfl⟩
    · rename_i he
      cases h
      rw [if_neg he]
      exact ⟨hset, rfl⟩

end Core

namespace Mac

open Or1kiss.Core

variable {k : Mac} {b : Second} {ci : Instruction} {c d : Core σ}

theorem binds (hf : ci.Full) (hk : (decode ci.insn).accumulation = some (k, b)) :
    ci.Binds k.exec b := by
  obtain ⟨-, handler, hh, -⟩ := id hf
  generalize hd : decode ci.insn = code at hk hh
  cases code <;> cases hk
  · exact hf.regPair (by rw [hd]; rfl)
  · exact hf.regPair (by rw [hd]; rfl)
  · exact hf.regPair (by rw [hd]; rfl)
  · exact hf.regPair (by rw [hd]; rfl)
  · exact hf.oneImm (by rw [hd]; rfl)

theorem add_ofInt (acc : U64) (p : Int) :
    acc + BitVec.ofInt 64 p = BitVec.ofInt 64 (acc.toInt + p) := by
  rw [BitVec.ofInt_add, BitVec.ofInt_toInt]

theorem sub_ofInt (acc : U64) (p : Int) :
    acc - BitVec.ofInt 64 p = BitVec.ofInt 64 (acc.toInt - p) := by
  rw [Int.sub_eq_add_neg, ← add_ofInt, BitVec.ofInt_neg, BitVec.sub_eq_add_neg]

theorem add_ofNat (acc : U64) (p : Nat) :
    acc + BitVec.ofNat 64 p = BitVec.ofInt 64 (acc.toNat + (p : Int)) := by
  rw [BitVec.ofInt_add, BitVec.ofInt_natCast, BitVec.ofInt_natCast, BitVec.ofNat_toNat,
    BitVec.setWidth_eq]

theorem sub_ofNat (acc : U64) (p : Nat) :
    acc - BitVec.ofNat 64 p = BitVec.ofInt 64 (acc.toNat - (p : Int)) := by
  rw [Int.sub_eq_add_neg, BitVec.ofInt_add, BitVec.ofInt_neg, BitVec.ofInt_natCast,
    BitVec.ofInt_natCast, BitVec.ofNat_toNat, BitVec.setWidth_eq, BitVec.sub_eq_add_neg]

theorem execute_eq [HostLib] (hf : ci.Full) (hk : (decode ci.insn).accumulation = some (k, b))
    {x y : U32} (hx : c.gpr (rA ci.insn) = x) (hy : b.value c ci.insn = y) :
    c.execute k.exec ci =
      ((c.setMac (BitVec.ofInt 64 (k.exact c.macValue x y))).clearFlag k.flag).overflow
        (k.exceeds (BitVec.ofInt 64 (k.exact c.macValue x y))) k.flag k.enable := by
  have hb := binds hf hk
  subst hx hy
  cases k with
  | mac =>
    refine (macSigned_eq hb _ _).trans ?_
    rw [add_ofInt]
    rfl
  | msb =>
    refine (macSigned_eq hb _ _).trans ?_
    rw [sub_ofInt]
    rfl
  | macu =>
    refine (macUnsigned_eq hb _ _).trans ?_
    rw [add_ofNat, Int.natCast_mul]
    rfl
  | msbu =>
    refine (macUnsigned_eq hb _ _).trans ?_
    rw [sub_ofNat, Int.natCast_mul]
    rfl

/-- After the instruction its flag says whether the exact result fits the accumulator, and the
range exception is raised if the flag and its enables are set, if and only if the result is one
that the flag tells. The exception is always as the flag says. -/
theorem flag_iff [HostLib] (hf : ci.Full) (hk : (decode ci.insn).accumulation = some (k, b))
    (h : c.execute k.exec ci = .ok d) :
    ((test d.status k.flag = true ↔ ¬k.Fits (k.exact c.macValue (c.gpr (rA ci.insn)) (b.value c ci.insn))) ∧
      d.taken = if test d.status k.flag && test c.status SR.OVE && test c.aecr k.enable
        then .range :: c.taken else c.taken) ↔
      k.Tells (k.exact c.macValue (c.gpr (rA ci.insn)) (b.value c ci.insn)) := by
  rw [execute_eq hf hk rfl rfl] at h
  obtain ⟨hflag, htaken⟩ := overflow_ok (by cases k <;> decide) (by cases k <;> decide)
    (by cases k <;> decide) (test_and_not_self _ _) h
  have hov : (c.status &&& ~~~k.flag) &&& SR.OVE = c.status &&& SR.OVE :=
    and_not_and_of_disjoint (by cases k <;> decide)
  have hr : ((c.setMac (BitVec.ofInt 64 (k.exact c.macValue (c.gpr (rA ci.insn))
      (b.value c ci.insn)))).clearFlag k.flag).rangeEnabled k.enable =
      (test c.status SR.OVE && test c.aecr k.enable) := by
    unfold rangeEnabled clearFlag setMac
    rw [test_congr BitVec.and_self hov]
  rw [hr] at htaken
  rw [hflag, ← Bool.and_assoc] at *
  rw [← exceeds_iff]
  exact and_iff_left htaken

section

attribute [local instance] HostLib.plain

/-- `l.mac r3,r4` -/
abbrev accumulate : Instruction := decodeOrbis32Mac 0xc4032001#32 (.blank 0x100#32 0xc4032001#32)

theorem decode_accumulate : decode accumulate.insn = .orbis32Mac := by decide

theorem full_accumulate : accumulate.Full :=
  Instruction.full_handler (congrArg decodeTable decode_accumulate) _

theorem accumulation_accumulate : (decode accumulate.insn).accumulation = some (.mac, .rB) :=
  congrArg Opcode.accumulation decode_accumulate

/-- After reset, with 3 and 5 in the registers and 100 in the accumulator. -/
abbrev loaded : Core Memory :=
  { ((Memory.boot []).cpu.toCore.setGpr 3 3#32).setGpr 4 5#32 with
    mac := { hi := 0#32, lo := 100#32 } }

/-- Three times five, added to 100. -/
theorem flag_iff_adds : ∃ d : Core Memory,
    loaded.execute .mac accumulate = .ok d ∧ d.macValue = 115#64 ∧
      test d.status SR.OV = false := by
  have he := execute_eq (c := loaded) full_accumulate accumulation_accumulate
    (x := 3#32) (y := 5#32) rfl rfl
  have hv : mac.exact loaded.macValue 3#32 5#32 = 115 := by decide
  have hfit : mac.Fits 115 := ⟨by decide, by decide⟩
  rw [hv, overflow_off (by decide) (by decide)] at he
  have h := (flag_iff full_accumulate accumulation_accumulate he).2 fun _ => by
    show -2 ^ 31 ≤ mac.exact loaded.macValue 3#32 5#32 ∧ _
    rw [hv]
    decide
  exact ⟨_, he, by decide, eq_false_of_ne_true fun ht => h.1.1 ht (hv ▸ hfit)⟩

/-- After reset, with `2 ^ 31` in the accumulator. -/
abbrev full : Core Memory :=
  { (Memory.boot []).cpu.toCore with mac := { hi := 0#32, lo := 0x80000000#32 } }

/-- `2 ^ 31` fits the accumulator, and SR[OV] is set. -/
theorem flag_iff_fails : ∃ (c d : Core Memory) (ci : Instruction), ci.Full ∧
    (decode ci.insn).accumulation = some (.mac, .rB) ∧ c.execute .mac ci = .ok d ∧
    mac.exact c.macValue (c.gpr (rA ci.insn)) (Second.rB.value c ci.insn) = 2 ^ 31 ∧
    test d.status SR.OV = true := by
  have he := execute_eq (c := full) full_accumulate accumulation_accumulate
    (x := 0#32) (y := 0#32) rfl rfl
  have hv : mac.exact full.macValue 0#32 0#32 = 2 ^ 31 := by decide
  rw [hv, overflow_off (by decide) (by decide)] at he
  exact ⟨full, _, accumulate, full_accumulate, accumulation_accumulate, he, hv, by decide⟩

end

end Mac

end Or1kiss
