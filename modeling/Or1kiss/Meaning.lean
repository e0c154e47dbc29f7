import Or1kiss.Isa
import Or1kiss.Frame

/-!
# Executors and the instruction set

What a program sees of the simulator's state is its `view`; the rest that an executor could disturb
is `rest`. An executor *acts* if it leaves the view that the instruction set says, the jump that it
says, and the rest alone. With the range exception off, every executor of a register instruction
acts as the kind of its opcode (`core_acts`).
-/

namespace Or1kiss

open Host Bits Outcome Isa

variable {σ : Type}

namespace Core

/-- What a program sees. -/
def view (c : Core σ) : Data :=
  { gpr := c.gpr, flag := test c.status SR.F, carry := test c.status SR.CY,
    overflow := test c.status SR.OV, acc := c.macValue, mem := c.env.world.mem }

/-- The bits of SR that switch interrupts, translation and the range exception. -/
abbrev switches : U32 := SR.IEE ||| SR.TEE ||| SR.DME ||| SR.IME ||| SR.OVE

/-- The port, without what is behind it. -/
def port (c : Core σ) : Env σ :=
  { c.env with world := { c.env.world with mem := fun _ => 0#8 } }

/-- Control, the switches, the port, the kind of a data request, and the exceptions so far. -/
def rest (c : Core σ) :
    (U32 × Nat × Nat × U32) × U32 × Env σ × Bool × Bool × Endian × List ExType :=
  ((c.nextPc, c.instructions, c.jumpInsn, c.jumpTarget), c.status &&& switches, c.port,
    c.dreq.imem, c.dreq.debug, c.dreq.endian, c.taken)

/-- The core with a jump pending behind the next instruction. -/
def jumping (c : Core σ) : Option U32 → Core σ
  | none => c
  | some t => c.setJump t (c.instructions + 1)

/-- An executor left the view `v` and a jump to `t`. -/
structure Acts (c d : Core σ) (v : Data) (t : Option U32) : Prop where
  view : d.view = v
  rest : d.rest = (c.jumping t).rest

variable {c d : Core σ} {v : Data} {ae : U32}

/-! ## Updates -/

theorem rest_setGpr (i : Fin 32) (x : U32) : (c.setGpr i x).rest = c.rest := rfl

theorem view_setMac (x : U64) : (c.setMac x).view = { c.view with acc := x } := by
  unfold view
  rw [macValue_setMac]
  rfl

theorem rest_setMac (x : U64) : (c.setMac x).rest = c.rest := rfl

/-- Writing a status bit decides that bit and keeps the others. -/
theorem test_putFlag {f g : U32} (hd : f &&& g = 0#32) (b : Bool) :
    test (c.putFlag f b).status g = test c.status g := by
  unfold putFlag
  split
  · exact test_congr BitVec.and_self (or_and_of_disjoint hd)
  · exact test_congr BitVec.and_self (and_not_and_of_disjoint hd)

theorem test_putFlag_self {f : U32} (hf : f ≠ 0#32) (b : Bool) :
    test (c.putFlag f b).status f = b := by
  unfold putFlag
  cases b
  · exact test_and_not_self _ _
  · exact test_or_self hf

theorem macValue_putFlag (f : U32) (b : Bool) : (c.putFlag f b).macValue = c.macValue := by
  unfold putFlag
  split <;> rfl

theorem rest_putFlag {f : U32} (hf : f &&& switches = 0#32) (b : Bool) :
    (c.putFlag f b).rest = c.rest := by
  have hs : (c.putFlag f b).status &&& switches = c.status &&& switches := by
    unfold putFlag
    split
    · exact or_and_of_disjoint hf
    · exact and_not_and_of_disjoint hf
  unfold rest
  rw [hs]
  unfold putFlag
  split <;> rfl

theorem putFlag_gpr (f : U32) (b : Bool) : (c.putFlag f b).gpr = c.gpr := by
  unfold putFlag
  split <;> rfl

theorem putFlag_env (f : U32) (b : Bool) : (c.putFlag f b).env = c.env := by
  unfold putFlag
  split <;> rfl

theorem view_putFlag_flag (b : Bool) : (c.putFlag SR.F b).view = { c.view with flag := b } := by
  unfold view
  rw [test_putFlag_self (by decide), test_putFlag (by decide), test_putFlag (by decide),
    macValue_putFlag, putFlag_gpr, putFlag_env]

theorem view_putFlag_carry (b : Bool) : (c.putFlag SR.CY b).view = { c.view with carry := b } := by
  unfold view
  rw [test_putFlag_self (by decide), test_putFlag (by decide), test_putFlag (by decide),
    macValue_putFlag, putFlag_gpr, putFlag_env]

theorem view_putFlag_overflow (b : Bool) :
    (c.putFlag SR.OV b).view = { c.view with overflow := b } := by
  unfold view
  rw [test_putFlag_self (by decide), test_putFlag (by decide), test_putFlag (by decide),
    macValue_putFlag, putFlag_gpr, putFlag_env]

/-! ## The range exception is off -/

/-- SR[OVE] is clear. -/
def Unranged (c : Core σ) : Prop := test c.status SR.OVE = false

theorem Unranged.of_rest (h : c.Unranged) (hr : d.rest = c.rest) : d.Unranged :=
  (test_congr (k := switches) (by decide) (congrArg (fun x => x.2.1) hr)).trans h

theorem Unranged.enabled (h : c.Unranged) (ae : U32) : c.rangeEnabled ae = false := by
  rw [rangeEnabled, show test c.status SR.OVE = false from h, Bool.false_and]

/-- Clearing a flag and setting it on an overflow writes it. -/
theorem cleared_overflow {f : U32} (hf : f &&& switches = 0#32) (h : c.Unranged) (o : Bool) :
    (c.clearFlag f).overflow o f ae = .ok (c.putFlag f o) := by
  have hoff : ((c.clearFlag f).rangeEnabled ae) = false :=
    (h.of_rest (rest_putFlag (b := false) hf)).enabled ae
  have hove : f &&& SR.OVE = 0#32 := by
    rw [show SR.OVE = switches &&& SR.OVE by decide, ← BitVec.and_assoc, hf, BitVec.zero_and]
  rw [overflow_off hove hoff]
  cases o
  · rfl
  · show Outcome.ok ((c.clearFlag f).setFlag f) = .ok (c.setFlag f)
    have hs : (c.status &&& ~~~f) ||| f = c.status ||| f := by
      ext i hi
      simp only [BitVec.getElem_or, BitVec.getElem_and, BitVec.getElem_not]
      cases c.status[i] <;> cases f[i] <;> rfl
    unfold setFlag clearFlag
    dsimp only
    rw [hs]

end Core

/-! ## Arithmetic -/

section Arithmetic

open Or1kiss.Core

theorem sum_toNat (a b : U32) {n : Nat} (hn : n ≤ 1) :
    (BitVec.ofNat 32 (a.toNat + b.toNat + n)).toNat =
      if 2 ^ 32 ≤ a.toNat + b.toNat + n then a.toNat + b.toNat + n - 2 ^ 32
      else a.toNat + b.toNat + n := by
  have ha := a.isLt
  have hb := b.isLt
  rw [BitVec.toNat_ofNat]
  split <;> omega

/-- A sum below its first operand has a carry, unless all ones and a carry have been added. -/
theorem sum_carries (a b : U32) {n : Nat} (hn : n ≤ 1) (h : ¬(n = 1 ∧ b = 0xffffffff#32)) :
    decide (BitVec.ofNat 32 (a.toNat + b.toNat + n) < a) = decide (2 ^ 32 ≤ a.toNat + b.toNat + n) := by
  have ha := a.isLt
  have hb := b.isLt
  have hne : n = 1 → b.toNat ≠ 2 ^ 32 - 1 := fun h1 h2 => h ⟨h1, BitVec.eq_of_toNat_eq h2⟩
  have hr := sum_toNat a b hn
  rw [decide_eq_decide, BitVec.lt_def, hr]
  split <;> omega

theorem neg_eq (a : U32) : Core.neg a = decide (2 ^ 31 ≤ a.toNat) := by
  unfold Core.neg
  rw [Bool.eq_iff_iff, BitVec.slt_iff_toInt_lt, decide_eq_true_eq, BitVec.toInt_zero, BitVec.toInt_eq_toNat_cond]
  have ha := a.isLt
  split <;> omega

theorem toInt_eq (a : U32) : a.toInt =
    if 2 ^ 31 ≤ a.toNat then (a.toNat : Int) - (2 : Int) ^ 32 else (a.toNat : Int) := by
  rw [BitVec.toInt_eq_toNat_cond]
  push_cast
  split <;> split <;> omega

theorem addOverflows_eq (a b : U32) {n : Nat} (hn : n ≤ 1) :
    addOverflows a b (BitVec.ofNat 32 (a.toNat + b.toNat + n)) =
      !fitsWord (a.toInt + b.toInt + n) := by
  have ha := a.isLt
  have hb := b.isLt
  have hr := sum_toNat a b hn
  unfold addOverflows fitsWord
  rw [neg_eq, neg_eq, neg_eq, hr, toInt_eq a, toInt_eq b, Bool.eq_iff_iff]
  simp only [Bool.or_eq_true, Bool.and_eq_true, Bool.not_eq_true', decide_eq_true_eq,
    decide_eq_false_iff_not]
  split_ifs <;> omega

theorem sub_eq_ofInt (a b : U32) : a - b = BitVec.ofInt 32 (a.toInt - b.toInt) := by
  rw [Int.sub_eq_add_neg, BitVec.ofInt_add, BitVec.ofInt_neg, BitVec.ofInt_toInt, BitVec.ofInt_toInt,
    BitVec.sub_eq_add_neg]

theorem subOverflows_eq (a b : U32) : subOverflows a b (a - b) = !fitsWord (a.toInt - b.toInt) := by
  have ha := a.isLt
  have hb := b.isLt
  have hr : (a - b).toNat = if a.toNat < b.toNat then a.toNat + 2 ^ 32 - b.toNat
      else a.toNat - b.toNat := by
    rw [BitVec.toNat_sub]
    split <;> omega
  unfold subOverflows fitsWord
  rw [neg_eq, neg_eq, neg_eq, hr, toInt_eq a, toInt_eq b, Bool.eq_iff_iff]
  simp only [Bool.or_eq_true, Bool.and_eq_true, Bool.not_eq_true', decide_eq_true_eq,
    decide_eq_false_iff_not]
  split_ifs <;> omega

theorem exceedsS32_eq (x : Int) : exceedsS32 x = !fitsWord x := by
  unfold fitsWord
  rw [Bool.eq_iff_iff, Mac.exceedsS32_iff, Bool.not_eq_true', decide_eq_false_iff_not]

/-- The signed quotient, where a word holds it. -/
theorem sdiv_eq {a b : U32} (hb : b ≠ 0#32) (hf : fitsWord (a.toInt.tdiv b.toInt) = true) :
    ¬(a = 0x80000000#32 ∧ b = 0xffffffff#32) ∧
      a.sdiv b = BitVec.ofInt 32 (a.toInt.tdiv b.toInt) := by
  constructor
  · rintro ⟨rfl, rfl⟩
    revert hf
    decide
  · apply BitVec.eq_of_toInt_eq
    rw [BitVec.toInt_sdiv, BitVec.toInt_ofInt]

theorem ofNat_div (a b : U32) : BitVec.ofNat 32 (a.toNat / b.toNat) = a / b := by
  apply BitVec.eq_of_toNat_eq
  have ha := a.isLt
  have hq := Nat.div_le_self a.toNat b.toNat
  rw [BitVec.toNat_ofNat, BitVec.toNat_udiv, Nat.mod_eq_of_lt (Nat.lt_of_le_of_lt hq ha)]

theorem extend_true {n : Nat} (hn : n < 32) (v : U32) : extend true n v = signExtend32 v n := by
  rw [extend, if_pos rfl, ← signExtend32_setWidth hn]
  unfold signExtend32
  congr 1
  ext i hi
  simp only [BitVec.getElem_shiftLeft, BitVec.getElem_setWidth, BitVec.getLsbD_setWidth]
  have h1 : i - (31 - n) < n + 1 := by omega
  have h2 : i - (31 - n) < 32 := by omega
  rw [decide_eq_true h1, BitVec.getLsbD_eq_getElem h2, Bool.true_and]

theorem extend_false_15 (v : U32) : extend false 15 v = v &&& 0xffff#32 := by
  apply BitVec.eq_of_toNat_eq
  rw [extend, if_neg Bool.false_ne_true, BitVec.toNat_setWidth_of_le (by decide), BitVec.toNat_setWidth, BitVec.toNat_and]
  exact (Nat.and_two_pow_sub_one_eq_mod v.toNat 16).symm

theorem extend_false_7 (v : U32) : extend false 7 v = v &&& 0xff#32 := by
  apply BitVec.eq_of_toNat_eq
  rw [extend, if_neg Bool.false_ne_true, BitVec.toNat_setWidth_of_le (by decide), BitVec.toNat_setWidth, BitVec.toNat_and]
  exact (Nat.and_two_pow_sub_one_eq_mod v.toNat 8).symm

theorem extend_word (signed : Bool) (v : U32) : extend signed 31 v = v := by
  unfold extend
  split
  · rw [BitVec.setWidth_eq, BitVec.signExtend_eq]
  · rw [BitVec.setWidth_eq]
    exact BitVec.setWidth_eq v

end Arithmetic

/-! ## Operands -/

namespace Operand

/-- It designates a word. -/
def Valid : Operand → Prop
  | .reg i => i < 32
  | .imm => True
  | .null => False

/-- It designates a register. -/
def IsReg : Operand → Prop
  | .reg i => i < 32
  | _ => False

theorem isReg_ofField (r : BitVec 5) : (Operand.ofField r).IsReg := r.isLt

theorem IsReg.valid {op : Operand} (h : op.IsReg) : op.Valid := by
  cases op with
  | reg i => exact h
  | imm | null => exact h.elim

end Operand

namespace Core

variable {c d : Core σ} {v : Data} {ae : U32} {ops : Operands} {ci : Instruction}

theorem deref_read (hi : ci.imm = ops.imm) {op : Operand} (h : op.Valid) :
    c.deref ci op = .ok (c.view.read ops op) := by
  cases op with
  | null => exact h.elim
  | imm => exact congrArg Outcome.ok hi
  | reg i =>
    have hf : (⟨i, h⟩ : Fin 32) = Fin.ofNat 32 i := Fin.ext (Nat.mod_eq_of_lt h).symm
    unfold deref
    dsimp only
    rw [dif_pos (show i < 32 from h), hf]
    rfl

theorem assign_write {op : Operand} (h : op.IsReg) (x : U32) :
    ∃ i, c.assign op x = .ok (c.setGpr i x) ∧ c.view.write op x = (c.setGpr i x).view := by
  cases op with
  | null | imm => exact h.elim
  | reg i =>
    have hf : (⟨i, h⟩ : Fin 32) = Fin.ofNat 32 i := Fin.ext (Nat.mod_eq_of_lt h).symm
    refine ⟨⟨i, h⟩, dif_pos h, ?_⟩
    rw [hf]
    rfl

/-! ## Shapes -/

theorem Acts.same (hv : d.view = v) (hr : d.rest = c.rest) : c.Acts d v none := ⟨hv, hr⟩

section Shapes

variable (hci : ci.operands = ops)

include hci

theorem first_read (h : ops.src1.Valid) :
    c.deref ci ci.src1 = .ok (c.view.read ops ops.src1) := by
  rw [show ci.src1 = ops.src1 from congrArg Operands.src1 hci]
  exact deref_read (congrArg Operands.imm hci) h

theorem second_read (h : ops.src2.Valid) :
    c.deref ci ci.src2 = .ok (c.view.read ops ops.src2) := by
  rw [show ci.src2 = ops.src2 from congrArg Operands.src2 hci]
  exact deref_read (congrArg Operands.imm hci) h

theorem dest_write (h : ops.dest.IsReg) (x : U32) :
    ∃ i, c.assign ci.dest x = .ok (c.setGpr i x) ∧
      c.view.write ops.dest x = (c.setGpr i x).view := by
  rw [show ci.dest = ops.dest from congrArg Operands.dest hci]
  exact assign_write h x

theorem unary_acts (h1 : ops.src1.Valid) (hd : ops.dest.IsReg) (f : U32 → U32) :
    ∃ d, unary f ci c = .ok d ∧
      c.Acts d (c.view.write ops.dest (f (c.view.read ops ops.src1))) none := by
  obtain ⟨i, ha, hw⟩ := dest_write (c := c) hci hd (f (c.view.read ops ops.src1))
  refine ⟨_, ?_, .same hw.symm (rest_setGpr _ _)⟩
  unfold unary
  rw [first_read hci h1, ok_bind, ha]

theorem binary_acts (h1 : ops.src1.Valid) (h2 : ops.src2.Valid) (hd : ops.dest.IsReg)
    (f : U32 → U32 → U32) : ∃ d, binary f ci c = .ok d ∧ c.Acts d
      (c.view.write ops.dest (f (c.view.read ops ops.src1) (c.view.read ops ops.src2))) none := by
  obtain ⟨i, ha, hw⟩ := dest_write (c := c) hci hd
    (f (c.view.read ops ops.src1) (c.view.read ops ops.src2))
  refine ⟨_, ?_, .same hw.symm (rest_setGpr _ _)⟩
  unfold binary
  rw [first_read hci h1, ok_bind, second_read hci h2, ok_bind, ha]

theorem compare_acts (h1 : ops.src1.Valid) (h2 : ops.src2.Valid) (p : U32 → U32 → Bool) :
    ∃ d, compare p ci c = .ok d ∧ c.Acts d { c.view with
      flag := p (c.view.read ops ops.src1) (c.view.read ops ops.src2) } none := by
  refine ⟨_, ?_, .same (view_putFlag_flag _) (rest_putFlag (by decide) _)⟩
  unfold compare
  rw [first_read hci h1, ok_bind, second_read hci h2, ok_bind]
  rfl

end Shapes

/-! ## Flags -/

theorem flagged_eq_flags (i : Fin 32) (r : U32) (cy ov : Bool) :
    (c.flagged i r cy ov).view =
      { (c.setGpr i r).view with carry := cy, overflow := ov } ∧
    (c.flagged i r cy ov).rest = c.rest := by
  have hcy : SR.CY &&& switches = 0#32 := by decide
  have hov : SR.OV &&& switches = 0#32 := by decide
  have hclear : ((c.setGpr i r).putFlag SR.CY false).putFlag SR.OV false =
      ((c.setGpr i r).clearFlag SR.CY).clearFlag SR.OV := rfl
  have hset : ∀ (x : Core σ) (f : U32), x.setFlag f = x.putFlag f true := fun _ _ => rfl
  unfold flagged
  dsimp only
  rw [← hclear]
  cases cy <;> cases ov <;>
    simp only [if_true, if_false, Bool.false_eq_true, hset, view_putFlag_carry,
      view_putFlag_overflow, rest_putFlag hcy, rest_putFlag hov, rest_setGpr, and_self]

theorem Unranged.rangeOff (h : c.Unranged) : c.RangeOff := ⟨h.enabled _, h.enabled _⟩

section Flags

variable (hci : ci.operands = ops) (h : c.Unranged)

include hci h

theorem add_acts (h1 : ops.src1.Valid) (h2 : ops.src2.Valid) (hd : ops.dest.IsReg) {room : Nat}
    {t : Option U32} (ha : Kind.act (.add false) room c.nextPc ops c.view = some (v, t)) :
    ∃ d, c.executeOrbis32Add ci = .ok d ∧ c.Acts d v t := by
  cases ha
  obtain ⟨i, hi, hw⟩ := dest_write (c := c) hci hd
    (BitVec.ofNat 32 ((c.view.read ops ops.src1).toNat + (c.view.read ops ops.src2).toNat + 0))
  obtain ⟨hv, hr⟩ := c.flagged_eq_flags i
    (BitVec.ofNat 32 ((c.view.read ops ops.src1).toNat + (c.view.read ops ops.src2).toNat + 0))
    (decide (2 ^ 32 ≤ (c.view.read ops ops.src1).toNat + (c.view.read ops ops.src2).toNat + 0))
    (!fitsWord ((c.view.read ops ops.src1).toInt + (c.view.read ops ops.src2).toInt + (0 : Nat)))
  refine ⟨_, ?_, hv.trans (by rw [← hw]; rfl), hr⟩
  have hsum : c.view.read ops ops.src1 + c.view.read ops ops.src2 =
      BitVec.ofNat 32 ((c.view.read ops ops.src1).toNat + (c.view.read ops ops.src2).toNat + 0) := by
    rw [Nat.add_zero, BitVec.ofNat_add, BitVec.ofNat_toNat, BitVec.ofNat_toNat, BitVec.setWidth_eq,
      BitVec.setWidth_eq]
  unfold executeOrbis32Add
  rw [first_read hci h1, ok_bind, second_read hci h2, ok_bind]
  dsimp only
  rw [hsum, hi, ok_bind, ← flagged_eq h.rangeOff, addOverflows_eq _ _ (Nat.zero_le 1),
    ← sum_carries _ _ (Nat.zero_le 1) (fun h => by cases h.1)]
  simp only [decide_eq_true_eq]

theorem addc_acts (h1 : ops.src1.Valid) (h2 : ops.src2.Valid) (hd : ops.dest.IsReg) {room : Nat}
    {t : Option U32} (ha : Kind.act (.add true) room c.nextPc ops c.view = some (v, t))
    (hs : Kind.Sound (.add true) ops c.view) :
    ∃ d, c.executeOrbis32Addc ci = .ok d ∧ c.Acts d v t := by
  cases ha
  have hn : c.view.carry.toNat ≤ 1 := Bool.toNat_le c.view.carry
  have hne : ¬(c.view.carry.toNat = 1 ∧ c.view.read ops ops.src2 = 0xffffffff#32) := fun ⟨hc, hb⟩ =>
    hs ⟨rfl, Bool.toNat_eq_one.1 hc, hb⟩
  generalize hr : BitVec.ofNat 32 ((c.view.read ops ops.src1).toNat +
    (c.view.read ops ops.src2).toNat + c.view.carry.toNat) = r at *
  obtain ⟨i, hi, hw⟩ := dest_write (c := c) hci hd r
  obtain ⟨hv, hrest⟩ := c.flagged_eq_flags i r
    (decide (2 ^ 32 ≤ (c.view.read ops ops.src1).toNat + (c.view.read ops ops.src2).toNat +
      c.view.carry.toNat))
    (!fitsWord ((c.view.read ops ops.src1).toInt + (c.view.read ops ops.src2).toInt +
      c.view.carry.toNat))
  refine ⟨_, ?_, hv.trans (by rw [← hw]; subst hr; rfl), hrest⟩
  have hsum : c.addcResult (c.view.read ops ops.src1) (c.view.read ops ops.src2) = r := by
    rw [← hr, BitVec.ofNat_add, BitVec.ofNat_add, BitVec.ofNat_toNat, BitVec.ofNat_toNat,
      BitVec.setWidth_eq, BitVec.setWidth_eq]
    unfold addcResult
    show (if c.view.carry then _ else _) = _
    cases c.view.carry
    · exact (BitVec.add_zero _).symm
    · rfl
  unfold executeOrbis32Addc
  rw [first_read hci h1, ok_bind, second_read hci h2, ok_bind]
  dsimp only
  rw [hsum, hi, ok_bind, carryOverflow_off h.rangeOff, ← hr, addOverflows_eq _ _ hn,
    ← sum_carries _ _ hn hne]

theorem sub_acts (h1 : ops.src1.Valid) (h2 : ops.src2.Valid) (hd : ops.dest.IsReg) {room : Nat}
    {t : Option U32} (ha : Kind.act .subtract room c.nextPc ops c.view = some (v, t)) :
    ∃ d, c.executeOrbis32Sub ci = .ok d ∧ c.Acts d v t := by
  cases ha
  obtain ⟨i, hi, hw⟩ := dest_write (c := c) hci hd
    (BitVec.ofInt 32 ((c.view.read ops ops.src1).toInt - (c.view.read ops ops.src2).toInt))
  obtain ⟨hv, hr⟩ := c.flagged_eq_flags i
    (BitVec.ofInt 32 ((c.view.read ops ops.src1).toInt - (c.view.read ops ops.src2).toInt))
    (decide ((c.view.read ops ops.src1).toNat < (c.view.read ops ops.src2).toNat))
    (!fitsWord ((c.view.read ops ops.src1).toInt - (c.view.read ops ops.src2).toInt))
  refine ⟨_, ?_, hv.trans (by rw [← hw]), hr⟩
  unfold executeOrbis32Sub
  rw [first_read hci h1, ok_bind, second_read hci h2, ok_bind]
  dsimp only
  rw [subOverflows_eq, sub_eq_ofInt, hi, ok_bind, carryOverflow_off h.rangeOff]
  rfl

theorem mul_acts (h1 : ops.src1.Valid) (h2 : ops.src2.Valid) (hd : ops.dest.IsReg) {room : Nat}
    {t : Option U32} (ha : Kind.act (.multiply true) room c.nextPc ops c.view = some (v, t)) :
    ∃ d, c.executeOrbis32Mul ci = .ok d ∧ c.Acts d v t := by
  cases ha
  obtain ⟨i, hi, hw⟩ := dest_write (c := c) hci hd
    (BitVec.ofInt 32 ((c.view.read ops ops.src1).toInt * (c.view.read ops ops.src2).toInt))
  refine ⟨_, ?_, .same ((view_putFlag_overflow _).trans (by rw [← hw]))
    ((rest_putFlag (by decide) _).trans (rest_setGpr i _))⟩
  unfold executeOrbis32Mul
  rw [first_read hci h1, ok_bind, second_read hci h2, ok_bind]
  dsimp only
  rw [hi, ok_bind, cleared_overflow (by decide) (h.of_rest (rest_setGpr i _)), exceedsS32_eq]

theorem mulu_acts (h1 : ops.src1.Valid) (h2 : ops.src2.Valid) (hd : ops.dest.IsReg) {room : Nat}
    {t : Option U32} (ha : Kind.act (.multiply false) room c.nextPc ops c.view = some (v, t)) :
    ∃ d, c.executeOrbis32Mulu ci = .ok d ∧ c.Acts d v t := by
  cases ha
  obtain ⟨i, hi, hw⟩ := dest_write (c := c) hci hd
    (BitVec.ofNat 32 ((c.view.read ops ops.src1).toNat * (c.view.read ops ops.src2).toNat))
  refine ⟨_, ?_, .same ((view_putFlag_carry _).trans (by rw [← hw]))
    ((rest_putFlag (by decide) _).trans (rest_setGpr i _))⟩
  unfold executeOrbis32Mulu
  rw [first_read hci h1, ok_bind, second_read hci h2, ok_bind]
  dsimp only
  rw [hi, ok_bind, cleared_overflow (by decide) (h.of_rest (rest_setGpr i _))]
  rfl

theorem macSigned_acts (h1 : ops.src1.Valid) (h2 : ops.src2.Valid) {f : U64 → U64 → U64} {r : U64}
    (hr : f c.view.acc (BitVec.ofInt 64 ((c.view.read ops ops.src1).toInt *
      (c.view.read ops ops.src2).toInt)) = r) {o : Bool} (ho : exceedsS32 r.toInt = o) :
    ∃ d, macSigned f ae ci c = .ok d ∧
      c.Acts d { c.view with acc := r, overflow := o } none := by
  refine ⟨_, ?_, .same ((view_putFlag_overflow _).trans (by rw [view_setMac]))
    ((rest_putFlag (by decide) _).trans (rest_setMac r))⟩
  unfold macSigned
  rw [first_read hci h1, ok_bind, second_read hci h2, ok_bind]
  dsimp only
  rw [show c.macValue = c.view.acc from rfl, hr, ho,
    cleared_overflow (by decide) (h.of_rest (rest_setMac r))]

theorem macUnsigned_acts (h1 : ops.src1.Valid) (h2 : ops.src2.Valid) {f : U64 → U64 → U64} {r : U64}
    (hr : f c.view.acc (BitVec.ofNat 64 ((c.view.read ops ops.src1).toNat *
      (c.view.read ops ops.src2).toNat)) = r) {o : Bool}
    (ho : decide (0xffffffff < r.toNat) = o) : ∃ d, macUnsigned f ae ci c = .ok d ∧
      c.Acts d { c.view with acc := r, carry := o } none := by
  refine ⟨_, ?_, .same ((view_putFlag_carry _).trans (by rw [view_setMac]))
    ((rest_putFlag (by decide) _).trans (rest_setMac r))⟩
  unfold macUnsigned
  rw [first_read hci h1, ok_bind, second_read hci h2, ok_bind]
  dsimp only
  rw [show c.macValue = c.view.acc from rfl, hr, ho,
    cleared_overflow (by decide) (h.of_rest (rest_setMac r))]

theorem muld_acts (h1 : ops.src1.Valid) (h2 : ops.src2.Valid) {room : Nat} {t : Option U32}
    (ha : Kind.act (.product true) room c.nextPc ops c.view = some (v, t)) :
    ∃ d, c.executeOrbis32Muld ci = .ok d ∧ c.Acts d v t := by
  cases ha
  have hle := BitVec.toInt_mul_toInt_le (x := c.view.read ops ops.src1)
    (y := c.view.read ops ops.src2)
  have hge := BitVec.le_toInt_mul_toInt (x := c.view.read ops ops.src1)
    (y := c.view.read ops ops.src2)
  refine macSigned_acts hci h h1 h2 rfl ?_
  rw [BitVec.toInt_ofInt, Int.bmod_eq_of_le (by omega) (by omega), exceedsS32_eq]

theorem muldu_acts (h1 : ops.src1.Valid) (h2 : ops.src2.Valid) {room : Nat} {t : Option U32}
    (ha : Kind.act (.product false) room c.nextPc ops c.view = some (v, t)) :
    ∃ d, c.executeOrbis32Muldu ci = .ok d ∧ c.Acts d v t := by
  cases ha
  have hle : (c.view.read ops ops.src1).toNat * (c.view.read ops ops.src2).toNat ≤
      (2 ^ 32 - 1) * (2 ^ 32 - 1) :=
    Nat.mul_le_mul (Nat.le_pred_of_lt (BitVec.isLt _)) (Nat.le_pred_of_lt (BitVec.isLt _))
  refine macUnsigned_acts hci h h1 h2 rfl ?_
  rw [BitVec.toNat_ofNat, Nat.mod_eq_of_lt (by omega), decide_eq_decide]
  omega

theorem div_acts (h1 : ops.src1.Valid) (h2 : ops.src2.Valid) (hd : ops.dest.IsReg) {room : Nat}
    {t : Option U32} (ha : Kind.act (.divide true) room c.nextPc ops c.view = some (v, t)) :
    ∃ d, c.executeOrbis32Div ci = .ok d ∧ c.Acts d v t := by
  unfold executeOrbis32Div
  rw [first_read hci h1, ok_bind, second_read hci h2, ok_bind]
  dsimp only [Kind.act] at ha
  split at ha
  · rename_i hb
    cases ha
    rw [if_pos hb]
    exact ⟨_, rangeException_off (((h.of_rest (rest_putFlag (by decide) true)).enabled _)),
      .same (view_putFlag_overflow true) (rest_putFlag (by decide) true)⟩
  · rename_i hb
    split at ha
    · rename_i hf
      cases ha
      obtain ⟨hn, hq⟩ := sdiv_eq hb hf
      obtain ⟨i, hi, hw⟩ := dest_write (c := c.putFlag SR.OV false) hci hd
        (BitVec.ofInt 32 ((c.view.read ops ops.src1).toInt.tdiv (c.view.read ops ops.src2).toInt))
      rw [if_neg hb, if_neg hn, hq]
      refine ⟨_, hi, .same ?_ ((rest_setGpr i _).trans (rest_putFlag (by decide) false))⟩
      rw [← hw, view_putFlag_overflow]
      cases ops.dest <;> rfl
    · cases ha

theorem divu_acts (h1 : ops.src1.Valid) (h2 : ops.src2.Valid) (hd : ops.dest.IsReg) {room : Nat}
    {t : Option U32} (ha : Kind.act (.divide false) room c.nextPc ops c.view = some (v, t)) :
    ∃ d, c.executeOrbis32Divu ci = .ok d ∧ c.Acts d v t := by
  unfold executeOrbis32Divu
  rw [first_read hci h1, ok_bind, second_read hci h2, ok_bind]
  dsimp only [Kind.act] at ha
  split at ha
  · rename_i hb
    cases ha
    rw [if_pos hb]
    exact ⟨_, rangeException_off (((h.of_rest (rest_putFlag (by decide) true)).enabled _)),
      .same (view_putFlag_carry true) (rest_putFlag (by decide) true)⟩
  · rename_i hb
    cases ha
    obtain ⟨i, hi, hw⟩ := dest_write (c := c.putFlag SR.CY false) hci hd
      (BitVec.ofNat 32 ((c.view.read ops ops.src1).toNat / (c.view.read ops ops.src2).toNat))
    rw [if_neg hb, ← ofNat_div]
    refine ⟨_, hi, .same ?_ ((rest_setGpr i _).trans (rest_putFlag (by decide) false))⟩
    rw [← hw, view_putFlag_carry]
    cases ops.dest <;> rfl

/-- A result that the flag tells is flagged where the accumulator cannot hold it. -/
theorem accumulate_acts {k : Mac} (h1 : ops.src1.Valid) (h2 : ops.src2.Valid) {room : Nat}
    {t : Option U32} [HostLib]
    (ha : Kind.act (.accumulate k) room c.nextPc ops c.view = some (v, t))
    (hs : Kind.Sound (.accumulate k) ops c.view) :
    ∃ d, c.execute k.exec ci = .ok d ∧ c.Acts d v t := by
  have hflag := (Mac.exceeds_iff (k := k) c.view.acc (c.view.read ops ops.src1)
    (c.view.read ops ops.src2)).2 hs
  have hb : ∀ {p : Prop} [Decidable p] {b : Bool}, (b = true ↔ p) → b = decide p := fun h => by
    rw [Bool.eq_iff_iff, decide_eq_true_eq]
    exact h
  cases k with
  | mac =>
    cases ha
    exact macSigned_acts hci h h1 h2 (Mac.add_ofInt _ _)
      (hb (p := ¬(-2 ^ 63 ≤ _ ∧ _ < 2 ^ 63)) hflag)
  | msb =>
    cases ha
    exact macSigned_acts hci h h1 h2 (Mac.sub_ofInt _ _)
      (hb (p := ¬(-2 ^ 63 ≤ _ ∧ _ < 2 ^ 63)) hflag)
  | macu =>
    cases ha
    refine macUnsigned_acts hci h h1 h2 ?_ (hb (p := ¬(0 ≤ _ ∧ _ < 2 ^ 64)) hflag)
    rw [Mac.add_ofNat, Int.natCast_mul]
    rfl
  | msbu =>
    cases ha
    refine macUnsigned_acts hci h h1 h2 ?_ (hb (p := ¬(0 ≤ _ ∧ _ < 2 ^ 64)) hflag)
    rw [Mac.sub_ofNat, Int.natCast_mul]
    rfl

end Flags

section Jumps

theorem isAligned_iff (a : U32) : isAligned a 4 = true ↔ a.toNat % 4 = 0 := by
  rw [isAligned_four, beq_iff_eq, ← BitVec.toNat_inj, BitVec.toNat_and]
  show a.toNat &&& 2 ^ 2 - 1 = 0 ↔ _
  rw [Nat.and_two_pow_sub_one_eq_mod]

/-- A jump to a word is pending behind the next instruction. -/
theorem scheduleJump_target {a t : U32} (h : target a = some t) :
    c.scheduleJump a branchDelay = .ok (c.jumping (some t)) := by
  unfold target at h
  split at h
  · rename_i ha
    cases h
    rw [scheduleJump_eq, if_pos ((isAligned_iff a).2 ha), branchDelay_eq]
    rfl
  · cases h

variable (hci : ci.operands = ops)

include hci

theorem shift_acts {k : Shift} (h1 : ops.src1.Valid) (h2 : ops.src2.Valid) (hd : ops.dest.IsReg)
    {room : Nat} {t : Option U32} [HostLib]
    (ha : Kind.act (.shift k) room c.nextPc ops c.view = some (v, t))
    (hs : Kind.Sound (.shift k) ops c.view) :
    ∃ d, c.execute k.exec ci = .ok d ∧ c.Acts d v t := by
  cases ha
  have hlt : (c.view.read ops ops.src2).toNat % 32 < 32 := Nat.mod_lt _ (by decide)
  rw [← (Shift.computed_eq_iff (c.view.read ops ops.src1) hlt).2 hs, ← Shift.shiftOf_eq]
  cases k with
  | sll => exact binary_acts hci h1 h2 hd fun a b => a <<< shiftOf b
  | srl => exact binary_acts hci h1 h2 hd fun a b => a >>> shiftOf b
  | sra => exact binary_acts hci h1 h2 hd fun a b => signExtend32 (a >>> shiftOf b) (31 - shiftOf b)
  | ror => exact binary_acts hci h1 h2 hd fun a b => (a >>> shiftOf b) ||| (a <<< (31 - shiftOf b))

theorem movhi_acts (hd : ops.dest.IsReg) :
    ∃ d, c.executeOrbis32Movhi ci = .ok d ∧ c.Acts d (c.view.write ops.dest ops.imm) none := by
  obtain ⟨i, ha, hw⟩ := dest_write (c := c) hci hd ops.imm
  refine ⟨_, ?_, .same hw.symm (rest_setGpr _ _)⟩
  unfold executeOrbis32Movhi
  rw [show ci.imm = ops.imm from congrArg Operands.imm hci, ha]

theorem macrc_acts (hd : ops.dest.IsReg) : ∃ d, c.executeOrbis32Macrc ci = .ok d ∧
    c.Acts d { c.view.write ops.dest (c.view.acc.setWidth 32) with acc := 0#64 } none := by
  obtain ⟨i, ha, hw⟩ := dest_write (c := c) hci hd c.mac.lo
  have hlo : c.view.acc.setWidth 32 = c.mac.lo := by
    show (c.mac.hi ++ c.mac.lo).setWidth 32 = c.mac.lo
    exact BitVec.setWidth_append_eq_right
  refine ⟨_, ?_, .same (d := { c.setGpr i c.mac.lo with mac := .zero }) ?_ rfl⟩
  · unfold executeOrbis32Macrc
    rw [ha]
    rfl
  · have hz : (0#32 ++ 0#32 : U64) = 0#64 := by decide
    rw [hlo, hw]
    exact congrArg (fun a => { (c.setGpr i c.mac.lo).view with acc := a }) hz

theorem link_acts (h1 : ops.src1 = .null ∨ ops.src1.IsReg) : ∃ d, c.link ci = .ok d ∧
    d.view = c.view.write ops.src1 (c.nextPc + 8#32) ∧ ∀ t, (d.jumping t).rest = (c.jumping t).rest := by
  have hs : ci.src1 = ops.src1 := congrArg Operands.src1 hci
  rcases h1 with h1 | h1
  · refine ⟨c, ?_, by rw [h1]; rfl, fun _ => rfl⟩
    unfold link
    rw [hs, h1]
  · obtain ⟨i, ha, hw⟩ := assign_write (c := c) h1
      (c.nextPc + BitVec.ofNat 32 ((branchDelay + 1) * 4))
    refine ⟨_, ?_, hw.symm, fun t => by cases t <;> rfl⟩
    rw [← ha]
    unfold link
    rw [hs]
    cases ho : ops.src1 with
    | null =>
      rw [ho] at h1
      exact h1.elim
    | reg i => rfl
    | imm => rfl

theorem jumpRel_acts (h1 : ops.src1 = .null ∨ ops.src1.IsReg) (h2 : ops.src2.Valid) {room : Nat}
    {t : Option U32} (ha : Kind.act (.jump true) room c.nextPc ops c.view = some (v, t)) :
    ∃ d, c.executeOrbis32JumpRel ci = .ok d ∧ c.Acts d v t := by
  obtain ⟨a, ht, heq⟩ := Option.map_eq_some_iff.1 ha
  cases heq
  obtain ⟨d, hd, hv, hr⟩ := link_acts (c := c) hci h1
  refine ⟨d.jumping (some a), ?_, hv, hr (some a)⟩
  rw [if_pos rfl, BitVec.add_comm] at ht
  unfold executeOrbis32JumpRel
  rw [second_read hci h2, ok_bind]
  dsimp only
  rw [hd, ok_bind, scheduleJump_target ht]

theorem jumpAbs_acts (h1 : ops.src1 = .null ∨ ops.src1.IsReg) (h2 : ops.src2.Valid) {room : Nat}
    {t : Option U32} (ha : Kind.act (.jump false) room c.nextPc ops c.view = some (v, t)) :
    ∃ d, c.executeOrbis32JumpAbs ci = .ok d ∧ c.Acts d v t := by
  obtain ⟨a, ht, heq⟩ := Option.map_eq_some_iff.1 ha
  cases heq
  obtain ⟨d, hd, hv, hr⟩ := link_acts (c := c) hci h1
  refine ⟨d.jumping (some a), ?_, hv, hr (some a)⟩
  rw [if_neg Bool.false_ne_true] at ht
  unfold executeOrbis32JumpAbs
  rw [second_read hci h2, ok_bind, hd, ok_bind, scheduleJump_target ht]

/-- A branch on the flag. -/
theorem branch_acts {on : Bool} {room : Nat} {t : Option U32}
    (ha : Kind.act (.branch on) room c.nextPc ops c.view = some (v, t)) :
    ∃ d, (if test c.status SR.F = on then c.scheduleJump (ci.imm + c.nextPc) branchDelay
      else .ok c) = .ok d ∧ c.Acts d v t := by
  dsimp only [Kind.act] at ha
  have hf : c.view.flag = test c.status SR.F := rfl
  rw [hf] at ha
  split at ha
  · rename_i h
    obtain ⟨a, ht, heq⟩ := Option.map_eq_some_iff.1 ha
    cases heq
    rw [show ops.imm = ci.imm from (congrArg Operands.imm hci).symm, BitVec.add_comm] at ht
    rw [if_pos h, scheduleJump_target ht]
    exact ⟨_, rfl, rfl, rfl⟩
  · rename_i h
    cases ha
    rw [if_neg h]
    exact ⟨c, rfl, rfl, rfl⟩

end Jumps

end Core

/-! ## Opcodes -/

/-- The executor that the handler of an opcode sets. -/
def Opcode.executor (op : Opcode) : Option Exec :=
  (decodeTable op).bind fun handler => (handler 0#32 (.blank 0#32 0#32)).exec

theorem exec_handler {op : Opcode} {handler : U32 → Instruction → Instruction}
    (h : decodeTable op = some handler) (addr w : U32) :
    (handler w (.blank addr w)).exec = op.executor := by
  cases op <;> cases h <;> rfl

namespace Core

section Opcodes

variable {c : Core σ} {v : Data} {ci : Instruction} {op : Opcode} {k : Kind} {fmt : Format}
  {f : Fields} {e : CoreExec} {room : Nat} {t : Option U32} [HostLib]

/-- The executor of a register instruction does what its kind says. -/
theorem core_acts (hk : op.kind = some k) (hf : op.format = some fmt)
    (he : op.executor = some (.core e)) (hci : ci.operands = fmt.operands f) (hr : c.Unranged)
    (ha : k.act room c.nextPc (fmt.operands f) c.view = some (v, t))
    (hs : k.Sound (fmt.operands f) c.view) : ∃ d, c.execute e ci = .ok d ∧ c.Acts d v t := by
  have reg := Operand.isReg_ofField
  have val := fun r => (reg r).valid
  cases op <;> cases hk <;> cases hf <;> cases he
  case orbis32Movhi =>
    cases ha
    exact movhi_acts hci (reg _)
  case orbis32J => exact jumpRel_acts hci (.inl rfl) trivial ha
  case orbis32Jal => exact jumpRel_acts hci (.inr (by decide : 9 < 32)) trivial ha
  case orbis32Jr => exact jumpAbs_acts hci (.inl rfl) (val _) ha
  case orbis32Jalr => exact jumpAbs_acts hci (.inr (by decide : 9 < 32)) (val _) ha
  case orbis32Bf => exact branch_acts hci ha
  case orbis32Bnf =>
    obtain ⟨d, hd, hacts⟩ := branch_acts hci ha
    refine ⟨d, ?_, hacts⟩
    rw [← hd]
    show (if (!test c.status SR.F) = true then _ else _) = _
    simp only [Bool.not_eq_true']
  case orbis32Extwz | orbis32Extws | orbis32Ff1 | orbis32Fl1 =>
    cases ha
    exact unary_acts hci (val _) (reg _) _
  case orbis32Exthz =>
    cases ha
    rw [extend_false_15]
    exact unary_acts hci (val _) (reg _) _
  case orbis32Exths =>
    cases ha
    rw [extend_true (by decide)]
    exact unary_acts hci (val _) (reg _) (signExtend32 · 15)
  case orbis32Extbz =>
    cases ha
    rw [extend_false_7]
    exact unary_acts hci (val _) (reg _) _
  case orbis32Extbs =>
    cases ha
    rw [extend_true (by decide)]
    exact unary_acts hci (val _) (reg _) (signExtend32 · 7)
  case orbis32Add => exact add_acts hci hr (val _) (val _) (reg _) ha
  case orbis32Addi => exact add_acts hci hr (val _) trivial (reg _) ha
  case orbis32Addc => exact addc_acts hci hr (val _) (val _) (reg _) ha hs
  case orbis32Addic => exact addc_acts hci hr (val _) trivial (reg _) ha hs
  case orbis32Sub => exact sub_acts hci hr (val _) (val _) (reg _) ha
  case orbis32And | orbis32Or | orbis32Xor =>
    cases ha
    exact binary_acts hci (val _) (val _) (reg _) _
  case orbis32Andi | orbis32Ori | orbis32Xori =>
    cases ha
    exact binary_acts hci (val _) trivial (reg _) _
  case orbis32Cmov =>
    cases ha
    exact binary_acts hci (val _) (val _) (reg _) fun a b => if test c.status SR.F then a else b
  case orbis32Sll | orbis32Srl | orbis32Sra | orbis32Ror =>
    exact shift_acts hci (val _) (val _) (reg _) ha hs
  case orbis32Slli | orbis32Srli | orbis32Srai | orbis32Rori =>
    exact shift_acts hci (val _) trivial (reg _) ha hs
  case orbis32Mul => exact mul_acts hci hr (val _) (val _) (reg _) ha
  case orbis32Muli => exact mul_acts hci hr (val _) trivial (reg _) ha
  case orbis32Mulu => exact mulu_acts hci hr (val _) (val _) (reg _) ha
  case orbis32Muld => exact muld_acts hci hr (val _) (val _) ha
  case orbis32Muldu => exact muldu_acts hci hr (val _) (val _) ha
  case orbis32Div => exact div_acts hci hr (val _) (val _) (reg _) ha
  case orbis32Divu => exact divu_acts hci hr (val _) (val _) (reg _) ha
  case orbis32Sfeq | orbis32Sfne | orbis32Sfgtu | orbis32Sfgeu | orbis32Sfltu | orbis32Sfleu |
      orbis32Sfgts | orbis32Sfges | orbis32Sflts | orbis32Sfles =>
    cases ha
    exact compare_acts hci (val _) (val _) _
  case orbis32Sfeqi | orbis32Sfnei | orbis32Sfgtui | orbis32Sfgeui | orbis32Sfltui |
      orbis32Sfleui | orbis32Sfgtsi | orbis32Sfgesi | orbis32Sfltsi | orbis32Sflesi =>
    cases ha
    exact compare_acts hci (val _) trivial _
  case orbis32Mac | orbis32Msb | orbis32Macu | orbis32Msbu =>
    exact accumulate_acts hci hr (val _) (val _) ha hs
  case orbis32Maci => exact accumulate_acts hci hr (val _) trivial ha hs
  case orbis32Macrc =>
    cases ha
    exact macrc_acts hci (reg _)
  case orbis32Msync | orbis32Psync | orbis32Csync =>
    cases ha
    exact ⟨c, rfl, rfl, rfl⟩

end Opcodes

end Core

end Or1kiss
