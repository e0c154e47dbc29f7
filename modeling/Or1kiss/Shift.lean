import Or1kiss.Lib.Rotate
import Or1kiss.Operands

/-!
# Shifts and rotations

`l.sll`, `l.srl`, `l.sra` and `l.ror`, with a register or an immediate as the amount, against
the operations on words that they stand for. `l.ror` puts a rotation together from two shifts
of which the second one is a place short: it rotates what `Constant` admits.
-/

namespace Or1kiss

open Host Bits Outcome

variable {σ : Type}

/-- What the shift instructions stand for. -/
inductive Shift where
  | sll | srl | sra | ror
  deriving DecidableEq, Repr

namespace Shift

def apply : Shift → U32 → Nat → U32
  | .sll, a, n => a <<< n
  | .srl, a, n => a >>> n
  | .sra, a, n => a.sshiftRight n
  | .ror, a, n => a.rotateRight n

def exec : Shift → CoreExec
  | .sll => .sll
  | .srl => .srl
  | .sra => .sra
  | .ror => .ror

/-- What the executor computes. -/
def computed : Shift → U32 → Nat → U32
  | .sll, a, n => a <<< n
  | .srl, a, n => a >>> n
  | .sra, a, n => signExtend32 (a >>> n) (31 - n)
  | .ror, a, n => (a >>> n) ||| (a <<< (31 - n))

end Shift

/-- The shift an opcode stands for, and where it takes the amount from. -/
def Opcode.shift : Opcode → Option (Shift × Second)
  | .orbis32Sll => some (.sll, .rB)
  | .orbis32Srl => some (.srl, .rB)
  | .orbis32Sra => some (.sra, .rB)
  | .orbis32Ror => some (.ror, .rB)
  | .orbis32Slli => some (.sll, .imm fieldL)
  | .orbis32Srli => some (.srl, .imm fieldL)
  | .orbis32Srai => some (.sra, .imm fieldL)
  | .orbis32Rori => some (.ror, .imm fieldL)
  | _ => none

namespace Shift

variable {k : Shift} {b : Second} {ci : Instruction} {c : Core σ} {n : Nat}

theorem binds (hf : ci.Full) (hk : (decode ci.insn).shift = some (k, b)) :
    ci.Binds k.exec b ∧ ci.dest = fieldD ci.insn := by
  obtain ⟨-, handler, hh, -⟩ := id hf
  generalize ho : decode ci.insn = op at hk hh
  cases op <;> cases hk
  · exact hf.regReg (by rw [ho]; rfl)
  · exact hf.regReg (by rw [ho]; rfl)
  · exact hf.regReg (by rw [ho]; rfl)
  · exact hf.regReg (by rw [ho]; rfl)
  · exact hf.regImm (by rw [ho]; rfl)
  · exact hf.regImm (by rw [ho]; rfl)
  · exact hf.regImm (by rw [ho]; rfl)
  · exact hf.regImm (by rw [ho]; rfl)

/-- The amount of a shift. -/
def amount (c : Core σ) (w : U32) (b : Second) : Nat := (b.value c w).toNat % 32

theorem shiftOf_eq (v : U32) : Core.shiftOf v = v.toNat % 32 := by
  unfold Core.shiftOf
  rw [BitVec.toNat_and]
  exact Nat.and_two_pow_sub_one_eq_mod v.toNat 5

theorem execute_eq [HostLib] (hf : ci.Full) (hk : (decode ci.insn).shift = some (k, b)) :
    c.execute k.exec ci =
      .ok (c.setGpr (rD ci.insn) (k.computed (c.gpr (rA ci.insn)) (amount c ci.insn b))) := by
  obtain ⟨hb, hd⟩ := binds hf hk
  unfold amount
  rw [← shiftOf_eq]
  cases k <;> exact Core.binary_eq hb hd _

/-- A logical shift to the right whose last bit is extended is the arithmetic one. -/
theorem signExtend32_ushiftRight (a : U32) (hn : n < 32) :
    signExtend32 (a >>> n) (31 - n) = a.sshiftRight n := by
  unfold signExtend32
  rw [show 31 - (31 - n) = n by omega]
  have hback : ∀ i, n + i < 32 → (a >>> n <<< n).getLsbD (n + i) = a.getLsbD (n + i) := by
    intro i hi
    rw [BitVec.getLsbD_shiftLeft, BitVec.getLsbD_ushiftRight, decide_eq_true hi,
      decide_eq_false (by omega), Nat.add_sub_cancel_left]
    rfl
  have hmsb : (a >>> n <<< n).msb = a.msb := by
    have h := hback (31 - n) (by omega)
    rw [Nat.add_sub_cancel' (by omega)] at h
    rw [BitVec.msb_eq_getLsbD_last, BitVec.msb_eq_getLsbD_last]
    exact h
  apply BitVec.eq_of_getLsbD_eq
  intro i hi
  rw [BitVec.getLsbD_sshiftRight, BitVec.getLsbD_sshiftRight, hmsb]
  split
  · rename_i h
    rw [hback i h]
  · rfl

theorem computed_eq_iff (a : U32) (hn : n < 32) :
    k.computed a n = k.apply a n ↔ (k = .ror → a.Constant n) := by
  cases k with
  | sll => exact iff_of_true rfl nofun
  | srl => exact iff_of_true rfl nofun
  | sra => exact iff_of_true (signExtend32_ushiftRight a hn) nofun
  | ror => exact (BitVec.short_eq_rotateRight_iff hn).trans (imp_iff_right rfl).symm

/-- The instructions compute the shifts they stand for, and rotations of words that are constant
where the bits cross the end. Such a rotation loses no bit, and another one behind it, whatever
happens between, adds its amount. -/
theorem computes_iff [HostLib] (hf : ci.Full) (hk : (decode ci.insn).shift = some (k, b)) :
    ∃ v, c.execute k.exec ci = .ok (c.setGpr (rD ci.insn) v) ∧
      (v = k.apply (c.gpr (rA ci.insn)) (amount c ci.insn b) ↔
        (k = .ror → (c.gpr (rA ci.insn)).Constant (amount c ci.insn b))) ∧
      (k = .ror → (c.gpr (rA ci.insn)).Constant (amount c ci.insn b) →
        v.rotateLeft (amount c ci.insn b) = c.gpr (rA ci.insn) ∧
        ∀ (d : Core σ) (cj : Instruction) (b' : Second), cj.Full →
          (decode cj.insn).shift = some (.ror, b') → d.gpr (rA cj.insn) = v →
          v.Constant (amount d cj.insn b') →
          d.execute .ror cj = .ok (d.setGpr (rD cj.insn) ((c.gpr (rA ci.insn)).rotateRight
            ((amount c ci.insn b + amount d cj.insn b') % 32)))) := by
  have hn : amount c ci.insn b < 32 := Nat.mod_lt _ (by decide)
  refine ⟨_, execute_eq hf hk, computed_eq_iff _ hn, ?_⟩
  rintro rfl hc
  have hv : ror.computed (c.gpr (rA ci.insn)) (amount c ci.insn b) =
      (c.gpr (rA ci.insn)).rotateRight (amount c ci.insn b) :=
    (computed_eq_iff _ hn).2 fun _ => hc
  rw [hv]
  refine ⟨BitVec.rotateLeft_rotateRight hn, ?_⟩
  intro d cj b' hj hkj hd hcj
  have hw : ror.computed (d.gpr (rA cj.insn)) (amount d cj.insn b') =
      (d.gpr (rA cj.insn)).rotateRight (amount d cj.insn b') := by
    rw [hd]
    exact (computed_eq_iff _ (Nat.mod_lt _ (by decide))).2 fun _ => hcj
  rw [show CoreExec.ror = ror.exec from rfl, execute_eq hj hkj, hw, hd,
    BitVec.rotateRight_rotateRight]

section

attribute [local instance] HostLib.plain

/-- `l.rori r4,r3,4` -/
abbrev rotate : Instruction := decodeOrbis32Rori 0xb88300c4#32 (.blank 0x100#32 0xb88300c4#32)

theorem decode_rotate : decode rotate.insn = .orbis32Rori := by decide

theorem full_rotate : rotate.Full :=
  Instruction.full_handler (congrArg decodeTable decode_rotate) _

theorem shift_rotate : (decode rotate.insn).shift = some (.ror, .imm fieldL) :=
  congrArg Opcode.shift decode_rotate

/-- Rotating `0x9234ffff` by 4 keeps all its bits, and so does rotating the result once more. -/
theorem computes_iff_rotate : ∃ v,
    ((Memory.boot []).cpu.toCore.setGpr 3 0x9234ffff#32).execute .ror rotate =
      .ok (((Memory.boot []).cpu.toCore.setGpr 3 0x9234ffff#32).setGpr (rD rotate.insn) v) ∧
    v = 0xf9234fff#32 ∧ v.rotateLeft 4 = 0x9234ffff#32 ∧
    ((Memory.boot []).cpu.toCore.setGpr 3 v).execute .ror rotate =
      .ok (((Memory.boot []).cpu.toCore.setGpr 3 v).setGpr (rD rotate.insn) 0xff9234ff#32) := by
  have hfield : (fieldL rotate.insn).toNat % 32 = 4 := by decide
  have hamount : ∀ c : Core Memory, amount c rotate.insn (.imm fieldL) = 4 := fun _ => hfield
  have hvalue : ((Memory.boot []).cpu.toCore.setGpr 3 0x9234ffff#32).gpr (rA rotate.insn) =
      0x9234ffff#32 := by decide
  obtain ⟨v, he, hv, hb⟩ := computes_iff (c := (Memory.boot []).cpu.toCore.setGpr 3 0x9234ffff#32)
    full_rotate shift_rotate
  rw [hamount, hvalue] at hv hb
  obtain rfl : v = 0xf9234fff#32 := (hv.2 fun _ => by decide).trans (by decide)
  obtain ⟨hback, hnext⟩ := hb rfl (by decide)
  have h := hnext ((Memory.boot []).cpu.toCore.setGpr 3 0xf9234fff#32) rotate (.imm fieldL)
    full_rotate shift_rotate (by decide) (by rw [hamount]; decide)
  have hsum : (0x9234ffff#32).rotateRight ((4 + 4) % 32) = 0xff9234ff#32 := by decide
  rw [hamount, hsum] at h
  exact ⟨_, he, rfl, hback, h⟩

/-- Rotating 1 by 4 leaves `0x08000000`. -/
theorem computes_iff_fails : ∃ (c : Core Memory) (ci : Instruction), ci.Full ∧
    (decode ci.insn).shift = some (.ror, .imm fieldL) ∧ c.gpr (rA ci.insn) = 1#32 ∧
    amount c ci.insn (.imm fieldL) = 4 ∧
    c.execute .ror ci = .ok (c.setGpr (rD ci.insn) 0x08000000#32) ∧
    Shift.ror.apply 1#32 4 = 0x10000000#32 := by
  have hv : Shift.ror.computed 1#32 4 = 0x08000000#32 := by decide
  refine ⟨(Memory.boot []).cpu.toCore.setGpr 3 1#32, rotate, full_rotate, shift_rotate, by decide,
    by decide, ?_, by decide⟩
  rw [← hv]
  exact execute_eq full_rotate shift_rotate

end

end Shift

end Or1kiss
