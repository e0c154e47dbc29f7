import Or1kiss.Decode

/-!
# Fields of an instruction word

An instruction word is an opcode, the three register fields and the low eleven bits
(`assemble`); immediates span several of them. `bits32` of such a word is the field, or the
fields, it covers, and the operand fields of the decoder are read off it.
-/

namespace Or1kiss

open Host Bits

/-! ## Bit ranges -/

theorem bits32_toNat (v : U32) {l r : Nat} (hl : l < 32) (hr : r ≤ l) :
    (bits32 v l r).toNat = v.toNat / 2 ^ r % 2 ^ (l + 1 - r) := by
  have hw : 2 ^ 32 = 2 ^ (l + 1) * 2 ^ (31 - l) := by rw [← Nat.pow_add]; congr 1; omega
  have hk : 2 ^ (l + 1) = 2 ^ r * 2 ^ (l + 1 - r) := by rw [← Nat.pow_add]; congr 1; omega
  unfold bits32
  rw [BitVec.toNat_ushiftRight, BitVec.toNat_shiftLeft, Nat.shiftLeft_eq,
    Nat.shiftRight_eq_div_pow, hw, Nat.mul_mod_mul_right, Nat.pow_add 2 (31 - l), ← Nat.div_div_eq_div_mul,
    Nat.mul_div_cancel _ (Nat.two_pow_pos _), hk, Nat.mod_mul_right_div_self]

/-- A range of bits is bounded by its width. -/
theorem bits32_lt (v : U32) {l r : Nat} (hl : l < 32) (hr : r ≤ l) :
    (bits32 v l r).toNat < 2 ^ (l + 1 - r) := by
  rw [bits32_toNat v hl hr]
  exact Nat.mod_lt _ (Nat.two_pow_pos _)

/-- Extending the sign of the low `k + 1` bits is the extension of their word. -/
theorem signExtend32_setWidth {k : Nat} (hk : k < 32) (x : BitVec (k + 1)) :
    signExtend32 (x.setWidth 32) k = x.signExtend 32 := by
  unfold signExtend32
  ext i hi
  simp only [BitVec.getElem_sshiftRight, BitVec.getElem_signExtend, BitVec.getElem_shiftLeft,
    BitVec.getElem_setWidth, BitVec.msb_eq_getLsbD_last]
  by_cases hik : i < k + 1
  · have h1 : 31 - k + i < 32 := by omega
    simp [hik, h1]
  · have h1 : ¬ 31 - k + i < 32 := by omega
    have h2 : 31 - (31 - k) = k := by omega
    simp [hik, h1, h2]

/-! ## Assembled words -/

/-- An instruction word: opcode, `rD`, `rA`, `rB`, and the bits below them. -/
def assemble (op : BitVec 6) (d a b : BitVec 5) (low : BitVec 11) : U32 := op ++ d ++ a ++ b ++ low

theorem assemble_toNat (op : BitVec 6) (d a b : BitVec 5) (low : BitVec 11) :
    (assemble op d a b low).toNat =
      (((op.toNat * 2 ^ 5 + d.toNat) * 2 ^ 5 + a.toNat) * 2 ^ 5 + b.toNat) * 2 ^ 11 + low.toNat := by
  unfold assemble
  simp only [append_toNat]

section Ranges

variable (op : BitVec 6) (d a b : BitVec 5) (low : BitVec 11)

/-- A range of an assembled word, by arithmetic on its fields. -/
theorem bits32_assemble {l r : Nat} {v : U32} (hl : l < 32) (hr : r ≤ l)
    (h : ((((op.toNat * 2 ^ 5 + d.toNat) * 2 ^ 5 + a.toNat) * 2 ^ 5 + b.toNat) * 2 ^ 11 +
      low.toNat) / 2 ^ r % 2 ^ (l + 1 - r) = v.toNat) :
    bits32 (assemble op d a b low) l r = v := by
  apply BitVec.eq_of_toNat_eq
  rw [bits32_toNat _ hl hr, assemble_toNat]
  exact h

/-- The bits of a range are those below its upper end. -/
theorem bits32_low {l : Nat} (hl : l < 11) (r : Nat) (hr : r ≤ l) :
    bits32 (assemble op d a b low) l r = bits32 (low.setWidth 32) l r := by
  have hd : 2 ^ r * 2 ^ (l + 1 - r) ∣ 2 ^ 11 := by
    rw [← Nat.pow_add]
    exact Nat.pow_dvd_pow 2 (by omega)
  apply bits32_assemble op d a b low (by omega) hr
  rw [bits32_toNat _ (by omega) hr, BitVec.toNat_setWidth_of_le (by decide),
    ← Nat.mod_mul_right_div_self, ← Nat.mod_mul_right_div_self, Nat.add_comm, Nat.mul_comm _ (2 ^ 11),
    ← Nat.mod_mod_of_dvd _ hd, Nat.add_mul_mod_self_left, Nat.mod_mod_of_dvd _ hd]

theorem bits32_opcode : bits32 (assemble op d a b low) 31 26 = op.setWidth 32 := by
  apply bits32_assemble op d a b low (by decide) (by decide)
  rw [BitVec.toNat_setWidth_of_le (by decide)]
  omega

theorem bits32_byte :
    bits32 (assemble op d a b low) 31 24 = (op ++ d.extractLsb' 3 2).setWidth 32 := by
  apply bits32_assemble op d a b low (by decide) (by decide)
  rw [BitVec.toNat_setWidth_of_le (by decide), append_toNat, BitVec.extractLsb'_toNat,
    Nat.shiftRight_eq_div_pow]
  omega

theorem bits32_compare : bits32 (assemble op d a b low) 31 21 = (op ++ d).setWidth 32 := by
  apply bits32_assemble op d a b low (by decide) (by decide)
  rw [BitVec.toNat_setWidth_of_le (by decide), append_toNat]
  omega

theorem bits32_half : bits32 (assemble op d a b low) 31 16 = (op ++ d ++ a).setWidth 32 := by
  apply bits32_assemble op d a b low (by decide) (by decide)
  rw [BitVec.toNat_setWidth_of_le (by decide), append_toNat, append_toNat]
  omega

theorem bits32_util : bits32 (assemble op d a b low) 16 0 =
    (a.extractLsb' 0 1 ++ b ++ low).setWidth 32 := by
  apply bits32_assemble op d a b low (by decide) (by decide)
  rw [BitVec.toNat_setWidth_of_le (by decide), append_toNat, append_toNat, BitVec.extractLsb'_toNat]
  omega

theorem bits32_bit16 : bits32 (assemble op d a b low) 16 16 = (a.extractLsb' 0 1).setWidth 32 := by
  apply bits32_assemble op d a b low (by decide) (by decide)
  rw [BitVec.toNat_setWidth_of_le (by decide), BitVec.extractLsb'_toNat]
  omega

theorem bits32_macrc : bits32 (assemble op d a b low) 25 17 =
    (d ++ a.extractLsb' 1 4).setWidth 32 := by
  apply bits32_assemble op d a b low (by decide) (by decide)
  rw [BitVec.toNat_setWidth_of_le (by decide), append_toNat, BitVec.extractLsb'_toNat]
  omega

theorem bits32_d : bits32 (assemble op d a b low) 25 21 = d.setWidth 32 := by
  apply bits32_assemble op d a b low (by decide) (by decide)
  rw [BitVec.toNat_setWidth_of_le (by decide)]
  omega

theorem bits32_a : bits32 (assemble op d a b low) 20 16 = a.setWidth 32 := by
  apply bits32_assemble op d a b low (by decide) (by decide)
  rw [BitVec.toNat_setWidth_of_le (by decide)]
  omega

theorem bits32_b : bits32 (assemble op d a b low) 15 11 = b.setWidth 32 := by
  apply bits32_assemble op d a b low (by decide) (by decide)
  rw [BitVec.toNat_setWidth_of_le (by decide)]
  omega

theorem bits32_imm : bits32 (assemble op d a b low) 15 0 = (b ++ low).setWidth 32 := by
  apply bits32_assemble op d a b low (by decide) (by decide)
  rw [BitVec.toNat_setWidth_of_le (by decide), append_toNat]
  omega

theorem bits32_jump : bits32 (assemble op d a b low) 25 0 = (d ++ a ++ b ++ low).setWidth 32 := by
  apply bits32_assemble op d a b low (by decide) (by decide)
  rw [BitVec.toNat_setWidth_of_le (by decide), append_toNat, append_toNat, append_toNat]
  omega

end Ranges

/-! ## Operand fields -/

section Operands

variable (op : BitVec 6) (d a b : BitVec 5) (low : BitVec 11)

theorem fieldD_assemble : fieldD (assemble op d a b low) = .reg d.toNat := by
  unfold fieldD
  rw [bits32_d, BitVec.toNat_setWidth_of_le (by decide)]

theorem fieldA_assemble : fieldA (assemble op d a b low) = .reg a.toNat := by
  unfold fieldA
  rw [bits32_a, BitVec.toNat_setWidth_of_le (by decide)]

theorem fieldB_assemble : fieldB (assemble op d a b low) = .reg b.toNat := by
  unfold fieldB
  rw [bits32_b, BitVec.toNat_setWidth_of_le (by decide)]

theorem fieldK_assemble : fieldK (assemble op d a b low) = (b ++ low).setWidth 32 :=
  bits32_imm op d a b low

theorem fieldI_assemble : fieldI (assemble op d a b low) = (b ++ low).signExtend 32 := by
  unfold fieldI
  rw [fieldK_assemble]
  exact signExtend32_setWidth (by decide) (b ++ low)

theorem fieldL_assemble : fieldL (assemble op d a b low) = (low.setWidth 6).setWidth 32 := by
  unfold fieldL
  rw [bits32_low op d a b low (by decide) 0 (by decide)]
  apply BitVec.eq_of_toNat_eq
  rw [bits32_toNat _ (by decide) (by decide)]
  simp only [BitVec.toNat_setWidth]
  omega

/-- The upper half of a split immediate stands in the field of `rD`. -/
theorem fieldSplit_assemble : fieldSplit (assemble op d a b low) = (d ++ low).setWidth 32 := by
  have hl : bits32 (assemble op d a b low) 10 0 = low.setWidth 32 := by
    apply bits32_assemble op d a b low (by decide) (by decide)
    rw [BitVec.toNat_setWidth_of_le (by decide)]
    omega
  unfold fieldSplit
  rw [bits32_d, hl]
  have hd : (d.setWidth 32 <<< 11).toNat = d.toNat <<< 11 := by
    rw [BitVec.toNat_shiftLeft, BitVec.toNat_setWidth_of_le (by decide), Nat.shiftLeft_eq]
    omega
  apply BitVec.eq_of_toNat_eq
  rw [BitVec.toNat_setWidth_of_le (by decide), BitVec.toNat_append, BitVec.toNat_or, hd,
    BitVec.shiftLeft_zero, BitVec.toNat_setWidth_of_le (by decide)]

/-- A jump distance is a signed number of words. -/
theorem fieldN_assemble : fieldN (assemble op d a b low) =
    ((d ++ a ++ b ++ low) ++ 0#2).signExtend 32 := by
  unfold fieldN
  rw [bits32_jump]
  have h : (d ++ a ++ b ++ low).setWidth 32 <<< 2 = ((d ++ a ++ b ++ low) ++ 0#2).setWidth 32 := by
    apply BitVec.eq_of_toNat_eq
    rw [BitVec.toNat_setWidth_of_le (by decide), append_toNat, BitVec.toNat_shiftLeft,
      BitVec.toNat_setWidth_of_le (by decide), Nat.shiftLeft_eq]
    have hb := (d ++ a ++ b ++ low).isLt
    have hz : (0#2).toNat = 0 := rfl
    omega
  rw [h]
  exact signExtend32_setWidth (by decide) _

end Operands

end Or1kiss
