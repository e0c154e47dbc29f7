import Or1kiss.Fields

/-!
# The integer instruction set

How the architecture assembles an ORBIS32 instruction from its operand fields, and which
operands it has: a `Format` for every opcode. Reserved bits are zero. Against it the decoder
is tested: an assembled word decodes to its opcode (`decode_encode`), and the handler binds
the operands of the format, unless the opcode is `l.macrc` (`roundTrip_iff`).
-/

namespace Or1kiss

open Host Bits

/-- The operand fields of an instruction. -/
structure Fields where
  d : BitVec 5
  a : BitVec 5
  b : BitVec 5
  /-- The immediates `I` and `K`. -/
  k : BitVec 16
  l : BitVec 6
  n : BitVec 26

/-- How an immediate becomes an operand. -/
inductive Extension where
  | zero
  | sign
  deriving DecidableEq, Repr

/-- Instructions of one format have the same fields in the same places. `op` are the upper six
bits of the word, `kind` the five below them where they belong to the opcode, `low` the lowest
eleven. -/
inductive Format where
  /-- `rD, rA, rB` -/
  | alu (low : BitVec 11)
  /-- `rD, rA` -/
  | alu1 (low : BitVec 11)
  /-- `rA, rB` -/
  | pair (op : BitVec 6) (kind : BitVec 5) (low : BitVec 11)
  /-- `rD, rA, I` or `rD, rA, K` -/
  | imm (op : BitVec 6) (ext : Extension)
  /-- `rD, I(rA)` -/
  | load (op : BitVec 6)
  /-- `I(rA), rB` -/
  | store (op : BitVec 6)
  /-- `rD, rA, L` -/
  | shift (kind : BitVec 2)
  /-- `rA, I` -/
  | pairImm (op : BitVec 6) (kind : BitVec 5)
  /-- `N`, with the register that receives the return address -/
  | jump (op : BitVec 6) (link : Operand)
  /-- `N`, relative without a link -/
  | branch (op : BitVec 6)
  /-- `rB` -/
  | jumpReg (op : BitVec 6) (link : Operand)
  /-- `K`, with a register the instruction implies -/
  | code (op : BitVec 6) (kind : BitVec 5) (implied : Operand)
  /-- no operands -/
  | plain (op : BitVec 6) (kind : BitVec 5)
  /-- 26 bits whose meaning is left open -/
  | custom (op : BitVec 6)
  | mtspr
  | movhi
  | macrc

namespace Fields

variable (f : Fields)

/-- The upper five bits of the immediate. -/
def kHigh : BitVec 5 := f.k.extractLsb' 11 5

/-- The lower eleven bits of the immediate. -/
def kLow : BitVec 11 := f.k.extractLsb' 0 11

theorem kHigh_append_kLow : f.kHigh ++ f.kLow = f.k := by
  apply BitVec.eq_of_toNat_eq
  rw [append_toNat]
  unfold kHigh kLow
  rw [BitVec.extractLsb'_toNat, BitVec.extractLsb'_toNat, Nat.shiftRight_eq_div_pow]
  omega

/-- A word whose lower 26 bits are `n`. -/
def wide (op : BitVec 6) : U32 :=
  assemble op (f.n.extractLsb' 21 5) (f.n.extractLsb' 16 5) (f.n.extractLsb' 11 5)
    (f.n.extractLsb' 0 11)

theorem n_split : f.n.extractLsb' 21 5 ++ f.n.extractLsb' 16 5 ++ f.n.extractLsb' 11 5 ++
    f.n.extractLsb' 0 11 = f.n := by
  apply BitVec.eq_of_toNat_eq
  simp only [append_toNat, BitVec.extractLsb'_toNat, Nat.shiftRight_eq_div_pow]
  omega

end Fields

/-- The operands a handler binds. -/
structure Operands where
  dest : Operand
  src1 : Operand
  src2 : Operand
  imm : U32
  deriving DecidableEq, Repr

def Instruction.operands (ci : Instruction) : Operands :=
  { dest := ci.dest, src1 := ci.src1, src2 := ci.src2, imm := ci.imm }

/-- The register of a field. -/
def Operand.ofField (r : BitVec 5) : Operand := .reg r.toNat

def Extension.extend (e : Extension) (k : BitVec 16) : U32 :=
  match e with
  | .zero => k.zeroExtend 32
  | .sign => k.signExtend 32

namespace Format

/-- The assembled word. -/
def encode (fmt : Format) (f : Fields) : U32 :=
  match fmt with
  | .alu low => assemble 0x38#6 f.d f.a f.b low
  | .alu1 low => assemble 0x38#6 f.d f.a 0#5 low
  | .pair op kind low => assemble op kind f.a f.b low
  | .imm op _ => assemble op f.d f.a f.kHigh f.kLow
  | .load op => assemble op f.d f.a f.kHigh f.kLow
  | .store op => assemble op f.kHigh f.a f.b f.kLow
  | .shift kind => assemble 0x2e#6 f.d f.a 0#5 (0#3 ++ kind ++ f.l)
  | .pairImm op kind => assemble op kind f.a f.kHigh f.kLow
  | .jump op _ => f.wide op
  | .branch op => f.wide op
  | .jumpReg op _ => assemble op 0#5 0#5 f.b 0#11
  | .code op kind _ => assemble op kind 0#5 f.kHigh f.kLow
  | .plain op kind => assemble op kind 0#5 0#5 0#11
  | .custom op => f.wide op
  | .mtspr => assemble 0x30#6 f.kHigh f.a f.b f.kLow
  | .movhi => assemble 0x06#6 f.d 0#5 f.kHigh f.kLow
  | .macrc => assemble 0x06#6 f.d 1#5 0#5 0#11

/-- The operands of the assembled instruction. A register operand is its field, an immediate is
extended to a word, the distance of a jump is four times the field and signed, and the
immediate of `l.movhi` stands in the upper half. -/
def operands (fmt : Format) (f : Fields) : Operands :=
  let d := Operand.ofField f.d
  let a := Operand.ofField f.a
  let b := Operand.ofField f.b
  let distance := (f.n ++ 0#2).signExtend 32
  match fmt with
  | .alu _ => { dest := d, src1 := a, src2 := b, imm := 0#32 }
  | .alu1 _ => { dest := d, src1 := a, src2 := .null, imm := 0#32 }
  | .pair _ _ _ => { dest := .null, src1 := a, src2 := b, imm := 0#32 }
  | .imm _ e => { dest := d, src1 := a, src2 := .imm, imm := e.extend f.k }
  | .load _ => { dest := d, src1 := a, src2 := .null, imm := f.k.signExtend 32 }
  | .store _ => { dest := .null, src1 := a, src2 := b, imm := f.k.signExtend 32 }
  | .shift _ => { dest := d, src1 := a, src2 := .imm, imm := f.l.zeroExtend 32 }
  | .pairImm _ _ => { dest := .null, src1 := a, src2 := .imm, imm := f.k.signExtend 32 }
  | .jump _ link => { dest := .null, src1 := link, src2 := .imm, imm := distance }
  | .branch _ => { dest := .null, src1 := .null, src2 := .null, imm := distance }
  | .jumpReg _ link => { dest := .null, src1 := link, src2 := b, imm := 0#32 }
  | .code _ _ implied => { dest := .null, src1 := implied, src2 := .null, imm := f.k.zeroExtend 32 }
  | .plain _ _ => { dest := .null, src1 := .null, src2 := .null, imm := 0#32 }
  | .custom _ => { dest := .null, src1 := .null, src2 := .null, imm := 0#32 }
  | .mtspr => { dest := a, src1 := b, src2 := .imm, imm := f.k.zeroExtend 32 }
  | .movhi => { dest := d, src1 := .null, src2 := .null, imm := f.k.zeroExtend 32 <<< 16 }
  | .macrc => { dest := d, src1 := .null, src2 := .null, imm := 0#32 }

end Format

/-- The format of an ORBIS32 opcode. -/
def Opcode.format : Opcode → Option Format
  | .orbis32Nop => some (.code 0x05#6 0x08#5 (.reg 3))
  | .orbis32Mfspr => some (.imm 0x2d#6 .zero)
  | .orbis32Mtspr => some .mtspr
  | .orbis32Movhi => some .movhi
  | .orbis32J => some (.jump 0x00#6 .null)
  | .orbis32Jr => some (.jumpReg 0x11#6 .null)
  | .orbis32Jal => some (.jump 0x01#6 (.reg 9))
  | .orbis32Jalr => some (.jumpReg 0x12#6 (.reg 9))
  | .orbis32Bf => some (.branch 0x04#6)
  | .orbis32Bnf => some (.branch 0x03#6)
  | .orbis32Lwa => some (.load 0x1b#6)
  | .orbis32Lwz => some (.load 0x21#6)
  | .orbis32Lws => some (.load 0x22#6)
  | .orbis32Lhz => some (.load 0x25#6)
  | .orbis32Lhs => some (.load 0x26#6)
  | .orbis32Lbz => some (.load 0x23#6)
  | .orbis32Lbs => some (.load 0x24#6)
  | .orbis32Swa => some (.store 0x33#6)
  | .orbis32Sw => some (.store 0x35#6)
  | .orbis32Sh => some (.store 0x37#6)
  | .orbis32Sb => some (.store 0x36#6)
  | .orbis32Extwz => some (.alu1 0x04d#11)
  | .orbis32Extws => some (.alu1 0x00d#11)
  | .orbis32Exthz => some (.alu1 0x08c#11)
  | .orbis32Exths => some (.alu1 0x00c#11)
  | .orbis32Extbz => some (.alu1 0x0cc#11)
  | .orbis32Extbs => some (.alu1 0x04c#11)
  | .orbis32Add => some (.alu 0x000#11)
  | .orbis32Addc => some (.alu 0x001#11)
  | .orbis32Sub => some (.alu 0x002#11)
  | .orbis32And => some (.alu 0x003#11)
  | .orbis32Or => some (.alu 0x004#11)
  | .orbis32Xor => some (.alu 0x005#11)
  | .orbis32Cmov => some (.alu 0x00e#11)
  | .orbis32Ff1 => some (.alu1 0x00f#11)
  | .orbis32Fl1 => some (.alu1 0x10f#11)
  | .orbis32Sll => some (.alu 0x008#11)
  | .orbis32Srl => some (.alu 0x048#11)
  | .orbis32Sra => some (.alu 0x088#11)
  | .orbis32Ror => some (.alu 0x0c8#11)
  | .orbis32Mul => some (.alu 0x306#11)
  | .orbis32Mulu => some (.alu 0x30b#11)
  | .orbis32Muld => some (.pair 0x38#6 0x00#5 0x307#11)
  | .orbis32Muldu => some (.pair 0x38#6 0x00#5 0x30c#11)
  | .orbis32Div => some (.alu 0x309#11)
  | .orbis32Divu => some (.alu 0x30a#11)
  | .orbis32Addi => some (.imm 0x27#6 .sign)
  | .orbis32Addic => some (.imm 0x28#6 .sign)
  | .orbis32Andi => some (.imm 0x29#6 .zero)
  | .orbis32Ori => some (.imm 0x2a#6 .zero)
  | .orbis32Xori => some (.imm 0x2b#6 .sign)
  | .orbis32Muli => some (.imm 0x2c#6 .sign)
  | .orbis32Slli => some (.shift 0x0#2)
  | .orbis32Srli => some (.shift 0x1#2)
  | .orbis32Srai => some (.shift 0x2#2)
  | .orbis32Rori => some (.shift 0x3#2)
  | .orbis32Sfeq => some (.pair 0x39#6 0x00#5 0#11)
  | .orbis32Sfne => some (.pair 0x39#6 0x01#5 0#11)
  | .orbis32Sfgtu => some (.pair 0x39#6 0x02#5 0#11)
  | .orbis32Sfgeu => some (.pair 0x39#6 0x03#5 0#11)
  | .orbis32Sfltu => some (.pair 0x39#6 0x04#5 0#11)
  | .orbis32Sfleu => some (.pair 0x39#6 0x05#5 0#11)
  | .orbis32Sfgts => some (.pair 0x39#6 0x0a#5 0#11)
  | .orbis32Sfges => some (.pair 0x39#6 0x0b#5 0#11)
  | .orbis32Sflts => some (.pair 0x39#6 0x0c#5 0#11)
  | .orbis32Sfles => some (.pair 0x39#6 0x0d#5 0#11)
  | .orbis32Sfeqi => some (.pairImm 0x2f#6 0x00#5)
  | .orbis32Sfnei => some (.pairImm 0x2f#6 0x01#5)
  | .orbis32Sfgtui => some (.pairImm 0x2f#6 0x02#5)
  | .orbis32Sfgeui => some (.pairImm 0x2f#6 0x03#5)
  | .orbis32Sfltui => some (.pairImm 0x2f#6 0x04#5)
  | .orbis32Sfleui => some (.pairImm 0x2f#6 0x05#5)
  | .orbis32Sfgtsi => some (.pairImm 0x2f#6 0x0a#5)
  | .orbis32Sfgesi => some (.pairImm 0x2f#6 0x0b#5)
  | .orbis32Sfltsi => some (.pairImm 0x2f#6 0x0c#5)
  | .orbis32Sflesi => some (.pairImm 0x2f#6 0x0d#5)
  | .orbis32Mac => some (.pair 0x31#6 0x00#5 0x001#11)
  | .orbis32Macu => some (.pair 0x31#6 0x00#5 0x003#11)
  | .orbis32Msb => some (.pair 0x31#6 0x00#5 0x002#11)
  | .orbis32Msbu => some (.pair 0x31#6 0x00#5 0x004#11)
  | .orbis32Maci => some (.pairImm 0x13#6 0x00#5)
  | .orbis32Macrc => some .macrc
  | .orbis32Sys => some (.code 0x08#6 0x00#5 .null)
  | .orbis32Trap => some (.code 0x08#6 0x08#5 .null)
  | .orbis32Msync => some (.plain 0x08#6 0x10#5)
  | .orbis32Psync => some (.plain 0x08#6 0x14#5)
  | .orbis32Csync => some (.plain 0x08#6 0x18#5)
  | .orbis32Rfe => some (.plain 0x09#6 0x00#5)
  | .orbis32Cust1 => some (.custom 0x1c#6)
  | .orbis32Cust2 => some (.custom 0x1d#6)
  | .orbis32Cust3 => some (.custom 0x1e#6)
  | .orbis32Cust4 => some (.custom 0x1f#6)
  | .orbis32Cust5 => some (.custom 0x3c#6)
  | .orbis32Cust6 => some (.custom 0x3d#6)
  | .orbis32Cust7 => some (.custom 0x3e#6)
  | .orbis32Cust8 => some (.custom 0x3f#6)
  | _ => none

/-! ## Opcodes -/

section Opcodes

variable (d a b : BitVec 5) (low : BitVec 11)

theorem decode_alu : decode (assemble 0x38#6 d a b low) = decodeAlu (low.setWidth 32) := by
  unfold decode
  rw [bits32_opcode]
  show decodeAlu (assemble 0x38#6 d a b low) = _
  unfold decodeAlu
  rw [bits32_low _ d a b low (by decide) 0 (by decide),
    bits32_low _ d a b low (by decide) 6 (by decide),
    bits32_low _ d a b low (by decide) 8 (by decide)]

theorem decode_mac : decode (assemble 0x31#6 d a b low) = decodeMac (low.setWidth 32) := by
  have hm : assemble 0x31#6 d a b low &&& 0xf#32 = low.setWidth 32 &&& 0xf#32 := by
    apply BitVec.eq_of_toNat_eq
    rw [BitVec.toNat_and, BitVec.toNat_and, assemble_toNat, BitVec.toNat_setWidth_of_le (by decide)]
    show _ &&& (2 ^ 4 - 1) = _ &&& (2 ^ 4 - 1)
    rw [Nat.and_two_pow_sub_one_eq_mod, Nat.and_two_pow_sub_one_eq_mod]
    omega
  unfold decode
  rw [bits32_opcode]
  show decodeMac (assemble 0x31#6 d a b low) = _
  unfold decodeMac
  rw [hm]

theorem decode_shift (kind : BitVec 2) (l : BitVec 6) :
    decode (assemble 0x2e#6 d a b (0#3 ++ kind ++ l)) =
      decodeShift (kind.setWidth 32 <<< 6) := by
  have hk : ((0#3 ++ kind ++ l).setWidth 32 : U32).toNat / 2 ^ 6 % 2 ^ 2 =
      (kind.setWidth 32 <<< 6).toNat / 2 ^ 6 % 2 ^ 2 := by
    simp only [BitVec.toNat_setWidth, append_toNat, BitVec.toNat_shiftLeft, Nat.shiftLeft_eq]
    omega
  unfold decode
  rw [bits32_opcode]
  show decodeShift (assemble 0x2e#6 d a b (0#3 ++ kind ++ l)) = _
  unfold decodeShift
  rw [bits32_low _ d a b _ (by decide) 6 (by decide), bits32_toNat _ (by decide) (by decide),
    bits32_toNat _ (by decide) (by decide), hk]

theorem decode_movhi : decode (assemble 0x06#6 d 0#5 b low) = .orbis32Movhi := by
  have h : bits32 (assemble 0x06#6 d 0#5 b low) 16 0 ≠ 0x10000#32 := by
    rw [bits32_util]
    intro h
    have hn := congrArg BitVec.toNat h
    rw [BitVec.toNat_setWidth_of_le (by decide), append_toNat, append_toNat] at hn
    have hz : ((0#5).extractLsb' 0 1).toNat = 0 := rfl
    have hr : (0x10000#32).toNat = 0x10000 := rfl
    omega
  unfold decode
  rw [bits32_opcode]
  show decodeUtil (assemble 0x06#6 d 0#5 b low) = _
  have hb : bits32 (assemble 0x06#6 d 0#5 b low) 16 16 = 0x0#32 := bits32_bit16 _ d 0#5 b low
  unfold decodeUtil
  rw [if_neg h, if_pos hb]

theorem decode_macrc : decode (assemble 0x06#6 d 1#5 0#5 0#11) = .orbis32Macrc := by
  unfold decode
  rw [bits32_opcode]
  show decodeUtil (assemble 0x06#6 d 1#5 0#5 0#11) = _
  have hb : bits32 (assemble 0x06#6 d 1#5 0#5 0#11) 16 0 = 0x10000#32 :=
    bits32_util _ d 1#5 0#5 0#11
  unfold decodeUtil
  rw [if_pos hb]

theorem decode_long {op : BitVec 6} (ho : op = 0x05#6 ∨ op = 0x08#6 ∨ op = 0x2f#6 ∨ op = 0x39#6) :
    decode (assemble op d a b low) = decodeLong (assemble op d a b low) := by
  unfold decode
  rw [bits32_opcode]
  rcases ho with rfl | rfl | rfl | rfl <;> rfl

end Opcodes

theorem decode_encode {op : Opcode} {fmt : Format} (h : op.format = some fmt) (f : Fields) :
    decode (fmt.encode f) = op := by
  cases op <;> cases h
  case orbis32Extwz | orbis32Extws | orbis32Exthz | orbis32Exths | orbis32Extbz | orbis32Extbs |
      orbis32Add | orbis32Addc | orbis32Sub | orbis32And | orbis32Or | orbis32Xor | orbis32Cmov |
      orbis32Ff1 | orbis32Fl1 | orbis32Sll | orbis32Srl | orbis32Sra | orbis32Ror | orbis32Mul |
      orbis32Mulu | orbis32Muld | orbis32Muldu | orbis32Div | orbis32Divu =>
    exact decode_alu ..
  case orbis32Mac | orbis32Macu | orbis32Msb | orbis32Msbu =>
    exact decode_mac ..
  case orbis32Slli | orbis32Srli | orbis32Srai | orbis32Rori =>
    exact decode_shift ..
  case orbis32Movhi =>
    exact decode_movhi f.d f.kHigh f.kLow
  case orbis32Macrc =>
    exact decode_macrc f.d
  case orbis32Mfspr | orbis32Mtspr | orbis32Jr | orbis32Jalr | orbis32Lwa | orbis32Lwz |
      orbis32Lws | orbis32Lhz | orbis32Lhs | orbis32Lbz | orbis32Lbs | orbis32Swa | orbis32Sw |
      orbis32Sh | orbis32Sb | orbis32Addi | orbis32Addic | orbis32Andi | orbis32Ori | orbis32Xori |
      orbis32Muli | orbis32Maci | orbis32Rfe =>
    unfold Format.encode decode
    rw [bits32_opcode]
    rfl
  case orbis32J | orbis32Jal | orbis32Bf | orbis32Bnf | orbis32Cust1 | orbis32Cust2 |
      orbis32Cust3 | orbis32Cust4 | orbis32Cust5 | orbis32Cust6 | orbis32Cust7 | orbis32Cust8 =>
    unfold Format.encode Fields.wide decode
    rw [bits32_opcode]
    rfl
  case orbis32Sfeq | orbis32Sfne | orbis32Sfgtu | orbis32Sfgeu | orbis32Sfltu | orbis32Sfleu |
      orbis32Sfgts | orbis32Sfges | orbis32Sflts | orbis32Sfles | orbis32Sfeqi | orbis32Sfnei |
      orbis32Sfgtui | orbis32Sfgeui | orbis32Sfltui | orbis32Sfleui | orbis32Sfgtsi |
      orbis32Sfgesi | orbis32Sfltsi | orbis32Sflesi =>
    unfold Format.encode
    rw [decode_long _ _ _ _ (by decide)]
    unfold decodeLong
    rw [bits32_byte, bits32_compare]
    rfl
  case orbis32Nop =>
    unfold Format.encode
    rw [decode_long _ _ _ _ (by decide)]
    unfold decodeLong
    rw [bits32_byte]
    rfl
  case orbis32Sys | orbis32Trap =>
    unfold Format.encode
    rw [decode_long _ _ _ _ (by decide)]
    unfold decodeLong
    rw [bits32_byte, bits32_compare, bits32_half]
    rfl
  case orbis32Msync | orbis32Psync | orbis32Csync =>
    show decode (assemble _ _ 0#5 0#5 0#11) = _
    decide

/-! ## Operands -/

section Handlers

variable (e : Exec) (f : Fields) (addr w : U32)

theorem regReg_operands (low : BitVec 11) :
    (regReg e ((Format.alu low).encode f) (.blank addr w)).operands =
      (Format.alu low).operands f := by
  unfold regReg Format.encode
  simp only [fieldD_assemble, fieldA_assemble, fieldB_assemble]
  rfl

theorem regOne_operands (low : BitVec 11) :
    (regOne e ((Format.alu1 low).encode f) (.blank addr w)).operands =
      (Format.alu1 low).operands f := by
  unfold regOne Format.encode
  simp only [fieldD_assemble, fieldA_assemble]
  rfl

theorem regPair_operands (op : BitVec 6) (kind : BitVec 5) (low : BitVec 11) :
    (regPair e ((Format.pair op kind low).encode f) (.blank addr w)).operands =
      (Format.pair op kind low).operands f := by
  unfold regPair Format.encode
  simp only [fieldA_assemble, fieldB_assemble]
  rfl

theorem regImm_sign_operands (op : BitVec 6) :
    (regImm e fieldI ((Format.imm op .sign).encode f) (.blank addr w)).operands =
      (Format.imm op .sign).operands f := by
  unfold regImm Format.encode
  simp only [fieldD_assemble, fieldA_assemble, fieldI_assemble, Fields.kHigh_append_kLow]
  rfl

theorem regImm_zero_operands (op : BitVec 6) :
    (regImm e fieldK ((Format.imm op .zero).encode f) (.blank addr w)).operands =
      (Format.imm op .zero).operands f := by
  unfold regImm Format.encode
  simp only [fieldD_assemble, fieldA_assemble, fieldK_assemble, Fields.kHigh_append_kLow]
  rfl

theorem mfspr_operands (op : BitVec 6) :
    (decodeOrbis32Mfspr ((Format.imm op .zero).encode f) (.blank addr w)).operands =
      (Format.imm op .zero).operands f :=
  regImm_zero_operands .mfspr f addr w op

theorem shift_operands (kind : BitVec 2) :
    (regImm e fieldL ((Format.shift kind).encode f) (.blank addr w)).operands =
      (Format.shift kind).operands f := by
  have hl : (0#3 ++ kind ++ f.l).setWidth 6 = f.l := by
    apply BitVec.eq_of_toNat_eq
    simp only [BitVec.toNat_setWidth, append_toNat]
    omega
  unfold regImm Format.encode
  simp only [fieldD_assemble, fieldA_assemble, fieldL_assemble, hl]
  rfl

theorem load_operands (op : BitVec 6) :
    (load e ((Format.load op).encode f) (.blank addr w)).operands =
      (Format.load op).operands f := by
  unfold load Format.encode
  simp only [fieldD_assemble, fieldA_assemble, fieldI_assemble, Fields.kHigh_append_kLow]
  rfl

theorem split_store (op : BitVec 6) (a b : BitVec 5) :
    fieldSplit (assemble op f.kHigh a b f.kLow) = f.k.setWidth 32 := by
  rw [fieldSplit_assemble, Fields.kHigh_append_kLow]

theorem store_operands (op : BitVec 6) :
    (store e ((Format.store op).encode f) (.blank addr w)).operands =
      (Format.store op).operands f := by
  have hs : signExtend32 (f.k.setWidth 32) 15 = f.k.signExtend 32 :=
    signExtend32_setWidth (by decide) f.k
  unfold store Format.encode
  simp only [fieldA_assemble, fieldB_assemble, split_store, hs]
  rfl

theorem mtspr_operands :
    (decodeOrbis32Mtspr (Format.mtspr.encode f) (.blank addr w)).operands =
      Format.mtspr.operands f := by
  unfold decodeOrbis32Mtspr Format.encode
  simp only [fieldA_assemble, fieldB_assemble, split_store]
  rfl

theorem oneImm_operands (op : BitVec 6) (kind : BitVec 5) :
    (oneImm e ((Format.pairImm op kind).encode f) (.blank addr w)).operands =
      (Format.pairImm op kind).operands f := by
  unfold oneImm Format.encode
  simp only [fieldA_assemble, fieldI_assemble, Fields.kHigh_append_kLow]
  rfl

theorem fieldN_wide (op : BitVec 6) : fieldN (f.wide op) = (f.n ++ 0#2).signExtend 32 := by
  unfold Fields.wide
  rw [fieldN_assemble, Fields.n_split]

theorem branch_operands (op : BitVec 6) :
    (branch e ((Format.branch op).encode f) (.blank addr w)).operands =
      (Format.branch op).operands f := by
  unfold branch Format.encode
  simp only [fieldN_wide]
  rfl

theorem j_operands (op : BitVec 6) :
    (decodeOrbis32J ((Format.jump op .null).encode f) (.blank addr w)).operands =
      (Format.jump op .null).operands f := by
  unfold decodeOrbis32J Format.encode
  simp only [fieldN_wide]
  rfl

theorem jal_operands (op : BitVec 6) :
    (decodeOrbis32Jal ((Format.jump op (.reg 9)).encode f) (.blank addr w)).operands =
      (Format.jump op (.reg 9)).operands f := by
  unfold decodeOrbis32Jal Format.encode
  simp only [fieldN_wide]
  rfl

theorem jr_operands (op : BitVec 6) :
    (decodeOrbis32Jr ((Format.jumpReg op .null).encode f) (.blank addr w)).operands =
      (Format.jumpReg op .null).operands f := by
  unfold decodeOrbis32Jr Format.encode
  simp only [fieldB_assemble]
  rfl

theorem jalr_operands (op : BitVec 6) :
    (decodeOrbis32Jalr ((Format.jumpReg op (.reg 9)).encode f) (.blank addr w)).operands =
      (Format.jumpReg op (.reg 9)).operands f := by
  unfold decodeOrbis32Jalr Format.encode
  simp only [fieldB_assemble]
  rfl

theorem immOnly_operands (op : BitVec 6) (kind : BitVec 5) :
    (immOnly e ((Format.code op kind .null).encode f) (.blank addr w)).operands =
      (Format.code op kind .null).operands f := by
  unfold immOnly Format.encode
  simp only [fieldK_assemble, Fields.kHigh_append_kLow]
  rfl

theorem nop_operands (op : BitVec 6) (kind : BitVec 5) :
    (decodeOrbis32Nop ((Format.code op kind (.reg 3)).encode f) (.blank addr w)).operands =
      (Format.code op kind (.reg 3)).operands f := by
  unfold decodeOrbis32Nop Format.encode
  simp only [fieldK_assemble, Fields.kHigh_append_kLow]
  rfl

theorem movhi_operands :
    (decodeOrbis32Movhi (Format.movhi.encode f) (.blank addr w)).operands =
      Format.movhi.operands f := by
  unfold decodeOrbis32Movhi Format.encode
  simp only [fieldD_assemble, fieldK_assemble, Fields.kHigh_append_kLow]
  rfl

/-- The register field of `l.macrc` takes in four reserved bits. -/
theorem macrc_operands :
    (decodeOrbis32Macrc (Format.macrc.encode f) (.blank addr w)).operands =
      { dest := .reg (16 * f.d.toNat), src1 := .null, src2 := .null, imm := 0#32 } := by
  have hd : ((f.d ++ (1#5).extractLsb' 1 4).setWidth 32).toNat = 16 * f.d.toNat := by
    rw [BitVec.toNat_setWidth_of_le (by decide), append_toNat]
    show f.d.toNat * 2 ^ 4 + 0 = _
    omega
  unfold decodeOrbis32Macrc Format.encode
  rw [bits32_macrc, hd]
  rfl

end Handlers

/-- Every handler but that of `l.macrc` binds the operands of the format. -/
theorem operands_encode {op : Opcode} {fmt : Format} {handler : U32 → Instruction → Instruction}
    (h : op.format = some fmt) (hh : decodeTable op = some handler) (hm : op ≠ .orbis32Macrc)
    (f : Fields) (addr : U32) :
    (handler (fmt.encode f) (.blank addr (fmt.encode f))).operands = fmt.operands f := by
  cases op <;> cases h <;> cases hh
  case orbis32Nop => exact nop_operands ..
  case orbis32Mfspr => exact mfspr_operands ..
  case orbis32Mtspr => exact mtspr_operands ..
  case orbis32Movhi => exact movhi_operands ..
  case orbis32J => exact j_operands ..
  case orbis32Jr => exact jr_operands ..
  case orbis32Jal => exact jal_operands ..
  case orbis32Jalr => exact jalr_operands ..
  case orbis32Bf | orbis32Bnf => exact branch_operands ..
  case orbis32Lwa | orbis32Lwz | orbis32Lws | orbis32Lhz | orbis32Lhs | orbis32Lbz | orbis32Lbs =>
    exact load_operands ..
  case orbis32Swa | orbis32Sw | orbis32Sh | orbis32Sb => exact store_operands ..
  case orbis32Extwz | orbis32Extws | orbis32Exthz | orbis32Exths | orbis32Extbz | orbis32Extbs |
      orbis32Ff1 | orbis32Fl1 =>
    exact regOne_operands ..
  case orbis32Add | orbis32Addc | orbis32Sub | orbis32And | orbis32Or | orbis32Xor | orbis32Cmov |
      orbis32Sll | orbis32Srl | orbis32Sra | orbis32Ror | orbis32Mul | orbis32Mulu | orbis32Div |
      orbis32Divu =>
    exact regReg_operands ..
  case orbis32Muld | orbis32Muldu | orbis32Sfeq | orbis32Sfne | orbis32Sfgtu | orbis32Sfgeu |
      orbis32Sfltu | orbis32Sfleu | orbis32Sfgts | orbis32Sfges | orbis32Sflts | orbis32Sfles |
      orbis32Mac | orbis32Macu | orbis32Msb | orbis32Msbu =>
    exact regPair_operands ..
  case orbis32Addi | orbis32Addic | orbis32Xori | orbis32Muli => exact regImm_sign_operands ..
  case orbis32Andi | orbis32Ori => exact regImm_zero_operands ..
  case orbis32Slli | orbis32Srli | orbis32Srai | orbis32Rori => exact shift_operands ..
  case orbis32Sfeqi | orbis32Sfnei | orbis32Sfgtui | orbis32Sfgeui | orbis32Sfltui |
      orbis32Sfleui | orbis32Sfgtsi | orbis32Sfgesi | orbis32Sfltsi | orbis32Sflesi | orbis32Maci =>
    exact oneImm_operands ..
  case orbis32Macrc => exact absurd rfl hm
  case orbis32Sys | orbis32Trap => exact immOnly_operands ..
  case orbis32Msync | orbis32Psync | orbis32Csync | orbis32Rfe => rfl

/-! ## Round trip -/

/-- Decoding undoes encoding: the assembled word has the opcode, and the handler of the opcode,
if there is one, binds the operands. -/
def RoundTrip (op : Opcode) (fmt : Format) (f : Fields) : Prop :=
  decode (fmt.encode f) = op ∧ ∀ handler, decodeTable op = some handler → ∀ addr,
    (handler (fmt.encode f) (.blank addr (fmt.encode f))).operands = fmt.operands f

theorem roundTrip_iff {op : Opcode} {fmt : Format} (h : op.format = some fmt) (f : Fields) :
    RoundTrip op fmt f ↔ (op = .orbis32Macrc → f.d = 0#5) := by
  by_cases hm : op = .orbis32Macrc
  · subst hm
    cases h
    constructor
    · intro hr _
      have ho := hr.2 _ rfl 0#32
      rw [macrc_operands] at ho
      have hd : Operand.reg (16 * f.d.toNat) = .reg f.d.toNat := congrArg Operands.dest ho
      apply BitVec.eq_of_toNat_eq
      have hz : (0#5).toNat = 0 := rfl
      injection hd with hd
      omega
    · intro hd
      have hf : Opcode.format .orbis32Macrc = some .macrc := rfl
      refine ⟨decode_encode hf f, ?_⟩
      intro handler hh addr
      cases hh
      rw [macrc_operands, hd rfl]
      show _ = Operands.mk (Operand.ofField f.d) .null .null 0#32
      rw [hd rfl]
      rfl
  · constructor
    · intro _ he
      exact absurd he hm
    · intro _
      exact ⟨decode_encode h f, fun handler hh addr => operands_encode h hh hm f addr⟩

/-- `l.add r3, r1, r2` and `l.macrc r0` -/
theorem roundTrip_add_macrc :
    RoundTrip .orbis32Add (.alu 0x000#11) { d := 3, a := 1, b := 2, k := 0, l := 0, n := 0 } ∧
      RoundTrip .orbis32Macrc .macrc { d := 0, a := 0, b := 0, k := 0, l := 0, n := 0 } :=
  ⟨(roundTrip_iff rfl _).mpr (by decide), (roundTrip_iff rfl _).mpr fun _ => rfl⟩

/-- `l.macrc r2` names register 32. -/
theorem roundTrip_macrc_fails : ¬ ∀ (op : Opcode) (fmt : Format) (f : Fields),
    op.format = some fmt → RoundTrip op fmt f := by
  intro h
  have hr := h .orbis32Macrc .macrc { d := 2, a := 0, b := 0, k := 0, l := 0, n := 0 } rfl
  have ho := hr.2 decodeOrbis32Macrc rfl 0#32
  revert ho
  decide

end Or1kiss
