import Or1kiss.Insn

/-!
# The decoder

`decode.h` and `decode.cpp`. `decode` maps an instruction word to its opcode, the
handlers `decodeOrbis32*` and `decodeOrfpx*` bind operands and executor, and
`decodeTable` is `m_decode_table`. Handlers that bind the same fields are one definition
(`regReg`, `regImm`, …) applied to their executor.
-/

namespace Or1kiss

/-- `opcode` -/
inductive Opcode where
  | invalidOpcode
  | orbis32Nop | orbis32Mfspr | orbis32Mtspr | orbis32Movhi | orbis32J | orbis32Jr | orbis32Jal
  | orbis32Jalr | orbis32Bf | orbis32Bnf | orbis32Lwa | orbis32Lwz | orbis32Lws | orbis32Lhz
  | orbis32Lhs | orbis32Lbz | orbis32Lbs | orbis32Swa | orbis32Sw | orbis32Sh | orbis32Sb
  | orbis32Extwz | orbis32Extws | orbis32Exthz | orbis32Exths | orbis32Extbz | orbis32Extbs
  | orbis32Add | orbis32Addc | orbis32Sub | orbis32And | orbis32Or | orbis32Xor | orbis32Cmov
  | orbis32Ff1 | orbis32Fl1 | orbis32Sll | orbis32Srl | orbis32Sra | orbis32Ror | orbis32Mul
  | orbis32Mulu | orbis32Muld | orbis32Muldu | orbis32Div | orbis32Divu | orbis32Addi
  | orbis32Addic | orbis32Andi | orbis32Ori | orbis32Xori | orbis32Muli | orbis32Slli
  | orbis32Srli | orbis32Srai | orbis32Rori | orbis32Sfeq | orbis32Sfne | orbis32Sfgtu
  | orbis32Sfgeu | orbis32Sfltu | orbis32Sfleu | orbis32Sfgts | orbis32Sfges | orbis32Sflts
  | orbis32Sfles | orbis32Sfeqi | orbis32Sfnei | orbis32Sfgtui | orbis32Sfgeui | orbis32Sfltui
  | orbis32Sfleui | orbis32Sfgtsi | orbis32Sfgesi | orbis32Sfltsi | orbis32Sflesi | orbis32Mac
  | orbis32Macu | orbis32Msb | orbis32Msbu | orbis32Maci | orbis32Macrc | orbis32Sys | orbis32Trap
  | orbis32Msync | orbis32Psync | orbis32Csync | orbis32Rfe | orbis32Cust1 | orbis32Cust2
  | orbis32Cust3 | orbis32Cust4 | orbis32Cust5 | orbis32Cust6 | orbis32Cust7 | orbis32Cust8
  | orfpx32Add | orfpx32Cust1 | orfpx32Div | orfpx32Ftoi | orfpx32Itof | orfpx32Madd | orfpx32Mul
  | orfpx32Rem | orfpx32Sfeq | orfpx32Sfge | orfpx32Sfgt | orfpx32Sfle | orfpx32Sflt | orfpx32Sfne
  | orfpx32Sub | orfpx64Add | orfpx64Sub | orfpx64Mul | orfpx64Div | orfpx64Itof | orfpx64Ftoi
  | orfpx64Rem | orfpx64Madd | orfpx64Sfeq | orfpx64Sfne | orfpx64Sfgt | orfpx64Sfge | orfpx64Sflt
  | orfpx64Sfle | orfpx64Cust1
  deriving DecidableEq, Repr

/-! ## Opcodes -/

def decodeAlu (insn : U32) : Opcode :=
  let opcode2 := (bits32 insn 3 0).toNat
  let shiftOrExtend :=
    match (bits32 insn 9 6).toNat with
    | 0x0 =>
      match opcode2 with
      | 0x8 => .orbis32Sll
      | 0xc => .orbis32Exths
      | 0xd => .orbis32Extws
      | _ => .invalidOpcode
    | 0x1 =>
      match opcode2 with
      | 0x8 => .orbis32Srl
      | 0xc => .orbis32Extbs
      | 0xd => .orbis32Extwz
      | _ => .invalidOpcode
    | 0x2 =>
      match opcode2 with
      | 0x8 => .orbis32Sra
      | 0xc => .orbis32Exthz
      | _ => .invalidOpcode
    | 0x3 =>
      match opcode2 with
      | 0x8 => .orbis32Ror
      | 0xc => .orbis32Extbz
      | _ => .invalidOpcode
    | _ => .invalidOpcode
  match (bits32 insn 9 8).toNat with
  | 0x0 =>
    match opcode2 with
    | 0x0 => .orbis32Add
    | 0x1 => .orbis32Addc
    | 0x2 => .orbis32Sub
    | 0x3 => .orbis32And
    | 0x4 => .orbis32Or
    | 0x5 => .orbis32Xor
    | 0xe => .orbis32Cmov
    | 0xf => .orbis32Ff1
    | _ => shiftOrExtend
  | 0x1 =>
    match opcode2 with
    | 0xf => .orbis32Fl1
    | _ => .invalidOpcode
  | 0x2 => .invalidOpcode
  | 0x3 =>
    match opcode2 with
    | 0x6 => .orbis32Mul
    | 0x7 => .orbis32Muld
    | 0x9 => .orbis32Div
    | 0xa => .orbis32Divu
    | 0xb => .orbis32Mulu
    | 0xc => .orbis32Muldu
    | _ => .invalidOpcode
  | _ => shiftOrExtend

def decodeUtil (insn : U32) : Opcode :=
  if bits32 insn 16 0 = 0x10000#32 then .orbis32Macrc
  else if bits32 insn 16 16 = 0x0#32 then .orbis32Movhi
  else .invalidOpcode

def decodeShift (insn : U32) : Opcode :=
  match (bits32 insn 7 6).toNat with
  | 0x0 => .orbis32Slli
  | 0x1 => .orbis32Srli
  | 0x2 => .orbis32Srai
  | 0x3 => .orbis32Rori
  | _ => .invalidOpcode

def decodeMac (insn : U32) : Opcode :=
  match (insn &&& 0xf#32).toNat with
  | 0x1 => .orbis32Mac
  | 0x2 => .orbis32Msb
  | 0x3 => .orbis32Macu
  | 0x4 => .orbis32Msbu
  | _ => .invalidOpcode

def decodeFpx (insn : U32) : Opcode :=
  match (insn &&& 0xff#32).toNat with
  | 0x0 => .orfpx32Add
  | 0x1 => .orfpx32Sub
  | 0x2 => .orfpx32Mul
  | 0x3 => .orfpx32Div
  | 0x4 => .orfpx32Itof
  | 0x5 => .orfpx32Ftoi
  | 0x6 => .orfpx32Rem
  | 0x7 => .orfpx32Madd
  | 0x8 => .orfpx32Sfeq
  | 0x9 => .orfpx32Sfne
  | 0xa => .orfpx32Sfgt
  | 0xb => .orfpx32Sfge
  | 0xc => .orfpx32Sflt
  | 0xd => .orfpx32Sfle
  | 0x10 => .orfpx64Add
  | 0x11 => .orfpx64Sub
  | 0x12 => .orfpx64Mul
  | 0x13 => .orfpx64Div
  | 0x14 => .orfpx64Itof
  | 0x15 => .orfpx64Ftoi
  | 0x16 => .orfpx64Rem
  | 0x17 => .orfpx64Madd
  | 0x18 => .orfpx64Sfeq
  | 0x19 => .orfpx64Sfne
  | 0x1a => .orfpx64Sfgt
  | 0x1b => .orfpx64Sfge
  | 0x1c => .orfpx64Sflt
  | 0x1d => .orfpx64Sfle
  | opcode =>
    match opcode / 16 with
    | 0xd => .orfpx32Cust1
    | 0xe => .orfpx64Cust1
    | _ => .invalidOpcode

/-- Opcodes of eight to 32 bits. -/
def decodeLong (insn : U32) : Opcode :=
  match (bits32 insn 31 24).toNat with
  | 0x15 => .orbis32Nop
  | _ =>
  match (bits32 insn 31 21).toNat with
  | 0x5e0 => .orbis32Sfeqi
  | 0x5e1 => .orbis32Sfnei
  | 0x5e2 => .orbis32Sfgtui
  | 0x5e3 => .orbis32Sfgeui
  | 0x5e4 => .orbis32Sfltui
  | 0x5e5 => .orbis32Sfleui
  | 0x5ea => .orbis32Sfgtsi
  | 0x5eb => .orbis32Sfgesi
  | 0x5ec => .orbis32Sfltsi
  | 0x5ed => .orbis32Sflesi
  | 0x720 => .orbis32Sfeq
  | 0x721 => .orbis32Sfne
  | 0x722 => .orbis32Sfgtu
  | 0x723 => .orbis32Sfgeu
  | 0x724 => .orbis32Sfltu
  | 0x725 => .orbis32Sfleu
  | 0x72a => .orbis32Sfgts
  | 0x72b => .orbis32Sfges
  | 0x72c => .orbis32Sflts
  | 0x72d => .orbis32Sfles
  | _ =>
  match (bits32 insn 31 16).toNat with
  | 0x2000 => .orbis32Sys
  | 0x2100 => .orbis32Trap
  | _ =>
  if insn = 0x22000000#32 then .orbis32Msync
  else if insn = 0x23000000#32 then .orbis32Csync
  else if insn = 0x22800000#32 then .orbis32Psync
  else .invalidOpcode

def decode (insn : U32) : Opcode :=
  match (bits32 insn 31 26).toNat with
  | 0x38 => decodeAlu insn
  | 0x06 => decodeUtil insn
  | 0x2e => decodeShift insn
  | 0x31 => decodeMac insn
  | 0x32 => decodeFpx insn
  | 0x00 => .orbis32J
  | 0x01 => .orbis32Jal
  | 0x03 => .orbis32Bnf
  | 0x04 => .orbis32Bf
  | 0x11 => .orbis32Jr
  | 0x12 => .orbis32Jalr
  | 0x27 => .orbis32Addi
  | 0x28 => .orbis32Addic
  | 0x29 => .orbis32Andi
  | 0x2a => .orbis32Ori
  | 0x2b => .orbis32Xori
  | 0x2c => .orbis32Muli
  | 0x1b => .orbis32Lwa
  | 0x20 => .invalidOpcode
  | 0x21 => .orbis32Lwz
  | 0x22 => .orbis32Lws
  | 0x23 => .orbis32Lbz
  | 0x24 => .orbis32Lbs
  | 0x25 => .orbis32Lhz
  | 0x26 => .orbis32Lhs
  | 0x33 => .orbis32Swa
  | 0x34 => .invalidOpcode
  | 0x35 => .orbis32Sw
  | 0x36 => .orbis32Sb
  | 0x37 => .orbis32Sh
  | 0x09 => .orbis32Rfe
  | 0x2d => .orbis32Mfspr
  | 0x30 => .orbis32Mtspr
  | 0x13 => .orbis32Maci
  | 0x1c => .orbis32Cust1
  | 0x1d => .orbis32Cust2
  | 0x1e => .orbis32Cust3
  | 0x1f => .orbis32Cust4
  | 0x3c => .orbis32Cust5
  | 0x3d => .orbis32Cust6
  | 0x3e => .orbis32Cust7
  | 0x3f => .orbis32Cust8
  | _ => decodeLong insn

/-! ## Operand fields -/

def fieldD (w : U32) : Operand := .reg (bits32 w 25 21).toNat
def fieldA (w : U32) : Operand := .reg (bits32 w 20 16).toNat
def fieldB (w : U32) : Operand := .reg (bits32 w 15 11).toNat
def fieldK (w : U32) : U32 := bits32 w 15 0
def fieldI (w : U32) : U32 := signExtend32 (fieldK w) 15
def fieldL (w : U32) : U32 := bits32 w 5 0
/-- The immediate split around `rA` and `rB` (stores and `l.mtspr`). -/
def fieldSplit (w : U32) : U32 := (bits32 w 25 21 <<< 11) ||| (bits32 w 10 0 <<< 0)
/-- A jump distance in bytes. -/
def fieldN (w : U32) : U32 := signExtend32 (bits32 w 25 0 <<< 2) 27

/-! ## Handler families -/

/-- `rD, rA, rB` -/
def regReg (e : Exec) (w : U32) (ci : Instruction) : Instruction :=
  { ci with exec := e, src1 := fieldA w, src2 := fieldB w, dest := fieldD w }

/-- `rD, rA` -/
def regOne (e : Exec) (w : U32) (ci : Instruction) : Instruction :=
  { ci with exec := e, src1 := fieldA w, dest := fieldD w }

/-- `rA, rB` -/
def regPair (e : Exec) (w : U32) (ci : Instruction) : Instruction :=
  { ci with exec := e, src1 := fieldA w, src2 := fieldB w }

/-- `rD, rA` and an immediate -/
def regImm (e : Exec) (imm : U32 → U32) (w : U32) (ci : Instruction) : Instruction :=
  { ci with exec := e, imm := imm w, dest := fieldD w, src1 := fieldA w, src2 := .imm }

/-- `rA` and a sign-extended immediate -/
def oneImm (e : Exec) (w : U32) (ci : Instruction) : Instruction :=
  { ci with exec := e, imm := fieldI w, src1 := fieldA w, src2 := .imm }

/-- `rD, I(rA)` -/
def load (e : Exec) (w : U32) (ci : Instruction) : Instruction :=
  { ci with exec := e, imm := fieldI w, src1 := fieldA w, dest := fieldD w }

/-- `I(rA), rB` -/
def store (e : Exec) (w : U32) (ci : Instruction) : Instruction :=
  { ci with exec := e, imm := signExtend32 (fieldSplit w) 15, src1 := fieldA w, src2 := fieldB w }

def branch (e : Exec) (w : U32) (ci : Instruction) : Instruction :=
  { ci with exec := e, imm := fieldN w }

def immOnly (e : Exec) (w : U32) (ci : Instruction) : Instruction :=
  { ci with exec := e, imm := fieldK w }

def noOperand (e : Exec) (_w : U32) (ci : Instruction) : Instruction := { ci with exec := e }

/-! ## Handlers -/

def decodeOrbis32Mfspr (w : U32) (ci : Instruction) : Instruction :=
  { ci with exec := some .mfspr, imm := fieldK w, src1 := fieldA w, src2 := .imm, dest := fieldD w }

def decodeOrbis32Mtspr (w : U32) (ci : Instruction) : Instruction :=
  { ci with exec := some .mtspr, imm := fieldSplit w, src1 := fieldB w, src2 := .imm,
            dest := fieldA w }

def decodeOrbis32Movhi (w : U32) (ci : Instruction) : Instruction :=
  { ci with exec := some (.core .movhi), imm := fieldK w <<< 16, dest := fieldD w }

def decodeOrbis32Nop (w : U32) (ci : Instruction) : Instruction :=
  { ci with exec := some .nop, imm := fieldK w, src1 := .reg 3 }

def decodeOrbis32J (w : U32) (ci : Instruction) : Instruction :=
  { ci with exec := some (.core .jumpRel), imm := fieldN w, src1 := .null, src2 := .imm }

def decodeOrbis32Jr (w : U32) (ci : Instruction) : Instruction :=
  { ci with exec := some (.core .jumpAbs), src1 := .null, src2 := fieldB w }

def decodeOrbis32Jal (w : U32) (ci : Instruction) : Instruction :=
  { ci with exec := some (.core .jumpRel), imm := fieldN w, src1 := .reg 9, src2 := .imm }

def decodeOrbis32Jalr (w : U32) (ci : Instruction) : Instruction :=
  { ci with exec := some (.core .jumpAbs), src1 := .reg 9, src2 := fieldB w }

/-- The register field of `l.macrc` is nine bits wide. -/
def decodeOrbis32Macrc (w : U32) (ci : Instruction) : Instruction :=
  { ci with exec := some (.core .macrc), dest := .reg (bits32 w 25 17).toNat }

def decodeOrbis32Bf := branch (.core .bf)
def decodeOrbis32Bnf := branch (.core .bnf)
def decodeOrbis32Lwa := load (.mem .lwa)
def decodeOrbis32Lwz := load (.mem .lw)
def decodeOrbis32Lws := load (.mem .lw)
def decodeOrbis32Lhz := load (.mem .lhz)
def decodeOrbis32Lhs := load (.mem .lhs)
def decodeOrbis32Lbz := load (.mem .lbz)
def decodeOrbis32Lbs := load (.mem .lbs)
def decodeOrbis32Swa := store (.mem .swa)
def decodeOrbis32Sw := store (.mem .sw)
def decodeOrbis32Sh := store (.mem .sh)
def decodeOrbis32Sb := store (.mem .sb)
def decodeOrbis32Extwz := regOne (.core .extw)
def decodeOrbis32Extws := regOne (.core .extw)
def decodeOrbis32Exthz := regOne (.core .exthz)
def decodeOrbis32Exths := regOne (.core .exths)
def decodeOrbis32Extbz := regOne (.core .extbz)
def decodeOrbis32Extbs := regOne (.core .extbs)
def decodeOrbis32Add := regReg (.core .add)
def decodeOrbis32Addc := regReg (.core .addc)
def decodeOrbis32Sub := regReg (.core .sub)
def decodeOrbis32And := regReg (.core .and)
def decodeOrbis32Or := regReg (.core .or)
def decodeOrbis32Xor := regReg (.core .xor)
def decodeOrbis32Cmov := regReg (.core .cmov)
def decodeOrbis32Ff1 := regOne (.core .ff1)
def decodeOrbis32Fl1 := regOne (.core .fl1)
def decodeOrbis32Sll := regReg (.core .sll)
def decodeOrbis32Srl := regReg (.core .srl)
def decodeOrbis32Sra := regReg (.core .sra)
def decodeOrbis32Ror := regReg (.core .ror)
def decodeOrbis32Mul := regReg (.core .mul)
def decodeOrbis32Mulu := regReg (.core .mulu)
def decodeOrbis32Muld := regPair (.core .muld)
def decodeOrbis32Muldu := regPair (.core .muldu)
def decodeOrbis32Div := regReg (.core .div)
def decodeOrbis32Divu := regReg (.core .divu)
def decodeOrbis32Addi := regImm (.core .add) fieldI
def decodeOrbis32Addic := regImm (.core .addc) fieldI
def decodeOrbis32Andi := regImm (.core .and) fieldK
def decodeOrbis32Ori := regImm (.core .or) fieldK
def decodeOrbis32Xori := regImm (.core .xor) fieldI
def decodeOrbis32Rori := regImm (.core .ror) fieldL
def decodeOrbis32Slli := regImm (.core .sll) fieldL
def decodeOrbis32Srli := regImm (.core .srl) fieldL
def decodeOrbis32Srai := regImm (.core .sra) fieldL
def decodeOrbis32Muli := regImm (.core .mul) fieldI
def decodeOrbis32Sfeq := regPair (.core .sfeq)
def decodeOrbis32Sfne := regPair (.core .sfne)
def decodeOrbis32Sfgtu := regPair (.core .sfgtu)
def decodeOrbis32Sfgeu := regPair (.core .sfgeu)
def decodeOrbis32Sfltu := regPair (.core .sfltu)
def decodeOrbis32Sfleu := regPair (.core .sfleu)
def decodeOrbis32Sfgts := regPair (.core .sfgts)
def decodeOrbis32Sfges := regPair (.core .sfges)
def decodeOrbis32Sflts := regPair (.core .sflts)
def decodeOrbis32Sfles := regPair (.core .sfles)
def decodeOrbis32Sfeqi := oneImm (.core .sfeq)
def decodeOrbis32Sfnei := oneImm (.core .sfne)
def decodeOrbis32Sfgtui := oneImm (.core .sfgtu)
def decodeOrbis32Sfgeui := oneImm (.core .sfgeu)
def decodeOrbis32Sfltui := oneImm (.core .sfltu)
def decodeOrbis32Sfleui := oneImm (.core .sfleu)
def decodeOrbis32Sfgtsi := oneImm (.core .sfgts)
def decodeOrbis32Sfgesi := oneImm (.core .sfges)
def decodeOrbis32Sfltsi := oneImm (.core .sflts)
def decodeOrbis32Sflesi := oneImm (.core .sfles)
def decodeOrbis32Mac := regPair (.core .mac)
def decodeOrbis32Maci := oneImm (.core .mac)
def decodeOrbis32Macu := regPair (.core .macu)
def decodeOrbis32Msb := regPair (.core .msb)
def decodeOrbis32Msbu := regPair (.core .msbu)
def decodeOrbis32Sys := immOnly (.core .sys)
def decodeOrbis32Trap := immOnly (.core .trap)
def decodeOrbis32Csync := noOperand (.core .csync)
def decodeOrbis32Msync := noOperand (.core .msync)
def decodeOrbis32Psync := noOperand (.core .psync)
def decodeOrbis32Rfe := noOperand .rfe
def decodeOrfpx32Add := regReg (.core (.orfpx32 .add))
def decodeOrfpx32Sub := regReg (.core (.orfpx32 .sub))
def decodeOrfpx32Mul := regReg (.core (.orfpx32 .mul))
def decodeOrfpx32Div := regReg (.core (.orfpx32 .div))
def decodeOrfpx32Itof := regOne (.core (.orfpx32 .itof))
def decodeOrfpx32Ftoi := regOne (.core (.orfpx32 .ftoi))
def decodeOrfpx32Rem := regReg (.core (.orfpx32 .rem))
def decodeOrfpx32Madd := regReg (.core (.orfpx32 .madd))
def decodeOrfpx32Sfeq := regPair (.core (.orfpx32 .sfeq))
def decodeOrfpx32Sfne := regPair (.core (.orfpx32 .sfne))
def decodeOrfpx32Sfgt := regPair (.core (.orfpx32 .sfgt))
def decodeOrfpx32Sfge := regPair (.core (.orfpx32 .sfge))
def decodeOrfpx32Sflt := regPair (.core (.orfpx32 .sflt))
def decodeOrfpx32Sfle := regPair (.core (.orfpx32 .sfle))
def decodeOrfpx64Add := regReg (.core (.orfpx64 .add))
def decodeOrfpx64Sub := regReg (.core (.orfpx64 .sub))
def decodeOrfpx64Mul := regReg (.core (.orfpx64 .mul))
def decodeOrfpx64Div := regReg (.core (.orfpx64 .div))
def decodeOrfpx64Itof := regOne (.core (.orfpx64 .itof))
def decodeOrfpx64Ftoi := regOne (.core (.orfpx64 .ftoi))
def decodeOrfpx64Rem := regReg (.core (.orfpx64 .rem))
def decodeOrfpx64Madd := regReg (.core (.orfpx64 .madd))
def decodeOrfpx64Sfeq := regPair (.core (.orfpx64 .sfeq))
def decodeOrfpx64Sfne := regPair (.core (.orfpx64 .sfne))
def decodeOrfpx64Sfgt := regPair (.core (.orfpx64 .sfgt))
def decodeOrfpx64Sfge := regPair (.core (.orfpx64 .sfge))
def decodeOrfpx64Sflt := regPair (.core (.orfpx64 .sflt))
def decodeOrfpx64Sfle := regPair (.core (.orfpx64 .sfle))

/-- `m_decode_table`; the handlers of custom instructions (`decode_na`) throw. -/
def decodeTable : Opcode → Option (U32 → Instruction → Instruction)
  | .orbis32Nop => some decodeOrbis32Nop
  | .orbis32Mfspr => some decodeOrbis32Mfspr
  | .orbis32Mtspr => some decodeOrbis32Mtspr
  | .orbis32Movhi => some decodeOrbis32Movhi
  | .orbis32J => some decodeOrbis32J
  | .orbis32Jr => some decodeOrbis32Jr
  | .orbis32Jal => some decodeOrbis32Jal
  | .orbis32Jalr => some decodeOrbis32Jalr
  | .orbis32Bf => some decodeOrbis32Bf
  | .orbis32Bnf => some decodeOrbis32Bnf
  | .orbis32Lwa => some decodeOrbis32Lwa
  | .orbis32Lwz => some decodeOrbis32Lwz
  | .orbis32Lws => some decodeOrbis32Lws
  | .orbis32Lhz => some decodeOrbis32Lhz
  | .orbis32Lhs => some decodeOrbis32Lhs
  | .orbis32Lbz => some decodeOrbis32Lbz
  | .orbis32Lbs => some decodeOrbis32Lbs
  | .orbis32Swa => some decodeOrbis32Swa
  | .orbis32Sw => some decodeOrbis32Sw
  | .orbis32Sh => some decodeOrbis32Sh
  | .orbis32Sb => some decodeOrbis32Sb
  | .orbis32Extwz => some decodeOrbis32Extwz
  | .orbis32Extws => some decodeOrbis32Extws
  | .orbis32Exthz => some decodeOrbis32Exthz
  | .orbis32Exths => some decodeOrbis32Exths
  | .orbis32Extbz => some decodeOrbis32Extbz
  | .orbis32Extbs => some decodeOrbis32Extbs
  | .orbis32Add => some decodeOrbis32Add
  | .orbis32Addc => some decodeOrbis32Addc
  | .orbis32Sub => some decodeOrbis32Sub
  | .orbis32And => some decodeOrbis32And
  | .orbis32Or => some decodeOrbis32Or
  | .orbis32Xor => some decodeOrbis32Xor
  | .orbis32Cmov => some decodeOrbis32Cmov
  | .orbis32Ff1 => some decodeOrbis32Ff1
  | .orbis32Fl1 => some decodeOrbis32Fl1
  | .orbis32Sll => some decodeOrbis32Sll
  | .orbis32Srl => some decodeOrbis32Srl
  | .orbis32Sra => some decodeOrbis32Sra
  | .orbis32Ror => some decodeOrbis32Ror
  | .orbis32Mul => some decodeOrbis32Mul
  | .orbis32Mulu => some decodeOrbis32Mulu
  | .orbis32Muld => some decodeOrbis32Muld
  | .orbis32Muldu => some decodeOrbis32Muldu
  | .orbis32Div => some decodeOrbis32Div
  | .orbis32Divu => some decodeOrbis32Divu
  | .orbis32Addi => some decodeOrbis32Addi
  | .orbis32Addic => some decodeOrbis32Addic
  | .orbis32Andi => some decodeOrbis32Andi
  | .orbis32Ori => some decodeOrbis32Ori
  | .orbis32Xori => some decodeOrbis32Xori
  | .orbis32Muli => some decodeOrbis32Muli
  | .orbis32Slli => some decodeOrbis32Slli
  | .orbis32Srli => some decodeOrbis32Srli
  | .orbis32Srai => some decodeOrbis32Srai
  | .orbis32Rori => some decodeOrbis32Rori
  | .orbis32Sfeq => some decodeOrbis32Sfeq
  | .orbis32Sfne => some decodeOrbis32Sfne
  | .orbis32Sfgtu => some decodeOrbis32Sfgtu
  | .orbis32Sfgeu => some decodeOrbis32Sfgeu
  | .orbis32Sfltu => some decodeOrbis32Sfltu
  | .orbis32Sfleu => some decodeOrbis32Sfleu
  | .orbis32Sfgts => some decodeOrbis32Sfgts
  | .orbis32Sfges => some decodeOrbis32Sfges
  | .orbis32Sflts => some decodeOrbis32Sflts
  | .orbis32Sfles => some decodeOrbis32Sfles
  | .orbis32Sfeqi => some decodeOrbis32Sfeqi
  | .orbis32Sfnei => some decodeOrbis32Sfnei
  | .orbis32Sfgtui => some decodeOrbis32Sfgtui
  | .orbis32Sfgeui => some decodeOrbis32Sfgeui
  | .orbis32Sfltui => some decodeOrbis32Sfltui
  | .orbis32Sfleui => some decodeOrbis32Sfleui
  | .orbis32Sfgtsi => some decodeOrbis32Sfgtsi
  | .orbis32Sfgesi => some decodeOrbis32Sfgesi
  | .orbis32Sfltsi => some decodeOrbis32Sfltsi
  | .orbis32Sflesi => some decodeOrbis32Sflesi
  | .orbis32Mac => some decodeOrbis32Mac
  | .orbis32Macu => some decodeOrbis32Macu
  | .orbis32Msb => some decodeOrbis32Msb
  | .orbis32Msbu => some decodeOrbis32Msbu
  | .orbis32Maci => some decodeOrbis32Maci
  | .orbis32Macrc => some decodeOrbis32Macrc
  | .orbis32Sys => some decodeOrbis32Sys
  | .orbis32Trap => some decodeOrbis32Trap
  | .orbis32Msync => some decodeOrbis32Msync
  | .orbis32Psync => some decodeOrbis32Psync
  | .orbis32Csync => some decodeOrbis32Csync
  | .orbis32Rfe => some decodeOrbis32Rfe
  | .orfpx32Add => some decodeOrfpx32Add
  | .orfpx32Div => some decodeOrfpx32Div
  | .orfpx32Ftoi => some decodeOrfpx32Ftoi
  | .orfpx32Itof => some decodeOrfpx32Itof
  | .orfpx32Madd => some decodeOrfpx32Madd
  | .orfpx32Mul => some decodeOrfpx32Mul
  | .orfpx32Rem => some decodeOrfpx32Rem
  | .orfpx32Sfeq => some decodeOrfpx32Sfeq
  | .orfpx32Sfge => some decodeOrfpx32Sfge
  | .orfpx32Sfgt => some decodeOrfpx32Sfgt
  | .orfpx32Sfle => some decodeOrfpx32Sfle
  | .orfpx32Sflt => some decodeOrfpx32Sflt
  | .orfpx32Sfne => some decodeOrfpx32Sfne
  | .orfpx32Sub => some decodeOrfpx32Sub
  | .orfpx64Add => some decodeOrfpx64Add
  | .orfpx64Sub => some decodeOrfpx64Sub
  | .orfpx64Mul => some decodeOrfpx64Mul
  | .orfpx64Div => some decodeOrfpx64Div
  | .orfpx64Itof => some decodeOrfpx64Itof
  | .orfpx64Ftoi => some decodeOrfpx64Ftoi
  | .orfpx64Rem => some decodeOrfpx64Rem
  | .orfpx64Madd => some decodeOrfpx64Madd
  | .orfpx64Sfeq => some decodeOrfpx64Sfeq
  | .orfpx64Sfne => some decodeOrfpx64Sfne
  | .orfpx64Sfgt => some decodeOrfpx64Sfgt
  | .orfpx64Sfge => some decodeOrfpx64Sfge
  | .orfpx64Sflt => some decodeOrfpx64Sflt
  | .orfpx64Sfle => some decodeOrfpx64Sfle
  | _ => none

end Or1kiss
