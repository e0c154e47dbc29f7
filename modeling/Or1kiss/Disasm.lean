import Or1kiss.Fields
import Or1kiss.Printf

/-!
# The disassembler

`disasm.cpp`. The name of the opcode, and behind it the fields of the word. A case of the `switch`
is what it inserts into the stream: pairs of a string and a field, and the string behind the last.
-/

namespace Or1kiss

open Bits

/-- `g_opcode_str` -/
def opcodeStr : Opcode → String
  | .invalidOpcode => "invalid opcode"
  | .orbis32Nop => "l.nop"
  | .orbis32Mfspr => "l.mfspr"
  | .orbis32Mtspr => "l.mtspr"
  | .orbis32Movhi => "l.movhi"
  | .orbis32J => "l.j"
  | .orbis32Jr => "l.jr"
  | .orbis32Jal => "l.jal"
  | .orbis32Jalr => "l.jalr"
  | .orbis32Bf => "l.bf"
  | .orbis32Bnf => "l.bnf"
  | .orbis32Lwa => "l.lwa"
  | .orbis32Lwz => "l.lwz"
  | .orbis32Lws => "l.lws"
  | .orbis32Lhz => "l.lhz"
  | .orbis32Lhs => "l.lhs"
  | .orbis32Lbz => "l.lbz"
  | .orbis32Lbs => "l.lbs"
  | .orbis32Swa => "l.swa"
  | .orbis32Sw => "l.sw"
  | .orbis32Sh => "l.sh"
  | .orbis32Sb => "l.sb"
  | .orbis32Extwz => "l.extwz"
  | .orbis32Extws => "l.extws"
  | .orbis32Exthz => "l.exthz"
  | .orbis32Exths => "l.exths"
  | .orbis32Extbz => "l.extbz"
  | .orbis32Extbs => "l.extbs"
  | .orbis32Add => "l.add"
  | .orbis32Addc => "l.addc"
  | .orbis32Sub => "l.sub"
  | .orbis32And => "l.and"
  | .orbis32Or => "l.or"
  | .orbis32Xor => "l.xor"
  | .orbis32Cmov => "l.cmov"
  | .orbis32Ff1 => "l.ff1"
  | .orbis32Fl1 => "l.fl1"
  | .orbis32Sll => "l.sll"
  | .orbis32Srl => "l.srl"
  | .orbis32Sra => "l.sra"
  | .orbis32Ror => "l.ror"
  | .orbis32Mul => "l.mul"
  | .orbis32Mulu => "l.mulu"
  | .orbis32Muld => "l.muld"
  | .orbis32Muldu => "l.muldu"
  | .orbis32Div => "l.div"
  | .orbis32Divu => "l.divu"
  | .orbis32Addi => "l.addi"
  | .orbis32Addic => "l.addic"
  | .orbis32Andi => "l.andi"
  | .orbis32Ori => "l.ori"
  | .orbis32Xori => "l.xori"
  | .orbis32Muli => "l.muli"
  | .orbis32Slli => "l.slli"
  | .orbis32Srli => "l.srli"
  | .orbis32Srai => "l.srai"
  | .orbis32Rori => "l.rori"
  | .orbis32Sfeq => "l.sfeq"
  | .orbis32Sfne => "l.sfne"
  | .orbis32Sfgtu => "l.sfgtu"
  | .orbis32Sfgeu => "l.sfgeu"
  | .orbis32Sfltu => "l.sfltu"
  | .orbis32Sfleu => "l.sfleu"
  | .orbis32Sfgts => "l.sfgts"
  | .orbis32Sfges => "l.sfges"
  | .orbis32Sflts => "l.sflts"
  | .orbis32Sfles => "l.sfles"
  | .orbis32Sfeqi => "l.sfeqi"
  | .orbis32Sfnei => "l.sfnei"
  | .orbis32Sfgtui => "l.sfgtui"
  | .orbis32Sfgeui => "l.sfgeui"
  | .orbis32Sfltui => "l.sfltui"
  | .orbis32Sfleui => "l.sfleui"
  | .orbis32Sfgtsi => "l.sfgtsi"
  | .orbis32Sfgesi => "l.sfgesi"
  | .orbis32Sfltsi => "l.sfltsi"
  | .orbis32Sflesi => "l.sflesi"
  | .orbis32Mac => "l.mac"
  | .orbis32Macu => "l.macu"
  | .orbis32Msb => "l.msb"
  | .orbis32Msbu => "l.msbu"
  | .orbis32Maci => "l.maci"
  | .orbis32Macrc => "l.macrc"
  | .orbis32Sys => "l.sys"
  | .orbis32Trap => "l.trap"
  | .orbis32Msync => "l.msync"
  | .orbis32Psync => "l.psync"
  | .orbis32Csync => "l.csync"
  | .orbis32Rfe => "l.rfe"
  | .orbis32Cust1 => "l.cust1"
  | .orbis32Cust2 => "l.cust2"
  | .orbis32Cust3 => "l.cust3"
  | .orbis32Cust4 => "l.cust4"
  | .orbis32Cust5 => "l.cust5"
  | .orbis32Cust6 => "l.cust6"
  | .orbis32Cust7 => "l.cust7"
  | .orbis32Cust8 => "l.cust8"
  | .orfpx32Add => "lf.add.s"
  | .orfpx32Cust1 => "lf.cust1.s"
  | .orfpx32Div => "lf.div.s"
  | .orfpx32Ftoi => "lf.ftoi.s"
  | .orfpx32Itof => "lf.itof.s"
  | .orfpx32Madd => "lf.madd.s"
  | .orfpx32Mul => "lf.mul.s"
  | .orfpx32Rem => "lf.rem.s"
  | .orfpx32Sfeq => "lf.sfeq.s"
  | .orfpx32Sfge => "lf.sfge.s"
  | .orfpx32Sfgt => "lf.sfgt.s"
  | .orfpx32Sfle => "lf.sfle.s"
  | .orfpx32Sflt => "lf.sflt.s"
  | .orfpx32Sfne => "lf.sfne.s"
  | .orfpx32Sub => "lf.sub.s"
  | .orfpx64Add => "lf.add.d"
  | .orfpx64Sub => "lf.sub.d"
  | .orfpx64Mul => "lf.mul.d"
  | .orfpx64Div => "lf.div.d"
  | .orfpx64Itof => "lf.itof.d"
  | .orfpx64Ftoi => "lf.ftoi.d"
  | .orfpx64Rem => "lf.rem.d"
  | .orfpx64Madd => "lf.madd.d"
  | .orfpx64Sfeq => "lf.sfeq.d"
  | .orfpx64Sfne => "lf.sfne.d"
  | .orfpx64Sfgt => "lf.sfgt.d"
  | .orfpx64Sfge => "lf.sfge.d"
  | .orfpx64Sflt => "lf.sflt.d"
  | .orfpx64Sfle => "lf.sfle.d"
  | .orfpx64Cust1 => "lf.cust1.d"

/-! ## Fields -/

/-- A register by its number. -/
def regText (i : U32) : List U8 := ascii "r" ++ decimal i.toNat

/-- A signed immediate: hexadecimal, but decimal below zero. -/
def signedText (imm : Int) : List U8 :=
  if 0 ≤ imm then ascii "0x" ++ hexDigits (BitVec.ofInt 32 imm)
  else ascii "-" ++ decimal imm.natAbs

/-- An unsigned immediate; zero has no mark. -/
def unsignedText (imm : U32) : List U8 :=
  if imm = 0#32 then ascii "0" else ascii "0x" ++ hexDigits imm

def regD (insn : U32) : List U8 := regText (bits32 insn 25 21)
def regA (insn : U32) : List U8 := regText (bits32 insn 20 16)
def regB (insn : U32) : List U8 := regText (bits32 insn 15 11)
def immI (insn : U32) : List U8 := signedText (signExtend32 insn 15).toInt

/-- The halfword `temp` is read as a signed one. -/
def immI2 (insn : U32) : List U8 :=
  let temp : BitVec 16 := ((bits32 insn 25 21 <<< 11) ||| (bits32 insn 10 0 <<< 0)).setWidth 16
  signedText temp.toInt

def immK (insn : U32) : List U8 := unsignedText (bits32 insn 15 0)

def immK2 (insn : U32) : List U8 :=
  unsignedText ((bits32 insn 25 21 <<< 11) ||| (bits32 insn 10 0 <<< 0))

def immL (insn : U32) : List U8 := unsignedText (bits32 insn 5 0)
def immN (insn : U32) : List U8 := signedText (signExtend32 insn 25).toInt

/-- The functions that print a field. -/
inductive Field where
  | regD | regA | regB | immI | immI2 | immK | immK2 | immL | immN

def Field.text (insn : U32) : Field → List U8
  | regD => Or1kiss.regD insn
  | regA => Or1kiss.regA insn
  | regB => Or1kiss.regB insn
  | immI => Or1kiss.immI insn
  | immI2 => Or1kiss.immI2 insn
  | immK => Or1kiss.immK insn
  | immK2 => Or1kiss.immK2 insn
  | immL => Or1kiss.immL insn
  | immN => Or1kiss.immN insn

/-! ## Parameters -/

/-- What a case inserts into the stream. -/
structure Parameters where
  fields : List (String × Field)
  closing : String

def Parameters.text (insn : U32) (p : Parameters) : List U8 :=
  (p.fields.flatMap fun sf => ascii sf.1 ++ sf.2.text insn) ++ ascii p.closing

/-- The `switch` of `disassemble`. -/
def parameters : Opcode → Parameters
  | .orbis32Nop => ⟨[(" ", .immK)], ""⟩
  | .orbis32Mfspr => ⟨[(" ", .regD), (",", .regA), (",", .immK)], ""⟩
  | .orbis32Mtspr => ⟨[(" ", .regA), (",", .regB), (",", .immK2)], ""⟩
  | .orbis32Movhi => ⟨[(" ", .regD), (",", .immK)], ""⟩
  | .orbis32Bf | .orbis32Bnf | .orbis32J | .orbis32Jal => ⟨[(" ", .immN)], ""⟩
  | .orbis32Jr | .orbis32Jalr => ⟨[(" ", .regB)], ""⟩
  | .orbis32Lwz | .orbis32Lws | .orbis32Lhz | .orbis32Lhs | .orbis32Lbz | .orbis32Lbs =>
    ⟨[(" ", .regD), (",", .immI), ("(", .regA)], ")"⟩
  | .orbis32Sw | .orbis32Sh | .orbis32Sb => ⟨[(" ", .immI2), ("(", .regA), ("),", .regB)], ""⟩
  | .orbis32Extws | .orbis32Extwz | .orbis32Exths | .orbis32Exthz | .orbis32Extbs
  | .orbis32Extbz => ⟨[(" ", .regD), (",", .regA)], ""⟩
  | .orbis32Add | .orbis32Addc | .orbis32Sub | .orbis32And | .orbis32Or | .orbis32Xor
  | .orbis32Cmov | .orbis32Sll | .orbis32Srl | .orbis32Sra | .orbis32Ror | .orbis32Mulu
  | .orbis32Muldu | .orbis32Divu | .orbis32Mul | .orbis32Muld | .orbis32Div =>
    ⟨[(" ", .regD), (",", .regA), (",", .regB)], ""⟩
  | .orbis32Ff1 | .orbis32Fl1 => ⟨[(" ", .regD), (",", .regA)], ""⟩
  | .orbis32Addi | .orbis32Addic | .orbis32Xori =>
    ⟨[(" ", .regD), (",", .regA), (",", .immI)], ""⟩
  | .orbis32Andi | .orbis32Ori | .orbis32Muli =>
    ⟨[(" ", .regD), (",", .regA), (",", .immK)], ""⟩
  | .orbis32Slli | .orbis32Srli | .orbis32Srai | .orbis32Rori =>
    ⟨[(" ", .regD), (",", .regA), (",", .immL)], ""⟩
  | .orbis32Sfeq | .orbis32Sfne | .orbis32Sfgtu | .orbis32Sfgeu | .orbis32Sfltu | .orbis32Sfleu
  | .orbis32Sfgts | .orbis32Sfges | .orbis32Sflts | .orbis32Sfles =>
    ⟨[(" ", .regA), (",", .regB)], ""⟩
  | .orbis32Sfeqi | .orbis32Sfnei | .orbis32Sfgtui | .orbis32Sfgeui | .orbis32Sfltui
  | .orbis32Sfleui | .orbis32Sfgtsi | .orbis32Sfgesi | .orbis32Sfltsi | .orbis32Sflesi =>
    ⟨[(" ", .regA), (",", .immI)], ""⟩
  | .orfpx32Add | .orfpx32Sub | .orfpx32Mul | .orfpx32Div | .orfpx32Rem | .orfpx32Madd =>
    ⟨[(" ", .regD), (",", .regA), (",", .regB)], ""⟩
  | .orfpx32Itof | .orfpx32Ftoi => ⟨[(" ", .regD), (",", .regA)], ""⟩
  | .orfpx32Sfeq | .orfpx32Sfne | .orfpx32Sfgt | .orfpx32Sfge | .orfpx32Sflt | .orfpx32Sfle =>
    ⟨[(" ", .regA), (",", .regB)], ""⟩
  | .orfpx64Add | .orfpx64Sub | .orfpx64Mul | .orfpx64Div | .orfpx64Rem | .orfpx64Madd =>
    ⟨[(" ", .regD), (",", .regA), (",", .regB)], ""⟩
  | .orfpx64Itof | .orfpx64Ftoi => ⟨[(" ", .regD), (",", .regA)], ""⟩
  | .orfpx64Sfeq | .orfpx64Sfne | .orfpx64Sfgt | .orfpx64Sfge | .orfpx64Sflt | .orfpx64Sfle =>
    ⟨[(" ", .regA), (",", .regB)], ""⟩
  | _ => ⟨[], ""⟩

def disassemble (insn : U32) : List U8 :=
  let opcode := decode insn
  if opcode = .invalidOpcode then ascii "invalid opcode"
  else padRight 7 (ascii (opcodeStr opcode)) ++ (parameters opcode).text insn

/-! ## Signed fields -/

variable (insn : U32) {k : Nat}

/-- The bits above the sign bit do not count. -/
theorem signExtend32_eq (hk : k < 32) :
    signExtend32 insn k = (insn.setWidth (k + 1)).signExtend 32 := by
  rw [← signExtend32_setWidth hk]
  unfold signExtend32
  congr 1
  ext i hi
  simp only [BitVec.getElem_shiftLeft, BitVec.getElem_setWidth, BitVec.getLsbD_setWidth]
  by_cases h : i < 31 - k
  · simp [h]
  · have h1 : i - (31 - k) < k + 1 := by omega
    have h2 : i - (31 - k) < 32 := by omega
    simp [h, h1, BitVec.getLsbD_eq_getElem h2]

/-- A signed field of `k + 1` bits. -/
theorem toInt_signExtend32 (hk : k < 32) :
    (signExtend32 insn k).toInt = (insn.setWidth (k + 1)).toInt := by
  rw [signExtend32_eq insn hk, BitVec.toInt_signExtend_of_le (by omega)]

/-! ## Lengths -/

theorem length_ascii (s : String) : (ascii s).length = s.length := List.length_map _

theorem length_regText {i : U32} (h : i.toNat < 10 ^ 2) : (regText i).length ≤ 3 := by
  have hd := (length_decimal_le_iff (by decide)).2 h
  unfold regText
  rw [List.length_append, length_ascii]
  exact Nat.add_le_add_left hd 1

theorem length_unsignedText {imm : U32} (hk : 0 < k) (h : imm.toNat < 16 ^ k) :
    (unsignedText imm).length ≤ k + 2 := by
  have hd := (length_hexDigits_le_iff hk).2 h
  unfold unsignedText
  split
  · exact Nat.succ_le_succ (Nat.zero_le _)
  · rw [List.length_append, length_ascii, Nat.add_comm k]
    exact Nat.add_le_add_left hd 2

theorem toNat_ofInt {z : Int} (h0 : 0 ≤ z) (h : z < 2 ^ 32) : ((BitVec.ofInt 32 z).toNat : Int) = z := by
  rw [BitVec.toNat_ofInt]
  omega

theorem length_signedText {z : Int} (hk : 0 < k) (h8 : k ≤ 8) (hneg : z.natAbs < 10 ^ (k + 1))
    (hpos : z < 16 ^ k) : (signedText z).length ≤ k + 2 := by
  unfold signedText
  split
  · rename_i h0
    have hpow : (16 : Int) ^ k ≤ 2 ^ 32 := by
      have hle : 16 ^ k ≤ 16 ^ 8 := Nat.pow_le_pow_right (by decide) h8
      exact_mod_cast hle
    have hz := toNat_ofInt h0 (by omega)
    have hlt : (BitVec.ofInt 32 z).toNat < 16 ^ k := by
      rw [← hz] at hpos
      exact_mod_cast hpos
    have hd := (length_hexDigits_le_iff hk).2 hlt
    rw [List.length_append, length_ascii, Nat.add_comm k]
    exact Nat.add_le_add_left hd 2
  · have hd := (length_decimal_le_iff (Nat.succ_pos k)).2 hneg
    have hminus : "-".length = 1 := rfl
    rw [List.length_append, length_ascii]
    omega

/-- The longest text of a field. -/
def Field.width : Field → Nat
  | regD | regA | regB => 3
  | immI | immI2 | immK | immK2 => 6
  | immL => 4
  | immN => 9

/-- The split immediate has sixteen bits. -/
theorem fieldSplit_lt : (fieldSplit insn).toNat < 2 ^ 16 := by
  have hhigh := bits32_lt insn (show 25 < 32 by decide) (show 21 ≤ 25 by decide)
  have hlow := bits32_lt insn (show 10 < 32 by decide) (show 0 ≤ 10 by decide)
  unfold fieldSplit
  rw [BitVec.toNat_or]
  refine Nat.or_lt_two_pow ?_ ?_
  · rw [BitVec.toNat_shiftLeft, Nat.shiftLeft_eq]
    omega
  · rw [BitVec.shiftLeft_zero]
    omega

/-- A signed field of sixteen bits. -/
theorem length_signedText_half (h : BitVec 16) : (signedText h.toInt).length ≤ 6 := by
  have hle := BitVec.le_toInt h
  have hlt := BitVec.toInt_lt (x := h)
  exact length_signedText (k := 4) (by decide) (by decide) (by omega) (by omega)

theorem Field.length_text (f : Field) : (f.text insn).length ≤ f.width := by
  have hreg : ∀ {l r : Nat}, l < 32 → l = r + 4 → (regText (bits32 insn l r)).length ≤ 3 := by
    intro l r hl hr
    have hlt := bits32_lt insn hl (show r ≤ l by omega)
    rw [show l + 1 - r = 5 by omega] at hlt
    exact length_regText (by omega)
  cases f with
  | regD => exact hreg (by decide) rfl
  | regA => exact hreg (by decide) rfl
  | regB => exact hreg (by decide) rfl
  | immI =>
    show (signedText (signExtend32 insn 15).toInt).length ≤ 6
    rw [toInt_signExtend32 insn (by decide)]
    exact length_signedText_half _
  | immI2 => exact length_signedText_half _
  | immK =>
    exact length_unsignedText (k := 4) (by decide)
      (bits32_lt insn (show 15 < 32 by decide) (show 0 ≤ 15 by decide))
  | immK2 => exact length_unsignedText (k := 4) (by decide) (fieldSplit_lt insn)
  | immL =>
    have hlt := bits32_lt insn (show 5 < 32 by decide) (show 0 ≤ 5 by decide)
    exact length_unsignedText (k := 2) (by decide) (by omega)
  | immN =>
    have hle := BitVec.le_toInt (insn.setWidth 26)
    have hlt := BitVec.toInt_lt (x := insn.setWidth 26)
    have hz : (signExtend32 insn 25).toInt = (insn.setWidth 26).toInt :=
      toInt_signExtend32 insn (by decide)
    show (signedText (signExtend32 insn 25).toInt).length ≤ 9
    rw [hz]
    exact length_signedText (k := 7) (by decide) (by decide) (by omega) (by omega)

/-- The longest text of the parameters. -/
def Parameters.width (p : Parameters) : Nat :=
  (p.fields.map fun sf => sf.1.length + sf.2.width).sum + p.closing.length

theorem Parameters.length_text (p : Parameters) : (p.text insn).length ≤ p.width := by
  have hfields : ∀ l : List (String × Field),
      (l.flatMap fun sf => ascii sf.1 ++ sf.2.text insn).length ≤
        (l.map fun sf => sf.1.length + sf.2.width).sum := by
    intro l
    induction l with
    | nil => exact Nat.le_refl 0
    | cons sf l ih =>
      have hf := sf.2.length_text insn
      rw [List.flatMap_cons, List.length_append, List.length_append, length_ascii, List.map_cons,
        List.sum_cons]
      omega
  unfold text width
  rw [List.length_append, length_ascii]
  exact Nat.add_le_add_right (hfields _) _

/-- No instruction is longer than the column for it in a trace. -/
theorem length_disassemble : (disassemble insn).length ≤ 24 := by
  have hop : ∀ op : Opcode, max 7 (opcodeStr op).length + (parameters op).width ≤ 24 := by
    intro op
    cases op <;> decide
  unfold disassemble
  dsimp only
  split
  · rw [length_ascii]
    decide
  · have hp := (parameters (decode insn)).length_text insn
    have hn := hop (decode insn)
    rw [List.length_append, length_padRight, length_ascii]
    omega

end Or1kiss
