import Or1kiss.Disasm

/-!
# The operands that are shown

A trace shows the text of an instruction, and the decoder binds the operands that are executed.
Both take the fields of the word on their own. `shownOperands` reads the numbers back from the
text.
-/

namespace Or1kiss

open Bits

/-! ## Reading -/

/-- An operand as it is printed: the number of a register, or a signed number. -/
inductive Shown where
  | reg (n : Nat)
  | imm (z : Int)
  deriving DecidableEq, Repr

def readDecimal (ds : List U8) : Option Nat :=
  if ds.isEmpty || !ds.all isDecimalDigit then none else some (decimalValue ds)

def readHex (ds : List U8) : Option Nat :=
  if ds.isEmpty || !ds.all isHexDigit then none else some (hexValue ds)

/-- A register, a negative, a hexadecimal or a decimal number. -/
def readOperand (t : List U8) : Option Shown :=
  if t.head? = some (chr 'r') then (readDecimal t.tail).map .reg
  else if t.head? = some (chr '-') then (readDecimal t.tail).map fun n : Nat => .imm (-n)
  else if t.take 2 = ascii "0x" then (readHex (t.drop 2)).map fun n : Nat => .imm n
  else (readDecimal t).map fun n : Nat => .imm n

/-- What stands between operands. -/
def isSeparator (c : U8) : Bool := (ascii " ,()").contains c

/-- The words of a text. -/
def words (s : List U8) : List (List U8) := (s.splitOnP isSeparator).filter fun t => !t.isEmpty

/-- The operands behind the name of an instruction. -/
def shownOperands (text : List U8) : List (Option Shown) :=
  (words (text.dropWhile fun c => c != chr ' ')).map readOperand

variable (insn : U32)

theorem readDecimal_decimal (n : Nat) : readDecimal (decimal n) = some n := by
  have hne : (decimal n).isEmpty = false := List.isEmpty_eq_false_iff.2 decimal_ne_nil
  have hall : (decimal n).all isDecimalDigit = true := List.all_eq_true.2 fun _ hc => mem_decimal hc
  unfold readDecimal
  rw [hne, hall, decimalValue_decimal]
  rfl

theorem readHex_hexDigits (v : U32) : readHex (hexDigits v) = some v.toNat := by
  have hv := spells_hexDigits v
  have hne : (hexDigits v).isEmpty = false := List.isEmpty_eq_false_iff.2 hv.nonempty
  have hall : (hexDigits v).all isHexDigit = true := List.all_eq_true.2 hv.digits
  unfold readHex
  rw [hne, hall, hv.value]
  rfl

theorem readOperand_regText (i : U32) : readOperand (regText i) = some (.reg i.toNat) := by
  show (readDecimal (decimal i.toNat)).map Shown.reg = _
  rw [readDecimal_decimal]
  rfl

theorem readOperand_hex (v : U32) : readOperand (ascii "0x" ++ hexDigits v) = some (.imm v.toNat) := by
  show (readHex (hexDigits v)).map (fun n : Nat => Shown.imm n) = _
  rw [readHex_hexDigits]
  rfl

theorem readOperand_unsignedText (v : U32) : readOperand (unsignedText v) = some (.imm v.toNat) := by
  unfold unsignedText
  split
  · rename_i h
    rw [h]
    decide
  · exact readOperand_hex v

theorem readOperand_signedText {z : Int} (h : z < 2 ^ 32) :
    readOperand (signedText z) = some (.imm z) := by
  unfold signedText
  split
  · rename_i h0
    rw [readOperand_hex, toNat_ofInt h0 h]
  · show (readDecimal (decimal z.natAbs)).map (fun n : Nat => Shown.imm (-n)) = _
    rw [readDecimal_decimal, Option.map_some, Option.some.injEq, Shown.imm.injEq]
    omega

/-- The value of a field. -/
def Field.value : Field → Shown
  | regD => .reg (bits32 insn 25 21).toNat
  | regA => .reg (bits32 insn 20 16).toNat
  | regB => .reg (bits32 insn 15 11).toNat
  | immI => .imm (signExtend32 insn 15).toInt
  | immI2 => .imm ((fieldSplit insn).setWidth 16).toInt
  | immK => .imm (bits32 insn 15 0).toNat
  | immK2 => .imm (fieldSplit insn).toNat
  | immL => .imm (bits32 insn 5 0).toNat
  | immN => .imm (signExtend32 insn 25).toInt

theorem toInt_lt {w : Nat} (v : BitVec w) (hw : w ≤ 32) : v.toInt < 2 ^ 32 := by
  have hlt := BitVec.toInt_lt (x := v)
  have hle : (2 : Int) ^ (w - 1) ≤ 2 ^ 32 := by
    exact_mod_cast Nat.pow_le_pow_right (show 0 < 2 by decide) (show w - 1 ≤ 32 by omega)
  omega

/-- A field is read back from its text. -/
theorem Field.readOperand_text (f : Field) : readOperand (f.text insn) = some (f.value insn) := by
  unfold text value
  cases f with
  | regD => exact readOperand_regText (bits32 insn 25 21)
  | regA => exact readOperand_regText (bits32 insn 20 16)
  | regB => exact readOperand_regText (bits32 insn 15 11)
  | immI =>
    dsimp only
    unfold Or1kiss.immI
    exact readOperand_signedText (toInt_lt _ (Nat.le_refl 32))
  | immI2 =>
    dsimp only
    unfold Or1kiss.immI2
    exact readOperand_signedText (toInt_lt _ (by decide))
  | immK => exact readOperand_unsignedText (bits32 insn 15 0)
  | immK2 => exact readOperand_unsignedText (fieldSplit insn)
  | immL => exact readOperand_unsignedText (bits32 insn 5 0)
  | immN =>
    dsimp only
    unfold Or1kiss.immN
    exact readOperand_signedText (toInt_lt _ (Nat.le_refl 32))

/-! ## The words of an instruction -/

theorem not_separator_of_hex {c : U8} (h : isHexDigit c = true) : isSeparator c = false := by
  revert c
  decide +kernel

theorem not_separator_of_decimal {c : U8} (h : isDecimalDigit c = true) : isSeparator c = false := by
  revert c
  decide +kernel

theorem Field.not_separator (f : Field) : ∀ c ∈ f.text insn, isSeparator c = false := by
  have hreg : ∀ i : U32, ∀ c ∈ regText i, isSeparator c = false := by
    intro i c hc
    rcases List.mem_append.1 hc with hc | hc
    · rw [List.mem_singleton.1 hc]
      decide
    · exact not_separator_of_decimal (mem_decimal hc)
  have hhex : ∀ v : U32, ∀ c ∈ ascii "0x" ++ hexDigits v, isSeparator c = false := by
    intro v c hc
    have hmark : ∀ c ∈ ascii "0x", isSeparator c = false := by decide
    rcases List.mem_append.1 hc with hc | hc
    · exact hmark c hc
    · exact not_separator_of_hex (mem_hexDigits hc)
  have hunsigned : ∀ v : U32, ∀ c ∈ unsignedText v, isSeparator c = false := by
    intro v
    unfold unsignedText
    split
    · decide
    · exact hhex v
  have hsigned : ∀ z : Int, ∀ c ∈ signedText z, isSeparator c = false := by
    intro z
    unfold signedText
    split
    · exact hhex _
    · intro c hc
      rcases List.mem_append.1 hc with hc | hc
      · rw [List.mem_singleton.1 hc]
        decide
      · exact not_separator_of_decimal (mem_decimal hc)
  unfold text
  cases f with
  | regD | regA | regB => exact hreg _
  | immI =>
    dsimp only
    unfold Or1kiss.immI
    exact hsigned _
  | immI2 =>
    dsimp only
    unfold Or1kiss.immI2
    exact hsigned _
  | immN =>
    dsimp only
    unfold Or1kiss.immN
    exact hsigned _
  | immK | immK2 | immL => exact hunsigned _

theorem Field.text_ne_nil (f : Field) : f.text insn ≠ [] := by
  intro h
  have hread := f.readOperand_text insn
  rw [h] at hread
  cases hread

variable {t s : List U8} {c : U8}

theorem words_separator (h : isSeparator c = true) : words (c :: s) = words s := by
  unfold words
  rw [← List.nil_append (c :: s),
    List.splitOnP_append_cons_of_forall_mem (fun _ hd => absurd hd List.not_mem_nil) c h]
  rfl

theorem words_separators (h : t.all isSeparator = true) : words (t ++ s) = words s := by
  induction t with
  | nil => rfl
  | cons c t ih =>
    obtain ⟨hc, ht⟩ := Bool.and_eq_true_iff.1 h
    rw [List.cons_append, words_separator hc, ih ht]

/-- A word up to the separator behind it. -/
theorem words_word (hne : t ≠ []) (ht : ∀ c ∈ t, isSeparator c = false)
    (hs : ∀ c, s.head? = some c → isSeparator c = true) : words (t ++ s) = t :: words s := by
  have hkeep : (!t.isEmpty) = true := by
    rw [Bool.not_eq_true', List.isEmpty_eq_false_iff]
    exact hne
  cases s with
  | nil =>
    unfold words
    rw [List.append_nil, List.splitOnP_eq_singleton ht,
      List.filter_cons_of_pos (p := fun t : List U8 => !t.isEmpty) hkeep]
    rfl
  | cons c s =>
    have hc := hs c rfl
    rw [words_separator hc]
    unfold words
    rw [List.splitOnP_append_cons_of_forall_mem ht c hc,
      List.filter_cons_of_pos (p := fun t : List U8 => !t.isEmpty) hkeep]

namespace Parameters

/-- Separators stand between the fields, the first one a blank. -/
def spaced (p : Parameters) : Bool :=
  (p.fields.all fun sf => !(ascii sf.1).isEmpty && (ascii sf.1).all isSeparator) &&
    (ascii p.closing).all isSeparator &&
    match p.fields with
    | [] => p.closing == ""
    | sf :: _ => sf.1 == " "

theorem spaced_parameters (op : Opcode) : (parameters op).spaced = true := by
  cases op <;> decide

theorem words_fields {l : List (String × Field)} {closing : List U8}
    (hl : (l.all fun sf => !(ascii sf.1).isEmpty && (ascii sf.1).all isSeparator) = true)
    (hc : closing.all isSeparator = true) :
    words ((l.flatMap fun sf => ascii sf.1 ++ sf.2.text insn) ++ closing) =
      l.map fun sf => sf.2.text insn := by
  induction l with
  | nil =>
    rw [List.flatMap_nil, List.nil_append, ← List.append_nil closing, words_separators hc]
    rfl
  | cons sf l ih =>
    obtain ⟨hsf, hl⟩ := Bool.and_eq_true_iff.1 hl
    obtain ⟨-, hseps⟩ := Bool.and_eq_true_iff.1 hsf
    rw [List.flatMap_cons, List.append_assoc, List.append_assoc, words_separators hseps,
      words_word (sf.2.text_ne_nil insn) (sf.2.not_separator insn), ih hl]
    · rfl
    · -- what follows a field is the string of the next one, or the closing one
      intro c hhead
      cases l with
      | nil =>
        rw [List.flatMap_nil, List.nil_append] at hhead
        exact List.all_eq_true.1 hc c (List.mem_of_head? hhead)
      | cons sg l =>
        obtain ⟨hsg, -⟩ := Bool.and_eq_true_iff.1 hl
        obtain ⟨hne, hseps⟩ := Bool.and_eq_true_iff.1 hsg
        rw [Bool.not_eq_true', List.isEmpty_eq_false_iff] at hne
        rw [List.flatMap_cons, List.append_assoc, List.append_assoc, List.head?_append_of_ne_nil _ hne]
          at hhead
        exact List.all_eq_true.1 hseps c (List.mem_of_head? hhead)

theorem words_text {p : Parameters} (hp : p.spaced = true) :
    words (p.text insn) = p.fields.map fun sf => sf.2.text insn := by
  obtain ⟨hp, -⟩ := Bool.and_eq_true_iff.1 hp
  obtain ⟨hl, hc⟩ := Bool.and_eq_true_iff.1 hp
  exact words_fields insn hl hc

/-- Parameters start with a blank. -/
theorem head_text {p : Parameters} (hp : p.spaced = true) :
    ∀ c, (p.text insn).head? = some c → c = chr ' ' := by
  obtain ⟨-, hhead⟩ := Bool.and_eq_true_iff.1 hp
  obtain ⟨fields, closing⟩ := p
  intro c hc
  cases fields with
  | nil =>
    have hclosing : closing = "" := beq_iff_eq.1 hhead
    subst hclosing
    cases hc
  | cons sf l =>
    obtain ⟨s, f⟩ := sf
    have hs : s = " " := beq_iff_eq.1 hhead
    subst hs
    unfold text at hc
    rw [List.flatMap_cons, List.append_assoc, List.append_assoc,
      show ascii " " = [chr ' '] from rfl] at hc
    exact (Option.some.inj hc).symm

end Parameters

/-- The name of an opcode has no blank. -/
theorem opcodeStr_no_blank {op : Opcode} (h : op ≠ .invalidOpcode) :
    ∀ c ∈ ascii (opcodeStr op), (c != chr ' ') = true := by
  have hcheck : (op == .invalidOpcode || (ascii (opcodeStr op)).all fun c => c != chr ' ') = true := by
    cases op <;> rfl
  rw [Bool.or_eq_true, beq_iff_eq, List.all_eq_true] at hcheck
  exact hcheck.resolve_left h

theorem dropWhile_of_head {p : U8 → Bool} (h : ∀ c, s.head? = some c → p c = false) :
    s.dropWhile p = s := by
  cases s with
  | nil => rfl
  | cons c s => rw [List.dropWhile_cons_of_neg (by rw [h c rfl]; exact Bool.false_ne_true)]

/-- What is read from the text of an instruction are the values of its fields. -/
theorem shownOperands_disassemble (h : decode insn ≠ .invalidOpcode) :
    shownOperands (disassemble insn) =
      (parameters (decode insn)).fields.map fun sf => some (sf.2.value insn) := by
  have hp := Parameters.spaced_parameters (decode insn)
  have hblanks : (List.replicate (7 - (ascii (opcodeStr (decode insn))).length) (chr ' ')).all
      isSeparator = true := by
    rw [List.all_replicate]
    split <;> rfl
  have hdrop : (disassemble insn).dropWhile (fun c => c != chr ' ') =
      List.replicate (7 - (ascii (opcodeStr (decode insn))).length) (chr ' ') ++
        (parameters (decode insn)).text insn := by
    unfold disassemble padRight
    dsimp only
    rw [if_neg h, List.append_assoc, List.dropWhile_append_of_pos (opcodeStr_no_blank h)]
    refine dropWhile_of_head fun c hc => ?_
    generalize 7 - (ascii (opcodeStr (decode insn))).length = n at hc
    cases n with
    | zero =>
      rw [Parameters.head_text insn hp c hc]
      decide
    | succ n =>
      rw [← Option.some.inj hc]
      decide
  unfold shownOperands
  rw [hdrop, words_separators hblanks, Parameters.words_text insn hp, List.map_map]
  exact List.map_congr_left fun sf _ => sf.2.readOperand_text insn

/-! ## Operands of the decoder -/

/-- The handler binds an operand that is shown: a register as one of its operands, or a number,
counted in units, as its immediate. -/
def BoundBy (unit : Int) (handler : U32 → Instruction → Instruction) : Shown → Prop
  | .reg n => ∀ ci, (handler insn ci).dest = .reg n ∨ (handler insn ci).src1 = .reg n ∨
      (handler insn ci).src2 = .reg n
  | .imm z => ∀ ci, (handler insn ci).imm = BitVec.ofInt 32 (unit * z)

theorem setWidth_bits32 {k : Nat} (hk : k < 32) :
    (bits32 insn k 0).setWidth (k + 1) = insn.setWidth (k + 1) := by
  apply BitVec.eq_of_toNat_eq
  rw [BitVec.toNat_setWidth, BitVec.toNat_setWidth, bits32_toNat insn hk (Nat.zero_le k), pow_zero,
    Nat.div_one, Nat.sub_zero, Nat.mod_mod]

theorem fieldK_eq : fieldK insn = BitVec.ofInt 32 (1 * (bits32 insn 15 0).toNat) := by
  rw [one_mul, BitVec.ofInt_natCast, BitVec.ofNat_toNat, BitVec.setWidth_eq]
  rfl

theorem fieldL_eq : fieldL insn = BitVec.ofInt 32 (1 * (bits32 insn 5 0).toNat) := by
  rw [one_mul, BitVec.ofInt_natCast, BitVec.ofNat_toNat, BitVec.setWidth_eq]
  rfl

theorem fieldSplit_eq : fieldSplit insn = BitVec.ofInt 32 (1 * (fieldSplit insn).toNat) := by
  rw [one_mul, BitVec.ofInt_natCast, BitVec.ofNat_toNat, BitVec.setWidth_eq]

theorem fieldI_eq : fieldI insn = BitVec.ofInt 32 (1 * (signExtend32 insn 15).toInt) := by
  have h16 : (fieldK insn).setWidth 16 = insn.setWidth 16 := setWidth_bits32 insn (by decide)
  unfold fieldI
  rw [one_mul, BitVec.ofInt_toInt, signExtend32_eq _ (by decide), signExtend32_eq _ (by decide)]
  exact congrArg (BitVec.signExtend 32) h16

theorem storeOffset_eq : signExtend32 (fieldSplit insn) 15 =
    BitVec.ofInt 32 (1 * ((fieldSplit insn).setWidth 16).toInt) := by
  have h16 := toInt_signExtend32 (fieldSplit insn) (show 15 < 32 by decide)
  rw [one_mul, ← h16, BitVec.ofInt_toInt]

/-- A jump distance in words. -/
theorem fieldN_eq : fieldN insn = BitVec.ofInt 32 (4 * (signExtend32 insn 25).toInt) := by
  have hshift : (bits32 insn 25 0 <<< 2).setWidth 28 = insn.setWidth 26 ++ 0#2 := by
    have hb := bits32_toNat insn (show 25 < 32 by decide) (Nat.zero_le 25)
    apply BitVec.eq_of_toNat_eq
    rw [append_toNat, BitVec.toNat_setWidth, BitVec.toNat_setWidth, BitVec.toNat_shiftLeft,
      Nat.shiftLeft_eq, hb]
    have hz : (0#2).toNat = 0 := rfl
    omega
  have hz : (signExtend32 insn 25).toInt = (insn.setWidth 26).toInt :=
    toInt_signExtend32 insn (by decide)
  unfold fieldN
  rw [signExtend32_eq _ (show 27 < 32 by decide), hz]
  show BitVec.signExtend 32 ((bits32 insn 25 0 <<< 2).setWidth 28) = _
  rw [hshift, BitVec.signExtend, BitVec.toInt_append]
  simp

theorem movhi_eq : fieldK insn <<< 16 = BitVec.ofInt 32 (65536 * (bits32 insn 15 0).toNat) := by
  have hcast : (65536 * (bits32 insn 15 0).toNat : Int) =
      ((65536 * (bits32 insn 15 0).toNat : Nat) : Int) := by
    push_cast
    rfl
  apply BitVec.eq_of_toNat_eq
  rw [hcast, BitVec.ofInt_natCast, BitVec.toNat_ofNat, BitVec.toNat_shiftLeft, Nat.shiftLeft_eq,
    Nat.mul_comm]
  rfl

/-- Below its sign bit a halfword is its own extension. -/
theorem fieldI_of_clear (h : bit32 insn 15 = 0#32) :
    fieldI insn = BitVec.ofInt 32 (1 * (bits32 insn 15 0).toNat) := by
  have hbit : insn.toNat / 2 ^ 15 % 2 = 0 := by
    have hn := congrArg BitVec.toNat h
    unfold bit32 at hn
    rw [BitVec.toNat_and, BitVec.toNat_ushiftRight, Nat.shiftRight_eq_div_pow] at hn
    exact (Nat.and_one_is_mod _).symm.trans hn
  have hk := bits32_toNat insn (show 15 < 32 by decide) (Nat.zero_le 15)
  have h16 : (insn.setWidth 16).toNat = (bits32 insn 15 0).toNat := by
    rw [hk, BitVec.toNat_setWidth]
    omega
  have hz : (signExtend32 insn 15).toInt = (insn.setWidth 16).toInt :=
    toInt_signExtend32 insn (by decide)
  rw [fieldI_eq, hz, BitVec.toInt_eq_toNat_of_lt (by omega), h16]

/-! ## What is shown is bound -/

/-- Jump offsets are shown in words. -/
def wordUnit : Opcode → Int
  | .orbis32J | .orbis32Jal | .orbis32Bf | .orbis32Bnf => 4
  | _ => 1

/-- `l.movhi` is shown with the upper half of its operand. -/
def shownUnit : Opcode → Int
  | .orbis32Movhi => 0x10000
  | op => wordUnit op

/-- An operand that is shown is one that the handler for the word binds. -/
def ShowsBound (unit : Opcode → Int) (x : Option Shown) : Prop :=
  ∃ y handler, x = some y ∧ decodeTable (decode insn) = some handler ∧
    BoundBy insn (unit (decode insn)) handler y

/-- Without `rD` of `l.muld` and `l.muldu`, and the immediate of `l.muli` if it is negative. -/
def bindable {α : Type} : Opcode → List α → List α
  | .orbis32Muld, l | .orbis32Muldu, l => l.drop 1
  | .orbis32Muli, l => if bit32 insn 15 = 0#32 then l else l.take 2
  | _, l => l

theorem bindable_map {α β : Type} (f : α → β) (op : Opcode) (l : List α) :
    bindable insn op (l.map f) = (bindable insn op l).map f := by
  unfold bindable
  split
  · exact List.map_drop.symm
  · exact List.map_drop.symm
  · split
    · rfl
    · exact List.map_take.symm
  · rfl

theorem bound_of {op : Opcode} {handler : U32 → Instruction → Instruction} {unit : Int}
    {l : List (String × Field)} (hd : decodeTable op = some handler)
    (h : l.Forall fun sf => BoundBy insn unit handler (sf.2.value insn)) :
    l.Forall fun sf => ∃ handler, decodeTable op = some handler ∧
      BoundBy insn unit handler (sf.2.value insn) :=
  h.imp fun _ hb => ⟨handler, hd, hb⟩

/-- Opcode by opcode. -/
theorem bindable_bound (op : Opcode) : (bindable insn op (parameters op).fields).Forall fun sf =>
    ∃ handler, decodeTable op = some handler ∧
      BoundBy insn (shownUnit op) handler (sf.2.value insn) := by
  cases op with
  | orbis32Nop => exact bound_of insn rfl fun _ => fieldK_eq insn
  | orbis32Mfspr =>
    exact bound_of insn rfl ⟨fun _ => .inl rfl, fun _ => .inr (.inl rfl), fun _ => fieldK_eq insn⟩
  | orbis32Mtspr =>
    exact bound_of insn rfl ⟨fun _ => .inl rfl, fun _ => .inr (.inl rfl), fun _ => fieldSplit_eq insn⟩
  | orbis32Movhi => exact bound_of insn rfl ⟨fun _ => .inl rfl, fun _ => movhi_eq insn⟩
  | orbis32Bf | orbis32Bnf | orbis32J | orbis32Jal => exact bound_of insn rfl fun _ => fieldN_eq insn
  | orbis32Jr | orbis32Jalr => exact bound_of insn rfl fun _ => .inr (.inr rfl)
  | orbis32Lwz | orbis32Lws | orbis32Lhz | orbis32Lhs | orbis32Lbz | orbis32Lbs =>
    exact bound_of insn rfl ⟨fun _ => .inl rfl, fun _ => fieldI_eq insn, fun _ => .inr (.inl rfl)⟩
  | orbis32Sw | orbis32Sh | orbis32Sb =>
    exact bound_of insn rfl
      ⟨fun _ => storeOffset_eq insn, fun _ => .inr (.inl rfl), fun _ => .inr (.inr rfl)⟩
  | orbis32Extws | orbis32Extwz | orbis32Exths | orbis32Exthz | orbis32Extbs | orbis32Extbz
  | orbis32Ff1 | orbis32Fl1 | orfpx32Itof | orfpx32Ftoi | orfpx64Itof | orfpx64Ftoi =>
    exact bound_of insn rfl ⟨fun _ => .inl rfl, fun _ => .inr (.inl rfl)⟩
  | orbis32Add | orbis32Addc | orbis32Sub | orbis32And | orbis32Or | orbis32Xor | orbis32Cmov
  | orbis32Sll | orbis32Srl | orbis32Sra | orbis32Ror | orbis32Mulu | orbis32Divu | orbis32Mul
  | orbis32Div | orfpx32Add | orfpx32Sub | orfpx32Mul | orfpx32Div | orfpx32Rem | orfpx32Madd
  | orfpx64Add | orfpx64Sub | orfpx64Mul | orfpx64Div | orfpx64Rem | orfpx64Madd =>
    exact bound_of insn rfl
      ⟨fun _ => .inl rfl, fun _ => .inr (.inl rfl), fun _ => .inr (.inr rfl)⟩
  | orbis32Addi | orbis32Addic | orbis32Xori =>
    exact bound_of insn rfl ⟨fun _ => .inl rfl, fun _ => .inr (.inl rfl), fun _ => fieldI_eq insn⟩
  | orbis32Andi | orbis32Ori =>
    exact bound_of insn rfl ⟨fun _ => .inl rfl, fun _ => .inr (.inl rfl), fun _ => fieldK_eq insn⟩
  | orbis32Slli | orbis32Srli | orbis32Srai | orbis32Rori =>
    exact bound_of insn rfl ⟨fun _ => .inl rfl, fun _ => .inr (.inl rfl), fun _ => fieldL_eq insn⟩
  | orbis32Sfeq | orbis32Sfne | orbis32Sfgtu | orbis32Sfgeu | orbis32Sfltu | orbis32Sfleu
  | orbis32Sfgts | orbis32Sfges | orbis32Sflts | orbis32Sfles | orbis32Muld | orbis32Muldu
  | orfpx32Sfeq | orfpx32Sfne | orfpx32Sfgt | orfpx32Sfge | orfpx32Sflt | orfpx32Sfle
  | orfpx64Sfeq | orfpx64Sfne | orfpx64Sfgt | orfpx64Sfge | orfpx64Sflt | orfpx64Sfle =>
    exact bound_of insn rfl ⟨fun _ => .inr (.inl rfl), fun _ => .inr (.inr rfl)⟩
  | orbis32Sfeqi | orbis32Sfnei | orbis32Sfgtui | orbis32Sfgeui | orbis32Sfltui | orbis32Sfleui
  | orbis32Sfgtsi | orbis32Sfgesi | orbis32Sfltsi | orbis32Sflesi =>
    exact bound_of insn rfl ⟨fun _ => .inr (.inl rfl), fun _ => fieldI_eq insn⟩
  | orbis32Muli =>
    unfold bindable
    dsimp only
    split
    · rename_i h
      exact bound_of insn rfl
        ⟨fun _ => .inl rfl, fun _ => .inr (.inl rfl), fun _ => fieldI_of_clear insn h⟩
    · exact bound_of insn rfl ⟨fun _ => .inl rfl, fun _ => .inr (.inl rfl)⟩
  | _ => trivial

/-- Every operand that is shown is bound by the decoder; an immediate of `l.movhi` is shown as a
halfword. The operands that `bindable` leaves out are shown as well. -/
theorem disassemble_bound {insn : U32} (h : decode insn ≠ .invalidOpcode) :
    ∀ x ∈ bindable insn (decode insn) (shownOperands (disassemble insn)),
      ShowsBound insn shownUnit x := by
  intro x hx
  rw [shownOperands_disassemble insn h, bindable_map] at hx
  obtain ⟨sf, hsf, rfl⟩ := List.mem_map.1 hx
  obtain ⟨handler, hd, hb⟩ := List.forall_iff_forall_mem.1 (bindable_bound insn (decode insn)) sf hsf
  exact ⟨_, handler, rfl, hd, hb⟩

/-- `l.movhi r1,0x3f80` binds 0x3f800000. -/
theorem disassemble_bound_fails : decode 0x18203f80#32 ≠ .invalidOpcode ∧
    ¬∀ x ∈ shownOperands (disassemble 0x18203f80#32), ShowsBound 0x18203f80#32 wordUnit x := by
  have hd : decode 0x18203f80#32 = .orbis32Movhi := by decide
  have hne : decode 0x18203f80#32 ≠ .invalidOpcode := by decide
  refine ⟨hne, fun h => ?_⟩
  rw [shownOperands_disassemble _ hne, hd] at h
  obtain ⟨y, handler, hy, ht, hb⟩ := h (some (.imm 0x3f80)) (by decide)
  cases hy
  rw [hd] at ht hb
  cases ht
  exact absurd (hb .invalid) (by decide)

/-- `l.sw -4(r31),r17` -/
theorem disassemble_bound_sw :
    shownOperands (disassemble 0xd7ff8ffc#32) = [some (.imm (-4)), some (.reg 31), some (.reg 17)] ∧
      ∀ x ∈ shownOperands (disassemble 0xd7ff8ffc#32), ShowsBound 0xd7ff8ffc#32 shownUnit x := by
  have hd : decode 0xd7ff8ffc#32 = .orbis32Sw := by decide
  have hne : decode 0xd7ff8ffc#32 ≠ .invalidOpcode := by decide
  have hb := disassemble_bound hne
  rw [hd] at hb
  refine ⟨?_, hb⟩
  rw [shownOperands_disassemble _ hne, hd]
  decide

end Or1kiss
