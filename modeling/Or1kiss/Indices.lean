import Or1kiss.Fields
import Or1kiss.Interrupt

/-!
# Register file indices

An operand pointer is an index into the register file, and the double precision executors
step one or two places from it to the other half of a pair. Which indices an instruction
uses (`Instruction.indices`), for which words they stay inside the file (`indices_lt_iff`),
and that an instruction whose indices do never leaves it (`execute_stays`).
-/

namespace Or1kiss

open Host Bits Outcome

namespace Operand

/-- The index `off` places behind an operand pointer into the register file. -/
def index (off : Nat) : Operand → List Nat
  | .reg i => [i + off]
  | _ => []

/-- The pointer is not past the end of the register file. -/
def InFile : Operand → Prop
  | .reg i => i < 32
  | _ => True

theorem inFile_reg {i : Nat} (h : i < 32) : InFile (.reg i) := h

theorem inFile_iff (o : Operand) : o.InFile ↔ ∀ i ∈ o.index 0, i < 32 := by
  cases o with
  | null | imm => exact iff_of_true trivial nofun
  | reg j => exact (List.forall_mem_singleton (p := fun i => i < 32)).symm

end Operand

namespace Instruction

/-- The indices the double precision executors derive from the operands. -/
def pairIndices (ci : Instruction) : List Nat :=
  match ci.exec with
  | some (.core (.orfpx64 op)) =>
    match op with
    | .add | .sub | .mul | .div | .rem =>
      ci.src1.index (Core.pairOffset ci 9) ++ ci.src2.index (Core.pairOffset ci 8) ++
        ci.dest.index (Core.pairOffset ci 10)
    | .itof | .ftoi => ci.src1.index (Core.pairOffset ci 9) ++ ci.dest.index 1
    | _ => ci.src1.index (Core.pairOffset ci 9) ++ ci.src2.index (Core.pairOffset ci 8)
  | _ => []

/-- The register file indices of a decoded instruction: those the handler binds and those the
executor derives. -/
def indices (ci : Instruction) : List Nat :=
  ci.dest.index 0 ++ ci.src1.index 0 ++ ci.src2.index 0 ++ ci.pairIndices

theorem forall_indices {ci : Instruction} : (∀ i ∈ ci.indices, i < 32) ↔
    ci.dest.InFile ∧ ci.src1.InFile ∧ ci.src2.InFile ∧ ∀ i ∈ ci.pairIndices, i < 32 := by
  unfold indices
  simp only [List.forall_mem_append, Operand.inFile_iff, and_assoc]

theorem forall_indices_inFile {ci : Instruction} (hd : ci.dest.InFile) (h1 : ci.src1.InFile)
    (h2 : ci.src2.InFile) : (∀ i ∈ ci.indices, i < 32) ↔ ∀ i ∈ ci.pairIndices, i < 32 := by
  rw [forall_indices]
  exact ⟨fun h => h.2.2.2, fun h => ⟨hd, h1, h2, h⟩⟩

theorem indices_lt {ci : Instruction} (hd : ci.dest.InFile) (h1 : ci.src1.InFile)
    (h2 : ci.src2.InFile) (hp : ci.pairIndices = []) : ∀ i ∈ ci.indices, i < 32 := by
  rw [forall_indices_inFile hd h1 h2, hp]
  exact nofun

end Instruction

/-! ## Words -/

/-- The register behind `r`, or the one after it, exists. -/
def PairFits (r offset : Nat) : Prop := r + offset < 31

theorem pairFits_iff (r offset : Nat) : r + (1 + offset) < 32 ↔ PairFits r offset := by
  unfold PairFits
  omega

/-- What a word has to satisfy. The register of `l.macrc` is read from nine bits, of which four
must be clear; the upper half of a double must not be past the end of the register file. -/
def Fits (w : U32) : Opcode → Prop
  | .orbis32Macrc => bits32 w 25 22 = 0#32
  | .orfpx64Add | .orfpx64Sub | .orfpx64Mul | .orfpx64Div | .orfpx64Rem =>
    PairFits (bits32 w 20 16).toNat (bit32 w 9).toNat ∧
      PairFits (bits32 w 15 11).toNat (bit32 w 8).toNat ∧
        PairFits (bits32 w 25 21).toNat (bit32 w 10).toNat
  | .orfpx64Itof | .orfpx64Ftoi =>
    PairFits (bits32 w 20 16).toNat (bit32 w 9).toNat ∧ PairFits (bits32 w 25 21).toNat 0
  | .orfpx64Madd | .orfpx64Sfeq | .orfpx64Sfne | .orfpx64Sfgt | .orfpx64Sfge | .orfpx64Sflt
  | .orfpx64Sfle =>
    PairFits (bits32 w 20 16).toNat (bit32 w 9).toNat ∧
      PairFits (bits32 w 15 11).toNat (bit32 w 8).toNat
  | _ => True

section Words

open Instruction

theorem fieldD_inFile (w : U32) : (fieldD w).InFile := bits32_lt w (by decide) (by decide)
theorem fieldA_inFile (w : U32) : (fieldA w).InFile := bits32_lt w (by decide) (by decide)
theorem fieldB_inFile (w : U32) : (fieldB w).InFile := bits32_lt w (by decide) (by decide)

variable (w addr : U32)

theorem macrc_indices :
    (∀ i ∈ (decodeOrbis32Macrc w (.blank addr w)).indices, i < 32) ↔ bits32 w 25 22 = 0#32 := by
  have hi : (decodeOrbis32Macrc w (.blank addr w)).indices = [(bits32 w 25 17).toNat] := rfl
  have h17 := bits32_toNat w (l := 25) (r := 17) (by decide) (by decide)
  have h22 := bits32_toNat w (l := 25) (r := 22) (by decide) (by decide)
  rw [hi, List.forall_mem_singleton]
  constructor
  · intro h
    apply BitVec.eq_of_toNat_eq
    show _ = 0
    omega
  · intro h
    have hz : (bits32 w 25 22).toNat = 0 := by rw [h]; rfl
    omega

/-- A double precision operation on pairs: `rD`, `rA`, `rB`. -/
theorem arith64_indices {op : FpExec}
    (ho : op = .add ∨ op = .sub ∨ op = .mul ∨ op = .div ∨ op = .rem) :
    (∀ i ∈ (regReg (.core (.orfpx64 op)) w (.blank addr w)).indices, i < 32) ↔
      PairFits (bits32 w 20 16).toNat (bit32 w 9).toNat ∧
        PairFits (bits32 w 15 11).toNat (bit32 w 8).toNat ∧
          PairFits (bits32 w 25 21).toNat (bit32 w 10).toNat := by
  have hp : (regReg (.core (.orfpx64 op)) w (.blank addr w)).pairIndices =
      [(bits32 w 20 16).toNat + (1 + (bit32 w 9).toNat),
        (bits32 w 15 11).toNat + (1 + (bit32 w 8).toNat),
        (bits32 w 25 21).toNat + (1 + (bit32 w 10).toNat)] := by
    rcases ho with rfl | rfl | rfl | rfl | rfl <;> rfl
  rw [forall_indices_inFile (fieldD_inFile w) (fieldA_inFile w) (fieldB_inFile w), hp,
    List.forall_mem_cons, List.forall_mem_cons, List.forall_mem_singleton, pairFits_iff,
    pairFits_iff, pairFits_iff]

/-- A conversion: `rD`, `rA`; the halves of the result are neighbours. -/
theorem convert64_indices {op : FpExec} (ho : op = .itof ∨ op = .ftoi) :
    (∀ i ∈ (regOne (.core (.orfpx64 op)) w (.blank addr w)).indices, i < 32) ↔
      PairFits (bits32 w 20 16).toNat (bit32 w 9).toNat ∧ PairFits (bits32 w 25 21).toNat 0 := by
  have hp : (regOne (.core (.orfpx64 op)) w (.blank addr w)).pairIndices =
      [(bits32 w 20 16).toNat + (1 + (bit32 w 9).toNat), (bits32 w 25 21).toNat + (1 + 0)] := by
    rcases ho with rfl | rfl <;> rfl
  refine (forall_indices_inFile (fieldD_inFile w) (fieldA_inFile w) ?_).trans ?_
  · trivial
  rw [hp, List.forall_mem_cons, List.forall_mem_singleton, pairFits_iff, pairFits_iff]

/-- Pairs that are only read. -/
theorem read64_indices {ci : Instruction} (hd : ci.dest.InFile) (h1 : ci.src1 = fieldA w)
    (h2 : ci.src2 = fieldB w) (hp : ci.pairIndices =
      [(bits32 w 20 16).toNat + (1 + (bit32 w 9).toNat),
        (bits32 w 15 11).toNat + (1 + (bit32 w 8).toNat)]) :
    (∀ i ∈ ci.indices, i < 32) ↔ PairFits (bits32 w 20 16).toNat (bit32 w 9).toNat ∧
      PairFits (bits32 w 15 11).toNat (bit32 w 8).toNat := by
  rw [forall_indices_inFile hd (h1 ▸ fieldA_inFile w) (h2 ▸ fieldB_inFile w), hp,
    List.forall_mem_cons, List.forall_mem_singleton, pairFits_iff, pairFits_iff]

end Words

open Instruction in
/-- Every index of a decoded instruction is one of the register file exactly if the word fits. -/
theorem indices_lt_iff {w : U32} {handler : U32 → Instruction → Instruction}
    (h : decodeTable (decode w) = some handler) (addr : U32) :
    (∀ i ∈ (handler w (.blank addr w)).indices, i < 32) ↔ Fits w (decode w) := by
  generalize decode w = op at h
  cases op <;> cases h
  case orbis32Nop | orbis32Jal =>
    exact iff_of_true (indices_lt trivial (Operand.inFile_reg (by decide)) trivial rfl) trivial
  case orbis32Mfspr | orbis32Lwa | orbis32Lwz | orbis32Lws | orbis32Lhz | orbis32Lhs |
      orbis32Lbz | orbis32Lbs | orbis32Extwz | orbis32Extws | orbis32Exthz | orbis32Exths |
      orbis32Extbz | orbis32Extbs | orbis32Ff1 | orbis32Fl1 | orbis32Addi | orbis32Addic |
      orbis32Andi | orbis32Ori | orbis32Xori | orbis32Muli | orbis32Slli | orbis32Srli |
      orbis32Srai | orbis32Rori | orfpx32Ftoi | orfpx32Itof =>
    exact iff_of_true (indices_lt (fieldD_inFile w) (fieldA_inFile w) trivial rfl) trivial
  case orbis32Mtspr =>
    exact iff_of_true (indices_lt (fieldA_inFile w) (fieldB_inFile w) trivial rfl) trivial
  case orbis32Movhi =>
    exact iff_of_true (indices_lt (fieldD_inFile w) trivial trivial rfl) trivial
  case orbis32J | orbis32Bf | orbis32Bnf | orbis32Sys | orbis32Trap | orbis32Msync |
      orbis32Psync | orbis32Csync | orbis32Rfe =>
    exact iff_of_true (indices_lt trivial trivial trivial rfl) trivial
  case orbis32Jr =>
    exact iff_of_true (indices_lt trivial trivial (fieldB_inFile w) rfl) trivial
  case orbis32Jalr =>
    exact iff_of_true (indices_lt trivial (Operand.inFile_reg (by decide)) (fieldB_inFile w) rfl) trivial
  case orbis32Swa | orbis32Sw | orbis32Sh | orbis32Sb | orbis32Muld | orbis32Muldu | orbis32Sfeq |
      orbis32Sfne | orbis32Sfgtu | orbis32Sfgeu | orbis32Sfltu | orbis32Sfleu | orbis32Sfgts |
      orbis32Sfges | orbis32Sflts | orbis32Sfles | orbis32Mac | orbis32Macu | orbis32Msb |
      orbis32Msbu | orfpx32Sfeq | orfpx32Sfge | orfpx32Sfgt | orfpx32Sfle | orfpx32Sflt |
      orfpx32Sfne =>
    exact iff_of_true (indices_lt trivial (fieldA_inFile w) (fieldB_inFile w) rfl) trivial
  case orbis32Add | orbis32Addc | orbis32Sub | orbis32And | orbis32Or | orbis32Xor | orbis32Cmov |
      orbis32Sll | orbis32Srl | orbis32Sra | orbis32Ror | orbis32Mul | orbis32Mulu | orbis32Div |
      orbis32Divu | orfpx32Add | orfpx32Div | orfpx32Madd | orfpx32Mul | orfpx32Rem | orfpx32Sub =>
    exact iff_of_true (indices_lt (fieldD_inFile w) (fieldA_inFile w) (fieldB_inFile w) rfl) trivial
  case orbis32Sfeqi | orbis32Sfnei | orbis32Sfgtui | orbis32Sfgeui | orbis32Sfltui |
      orbis32Sfleui | orbis32Sfgtsi | orbis32Sfgesi | orbis32Sfltsi | orbis32Sflesi |
      orbis32Maci =>
    exact iff_of_true (indices_lt trivial (fieldA_inFile w) trivial rfl) trivial
  case orbis32Macrc =>
    exact macrc_indices w addr
  case orfpx64Add | orfpx64Sub | orfpx64Mul | orfpx64Div | orfpx64Rem =>
    exact arith64_indices w addr (by decide)
  case orfpx64Itof | orfpx64Ftoi =>
    exact convert64_indices w addr (by decide)
  case orfpx64Madd =>
    exact read64_indices w (fieldD_inFile w) rfl rfl rfl
  case orfpx64Sfeq | orfpx64Sfne | orfpx64Sfgt | orfpx64Sfge | orfpx64Sflt | orfpx64Sfle =>
    exact read64_indices w trivial rfl rfl rfl

/-- `l.add r3, r1, r2` and `l.macrc r1` -/
theorem indices_lt_iff_add_macrc :
    ((∀ i ∈ (decodeOrbis32Add 0xe0611000#32 (.blank 0#32 0xe0611000#32)).indices, i < 32) ↔
      Fits 0xe0611000#32 (decode 0xe0611000#32)) ∧
    ((∀ i ∈ (decodeOrbis32Macrc 0x18210000#32 (.blank 0#32 0x18210000#32)).indices, i < 32) ↔
      Fits 0x18210000#32 (decode 0x18210000#32)) :=
  ⟨indices_lt_iff rfl 0#32, indices_lt_iff rfl 0#32⟩

/-- `l.macrc r2` writes to `gpr[32]`. -/
theorem indices_fail : ¬ ∀ (w addr : U32) (handler : U32 → Instruction → Instruction),
    decodeTable (decode w) = some handler → ∀ i ∈ (handler w (.blank addr w)).indices, i < 32 := by
  intro h
  have hm := h 0x18410000#32 0#32 decodeOrbis32Macrc rfl
  revert hm
  decide

/-! ## Executors -/

namespace Core

variable {σ : Type} {c : Core σ} {ci : Instruction} {op : Operand}

/-- The computation stays inside the register file. -/
abbrev Stays {S α : Type} (x : Outcome S α) : Prop := x.Avoids .badIndex

theorem deref_stays (h : op.InFile) : Stays (c.deref ci op) := by
  cases op with
  | null => exact avoids_fault nofun
  | imm => exact avoids_ok _
  | reg i =>
    have h : i < 32 := h
    simp only [deref, dif_pos h]
    exact avoids_ok _

theorem assign_stays (h : op.InFile) (v : U32) : Stays (c.assign op v) := by
  cases op with
  | null | imm => exact avoids_fault nofun
  | reg i =>
    have h : i < 32 := h
    simp only [assign, dif_pos h]
    exact avoids_ok _

/-- An exception names no register. -/
theorem exception_stays (t : ExType) (addr : U32) : Stays (c.exception t addr) := by
  rw [exception_eq]
  split
  · exact avoids_ok _
  · split
    · exact avoids_ok _
    · exact avoids_fault nofun

theorem scheduleJump_stays (target : U32) (delay : Nat) : Stays (c.scheduleJump target delay) := by
  rw [scheduleJump_eq]
  split
  · exact avoids_ok _
  · exact exception_stays _ _

theorem rangeException_stays (ae : U32) : Stays (c.rangeException ae) := by
  unfold rangeException
  split
  · exact exception_stays _ _
  · exact avoids_ok _

theorem overflow_stays (ovf : Bool) (flag ae : U32) : Stays (c.overflow ovf flag ae) := by
  unfold overflow
  split
  · exact rangeException_stays _
  · exact avoids_ok _

theorem carryOverflow_stays (carry ovf : Bool) : Stays (c.carryOverflow carry ovf) :=
  (overflow_stays _ _ _).bind fun _ _ => overflow_stays _ _ _

theorem fpTest_stays (flag : U32) (cond : Bool) : Stays (c.fpTest flag cond) := by
  unfold fpTest
  split
  · dsimp only
    split
    · exact exception_stays _ _
    · exact avoids_ok _
  · exact avoids_ok _

theorem resetFpFlags_stays (k : FpClass) : Stays (c.resetFpFlags k) :=
  (fpTest_stays _ _).bind fun _ _ => (fpTest_stays _ _).bind fun _ _ =>
    (fpTest_stays _ _).bind fun _ _ => (fpTest_stays _ _).bind fun _ _ =>
      (fpTest_stays _ _).bind fun _ _ => fpTest_stays _ _

section Shapes

variable (h1 : ci.src1.InFile) (h2 : ci.src2.InFile) (hd : ci.dest.InFile)

include h1

theorem unary_stays (hd : ci.dest.InFile) (f : U32 → U32) : Stays (unary f ci c) :=
  (deref_stays h1).bind fun _ _ => assign_stays hd _

theorem link_stays : Stays (c.link ci) := by
  unfold link
  split
  · exact avoids_ok _
  · exact assign_stays h1 _

include h2

/-- An executor that reads both operands and goes on. -/
theorem reads_stay {f : U32 → U32 → Outcome Empty (Core σ)} (hf : ∀ a b, Stays (f a b)) :
    Stays (do
      let a ← c.deref ci ci.src1
      let b ← c.deref ci ci.src2
      f a b) :=
  (deref_stays h1).bind fun a _ => (deref_stays h2).bind fun b _ => hf a b

theorem compare_stays (p : U32 → U32 → Bool) : Stays (compare p ci c) :=
  reads_stay h1 h2 fun _ _ => avoids_ok _

theorem macSigned_stays (f : U64 → U64 → U64) (ae : U32) : Stays (macSigned f ae ci c) :=
  reads_stay h1 h2 fun _ _ => overflow_stays _ _ _

theorem macUnsigned_stays (f : U64 → U64 → U64) (ae : U32) : Stays (macUnsigned f ae ci c) :=
  reads_stay h1 h2 fun _ _ => overflow_stays _ _ _

include hd

theorem binary_stays (f : U32 → U32 → U32) : Stays (binary f ci c) :=
  reads_stay h1 h2 fun _ _ => assign_stays hd _

theorem arith_stays {e : CoreExec} [HostLib]
    (he : e = .add ∨ e = .addc ∨ e = .sub ∨ e = .mul ∨ e = .mulu) : Stays (c.execute e ci) := by
  rcases he with rfl | rfl | rfl | rfl | rfl
  · exact reads_stay h1 h2 fun _ _ => (assign_stays hd _).bind fun _ _ => overflow_stays _ _ _
  · exact reads_stay h1 h2 fun _ _ => (assign_stays hd _).bind fun _ _ => carryOverflow_stays _ _
  · exact reads_stay h1 h2 fun _ _ => (assign_stays hd _).bind fun _ _ => carryOverflow_stays _ _
  · exact reads_stay h1 h2 fun _ _ => (assign_stays hd _).bind fun _ _ => overflow_stays _ _ _
  · exact reads_stay h1 h2 fun _ _ => (assign_stays hd _).bind fun _ _ => overflow_stays _ _ _

theorem div_stays : Stays (c.executeOrbis32Div ci) := by
  refine reads_stay h1 h2 fun a b => ?_
  split
  · exact rangeException_stays _
  · split
    · exact avoids_fault nofun
    · exact assign_stays hd _

theorem divu_stays : Stays (c.executeOrbis32Divu ci) := by
  refine reads_stay h1 h2 fun a b => ?_
  split
  · exact rangeException_stays _
  · exact assign_stays hd _

theorem orfpx32_stays [HostLib] (op : FpExec) : Stays (c.executeOrfpx32 op ci) := by
  cases op with
  | add | sub | mul | div | rem =>
    exact reads_stay h1 h2 fun _ _ => (assign_stays hd _).bind fun _ _ => resetFpFlags_stays _
  | madd => exact reads_stay h1 h2 fun _ _ => resetFpFlags_stays _
  | itof | ftoi => exact (deref_stays h1).bind fun _ _ => assign_stays hd _
  | sfeq | sfne | sfgt | sfge | sflt | sfle => exact compare_stays h1 h2 _

end Shapes

/-! ## Register pairs -/

theorem derefAt_stays {off : Nat} (h : ∀ i ∈ op.index off, i < 32) : Stays (c.derefAt ci op off) := by
  cases op with
  | null | imm => exact avoids_fault nofun
  | reg i =>
    have hr : (Operand.reg (i + off)).InFile := h _ (List.mem_singleton.mpr rfl)
    show Stays (c.deref ci (.reg (i + off)))
    exact deref_stays hr

theorem assignAt_stays {off : Nat} (h : ∀ i ∈ op.index off, i < 32) (v : U32) :
    Stays (c.assignAt op off v) := by
  cases op with
  | null | imm => exact avoids_fault nofun
  | reg i =>
    have hr : (Operand.reg (i + off)).InFile := h _ (List.mem_singleton.mpr rfl)
    show Stays (c.assign (.reg (i + off)) v)
    exact assign_stays hr v

theorem derefPair_stays {idx : Nat} (h : op.InFile)
    (hp : ∀ i ∈ op.index (pairOffset ci idx), i < 32) : Stays (c.derefPair ci op idx) :=
  (derefAt_stays hp).bind fun _ _ => (derefAt_stays ((Operand.inFile_iff op).mp h)).bind fun _ _ =>
    avoids_ok _

theorem assignPair_stays {off : Nat} (h : op.InFile) (hp : ∀ i ∈ op.index off, i < 32) (v : U64) :
    Stays (c.assignPair op off v) :=
  (assignAt_stays ((Operand.inFile_iff op).mp h) _).bind fun _ _ => assignAt_stays hp _

variable [HostLib]

theorem fp64Arith_stays (f : FpOp) (hi : ∀ i ∈ ci.indices, i < 32)
    (hp : ci.pairIndices = ci.src1.index (pairOffset ci 9) ++ ci.src2.index (pairOffset ci 8) ++
      ci.dest.index (pairOffset ci 10)) : Stays (fp64Arith f ci c) := by
  obtain ⟨hd, h1, h2, hl⟩ := Instruction.forall_indices.mp hi
  rw [hp, List.forall_mem_append, List.forall_mem_append] at hl
  obtain ⟨⟨hp1, hp2⟩, hpd⟩ := hl
  exact (derefPair_stays h1 hp1).bind fun _ _ => (derefPair_stays h2 hp2).bind fun _ _ =>
    (assignPair_stays hd hpd _).bind fun _ _ => resetFpFlags_stays _

theorem orfpx64_stays (e : FpExec) (he : ci.exec = some (.core (.orfpx64 e)))
    (hi : ∀ i ∈ ci.indices, i < 32) : Stays (c.executeOrfpx64 e ci) := by
  have hp : ci.pairIndices = ci.pairIndices := rfl
  obtain ⟨hd, h1, h2, hl⟩ := Instruction.forall_indices.mp hi
  conv at hp => rhs; unfold Instruction.pairIndices
  rw [he] at hp
  cases e with
  | add | sub | mul | div | rem => exact fp64Arith_stays _ hi hp
  | madd =>
    rw [hp, List.forall_mem_append] at hl
    exact (derefPair_stays h1 hl.1).bind fun _ _ => (derefPair_stays h2 hl.2).bind fun _ _ =>
      resetFpFlags_stays _
  | itof | ftoi =>
    rw [hp, List.forall_mem_append] at hl
    exact (derefPair_stays h1 hl.1).bind fun _ _ => assignPair_stays hd hl.2 _
  | sfeq | sfne | sfgt | sfge | sflt | sfle =>
    rw [hp, List.forall_mem_append] at hl
    exact (derefPair_stays h1 hl.1).bind fun _ _ => (derefPair_stays h2 hl.2).bind fun _ _ =>
      avoids_ok _

/-- A register executor whose indices are those of the register file stays inside it. -/
theorem execute_stays (e : CoreExec) (he : ci.exec = some (.core e))
    (hi : ∀ i ∈ ci.indices, i < 32) : Stays (c.execute e ci) := by
  obtain ⟨hd, h1, h2, -⟩ := Instruction.forall_indices.mp hi
  have hjump : ∀ b, Stays (do let c ← c.link ci; c.scheduleJump b branchDelay) := fun b =>
    (link_stays h1).bind fun _ _ => scheduleJump_stays _ _
  cases e with
  | bf =>
    show Stays (c.executeOrbis32Bf ci)
    unfold executeOrbis32Bf
    split
    · exact scheduleJump_stays _ _
    · exact avoids_ok _
  | bnf =>
    show Stays (c.executeOrbis32Bnf ci)
    unfold executeOrbis32Bnf
    split
    · exact scheduleJump_stays _ _
    · exact avoids_ok _
  | jumpRel | jumpAbs => exact (deref_stays h2).bind fun _ _ => hjump _
  | movhi => exact assign_stays hd _
  | extw | exthz | exths | extbz | extbs | ff1 | fl1 => exact unary_stays h1 hd _
  | add | addc | sub | mul | mulu => exact arith_stays h1 h2 hd (by decide)
  | and | or | xor | cmov | sll | srl | sra | ror => exact binary_stays h1 h2 hd _
  | muld => exact macSigned_stays h1 h2 (fun _ p => p) AE.OVMULE
  | muldu => exact macUnsigned_stays h1 h2 (fun _ p => p) AE.CYMULE
  | mac => exact macSigned_stays h1 h2 (· + ·) AE.OVMACADDE
  | macu => exact macUnsigned_stays h1 h2 (· + ·) AE.CYMACADDE
  | msb => exact macSigned_stays h1 h2 (· - ·) AE.OVMACADDE
  | msbu => exact macUnsigned_stays h1 h2 (· - ·) AE.CYMACADDE
  | div => exact div_stays h1 h2 hd
  | divu => exact divu_stays h1 h2 hd
  | sfeq | sfne | sfgtu | sfgeu | sfltu | sfleu | sfgts | sfges | sflts | sfles =>
    exact compare_stays h1 h2 _
  | macrc => exact (assign_stays hd _).bind fun _ _ => avoids_ok _
  | sys => exact exception_stays .syscall 0#32
  | trap => exact exception_stays .trap 0#32
  | csync | msync | psync => exact avoids_ok _
  | orfpx32 op => exact orfpx32_stays h1 h2 hd op
  | orfpx64 op => exact orfpx64_stays op he hi

/-! ## Loads and stores -/

omit [HostLib]

variable [EnvImpl σ]

theorem transact_stays (req : Request) : Stays (c.transact req) := by
  have habort : ∀ (b : Core σ) t r, Stays (b.abort t r) := fun b t r => (exception_stays t _).lift
  obtain ⟨c1, req1, -, hs | ⟨t, -, ha⟩⟩ := transact_cases c req
  · rw [hs]
    unfold send
    split
    dsimp only
    split
    · exact habort _ _ _
    · split
      · exact avoids_throw _
      · exact avoids_ok _
    · exact avoids_ok _
  · rw [ha]
    exact habort _ _ _

theorem accessMemory_stays {buf : Operand} (h1 : ci.src1.InFile) (hb : buf.InFile)
    (read excl : Bool) (size : Nat) (post : U32 → U32) :
    Stays (accessMemory read excl size post buf ci c) := by
  refine (deref_stays h1).lift.bind fun a _ => (deref_stays hb).lift.bind fun v _ => ?_
  cases buf with
  | null | imm => exact avoids_fault nofun
  | reg i =>
    have hb : i < 32 := hb
    simp only [dif_pos hb]
    exact (transact_stays _).lift

theorem executeMem_stays (e : MemExec) (hi : ∀ i ∈ ci.indices, i < 32) :
    Stays (c.executeMem e ci) := by
  obtain ⟨hd, h1, h2, -⟩ := Instruction.forall_indices.mp hi
  cases e with
  | lwa => exact accessMemory_stays h1 hd true true 4 id
  | lw => exact accessMemory_stays h1 hd true false 4 id
  | lhz => exact accessMemory_stays h1 hd true false 2 (· &&& 0xffff#32)
  | lhs => exact accessMemory_stays h1 hd true false 2 (signExtend32 · 15)
  | lbz => exact accessMemory_stays h1 hd true false 1 (· &&& 0xff#32)
  | lbs => exact accessMemory_stays h1 hd true false 1 (signExtend32 · 7)
  | swa => exact accessMemory_stays h1 h2 false true 4 id
  | sw => exact accessMemory_stays h1 h2 false false 4 id
  | sh => exact accessMemory_stays h1 h2 false false 2 id
  | sb => exact accessMemory_stays h1 h2 false false 1 id

end Core

namespace Or1k

open Or1kiss.Core (Stays)

variable {σ : Type} [EnvImpl σ] [HostLib] {s : Or1k σ} {ci : Instruction}

/-- No instruction whose indices are those of the register file leaves it. -/
theorem execute_stays (hi : ∀ i ∈ ci.indices, i < 32) : Stays (s.execute ci) := by
  obtain ⟨hd, h1, h2, -⟩ := Instruction.forall_indices.mp hi
  unfold execute
  split
  · exact avoids_fault nofun
  · rename_i e he
    exact (Core.execute_stays e he hi).lift
  · exact (Core.executeMem_stays _ hi).lift.bind fun _ _ => avoids_ok _
  · exact ((Core.deref_stays h1).bind fun _ _ => Core.assign_stays hd _).lift
  · refine (Core.deref_stays h1).lift.bind fun _ _ => (Core.deref_stays hd).lift.bind fun _ _ => ?_
    rw [setSpr_eq]
    exact avoids_ok _
  · unfold executeOrbis32Nop
    split
    all_goals first
      | exact avoids_ok _
      | (split <;> first | exact avoids_ok _ | exact avoids_fault nofun)
  · refine (Core.scheduleJump_stays _ _).lift.bind fun _ _ => ?_
    rw [setSpr_eq]
    exact avoids_ok _

/-- A word that fits is executed inside the register file. -/
theorem execute_decoded_stays {w addr : U32} {handler : U32 → Instruction → Instruction}
    (h : decodeTable (decode w) = some handler) (hf : Fits w (decode w)) :
    Stays (s.execute (handler w (.blank addr w))) :=
  execute_stays ((indices_lt_iff h addr).mpr hf)

end Or1k

end Or1kiss
