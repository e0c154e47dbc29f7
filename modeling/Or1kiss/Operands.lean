import Or1kiss.DecodeCache
import Or1kiss.Fields

/-!
# The operands of an instruction word

`rD`, `rA` and `rB` are the registers that a word names. What a handler binds is a word's own:
the first operand is `rA`, the second one `rB` or an immediate of the word (`Second`), the
destination `rD`. `Binds` says so of a decoded instruction, and that its executor then finds
them (`deref_first`, `deref_second`, `assign_dest`).
-/

namespace Or1kiss

open Host Bits Outcome

variable {σ : Type}

def rD (w : U32) : Fin 32 := ⟨(bits32 w 25 21).toNat, bits32_lt w (by decide) (by decide)⟩
def rA (w : U32) : Fin 32 := ⟨(bits32 w 20 16).toNat, bits32_lt w (by decide) (by decide)⟩
def rB (w : U32) : Fin 32 := ⟨(bits32 w 15 11).toNat, bits32_lt w (by decide) (by decide)⟩

/-- The second operand of a word: `rB`, or an immediate. -/
inductive Second where
  | rB
  | imm (f : U32 → U32)

namespace Second

def value (c : Core σ) (w : U32) : Second → U32
  | .rB => c.gpr (Or1kiss.rB w)
  | .imm f => f w

/-- The handler bound it. -/
def Bound (ci : Instruction) : Second → Prop
  | .rB => ci.src2 = fieldB ci.insn
  | .imm f => ci.src2 = .imm ∧ ci.imm = f ci.insn

end Second

namespace Instruction

/-- The handler of the instruction's word bound `rA` and a second operand to an executor. -/
structure Binds (ci : Instruction) (e : CoreExec) (b : Second) : Prop where
  exec : ci.exec = some (.core e)
  first : ci.src1 = fieldA ci.insn
  second : b.Bound ci

variable {ci : Instruction} {e : CoreExec} {b : Second}

/-- A handler that takes a word apart into operands does so in the instruction of its word. -/
theorem Full.eq {handler : U32 → Instruction → Instruction} (h : ci.Full)
    (hd : decodeTable (decode ci.insn) = some handler) :
    ci = handler ci.insn (.blank ci.addr ci.insn) := by
  obtain ⟨g, hg, he⟩ := h.decoded
  rw [hd] at hg
  cases hg
  exact he

theorem Full.regReg (h : ci.Full) (hd : decodeTable (decode ci.insn) = some (regReg (.core e))) :
    ci.Binds e .rB ∧ ci.dest = fieldD ci.insn := by
  have he := h.eq hd
  refine ⟨⟨congrArg exec he, congrArg src1 he, congrArg src2 he⟩, congrArg dest he⟩

theorem Full.regImm {f : U32 → U32} (h : ci.Full)
    (hd : decodeTable (decode ci.insn) = some (regImm (.core e) f)) :
    ci.Binds e (.imm f) ∧ ci.dest = fieldD ci.insn := by
  have he := h.eq hd
  refine ⟨⟨congrArg exec he, congrArg src1 he, congrArg src2 he, congrArg imm he⟩, congrArg dest he⟩

theorem Full.regPair (h : ci.Full) (hd : decodeTable (decode ci.insn) = some (regPair (.core e))) :
    ci.Binds e .rB := by
  have he := h.eq hd
  exact ⟨congrArg exec he, congrArg src1 he, congrArg src2 he⟩

theorem Full.oneImm (h : ci.Full) (hd : decodeTable (decode ci.insn) = some (oneImm (.core e))) :
    ci.Binds e (.imm fieldI) := by
  have he := h.eq hd
  have hi : ci.imm = fieldI ci.insn := by
    rw [congrArg imm he]
    unfold Or1kiss.oneImm
    rfl
  exact ⟨congrArg exec he, congrArg src1 he, congrArg src2 he, hi⟩

end Instruction

namespace Core

variable {c : Core σ} {ci : Instruction} {e : CoreExec} {b : Second}

theorem deref_first (h : ci.Binds e b) : c.deref ci ci.src1 = .ok (c.gpr (rA ci.insn)) := by
  rw [h.first]
  exact dif_pos (rA ci.insn).isLt

theorem deref_second (h : ci.Binds e b) : c.deref ci ci.src2 = .ok (b.value c ci.insn) := by
  have hb := h.second
  cases b with
  | rB =>
    rw [show ci.src2 = fieldB ci.insn from hb]
    exact dif_pos (rB ci.insn).isLt
  | imm f =>
    rw [hb.1]
    exact congrArg Outcome.ok hb.2

theorem assign_dest (h : ci.dest = fieldD ci.insn) (v : U32) :
    c.assign ci.dest v = .ok (c.setGpr (rD ci.insn) v) := by
  rw [h]
  exact dif_pos (rD ci.insn).isLt

/-- What an instruction of three operands does. -/
theorem binary_eq (h : ci.Binds e b) (hd : ci.dest = fieldD ci.insn) (f : U32 → U32 → U32) :
    c.binary f ci = .ok (c.setGpr (rD ci.insn) (f (c.gpr (rA ci.insn)) (b.value c ci.insn))) := by
  unfold binary
  rw [deref_first h, ok_bind, deref_second h, ok_bind, assign_dest hd]

end Core

end Or1kiss
