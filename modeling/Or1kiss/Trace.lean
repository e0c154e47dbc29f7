import Or1kiss.Disasm
import Or1kiss.Memory
import Or1kiss.Operands
import Or1kiss.Rsp

/-!
# The trace line

`tracing.cpp`. `do_trace` writes one line into a buffer of its own: the head with the text of the
instruction, an operand in one of five formats, and the flag. The stores are kept, also those
outside the buffer.
-/

namespace Or1kiss

open Host Bits

variable {σ : Type}

/-- `OR1KISS_TRACE_MAXLEN` -/
abbrev traceMaxlen : Nat := 80

/-- The buffer: `n`, the stores in their order, and the values of `n` that a remaining size was
computed from. -/
structure TraceBuffer where
  n : Nat
  stores : List (Nat × U8)
  starts : List Nat
  deriving DecidableEq, Repr

namespace TraceBuffer

def empty : TraceBuffer := { n := 0, stores := [], starts := [] }

/-- `sizeof(buffer) - n` -/
def remaining (b : TraceBuffer) : Nat := (2 ^ 64 + traceMaxlen - b.n) % 2 ^ 64

/-- `n += snprintf(buffer + n, sizeof(buffer) - n, ...)` for a format that expands to `text`: what
fits is stored with a zero behind it, and all of it is counted. -/
def snprintf (b : TraceBuffer) (text : List U8) : TraceBuffer :=
  { n := b.n + text.length
    stores := b.stores ++ if b.remaining = 0 then [] else
      Packet.copy b.n (text.take (b.remaining - 1) ++ [0#8])
    starts := b.starts ++ [b.n] }

/-- `sprintf(buffer + n, ...)` -/
def sprintf (b : TraceBuffer) (text : List U8) : TraceBuffer :=
  { b with stores := b.stores ++ Packet.copy b.n (text ++ [0#8]) }

/-- All stores are inside the buffer, and no remaining size has wrapped. -/
structure Safe (b : TraceBuffer) : Prop where
  inside : ∀ st ∈ b.stores, st.1 < traceMaxlen
  remains : ∀ n ∈ b.starts, n ≤ traceMaxlen

end TraceBuffer

/-! ## do_trace -/

namespace Or1k

variable (s : Or1k σ) (ci : Instruction)

/-- `%c %08x: %08x %-24s` -/
def traceHead : List U8 :=
  [if test s.status SR.SM then chr 'S' else chr 'U'] ++ ascii " " ++
    hexPadded (chr '0') 8 s.nextPc ++ ascii ": " ++ hexPadded (chr '0') 8 ci.insn ++ ascii " " ++
    padRight 24 (disassemble ci.insn)

/-- What an operand pointer points to; `beyond` is the memory behind the register file. -/
def peek (beyond : Nat → U32) : Operand → Option U32
  | .null => none
  | .imm => some ci.imm
  | .reg i => some (if h : i < 32 then s.gpr ⟨i, h⟩ else beyond i)

/-- `[%08x] = %0wx%ps` for a store to the address `m_trace_addr`. -/
def traceStore (traceAddr : U32) (width pad : Nat) (v : U32) : List U8 :=
  ascii "[" ++ hexPadded (chr '0') 8 traceAddr ++ ascii "] = " ++ hexPadded (chr '0') width v ++
    List.replicate pad (chr ' ')

/-- The `switch`. A pointer passes for one into the register file up to `gpr + sizeof(gpr)`. -/
def traceOperand (traceAddr : U32) (beyond : Nat → U32) : Option (List U8) :=
  match decode ci.insn with
  | .orbis32Mtspr => (s.peek ci beyond ci.dest).map fun v =>
      let regnum := v ||| ci.imm
      ascii "SPR[" ++ hexPadded (chr '0') 4 regnum ++ ascii "]  = " ++
        hexPadded (chr '0') 8 (s.getSpr regnum true) ++ ascii " "
  | .orbis32Sw => (s.peek ci beyond ci.src2).map (traceStore traceAddr 8 1)
  | .orbis32Sh => (s.peek ci beyond ci.src2).map (traceStore traceAddr 4 5)
  | .orbis32Sb => (s.peek ci beyond ci.src2).map (traceStore traceAddr 2 7)
  | _ =>
    match ci.dest with
    | .reg i =>
      if i < 128 then
        (s.peek ci beyond ci.dest).map fun v =>
          ascii "r" ++ padRight 10 (decimal i) ++ ascii "= " ++ hexPadded (chr '0') 8 v ++ ascii " "
      else some (List.replicate 22 (chr ' '))
    | _ => some (List.replicate 22 (chr ' '))

/-- ` flag: %c` -/
def traceFlag : List U8 := ascii " flag: " ++ [if test s.status SR.F then chr '1' else chr '0']

def doTrace (traceAddr : U32) (beyond : Nat → U32) : Option TraceBuffer :=
  (s.traceOperand ci traceAddr beyond).map fun text =>
    ((TraceBuffer.empty.snprintf (s.traceHead ci)).snprintf text).sprintf s.traceFlag

end Or1k

/-! ## Lengths -/

theorem length_hexWide (v : U32) : (hexPadded (chr '0') 8 v).length = 8 := by
  rw [length_hexPadded]
  exact Nat.max_eq_left (length_hexDigits_le v)

namespace Or1k

variable {s : Or1k σ} {ci : Instruction} {v : U32}

/-- The text of an instruction fits its column, so the head always has the same length. -/
theorem length_traceHead : (s.traceHead ci).length = 45 := by
  have hd : (padRight 24 (disassemble ci.insn)).length = 24 := by
    rw [length_padRight]
    exact Nat.max_eq_left (length_disassemble ci.insn)
  unfold traceHead
  simp only [List.length_append, length_ascii, length_hexWide, hd, List.length_singleton]
  rfl

theorem length_traceFlag : s.traceFlag.length = 8 := rfl

theorem length_traceStore {traceAddr : U32} {width pad : Nat} :
    (traceStore traceAddr width pad v).length = 13 + max width (hexDigits v).length + pad := by
  unfold traceStore
  simp only [List.length_append, length_ascii, length_hexWide, List.length_replicate]
  rw [length_hexPadded]
  rfl

end Or1k

namespace TraceBuffer

/-- A line is safe if and only if the operand has at most 26 characters. -/
theorem line_safe_iff {head text flag : List U8} (hh : head.length = 45) (hf : flag.length = 8) :
    (((empty.snprintf head).snprintf text).sprintf flag).Safe ↔ text.length ≤ 26 := by
  have hr0 : empty.remaining = 80 := rfl
  have hn : (empty.snprintf head).n = 45 := by
    unfold snprintf empty
    rw [hh]
  have hr1 : (empty.snprintf head).remaining = 35 := by
    unfold remaining
    rw [hn]
    rfl
  have hstores : (((empty.snprintf head).snprintf text).sprintf flag).stores =
      (Packet.copy 0 (head.take 79 ++ [0#8]) ++ Packet.copy 45 (text.take 34 ++ [0#8])) ++
        Packet.copy (45 + text.length) (flag ++ [0#8]) := by
    show ((empty.snprintf head).stores ++ _) ++ Packet.copy ((empty.snprintf head).n + _) _ = _
    rw [hn, hr1]
    rfl
  have hstarts : (((empty.snprintf head).snprintf text).sprintf flag).starts = [0, 45] := by
    show [0] ++ [(empty.snprintf head).n] = _
    rw [hn]
    rfl
  constructor
  · intro h
    -- the zero behind the line
    have hlast : (45 + text.length + 8, 0#8) ∈
        (((empty.snprintf head).snprintf text).sprintf flag).stores := by
      rw [hstores, Packet.copy_append _ flag, Packet.copy_singleton, hf]
      simp
    have hlt : 45 + text.length + 8 < 80 := h.inside _ hlast
    omega
  · intro hle
    refine ⟨fun st hst => ?_, fun n hn => ?_⟩
    · rw [hstores] at hst
      rcases List.mem_append.1 hst with hst | hst
      · rcases List.mem_append.1 hst with hst | hst
        · have hlt := Packet.lt_of_mem_copy hst
          rw [List.length_append, List.length_take, hh] at hlt
          exact Nat.lt_of_lt_of_le hlt (by decide)
        · have hlt := Packet.lt_of_mem_copy hst
          rw [List.length_append, List.length_take, List.length_singleton] at hlt
          show st.1 < 80
          omega
      · have hlt := Packet.lt_of_mem_copy hst
        rw [List.length_append, hf, List.length_singleton] at hlt
        show st.1 < 80
        omega
    · rw [hstarts] at hn
      revert n
      decide

end TraceBuffer

namespace Or1k

variable {s : Or1k σ} {ci : Instruction} {v : U32} {traceAddr : U32} {beyond : Nat → U32}

theorem peek_reg (s : Or1k σ) (ci : Instruction) (beyond : Nat → U32) (i : Fin 32) :
    s.peek ci beyond (.reg i.val) = some (s.gpr i) :=
  congrArg some (dif_pos i.isLt)

/-- The store of the register `rB` as a line shows it. -/
theorem peek_store (h : ci.Full) {e : Exec} (hd : decodeTable (decode ci.insn) = some (store e)) :
    s.peek ci beyond ci.src2 = some (s.gpr (rB ci.insn)) := by
  have hsrc : ci.src2 = fieldB ci.insn := congrArg Instruction.src2 (h.eq hd)
  rw [hsrc]
  exact s.peek_reg ci beyond (rB ci.insn)

/-- The text of an operand fits what is left of the line, but that of a store of a byte only if its
register has at most six digits. -/
theorem traceOperand_length (s : Or1k σ) (traceAddr : U32) (beyond : Nat → U32) (h : ci.Full) :
    ∃ text, s.traceOperand ci traceAddr beyond = some text ∧
      (text.length ≤ 26 ↔
        ¬(decode ci.insn = .orbis32Sb ∧ 2 ^ 24 ≤ (s.gpr (rB ci.insn)).toNat)) := by
  have hdigits : ∀ v : U32, (hexDigits v).length ≤ 8 := length_hexDigits_le
  have hother : ∀ {n : Nat}, decode ci.insn ≠ .orbis32Sb → n ≤ 26 →
      (n ≤ 26 ↔ ¬(decode ci.insn = .orbis32Sb ∧ 2 ^ 24 ≤ (s.gpr (rB ci.insn)).toNat)) :=
    fun hne hl => iff_of_true hl fun h => hne h.1
  unfold traceOperand
  split
  · rename_i hop
    have hdest : ci.dest = fieldA ci.insn := congrArg Instruction.dest
      (h.eq (show decodeTable (decode ci.insn) = some decodeOrbis32Mtspr by rw [hop]; rfl))
    rw [hdest, show s.peek ci beyond (fieldA ci.insn) = some (s.gpr (rA ci.insn)) from
      s.peek_reg ci beyond (rA ci.insn)]
    refine ⟨_, rfl, hother (by rw [hop]; nofun) ?_⟩
    have hreg := hdigits (s.gpr (rA ci.insn) ||| ci.imm)
    simp only [List.length_append, length_ascii, length_hexWide]
    rw [length_hexPadded]
    show 4 + max 4 _ + 5 + 8 + 1 ≤ 26
    omega
  · rename_i hop
    rw [peek_store h (show decodeTable (decode ci.insn) = some decodeOrbis32Sw by rw [hop]; rfl)]
    refine ⟨_, rfl, hother (by rw [hop]; nofun) ?_⟩
    have hreg := hdigits (s.gpr (rB ci.insn))
    rw [length_traceStore]
    omega
  · rename_i hop
    rw [peek_store h (show decodeTable (decode ci.insn) = some decodeOrbis32Sh by rw [hop]; rfl)]
    refine ⟨_, rfl, hother (by rw [hop]; nofun) ?_⟩
    have hreg := hdigits (s.gpr (rB ci.insn))
    rw [length_traceStore]
    omega
  · rename_i hop
    rw [peek_store h (show decodeTable (decode ci.insn) = some decodeOrbis32Sb by rw [hop]; rfl)]
    refine ⟨_, rfl, ?_⟩
    -- twenty characters and the digits, of which the buffer has room for six
    have hsix : (hexDigits (s.gpr (rB ci.insn))).length ≤ 6 ↔ (s.gpr (rB ci.insn)).toNat < 2 ^ 24 :=
      length_hexDigits_le_iff (by decide)
    rw [length_traceStore, hop]
    have hroom : 13 + max 2 (hexDigits (s.gpr (rB ci.insn))).length + 7 ≤ 26 ↔
        (hexDigits (s.gpr (rB ci.insn))).length ≤ 6 := by omega
    rw [hroom, hsix, ← Nat.not_le]
    exact not_congr ⟨fun hle => ⟨rfl, hle⟩, fun h => h.2⟩
  · rename_i hsb
    have hblank : (List.replicate 22 (chr ' ')).length ≤ 26 := by decide
    split
    · split
      · rename_i i hdest hi
        rw [hdest]
        refine ⟨_, rfl, hother hsb ?_⟩
        have hlen : (padRight 10 (decimal i)).length = 10 := by
          have hd := (length_decimal_le_iff (show 0 < 3 by decide)).2 (show i < 10 ^ 3 by omega)
          rw [length_padRight]
          omega
        simp only [List.length_append, length_ascii, length_hexWide, hlen]
        decide
      · exact ⟨_, rfl, hother hsb hblank⟩
    · exact ⟨_, rfl, hother hsb hblank⟩

/-- The stores of `do_trace` stay inside its buffer, whatever it shows, exactly if it does not show
`l.sb` with a register of more than 24 bits. -/
theorem doTrace_safe_iff (h : ci.Full) (s : Or1k σ) (traceAddr : U32) (beyond : Nat → U32) :
    ∃ b, s.doTrace ci traceAddr beyond = some b ∧
      (b.Safe ↔ ¬(decode ci.insn = .orbis32Sb ∧ 2 ^ 24 ≤ (s.gpr (rB ci.insn)).toNat)) := by
  obtain ⟨text, ht, hl⟩ := traceOperand_length s traceAddr beyond h
  unfold doTrace
  rw [ht]
  exact ⟨_, rfl, (TraceBuffer.line_safe_iff length_traceHead length_traceFlag).trans hl⟩

/-- A CPU after reset, with a value in `r3`. -/
def holding (v : U32) : Or1k Memory :=
  let s : Or1k Memory := .init (Memory.env 0x8000 (Memory.image [])) 0
  s.withCore (s.toCore.setGpr 3 v)

/-- `l.sb 0(r0),r3` -/
def byteStore : Instruction := decodeOrbis32Sb 0xd8001800#32 (.blank 0#32 0xd8001800#32)

theorem full_byteStore : byteStore.Full where
  exec_ne_null h := by cases h
  decoded := ⟨decodeOrbis32Sb, rfl, rfl⟩

/-- With 0x1000000 in `r3` the zero of the line is stored behind the buffer. -/
theorem doTrace_safe_iff_fails : ∃ b,
    (holding 0x1000000#32).doTrace byteStore 0#32 (fun _ => 0#32) = some b ∧ ¬b.Safe := by
  have hout : ∃ b, (holding 0x1000000#32).doTrace byteStore 0#32 (fun _ => 0#32) = some b ∧
      b.stores.any (fun st => decide (traceMaxlen ≤ st.1)) = true :=
    (Option.any_eq_true _ _).1 (by decide +kernel)
  obtain ⟨b, hb, hany⟩ := hout
  obtain ⟨st, hst, hge⟩ := List.any_eq_true.1 hany
  exact ⟨b, hb, fun hsafe => absurd (hsafe.inside st hst) (Nat.not_lt.2 (of_decide_eq_true hge))⟩

/-- With 0xffffff in `r3` the line ends with the buffer. -/
theorem doTrace_safe_iff_byte : ∃ b,
    (holding 0xffffff#32).doTrace byteStore 0#32 (fun _ => 0#32) = some b ∧ b.Safe := by
  obtain ⟨b, hb, hsafe⟩ := doTrace_safe_iff full_byteStore (holding 0xffffff#32) 0#32 fun _ => 0#32
  have hr : (holding 0xffffff#32).gpr (rB byteStore.insn) = 0xffffff#32 := by decide
  rw [hr] at hsafe
  exact ⟨b, hb, hsafe.2 fun h => absurd h.2 (by decide)⟩

end Or1k

end Or1kiss
