import Or1kiss.Lib.Delayed
import Or1kiss.Encode
import Or1kiss.Accumulate
import Or1kiss.Shift

/-!
# The instruction set

What the user-level integer instructions mean, without a decoder, a loop or a memory port: a
`Data` of registers, flags, accumulator and memory, a `Kind` for every opcode, and `Kind.act`, what
an instruction of a kind does with its operands. Arithmetic is that of the integers, memory is
big-endian. `Config.Step` is one instruction of a program in memory: the word at the program counter
is the assembled instruction.

`Kind.Sound` leaves out the instructions that the simulator is known to compute otherwise.
-/

namespace Or1kiss

open Host Bits DelaySlot

namespace Isa

structure Data where
  gpr : Fin 32 → U32
  flag : Bool
  carry : Bool
  overflow : Bool
  acc : U64
  mem : Nat → U8

/-- Instructions by what they do. -/
inductive Kind where
  | nothing
  /-- `l.nop K`, whose codes are requests to the simulator. -/
  | request
  | constant
  | convert (f : U32 → U32)
  | combine (f : U32 → U32 → U32)
  | shift (k : Shift)
  | select
  | add (carried : Bool)
  | subtract
  | multiply (signed : Bool)
  | divide (signed : Bool)
  | product (signed : Bool)
  | accumulate (k : Mac)
  | collect
  | compare (p : U32 → U32 → Bool)
  | jump (relative : Bool)
  | branch (on : Bool)
  | load (size : Nat) (signed : Bool)
  | store (size : Nat)

/-- The lower `n + 1` bits, extended with their sign or with zeros. -/
def extend (signed : Bool) (n : Nat) (v : U32) : U32 :=
  if signed then (v.setWidth (n + 1)).signExtend 32 else (v.setWidth (n + 1)).zeroExtend 32

end Isa

open Isa in
/-- The kind of an opcode; the instructions of the supervisor, of floating point and of exclusive
access have none. -/
def Opcode.kind : Opcode → Option Kind
  | .orbis32Nop => some .request
  | .orbis32Movhi => some .constant
  | .orbis32J | .orbis32Jal => some (.jump true)
  | .orbis32Jr | .orbis32Jalr => some (.jump false)
  | .orbis32Bf => some (.branch true)
  | .orbis32Bnf => some (.branch false)
  | .orbis32Lwz => some (.load 4 false)
  | .orbis32Lws => some (.load 4 true)
  | .orbis32Lhz => some (.load 2 false)
  | .orbis32Lhs => some (.load 2 true)
  | .orbis32Lbz => some (.load 1 false)
  | .orbis32Lbs => some (.load 1 true)
  | .orbis32Sw => some (.store 4)
  | .orbis32Sh => some (.store 2)
  | .orbis32Sb => some (.store 1)
  | .orbis32Extwz => some (.convert id)
  | .orbis32Extws => some (.convert id)
  | .orbis32Exthz => some (.convert (extend false 15))
  | .orbis32Exths => some (.convert (extend true 15))
  | .orbis32Extbz => some (.convert (extend false 7))
  | .orbis32Extbs => some (.convert (extend true 7))
  | .orbis32Ff1 => some (.convert ffs32)
  | .orbis32Fl1 => some (.convert fls32)
  | .orbis32Add | .orbis32Addi => some (.add false)
  | .orbis32Addc | .orbis32Addic => some (.add true)
  | .orbis32Sub => some .subtract
  | .orbis32And | .orbis32Andi => some (.combine (· &&& ·))
  | .orbis32Or | .orbis32Ori => some (.combine (· ||| ·))
  | .orbis32Xor | .orbis32Xori => some (.combine (· ^^^ ·))
  | .orbis32Cmov => some .select
  | .orbis32Sll | .orbis32Slli => some (.shift .sll)
  | .orbis32Srl | .orbis32Srli => some (.shift .srl)
  | .orbis32Sra | .orbis32Srai => some (.shift .sra)
  | .orbis32Ror | .orbis32Rori => some (.shift .ror)
  | .orbis32Mul | .orbis32Muli => some (.multiply true)
  | .orbis32Mulu => some (.multiply false)
  | .orbis32Muld => some (.product true)
  | .orbis32Muldu => some (.product false)
  | .orbis32Div => some (.divide true)
  | .orbis32Divu => some (.divide false)
  | .orbis32Sfeq | .orbis32Sfeqi => some (.compare (· == ·))
  | .orbis32Sfne | .orbis32Sfnei => some (.compare (· != ·))
  | .orbis32Sfgtu | .orbis32Sfgtui => some (.compare fun a b => decide (b.toNat < a.toNat))
  | .orbis32Sfgeu | .orbis32Sfgeui => some (.compare fun a b => decide (b.toNat ≤ a.toNat))
  | .orbis32Sfltu | .orbis32Sfltui => some (.compare fun a b => decide (a.toNat < b.toNat))
  | .orbis32Sfleu | .orbis32Sfleui => some (.compare fun a b => decide (a.toNat ≤ b.toNat))
  | .orbis32Sfgts | .orbis32Sfgtsi => some (.compare fun a b => decide (b.toInt < a.toInt))
  | .orbis32Sfges | .orbis32Sfgesi => some (.compare fun a b => decide (b.toInt ≤ a.toInt))
  | .orbis32Sflts | .orbis32Sfltsi => some (.compare fun a b => decide (a.toInt < b.toInt))
  | .orbis32Sfles | .orbis32Sflesi => some (.compare fun a b => decide (a.toInt ≤ b.toInt))
  | .orbis32Mac | .orbis32Maci => some (.accumulate .mac)
  | .orbis32Msb => some (.accumulate .msb)
  | .orbis32Macu => some (.accumulate .macu)
  | .orbis32Msbu => some (.accumulate .msbu)
  | .orbis32Macrc => some .collect
  | .orbis32Msync | .orbis32Psync | .orbis32Csync => some .nothing
  | _ => none

namespace Isa

/-! ## Registers and memory -/

namespace Data

variable (v : Data)

def read (ops : Operands) : Operand → U32
  | .reg i => v.gpr (Fin.ofNat 32 i)
  | .imm => ops.imm
  | .null => 0#32

/-- Write a register, if there is one. -/
def write (op : Operand) (x : U32) : Data :=
  match op with
  | .reg i => { v with gpr := Function.update v.gpr (Fin.ofNat 32 i) x }
  | _ => v

/-- The number in `n` bytes of memory, the most significant byte first. -/
def loaded (addr : U32) (n : Nat) : U32 := ofBytes .big (readBytes v.mem addr.toNat n)

/-- Memory with the lower `n` bytes of a word, the most significant of them first. -/
def stored (addr : U32) (n : Nat) (x : U32) : Data :=
  { v with mem := writeBytes v.mem addr.toNat ((bytesOf .big x).drop (4 - n)) }

/-- Register 0 is constant. -/
def settled : Data := { v with gpr := Function.update v.gpr 0 0#32 }

end Data

/-- A number that 32 bits hold, signed. -/
def fitsWord (x : Int) : Bool := decide (-2 ^ 31 ≤ x ∧ x < 2 ^ 31)

/-- The `n` bytes at an address are aligned and within memory. -/
def inRoom (room n : Nat) (addr : U32) : Bool :=
  decide (addr.toNat % n = 0 ∧ addr.toNat + n ≤ room)

/-- A jump to a word. -/
def target (addr : U32) : Option U32 := if addr.toNat % 4 = 0 then some addr else none

/-! ## Instructions -/

namespace Kind

/-- Control goes on behind an instruction that is no jump. -/
def goOn (v : Data) : Option (Data × Option U32) := some (v, none)

/-- What an instruction of a kind at `pc` does with its operands, in a memory of `room` bytes. The
second component is the target of a jump; nothing is said about a misaligned one, about accesses
that are misaligned or out of range, and about a signed quotient that no word holds. -/
def act (k : Kind) (room : Nat) (pc : U32) (ops : Operands) (v : Data) :
    Option (Data × Option U32) :=
  let a := v.read ops ops.src1
  let b := v.read ops ops.src2
  match k with
  | .nothing => goOn v
  | .request =>
    if ops.imm.toNat ∈ [0x1, 0x5, 0x6, 0x7, 0xa, 0xb, 0xc, 0xd, 0xe] then none else goOn v
  | .constant => goOn (v.write ops.dest ops.imm)
  | .convert f => goOn (v.write ops.dest (f a))
  | .combine f => goOn (v.write ops.dest (f a b))
  | .shift k => goOn (v.write ops.dest (k.apply a (b.toNat % 32)))
  | .select => goOn (v.write ops.dest (if v.flag then a else b))
  | .add carried =>
    let c := (carried && v.carry).toNat
    goOn { v.write ops.dest (BitVec.ofNat 32 (a.toNat + b.toNat + c)) with
      carry := decide (2 ^ 32 ≤ a.toNat + b.toNat + c)
      overflow := !fitsWord (a.toInt + b.toInt + c) }
  | .subtract =>
    goOn { v.write ops.dest (BitVec.ofInt 32 (a.toInt - b.toInt)) with
      carry := decide (a.toNat < b.toNat)
      overflow := !fitsWord (a.toInt - b.toInt) }
  | .multiply true =>
    goOn { v.write ops.dest (BitVec.ofInt 32 (a.toInt * b.toInt)) with
      overflow := !fitsWord (a.toInt * b.toInt) }
  | .multiply false =>
    goOn { v.write ops.dest (BitVec.ofNat 32 (a.toNat * b.toNat)) with
      carry := decide (2 ^ 32 ≤ a.toNat * b.toNat) }
  | .divide true =>
    if b = 0#32 then goOn { v with overflow := true }
    else if fitsWord (a.toInt.tdiv b.toInt) then
      goOn { v.write ops.dest (BitVec.ofInt 32 (a.toInt.tdiv b.toInt)) with overflow := false }
    else none
  | .divide false =>
    if b = 0#32 then goOn { v with carry := true }
    else goOn { v.write ops.dest (BitVec.ofNat 32 (a.toNat / b.toNat)) with carry := false }
  | .product true =>
    goOn { v with acc := BitVec.ofInt 64 (a.toInt * b.toInt)
                  overflow := !fitsWord (a.toInt * b.toInt) }
  | .product false =>
    goOn { v with acc := BitVec.ofNat 64 (a.toNat * b.toNat)
                  carry := decide (2 ^ 32 ≤ a.toNat * b.toNat) }
  | .accumulate k =>
    let r := k.exact v.acc a b
    if k.isSigned then
      goOn { v with acc := BitVec.ofInt 64 r, overflow := decide (¬(-2 ^ 63 ≤ r ∧ r < 2 ^ 63)) }
    else goOn { v with acc := BitVec.ofInt 64 r, carry := decide (¬(0 ≤ r ∧ r < 2 ^ 64)) }
  | .collect => goOn { v.write ops.dest (v.acc.setWidth 32) with acc := 0#64 }
  | .compare p => goOn { v with flag := p a b }
  | .jump relative =>
    (target (if relative then pc + b else b)).map fun t => (v.write ops.src1 (pc + 8#32), some t)
  | .branch on =>
    if v.flag = on then (target (pc + ops.imm)).map fun t => (v, some t) else goOn v
  | .load n signed =>
    if inRoom room n (a + ops.imm) then
      goOn (v.write ops.dest (extend signed (8 * n - 1) (v.loaded (a + ops.imm) n)))
    else none
  | .store n => if inRoom room n (a + ops.imm) then goOn (v.stored (a + ops.imm) n b) else none

/-- The simulator computes the instruction: no rotation that crosses the end of the word with
different bits, no carry that is added to a second operand of all ones, no accumulation whose flag
is tested against the wrong limit, and `l.macrc` into register 0. -/
def Sound (k : Kind) (ops : Operands) (v : Data) : Prop :=
  let a := v.read ops ops.src1
  let b := v.read ops ops.src2
  match k with
  | .shift k => k = .ror → a.Constant (b.toNat % 32)
  | .add carried => ¬(carried = true ∧ v.carry = true ∧ b = 0xffffffff#32)
  | .accumulate k => k.Tells (k.exact v.acc a b)
  | .collect => ops.dest = .reg 0
  | _ => True

/-- The bytes an instruction of the kind writes: where, and how many. -/
def writes (k : Kind) (ops : Operands) (v : Data) : Option (U32 × Nat) :=
  match k with
  | .store n => some (v.read ops ops.src1 + ops.imm, n)
  | _ => none

end Kind

/-! ## Programs -/

/-- The instruction in memory at an address: its kind and its operands. -/
def Holds (room : Nat) (v : Data) (pc : U32) (k : Kind) (ops : Operands) : Prop :=
  pc.toNat + 4 ≤ room ∧ ∃ (op : Opcode) (fmt : Format) (f : Fields), op.kind = some k ∧
    op.format = some fmt ∧ v.loaded pc 4 = fmt.encode f ∧ ops = fmt.operands f

/-- Instructions and data. -/
abbrev State := Config 32 Data

/-- One instruction of the program in memory. -/
def Step (room : Nat) (A B : State) : Prop :=
  ∃ k ops v t, Holds room A.data A.pc k ops ∧ k.act room A.pc ops A.data = some (v, t) ∧
    A.after 4#32 v.settled t = some B

/-- One instruction that the simulator computes, in a program that keeps its code in `text` if
instructions are cached: it is fetched from there, and writes nothing there. -/
def Supported (room : Nat) (text : Option (U32 → Prop)) (A B : State) : Prop :=
  ∃ k ops v t, Holds room A.data A.pc k ops ∧ k.act room A.pc ops A.data = some (v, t) ∧
    A.after 4#32 v.settled t = some B ∧ k.Sound ops A.data ∧
    ∀ T, text = some T → T A.pc ∧ ∀ addr n, k.writes ops A.data = some (addr, n) →
      ∀ p, T p → p.toNat + 4 ≤ addr.toNat ∨ addr.toNat + n ≤ p.toNat

theorem Supported.step {room : Nat} {text : Option (U32 → Prop)} {A B : State}
    (h : Supported room text A B) : Step room A B := by
  obtain ⟨k, ops, v, t, hk, ha, hb, -⟩ := h
  exact ⟨k, ops, v, t, hk, ha, hb⟩

end Isa

end Or1kiss
