import Mathlib.Logic.Function.Basic
import Or1kiss.Types

/-!
# Decoded instructions and the decode cache

`insn.h` and `insn.cpp`. An operand pointer of a decoded instruction points into the
register file (possibly past its end), at the instruction's own immediate, or is null.
The executor pointer `exec` is one of the `execute_*` functions: those that work on the
registers alone (`CoreExec`), those that access memory (`MemExec`), and the four that
reach the timer, the cache or the counters. The cache is direct mapped by word address
and tagged with the physical address.
-/

namespace Or1kiss

/-- A `u32*` of a decoded instruction. -/
inductive Operand where
  | null
  | reg (i : Nat)
  | imm
  deriving DecidableEq, Repr

/-- `execute_orfpx32_*` and `execute_orfpx64_*` -/
inductive FpExec where
  | add | sub | mul | div | rem | madd | itof | ftoi
  | sfeq | sfne | sfgt | sfge | sflt | sfle
  deriving DecidableEq, Repr

/-- Executors that touch registers, flags and the pending jump only. -/
inductive CoreExec where
  | movhi
  | bf | bnf | jumpRel | jumpAbs
  | extw | exthz | exths | extbz | extbs
  | add | addc | sub | and | or | xor | cmov | ff1 | fl1
  | sll | srl | sra | ror
  | mul | mulu | muld | muldu | div | divu
  | sfeq | sfne | sfgtu | sfgeu | sfltu | sfleu | sfgts | sfges | sflts | sfles
  | mac | macu | msb | msbu | macrc
  | sys | trap | csync | msync | psync
  | orfpx32 (op : FpExec)
  | orfpx64 (op : FpExec)
  deriving DecidableEq, Repr

/-- Loads and stores. -/
inductive MemExec where
  | lwa | lw | lhz | lhs | lbz | lbs
  | swa | sw | sh | sb
  deriving DecidableEq, Repr

/-- `execute_function` -/
inductive Exec where
  | core (e : CoreExec)
  | mem (e : MemExec)
  | mfspr
  | mtspr
  | nop
  | rfe
  deriving DecidableEq, Repr

structure Instruction where
  exec : Option Exec
  insn : U32
  addr : U32
  dest : Operand
  src1 : Operand
  src2 : Operand
  imm : U32
  deriving DecidableEq, Repr

/-- A cleared entry that carries its address and word. -/
def Instruction.blank (addr insn : U32) : Instruction :=
  { exec := none, insn := insn, addr := addr, dest := .null, src1 := .null, src2 := .null,
    imm := 0#32 }

/-- An entry filled with `0xff` bytes. -/
def Instruction.invalid : Instruction :=
  { exec := none, insn := 0xffffffff#32, addr := 0xffffffff#32, dest := .null, src1 := .null,
    src2 := .null, imm := 0xffffffff#32 }

structure DecodeCache where
  /-- Binary logarithm of the number of entries; zero switches the cache off. -/
  size : Nat
  slots : Nat → Instruction

namespace DecodeCache

def init (size : Nat) : DecodeCache := { size := size, slots := fun _ => .invalid }

/-- `DECODE_CACHE_OFF` -/
def isOff (c : DecodeCache) : Bool := c.size == 0

/-- The slot of an address: `(addr >> 2) & m_mask`. -/
def index (c : DecodeCache) (addr : U32) : Nat :=
  ((addr >>> 2) &&& BitVec.ofNat 32 (2 ^ c.size - 1)).toNat

def lookup (c : DecodeCache) (addr : U32) : Instruction := c.slots (c.index addr)

def store (c : DecodeCache) (addr : U32) (ci : Instruction) : DecodeCache :=
  { c with slots := Function.update c.slots (c.index addr) ci }

def invalidate (c : DecodeCache) (addr : U32) : DecodeCache :=
  if (c.lookup addr).addr = addr then c.store addr { c.lookup addr with addr := 0xffffffff#32 }
  else c

/-- Invalidate the words at `addr`, `addr + 4`, … below `addr + size`. -/
def invalidateBlock (c : DecodeCache) (addr : U32) (size : Nat) : DecodeCache :=
  (List.range ((size + 3) / 4)).foldl
    (fun c i => c.invalidate (addr + BitVec.ofNat 32 (4 * i))) c

end DecodeCache

end Or1kiss
