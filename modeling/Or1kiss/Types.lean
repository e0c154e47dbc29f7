import Mathlib.Algebra.GroupWithZero.Nat
import Or1kiss.Lib.Outcome
import Or1kiss.Lib.Bits

/-!
# Words, bit operations and register constants

Guest words are bit vectors of their width (`types.h`). The simulator's 64-bit cycle
and instruction counters are natural numbers: runs of 2^64 cycles are not modelled.
`bits32` and `signExtend32` are the shifts of `bitops.h`; the constants are the
enumerations of `or1k.h`.
-/

namespace Or1kiss

open Host Bits

abbrev U8 := BitVec 8
abbrev U32 := BitVec 32
abbrev U64 := BitVec 64

/-- Registers are numbered by numerals. -/
instance neZeroRegs : NeZero (32 : Nat) := ⟨by decide⟩

/-! ## bitops.h -/

/-- Bits `l` down to `r` of `v`. -/
def bits32 (v : U32) (l r : Nat) : U32 := (v <<< (31 - l)) >>> (31 - l + r)

def bit32 (v : U32) (idx : Nat) : U32 := (v >>> idx) &&& 1#32

/-- Bit `i` of `v` copied to the bits above it. -/
def signExtend32 (v : U32) (i : Nat) : U32 := (v <<< (31 - i)).sshiftRight (31 - i)

/-- `size` is 4, 2 or 1; a larger access is aligned to four bytes. -/
def isAligned (addr : U32) (size : Nat) : Bool := addr &&& BitVec.ofNat 32 (min size 4 - 1) == 0#32

/-- Position of the first bit set, counted from one; zero if there is none. -/
def ffs32 (v : U32) : U32 :=
  match (List.range 32).find? (fun i => v.getLsbD i) with
  | some i => BitVec.ofNat 32 (i + 1)
  | none => 0#32

/-- Position of the last bit set, counted from one; zero if there is none. -/
def fls32 (v : U32) : U32 :=
  match (List.range 32).reverse.find? (fun i => v.getLsbD i) with
  | some i => BitVec.ofNat 32 (i + 1)
  | none => 0#32

/-! ## or1k.h -/

-- Bits of the supervision register (`supervisor_status`).
namespace SR
abbrev SM : U32 := 0x1#32
abbrev TEE : U32 := 0x2#32
abbrev IEE : U32 := 0x4#32
abbrev DME : U32 := 0x20#32
abbrev IME : U32 := 0x40#32
abbrev F : U32 := 0x200#32
abbrev CY : U32 := 0x400#32
abbrev OV : U32 := 0x800#32
abbrev OVE : U32 := 0x1000#32
abbrev DSX : U32 := 0x2000#32
abbrev EPH : U32 := 0x4000#32
abbrev FO : U32 := 0x8000#32
abbrev SUMRA : U32 := 0x10000#32
end SR

-- Arithmetic exception enables (`arithmetic_exception`).
namespace AE
abbrev CYADDE : U32 := 0x1#32
abbrev OVADDE : U32 := 0x2#32
abbrev CYMULE : U32 := 0x4#32
abbrev OVMULE : U32 := 0x8#32
abbrev DBZE : U32 := 0x10#32
abbrev CYMACADDE : U32 := 0x20#32
abbrev OVMACADDE : U32 := 0x40#32
end AE

-- Floating point control and status (`fp_status`).
namespace FPS
abbrev FPEE : U32 := 0x1#32
abbrev OV : U32 := 0x8#32
abbrev UNF : U32 := 0x10#32
abbrev QNF : U32 := 0x40#32
abbrev ZF : U32 := 0x80#32
abbrev INF : U32 := 0x400#32
abbrev DZF : U32 := 0x800#32
end FPS

/-- Doze mode enable (`pmr_status`). -/
abbrev PMR.DME : U32 := 0x10#32

/-- Interrupt lines 0 and 1 cannot be masked (`OR1KISS_PIC_NMI`). -/
abbrev picNmi : U32 := 0x3#32

-- Values of the read-only configuration members set by the constructor of `or1k`.
namespace Config
abbrev version : U32 := 0x12000041#32
abbrev version2 : U32 := 0x42000001#32
abbrev avr : U32 := 0x01000000#32
abbrev dccfgr : U32 := 0#32
abbrev iccfgr : U32 := 0#32
/-- `UPR_TTP | UPR_PICP | UPR_MP | UPR_UP | UPR_DMP | UPR_IMP | UPR_PMP` -/
abbrev unit : U32 := 0x739#32
/-- `CPUCFGR_OB32S | CPUCFGR_OF32S | CPUCFGR_AECSRP | CPUCFGR_AVRP | CPUCFGR_EVBARP` -/
abbrev cpucfg : U32 := 0x58a0#32
/-- `CPUCFGR_ND`: no delay slot. -/
abbrev ND : U32 := 0x400#32
end Config

/-- Exceptions in order of priority (`or1kiss_exception_prio`). -/
inductive ExType where
  | reset
  | insnAlignment
  | insnTlbMiss
  | insnPageFault
  | insnBusError
  | dataAlignment
  | dataTlbMiss
  | dataPageFault
  | dataBusError
  | illegalInsn
  | syscall
  | trap
  | range
  | fp
  | tickTimer
  | external
  deriving DecidableEq, Repr

/-- `EXCEPTION_VECTOR` -/
def ExType.vector : ExType → U32
  | .reset => 0x100#32
  | .insnAlignment => 0x600#32
  | .insnTlbMiss => 0xa00#32
  | .insnPageFault => 0x400#32
  | .insnBusError => 0x200#32
  | .dataAlignment => 0x600#32
  | .dataTlbMiss => 0x900#32
  | .dataPageFault => 0x300#32
  | .dataBusError => 0x200#32
  | .illegalInsn => 0x700#32
  | .syscall => 0xc00#32
  | .trap => 0xe00#32
  | .range => 0xb00#32
  | .fp => 0xd00#32
  | .tickTimer => 0x500#32
  | .external => 0x800#32

/-- Raised between instructions, after the program counter has been updated. -/
def ExType.isAsync : ExType → Bool
  | .tickTimer | .external => true
  | _ => false

inductive StepResult where
  | ok
  | exit
  | breakpoint
  | watchpoint
  deriving DecidableEq, Repr

end Or1kiss
