import Or1kiss.Exception

/-!
# Executors of the register instructions

The `execute_*` functions that work on registers, flags and the pending jump
(`execute.cpp`). Executors of one shape are one definition (`unary`, `binary`, `compare`,
…) applied to their operation. The 64-bit accumulator wraps.
-/

namespace Or1kiss

open Host Bits

variable {σ : Type}

namespace Core

/-! ## Shapes -/

/-- `*d = f(*a)` -/
def unary (f : U32 → U32) (ci : Instruction) (c : Core σ) : Outcome Empty (Core σ) := do
  let a ← c.deref ci ci.src1
  c.assign ci.dest (f a)

/-- `*d = f(*a, *b)` -/
def binary (f : U32 → U32 → U32) (ci : Instruction) (c : Core σ) : Outcome Empty (Core σ) := do
  let a ← c.deref ci ci.src1
  let b ← c.deref ci ci.src2
  c.assign ci.dest (f a b)

/-- The flag is set if the relation holds and cleared otherwise. -/
def compare (p : U32 → U32 → Bool) (ci : Instruction) (c : Core σ) : Outcome Empty (Core σ) := do
  let a ← c.deref ci ci.src1
  let b ← c.deref ci ci.src2
  return c.putFlag SR.F (p a b)

/-- The range exception of an overflow, if it is enabled. -/
def rangeException (ae : U32) (c : Core σ) : Outcome Empty (Core σ) :=
  if test c.status SR.OVE && test c.aecr ae then
    { c with aesr := c.aesr ||| ae }.exception .range 0#32
  else .ok c

/-- An overflow sets its flag and may raise its exception. -/
def overflow (cond : Bool) (flag ae : U32) (c : Core σ) : Outcome Empty (Core σ) :=
  if cond then (c.setFlag flag).rangeException ae else .ok c

def neg (v : U32) : Bool := v.slt 0#32

/-- neg + neg should be neg, pos + pos should be pos -/
def addOverflows (a b r : U32) : Bool :=
  (neg a && neg b && !neg r) || (!neg a && !neg b && neg r)

/-- neg - pos should be neg, pos - neg should be pos -/
def subOverflows (a b r : U32) : Bool :=
  (neg a && !neg b && !neg r) || (!neg a && neg b && neg r)

/-- Outside the range of a signed 32-bit integer. -/
def exceedsS32 (v : Int) : Bool := decide (2147483647 < v) || decide (v < -2147483648)

/-! ## Moves, jumps -/

def executeOrbis32Movhi (ci : Instruction) (c : Core σ) : Outcome Empty (Core σ) :=
  c.assign ci.dest ci.imm

/-- Instructions between a jump and its target. -/
def branchDelay : Nat := if test Config.cpucfg Config.ND then 0 else 1

def executeOrbis32Bf (ci : Instruction) (c : Core σ) : Outcome Empty (Core σ) :=
  if test c.status SR.F then c.scheduleJump (ci.imm + c.nextPc) branchDelay else .ok c

def executeOrbis32Bnf (ci : Instruction) (c : Core σ) : Outcome Empty (Core σ) :=
  if !test c.status SR.F then c.scheduleJump (ci.imm + c.nextPc) branchDelay else .ok c

/-- Write the link register, if there is one. -/
def link (ci : Instruction) (c : Core σ) : Outcome Empty (Core σ) :=
  match ci.src1 with
  | .null => .ok c
  | l => c.assign l (c.nextPc + BitVec.ofNat 32 ((branchDelay + 1) * 4))

def executeOrbis32JumpRel (ci : Instruction) (c : Core σ) : Outcome Empty (Core σ) := do
  let b ← c.deref ci ci.src2
  let target := b + c.nextPc
  let c ← c.link ci
  c.scheduleJump target branchDelay

def executeOrbis32JumpAbs (ci : Instruction) (c : Core σ) : Outcome Empty (Core σ) := do
  let target ← c.deref ci ci.src2
  let c ← c.link ci
  c.scheduleJump target branchDelay

/-! ## Sign and zero extension -/

def executeOrbis32Extw (ci : Instruction) (c : Core σ) := unary (fun a => a) ci c
def executeOrbis32Exthz (ci : Instruction) (c : Core σ) := unary (· &&& 0xffff#32) ci c
def executeOrbis32Exths (ci : Instruction) (c : Core σ) := unary (signExtend32 · 15) ci c
def executeOrbis32Extbz (ci : Instruction) (c : Core σ) := unary (· &&& 0xff#32) ci c
def executeOrbis32Extbs (ci : Instruction) (c : Core σ) := unary (signExtend32 · 7) ci c

/-! ## Arithmetic -/

/-- Carry sets its flag only; signed overflow may raise the range exception. -/
def executeOrbis32Add (ci : Instruction) (c : Core σ) : Outcome Empty (Core σ) := do
  let src1 ← c.deref ci ci.src1
  let src2 ← c.deref ci ci.src2
  let result := src1 + src2
  let c ← c.assign ci.dest result
  let c := (c.clearFlag SR.CY).clearFlag SR.OV
  let c := if result < src1 then c.setFlag SR.CY else c
  c.overflow (addOverflows src1 src2 result) SR.OV AE.OVADDE

/-- Carry and signed overflow are tested, and raise, one after the other. -/
def carryOverflow (carry ovf : Bool) (c : Core σ) : Outcome Empty (Core σ) := do
  let c := (c.clearFlag SR.CY).clearFlag SR.OV
  let c ← c.overflow carry SR.CY AE.CYADDE
  c.overflow ovf SR.OV AE.OVADDE

def addcResult (c : Core σ) (src1 src2 : U32) : U32 :=
  if test c.status SR.CY then src1 + src2 + 1#32 else src1 + src2

def executeOrbis32Addc (ci : Instruction) (c : Core σ) : Outcome Empty (Core σ) := do
  let src1 ← c.deref ci ci.src1
  let src2 ← c.deref ci ci.src2
  let result := c.addcResult src1 src2
  let c ← c.assign ci.dest result
  c.carryOverflow (decide (result < src1)) (addOverflows src1 src2 result)

def executeOrbis32Sub (ci : Instruction) (c : Core σ) : Outcome Empty (Core σ) := do
  let src1 ← c.deref ci ci.src1
  let src2 ← c.deref ci ci.src2
  let result := src1 - src2
  let c ← c.assign ci.dest result
  c.carryOverflow (decide (src2 > src1)) (subOverflows src1 src2 result)

def executeOrbis32And (ci : Instruction) (c : Core σ) := binary (· &&& ·) ci c
def executeOrbis32Or (ci : Instruction) (c : Core σ) := binary (· ||| ·) ci c
def executeOrbis32Xor (ci : Instruction) (c : Core σ) := binary (· ^^^ ·) ci c

def executeOrbis32Cmov (ci : Instruction) (c : Core σ) :=
  binary (fun a b => if test c.status SR.F then a else b) ci c

def executeOrbis32Ff1 (ci : Instruction) (c : Core σ) := unary ffs32 ci c
def executeOrbis32Fl1 (ci : Instruction) (c : Core σ) := unary fls32 ci c

/-- Shift operands are taken modulo 32. -/
def shiftOf (b : U32) : Nat := (b &&& 0x1f#32).toNat

def executeOrbis32Sll (ci : Instruction) (c : Core σ) := binary (fun a b => a <<< shiftOf b) ci c
def executeOrbis32Srl (ci : Instruction) (c : Core σ) := binary (fun a b => a >>> shiftOf b) ci c
def executeOrbis32Sra (ci : Instruction) (c : Core σ) :=
  binary (fun a b => signExtend32 (a >>> shiftOf b) (31 - shiftOf b)) ci c
def executeOrbis32Ror (ci : Instruction) (c : Core σ) :=
  binary (fun a b => (a >>> shiftOf b) ||| (a <<< (31 - shiftOf b))) ci c

def executeOrbis32Mul (ci : Instruction) (c : Core σ) : Outcome Empty (Core σ) := do
  let src1 ← c.deref ci ci.src1
  let src2 ← c.deref ci ci.src2
  let result := src1.toInt * src2.toInt
  let c ← c.assign ci.dest (BitVec.ofInt 32 result)
  (c.clearFlag SR.OV).overflow (exceedsS32 result) SR.OV AE.OVMULE

def executeOrbis32Mulu (ci : Instruction) (c : Core σ) : Outcome Empty (Core σ) := do
  let src1 ← c.deref ci ci.src1
  let src2 ← c.deref ci ci.src2
  let result := src1.toNat * src2.toNat
  let c ← c.assign ci.dest (BitVec.ofNat 32 result)
  (c.clearFlag SR.CY).overflow (decide (0xffffffff < result)) SR.CY AE.CYMULE

/-- Store a 64-bit result in the accumulator. -/
def setMac (v : U64) (c : Core σ) : Core σ :=
  { c with mac := { hi := (v >>> 32).setWidth 32, lo := v.setWidth 32 } }

def macValue (c : Core σ) : U64 := c.mac.hi ++ c.mac.lo

/-- A 64-bit result in the accumulator, with signed overflow at 32 bits. -/
def macSigned (f : U64 → U64 → U64) (ae : U32) (ci : Instruction) (c : Core σ) :
    Outcome Empty (Core σ) := do
  let src1 ← c.deref ci ci.src1
  let src2 ← c.deref ci ci.src2
  let result := f c.macValue (BitVec.ofInt 64 (src1.toInt * src2.toInt))
  ((c.setMac result).clearFlag SR.OV).overflow (exceedsS32 result.toInt) SR.OV ae

/-- A 64-bit result in the accumulator, with unsigned overflow at 32 bits. -/
def macUnsigned (f : U64 → U64 → U64) (ae : U32) (ci : Instruction) (c : Core σ) :
    Outcome Empty (Core σ) := do
  let src1 ← c.deref ci ci.src1
  let src2 ← c.deref ci ci.src2
  let result := f c.macValue (BitVec.ofNat 64 (src1.toNat * src2.toNat))
  ((c.setMac result).clearFlag SR.CY).overflow (decide (0xffffffff < result.toNat)) SR.CY ae

def executeOrbis32Muld (ci : Instruction) (c : Core σ) := macSigned (fun _ p => p) AE.OVMULE ci c
def executeOrbis32Muldu (ci : Instruction) (c : Core σ) :=
  macUnsigned (fun _ p => p) AE.CYMULE ci c

/-- A division by zero sets the flag and returns. -/
def executeOrbis32Div (ci : Instruction) (c : Core σ) : Outcome Empty (Core σ) := do
  let src1 ← c.deref ci ci.src1
  let src2 ← c.deref ci ci.src2
  if src2 = 0#32 then (c.setFlag SR.OV).rangeException AE.DBZE
  else if src1 = 0x80000000#32 ∧ src2 = 0xffffffff#32 then .fault .intTrap
  else (c.clearFlag SR.OV).assign ci.dest (src1.sdiv src2)

def executeOrbis32Divu (ci : Instruction) (c : Core σ) : Outcome Empty (Core σ) := do
  let src1 ← c.deref ci ci.src1
  let src2 ← c.deref ci ci.src2
  if src2 = 0#32 then (c.setFlag SR.CY).rangeException AE.DBZE
  else (c.clearFlag SR.CY).assign ci.dest (src1 / src2)

/-! ## Comparisons -/

def executeOrbis32Sfeq (ci : Instruction) (c : Core σ) := compare (· == ·) ci c
def executeOrbis32Sfne (ci : Instruction) (c : Core σ) := compare (· != ·) ci c
def executeOrbis32Sfgtu (ci : Instruction) (c : Core σ) := compare (fun a b => b.ult a) ci c
def executeOrbis32Sfgeu (ci : Instruction) (c : Core σ) := compare (fun a b => b.ule a) ci c
def executeOrbis32Sfltu (ci : Instruction) (c : Core σ) := compare (fun a b => a.ult b) ci c
def executeOrbis32Sfleu (ci : Instruction) (c : Core σ) := compare (fun a b => a.ule b) ci c
def executeOrbis32Sfgts (ci : Instruction) (c : Core σ) := compare (fun a b => b.slt a) ci c
def executeOrbis32Sfges (ci : Instruction) (c : Core σ) := compare (fun a b => b.sle a) ci c
def executeOrbis32Sflts (ci : Instruction) (c : Core σ) := compare (fun a b => a.slt b) ci c
def executeOrbis32Sfles (ci : Instruction) (c : Core σ) := compare (fun a b => a.sle b) ci c

/-! ## Multiply and accumulate -/

def executeOrbis32Mac (ci : Instruction) (c : Core σ) := macSigned (· + ·) AE.OVMACADDE ci c
def executeOrbis32Macu (ci : Instruction) (c : Core σ) := macUnsigned (· + ·) AE.CYMACADDE ci c
def executeOrbis32Msb (ci : Instruction) (c : Core σ) := macSigned (· - ·) AE.OVMACADDE ci c
def executeOrbis32Msbu (ci : Instruction) (c : Core σ) := macUnsigned (· - ·) AE.CYMACADDE ci c

def executeOrbis32Macrc (ci : Instruction) (c : Core σ) : Outcome Empty (Core σ) := do
  let c ← c.assign ci.dest c.mac.lo
  return { c with mac := .zero }

/-! ## System interface -/

def executeOrbis32Sys (_ci : Instruction) (c : Core σ) : Outcome Empty (Core σ) :=
  c.exception .syscall 0#32

def executeOrbis32Trap (_ci : Instruction) (c : Core σ) : Outcome Empty (Core σ) :=
  c.exception .trap 0#32

def executeOrbis32Csync (_ci : Instruction) (c : Core σ) : Outcome Empty (Core σ) := .ok c
def executeOrbis32Msync (_ci : Instruction) (c : Core σ) : Outcome Empty (Core σ) := .ok c
def executeOrbis32Psync (_ci : Instruction) (c : Core σ) : Outcome Empty (Core σ) := .ok c

/-! ## Floating point -/

/-- The class of a result that `reset_fp_flags` tests. -/
structure FpClass where
  zero : Bool
  inf : Bool
  nan : Bool

def fpClass32 (v : U32) : FpClass :=
  let m := v &&& 0x7fffffff#32
  { zero := m == 0#32, inf := m == 0x7f800000#32, nan := decide (m > 0x7f800000#32) }

def fpClass64 (v : U64) : FpClass :=
  let m := v &&& 0x7fffffffffffffff#64
  { zero := m == 0#64, inf := m == 0x7ff0000000000000#64,
    nan := decide (m > 0x7ff0000000000000#64) }

/-- The bits of FPCSR that say the rounding mode. -/
def roundingMode (c : Core σ) : U32 := c.fpcfg &&& 0x6#32

/-- One test of `reset_fp_flags`: set the flag, raise if enabled. -/
def fpTest (flag : U32) (cond : Bool) (c : Core σ) : Outcome Empty (Core σ) :=
  if cond then
    let c := { c with fpcfg := c.fpcfg ||| flag }
    if test c.fpcfg FPS.FPEE then c.exception .fp 0#32 else .ok c
  else .ok c

def resetFpFlags (k : FpClass) (c : Core σ) : Outcome Empty (Core σ) := do
  let c := { c with fpcfg := c.fpcfg &&&
    ~~~(FPS.ZF ||| FPS.INF ||| FPS.QNF ||| FPS.OV ||| FPS.UNF ||| FPS.DZF) }
  let c ← c.fpTest FPS.ZF k.zero
  let c ← c.fpTest FPS.INF k.inf
  let c ← c.fpTest FPS.QNF k.nan
  let c ← c.fpTest FPS.OV c.fpEnv.overflow
  let c ← c.fpTest FPS.UNF c.fpEnv.underflow
  c.fpTest FPS.DZF c.fpEnv.divByZero

/-- The host raises floating point exception flags. -/
def raiseFp (f : FpEnv) (c : Core σ) : Core σ := { c with fpEnv := c.fpEnv.raise f }

/-- Single precision `*d = *a op *b`. -/
def fp32Arith [HostLib] (op : FpOp) (ci : Instruction) (c : Core σ) :
    Outcome Empty (Core σ) := do
  let a ← c.deref ci ci.src1
  let b ← c.deref ci ci.src2
  let (r, f) := HostLib.fp32 op c.roundingMode a b
  let c ← (c.raiseFp f).assign ci.dest r
  c.resetFpFlags (fpClass32 r)

/-- `m_fmac.lo` accumulates the sum of the operands. -/
def executeOrfpx32Madd [HostLib] (ci : Instruction) (c : Core σ) : Outcome Empty (Core σ) := do
  let a ← c.deref ci ci.src1
  let b ← c.deref ci ci.src2
  let (s, f) := HostLib.fp32 .add c.roundingMode a b
  let (r, g) := HostLib.fp32 .add c.roundingMode c.fmac.lo s
  let c := { (c.raiseFp f).raiseFp g with fmac := { c.fmac with lo := r } }
  c.resetFpFlags (fpClass32 r)

def executeOrfpx32Itof [HostLib] (ci : Instruction) (c : Core σ) : Outcome Empty (Core σ) := do
  let a ← c.deref ci ci.src1
  let (r, f) := HostLib.itof32 a
  (c.raiseFp f).assign ci.dest r

def executeOrfpx32Ftoi [HostLib] (ci : Instruction) (c : Core σ) : Outcome Empty (Core σ) := do
  let a ← c.deref ci ci.src1
  let (r, f) := HostLib.ftoi32 a
  (c.raiseFp f).assign ci.dest r

/-- The word `off` places behind an operand pointer into the register file. -/
def derefAt (c : Core σ) (ci : Instruction) (op : Operand) (off : Nat) : Outcome Empty U32 :=
  match op with
  | .reg i => c.deref ci (.reg (i + off))
  | _ => .fault .badPointer

def assignAt (c : Core σ) (op : Operand) (off : Nat) (v : U32) : Outcome Empty (Core σ) :=
  match op with
  | .reg i => c.assign (.reg (i + off)) v
  | _ => .fault .badPointer

/-- The register offset `1 + bit32(insn, idx)` of the high half. -/
def pairOffset (ci : Instruction) (idx : Nat) : Nat := 1 + (bit32 ci.insn idx).toNat

/-- The double in a register pair whose offset bit is `idx`. -/
def derefPair (c : Core σ) (ci : Instruction) (op : Operand) (idx : Nat) :
    Outcome Empty U64 := do
  let hi ← c.derefAt ci op (pairOffset ci idx)
  let lo ← c.derefAt ci op 0
  return ({ hi := hi, lo := lo } : DoubleRegister).u c.env.hostEndian

/-- Write a double to a register pair: the low word, then the high word `off` places behind. -/
def assignPair (c : Core σ) (op : Operand) (off : Nat) (v : U64) : Outcome Empty (Core σ) := do
  let r := DoubleRegister.ofU c.env.hostEndian v
  let c ← c.assignAt op 0 r.lo
  c.assignAt op off r.hi

/-- Double precision `*d = *a op *b`. -/
def fp64Arith [HostLib] (op : FpOp) (ci : Instruction) (c : Core σ) :
    Outcome Empty (Core σ) := do
  let a ← c.derefPair ci ci.src1 9
  let b ← c.derefPair ci ci.src2 8
  let (r, f) := HostLib.fp64 op c.roundingMode a b
  let c ← (c.raiseFp f).assignPair ci.dest (pairOffset ci 10) r
  c.resetFpFlags (fpClass64 r)

/-- `m_fmac.d = src1.d - src2.d` -/
def executeOrfpx64Madd [HostLib] (ci : Instruction) (c : Core σ) : Outcome Empty (Core σ) := do
  let a ← c.derefPair ci ci.src1 9
  let b ← c.derefPair ci ci.src2 8
  let (r, f) := HostLib.fp64 .sub c.roundingMode a b
  let c := { c.raiseFp f with fmac := .ofU c.env.hostEndian r }
  c.resetFpFlags (fpClass64 r)

def executeOrfpx64Itof [HostLib] (ci : Instruction) (c : Core σ) : Outcome Empty (Core σ) := do
  let a ← c.derefPair ci ci.src1 9
  let (r, f) := HostLib.itof64 a
  (c.raiseFp f).assignPair ci.dest 1 r

def executeOrfpx64Ftoi [HostLib] (ci : Instruction) (c : Core σ) : Outcome Empty (Core σ) := do
  let a ← c.derefPair ci ci.src1 9
  let (r, f) := HostLib.ftoi64 a
  (c.raiseFp f).assignPair ci.dest 1 r

def fp32Compare (p : U32 → U32 → Bool) (ci : Instruction) (c : Core σ) := compare p ci c

def fp64Compare (p : U64 → U64 → Bool) (ci : Instruction) (c : Core σ) :
    Outcome Empty (Core σ) := do
  let a ← c.derefPair ci ci.src1 9
  let b ← c.derefPair ci ci.src2 8
  return c.putFlag SR.F (p a b)

variable [HostLib]

def executeOrfpx32Add (ci : Instruction) (c : Core σ) := fp32Arith .add ci c
def executeOrfpx32Sub (ci : Instruction) (c : Core σ) := fp32Arith .sub ci c
def executeOrfpx32Mul (ci : Instruction) (c : Core σ) := fp32Arith .mul ci c
def executeOrfpx32Div (ci : Instruction) (c : Core σ) := fp32Arith .div ci c
def executeOrfpx32Rem (ci : Instruction) (c : Core σ) := fp32Arith .rem ci c
def executeOrfpx32Sfeq (ci : Instruction) (c : Core σ) := fp32Compare HostLib.eq32 ci c
def executeOrfpx32Sfne (ci : Instruction) (c : Core σ) :=
  fp32Compare (fun a b => !HostLib.eq32 a b) ci c
def executeOrfpx32Sfgt (ci : Instruction) (c : Core σ) :=
  fp32Compare (fun a b => HostLib.lt32 b a) ci c
def executeOrfpx32Sfge (ci : Instruction) (c : Core σ) :=
  fp32Compare (fun a b => HostLib.lt32 b a || HostLib.eq32 a b) ci c
def executeOrfpx32Sflt (ci : Instruction) (c : Core σ) := fp32Compare HostLib.lt32 ci c
def executeOrfpx32Sfle (ci : Instruction) (c : Core σ) :=
  fp32Compare (fun a b => HostLib.lt32 a b || HostLib.eq32 a b) ci c

def executeOrfpx64Add (ci : Instruction) (c : Core σ) := fp64Arith .add ci c
def executeOrfpx64Sub (ci : Instruction) (c : Core σ) := fp64Arith .sub ci c
def executeOrfpx64Mul (ci : Instruction) (c : Core σ) := fp64Arith .mul ci c
def executeOrfpx64Div (ci : Instruction) (c : Core σ) := fp64Arith .div ci c
def executeOrfpx64Rem (ci : Instruction) (c : Core σ) := fp64Arith .rem ci c
def executeOrfpx64Sfeq (ci : Instruction) (c : Core σ) := fp64Compare HostLib.eq64 ci c
def executeOrfpx64Sfne (ci : Instruction) (c : Core σ) :=
  fp64Compare (fun a b => !HostLib.eq64 a b) ci c
def executeOrfpx64Sfgt (ci : Instruction) (c : Core σ) :=
  fp64Compare (fun a b => HostLib.lt64 b a) ci c
def executeOrfpx64Sfge (ci : Instruction) (c : Core σ) :=
  fp64Compare (fun a b => HostLib.lt64 b a || HostLib.eq64 a b) ci c
def executeOrfpx64Sflt (ci : Instruction) (c : Core σ) := fp64Compare HostLib.lt64 ci c
def executeOrfpx64Sfle (ci : Instruction) (c : Core σ) :=
  fp64Compare (fun a b => HostLib.lt64 a b || HostLib.eq64 a b) ci c

def executeOrfpx32 (op : FpExec) (ci : Instruction) (c : Core σ) : Outcome Empty (Core σ) :=
  match op with
  | .add => c.executeOrfpx32Add ci
  | .sub => c.executeOrfpx32Sub ci
  | .mul => c.executeOrfpx32Mul ci
  | .div => c.executeOrfpx32Div ci
  | .rem => c.executeOrfpx32Rem ci
  | .madd => c.executeOrfpx32Madd ci
  | .itof => c.executeOrfpx32Itof ci
  | .ftoi => c.executeOrfpx32Ftoi ci
  | .sfeq => c.executeOrfpx32Sfeq ci
  | .sfne => c.executeOrfpx32Sfne ci
  | .sfgt => c.executeOrfpx32Sfgt ci
  | .sfge => c.executeOrfpx32Sfge ci
  | .sflt => c.executeOrfpx32Sflt ci
  | .sfle => c.executeOrfpx32Sfle ci

def executeOrfpx64 (op : FpExec) (ci : Instruction) (c : Core σ) : Outcome Empty (Core σ) :=
  match op with
  | .add => c.executeOrfpx64Add ci
  | .sub => c.executeOrfpx64Sub ci
  | .mul => c.executeOrfpx64Mul ci
  | .div => c.executeOrfpx64Div ci
  | .rem => c.executeOrfpx64Rem ci
  | .madd => c.executeOrfpx64Madd ci
  | .itof => c.executeOrfpx64Itof ci
  | .ftoi => c.executeOrfpx64Ftoi ci
  | .sfeq => c.executeOrfpx64Sfeq ci
  | .sfne => c.executeOrfpx64Sfne ci
  | .sfgt => c.executeOrfpx64Sfgt ci
  | .sfge => c.executeOrfpx64Sfge ci
  | .sflt => c.executeOrfpx64Sflt ci
  | .sfle => c.executeOrfpx64Sfle ci

/-- The executor a register instruction points to. -/
def execute (e : CoreExec) (ci : Instruction) (c : Core σ) : Outcome Empty (Core σ) :=
  match e with
  | .movhi => c.executeOrbis32Movhi ci
  | .bf => c.executeOrbis32Bf ci
  | .bnf => c.executeOrbis32Bnf ci
  | .jumpRel => c.executeOrbis32JumpRel ci
  | .jumpAbs => c.executeOrbis32JumpAbs ci
  | .extw => c.executeOrbis32Extw ci
  | .exthz => c.executeOrbis32Exthz ci
  | .exths => c.executeOrbis32Exths ci
  | .extbz => c.executeOrbis32Extbz ci
  | .extbs => c.executeOrbis32Extbs ci
  | .add => c.executeOrbis32Add ci
  | .addc => c.executeOrbis32Addc ci
  | .sub => c.executeOrbis32Sub ci
  | .and => c.executeOrbis32And ci
  | .or => c.executeOrbis32Or ci
  | .xor => c.executeOrbis32Xor ci
  | .cmov => c.executeOrbis32Cmov ci
  | .ff1 => c.executeOrbis32Ff1 ci
  | .fl1 => c.executeOrbis32Fl1 ci
  | .sll => c.executeOrbis32Sll ci
  | .srl => c.executeOrbis32Srl ci
  | .sra => c.executeOrbis32Sra ci
  | .ror => c.executeOrbis32Ror ci
  | .mul => c.executeOrbis32Mul ci
  | .mulu => c.executeOrbis32Mulu ci
  | .muld => c.executeOrbis32Muld ci
  | .muldu => c.executeOrbis32Muldu ci
  | .div => c.executeOrbis32Div ci
  | .divu => c.executeOrbis32Divu ci
  | .sfeq => c.executeOrbis32Sfeq ci
  | .sfne => c.executeOrbis32Sfne ci
  | .sfgtu => c.executeOrbis32Sfgtu ci
  | .sfgeu => c.executeOrbis32Sfgeu ci
  | .sfltu => c.executeOrbis32Sfltu ci
  | .sfleu => c.executeOrbis32Sfleu ci
  | .sfgts => c.executeOrbis32Sfgts ci
  | .sfges => c.executeOrbis32Sfges ci
  | .sflts => c.executeOrbis32Sflts ci
  | .sfles => c.executeOrbis32Sfles ci
  | .mac => c.executeOrbis32Mac ci
  | .macu => c.executeOrbis32Macu ci
  | .msb => c.executeOrbis32Msb ci
  | .msbu => c.executeOrbis32Msbu ci
  | .macrc => c.executeOrbis32Macrc ci
  | .sys => c.executeOrbis32Sys ci
  | .trap => c.executeOrbis32Trap ci
  | .csync => c.executeOrbis32Csync ci
  | .msync => c.executeOrbis32Msync ci
  | .psync => c.executeOrbis32Psync ci
  | .orfpx32 op => c.executeOrfpx32 op ci
  | .orfpx64 op => c.executeOrfpx64 op ci

end Core

end Or1kiss
