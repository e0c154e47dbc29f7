import Or1kiss.Mmu
import Or1kiss.Tick
import Or1kiss.Insn

/-!
# The state of the simulator

The data members of the class `or1k`, in three layers. `Regs` is what an arithmetic
executor writes besides the status word. `Core` adds what exceptions, the memory access
path and instruction fetch touch. `Or1k` adds the decode cache, the timer and the quantum,
which only `advance`, `l.mtspr` and `l.nop` reach. Console output, the trace stream and the
counters of exclusive accesses are left out: no function reads them.
-/

namespace Or1kiss

open Host Bits

structure DoubleRegister where
  hi : U32
  lo : U32
  deriving DecidableEq, Repr

namespace DoubleRegister

def zero : DoubleRegister := { hi := 0#32, lo := 0#32 }

/-- The 64-bit member of the union: `hi` is stored first. -/
def u (e : Endian) (r : DoubleRegister) : U64 :=
  match e with
  | .little => r.lo ++ r.hi
  | _ => r.hi ++ r.lo

def ofU (e : Endian) (v : U64) : DoubleRegister :=
  match e with
  | .little => { hi := v.setWidth 32, lo := (v >>> 32).setWidth 32 }
  | _ => { hi := (v >>> 32).setWidth 32, lo := v.setWidth 32 }

end DoubleRegister

structure Watchpoint where
  addr : U32
  size : U32
  deriving DecidableEq, Repr

def Watchpoint.overlaps (wp : Watchpoint) (addr size : U32) : Bool :=
  decide (addr < wp.addr + wp.size) && decide (wp.addr < addr + size)

structure WatchpointEvent where
  addr : U32
  size : Nat
  /-- The bytes written, at most eight. -/
  wval : List U8
  iswr : Bool
  hit : Bool
  deriving DecidableEq, Repr

def WatchpointEvent.none : WatchpointEvent :=
  { addr := 0#32, size := 0, wval := [], iswr := false, hit := false }

/-- The sticky exception flags of the host's floating point environment. -/
structure FpEnv where
  overflow : Bool
  underflow : Bool
  divByZero : Bool
  deriving DecidableEq, Repr

def FpEnv.clear : FpEnv := { overflow := false, underflow := false, divByZero := false }

/-- Raised flags stay raised. -/
def FpEnv.raise (e f : FpEnv) : FpEnv :=
  { overflow := e.overflow || f.overflow
    underflow := e.underflow || f.underflow
    divByZero := e.divByZero || f.divByZero }

inductive FpOp where
  | add | sub | mul | div | rem
  deriving DecidableEq, Repr

/-- What the simulator uses of its host besides memory: floating point on bit patterns
(with the two rounding bits of FPCSR and the flags the operation raises), `rand` and the
clock. -/
class HostLib where
  fp32 : FpOp → U32 → U32 → U32 → U32 × FpEnv
  fp64 : FpOp → U32 → U64 → U64 → U64 × FpEnv
  itof32 : U32 → U32 × FpEnv
  ftoi32 : U32 → U32 × FpEnv
  itof64 : U64 → U64 × FpEnv
  ftoi64 : U64 → U64 × FpEnv
  lt32 : U32 → U32 → Bool
  eq32 : U32 → U32 → Bool
  lt64 : U64 → U64 → Bool
  eq64 : U64 → U64 → Bool
  /-- The result of the `n`-th call of `rand`. -/
  rand : Nat → U32
  /-- Milliseconds at the `n`-th call of `gettimeofday`. -/
  time : Nat → U64

structure Regs where
  gpr : Fin 32 → U32
  mac : DoubleRegister
  fmac : DoubleRegister
  fpcfg : U32
  aesr : U32
  fpEnv : FpEnv

structure Core (σ : Type) extends Regs where
  stopRequested : Bool
  breakRequested : Bool
  instructions : Nat
  cycles : Nat
  jumpTarget : U32
  jumpInsn : Nat
  physIpg : U32
  virtIpg : U32
  prevPc : U32
  nextPc : U32
  status : U32
  insn : U32
  aecr : U32
  exsr : U32
  expc : U32
  exea : U32
  evba : U32
  shadow : Nat → U32
  pmr : U32
  picLevel : Bool
  picMr : U32
  picSr : U32
  coreId : U32
  numCores : U32
  dmmu : Mmu
  immu : Mmu
  env : Env σ
  ireq : Request
  dreq : Request
  watchpointsR : List Watchpoint
  watchpointsW : List Watchpoint
  wpEvent : WatchpointEvent
  traceEnabled : Bool
  randCalls : Nat
  timeCalls : Nat
  /-- History: the exceptions that took effect, the last one first. No function reads it. -/
  taken : List ExType

structure Or1k (σ : Type) extends Core σ where
  decodeCache : DecodeCache
  compiles : Nat
  limit : Nat
  sleepCycles : Nat
  allowSleep : Bool
  clock : Nat
  tick : Tick
  tickUpdate : Nat
  breakpoints : List U32

variable {σ : Type}

/-- The constructor `or1k(env, size)`. -/
def Or1k.init (env : Env σ) (size : Nat) : Or1k σ :=
  let req := Request.init env.hostEndian
  { gpr := fun _ => 0#32, mac := .zero, fmac := .zero, fpcfg := 0#32, aesr := 0#32,
    fpEnv := .clear, stopRequested := false, breakRequested := false, instructions := 0,
    cycles := 0, jumpTarget := 0#32, jumpInsn := 0, physIpg := 0xffffffff#32,
    virtIpg := 0xffffffff#32, prevPc := ExType.reset.vector, nextPc := ExType.reset.vector,
    status := SR.FO ||| SR.SM, insn := 0#32, aecr := 0#32, exsr := 0#32, expc := 0#32,
    exea := 0#32, evba := 0#32, shadow := fun _ => 0#32, pmr := 0#32, picLevel := true,
    picMr := picNmi, picSr := 0#32, coreId := 0#32, numCores := 1#32, dmmu := .init MMUCFG.cpu,
    immu := .init MMUCFG.cpu, env := env,
    ireq := { req with read := true, imem := true, size := 4 },
    dreq := { req with imem := false },
    watchpointsR := [], watchpointsW := [], wpEvent := .none, traceEnabled := false,
    randCalls := 0, timeCalls := 0, taken := [],
    decodeCache := .init size, compiles := 0, limit := 0, sleepCycles := 0, allowSleep := true,
    clock := 100000000, tick := .init, tickUpdate := 0, breakpoints := [] }

namespace Core

variable (c : Core σ)

def isDmmuActive : Bool := test c.status SR.DME
def isImmuActive : Bool := test c.status SR.IME
def isSupervisor : Bool := test c.status SR.SM
def isExtIrqEnabled : Bool := test c.status SR.IEE
def isTickIrqEnabled : Bool := test c.status SR.TEE

/-- `m_pic_sr & m_pic_mr` -/
def isInterruptPending : Bool := test c.picSr c.picMr

def setFlag (f : U32) : Core σ := { c with status := c.status ||| f }

def clearFlag (f : U32) : Core σ := { c with status := c.status &&& ~~~f }

/-- Set or clear a flag. -/
def putFlag (f : U32) (b : Bool) : Core σ := if b then c.setFlag f else c.clearFlag f

/-- `interrupt`: a level-triggered line follows its source, an edge-triggered one latches. -/
def interrupt (id : Fin 32) (set : Bool) : Core σ :=
  let irqMask : U32 := 1#32 <<< id.val
  if set then { c with picSr := c.picSr ||| irqMask }
  else if c.picLevel then { c with picSr := c.picSr &&& ~~~irqMask }
  else c

/-- An interrupt line moves `m_pic_sr` and nothing else. -/
theorem interrupt_eq (id : Fin 32) (set : Bool) : ∃ v, c.interrupt id set = { c with picSr := v } := by
  unfold interrupt
  dsimp only
  split
  · exact ⟨_, rfl⟩
  · split
    · exact ⟨_, rfl⟩
    · exact ⟨c.picSr, rfl⟩

/-- The word behind an operand pointer. -/
def deref (ci : Instruction) : Operand → Outcome Empty U32
  | .null => .fault .badPointer
  | .imm => .ok ci.imm
  | .reg i => if h : i < 32 then .ok (c.gpr ⟨i, h⟩) else .fault .badIndex

/-- Write a general purpose register. -/
def setGpr (i : Fin 32) (v : U32) : Core σ := { c with gpr := Function.update c.gpr i v }

/-- Write through an operand pointer; no handler makes an immediate a destination. -/
def assign (op : Operand) (v : U32) : Outcome Empty (Core σ) :=
  match op with
  | .reg i => if h : i < 32 then .ok (c.setGpr ⟨i, h⟩ v) else .fault .badIndex
  | _ => .fault .badPointer

end Core

end Or1kiss
