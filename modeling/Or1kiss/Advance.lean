import Or1kiss.Decode
import Or1kiss.Execute
import Or1kiss.Access
import Or1kiss.Spr

/-!
# Fetch, execute, and the loops of `advance`

The executors that reach the timer, the cache or the counters, `fetch`, and the pieces of
`advance`: what it does at its start (`beginQuantum`), at the head of its outer loop
(`beginMini`), in one iteration of its inner loop (`iterate`), and after the inner loop
(`endMini`).
-/

namespace Or1kiss

open Host Bits

variable {σ : Type}

namespace Or1k

/-! ## Executors -/

def executeOrbis32Mfspr (ci : Instruction) (s : Or1k σ) : Outcome (Or1k σ) (Or1k σ) :=
  s.onCore do
    let a ← s.toCore.deref ci ci.src1
    s.toCore.assign ci.dest (s.getSpr (a ||| ci.imm) false)

/-- The word behind an operand, outside the core. -/
def deref (s : Or1k σ) (ci : Instruction) (op : Operand) : Outcome (Or1k σ) U32 :=
  (s.toCore.deref ci op).widen

def executeOrbis32Mtspr [EnvImpl σ] (ci : Instruction) (s : Or1k σ) :
    Outcome (Or1k σ) (Or1k σ) := do
  let b ← s.deref ci ci.src1
  let a ← s.deref ci ci.dest
  s.setSpr (a ||| ci.imm) b false

def setGpr (s : Or1k σ) (i : Fin 32) (v : U32) : Or1k σ := s.withCore (s.toCore.setGpr i v)

/-- `NOP_EXIT`, `NOP_SILENT_EXIT`: the last cycle is not counted. -/
def exitNop (s : Or1k σ) : Or1k σ :=
  { s with cycles := s.cycles - 1, instructions := s.instructions - 1, stopRequested := true }

/-- `NOP_CNT_RESET` -/
def resetNop (s : Or1k σ) : Or1k σ :=
  { s with instructions := 0, compiles := 0, breakRequested := true }

/-- A register pair receives a 64-bit value. -/
def setPair (s : Or1k σ) (v : U64) : Or1k σ :=
  (s.setGpr 11 (v.setWidth 32)).setGpr 12 ((v >>> 32).setWidth 32)

def executeOrbis32Nop [HostLib] (ci : Instruction) (s : Or1k σ) : Outcome (Or1k σ) (Or1k σ) :=
  match ci.imm.toNat with
  | 0x1 | 0xc => .ok s.exitNop
  | 0x5 => .ok s.resetNop
  | 0x6 => .ok (s.setPair (BitVec.ofNat 64 s.cycles))
  | 0x7 =>
    if s.clock = 0 then .fault .intTrap
    else .ok (s.setGpr 11 (BitVec.ofNat 32 (1000000000000 / s.clock)))
  | 0x8 => .ok { s with traceEnabled := true }
  | 0x9 => .ok { s with traceEnabled := false }
  | 0xa =>
    .ok { s.setGpr 11 (HostLib.rand s.randCalls) with randCalls := s.randCalls + 1 }
  | 0xb => .ok (s.setGpr 11 2#32)
  | 0xd => .ok { s.setPair (HostLib.time s.timeCalls) with timeCalls := s.timeCalls + 1 }
  | 0xe =>
    match s.env.getDataPtr (s.gpr 3) with
    | some _ => .ok s
    | none => .fault .badPointer
  | _ => .ok s

def scheduleJump (target : U32) (delay : Nat) (s : Or1k σ) : Outcome (Or1k σ) (Or1k σ) :=
  s.onCore (s.toCore.scheduleJump target delay)

/-- Both registers are read with the rights of the current mode, the second one after the
jump has been scheduled. -/
def executeOrbis32Rfe [EnvImpl σ] (_ci : Instruction) (s : Or1k σ) :
    Outcome (Or1k σ) (Or1k σ) := do
  let target := s.getSpr SpReg.epcr.num false
  let s ← s.scheduleJump target 0
  let status := s.getSpr SpReg.esr.num false
  s.setSpr SpReg.sr.num status false

/-- A load or store, with its stall cycles added to the limit of the quantum. -/
def executeMem [EnvImpl σ] (e : MemExec) (ci : Instruction) (s : Or1k σ) :
    Outcome (Or1k σ) (Or1k σ) := do
  let (stall, s) ← s.liftCore (s.toCore.executeMem e ci)
  return { s with limit := s.limit + stall }

/-- `(this->*insn->exec)(insn)` -/
def execute [EnvImpl σ] [HostLib] (ci : Instruction) (s : Or1k σ) : Outcome (Or1k σ) (Or1k σ) :=
  match ci.exec with
  | none => .fault .badPointer
  | some (.core e) => s.onCore (s.toCore.execute e ci)
  | some (.mem e) => s.executeMem e ci
  | some .mfspr => s.executeOrbis32Mfspr ci
  | some .mtspr => s.executeOrbis32Mtspr ci
  | some .nop => s.executeOrbis32Nop ci
  | some .rfe => s.executeOrbis32Rfe ci

/-! ## Fetch -/

/-- Decode `m_insn` into its cache slot; custom opcodes leave a cleared slot behind. -/
def compile (s : Or1k σ) : Outcome (Or1k σ) (Option Instruction × Or1k σ) :=
  let code := decode s.insn
  if code = .invalidOpcode ∨ code = .orbis32Cust1 then do
    let s ← s.exception .illegalInsn s.ireq.addr
    return (none, s)
  else
    let blank := Instruction.blank s.ireq.addr s.insn
    match decodeTable code with
    | none => .throw { s with decodeCache := s.decodeCache.store s.ireq.addr blank }
    | some handler =>
      let ci := handler s.insn blank
      .ok (some ci, { s with decodeCache := s.decodeCache.store s.ireq.addr ci,
                             compiles := s.compiles + 1 })

/-- `fetch`; `none` is the null pointer: an exception was raised. -/
def fetch [EnvImpl σ] (s : Or1k σ) : Outcome (Or1k σ) (Option Instruction × Or1k σ) := do
  let (found, s) ← s.liftCore s.toCore.fetchAddress
  if !found then return (none, s)
  else
    let ci := s.decodeCache.lookup s.ireq.addr
    if ci.addr = s.ireq.addr ∧ s.decodeCache.isOff = false then
      return (some ci, s.withCore { s.toCore with insn := ci.insn })
    else
      let (read, s) ← s.liftCore s.toCore.fetchWord
      if !read then return (none, s) else s.compile

/-! ## One iteration of the inner loop -/

/-- `m_cycles++; m_instructions++` -/
def beginCycle (s : Or1k σ) : Or1k σ :=
  { s with cycles := s.cycles + 1, instructions := s.instructions + 1 }

def fetchExecute [EnvImpl σ] [HostLib] (s : Or1k σ) : Outcome (Or1k σ) (Or1k σ) := do
  let (insn, s) ← s.fetch
  match insn with
  | some ci => s.execute ci
  | none => .ok s

/-- Restore the fixed values and update the program counter. -/
def retire (s : Or1k σ) : Or1k σ :=
  { s.setGpr 0 0#32 with
    status := s.status ||| SR.FO, prevPc := s.nextPc, nextPc := s.nextPc + 4#32 }

/-- `next_breakpoint`: the cycle at which straight-line code reaches a breakpoint. -/
def nextBreakpoint (s : Or1k σ) : Nat :=
  s.breakpoints.foldr (fun bp next => min next ((bp - s.nextPc).toNat / 4)) 0xffffffff + s.cycles

def breakpointHit (s : Or1k σ) : Bool := s.breakpoints.any (· == s.nextPc)

/-- The pending jump is due. -/
def jumpDue (s : Or1k σ) : Bool := s.instructions == s.jumpInsn

/-- Take a pending jump that is due. -/
def redirect (s : Or1k σ) : Or1k σ := if s.jumpDue then { s with nextPc := s.jumpTarget } else s

/-- The limit of the inner loop is recomputed after a jump. -/
def newLimit (limit : Nat) (s : Or1k σ) : Nat :=
  if s.jumpDue then min limit s.redirect.nextBreakpoint else limit

/-- How an iteration ends. -/
inductive After where
  | next
  | exit
  | leave
  deriving DecidableEq, Repr

def after (s : Or1k σ) : After :=
  if s.stopRequested then .exit
  else if s.breakRequested then .leave
  else if s.wpEvent.hit then .leave
  else .next

/-- Count, fetch, execute, retire, jump. The result says how the loop goes on, and the
limit it goes on with. -/
def iterate [EnvImpl σ] [HostLib] (limit : Nat) (s : Or1k σ) :
    Outcome (Or1k σ) (After × Nat × Or1k σ) := do
  let s ← s.beginCycle.fetchExecute
  let s := s.retire
  return (s.after, s.newLimit limit, s.redirect)

/-! ## Around the inner loop -/

def checkExternal (s : Or1k σ) : Outcome (Or1k σ) (Or1k σ) :=
  if s.isInterruptPending then s.exception .external 0#32 else .ok s

def beginQuantum [EnvImpl σ] (cycles : U32) (s : Or1k σ) : Outcome (Or1k σ) (Or1k σ) := do
  let s := { s with limit := s.cycles + cycles.toNat }
  let s ← s.checkExternal
  s.doze

def beginMini (s : Or1k σ) : Or1k σ :=
  { s with wpEvent := { s.wpEvent with hit := false }, stopRequested := false,
           breakRequested := false }

/-- The local `limit` of the mini-quantum. -/
def miniLimit (s : Or1k σ) : Nat :=
  let limit := min s.limit s.nextBreakpoint
  if s.tick.enabled then min limit (s.cycles + s.tick.nextTick) else limit

def endMini (s : Or1k σ) : Outcome (Or1k σ) (Or1k σ) := do
  let s ← s.updateTimer
  s.checkExternal

end Or1k

end Or1kiss
