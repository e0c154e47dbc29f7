import Or1kiss.Exception

/-!
# Loads, stores and instruction fetch

`transact` serves the data accesses of the executors, `fetchAddress` and `fetchWord` are
the address step and the memory step of `fetch`. A `data` pointer designates a register:
its bytes travel in the request and are written back afterwards.
-/

namespace Or1kiss

open Host Bits

variable {σ : Type}

/-- Memory holds `old`; the first `n` bytes of it are overwritten by those of `bs`. -/
def overlay (old bs : List U8) (n : Nat) : List U8 :=
  let n := min n bs.length
  bs.take n ++ old.drop n

namespace Core

/-- What `transact` returns and leaves behind. `stall` are the cycles it charges; the caller
adds them to the limit of the quantum. -/
structure Access (σ : Type) where
  done : Bool
  stall : Nat
  req : Request
  core : Core σ

/-- The access touches a watchpoint of its kind. -/
def hitsWatchpoint (req : Request) (c : Core σ) : Bool :=
  !req.debug && !req.imem && (if req.read then c.watchpointsR else c.watchpointsW).any
    (·.overlaps req.addr (BitVec.ofNat 32 req.size))

def eventOf (req : Request) : WatchpointEvent :=
  { addr := req.addr, size := req.size, iswr := !req.read, hit := true,
    wval := if req.read then [] else req.data.take (min 8 req.size) }

/-- Remember the access if it hits a watchpoint. -/
def checkWatchpoints (req : Request) (c : Core σ) : Core σ :=
  if c.hitsWatchpoint req then { c with wpEvent := eventOf req } else c

/-- Remembering an access writes the event only. -/
theorem checkWatchpoints_eq (c : Core σ) (req : Request) :
    ∃ w, c.checkWatchpoints req = { c with wpEvent := w } := by
  unfold checkWatchpoints
  split
  · exact ⟨_, rfl⟩
  · exact ⟨c.wpEvent, rfl⟩

/-- Leave `transact` with an exception. -/
def abort (type : ExType) (req : Request) (c : Core σ) :
    Outcome (Core σ × Request) (Access σ) :=
  (c.exception type req.addr).lift Empty.elim
    (fun c => { done := false, stall := 0, req := req, core := c })

/-- A served access is charged to the caller unless a debugger made it. -/
def complete (req : Request) (c : Core σ) : Access σ :=
  if req.debug then { done := true, stall := 0, req := req, core := c }
  else { done := true, stall := req.cycles, req := req,
         core := { c with cycles := c.cycles + req.cycles } }

/-- Send the request through the port. -/
def send [EnvImpl σ] (req : Request) (c : Core σ) : Outcome (Core σ × Request) (Access σ) :=
  let (resp, req, env) := c.env.convertAndTransact req
  let c := { c with env := env }
  match resp with
  | .error => c.abort .dataBusError req
  | .failed => if !req.excl then .throw (c, req) else .ok ((c.clearFlag SR.F).complete req)
  | .success => .ok ((if req.excl then c.setFlag SR.F else c).complete req)

/-- Common properties of a data request. -/
def dataRequest (c : Core σ) (req : Request) : Request :=
  { req with super := c.isSupervisor, cycles := 0 }

def misaligned (req : Request) : Bool := !req.isAligned && !req.debug

/-- Translation of a data address, if the MMU is on. -/
def translateData [EnvImpl σ] (req : Request) (c : Core σ) : MmuResult × Request × Core σ :=
  if c.isDmmuActive then
    let (res, dmmu, env, req) := c.dmmu.translate c.env req
    (res, req, { c with dmmu := dmmu, env := env })
  else (.okay, req, c)

/-- The part of `transact` behind the alignment check. -/
def translateSend [EnvImpl σ] (req : Request) (c : Core σ) :
    Outcome (Core σ × Request) (Access σ) :=
  match c.translateData req with
  | (.tlbMiss, req, c) => c.abort .dataTlbMiss req
  | (.pageFault, req, c) => c.abort .dataPageFault req
  | (.okay, req, c) => c.send req

/-- `transact`; the thrown state carries the request, whose bytes may have changed. -/
def transact [EnvImpl σ] (req : Request) (c : Core σ) : Outcome (Core σ × Request) (Access σ) :=
  let req := c.dataRequest req
  let c := c.checkWatchpoints req
  if misaligned req then c.abort .dataAlignment req else c.translateSend req

/-- `m_dreq` after an access to register `i`, and the bytes it left in the register. -/
def writeBack (i : Fin 32) (req : Request) (c : Core σ) : Core σ :=
  let e := c.env.hostEndian
  { c.setGpr i (ofBytes e (overlay (bytesOf e (c.gpr i)) req.data req.size)) with
    dreq := { req with data := [] } }

/-- An access of `size` bytes at `*a + imm` through the buffer `buf`; `post` is applied to
the register after a successful load. The stall cycles come with the state. -/
def accessMemory [EnvImpl σ] (read excl : Bool) (size : Nat) (post : U32 → U32) (buf : Operand)
    (ci : Instruction) (c : Core σ) : Outcome (Core σ) (Nat × Core σ) := do
  let a ← (c.deref ci ci.src1).widen
  let v ← (c.deref ci buf).widen
  match buf with
  | .reg i =>
    if h : i < 32 then
      let req := { c.dreq with
        read := read, excl := excl, addr := a + ci.imm, size := size
        data := (bytesOf c.env.hostEndian v).take size }
      (c.transact req).lift (fun t => t.1.writeBack ⟨i, h⟩ t.2) fun r =>
        let c := r.core.writeBack ⟨i, h⟩ r.req
        (r.stall, if r.done && read then c.setGpr ⟨i, h⟩ (post (c.gpr ⟨i, h⟩)) else c)
    else .fault .badIndex
  | _ => .fault .badPointer

section Executors

variable [EnvImpl σ]

def executeOrbis32Lwa (ci : Instruction) (c : Core σ) := accessMemory true true 4 id ci.dest ci c
def executeOrbis32Lw (ci : Instruction) (c : Core σ) := accessMemory true false 4 id ci.dest ci c
def executeOrbis32Lhz (ci : Instruction) (c : Core σ) :=
  accessMemory true false 2 (· &&& 0xffff#32) ci.dest ci c
def executeOrbis32Lhs (ci : Instruction) (c : Core σ) :=
  accessMemory true false 2 (signExtend32 · 15) ci.dest ci c
def executeOrbis32Lbz (ci : Instruction) (c : Core σ) :=
  accessMemory true false 1 (· &&& 0xff#32) ci.dest ci c
def executeOrbis32Lbs (ci : Instruction) (c : Core σ) :=
  accessMemory true false 1 (signExtend32 · 7) ci.dest ci c
def executeOrbis32Swa (ci : Instruction) (c : Core σ) := accessMemory false true 4 id ci.src2 ci c
def executeOrbis32Sw (ci : Instruction) (c : Core σ) := accessMemory false false 4 id ci.src2 ci c
def executeOrbis32Sh (ci : Instruction) (c : Core σ) := accessMemory false false 2 id ci.src2 ci c
def executeOrbis32Sb (ci : Instruction) (c : Core σ) := accessMemory false false 1 id ci.src2 ci c

/-- The executor a load or store points to. -/
def executeMem (e : MemExec) (ci : Instruction) (c : Core σ) : Outcome (Core σ) (Nat × Core σ) :=
  match e with
  | .lwa => c.executeOrbis32Lwa ci
  | .lw => c.executeOrbis32Lw ci
  | .lhz => c.executeOrbis32Lhz ci
  | .lhs => c.executeOrbis32Lhs ci
  | .lbz => c.executeOrbis32Lbz ci
  | .lbs => c.executeOrbis32Lbs ci
  | .swa => c.executeOrbis32Swa ci
  | .sw => c.executeOrbis32Sw ci
  | .sh => c.executeOrbis32Sh ci
  | .sb => c.executeOrbis32Sb ci

end Executors

/-! ## Fetch -/

/-- Leave `fetch` with an exception; `false` stands for the null pointer. -/
def refuse (type : ExType) (c : Core σ) : Outcome (Core σ) (Bool × Core σ) :=
  (c.exception type c.ireq.addr).lift Empty.elim fun c => (false, c)

/-- `m_ireq` at the start of `fetch`. -/
def fetchRequest (c : Core σ) : Request :=
  { c.ireq with super := c.isSupervisor, addr := c.nextPc, cycles := 0 }

/-- The page of the last fetch answers for the MMU. -/
def samePage (c : Core σ) : Bool := pageCompare c.virtIpg c.nextPc

/-- `m_immu.translate(m_ireq)` -/
def translateFetch [EnvImpl σ] (c : Core σ) : MmuResult × Core σ :=
  let (res, immu, env, ireq) := c.immu.translate c.env c.fetchRequest
  (res, { c with immu := immu, env := env, ireq := ireq })

/-- The address step: the page of the last fetch, else the MMU. -/
def fetchAddress [EnvImpl σ] (c : Core σ) : Outcome (Core σ) (Bool × Core σ) :=
  if c.isImmuActive then
    if c.samePage then
      .ok (true, { c with ireq :=
        { c.fetchRequest with addr := c.physIpg ||| pageOffset c.nextPc } })
    else
      match c.translateFetch with
      | (.tlbMiss, c) => c.refuse .insnTlbMiss
      | (.pageFault, c) => c.refuse .insnPageFault
      | (.okay, c) =>
        .ok (true, { c with virtIpg := pageAlign c.nextPc, physIpg := pageAlign c.ireq.addr })
  else .ok (true, { c with ireq := c.fetchRequest })

/-- `m_env->convert_and_transact(m_ireq)` into `m_insn` -/
def readInsn [EnvImpl σ] (c : Core σ) : Response × Core σ :=
  let e := c.env.hostEndian
  let (resp, req, env) := c.env.convertAndTransact { c.ireq with data := bytesOf e c.insn }
  let insn := ofBytes e (overlay (bytesOf e c.insn) req.data req.size)
  (resp, { c with env := env, insn := insn, ireq := { req with data := [] } })

/-- The memory step: the word at `m_ireq.addr` is put in `m_insn`. -/
def fetchWord [EnvImpl σ] (c : Core σ) : Outcome (Core σ) (Bool × Core σ) :=
  match c.env.getInsnPtr c.ireq.addr with
  | some p =>
    let word := ofBytes c.env.hostEndian (readBytes c.env.world.mem p 4)
    .ok (true, { c with insn := byteSwap word })
  | none =>
    match c.readInsn with
    | (.error, c) => c.refuse .insnBusError
    | (.failed, c) => .throw c
    | (.success, c) => .ok (true, c)

end Core

end Or1kiss
