import Or1kiss.Machine
import Or1kiss.Rsp

/-!
# The debugger stub

`gdb.h` and `gdb.cpp`: address translation with its page cache, the packet handlers, and
`process_commands`. A handler gets the bytes of `c_str()`, the terminating zero included; reading
behind them is a fault. Warnings go to the console and are left out.
-/

namespace Or1kiss

open Host Bits

variable {σ : Type}

/-! ## elf.h -/

structure ElfSection where
  virtAddr : U64
  physAddr : U64
  size : U32
  deriving DecidableEq, Repr

namespace ElfSection

def contains (s : ElfSection) (addr : U64) : Bool :=
  decide (s.virtAddr ≤ addr) && decide (addr < s.virtAddr + s.size.setWidth 64)

def toPhys (s : ElfSection) (addr : U64) : U64 := addr - s.virtAddr + s.physAddr

end ElfSection

structure Elf where
  sections : List ElfSection
  deriving DecidableEq, Repr

/-- An address that no section contains stays as it is. -/
def Elf.toPhys (e : Elf) (virtAddr : U64) : U64 :=
  match e.sections.find? fun s => s.contains virtAddr with
  | some s => s.toPhys virtAddr
  | none => virtAddr

/-! ## gdb.h -/

/-- `OR1KISS_GDB_RDBUF_SIZE` -/
abbrev gdbRdbufSize : Nat := rspMaxPacketSize / 4

inductive GdbMode where
  | halted
  | stepping
  | running
  | killed
  deriving DecidableEq, Repr

structure Gdb (σ : Type) where
  cpu : Or1k σ
  elf : Option Elf
  rsp : Rsp
  detached : Bool
  mode : GdbMode
  /-- Page numbers; zero where the map has no entry. -/
  tlb : U32 → U32

namespace Gdb

/-- The constructor `gdb(iss, elf, port)`. -/
def init (cpu : Or1k σ) (elf : Option Elf) (rsp : Rsp) : Gdb σ :=
  { cpu := cpu, elf := elf, rsp := rsp, detached := false, mode := .halted, tlb := fun _ => 0#32 }

def withRsp (g : Gdb σ) (r : Rsp) : Gdb σ := { g with rsp := r }

def withCpu (g : Gdb σ) (s : Or1k σ) : Gdb σ := { g with cpu := s }

def withEnv (g : Gdb σ) (env : Env σ) : Gdb σ :=
  g.withCpu (g.cpu.withCore { g.cpu.toCore with env := env })

/-- `m_rsp.send(fmt, ...)` -/
def send (g : Gdb σ) (text : List U8) : Outcome (Gdb σ) (Gdb σ) :=
  (g.rsp.sendFormat text).lift g.withRsp g.withRsp

/-- `m_rsp.send(const string&)` -/
def sendString (g : Gdb σ) (s : List U8) : Outcome (Gdb σ) (Gdb σ) :=
  (g.rsp.sendString s).lift g.withRsp g.withRsp

/-! ## Memory and translation -/

section Access

variable [EnvImpl σ]

/-- The request that `mem_read`, `mem_write` and `translate` start from. -/
def dataRequest (g : Gdb σ) (read : Bool) (addr : U32) : Request :=
  { Request.init g.cpu.env.hostEndian with
    imem := false, read := read, debug := true, addr := addr }

def memRead (g : Gdb σ) (physAddr : U32) (size : Nat) : Outcome (Gdb σ) (List U8 × Gdb σ) :=
  let (resp, req, env) := g.cpu.env.convertAndTransact
    { g.dataRequest true physAddr with endian := .big, data := g.cpu.env.garbage size, size := size }
  if resp = .success then .ok (req.data, g.withEnv env) else .throw (g.withEnv env)

def memWrite (g : Gdb σ) (physAddr : U32) (bytes : List U8) : Outcome (Gdb σ) (Gdb σ) :=
  let (resp, _, env) := g.cpu.env.convertAndTransact
    { g.dataRequest false physAddr with endian := .big, data := bytes, size := bytes.length }
  if resp = .success then .ok (g.withEnv env) else .throw (g.withEnv env)

def translateDmmu (g : Gdb σ) (req : Request) : MmuResult × Gdb σ × Request :=
  let (res, m, env, req) := g.cpu.dmmu.translate g.cpu.env req
  (res, g.withCpu (g.cpu.withCore { g.cpu.toCore with dmmu := m, env := env }), req)

def translateImmu (g : Gdb σ) (req : Request) : MmuResult × Gdb σ × Request :=
  let (res, m, env, req) := g.cpu.immu.translate g.cpu.env req
  (res, g.withCpu (g.cpu.withCore { g.cpu.toCore with immu := m, env := env }), req)

/-- Without an active MMU the sections of the ELF file say where an address is. -/
def elfPhys (g : Gdb σ) (addr : U32) : U32 :=
  match g.elf with
  | some elf => if 0xc0000000#32 ≤ addr then (elf.toPhys (addr.setWidth 64)).setWidth 32 else addr
  | none => addr

def translate (g : Gdb σ) (addr : U32) : Option U32 × Gdb σ :=
  if !g.cpu.isDmmuActive && !g.cpu.isImmuActive then (some (g.elfPhys addr), g)
  else
    let req := g.dataRequest true addr
    -- an MMU that is not active does not translate
    let (res, g, req) := if g.cpu.isDmmuActive then g.translateDmmu req else (.tlbMiss, g, req)
    if res = .okay then (some req.addr, g)
    else
      let (res, g, req) := if g.cpu.isImmuActive then g.translateImmu req else (.tlbMiss, g, req)
      if res = .okay then (some req.addr, g) else (none, g)

/-- `OR1KISS_MKADDR` -/
def mkAddr (pn off : U32) : U32 := (pn <<< 13) ||| off

def toPhys (g : Gdb σ) (addr : U32) : Outcome (Gdb σ) (U32 × Gdb σ) :=
  let off := pageOffset addr
  let vpn := pageNumber addr
  let ppn := g.tlb vpn
  if ppn ≠ 0#32 then .ok (mkAddr ppn off, g)
  else
    match g.translate addr with
    | (some phys, g) => .ok (phys, { g with tlb := Function.update g.tlb vpn (pageNumber phys) })
    | (none, g) => .throw g

end Access

/-! ## Parsing -/

/-- `<c>%x,%x` -/
def scanRange (c : Char) (s : List U8) : Option (U32 × U32 × List U8) := do
  let s ← scanChar (chr c) s
  let (addr, s) ← scanHexAny s
  let s ← scanChar (chr ',') s
  let (length, s) ← scanHexAny s
  some (addr, length, s)

/-- `<c>%x,%x,%x` -/
def scanPoint (c : Char) (s : List U8) : Option (U32 × U32 × U32) := do
  let s ← scanChar (chr c) s
  let (type, s) ← scanHexAny s
  let s ← scanChar (chr ',') s
  let (addr, s) ← scanHexAny s
  let s ← scanChar (chr ',') s
  let (length, _) ← scanHexAny s
  some (type, addr, length)

/-- `strchr(command, ':') + 1`, up to the end of the buffer. -/
def behindColon (command : List U8) : Option (List U8) :=
  if (cstr command).contains (chr ':') then some ((command.dropWhile (· != chr ':')).drop 1)
  else none

/-- The first `n` characters at a pointer into the buffer. -/
def chars (s : List U8) (n : Nat) : Outcome (Gdb σ) (List U8) :=
  if n ≤ s.length then .ok (s.take n) else .fault .badIndex

/-- `n` times `str2int(data++, 2)`: the bytes and where `data` ends; the pointer goes one character
further each time. -/
def hexPairs : Nat → List U8 → Option (List U8 × List U8)
  | 0, data => some ([], data)
  | n + 1, c :: d :: data => do
    let (bytes, rest) ← hexPairs n (d :: data)
    some ((str2int [c, d]).setWidth 8 :: bytes, rest)
  | _ + 1, _ => none

/-- `n` times `char_unescape(data)`. -/
def unescaped : Nat → List U8 → Option (List U8 × List U8)
  | 0, data => some ([], data)
  | n + 1, data => do
    let (c, data) ← charUnescape data
    let (bytes, rest) ← unescaped n data
    some (c :: bytes, rest)

/-! ## Run control -/

def handleStep (g : Gdb σ) (_command : List U8) : Outcome (Gdb σ) (Gdb σ) :=
  .ok { g with tlb := fun _ => 0#32, mode := .stepping }

def handleContinue (g : Gdb σ) (_command : List U8) : Outcome (Gdb σ) (Gdb σ) :=
  .ok { g with tlb := fun _ => 0#32, mode := .running }

def handleDetach (g : Gdb σ) (_command : List U8) : Outcome (Gdb σ) (Gdb σ) :=
  { g with tlb := fun _ => 0#32, mode := .running, detached := true }.send (ascii "OK")

def handleKill (g : Gdb σ) (_command : List U8) : Outcome (Gdb σ) (Gdb σ) :=
  .ok { g with mode := .killed }

section Handlers

variable [EnvImpl σ]

/-! ## Remote commands -/

/-- `m_iss.set_spr(reg, val, true)` -/
def setSpr (g : Gdb σ) (reg val : U32) : Outcome (Gdb σ) (Gdb σ) :=
  (g.cpu.setSpr reg val true).lift g.withCpu g.withCpu

/-- The characters that pairs of digits spell. -/
def rcmdText : List U8 → List U8
  | c :: d :: s => ((char2int c <<< 4) ||| char2int d).setWidth 8 :: rcmdText s
  | _ => []

/-- Every character as two digits. -/
def rcmdReply (s : List U8) : List U8 :=
  s.flatMap fun c : U8 => [int2char (c.setWidth 32 >>> 4), int2char (c.setWidth 32 &&& 0xf#32)]

def handleRcmd (g : Gdb σ) (command : List U8) : Outcome (Gdb σ) (Gdb σ) :=
  let cmd := cstr (command.drop 6)
  if cmd.length % 2 ≠ 0 then .throw g
  else
    let s := cstr (rcmdText cmd)
    match (scanText (ascii "readspr") s).bind fun s => scanHex 4 (s.dropWhile isSpace) with
    | some (reg, _) =>
      g.send (rcmdReply (hexPadded (chr ' ') 8 (g.cpu.getSpr reg true)))
    | none =>
      let args := do
        let s ← scanText (ascii "writespr") s
        let (reg, s) ← scanHex 4 (s.dropWhile isSpace)
        let (val, _) ← scanHex 8 (s.dropWhile isSpace)
        some (reg, val)
      match args with
      | some (reg, val) => do (← g.setSpr reg val).send (ascii "OK")
      | none => .throw g

def handleQuery (g : Gdb σ) (command : List U8) : Outcome (Gdb σ) (Gdb σ) :=
  if (ascii "qSupported").isPrefixOf command then g.send (ascii "PacketSize=4000")
  else if (ascii "qAttached").isPrefixOf command then g.send (ascii "1")
  else if (ascii "qOffsets").isPrefixOf command then g.send (ascii "Text=0;Data=0;Bss=0")
  else if (ascii "qRcmd").isPrefixOf command then g.handleRcmd command
  else g.send []

/-! ## Registers -/

/-- Register `reg` of the debugger: the general purpose registers, PPC, NPC and SR. -/
def readReg (g : Gdb σ) (reg : Fin 35) : U32 :=
  if h : reg.val < 32 then g.cpu.gpr ⟨reg.val, h⟩
  else if reg.val = 32 then g.cpu.getSpr SpReg.ppc.num true
  else if reg.val = 33 then g.cpu.getSpr SpReg.npc.num true
  else g.cpu.getSpr SpReg.sr.num true

def writeReg (g : Gdb σ) (reg : Fin 35) (val : U32) : Outcome (Gdb σ) (Gdb σ) :=
  if h : reg.val < 32 then .ok (g.withCpu (g.cpu.withCore (g.cpu.toCore.setGpr ⟨reg.val, h⟩ val)))
  else if reg.val = 32 then g.setSpr SpReg.ppc.num val
  else if reg.val = 33 then g.setSpr SpReg.npc.num val
  else g.setSpr SpReg.sr.num val

def handleRegRead (g : Gdb σ) (command : List U8) : Outcome (Gdb σ) (Gdb σ) :=
  match (scanChar (chr 'p') (cstr command)).bind scanHexAny with
  | some (reg, _) =>
    if h : reg.toNat < 35 then g.send (hexWord (g.readReg ⟨reg.toNat, h⟩)) else .throw g
  | none => .throw g

def handleRegWrite (g : Gdb σ) (command : List U8) : Outcome (Gdb σ) (Gdb σ) :=
  let args := do
    let s ← scanChar (chr 'P') (cstr command)
    let (reg, s) ← scanHexAny s
    let s ← scanChar (chr '=') s
    let (val, _) ← scanHexAny s
    some (reg, val)
  match args with
  | some (reg, val) =>
    if h : reg.toNat < 35 then do (← g.writeReg ⟨reg.toNat, h⟩ val).send (ascii "OK") else .throw g
  | none => .throw g

def handleRegReadAll (g : Gdb σ) (_command : List U8) : Outcome (Gdb σ) (Gdb σ) :=
  g.send ((List.finRange 35).flatMap fun reg => hexWord (g.readReg reg))

/-- The registers one after the other, each from eight characters. -/
def writeRegs (str : List U8) : List (Fin 35) → Gdb σ → Outcome (Gdb σ) (Gdb σ)
  | [], g => .ok g
  | reg :: regs, g => do
    let digits ← chars (str.drop (reg.val * 8)) 8
    writeRegs str regs (← g.writeReg reg (str2int digits))

def handleRegWriteAll (g : Gdb σ) (command : List U8) : Outcome (Gdb σ) (Gdb σ) := do
  (← writeRegs (command.drop 1) (List.finRange 35) g).send (ascii "OK")

/-! ## Memory -/

/-- How many of `length` bytes are moved at once: no more than the buffer holds or than are left of
the page. -/
def chunk (physAddr : U32) (length : Nat) : Nat :=
  min (min length gdbRdbufSize) (0x2000 - (pageOffset physAddr).toNat)

/-- The loop of `handle_mem_read`; it takes at most `length` rounds. -/
def readLoop : Nat → U32 → Nat → Gdb σ → List U8 → Outcome (Gdb σ) (List U8 × Gdb σ)
  | 0, _, _, g, text => .ok (text, g)
  | fuel + 1, addr, length, g, text =>
    if length > 0 then do
      let (physAddr, g) ← g.toPhys addr
      let n := chunk physAddr length
      let (buffer, g) ← g.memRead physAddr n
      readLoop fuel (addr + BitVec.ofNat 32 n) (length - n) g (text ++ hexBytes buffer)
    else .ok (text, g)

def handleMemRead (g : Gdb σ) (command : List U8) : Outcome (Gdb σ) (Gdb σ) :=
  match scanRange 'm' (cstr command) with
  | some (addr, length, _) => do
    let (text, g) ← readLoop length.toNat addr length.toNat g []
    g.sendString text
  | none => .throw g

/-- The loop of `handle_mem_write` and `handle_mem_write_bin`; `convert` takes bytes from `data`. -/
def writeLoop (convert : Nat → List U8 → Option (List U8 × List U8)) :
    Nat → U32 → Nat → List U8 → Gdb σ → Outcome (Gdb σ) (Gdb σ)
  | 0, _, _, _, g => .ok g
  | fuel + 1, addr, length, data, g =>
    if length > 0 then do
      let (physAddr, g) ← g.toPhys addr
      let n := chunk physAddr length
      match convert n data with
      | some (buffer, data) =>
        writeLoop convert fuel (addr + BitVec.ofNat 32 n) (length - n) data
          (← g.memWrite physAddr buffer)
      | none => .fault .badIndex
    else .ok g

def handleMemWrite (g : Gdb σ) (command : List U8) : Outcome (Gdb σ) (Gdb σ) :=
  match scanRange 'M' (cstr command) with
  | some (addr, length, _) =>
    if length.toNat % 4 ≠ 0 then .throw g
    else
      match behindColon command with
      | some data => do
        (← writeLoop hexPairs length.toNat addr length.toNat data g).send (ascii "OK")
      | none => .throw g
  | none => .throw g

def handleMemWriteBin (g : Gdb σ) (command : List U8) : Outcome (Gdb σ) (Gdb σ) :=
  match scanRange 'X' (cstr command) with
  | some (addr, length, _) =>
    if length.toNat % 4 ≠ 0 then .throw g
    else if length = 0#32 then g.send (ascii "OK")
    else
      match behindColon command with
      | some data => do
        (← writeLoop unescaped length.toNat addr length.toNat data g).send (ascii "OK")
      | none => .throw g
  | none => .throw g

end Handlers

/-! ## Breakpoints -/

def handleBreakpointSet (g : Gdb σ) (command : List U8) : Outcome (Gdb σ) (Gdb σ) :=
  match scanPoint 'Z' (cstr command) with
  | some (type, addr, length) =>
    let wp : Watchpoint := { addr := addr, size := length }
    if type = 0#32 ∨ type = 1#32 then
      (g.withCpu (g.cpu.insertBreakpoint addr)).send (ascii "OK")
    else if type = 2#32 then (g.withCpu (g.cpu.insertWatchpoint true wp)).send (ascii "OK")
    else if type = 3#32 then (g.withCpu (g.cpu.insertWatchpoint false wp)).send (ascii "OK")
    else if type = 4#32 then
      (g.withCpu ((g.cpu.insertWatchpoint true wp).insertWatchpoint false wp)).send (ascii "OK")
    else .throw g
  | none => .throw g

def handleBreakpointDelete (g : Gdb σ) (command : List U8) : Outcome (Gdb σ) (Gdb σ) :=
  match scanPoint 'z' (cstr command) with
  | some (type, addr, length) =>
    let wp : Watchpoint := { addr := addr, size := length }
    if type = 0#32 ∨ type = 1#32 then
      (g.withCpu (g.cpu.removeBreakpoint addr)).send (ascii "OK")
    else if type = 2#32 then (g.withCpu (g.cpu.removeWatchpoint true wp)).send (ascii "OK")
    else if type = 3#32 then (g.withCpu (g.cpu.removeWatchpoint false wp)).send (ascii "OK")
    else if type = 4#32 then
      (g.withCpu ((g.cpu.removeWatchpoint true wp).removeWatchpoint false wp)).send (ascii "OK")
    else .throw g
  | none => .throw g

def handleException (g : Gdb σ) (_command : List U8) : Outcome (Gdb σ) (Gdb σ) :=
  g.send (ascii "S05")

def handleThread (g : Gdb σ) (_command : List U8) : Outcome (Gdb σ) (Gdb σ) := g.send (ascii "OK")

def handleVcont (g : Gdb σ) (_command : List U8) : Outcome (Gdb σ) (Gdb σ) := g.send []

/-! ## Commands -/

/-- The table of handlers. -/
def handlers [EnvImpl σ] : List (Char × (Gdb σ → List U8 → Outcome (Gdb σ) (Gdb σ))) :=
  [('q', handleQuery), ('s', handleStep), ('c', handleContinue), ('D', handleDetach),
   ('k', handleKill), ('p', handleRegRead), ('P', handleRegWrite), ('g', handleRegReadAll),
   ('G', handleRegWriteAll), ('m', handleMemRead), ('M', handleMemWrite), ('X', handleMemWriteBin),
   ('Z', handleBreakpointSet), ('z', handleBreakpointDelete), ('H', handleThread),
   ('v', handleVcont), ('?', handleException)]

/-- What `process_commands` does with a command; an exception of the handler is answered. -/
def execute [EnvImpl σ] (g : Gdb σ) (command : List U8) : Outcome (Gdb σ) (Gdb σ) :=
  match handlers.find? fun h => chr h.1 == command.headD 0#8 with
  | none => g.send []
  | some h =>
    match h.2 g (command ++ [0#8]) with
    | .throw g => g.send (ascii "E03")
    | x => x

/-- One round of the loop of `process_commands`. -/
def processCommand [EnvImpl σ] (g : Gdb σ) : Outcome (Gdb σ) (Gdb σ) := do
  let (command, r) ← g.rsp.recv.lift g.withRsp id
  if !r.isOpen then (g.withRsp r).handleDetach []
  else (g.withRsp r).execute command

/-! ## The simulation side -/

/-- `check_signals` once `peek` has seen a byte or the end of the connection. -/
def checkSignals (g : Gdb σ) : Outcome (Gdb σ) (Gdb σ) := do
  let (c, r) ← g.rsp.recvChar.lift g.withRsp id
  let g := g.withRsp r
  if c = 0x00#8 then .ok { g with mode := .killed }
  else if c = 0x03#8 then ({ g with mode := .halted } : Gdb σ).send (ascii "S02")
  else .ok g

/-- The cycles that `step` asks for under the mode it has read. -/
def quantum (mode : GdbMode) (cycles : U32) : U32 :=
  match mode with
  | .stepping => 1#32
  | .halted => 0#32
  | _ => cycles

/-- What `step` does with the result of `m_iss.step` under the mode it has read before; `none` where
it runs into `assert(0)`. -/
def endStep (g : Gdb σ) (mode : GdbMode) (res : StepResult) :
    Option (Outcome (Gdb σ) (StepResult × Gdb σ)) :=
  if mode = .killed then some (.ok (res, g))
  else
    match res with
    | .exit => some ((g.send (ascii "W" ++ hexPadded (chr '0') 2 (g.cpu.gpr 3))).lift id (.exit, ·))
    | .breakpoint => some (({ g with mode := .halted }.send (ascii "S05")).lift id (.ok, ·))
    | .ok =>
      if mode = .stepping then some (({ g with mode := .halted }.send (ascii "S05")).lift id (.ok, ·))
      else some (.ok (.ok, g))
    | .watchpoint => none

/-! ## Where packets end -/

section Ends

variable {P : Gdb σ → Prop} {g : Gdb σ}

/-- An answer is sent. -/
theorem send_ends (hP : ∀ r, P (g.withRsp r)) (text : List U8) : Outcome.Ends P P (g.send text) :=
  (Outcome.ends_trivial _).lift (fun r _ => hP r) fun r _ => hP r

theorem sendString_ends (hP : ∀ r, P (g.withRsp r)) (text : List U8) :
    Outcome.Ends P P (g.sendString text) :=
  (Outcome.ends_trivial _).lift (fun r _ => hP r) fun r _ => hP r

variable [EnvImpl σ] {command : List U8}

/-- An exception of a handler is answered. -/
theorem execute_handled (hs : ∀ x text, P x → Outcome.Ends P P (x.send text))
    {h : Char × (Gdb σ → List U8 → Outcome (Gdb σ) (Gdb σ))}
    (hf : handlers.find? (fun h => chr h.1 == command.headD 0#8) = some h)
    (hh : Outcome.Ends P P (h.2 g (command ++ [0#8]))) : Outcome.Ends P P (g.execute command) := by
  unfold execute
  rw [hf]
  dsimp only
  generalize h.2 g (command ++ [0#8]) = x at hh ⊢
  cases hh with
  | ok hx => exact .ok hx
  | throw hx => exact hs _ _ hx
  | fault e => exact .fault e

theorem execute_ends (hs : ∀ x text, P x → Outcome.Ends P P (x.send text)) (hn : P g)
    (hh : ∀ h ∈ handlers, chr h.1 = command.headD 0#8 →
      Outcome.Ends P P (h.2 g (command ++ [0#8]))) : Outcome.Ends P P (g.execute command) := by
  cases hf : (handlers (σ := σ)).find? (fun h => chr h.1 == command.headD 0#8) with
  | none =>
    unfold execute
    rw [hf]
    exact hs g _ hn
  | some h =>
    exact execute_handled hs hf
      (hh h (List.mem_of_find?_eq_some hf) (by simpa using List.find?_some hf))

end Ends

end Gdb

end Or1kiss
