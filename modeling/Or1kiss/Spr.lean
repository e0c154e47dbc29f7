import Or1kiss.Doze

/-!
# Special purpose registers

`spr.h` and `spr.cpp`: the numbers and access rights of the registers, `get_spr` and
`set_spr`. A register that is in none of the tables reads zero, ignores writes, and is
open to every mode.
-/

namespace Or1kiss

open Host Bits

variable {σ : Type}

/-- The registers that `spr_get_access` lists by name (`sp_registers`). -/
inductive SpReg where
  | vr | upr | cpucfgr | dmmucfgr | immucfgr | dccfgr | iccfgr | dcfgr
  | pccfgr | vr2 | avr | evbar | aecr | aesr | npc | sr
  | ppc | fpcsr | epcr | eear | esr | coreid | numcores | dmmucr
  | dmmupr | dtlbeir | immucr | immupr | itlbeir | dccr | dcbpr | dcbfr
  | dcbir | dcbwr | dcblr | iccr | icbpr | icbir | icblr | maclo
  | machi | pmr | picmr | picsr | ttmr | ttcr
  deriving DecidableEq, Repr

namespace SpReg

/-- The number of a register: its group times 2048 plus its index. -/
def num : SpReg → U32
  | .vr => 0x0#32
  | .upr => 0x1#32
  | .cpucfgr => 0x2#32
  | .dmmucfgr => 0x3#32
  | .immucfgr => 0x4#32
  | .dccfgr => 0x5#32
  | .iccfgr => 0x6#32
  | .dcfgr => 0x7#32
  | .pccfgr => 0x8#32
  | .vr2 => 0x9#32
  | .avr => 0xa#32
  | .evbar => 0xb#32
  | .aecr => 0xc#32
  | .aesr => 0xd#32
  | .npc => 0x10#32
  | .sr => 0x11#32
  | .ppc => 0x12#32
  | .fpcsr => 0x14#32
  | .epcr => 0x20#32
  | .eear => 0x30#32
  | .esr => 0x40#32
  | .coreid => 0x80#32
  | .numcores => 0x81#32
  | .dmmucr => 0x800#32
  | .dmmupr => 0x801#32
  | .dtlbeir => 0x802#32
  | .immucr => 0x1000#32
  | .immupr => 0x1001#32
  | .itlbeir => 0x1002#32
  | .dccr => 0x1800#32
  | .dcbpr => 0x1801#32
  | .dcbfr => 0x1802#32
  | .dcbir => 0x1803#32
  | .dcbwr => 0x1804#32
  | .dcblr => 0x1805#32
  | .iccr => 0x2000#32
  | .icbpr => 0x2001#32
  | .icbir => 0x2002#32
  | .icblr => 0x2003#32
  | .maclo => 0x2801#32
  | .machi => 0x2802#32
  | .pmr => 0x4000#32
  | .picmr => 0x4800#32
  | .picsr => 0x4802#32
  | .ttmr => 0x5000#32
  | .ttcr => 0x5001#32

def all : List SpReg :=
  [.vr, .upr, .cpucfgr, .dmmucfgr, .immucfgr, .dccfgr, .iccfgr, .dcfgr, .pccfgr, .vr2, .avr,
   .evbar, .aecr, .aesr, .npc, .sr, .ppc, .fpcsr, .epcr, .eear, .esr, .coreid, .numcores,
   .dmmucr, .dmmupr, .dtlbeir, .immucr, .immupr, .itlbeir, .dccr, .dcbpr, .dcbfr, .dcbir,
   .dcbwr, .dcblr, .iccr, .icbpr, .icbir, .icblr, .maclo, .machi, .pmr, .picmr, .picsr, .ttmr,
   .ttcr]

/-- The `case` of a `switch` that a register number selects. -/
def ofNum (reg : U32) : Option SpReg := all.find? fun r => r.num == reg

@[simp] theorem ofNum_num (r : SpReg) : ofNum r.num = some r := by
  cases r <;> decide

end SpReg

/-- Register files that are tested by range. -/
inductive SprFile where
  | gpr
  | datb
  | dtlb
  | iatb
  | itlb
  deriving DecidableEq, Repr

namespace SprFile

/-- First number and end of a range. -/
def range : SprFile → Nat × Nat
  | .gpr => (0x400, 0x600)
  | .datb => (0x804, 0x80c)
  | .dtlb => (0xa00, 0xe00)
  | .iatb => (0x1004, 0x100c)
  | .itlb => (0x1200, 0x1600)

/-- The file a number lies in; `spr_get_access` compares signed, the accessors unsigned. -/
def ofNum (reg : Int) : Option SprFile :=
  [gpr, datb, dtlb, iatb, itlb].find? fun f =>
    decide ((f.range.1 : Int) ≤ reg) && decide (reg < f.range.2)

/-- Position of a register in its file. -/
def offset (f : SprFile) (reg : U32) : U32 := reg - BitVec.ofNat 32 f.range.1

end SprFile

structure SprAccess where
  sre : Bool
  swe : Bool
  ure : Bool
  uwe : Bool
  deriving DecidableEq, Repr

namespace SprAccess

def superRead : SprAccess := { sre := true, swe := false, ure := false, uwe := false }
def superReadWrite : SprAccess := { sre := true, swe := true, ure := false, uwe := false }
def superWrite : SprAccess := { sre := false, swe := true, ure := false, uwe := false }
def write : SprAccess := { sre := false, swe := true, ure := false, uwe := true }
def every : SprAccess := { sre := true, swe := true, ure := true, uwe := true }

end SprAccess

def SpReg.access : SpReg → SprAccess
  | .vr | .upr | .cpucfgr | .dmmucfgr | .immucfgr | .dccfgr | .iccfgr | .dcfgr | .pccfgr | .vr2
  | .avr | .coreid | .numcores => .superRead
  | .evbar | .aecr | .aesr | .npc | .sr | .ppc | .fpcsr | .epcr | .eear | .esr | .dmmucr | .dmmupr
  | .immucr | .immupr | .dccr | .iccr | .maclo | .machi | .pmr | .picmr | .picsr | .ttmr
  | .ttcr => .superReadWrite
  | .dtlbeir | .itlbeir | .dcbir | .icbir => .superWrite
  | .dcbpr | .dcbfr | .dcbwr | .dcblr | .icbpr | .icblr => .write

def sprGetAccess (spr : U32) : SprAccess :=
  match SpReg.ofNum spr with
  | some r => r.access
  | none =>
    match SprFile.ofNum spr.toInt with
    | some _ => .superReadWrite
    | none => .every

def sprCheckAccess (spr : U32) (isWrite isSuper : Bool) : Bool :=
  let a := sprGetAccess spr
  if isSuper then (if isWrite then a.swe else a.sre) else (if isWrite then a.uwe else a.ure)

namespace Core

/-- The named registers that live in the core. -/
def readReg (c : Core σ) : SpReg → U32
  | .vr => Config.version
  | .vr2 => Config.version2
  | .avr => Config.avr
  | .upr => Config.unit
  | .cpucfgr => Config.cpucfg
  | .dccfgr => Config.dccfgr
  | .iccfgr => Config.iccfgr
  | .dmmucfgr => c.dmmu.cfg
  | .immucfgr => c.immu.cfg
  | .aecr => c.aecr
  | .aesr => c.aesr
  | .sr => c.status
  | .npc => c.nextPc
  | .ppc => c.prevPc
  | .fpcsr => c.fpcfg
  | .epcr => c.expc
  | .eear => c.exea
  | .esr => c.exsr
  | .evbar => c.evba
  | .coreid => c.coreId
  | .numcores => c.numCores
  | .dmmucr => c.dmmu.ctrl
  | .dmmupr => c.dmmu.prot
  | .immucr => c.immu.ctrl
  | .immupr => c.immu.prot
  | .machi => c.mac.hi
  | .maclo => c.mac.lo
  | .pmr => c.pmr
  | .picmr => c.picMr
  | .picsr => c.picSr
  | _ => 0#32

def readFile (c : Core σ) (f : SprFile) (off : U32) : U32 :=
  match f with
  | .gpr => c.shadow off.toNat
  | .datb => c.dmmu.getAtb off
  | .dtlb => c.dmmu.getTlb off
  | .iatb => c.immu.getAtb off
  | .itlb => c.immu.getTlb off

/-- Writes to the named registers of the core; the others warn or do nothing. -/
def writeReg (c : Core σ) (r : SpReg) (val : U32) : Core σ :=
  match r with
  | .npc => { c with nextPc := val }
  | .ppc => { c with prevPc := val }
  | .fpcsr => { c with fpcfg := val }
  | .epcr => { c with expc := val }
  | .eear => { c with exea := val }
  | .esr => { c with exsr := val }
  | .evbar => { c with evba := val }
  | .aecr => { c with aecr := val }
  | .aesr => { c with aesr := val }
  | .sr => { c with status := val }
  | .dmmucr => { c with dmmu := c.dmmu.setCr val }
  | .dtlbeir => { c with dmmu := c.dmmu.flushTlbEntry val }
  | .immucr => { c with immu := c.immu.setCr val }
  | .itlbeir => { c with immu := c.immu.flushTlbEntry val }
  | .machi => { c with mac := { c.mac with hi := val } }
  | .maclo => { c with mac := { c.mac with lo := val } }
  | .pmr => { c with pmr := val }
  | .picmr => { c with picMr := val ||| picNmi }
  | .picsr => if !c.picLevel then { c with picSr := c.picSr &&& ~~~val } else c
  | _ => c

def writeFile (c : Core σ) (f : SprFile) (off val : U32) : Core σ :=
  match f with
  | .gpr => { c with shadow := Function.update c.shadow off.toNat val }
  | .datb => { c with dmmu := c.dmmu.setAtb off val }
  | .dtlb => { c with dmmu := c.dmmu.setTlb off val }
  | .iatb => { c with immu := c.immu.setAtb off val }
  | .itlb => { c with immu := c.immu.setTlb off val }

end Core

namespace Or1k

/-- SUMRA gives user mode the read rights of the supervisor. -/
def readsSuper (s : Or1k σ) : Bool := s.isSupervisor || test s.status SR.SUMRA

/-- Reads need the rights of the current mode, unless a debugger makes them. -/
def readDenied (s : Or1k σ) (reg : U32) (debug : Bool) : Bool :=
  !debug && !sprCheckAccess reg false s.readsSuper

/-- `get_spr` -/
def getSpr (s : Or1k σ) (reg : U32) (debug : Bool) : U32 :=
  if s.readDenied reg debug then 0#32
  else
    match SpReg.ofNum reg with
    | some .ttmr => s.tick.ttmr
    | some .ttcr => s.tick.ttcr
    | some r => s.toCore.readReg r
    | none =>
      match SprFile.ofNum reg.toNat with
      | some f => s.toCore.readFile f (f.offset reg)
      | none => 0#32

/-- What a permitted `set_spr` does. -/
def writeSpr [EnvImpl σ] (s : Or1k σ) (reg val : U32) : Outcome (Or1k σ) (Or1k σ) :=
  match SpReg.ofNum reg with
  | some .icbir => .ok { s with decodeCache := s.decodeCache.invalidateBlock val 32 }
  | some .pmr => (s.withCore (s.toCore.writeReg .pmr val)).doze
  | some .ttmr => .ok { s with tick := s.tick.setTtmr val }
  | some .ttcr => .ok { s with tick := s.tick.setTtcr val }
  | some r => .ok (s.withCore (s.toCore.writeReg r val))
  | none =>
    match SprFile.ofNum reg.toNat with
    | some f => .ok (s.withCore (s.toCore.writeFile f (f.offset reg) val))
    | none => .ok s

/-- `m_break_requested = true` -/
def requestBreak (s : Or1k σ) : Or1k σ := { s with breakRequested := true }

/-- Writes need the rights of the current mode, unless a debugger makes them. -/
def writeDenied (s : Or1k σ) (reg : U32) (debug : Bool) : Bool :=
  !debug && !sprCheckAccess reg true s.isSupervisor

/-- `set_spr` breaks the quantum, also when the access is denied. -/
def setSpr [EnvImpl σ] (s : Or1k σ) (reg val : U32) (debug : Bool) : Outcome (Or1k σ) (Or1k σ) :=
  if s.writeDenied reg debug then .ok s.requestBreak else s.requestBreak.writeSpr reg val

end Or1k

end Or1kiss
