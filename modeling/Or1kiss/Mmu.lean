import Mathlib.Logic.Function.Basic
import Or1kiss.Env

/-!
# The memory management units

`mmu.h` and `mmu.cpp`. The TLB is an array of match and translate registers, `way` and
`set` selecting a pair. `translate` ages the set, looks for a valid match, and without
one walks the two-level page table at the page directory of the control register and
refills a way.
-/

namespace Or1kiss

open Bits

/-! ## Pages -/

abbrev pageMask : U32 := 0x1fff#32

def pageNumber (addr : U32) : U32 := addr >>> 13

def pageOffset (addr : U32) : U32 := addr &&& pageMask

def pageAlign (addr : U32) : U32 := addr &&& ~~~pageMask

/-- `OR1KISS_PAGE_COMPARE`: both addresses lie on one page. -/
def pageCompare (a b : U32) : Bool := pageAlign (a ^^^ b) == 0#32

/-! ## Registers -/

-- mmu_config
namespace MMUCFG
abbrev TEIRI : U32 := 0x400#32
abbrev HTR : U32 := 0x800#32
/-- `NTS128 | NTW4 | CRI | HTR | TEIRI`, the configuration of both MMUs of the CPU. -/
abbrev cpu : U32 := 0xd1f#32
end MMUCFG

-- mmu_control
namespace MMUCR
abbrev DTF : U32 := 0x1#32
abbrev ITF : U32 := 0x1#32
abbrev PGD : U32 := 0xfffffc00#32
end MMUCR

-- mmu_pte
namespace MMUPTE
abbrev CC : U32 := 0x1#32
abbrev CI : U32 := 0x2#32
abbrev WBC : U32 := 0x4#32
abbrev WOM : U32 := 0x8#32
abbrev A : U32 := 0x10#32
abbrev D : U32 := 0x20#32
abbrev EXEC : U32 := 0x400#32
end MMUPTE

-- mmu_access
namespace MMU
abbrev URE : U32 := 0x40#32
abbrev UWE : U32 := 0x80#32
abbrev UXE : U32 := 0x80#32
abbrev SRE : U32 := 0x100#32
abbrev SWE : U32 := 0x200#32
abbrev SXE : U32 := 0x40#32
end MMU

-- mmu_match
namespace MMUM
abbrev V : U32 := 0x1#32
abbrev LRU0 : U32 := 0x0#32
abbrev LRU1 : U32 := 0x40#32
abbrev LRU3 : U32 := 0xc0#32
end MMUM

inductive MmuResult where
  | okay
  | tlbMiss
  | pageFault
  deriving DecidableEq, Repr

structure Mmu where
  cfg : U32
  ctrl : U32
  prot : U32
  tlb : Nat → U32

/-- Match register of a way and set. -/
def tlbMR (way set : Nat) : Nat := way * 256 + set

/-- Translate register of a way and set. -/
def tlbTR (way set : Nat) : Nat := tlbMR way set + 128

def accessMask (req : Request) : U32 :=
  if req.debug then MMU.SRE ||| MMU.SWE ||| MMU.URE ||| MMU.UWE
  else if req.imem then (if req.super then MMU.SXE else MMU.UXE)
  else if !req.read then (if req.super then MMU.SWE else MMU.UWE)
  else (if req.super then MMU.SRE else MMU.URE)

namespace Mmu

def init (cfg : U32) : Mmu := { cfg := cfg, ctrl := 0#32, prot := 0#32, tlb := fun _ => 0#32 }

def numSets (m : Mmu) : Nat := 1 <<< (bits32 m.cfg 4 2).toNat

def numWays (m : Mmu) : Nat := 1 + (bits32 m.cfg 1 0).toNat

def setMask (m : Mmu) : U32 := BitVec.ofNat 32 (m.numSets - 1)

/-- The set an effective address selects. -/
def setOf (m : Mmu) (addr : U32) : Nat := (pageNumber addr &&& m.setMask).toNat

def matchReg (m : Mmu) (way set : Nat) : U32 := m.tlb (tlbMR way set)

def transReg (m : Mmu) (way set : Nat) : U32 := m.tlb (tlbTR way set)

def write (m : Mmu) (reg : Nat) (v : U32) : Mmu := { m with tlb := Function.update m.tlb reg v }

/-- A way that is not in use, else the oldest one. -/
def findEmptyWay (m : Mmu) (set : Nat) : Nat :=
  match (List.range m.numWays).find? (fun way => !test (m.matchReg way set) MMUM.V) with
  | some way => way
  | none =>
    ((List.range m.numWays).foldl (fun (so : Nat × U32) way =>
      let age := m.matchReg way set &&& MMUM.LRU3
      if age ≥ so.2 then (way, age) else so) (0, 0#32)).1

def flushTlb (m : Mmu) : Mmu := { m with tlb := fun _ => 0#32 }

def setCr (m : Mmu) (val : U32) : Mmu :=
  let m := if test m.cfg MMUCFG.TEIRI && (test val MMUCR.DTF || test val MMUCR.ITF) then m.flushTlb
    else m
  { m with ctrl := val &&& ~~~(MMUCR.DTF ||| MMUCR.ITF) }

def getTlb (m : Mmu) (reg : U32) : U32 :=
  let way := (reg >>> 8).toNat
  let set := (reg &&& 0x7f#32).toNat
  if way ≥ m.numWays ∨ set ≥ m.numSets then 0#32 else m.tlb reg.toNat

def setTlb (m : Mmu) (reg val : U32) : Mmu :=
  let way := (reg >>> 8).toNat
  let set := (reg &&& 0x7f#32).toNat
  if way ≥ m.numWays ∨ set ≥ m.numSets then m else m.write reg.toNat val

/-- `get_atb` prints a warning and reads zero. -/
def getAtb (_m : Mmu) (_reg : U32) : U32 := 0#32

/-- `set_atb` prints a warning. -/
def setAtb (m : Mmu) (_reg _val : U32) : Mmu := m

def flushTlbEntry (m : Mmu) (ea : U32) : Mmu :=
  let vpg := pageAlign ea
  let set := m.setOf ea
  (List.range m.numWays).foldl (fun m way =>
    let mr := m.matchReg way set
    if pageCompare vpg mr then m.write (tlbMR way set) (mr &&& ~~~MMUM.V) else m) m

/-! ## Translation -/

/-- One more tick on the age of a valid entry. -/
def ageWay (set : Nat) (m : Mmu) (way : Nat) : Mmu :=
  let mr := m.matchReg way set
  if test mr MMUM.V then
    m.write (tlbMR way set) ((mr &&& ~~~MMUM.LRU3) ||| ((mr &&& MMUM.LRU3) + MMUM.LRU1))
  else m

def age (m : Mmu) (set : Nat) : Mmu := (List.range m.numWays).foldl (ageWay set) m

/-- The first way with a valid match for the page of `addr`. -/
def hitWay (m : Mmu) (addr : U32) : Option Nat :=
  (List.range m.numWays).find? fun way =>
    test (m.matchReg way (m.setOf addr)) MMUM.V &&
      pageCompare (pageAlign addr) (m.matchReg way (m.setOf addr))

/-- The physical address and the cache attributes of a page. -/
def resolve (req : Request) (trans : U32) : Request :=
  { req with
    addr := pageAlign trans ||| pageOffset req.addr
    cacheCoherent := test trans MMUPTE.CC
    cacheInhibit := test trans MMUPTE.CI
    cacheWriteback := test trans MMUPTE.WBC
    weaklyOrdered := test trans MMUPTE.WOM }

/-- The translation found in way `way`. -/
def hit (m : Mmu) (way : Nat) (req : Request) : MmuResult × Mmu × Request :=
  let set := m.setOf req.addr
  let trans := m.transReg way set
  if req.debug then (.okay, m, resolve req trans)
  else if !test trans (accessMask req) then (.pageFault, m, req)
  else
    let trans := trans ||| MMUPTE.A
    let trans := if req.read then trans else trans ||| MMUPTE.D
    let m := (m.write (tlbTR way set) trans).write (tlbMR way set)
      (m.matchReg way set &&& ~~~MMUM.LRU3)
    (.okay, m, resolve req trans)

/-- A page table entry, read through the port in host endianness. -/
def readPte {σ : Type} [EnvImpl σ] (env : Env σ) (req : Request) (addr : U32) :
    Response × U32 × Request × Env σ :=
  let (resp, r, env) := env.convertAndTransact
    { req with addr := addr, data := env.garbage 4, size := 4 }
  (resp, ofBytes env.hostEndian r.data, r, env)

/-- The request of the table walk: a copy of the access, turned into a data read. -/
def walkRequest {σ : Type} (env : Env σ) (req : Request) : Request :=
  { req with endian := env.hostEndian, imem := false, read := true, cycles := 0 }

/-- Both levels of the page table: the second-level entry and the cycles the walk took. -/
def walk {σ : Type} [EnvImpl σ] (m : Mmu) (env : Env σ) (req : Request) :
    Option (U32 × Nat) × Env σ :=
  let pl1idx := bits32 req.addr 31 24
  let pl2idx := bits32 req.addr 23 13
  let pageDirectory := m.ctrl &&& MMUCR.PGD
  if pageDirectory = 0#32 then (none, env)
  else
    match readPte env (walkRequest env req) (pageDirectory + (pl1idx <<< 2)) with
    | (.success, pte1, r, env) =>
      if pte1 = 0#32 then (none, env)
      else
        match readPte env r (pageAlign pte1 + (pl2idx <<< 2)) with
        | (.success, pte2, r, env) =>
          if pte2 = 0#32 then (none, env) else (some (pte2, r.cycles), env)
        | (_, _, _, env) => (none, env)
    | (_, _, _, env) => (none, env)

/-- Access rights, dirty flags and TLB refill for a second-level entry. -/
def refill (m : Mmu) (pte2 : U32) (cycles : Nat) (req : Request) : MmuResult × Mmu × Request :=
  let set := m.setOf req.addr
  let trans := pte2 ||| MMUPTE.CC
  let trans := if req.imem && test pte2 MMUPTE.EXEC then trans ||| (MMU.SXE ||| MMU.UXE) else trans
  if !test trans (accessMask req) && !req.debug then (.pageFault, m, req)
  else
    let trans := trans ||| MMUPTE.A
    let trans := if req.read then trans else trans ||| MMUPTE.D
    let req' := { req with addr := pageAlign trans ||| pageOffset req.addr }
    if req.debug then (.okay, m, req')
    else
      let way := m.findEmptyWay set
      let m := (m.write (tlbMR way set) (pageAlign req.addr ||| MMUM.LRU0 ||| MMUM.V)).write
        (tlbTR way set) trans
      (.okay, m, { req' with cycles := req'.cycles + cycles })

def translate {σ : Type} [EnvImpl σ] (m : Mmu) (env : Env σ) (req : Request) :
    MmuResult × Mmu × Env σ × Request :=
  let m := if req.debug then m else m.age (m.setOf req.addr)
  match m.hitWay req.addr with
  | some way =>
    let (res, m, req) := m.hit way req
    (res, m, env, req)
  | none =>
    if !test m.cfg MMUCFG.HTR && !req.debug then (.tlbMiss, m, env, req)
    else
      match m.walk env req with
      | (none, env) => (.tlbMiss, m, env, req)
      | (some (pte2, cycles), env) =>
        let (res, m, req) := m.refill pte2 cycles req
        (res, m, env, req)

section Served

variable {σ : Type} [EnvImpl σ] {m : Mmu} {env : Env σ} {req : Request}

theorem readPte_served (env : Env σ) (req : Request) (addr : U32) :
    env.Served (readPte env req addr).2.2.2 :=
  Env.convertAndTransact_served _

theorem walk_served (m : Mmu) (env : Env σ) (req : Request) : env.Served (m.walk env req).2 := by
  simp only [walk]
  have h1 := readPte_served env (walkRequest env req)
    ((m.ctrl &&& MMUCR.PGD) + (bits32 req.addr 31 24 <<< 2))
  split
  · exact .refl env
  · split <;> rename_i he1 <;> rw [he1] at h1
    · rename_i pte1 r1 env1
      split
      · exact h1
      · have h2 := readPte_served env1 r1 (pageAlign pte1 + (bits32 req.addr 23 13 <<< 2))
        split <;> rename_i he2 <;> rw [he2] at h2
        · split <;> exact h1.trans h2
        · exact h1.trans h2
    · exact h1

theorem translate_served (m : Mmu) (env : Env σ) (req : Request) :
    env.Served (m.translate env req).2.2.1 := by
  simp only [translate]
  generalize (if req.debug = true then m else m.age (m.setOf req.addr)) = m'
  split
  · exact .refl env
  · split
    · exact .refl env
    · have h := walk_served m' env req
      split <;> rename_i he <;> rw [he] at h <;> exact h

omit [EnvImpl σ] in
theorem hit_request (m : Mmu) (way : Nat) (req : Request) :
    (m.hit way req).2.2.debug = req.debug ∧ (m.hit way req).2.2.imem = req.imem := by
  unfold hit
  dsimp only
  split
  · exact ⟨rfl, rfl⟩
  · split <;> exact ⟨rfl, rfl⟩

omit [EnvImpl σ] in
theorem refill_request (m : Mmu) (pte2 : U32) (cycles : Nat) (req : Request) :
    (m.refill pte2 cycles req).2.2.debug = req.debug ∧
      (m.refill pte2 cycles req).2.2.imem = req.imem := by
  unfold refill
  dsimp only
  generalize (if (req.imem && test pte2 MMUPTE.EXEC) = true then
    pte2 ||| MMUPTE.CC ||| (MMU.SXE ||| MMU.UXE) else pte2 ||| MMUPTE.CC) = t
  split
  · exact ⟨rfl, rfl⟩
  · cases hd : req.debug <;> exact ⟨rfl, rfl⟩

theorem translate_request (m : Mmu) (env : Env σ) (req : Request) :
    (m.translate env req).2.2.2.debug = req.debug ∧
      (m.translate env req).2.2.2.imem = req.imem := by
  unfold translate
  dsimp only
  generalize (if req.debug = true then m else m.age (m.setOf req.addr)) = m'
  split
  · exact hit_request m' _ req
  · split
    · exact ⟨rfl, rfl⟩
    · split
      · exact ⟨rfl, rfl⟩
      · exact refill_request m' _ _ req

end Served

end Mmu

end Or1kiss
