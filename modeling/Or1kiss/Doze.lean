import Or1kiss.Exception

/-!
# Timer synchronisation and doze

The timer is lazy: `update_timer` accounts the cycles since the last synchronisation and
raises the tick exception. `doze` sleeps on the port, or skips to the end of the quantum.
-/

namespace Or1kiss

open Host Bits

variable {σ : Type}

namespace Or1k

def withCore (s : Or1k σ) (c : Core σ) : Or1k σ := { s with toCore := c }

/-- Run a computation of the core inside the simulator: everything else is as it was. -/
def liftCore {α : Type} (s : Or1k σ) (x : Outcome (Core σ) (α × Core σ)) :
    Outcome (Or1k σ) (α × Or1k σ) :=
  x.lift s.withCore fun r => (r.1, s.withCore r.2)

def onCore (s : Or1k σ) (x : Outcome Empty (Core σ)) : Outcome (Or1k σ) (Or1k σ) :=
  x.lift Empty.elim s.withCore

def exception (type : ExType) (addr : U32) (s : Or1k σ) : Outcome (Or1k σ) (Or1k σ) :=
  s.onCore (s.toCore.exception type addr)

/-- Account the cycles since the last synchronisation. -/
def syncTick (s : Or1k σ) : Or1k σ :=
  { s with tick := s.tick.update (s.cycles - s.tickUpdate) }

/-- Synchronise a running timer and raise its exception. -/
def checkTick (s : Or1k σ) : Outcome (Or1k σ) (Or1k σ) :=
  if s.tick.enabled then
    let s := s.syncTick
    if s.tick.irqPending then s.exception .tickTimer 0#32 else .ok s
  else .ok s

def updateTimer (s : Or1k σ) : Outcome (Or1k σ) (Or1k σ) := do
  let s ← s.checkTick
  return { s with tickUpdate := s.cycles }

/-- `~0ull` -/
def maxSkip : Nat := 0xffffffffffffffff

/-- The longest sleep the timer allows. -/
def dozeSkip (s : Or1k σ) : Nat :=
  if s.tick.enabled && s.tick.irqEnabled then min s.tick.nextTick s.tick.limit else maxSkip

def addSleep (n : Nat) (s : Or1k σ) : Or1k σ :=
  { s with cycles := s.cycles + n, sleepCycles := s.sleepCycles + n }

/-- `m_env->sleep(skip)` -/
def sleep [EnvImpl σ] (skip : Nat) (s : Or1k σ) : Nat × Or1k σ :=
  let r := EnvImpl.sleep skip s.env.world
  (r.1, { s with env := { s.env with world := r.2 } })

/-- The port slept: the quantum is longer by that, and the CPU wakes up. -/
def woken (n : Nat) (s : Or1k σ) : Or1k σ :=
  let s := s.addSleep n
  { s with limit := s.limit + n, pmr := s.pmr &&& ~~~PMR.DME }

/-- Regular sleep: to the end of the quantum at most. -/
def skipCycles (skip : Nat) (s : Or1k σ) : Or1k σ := s.addSleep (min skip (s.limit - s.cycles))

def doze [EnvImpl σ] (s : Or1k σ) : Outcome (Or1k σ) (Or1k σ) :=
  if !test s.pmr PMR.DME || !s.allowSleep then .ok s
  else
    let skip := s.dozeSkip
    let (cycles, s) := s.sleep skip
    if cycles ≠ 0 then .ok (s.woken cycles) else (s.skipCycles skip).updateTimer

end Or1k

end Or1kiss
