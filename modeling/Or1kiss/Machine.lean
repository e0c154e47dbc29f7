import Or1kiss.Lib.Runs
import Or1kiss.Advance

/-!
# Runs of the simulator

`advance` as a transition system. A `Machine` is the simulator at one of the points of
control of `advance`: outside it (`idle`, with the result of the last call), at the head of
the outer loop, at the head of the inner loop, or after it (`drain`). `act` is one step: a
call of `step`, one stretch of `advance` up to the next point of control, or something that
happens from outside: an interrupt line (at any point), and between calls what a debugger or
the owner of the CPU object may do.
-/

namespace Or1kiss

open Host Bits

variable {σ : Type}

inductive Phase where
  /-- Not inside `advance`; `none` before the first call and after a C++ exception. -/
  | idle (ret : Option StepResult)
  | outer
  | inner (limit : Nat)
  | drain
  deriving DecidableEq, Repr

structure Machine (σ : Type) where
  phase : Phase
  cpu : Or1k σ

inductive Action (σ : Type) where
  /-- `step(cycles)` -/
  | call (cycles : U32)
  /-- `advance` goes on. -/
  | run
  /-- `interrupt(id, set)` -/
  | interrupt (id : Fin 32) (set : Bool)
  /-- `set_spr(reg, val, true)` -/
  | writeSpr (reg val : U32)
  | writeGpr (i : Fin 32) (val : U32)
  | insertBreakpoint (addr : U32)
  | removeBreakpoint (addr : U32)
  | insertWatchpoint (write : Bool) (wp : Watchpoint)
  | removeWatchpoint (write : Bool) (wp : Watchpoint)
  /-- `set_clock`, `allow_sleep`, `set_pic_level`, `set_core_id`, `set_numcores` -/
  | configure (clock : U32) (allowSleep picLevel : Bool) (coreId numCores : U32)
  /-- Memory and devices change behind the port. -/
  | world (w : World σ)

namespace Or1k

def insertBreakpoint (addr : U32) (s : Or1k σ) : Or1k σ :=
  if s.breakpoints.contains addr then s else { s with breakpoints := s.breakpoints ++ [addr] }

def removeBreakpoint (addr : U32) (s : Or1k σ) : Or1k σ :=
  { s with breakpoints := s.breakpoints.filter (· != addr) }

def insertWatchpoint (write : Bool) (wp : Watchpoint) (s : Or1k σ) : Or1k σ :=
  if write then { s with watchpointsW := s.watchpointsW ++ [wp] }
  else { s with watchpointsR := s.watchpointsR ++ [wp] }

def removeWatchpoint (write : Bool) (wp : Watchpoint) (s : Or1k σ) : Or1k σ :=
  let keep := fun l : List Watchpoint => l.filter fun w => !w.overlaps wp.addr wp.size
  if write then { s with watchpointsW := keep s.watchpointsW }
  else { s with watchpointsR := keep s.watchpointsR }

end Or1k

namespace Machine

def init (env : Env σ) (size : Nat) : Machine σ :=
  { phase := .idle none, cpu := .init env size }

/-- A C++ exception leaves `advance`; a fault leaves no next machine. -/
def ofOutcome {α : Type} (x : Outcome (Or1k σ) α) (f : α → Machine σ) : Option (Machine σ) :=
  match x with
  | .ok a => some (f a)
  | .throw s => some { phase := .idle none, cpu := s }
  | .fault _ => none

/-- How the inner loop goes on after an iteration. -/
def iterated (r : Or1k.After × Nat × Or1k σ) : Machine σ :=
  match r.1 with
  | .next => { phase := .inner r.2.1, cpu := r.2.2 }
  | .exit => { phase := .idle (some .exit), cpu := r.2.2 }
  | .leave => { phase := .drain, cpu := r.2.2 }

/-- How the outer loop goes on after a mini-quantum: breakpoints, then watchpoints. -/
def drained (s : Or1k σ) : Machine σ :=
  if s.breakpointHit then { phase := .idle (some .breakpoint), cpu := s }
  else if s.wpEvent.hit then { phase := .idle (some .watchpoint), cpu := s }
  else { phase := .outer, cpu := s }

variable [EnvImpl σ] [HostLib]

/-- One stretch of `advance`. -/
def next (m : Machine σ) : Option (Machine σ) :=
  let s := m.cpu
  match m.phase with
  | .idle _ => none
  | .outer =>
    if s.cycles < s.limit then some { phase := .inner s.beginMini.miniLimit, cpu := s.beginMini }
    else some { phase := .idle (some .ok), cpu := s }
  | .inner limit =>
    if s.cycles < limit then ofOutcome (s.iterate limit) iterated
    else some { phase := .drain, cpu := s }
  | .drain => ofOutcome s.endMini drained

/-- What happens to the simulator between two calls. -/
def outside (s : Or1k σ) : Action σ → Outcome (Or1k σ) (Or1k σ)
  | .writeSpr reg val => s.setSpr reg val true
  | .writeGpr i v => .ok (s.setGpr i v)
  | .insertBreakpoint a => .ok (s.insertBreakpoint a)
  | .removeBreakpoint a => .ok (s.removeBreakpoint a)
  | .insertWatchpoint w wp => .ok (s.insertWatchpoint w wp)
  | .removeWatchpoint w wp => .ok (s.removeWatchpoint w wp)
  | .configure clock allowSleep picLevel coreId numCores =>
    .ok { s with clock := clock.toNat, allowSleep := allowSleep, picLevel := picLevel,
                 coreId := coreId, numCores := numCores }
  | .world w => .ok { s with env := { s.env with world := w } }
  | _ => .ok s

/-- One action; `none` where it is not possible. -/
def act (m : Machine σ) (a : Action σ) : Option (Machine σ) :=
  match a with
  | .run => m.next
  | .interrupt id set => some { m with cpu := m.cpu.withCore (m.cpu.toCore.interrupt id set) }
  | .call n =>
    match m.phase with
    | .idle _ => ofOutcome (m.cpu.beginQuantum n) fun s => { phase := .outer, cpu := s }
    | _ => none
  | a =>
    match m.phase with
    | .idle r => ofOutcome (outside m.cpu a) fun s => { phase := .idle r, cpu := s }
    | _ => none

/-- The simulator as a system of actions. -/
def system : Runs.System (Machine σ) (Action σ) where
  next := act

end Machine

end Or1kiss
