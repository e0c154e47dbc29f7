import Or1kiss.Types

/-!
# The tick timer

`tick.h` and `tick.cpp`. The counter is 32 bits wide, its match with the limit is on
the low 28 bits, and time is accounted in batches: `updateU64 delta` adds `delta` cycles
at once. The clocks of the simulator are natural numbers here, and `update` is the same for a
batch of such a clock, whose sum with the counter does not wrap.
-/

namespace Or1kiss

open Bits

-- timer_mode
namespace TM
abbrev IP : U32 := 0x10000000#32
abbrev IE : U32 := 0x20000000#32
/-- Both mode bits. -/
abbrev mask : U32 := 0xc0000000#32
abbrev D : U32 := 0x00000000#32
abbrev RS : U32 := 0x40000000#32
abbrev OS : U32 := 0x80000000#32
abbrev CT : U32 := 0xc0000000#32
end TM

structure Tick where
  done : Bool
  ttmr : U32
  ttcr : U32
  deriving DecidableEq, Repr

namespace Tick

def init : Tick := { done := false, ttmr := 0#32, ttcr := 0#32 }

def mode (t : Tick) : U32 := t.ttmr &&& TM.mask

def enabled (t : Tick) : Bool := t.ttmr >>> 30 != 0#32

def irqEnabled (t : Tick) : Bool := test t.ttmr TM.IE

def irqPending (t : Tick) : Bool := test t.ttmr TM.IP

def limit (t : Tick) : Nat := (bits32 t.ttmr 27 0).toNat

def current (t : Tick) : Nat := (bits32 t.ttcr 27 0).toNat

/-- Cycles until the counter matches the limit. -/
def nextTick (t : Tick) : Nat :=
  if t.current < t.limit then t.limit - t.current
  else 0x0fffffff - t.current + t.limit + 1

/-- A batch of `delta` cycles crosses the limit. -/
def crosses (t : Tick) (delta : Nat) : Bool :=
  decide (t.current < t.limit) && decide (t.limit ≤ t.current + delta)

/-- `cur < lim && cur + delta >= lim`, the sum in the 64 bits of `delta`. -/
def crossesU64 (t : Tick) (delta : U64) : Bool :=
  decide (t.current < t.limit) && decide (t.limit ≤ (BitVec.ofNat 64 t.current + delta).toNat)

def setPending (t : Tick) (irqSet : Bool) : Tick :=
  if t.irqEnabled && irqSet then { t with ttmr := t.ttmr ||| TM.IP } else t

/-- The timer after a batch that crosses the limit or does not. -/
def passed (t : Tick) (delta : U32) (irqSet : Bool) : Tick :=
  let mode := t.mode
  if mode = TM.D ∨ t.done = true then t
  else
    let t' :=
      if mode = TM.RS then
        if irqSet then { t with ttcr := 0#32 }
        else { t with ttcr := t.ttcr + delta }
      else if mode = TM.OS then
        if irqSet then { t with done := true, ttcr := BitVec.ofNat 32 t.limit }
        else { t with ttcr := t.ttcr + delta }
      else { t with ttcr := t.ttcr + delta }
    t'.setPending irqSet

/-- `update(u64 delta)` -/
def updateU64 (t : Tick) (delta : U64) : Tick := t.passed (delta.setWidth 32) (t.crossesU64 delta)

/-- `update` for a clock that does not wrap. -/
def update (t : Tick) (delta : Nat) : Tick := t.passed (BitVec.ofNat 32 delta) (t.crosses delta)

def setTtmr (t : Tick) (v : U32) : Tick := { t with ttmr := v }.update 0

def setTtcr (t : Tick) (v : U32) : Tick := { t with ttcr := v, done := false }.update 0

end Tick

end Or1kiss
