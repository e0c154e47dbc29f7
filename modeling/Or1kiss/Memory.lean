import Or1kiss.Machine

/-!
# The simulator's memory

`memory.h` and `memory.cpp`: a big-endian port over one block of host memory that starts at
guest address zero, reached by both direct pointers and by `transact`. A guest access out of
range ends the process (`exited`).
-/

namespace Or1kiss

open Host Bits

structure Memory where
  size : Nat
  /-- `std::exit` has been called: nothing after it is observed. -/
  exited : Bool
  deriving DecidableEq, Repr

namespace Memory

def transact (req : Request) (w : World Memory) : Reply Memory :=
  if w.dev.size < (req.addr + BitVec.ofNat 32 req.size).toNat then
    { resp := .error, data := req.data, cycles := req.cycles,
      world := { w with dev := { w.dev with exited := w.dev.exited || !req.debug } } }
  else
    let cycles := if req.debug then req.cycles else 1
    if req.read then
      { resp := .success, data := readBytes w.mem req.addr.toNat req.size, cycles := cycles,
        world := w }
    else
      { resp := .success, data := req.data, cycles := cycles,
        world := { w with mem := writeBytes w.mem req.addr.toNat (req.data.take req.size) } }

instance : EnvImpl Memory where
  sleep _ w := (0, w)
  transact := transact

/-- The constructor `memory(size)`, its block filled with `image` by `load`. -/
def env (size : Nat) (image : Nat → U8) : Env Memory :=
  { endian := .big, dataPtr := some 0, dataStart := 0#32,
    dataEnd := BitVec.ofNat 32 size - 1#32, dataCycles := 1, insnPtr := some 0,
    insnStart := 0#32, insnEnd := BitVec.ofNat 32 size - 1#32, insnCycles := 0,
    exclAddr := 0xffffffff#32,
    exclData := List.replicate 4 0#8, hostEndian := .little,
    garbage := fun n => List.replicate n 0#8,
    world := { mem := image, dev := { size := size, exited := false } } }

/-- An image of big-endian words, each at its address, zero elsewhere. -/
def image (words : List (Nat × U32)) (a : Nat) : U8 :=
  match words.find? fun w => w.1 ≤ a ∧ a < w.1 + 4 with
  | some w => (w.2 >>> (8 * (3 - (a - w.1)))).setWidth 8
  | none => 0#8

/-- A CPU after reset, with `words` in 32 KiB of memory and without a decode cache. -/
def boot (words : List (Nat × U32)) : Machine Memory := .init (env 0x8000 (image words)) 0

end Memory

/-- A host for programs without floating point: its operations are never asked. -/
@[reducible] def HostLib.plain : HostLib where
  fp32 _ _ _ _ := (0#32, .clear)
  fp64 _ _ _ _ := (0#64, .clear)
  itof32 a := (a, .clear)
  ftoi32 a := (a, .clear)
  itof64 a := (a, .clear)
  ftoi64 a := (a, .clear)
  lt32 _ _ := false
  eq32 _ _ := false
  lt64 _ _ := false
  eq64 _ _ := false
  rand _ := 0#32
  time _ := 0#64

end Or1kiss
