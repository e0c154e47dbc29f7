import Or1kiss.Types

/-!
# The memory port

`env` connects the simulator to memory (`env.h`, `env.cpp`, `endian.h`). A request
carries the bytes its `data` pointer designates. Host memory is a byte map `World.mem`,
the rest of a subclass of `env` is `World.dev`, and the virtual methods `sleep` and
`transact` of the subclass are the class `EnvImpl`. `convertAndTransact` swaps bytes to
the endianness of the port, serves the access by the direct pointer or by `transact`,
and swaps back.
-/

namespace Or1kiss

inductive Endian where
  | little
  | big
  | unknown
  deriving DecidableEq, Repr

inductive Response where
  | success
  | failed
  | error
  deriving DecidableEq, Repr

structure Request where
  read : Bool
  imem : Bool
  excl : Bool
  super : Bool
  debug : Bool
  cacheCoherent : Bool
  cacheInhibit : Bool
  cacheWriteback : Bool
  weaklyOrdered : Bool
  endian : Endian
  cycles : Nat
  addr : U32
  /-- The bytes behind the `data` pointer, lowest address first. -/
  data : List U8
  size : Nat
  deriving DecidableEq, Repr

/-- The constructor `request()`. -/
def Request.init (hostEndian : Endian) : Request :=
  { read := false, imem := false, excl := false, super := false, debug := false,
    cacheCoherent := false, cacheInhibit := false, cacheWriteback := false,
    weaklyOrdered := false, endian := hostEndian, cycles := 0, addr := 0#32, data := [],
    size := 0 }

def Request.isAligned (req : Request) : Bool := Or1kiss.isAligned req.addr req.size

/-! ## Bytes -/

/-- The object representation of a 32-bit word on a host of the given endianness. -/
def bytesOf (e : Endian) (v : U32) : List U8 :=
  let le := [v.setWidth 8, (v >>> 8).setWidth 8, (v >>> 16).setWidth 8, (v >>> 24).setWidth 8]
  match e with
  | .little => le
  | _ => le.reverse

/-- The word whose least significant byte is the head of the list. -/
def wordLE (bs : List U8) : U32 :=
  bs.foldr (fun b acc => (acc <<< 8) ||| b.setWidth 32) 0#32

def ofBytes (e : Endian) (bs : List U8) : U32 :=
  match e with
  | .little => wordLE bs
  | _ => wordLE bs.reverse

def byteSwap (v : U32) : U32 := wordLE (bytesOf .big v)

/-- Swap `n` four-byte groups; bytes past them stay as they are in `dst`. -/
def swapWords : Nat → List U8 → List U8 → List U8
  | 0, dst, _ => dst
  | n + 1, dst, src => (src.take 4).reverse ++ swapWords n (dst.drop 4) (src.drop 4)

/-- Copy `size` bytes and reverse them: whole for 1, 2, 4 and 8, by words otherwise. -/
def memcpyswp (dst src : List U8) (size : Nat) : List U8 :=
  if size = 1 ∨ size = 2 ∨ size = 4 ∨ size = 8 then
    (src.take size).reverse ++ dst.drop size
  else swapWords (size / 4) dst src

def readBytes (mem : Nat → U8) (ptr n : Nat) : List U8 := (List.range n).map fun i => mem (ptr + i)

def writeBytes (mem : Nat → U8) (ptr : Nat) (bs : List U8) : Nat → U8 := fun a =>
  if ptr ≤ a ∧ a < ptr + bs.length then bs.getD (a - ptr) 0#8 else mem a

/-! ## env -/

structure World (σ : Type) where
  mem : Nat → U8
  dev : σ

/-- What a call of `transact` leaves in the request and in the world. -/
structure Reply (σ : Type) where
  resp : Response
  data : List U8
  cycles : Nat
  world : World σ

/-- The virtual methods of `env`. -/
class EnvImpl (σ : Type) where
  sleep : Nat → World σ → Nat × World σ
  transact : Request → World σ → Reply σ

structure Env (σ : Type) where
  endian : Endian
  dataPtr : Option Nat
  dataStart : U32
  dataEnd : U32
  dataCycles : Nat
  insnPtr : Option Nat
  insnStart : U32
  insnEnd : U32
  insnCycles : Nat
  exclAddr : U32
  /-- The object representation of `m_excl_data`. -/
  exclData : List U8
  /-- `host_endian()` -/
  hostEndian : Endian
  /-- What fresh host memory holds before it is written. -/
  garbage : Nat → List U8
  world : World σ

variable {σ : Type}

namespace Env

def getDataPtr (e : Env σ) (addr : U32) : Option Nat :=
  match e.dataPtr with
  | none => none
  | some p => if addr < e.dataStart ∨ addr > e.dataEnd then none
    else some (p + addr.toNat - e.dataStart.toNat)

def getInsnPtr (e : Env σ) (addr : U32) : Option Nat :=
  match e.insnPtr with
  | none => none
  | some p => if addr < e.insnStart ∨ addr > e.insnEnd then none
    else some (p + addr.toNat - e.insnStart.toNat)

/-- Charges the request and returns the pointer that serves it, if there is one. -/
def directMemoryPtr (e : Env σ) (req : Request) : Option Nat × Request :=
  if req.imem then (e.getInsnPtr req.addr, { req with cycles := req.cycles + e.insnCycles })
  else (e.getDataPtr req.addr, { req with cycles := req.cycles + e.dataCycles })

/-- Exclusive load (remember address and data) or store (compare and swap). -/
def exclusiveAccess (e : Env σ) (ptr : Nat) (req : Request) : Response × Request × Env σ :=
  if req.read then
    let bs := readBytes e.world.mem ptr req.size
    (.success, { req with data := bs },
      { e with exclAddr := req.addr, exclData := bs ++ e.exclData.drop req.size })
  else if req.addr ≠ e.exclAddr then (.failed, req, e)
  else if readBytes e.world.mem ptr 4 ≠ e.exclData then (.failed, req, e)
  else (.success, req,
    { e with world := { e.world with mem := writeBytes e.world.mem ptr (req.data.take 4) } })

/-- The access itself, in the endianness of the port. -/
def access [EnvImpl σ] (e : Env σ) (req : Request) : Response × Request × Env σ :=
  match e.directMemoryPtr req with
  | (some ptr, req) =>
    let req := { req with cycles := req.cycles + e.dataCycles }
    if req.excl then e.exclusiveAccess ptr req
    else if req.read then
      (.success, { req with data := readBytes e.world.mem ptr req.size }, e)
    else (.success, req,
      { e with world := { e.world with mem := writeBytes e.world.mem ptr (req.data.take req.size) } })
  | (none, req) =>
    let r := EnvImpl.transact { req with endian := e.endian } e.world
    (r.resp, { req with data := r.data, cycles := r.cycles }, { e with world := r.world })

def convertAndTransact [EnvImpl σ] (e : Env σ) (req : Request) : Response × Request × Env σ :=
  if req.size > 1 ∧ req.endian ≠ e.endian then
    let org := req.data
    let tmp := if req.size > 8 then e.garbage req.size else List.replicate req.size 0#8
    let (resp, r, e) := e.access { req with data := memcpyswp tmp org req.size }
    (resp, { r with data := memcpyswp org r.data req.size }, e)
  else e.access req

/-- The request with its bytes swapped into a buffer. -/
def swapped (e : Env σ) (req : Request) : Request :=
  let tmp := if req.size > 8 then e.garbage req.size else List.replicate req.size 0#8
  { req with data := memcpyswp tmp req.data req.size }

/-- The bytes are swapped on the way in and on the way out. -/
theorem convertAndTransact_swapped [EnvImpl σ] {e : Env σ} {req : Request}
    (h : req.size > 1 ∧ req.endian ≠ e.endian) : e.convertAndTransact req =
      ((e.access (e.swapped req)).1,
        { (e.access (e.swapped req)).2.1 with
          data := memcpyswp req.data (e.access (e.swapped req)).2.1.data req.size },
        (e.access (e.swapped req)).2.2) := by
  unfold convertAndTransact
  rw [if_pos h]
  rfl

theorem convertAndTransact_direct [EnvImpl σ] {e : Env σ} {req : Request}
    (h : ¬(req.size > 1 ∧ req.endian ≠ e.endian)) : e.convertAndTransact req = e.access req := by
  unfold convertAndTransact
  rw [if_neg h]

/-- Serving a request changes memory, devices and the exclusive monitor only. -/
def Served (e e' : Env σ) : Prop :=
  ∃ w a d, e' = { e with world := w, exclAddr := a, exclData := d }

variable {e e' e'' : Env σ}

theorem Served.refl (e : Env σ) : Served e e := ⟨e.world, e.exclAddr, e.exclData, rfl⟩

theorem Served.trans (h : Served e e') (h' : Served e' e'') : Served e e'' := by
  obtain ⟨_, _, _, rfl⟩ := h
  obtain ⟨w, a, d, rfl⟩ := h'
  exact ⟨w, a, d, rfl⟩

theorem exclusiveAccess_served (ptr : Nat) (req : Request) :
    Served e (e.exclusiveAccess ptr req).2.2 := by
  simp only [exclusiveAccess]
  split
  · exact ⟨e.world, _, _, rfl⟩
  · split
    · exact .refl e
    · split
      · exact .refl e
      · exact ⟨_, e.exclAddr, e.exclData, rfl⟩

variable [EnvImpl σ]

theorem access_served (req : Request) : Served e (e.access req).2.2 := by
  simp only [access]
  split
  · split
    · exact exclusiveAccess_served _ _
    · split
      · exact .refl e
      · exact ⟨_, e.exclAddr, e.exclData, rfl⟩
  · exact ⟨_, e.exclAddr, e.exclData, rfl⟩

theorem convertAndTransact_served (req : Request) : Served e (e.convertAndTransact req).2.2 := by
  simp only [convertAndTransact]
  split <;> exact access_served _

/-- The port answers the request it was given. -/
theorem access_request (req : Request) : (e.access req).2.1.debug = req.debug ∧
    (e.access req).2.1.imem = req.imem := by
  have hd : (e.directMemoryPtr req).2.debug = req.debug ∧
      (e.directMemoryPtr req).2.imem = req.imem := by
    unfold directMemoryPtr
    split <;> exact ⟨rfl, rfl⟩
  unfold access
  split <;> rename_i h <;> rw [h] at hd
  · dsimp only
    split
    · unfold exclusiveAccess
      split
      · exact hd
      · split
        · exact hd
        · split <;> exact hd
    · split <;> exact hd
  · exact hd

theorem convertAndTransact_request (req : Request) :
    (e.convertAndTransact req).2.1.debug = req.debug ∧
      (e.convertAndTransact req).2.1.imem = req.imem := by
  unfold convertAndTransact
  split
  · exact access_request { req with data := _ }
  · exact access_request req

end Env

end Or1kiss
