import Or1kiss.Bounds
import Or1kiss.Attached

/-!
# The direct pointers and `transact`

A port serves an access by a direct pointer, or by `transact`. Where `transact` copies the bytes
that the pointer designates, nobody should be able to tell the two apart. For data both ways
convert the bytes in `convert_and_transact`. An instruction found by its direct pointer is
byte-swapped by `fetch` itself, whatever the endianness of the port and of the host.
-/

namespace Or1kiss

open Host Bits Runs

variable {σ : Type}

namespace Env

variable {e : Env σ} {req : Request} {p : Nat}

/-- The port without its direct pointers. -/
def detached (e : Env σ) : Env σ := { e with dataPtr := none, insnPtr := none }

theorem detached_directMemoryPtr (e : Env σ) (req : Request) :
    e.detached.directMemoryPtr req = (none, (e.directMemoryPtr req).2) := by
  unfold directMemoryPtr
  split <;> rfl

theorem directMemoryPtr_withData (e : Env σ) (req : Request) (d : List U8) :
    (e.directMemoryPtr { req with data := d }).1 = (e.directMemoryPtr req).1 := by
  unfold directMemoryPtr
  dsimp only
  split <;> rfl

variable [EnvImpl σ]

/-- `transact` copies the bytes that the direct pointer designates. -/
def Copies (e : Env σ) (req : Request) : Prop :=
  ∀ (p : Nat) (d : List U8) (n : Nat), (e.directMemoryPtr req).1 = some p →
    let r := EnvImpl.transact { req with data := d, cycles := n, endian := e.endian } e.world
    r.resp = .success ∧
      r.data = (if req.read then readBytes e.world.mem p req.size else d) ∧
      r.world = if req.read then e.world else
        { e.world with mem := writeBytes e.world.mem p (d.take req.size) }

/-- The same response, the same bytes and the same memory, with and without direct pointers. -/
structure ServedAlike (e : Env σ) (req : Request) : Prop where
  resp : (e.detached.convertAndTransact req).1 = (e.convertAndTransact req).1
  data : (e.detached.convertAndTransact req).2.1.data = (e.convertAndTransact req).2.1.data
  world : (e.detached.convertAndTransact req).2.2.world = (e.convertAndTransact req).2.2.world

/-- An access by the direct pointer copies bytes. -/
theorem access_copies (hx : req.excl = false) (hp : (e.directMemoryPtr req).1 = some p) :
    (e.access req).1 = .success ∧
      (e.access req).2.1.data = (if req.read then readBytes e.world.mem p req.size else req.data) ∧
      (e.access req).2.2.world = if req.read then e.world else
        { e.world with mem := writeBytes e.world.mem p (req.data.take req.size) } := by
  obtain ⟨d, n, hans⟩ := directMemoryPtr_answers e req
  have hdata := directMemoryPtr_data e req
  unfold access
  generalize e.directMemoryPtr req = q at hp hans hdata
  obtain ⟨o, q⟩ := q
  dsimp only at hp hans hdata
  subst hp hans
  dsimp only at hdata ⊢
  rw [hx, if_neg Bool.false_ne_true, hdata]
  split <;> exact ⟨rfl, rfl, rfl⟩

/-- So does `transact`. -/
theorem access_detached (hc : e.Copies req) (hp : (e.directMemoryPtr req).1 = some p) :
    (e.detached.access req).1 = .success ∧
      (e.detached.access req).2.1.data =
        (if req.read then readBytes e.world.mem p req.size else req.data) ∧
      (e.detached.access req).2.2.world = if req.read then e.world else
        { e.world with mem := writeBytes e.world.mem p (req.data.take req.size) } := by
  obtain ⟨d, n, hans⟩ := directMemoryPtr_answers e req
  have hdata := directMemoryPtr_data e req
  have hd := detached_directMemoryPtr e req
  unfold access
  rw [hd]
  dsimp only
  rw [hans] at hdata ⊢
  dsimp only at hdata
  rw [hdata]
  exact hc p req.data n hp

theorem Copies.withData (hc : e.Copies req) (d : List U8) : e.Copies { req with data := d } := by
  intro p d' n hp
  exact hc p d' n ((directMemoryPtr_withData e req d).symm.trans hp)

theorem access_alike (hx : req.excl = false) (hc : e.Copies req)
    (hp : (e.directMemoryPtr req).1 = some p) :
    (e.detached.access req).1 = (e.access req).1 ∧
      (e.detached.access req).2.1.data = (e.access req).2.1.data ∧
      (e.detached.access req).2.2.world = (e.access req).2.2.world := by
  obtain ⟨h1, h2, h3⟩ := access_copies hx hp
  obtain ⟨g1, g2, g3⟩ := access_detached hc hp
  exact ⟨g1.trans h1.symm, g2.trans h2.symm, g3.trans h3.symm⟩

/-- Both ways swap the bytes of an access alike. -/
theorem servedAlike (hx : req.excl = false) (hc : e.Copies req)
    (hp : (e.directMemoryPtr req).1 = some p) : e.ServedAlike req := by
  by_cases h : req.size > 1 ∧ req.endian ≠ e.endian
  · have hptr := (directMemoryPtr_withData e req (e.swapped req).data).trans hp
    have hxs : (e.swapped req).excl = false := hx
    have hcs : e.Copies (e.swapped req) := hc.withData _
    obtain ⟨h1, h2, h3⟩ := access_alike hxs hcs hptr
    have hd : e.detached.convertAndTransact req = _ := convertAndTransact_swapped h
    have hs : e.detached.swapped req = e.swapped req := rfl
    rw [hs] at hd
    refine ⟨?_, ?_, ?_⟩ <;> rw [hd, convertAndTransact_swapped h]
    · exact h1
    · exact congrArg (memcpyswp req.data · req.size) h2
    · exact h3
  · obtain ⟨h1, h2, h3⟩ := access_alike hx hc hp
    have hd : e.detached.convertAndTransact req = _ := convertAndTransact_direct h
    refine ⟨?_, ?_, ?_⟩ <;> rw [hd, convertAndTransact_direct h]
    · exact h1
    · exact h2
    · exact h3

end Env

namespace Core

variable {c : Core σ} {p : Nat}

/-- `m_ireq` as the constructor sets it up. -/
structure Fetching (c : Core σ) : Prop where
  read : c.ireq.read = true
  imem : c.ireq.imem = true
  excl : c.ireq.excl = false
  size : c.ireq.size = 4
  endian : c.ireq.endian = c.env.hostEndian

/-- The CPU on a port without direct pointers. -/
def detached (c : Core σ) : Core σ := { c with env := c.env.detached }

/-- The bytes of the instruction at the address to fetch from. -/
def insnBytes (c : Core σ) (p : Nat) : List U8 := readBytes c.env.world.mem p 4

variable [EnvImpl σ]

/-- The same instruction word, and memory as before, with and without direct pointers. -/
def FetchedAlike (c : Core σ) : Prop :=
  ∃ x y, c.fetchWord = .ok (true, x) ∧ c.detached.fetchWord = .ok (true, y) ∧
    y.insn = x.insn ∧ y.env.world = x.env.world

theorem fetchWord_pointed (hp : c.env.getInsnPtr c.ireq.addr = some p) :
    c.fetchWord = .ok (true, { c with insn := ofBytes c.env.hostEndian (c.insnBytes p).reverse }) := by
  have hl : (c.insnBytes p).length = 4 := Env.length_readBytes _ _ _
  unfold fetchWord
  rw [hp]
  dsimp only
  rw [show readBytes c.env.world.mem p 4 = c.insnBytes p from rfl, byteSwap_ofBytes _ hl]

/-- What the port hands to the host: the bytes in the order of the host. -/
def portBytes (c : Core σ) (p : Nat) : List U8 :=
  if c.env.hostEndian = c.env.endian then c.insnBytes p else (c.insnBytes p).reverse

omit [EnvImpl σ] in
theorem overlay_all {old bs : List U8} (h : bs.length = 4) (ho : old.length = 4) :
    overlay old bs 4 = bs := by
  unfold overlay
  rw [h]
  show bs.take 4 ++ old.drop 4 = bs
  rw [List.take_of_length_le (by omega), List.drop_of_length_le (by omega), List.append_nil]

omit [EnvImpl σ] in
theorem directMemoryPtr_insn (hf : Fetching c) (hp : c.env.getInsnPtr c.ireq.addr = some p)
    (d : List U8) : (c.env.directMemoryPtr { c.ireq with data := d }).1 = some p := by
  unfold Env.directMemoryPtr
  dsimp only
  rw [hf.imem, if_pos rfl]
  exact hp

/-- An access with the instruction request, however it is served, copies the bytes. -/
def Env.Supplied (e : Env σ) (req : Request) (bs : List U8) : Prop :=
  ∀ d, (e.access { req with data := d }).1 = .success ∧
    (e.access { req with data := d }).2.1.data = bs ∧
    (e.access { req with data := d }).2.2.world = e.world

/-- What comes through the port is swapped where the port is of the other endianness. -/
theorem convertAndTransact_insn {e : Env σ} {d : List U8} (hf : Fetching c) (hd : d.length = 4)
    (he : e.endian = c.env.endian) (hb : (c.insnBytes p).length = 4)
    (hs : Env.Supplied e c.ireq (c.insnBytes p)) :
    let r := e.convertAndTransact { c.ireq with data := d }
    r.1 = .success ∧ r.2.1.data = c.portBytes p ∧ r.2.2.world = e.world := by
  dsimp only
  unfold portBytes
  by_cases hc : c.env.hostEndian = c.env.endian
  · rw [Env.convertAndTransact_direct (by
      rintro ⟨-, h⟩
      exact h (hf.endian.trans (hc.trans he.symm))), if_pos hc]
    exact hs d
  · have hx : (({ c.ireq with data := d } : Request).size > 1 ∧
        ({ c.ireq with data := d } : Request).endian ≠ e.endian) := by
      constructor
      · show c.ireq.size > 1
        rw [hf.size]
        decide
      · exact fun h => hc (hf.endian.symm.trans (h.trans he))
    rw [Env.convertAndTransact_swapped hx, if_neg hc]
    obtain ⟨h1, h2, h3⟩ := hs (e.swapped { c.ireq with data := d }).data
    refine ⟨h1, ?_, h3⟩
    refine (congrArg (memcpyswp d · c.ireq.size) h2).trans ?_
    rw [hf.size]
    exact memcpyswp_word hd hb

theorem supplied_detached (hf : Fetching c) (hc : c.env.Copies c.ireq)
    (hp : c.env.getInsnPtr c.ireq.addr = some p) :
    Env.Supplied c.env.detached c.ireq (c.insnBytes p) := by
  intro d
  obtain ⟨h1, h2, h3⟩ := Env.access_detached (hc.withData d) (directMemoryPtr_insn hf hp d)
  have hb : readBytes c.env.world.mem p c.ireq.size = c.insnBytes p := by
    rw [hf.size]
    rfl
  exact ⟨h1, (h2.trans (if_pos hf.read)).trans hb, h3.trans (if_pos hf.read)⟩

/-- An instruction that comes through the port is in the order of the port. -/
theorem fetchWord_detached (hf : Fetching c) (hc : c.env.Copies c.ireq)
    (hp : c.env.getInsnPtr c.ireq.addr = some p) : ∃ y, c.detached.fetchWord = .ok (true, y) ∧
      y.insn = ofBytes c.env.hostEndian (c.portBytes p) ∧ y.env.world = c.env.world := by
  have hl := length_bytesOf c.env.hostEndian c.insn
  have hb : (c.insnBytes p).length = 4 := Env.length_readBytes _ _ _
  obtain ⟨h1, h2, h3⟩ := convertAndTransact_insn (e := c.env.detached) hf hl rfl hb
    (supplied_detached hf hc hp)
  have hans := Env.convertAndTransact_answers c.env.detached
    { c.ireq with data := bytesOf c.env.hostEndian c.insn }
  have hn : c.detached.env.getInsnPtr c.detached.ireq.addr = none := rfl
  have hpb : (c.portBytes p).length = 4 := by
    unfold portBytes
    split
    · exact hb
    · rw [List.length_reverse, hb]
  have hr : c.detached.readInsn = (.success, c.detached.readInsn.2) := Prod.ext h1 rfl
  refine ⟨c.detached.readInsn.2, ?_, ?_, h3⟩
  · unfold fetchWord
    rw [hn]
    dsimp only
    rw [hr]
  · have hsize : (c.env.detached.convertAndTransact
        { c.ireq with data := bytesOf c.env.hostEndian c.insn }).2.1.size = 4 := by
      obtain ⟨d, n, hq⟩ := hans
      rw [hq]
      exact hf.size
    show ofBytes c.env.hostEndian (overlay (bytesOf c.env.hostEndian c.insn)
      (c.env.detached.convertAndTransact
        { c.ireq with data := bytesOf c.env.hostEndian c.insn }).2.1.data
      (c.env.detached.convertAndTransact
        { c.ireq with data := bytesOf c.env.hostEndian c.insn }).2.1.size) = _
    rw [h2, hsize, overlay_all hpb hl]

/-- A fetch from a direct pointer is a fetch through the port if and only if the port is not of
the endianness of the host, or the instruction reads the same both ways. -/
theorem fetchedAlike_iff (hf : Fetching c) (hc : c.env.Copies c.ireq)
    (hp : c.env.getInsnPtr c.ireq.addr = some p) : FetchedAlike c ↔
      (c.env.hostEndian = c.env.endian → (c.insnBytes p).reverse = c.insnBytes p) := by
  have hb : (c.insnBytes p).length = 4 := Env.length_readBytes _ _ _
  have hrb : (c.insnBytes p).reverse.length = 4 := by rw [List.length_reverse, hb]
  have hx := fetchWord_pointed hp
  obtain ⟨y, hy, hi, hw⟩ := fetchWord_detached hf hc hp
  constructor
  · rintro ⟨x', y', hx', hy', hsame, -⟩ heq
    obtain ⟨-, rfl⟩ := Prod.mk.inj (Outcome.ok.inj (hx.symm.trans hx'))
    obtain ⟨-, rfl⟩ := Prod.mk.inj (Outcome.ok.inj (hy.symm.trans hy'))
    rw [hi] at hsame
    unfold portBytes at hsame
    rw [if_pos heq] at hsame
    have hbytes := congrArg (bytesOf c.env.hostEndian) hsame
    rw [bytesOf_ofBytes _ hb, bytesOf_ofBytes _ hrb] at hbytes
    exact hbytes.symm
  · intro h
    refine ⟨_, y, hx, hy, ?_, hw⟩
    rw [hi]
    unfold portBytes
    split
    · rename_i heq
      rw [h heq]
    · rfl

/-- What the simulator asks its port for. -/
inductive Use where
  | fetch
  | request (req : Request)

/-- A direct pointer serves the use, the access is not exclusive, and `transact` copies the same
bytes. -/
def Use.Pointed (c : Core σ) : Use → Prop
  | .fetch => (∃ p, c.env.getInsnPtr c.ireq.addr = some p) ∧ c.env.Copies c.ireq
  | .request req => req.excl = false ∧ (∃ p, (c.env.directMemoryPtr req).1 = some p) ∧
      c.env.Copies req

def Use.Alike (c : Core σ) : Use → Prop
  | .fetch => FetchedAlike c
  | .request req => c.env.ServedAlike req

/-- The port is not of the endianness of the host, or the four bytes that `fetch` finds read the
same both ways. -/
def Use.Agrees (c : Core σ) : Use → Prop
  | .fetch => c.env.hostEndian = c.env.endian →
      ∀ p, c.env.getInsnPtr c.ireq.addr = some p → (c.insnBytes p).reverse = c.insnBytes p
  | .request _ => True

/-- Loads, stores and requests of any size are served alike with and without direct pointers,
whatever the endianness; a fetch is, if and only if its byte swap is the one that the port
needs. -/
theorem interchangeable_iff {u : Use} (hf : Fetching c) (hu : u.Pointed c) :
    u.Alike c ↔ u.Agrees c := by
  cases u with
  | fetch =>
    obtain ⟨⟨p, hp⟩, hc⟩ := hu
    refine (fetchedAlike_iff hf hc hp).trans (forall_congr' fun _ => ?_)
    constructor
    · intro h q hq
      cases hp.symm.trans hq
      exact h
    · exact fun h => h p hp
  | request req =>
    obtain ⟨hx, ⟨p, hp⟩, hc⟩ := hu
    exact iff_of_true (Env.servedAlike hx hc hp) trivial

end Core

/-! ## Little on little -/

/-- The simulator's memory copies the bytes that its direct pointers designate. -/
theorem Memory.copies {e : Env Memory} {req : Request} (hd : e.dataPtr = some 0 ∧ e.dataStart = 0#32)
    (hi : e.insnPtr = some 0 ∧ e.insnStart = 0#32)
    (hs : (req.addr + BitVec.ofNat 32 req.size).toNat ≤ e.world.dev.size) : e.Copies req := by
  intro p d n hp
  have hp : p = req.addr.toNat := by
    unfold Env.directMemoryPtr Env.getDataPtr Env.getInsnPtr at hp
    rw [hd.1, hd.2, hi.1, hi.2] at hp
    dsimp only at hp
    split at hp <;> split at hp <;> cases hp <;> exact Nat.zero_add _
  simp only [EnvImpl.transact, Memory.transact, if_neg (Nat.not_lt.2 hs), hp]
  split <;> exact ⟨rfl, rfl, rfl⟩

namespace Core

/-- A little-endian port on a little-endian host, with one word at the reset address. -/
def littleOnLittle : Core Memory :=
  { (Memory.boot [(0, 0x15000000#32)]).cpu.toCore with
    env := { Memory.env 0x8000 (Memory.image [(0, 0x15000000#32)]) with endian := .little } }

theorem pointed_littleOnLittle : Use.Pointed littleOnLittle .fetch :=
  ⟨⟨0, rfl⟩, Memory.copies ⟨rfl, rfl⟩ ⟨rfl, rfl⟩ (by decide)⟩

/-- There `fetch` swaps the word, and the port does not. -/
theorem interchangeable_iff_fails : ∃ c : Core Memory, Fetching c ∧ c.env.endian = .little ∧
    c.env.hostEndian = .little ∧ Use.Pointed c .fetch ∧ ¬Use.Alike c .fetch := by
  have hf : Fetching littleOnLittle := ⟨rfl, rfl, rfl, rfl, rfl⟩
  refine ⟨littleOnLittle, hf, rfl, rfl, pointed_littleOnLittle, fun h => ?_⟩
  have hi := (fetchedAlike_iff (p := 0) hf pointed_littleOnLittle.2 rfl).1 h rfl
  exact absurd hi (by decide)

/-- The simulator's memory is big-endian: on a little-endian host a fetch is alike. -/
theorem interchangeable_boot :
    Use.Alike (Memory.boot [(0, 0x15000000#32)]).cpu.toCore .fetch := by
  have hu : Use.Pointed (Memory.boot [(0, 0x15000000#32)]).cpu.toCore .fetch :=
    ⟨⟨0, rfl⟩, Memory.copies ⟨rfl, rfl⟩ ⟨rfl, rfl⟩ (by decide)⟩
  refine (interchangeable_iff ⟨rfl, rfl, rfl, rfl, rfl⟩ hu).2 fun h => ?_
  cases h

end Core

/-! ## The instruction request in every run -/

namespace Core

variable {c b x : Core σ}

/-- What a fetch asks for. -/
def fetchKind (c : Core σ) : Bool × Bool × Bool × Nat × Endian :=
  (c.ireq.read, c.ireq.imem, c.ireq.excl, c.ireq.size, c.ireq.endian)

theorem fetchKind_of_ireq (h : x.ireq = c.ireq) : x.fetchKind = c.fetchKind := by
  unfold fetchKind
  rw [h]

theorem Refused.ireq (h : Refused b x) : x.ireq = b.ireq := by
  obtain ⟨t, addr, ht, -, rfl⟩ := h
  exact (kept_entered ht addr).ireq

variable [EnvImpl σ]

/-- The address step writes the address and the mode of the request, the translation what it
finds out about the page. -/
theorem fetchAddress_fetchKind {r : Bool × Core σ} (h : c.fetchAddress = .ok r) :
    r.2.fetchKind = c.fetchKind := by
  have ht : c.translateFetch.2.fetchKind = c.fetchKind := by
    have hr := Mmu.translate_fields c.immu c.env c.fetchRequest
    show (c.translateFetch.2.ireq.read, c.translateFetch.2.ireq.imem, c.translateFetch.2.ireq.excl,
      c.translateFetch.2.ireq.size, c.translateFetch.2.ireq.endian) = _
    rw [show c.translateFetch.2.ireq.read = c.ireq.read from hr.read,
      show c.translateFetch.2.ireq.imem = c.ireq.imem from hr.imem,
      show c.translateFetch.2.ireq.excl = c.ireq.excl from hr.excl,
      show c.translateFetch.2.ireq.size = c.ireq.size from hr.size,
      show c.translateFetch.2.ireq.endian = c.ireq.endian from hr.endian]
    rfl
  unfold fetchAddress at h
  split at h
  · split at h
    · cases h
      rfl
    · split at h <;> rename_i he <;> rw [he] at ht
      · exact (fetchKind_of_ireq (refuse_ok rfl h).2.ireq).trans ht
      · exact (fetchKind_of_ireq (refuse_ok rfl h).2.ireq).trans ht
      · cases h
        exact ht
  · cases h
    rfl

theorem readInsn_fetchKind : c.readInsn.2.fetchKind = c.fetchKind := by
  obtain ⟨d, n, hq⟩ := Env.convertAndTransact_answers c.env
    { c.ireq with data := bytesOf c.env.hostEndian c.insn }
  have he : c.readInsn.2.ireq = { c.ireq with data := [], cycles := n } := by
    show ({ (c.env.convertAndTransact { c.ireq with data := bytesOf c.env.hostEndian c.insn }).2.1 with
      data := [] } : Request) = _
    rw [hq]
  unfold fetchKind
  rw [he]

theorem fetchWord_fetchKind {r : Bool × Core σ} (h : c.fetchWord = .ok r) :
    r.2.fetchKind = c.fetchKind := by
  unfold fetchWord at h
  split at h
  · cases h
    rfl
  · have ht := readInsn_fetchKind (c := c)
    split at h <;> rename_i he <;> rw [he] at ht
    · exact (fetchKind_of_ireq (refuse_ok rfl h).2.ireq).trans ht
    · cases h
    · cases h
      exact ht

theorem fetchWord_throw_fetchKind (h : c.fetchWord = .throw x) : x.fetchKind = c.fetchKind := by
  unfold fetchWord at h
  split at h
  · cases h
  · have ht := readInsn_fetchKind (c := c)
    split at h <;> rename_i he <;> rw [he] at ht
    · exact (refuse_ne_throw h).elim
    · cases h
      exact ht
    · cases h

end Core

namespace Or1k

open Or1kiss.Core

variable {s f x : Or1k σ} {ci : Instruction}

variable [EnvImpl σ]

theorem fetch_fetchKind : Outcome.Ends (fun x => x.toCore.fetchKind = s.toCore.fetchKind)
    (fun r => r.2.toCore.fetchKind = s.toCore.fetchKind) s.fetch := by
  refine fetch_ends ?_ (fun c h => ?_) (fun c x h hr => (fetchKind_of_ireq hr.ireq).trans h)
    fun c w h => h
  · exact Outcome.ends_of (fun r hr => fetchAddress_fetchKind hr)
      fun x hx => (fetchAddress_ne_throw hx).elim
  · exact Outcome.ends_of (fun r hr => (fetchWord_fetchKind hr).trans h)
      fun x hx => (fetchWord_throw_fetchKind hx).trans h

variable [HostLib]

theorem fetchExecute_fetchKind (h : s.fetchExecute = .ok x) :
    x.toCore.fetchKind = s.toCore.fetchKind := by
  obtain ⟨ci, f, hf, -, he⟩ | ⟨hf, -⟩ := fetchExecute_ok h
  · exact (fetchKind_of_ireq (executed_ireq he)).trans (fetch_fetchKind.of_ok hf)
  · exact fetch_fetchKind.of_ok hf

theorem fetchExecute_throw_fetchKind (h : s.fetchExecute = .throw x) :
    x.toCore.fetchKind = s.toCore.fetchKind := by
  rcases fetchExecute_throw h with hf | ⟨ci, f, e, c, hf, -, -, hm, rfl⟩
  · exact fetch_fetchKind.of_throw hf
  · have hc := Core.executeMem_throw_effects hm
    exact (fetchKind_of_ireq hc.outcomes.ireq).trans (fetch_fetchKind.of_ok hf)

end Or1k

namespace Machine

open Or1k Or1kiss.Core

variable [EnvImpl σ] {m m' : Machine σ} {a : Action σ}

theorem outside_fetchKind {s s' : Or1k σ} (h : outside s a = .ok s') :
    s'.toCore.fetchKind = s.toCore.fetchKind := by
  cases outside_ok h with
  | writeSpr reg val =>
    obtain ⟨-, hd⟩ | hw := sprWritten_cases (s := s) reg val true
    · rw [hd]
      exact fetchKind_of_ireq dozed_steady.ireq
    · exact fetchKind_of_ireq hw.ireq
  | writeGpr | world | setUp => rfl

variable [HostLib]

/-- No action changes what a fetch asks for. -/
theorem act_fetchKind (hn : m.act a = some m') :
    m'.cpu.toCore.fetchKind = m.cpu.toCore.fetchKind := by
  cases act_transition hn with
  | begin r s n => exact fetchKind_of_ireq began_steady.ireq
  | mini | finish | leave => rfl
  | iterate limit s x hl hfe =>
    have hb : s.beginCycle.toCore.fetchKind = s.toCore.fetchKind := rfl
    rw [retired_frame (·.toCore.fetchKind) limit x fun _ _ _ _ => rfl]
    exact (fetchExecute_fetchKind hfe).trans hb
  | throw limit s x hl hfe =>
    have hb : s.beginCycle.toCore.fetchKind = s.toCore.fetchKind := rfl
    exact (fetchExecute_throw_fetchKind hfe).trans hb
  | drain s =>
    rw [drained_cpu]
    exact fetchKind_of_ireq (timerUpdated_steady.trans externalChecked_steady).ireq
  | interrupt p s id set =>
    show (s.toCore.interrupt id set).fetchKind = _
    obtain ⟨v, he⟩ := s.toCore.interrupt_eq id set
    rw [he]
    rfl
  | outside r s s' a ha h => exact outside_fetchKind h

/-- In every run of a CPU the instruction request is as its constructor sets it up. -/
theorem run_fetching {env : Env σ} {size : Nat} (h : system.Run (init env size) m) :
    Fetching m.cpu.toCore := by
  have hi : m.cpu.toCore.fetchKind = (true, true, false, 4, env.hostEndian) ∧
      m.cpu.env.hostEndian = env.hostEndian := by
    refine h.invariant (P := fun m => m.cpu.toCore.fetchKind = (true, true, false, 4, env.hostEndian) ∧
      m.cpu.env.hostEndian = env.hostEndian) (fun m a m' hc _ hn => ?_) ⟨rfl, rfl⟩
    obtain ⟨w, a, d, he⟩ := (act_attached hn).env
    exact ⟨(act_fetchKind hn).trans hc.1, (congrArg Env.hostEndian he).trans hc.2⟩
  obtain ⟨hk, hh⟩ := hi
  obtain ⟨h1, h2, h3, h4, h5⟩ : m.cpu.ireq.read = true ∧ m.cpu.ireq.imem = true ∧
      m.cpu.ireq.excl = false ∧ m.cpu.ireq.size = 4 ∧ m.cpu.ireq.endian = env.hostEndian := by
    simpa [fetchKind] using hk
  exact ⟨h1, h2, h3, h4, h5.trans hh.symm⟩

end Machine

end Or1kiss
