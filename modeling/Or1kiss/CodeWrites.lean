import Or1kiss.DirectPath
import Or1kiss.Handlers
import Or1kiss.MemPackets
import Or1kiss.Transparent

/-!
# Writes of the debugger and the decode cache

A `M` or `X` packet writes to memory and leaves the decode cache alone. `Record` follows the words
that such packets have left, until something else changes them, and which of them were held in the
cache as another word. A fetch delivers the word of the debugger unless it is from one of those
(`code_writes_iff`).
-/

namespace Or1kiss

open Host Bits Outcome Runs

variable {σ : Type}

/-! ## Slots -/

/-- What decoding `w` at `a` makes of a slot; a handler that throws leaves it without an executor. -/
inductive Decoded (a w : U32) : Instruction → Prop where
  | handled (handler : U32 → Instruction → Instruction) (h : decodeTable (decode w) = some handler) :
      Decoded a w (handler w (.blank a w))
  | blank (h : decodeTable (decode w) = none) : Decoded a w (.blank a w)

namespace Decoded

variable {a w : U32} {ci : Instruction}

theorem insn (h : Decoded a w ci) : ci.insn = w := by
  cases h with
  | handled handler h => exact (handler_blank h a w).2.1
  | blank => rfl

theorem addr (h : Decoded a w ci) : ci.addr = a := by
  cases h with
  | handled handler h => exact handler_addr h a w
  | blank => rfl

end Decoded

/-- The cache is on and holds the address. -/
def DecodeCache.holds (d : DecodeCache) (a : U32) : Bool := d.caches a && !d.isOff

theorem DecodeCache.isOff_store (d : DecodeCache) (a : U32) (ci : Instruction) :
    (d.store a ci).isOff = d.isOff := rfl

/-- Every slot that is tagged with an address of its own was decoded from its word. -/
def DecodeCache.Tagged (d : DecodeCache) : Prop := ∀ a, a ≠ 0xffffffff#32 → d.caches a = true →
  Decoded a (d.lookup a).insn (d.lookup a)

namespace Core

variable [EnvImpl σ] {c d : Core σ}

theorem fetchWord_addr (h : c.fetchWord = .ok (true, d)) : d.ireq.addr = c.ireq.addr := by
  obtain ⟨dat, n, hr⟩ := Env.convertAndTransact_answers c.env
    { c.ireq with data := bytesOf c.env.hostEndian c.insn }
  have hread : c.readInsn.2.ireq.addr = c.ireq.addr := by
    show (c.env.convertAndTransact
      { c.ireq with data := bytesOf c.env.hostEndian c.insn }).2.1.addr = _
    rw [hr]
  unfold fetchWord at h
  split at h
  · cases h
    rfl
  · split at h <;> rename_i he <;> rw [he] at hread
    · cases (refuse_ok rfl h).1
    · cases h
    · cases h
      exact hread

end Core

theorem Core.supplied_of_pointer [EnvImpl σ] {c : Core σ} {a : U32} {p : Nat}
    (hp : c.env.getInsnPtr a = some p) :
    c.supplied a = some (ofBytes c.env.hostEndian (c.insnBytes p).reverse) := by
  have hw := Core.fetchWord_pointed (c := { c with ireq := { c.ireq with addr := a } }) hp
  unfold Core.supplied
  rw [hw]
  rfl

namespace Or1k

variable [EnvImpl σ] {s : Or1k σ}

omit [EnvImpl σ] in
theorem tagged_iff {a : U32} : s.Tagged a ↔ s.decodeCache.holds a = true := by
  unfold Tagged DecodeCache.holds DecodeCache.caches
  rw [Bool.and_eq_true, beq_iff_eq, Bool.not_eq_true']

/-- The word that a fetch decodes is the one that memory supplies at its address. -/
theorem Reads.supplied {a w : U32} (h : s.Reads a w) :
    ∃ c, s.Looks c ∧ c.ireq.addr = a ∧ s.decodeCache.holds a = false ∧ c.supplied a = some w := by
  obtain ⟨c, d, hl, hn, hw, ha, rfl⟩ := h
  have hc : c.ireq.addr = a := (Core.fetchWord_addr hw).symm.trans ha.symm
  refine ⟨c, hl, hc, ?_, ?_⟩
  · rw [← hc]
    exact Bool.eq_false_iff.2 fun h => hn (tagged_iff.2 h)
  · have he : ({ c with ireq := { c.ireq with addr := c.ireq.addr } } : Core σ) = c := rfl
    unfold Core.supplied
    rw [← hc, he, hw]

/-- A slot behind a fetch: as before, or just decoded. -/
inductive Slot (s : Or1k σ) (d : DecodeCache) (b : U32) : Prop where
  | kept (hc : s.decodeCache.caches b = true) (hl : d.lookup b = s.decodeCache.lookup b)
  | filled (w : U32) (h : s.Reads b w) (hd : Decoded b w (d.lookup b))

theorem slot_store {addr w b : U32} {ci : Instruction} (hr : s.Reads addr w) (hd : Decoded addr w ci)
    (hc : (s.decodeCache.store addr ci).caches b = true) :
    Slot s (s.decodeCache.store addr ci) b := by
  by_cases hi : s.decodeCache.index b = s.decodeCache.index addr
  · have hl : (s.decodeCache.store addr ci).lookup b = ci := DecodeCache.lookup_store_of_eq hi
    have hb : b = addr := by
      unfold DecodeCache.caches at hc
      rw [hl, beq_iff_eq, hd.addr] at hc
      exact hc.symm
    subst hb
    refine .filled w hr ?_
    rw [hl]
    exact hd
  · have hl : (s.decodeCache.store addr ci).lookup b = s.decodeCache.lookup b :=
      DecodeCache.lookup_store_of_ne hi
    refine .kept ?_ hl
    unfold DecodeCache.caches at hc ⊢
    rwa [hl] at hc

theorem Cached.slot {o : Option Instruction} {d : DecodeCache} {b : U32} (h : Cached s o d)
    (hc : d.caches b = true) : Slot s d b := by
  cases h with
  | hit ci h => exact .kept hc rfl
  | decoded addr w handler h hl hh => exact slot_store h (.handled handler hh) hc
  | unsupported addr w h hl hh => exact slot_store h (.blank hh) hc
  | unused h => exact .kept hc rfl

theorem Cached.isOff {o : Option Instruction} {d : DecodeCache} (h : Cached s o d) :
    d.isOff = s.decodeCache.isOff := by
  cases h with
  | hit | unused => rfl
  | decoded | unsupported => exact DecodeCache.isOff_store ..

omit [EnvImpl σ] in
theorem Invalidated.isOff {d d' : DecodeCache} (h : Invalidated d d') : d'.isOff = d.isOff := by
  have hblock : ∀ (l : List Nat) (val : U32) (d : DecodeCache),
      (l.foldl (fun c i => c.invalidate (val + BitVec.ofNat 32 (4 * i))) d).isOff = d.isOff := by
    intro l val
    induction l with
    | nil => exact fun _ => rfl
    | cons i l ih =>
      intro d
      rw [List.foldl_cons, ih]
      unfold DecodeCache.invalidate
      split
      · exact DecodeCache.isOff_store ..
      · rfl
  rcases h with h | ⟨val, h⟩
  · rw [h]
  · rw [h]
    unfold DecodeCache.invalidateBlock
    exact hblock _ val d

/-- A fetch from an address that is held delivers its slot. -/
theorem fetch_of_tagged {c : Core σ} (hl : s.Looks c) (ht : s.Tagged c.ireq.addr) :
    ∃ f, s.fetch = .ok (some (s.decodeCache.lookup c.ireq.addr), f) := by
  have hl : s.toCore.fetchAddress = .ok (true, c) := hl
  unfold fetch liftCore
  rw [hl]
  refine ⟨_, if_pos ht⟩

end Or1k

/-! ## Packets -/

namespace Gdb

variable {g x : Gdb σ}

/-- The decode cache is that of `g`. -/
def SameSlots (g x : Gdb σ) : Prop := x.cpu.decodeCache = g.cpu.decodeCache

theorem sameSlots_invariant (g : Gdb σ) : MemoryInvariant (SameSlots g) :=
  ⟨fun _ _ _ h => h, fun _ h => h, fun _ h => h⟩

variable [EnvImpl σ]

/-- A `M` or `X` packet. -/
def writesMemory (command : List U8) : Bool :=
  command.headD 0#8 == chr 'M' || command.headD 0#8 == chr 'X'

/-- `mem_write` does not invalidate anything. -/
theorem execute_sameSlots {command : List U8} (hw : writesMemory command = true) {g' : Gdb σ}
    (h : g.execute command = .ok g') : g'.cpu.decodeCache = g.cpu.decodeCache := by
  have hg : SameSlots g g := rfl
  have hP := sameSlots_invariant g
  have hsend : ∀ x text, SameSlots g x → Outcome.Ends (SameSlots g) (SameSlots g) (x.send text) :=
    fun x text hx => send_ends (fun _ => hx) text
  have hends : Outcome.Ends (SameSlots g) (SameSlots g) (g.execute command) := by
    unfold writesMemory at hw
    rw [Bool.or_eq_true, beq_iff_eq, beq_iff_eq] at hw
    rcases hw with hw | hw
    · refine execute_handled (h := ('M', handleMemWrite)) hsend ?_ (hP.handleMemWrite hg _)
      rw [hw]
      rfl
    · refine execute_handled (h := ('X', handleMemWriteBin)) hsend ?_ (hP.handleMemWriteBin hg _)
      rw [hw]
      rfl
  exact hends.of_ok h

/-! ## What a packet writes -/

/-- The calls of `mem_write` that the loop makes. -/
def writeCalls (convert : Nat → List U8 → Option (List U8 × List U8)) :
    Nat → U32 → Nat → List U8 → Gdb σ → List (U32 × List U8)
  | 0, _, _, _, _ => []
  | fuel + 1, addr, length, data, g =>
    if length > 0 then
      match g.toPhys addr with
      | .ok (physAddr, g) =>
        let n := chunk physAddr length
        match convert n data with
        | some (buffer, data) =>
          match g.memWrite physAddr buffer with
          | .ok g => (physAddr, buffer) ::
            writeCalls convert fuel (addr + BitVec.ofNat 32 n) (length - n) data g
          | _ => []
        | none => []
      | _ => []
    else []

/-- What a memory packet writes, and where. -/
def packetWrites (g : Gdb σ) (command : List U8) : List (U32 × List U8) :=
  let c := if command.headD 0#8 = chr 'M' then 'M' else 'X'
  let convert := if command.headD 0#8 = chr 'M' then hexPairs else unescaped
  match scanRange c (cstr (command ++ [0#8])), behindColon (command ++ [0#8]) with
  | some (addr, length, _), some data =>
    if length.toNat % 4 ≠ 0 then []
    else writeCalls convert length.toNat addr length.toNat data g
  | _, _ => []

/-- The loop comes to its end only if it has written every byte of the range. -/
theorem length_writeCalls {convert : Nat → List U8 → Option (List U8 × List U8)}
    (hc : Splits convert) {fuel : Nat} {addr : U32} {length : Nat} {data : List U8} {g' : Gdb σ}
    (hf : length ≤ fuel) (h : writeLoop convert fuel addr length data x = .ok g') :
    ((writeCalls convert fuel addr length data x).map fun w => w.2.length).sum = length := by
  induction fuel generalizing x addr length data with
  | zero =>
    obtain rfl : length = 0 := by omega
    rfl
  | succ fuel ih =>
    rw [writeLoop] at h
    rw [writeCalls]
    by_cases hl : length > 0
    · rw [if_pos hl] at h ⊢
      obtain ⟨⟨phys, y⟩, hy, h⟩ := Outcome.bind_eq_ok.1 h
      dsimp only at h
      rw [hy]
      dsimp only
      cases hb : convert (chunk phys length) data with
      | none =>
        rw [hb] at h
        cases h
      | some r =>
        obtain ⟨buffer, rest⟩ := r
        rw [hb] at h
        obtain ⟨z, hz, h⟩ := Outcome.bind_eq_ok.1 h
        dsimp only
        rw [hz]
        have hlen : buffer.length = chunk phys length := hc.length _ _ _ hb
        obtain ⟨hpos, hle, -⟩ := chunk_spec phys hl
        rw [List.map_cons, List.sum_cons, ih (by omega) h, hlen]
        omega
    · rw [if_neg hl]
      show 0 = length
      omega

end Gdb

/-! ## The bytes behind the words -/

namespace Gdb

variable {g g' : Gdb Memory} {size : Nat} {phys a : U32} {bytes : List U8}

theorem readBytes_writeBytes (mem : Nat → U8) {p q : Nat} (hpq : p ≤ q) (h : q + 4 ≤ p + bytes.length) :
    readBytes (writeBytes mem p bytes) q 4 = (bytes.drop (q - p)).take 4 := by
  have hlen : (readBytes (writeBytes mem p bytes) q 4).length = ((bytes.drop (q - p)).take 4).length := by
    rw [Env.length_readBytes, List.length_take, List.length_drop]
    omega
  refine List.ext_getElem hlen fun i hi hi' => ?_
  have hval : (readBytes (writeBytes mem p bytes) q 4)[i] = writeBytes mem p bytes (q + i) := by
    simp [readBytes]
  rw [Env.length_readBytes] at hi
  rw [hval, List.getElem_take, List.getElem_drop]
  unfold writeBytes
  rw [if_pos ⟨by omega, by omega⟩, List.getD_eq_getElem _ _ (by omega)]
  congr 1
  omega

/-- Behind `mem_write` the simulator's memory supplies the bytes of the debugger, in the order of
the program. -/
theorem supplied_memWrite (hs : OfSize size g) (hh : g.cpu.env.hostEndian = .little)
    (hsize : size < 2 ^ 32) (hin : phys.toNat + bytes.length ≤ size) (hlo : phys.toNat ≤ a.toNat)
    (hhi : a.toNat + 4 ≤ phys.toNat + bytes.length) (h : g.memWrite phys bytes = .ok g') :
    g'.cpu.toCore.supplied a =
      some (ofBytes .big ((bytes.drop (a.toNat - phys.toNat)).take 4)) := by
  rw [memWrite_eq hs hin] at h
  cases h
  have hport := (hs.holding (writeBytes g.cpu.env.world.mem phys.toNat bytes) g.tlb).port
  generalize hc : (g.holding (writeBytes g.cpu.env.world.mem phys.toNat bytes) g.tlb).cpu.toCore = c
    at hport ⊢
  have hp : c.env.getInsnPtr a = some a.toNat := by
    unfold Env.getInsnPtr
    rw [hport.insnPtr, hport.insnStart, hport.insnEnd]
    dsimp only
    rw [if_neg (by bv_omega), Nat.zero_add]
    rfl
  have hb : c.insnBytes a.toNat = (bytes.drop (a.toNat - phys.toNat)).take 4 := by
    rw [← hc]
    exact readBytes_writeBytes _ hlo hhi
  have hhost : c.env.hostEndian = .little := by
    rw [← hc]
    exact hh
  rw [Core.supplied_of_pointer hp, hb, hhost]
  rfl

end Gdb

/-! ## Execution and packets -/

/-- The simulator at a point of control, and the stub behind it. -/
structure Debugged (σ : Type) where
  stub : Gdb σ
  phase : Phase

inductive Debugged.Event (σ : Type) where
  | act (a : Action σ)
  /-- A packet, in the thread of the stub. -/
  | packet (command : List U8)

namespace Debugged

def machine (d : Debugged σ) : Machine σ := { phase := d.phase, cpu := d.stub.cpu }

def core (d : Debugged σ) : Core σ := d.stub.cpu.toCore

def slots (d : Debugged σ) : DecodeCache := d.stub.cpu.decodeCache

variable [EnvImpl σ] [HostLib]

/-- Only memory is written. -/
def next (d : Debugged σ) : Event σ → Option (Debugged σ)
  | .act a => (d.machine.act a).map fun m => { stub := d.stub.withCpu m.cpu, phase := m.phase }
  | .packet command =>
    if Gdb.writesMemory command then
      (d.stub.execute command).value?.map fun g => { d with stub := g }
    else none

def system : System (Debugged σ) (Event σ) where
  next := next

/-- A stub on a CPU whose decode cache has `2 ^ size` entries. -/
def start (env : Env σ) (size : Nat) (elf : Option Elf) (rsp : Rsp) : Debugged σ :=
  { stub := .init (Machine.init env size).cpu elf rsp, phase := .idle none }

end Debugged

/-- One of the four bytes at `a` lies in the range. -/
def touches (w : U32 × List U8) (a : U32) : Bool :=
  (List.range 4).any fun i => decide ((a + BitVec.ofNat 32 i - w.1).toNat < w.2.length)

/-- The words that the debugger has written and nothing else has changed since, and the addresses
that were held as another word when it did, and are held since. -/
structure Record where
  word : U32 → Option U32
  stale : U32 → Bool

namespace Record

def init : Record := { word := fun _ => none, stale := fun _ => false }

variable [EnvImpl σ]

/-- The words of the debugger that are still there behind a change of memory. -/
def still (r : Record) (c x : Core σ) (a : U32) : Option U32 :=
  if c.supplied a = x.supplied a then r.word a else none

def after (r : Record) (m : Move (Debugged σ) (Debugged.Event σ)) : Record :=
  match m.act with
  | .act a =>
    let c := m.pre.machine.looking a
    { word := fun b => if c.supplied b = m.post.core.supplied b then r.still m.pre.core c b else none
      stale := fun b => r.stale b && m.post.slots.holds b }
  | .packet command =>
    let ws := m.pre.stub.packetWrites command
    { word := fun b => if ws.any (touches · b) then m.post.core.supplied b
        else r.still m.pre.core m.post.core b
      stale := fun b => if ws.any (touches · b) then
          m.post.slots.holds b && decide (some (m.post.slots.lookup b).insn ≠ m.post.core.supplied b)
        else r.stale b }

end Record

namespace Debugged

variable [EnvImpl σ] [HostLib] {q q' : Debugged σ × Record} {e : Event σ}

/-- Execution and packets, with the record of what the packets wrote. -/
def recorded : System (Debugged σ × Record) (Event σ) := system.watch Record.after

/-- A fetch from a word that the debugger wrote delivers what it wrote. -/
def Coherent (m : Move (Debugged σ × Record) (Event σ)) : Prop :=
  ∀ c ci f w, m.act = .act .run → m.pre.1.machine.executes = true →
    m.pre.1.stub.cpu.beginCycle.Looks c → c.ireq.addr ≠ 0xffffffff#32 →
    m.pre.1.stub.cpu.beginCycle.fetch = .ok (some ci, f) →
    m.pre.2.still m.pre.1.core c c.ireq.addr = some w → Decoded c.ireq.addr w ci

/-- The step does not fetch from a word of the debugger that was held as another one when the
debugger wrote it, and is held since. -/
def avoids (q : Debugged σ × Record) (e : Event σ) : Bool :=
  match e with
  | .act .run =>
    !q.1.machine.executes ||
      match q.1.stub.cpu.beginCycle.toCore.fetchAddress with
      | .ok (true, c) => c.ireq.addr == 0xffffffff#32 ||
        (q.2.still q.1.core c c.ireq.addr).isNone || !q.2.stale c.ireq.addr
      | _ => true
  | _ => true

/-- What the record says is so, and the slots are decoded from their words. -/
structure Traced (q : Debugged σ × Record) : Prop where
  tagged : q.1.slots.Tagged
  word : ∀ {a w}, q.2.word a = some w → q.1.core.supplied a = some w
  held : ∀ {a}, q.2.stale a = true → q.1.slots.holds a = true
  stale : ∀ {a w}, a ≠ 0xffffffff#32 → q.2.word a = some w → q.1.slots.holds a = true →
    (q.2.stale a = true ↔ (q.1.slots.lookup a).insn ≠ w)

end Debugged

namespace Machine

open Or1k

variable [EnvImpl σ] {m m' : Machine σ} {a : Action σ} {b : U32}

theorem looking_eq {c : Core σ} (hx : m.executes = true) (hl : m.cpu.beginCycle.Looks c) :
    m.looking .run = c := by
  have hl : m.cpu.beginCycle.toCore.fetchAddress = .ok (true, c) := hl
  unfold looking
  dsimp only
  rw [if_pos hx, hl]

variable [HostLib]

/-- A slot behind a step: as before, or filled from the word at its address by a fetch that did not
find it. -/
theorem act_slot (hn : m.act a = some m') (hb : b ≠ 0xffffffff#32)
    (hc : m'.cpu.decodeCache.caches b = true) :
    (m.cpu.decodeCache.caches b = true ∧ m'.cpu.decodeCache.lookup b = m.cpu.decodeCache.lookup b) ∨
      m.cpu.decodeCache.holds b = false ∧
        ∃ w, (m.looking a).supplied b = some w ∧ Decoded b w (m'.cpu.decodeCache.lookup b) := by
  by_cases hx : IsIteration ⟨m, a, m'⟩
  · obtain ⟨ci, dc, hcached, hi, -⟩ := iteration_cached hx hn
    obtain ⟨rfl, hx⟩ := hx
    obtain ⟨hcd, hl⟩ := invalidated_filling hi hb hc
    rw [hl]
    cases hcached.slot hcd with
    | kept hold hlook => exact .inl ⟨hold, hlook⟩
    | filled w hr hd =>
      obtain ⟨c, hlk, ha, hf, hs⟩ := hr.supplied
      rw [looking_eq hx hlk]
      exact .inr ⟨hf, w, hs, hd⟩
  · exact .inl (invalidated_filling (act_invalidated hx hn) hb hc)

theorem act_isOff (hn : m.act a = some m') : m'.cpu.decodeCache.isOff = m.cpu.decodeCache.isOff := by
  by_cases hx : IsIteration ⟨m, a, m'⟩
  · obtain ⟨ci, dc, hcached, hi, -⟩ := iteration_cached hx hn
    have hb : m.cpu.beginCycle.decodeCache.isOff = m.cpu.decodeCache.isOff := rfl
    exact hi.isOff.trans (hcached.isOff.trans hb)
  · exact (act_invalidated hx hn).isOff

end Machine

namespace Debugged

variable [EnvImpl σ] [HostLib] {q q' : Debugged σ × Record} {e : Event σ} {d d' : Debugged σ}
  {r : Record}

omit [HostLib] in
theorem word_of_still {c x : Core σ} {a w : U32} (h : r.still c x a = some w) :
    c.supplied a = x.supplied a ∧ r.word a = some w := by
  unfold Record.still at h
  split at h
  · exact ⟨‹_›, h⟩
  · cases h

omit [HostLib] in
theorem traced_start (env : Env σ) (size : Nat) (elf : Option Elf) (rsp : Rsp) :
    Traced (start env size elf rsp, .init) where
  tagged := fun _ ha hc => (ha (beq_iff_eq.1 hc).symm).elim
  word := fun h => by cases h
  held := fun h => Bool.noConfusion h
  stale := fun _ h _ => by cases h

theorem traced_packet {command : List U8} (ht : Traced (d, r)) (hn : d.next (.packet command) = some d') :
    Traced (d', r.after ⟨d, .packet command, d'⟩) := by
  have hd : d'.slots = d.slots := by
    unfold next at hn
    dsimp only at hn
    split at hn
    · obtain ⟨g, hg, rfl⟩ := Option.map_eq_some_iff.1 hn
      exact Gdb.execute_sameSlots ‹_› (Outcome.value?_eq_some.1 hg)
    · cases hn
  have hafter : ∀ b, (r.after ⟨d, .packet command, d'⟩).word b =
      if (d.stub.packetWrites command).any (touches · b) then d'.core.supplied b
        else r.still d.core d'.core b := fun _ => rfl
  have hstale : ∀ b, (r.after ⟨d, .packet command, d'⟩).stale b =
      if (d.stub.packetWrites command).any (touches · b) then
        d'.slots.holds b && decide (some (d'.slots.lookup b).insn ≠ d'.core.supplied b)
      else r.stale b := fun _ => rfl
  constructor
  · show d'.slots.Tagged
    rw [hd]
    exact ht.tagged
  · intro b w h
    rw [hafter] at h
    split at h
    · exact h
    · obtain ⟨hs, hw⟩ := word_of_still h
      exact hs.symm.trans (ht.word hw)
  · intro b h
    rw [hstale] at h
    split at h
    · exact (Bool.and_eq_true _ _ ▸ h).1
    · show d'.slots.holds b = true
      rw [hd]
      exact ht.held h
  · intro b w hb h hh
    have hh : d'.slots.holds b = true := hh
    show _ ↔ (d'.slots.lookup b).insn ≠ w
    rw [hafter] at h
    rw [hstale]
    split at h
    · rename_i htouch
      rw [if_pos htouch, hh, h, Bool.true_and, decide_eq_true_eq, ne_eq, Option.some.injEq]
    · rename_i htouch
      rw [if_neg htouch, hd]
      exact ht.stale hb (word_of_still h).2 (hd ▸ hh)

theorem traced_act {a : Action σ} (ht : Traced (d, r)) (hn : d.next (.act a) = some d') :
    Traced (d', r.after ⟨d, .act a, d'⟩) := by
  obtain ⟨m', hm, rfl⟩ := Option.map_eq_some_iff.1 hn
  have hslot := fun b => Machine.act_slot (b := b) hm
  have hoff := Machine.act_isOff hm
  have hword : ∀ {b w}, (r.after ⟨d, .act a, ⟨d.stub.withCpu m'.cpu, m'.phase⟩⟩).word b = some w →
      r.word b = some w ∧ (d.machine.looking a).supplied b = some w ∧
        m'.cpu.toCore.supplied b = some w := by
    intro b w h
    have h : (if (d.machine.looking a).supplied b = m'.cpu.toCore.supplied b then
      r.still d.core (d.machine.looking a) b else none) = some w := h
    split at h
    · rename_i hs
      obtain ⟨hs', hw⟩ := word_of_still h
      have hl := hs'.symm.trans (ht.word hw)
      exact ⟨hw, hl, hs.symm.trans hl⟩
    · cases h
  constructor
  · intro b hb hc
    rcases hslot b hb hc with ⟨hold, hl⟩ | ⟨-, w, -, hd⟩
    · show Decoded b (m'.cpu.decodeCache.lookup b).insn (m'.cpu.decodeCache.lookup b)
      rw [hl]
      exact ht.tagged b hb hold
    · have hi := hd.insn
      show Decoded b (m'.cpu.decodeCache.lookup b).insn (m'.cpu.decodeCache.lookup b)
      rw [hi]
      exact hd
  · exact fun h => (hword h).2.2
  · intro b h
    exact (Bool.and_eq_true _ _ ▸ (show (r.stale b && m'.cpu.decodeCache.holds b) = true from h)).2
  · intro b w hb h hh
    have hh : m'.cpu.decodeCache.holds b = true := hh
    obtain ⟨hw, hl, -⟩ := hword h
    have hc : m'.cpu.decodeCache.caches b = true := (Bool.and_eq_true _ _ ▸ hh).1
    show (r.stale b && m'.cpu.decodeCache.holds b) = true ↔ (m'.cpu.decodeCache.lookup b).insn ≠ w
    rw [hh, Bool.and_true]
    rcases hslot b hb hc with ⟨hold, hlook⟩ | ⟨hfree, v, hv, hd⟩
    · have hholds : d.slots.holds b = true := by
        unfold DecodeCache.holds at hh ⊢
        rw [hoff] at hh
        rw [show d.slots.caches b = true from hold]
        exact (Bool.and_eq_true _ _ ▸ hh).2
      rw [hlook]
      exact ht.stale hb hw hholds
    · -- the word was fetched anew, so it is the word of the debugger
      have hns : r.stale b = false := by
        refine Bool.eq_false_iff.2 fun hs => ?_
        exact absurd (ht.held hs) (Bool.eq_false_iff.1 hfree)
      cases hl.symm.trans hv
      rw [hns, hd.insn]
      exact ⟨fun h => Bool.noConfusion h, fun h => (h rfl).elim⟩

theorem traced_next (ht : Traced q) (hn : recorded.next q e = some q') : Traced q' := by
  obtain ⟨d, r⟩ := q
  obtain ⟨t, ht', rfl⟩ := System.watch_next hn
  cases e with
  | act a => exact traced_act ht ht'
  | packet command => exact traced_packet ht ht'

omit [HostLib] in
/-- The words of the debugger are decoded from, but where the fetch is from a stale slot. -/
theorem coherent_iff_avoids (ht : Traced q) :
    Coherent ⟨q, e, q'⟩ ↔ avoids q e = true := by
  constructor
  · intro h
    cases e with
    | packet command => rfl
    | act a =>
      cases a with
      | run =>
        unfold avoids
        dsimp only
        by_cases hx : q.1.machine.executes = true
        · rw [hx, Bool.not_true, Bool.false_or]
          split
          · rename_i c hl
            rw [Bool.or_eq_true, Bool.or_eq_true, beq_iff_eq, Bool.not_eq_true']
            by_cases ha : c.ireq.addr = 0xffffffff#32
            · exact .inl (.inl ha)
            · cases hw : q.2.still q.1.core c c.ireq.addr with
              | none => exact .inl (.inr rfl)
              | some w =>
                refine .inr (Bool.eq_false_iff.2 fun hs => ?_)
                have hheld := ht.held hs
                have htag : q.1.stub.cpu.beginCycle.Tagged c.ireq.addr := Or1k.tagged_iff.2 hheld
                obtain ⟨f, hf⟩ := Or1k.fetch_of_tagged hl htag
                have hd := h c _ f w rfl hx hl ha hf hw
                exact (ht.stale ha (word_of_still hw).2 hheld).1 hs hd.insn
          · rfl
        · rw [Bool.not_eq_true] at hx
          rw [hx]
          rfl
      | _ => rfl
  · intro h c ci f w he hx hl ha hf hw
    have he : e = .act .run := he
    subst he
    have hl' : q.1.stub.cpu.beginCycle.toCore.fetchAddress = .ok (true, c) := hl
    obtain ⟨hsame, hword⟩ := word_of_still hw
    have hsup : c.supplied c.ireq.addr = some w := hsame.symm.trans (ht.word hword)
    have hns : q.2.stale c.ireq.addr = false := by
      unfold avoids at h
      dsimp only at h hx
      rw [hx, Bool.not_true, Bool.false_or, hl'] at h
      dsimp only at h
      rw [Bool.or_eq_true, Bool.or_eq_true, beq_iff_eq, Bool.not_eq_true'] at h
      rcases h with (h | h) | h
      · exact (ha h).elim
      · rw [hw] at h
        cases h
      · exact h
    have hci : Or1k.Cached q.1.stub.cpu.beginCycle (some ci) f.decodeCache := Or1k.fetch_cached hf
    generalize hdc : f.decodeCache = dc at hci
    cases hci with
    | hit ci hhit =>
      obtain ⟨c', hl₂, htag, hci⟩ := hhit
      cases hl.symm.trans hl₂
      have hheld : q.1.slots.holds c.ireq.addr = true := Or1k.tagged_iff.1 htag
      have hd := ht.tagged _ ha (Bool.and_eq_true _ _ ▸ hheld).1
      have hi : (q.1.slots.lookup c.ireq.addr).insn = w := by
        by_contra hne
        rw [(ht.stale ha hword hheld).2 hne] at hns
        cases hns
      rw [hi] at hd
      rw [hci]
      exact hd
    | decoded addr v handler hr hlg hh =>
      obtain ⟨c', hl₂, rfl, -, hs⟩ := hr.supplied
      cases hl.symm.trans hl₂
      cases hsup.symm.trans hs
      exact .handled handler hh

/-- In every run of execution and of memory packets, whatever the size of the cache, each fetch from
a word that the debugger wrote delivers it, if and only if no fetch is from a word that was held in
the cache as another one when the debugger wrote it, and is held since. -/
theorem code_writes_iff {env : Env σ} {size : Nat} {elf : Option Elf} {rsp : Rsp}
    {l : List (Move (Debugged σ × Record) (Event σ))}
    (h : recorded.Path (start env size elf rsp, .init) l q) :
    (∀ m ∈ l, Coherent m) ↔ ∀ m ∈ l, avoids m.pre m.act = true := by
  refine h.forall_iff (P := Traced) (fun q e q' hn hc ht => ?_) (fun q e q' hn hc ht => ?_)
    (traced_start env size elf rsp)
  · exact ⟨traced_next ht hn, (coherent_iff_avoids ht).2 hc⟩
  · exact fun hr => hc ((coherent_iff_avoids ht).1 hr)

end Debugged

/-! ## A loop under the debugger -/

namespace Debugged

attribute [local instance] HostLib.plain

/-- `l.j 0` with `l.nop` in its delay slot, and a cache of 16 entries. -/
def looping : Debugged Memory × Record :=
  (start (Memory.env 0x8000 (Memory.image [(0x104, 0x15000000#32)])) 4 none
    { isOpen := true, input := [], output := [] }, .init)

/-- The debugger writes `l.nop` over the jump. -/
def patchNop : Event Memory := .packet (ascii "X100,4:" ++ [0x15#8, 0#8, 0#8, 0#8])

/-- Two instructions. -/
def twoInsns : List (Event Memory) := .act (.call 2#32) :: List.replicate 6 (.act .run)

/-- The jump is executed again, and not what the debugger wrote. -/
theorem code_writes_iff_fails : ∃ l q, recorded.Path looping l q ∧ ¬∀ m ∈ l, Coherent m := by
  obtain ⟨q, hr, hq⟩ := recorded.exists_run looping
    (twoInsns ++ [patchNop, .act (.call 2#32), .act .run])
    (fun q => !avoids q (.act .run) && (recorded.next q (.act .run)).isSome) (by decide +kernel)
  rw [Bool.and_eq_true, Bool.not_eq_true'] at hq
  obtain ⟨q', hn⟩ := Option.isSome_iff_exists.1 hq.2
  obtain ⟨l, hl, hm⟩ := hr.path_tail hn
  have ht : Traced q := hr.invariant (P := Traced) (fun _ _ _ h _ hn => traced_next h hn)
    (traced_start _ _ _ _)
  refine ⟨l, q', hl, fun hc => ?_⟩
  have ha := (coherent_iff_avoids ht).1 (hc _ hm)
  rw [hq.1] at ha
  cases ha

/-- With a write to ICBIR before the program goes on it is. -/
theorem code_writes_invalidated : ∃ l q, recorded.Path looping l q ∧
    (q.1.core.insn = 0x15000000#32 ∧ q.1.core.nextPc = 0x104#32) ∧ ∀ m ∈ l, Coherent m := by
  obtain ⟨q, hr, hq⟩ := recorded.exists_steps avoids looping
    (twoInsns ++ [patchNop, .act (.writeSpr SpReg.icbir.num 0x100#32), .act (.call 2#32),
      .act .run, .act .run])
    (fun q => decide (q.1.core.insn = 0x15000000#32 ∧ q.1.core.nextPc = 0x104#32)) (by decide +kernel)
  obtain ⟨l, hl, ha⟩ := hr.path_ok
  exact ⟨l, q, hl, of_decide_eq_true hq, (code_writes_iff hl).2 ha⟩

end Debugged

end Or1kiss
