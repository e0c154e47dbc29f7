import Mathlib.Data.List.GetD
import Or1kiss.Bounds
import Or1kiss.Gdb
import Or1kiss.Port

/-!
# Memory that the debugger reaches

The debugger moves a range of memory in chunks, each on one page and with one translation. `Mapped`
is a range that the translation sends page by page into the memory of the simulator: there the
loops of the packet handlers move every byte once, to and from the place of its address.
-/

namespace Or1kiss

open Host Bits

/-! ## The stages of a translation -/

namespace Gdb

variable {σ : Type} [EnvImpl σ]

/-- What the data MMU makes of a request, if it is active. -/
def tryDmmu (g : Gdb σ) (req : Request) : MmuResult × Gdb σ × Request :=
  if g.cpu.isDmmuActive then g.translateDmmu req else (.tlbMiss, g, req)

def tryImmu (g : Gdb σ) (req : Request) : MmuResult × Gdb σ × Request :=
  if g.cpu.isImmuActive then g.translateImmu req else (.tlbMiss, g, req)

/-- The instruction MMU is asked when the data MMU has no answer. -/
def afterDmmu (x : MmuResult × Gdb σ × Request) : Option U32 × Gdb σ :=
  if x.1 = .okay then (some x.2.2.addr, x.2.1)
  else if (x.2.1.tryImmu x.2.2).1 = .okay then
    (some (x.2.1.tryImmu x.2.2).2.2.addr, (x.2.1.tryImmu x.2.2).2.1)
  else (none, (x.2.1.tryImmu x.2.2).2.1)

theorem translate_eq (g : Gdb σ) (addr : U32) : g.translate addr =
    if !g.cpu.isDmmuActive && !g.cpu.isImmuActive then (some (g.elfPhys addr), g)
    else afterDmmu (g.tryDmmu (g.dataRequest true addr)) := rfl

theorem translate_off {g : Gdb σ} (hd : g.cpu.isDmmuActive = false)
    (hi : g.cpu.isImmuActive = false) (addr : U32) : g.translate addr = (some (g.elfPhys addr), g) := by
  rw [translate_eq, hd, hi]
  rfl

/-- A translation looks at the simulator and the ELF file only. -/
theorem translate_congr {g x : Gdb σ} (hc : x.cpu = g.cpu) (he : x.elf = g.elf) (addr : U32) :
    x.translate addr = ((g.translate addr).1, x.withCpu (g.translate addr).2.cpu) := by
  have hd : ∀ req, x.tryDmmu req =
      ((g.tryDmmu req).1, x.withCpu (g.tryDmmu req).2.1.cpu, (g.tryDmmu req).2.2) := fun req => by
    unfold tryDmmu translateDmmu withCpu
    rw [hc]
    split
    · rfl
    · rw [← hc]
  have hi : ∀ (y : Gdb σ) (req : Request), (x.withCpu y.cpu).tryImmu req =
      ((y.tryImmu req).1, x.withCpu (y.tryImmu req).2.1.cpu, (y.tryImmu req).2.2) := fun y req => by
    unfold tryImmu
    rw [show (x.withCpu y.cpu).cpu = y.cpu from rfl]
    split <;> rfl
  rw [translate_eq, translate_eq, hc]
  split
  · unfold elfPhys
    rw [he, ← hc]
    rfl
  · have hr : x.dataRequest true addr = g.dataRequest true addr := by
      unfold dataRequest
      rw [hc]
    rw [hr, hd]
    unfold afterDmmu
    dsimp only
    split
    · rfl
    · rw [hi]
      split <;> rfl

end Gdb

/-! ## Accesses of a debugger -/

/-- A data read of a debugger. -/
structure Request.Peeks (req : Request) : Prop where
  read : req.read = true
  excl : req.excl = false
  debug : req.debug = true

namespace Memory

variable {size : Nat} {e : Env Memory} {req : Request}

/-- A debugger reads memory without a trace. -/
theorem access_peeks (h : req.Peeks) : (e.access req).2.2 = e := by
  obtain ⟨n, hn⟩ := directMemoryPtr_snd e req
  unfold Env.access
  generalize e.directMemoryPtr req = d at hn
  obtain ⟨p, r⟩ := d
  dsimp only at hn
  subst hn
  cases p with
  | some ptr =>
    dsimp only
    rw [h.excl, if_neg Bool.false_ne_true, h.read, if_pos rfl]
  | none =>
    show { e with world := (transact _ e.world).world } = e
    unfold transact
    dsimp only
    split
    · rw [h.debug, Bool.not_true, Bool.or_false]
    · rw [h.read, if_pos rfl]

theorem convertAndTransact_peeks (h : req.Peeks) : (e.convertAndTransact req).2.2 = e := by
  by_cases hc : req.size > 1 ∧ req.endian ≠ e.endian
  · rw [Env.convertAndTransact_swapped hc]
    exact access_peeks ⟨h.read, h.excl, h.debug⟩
  · rw [Env.convertAndTransact_direct hc]
    exact access_peeks h

/-- A debugger changes memory only. -/
theorem access_debug (hx : req.excl = false) (hd : req.debug = true) :
    (e.access req).2.2 = withMem e (e.access req).2.2.world.mem := by
  obtain ⟨n, hn⟩ := directMemoryPtr_snd e req
  unfold Env.access
  generalize e.directMemoryPtr req = d at hn
  obtain ⟨p, r⟩ := d
  dsimp only at hn
  subst hn
  cases p with
  | some ptr =>
    dsimp only
    rw [hx, if_neg Bool.false_ne_true]
    split <;> rfl
  | none =>
    show { e with world := (transact _ e.world).world } = withMem e (transact _ e.world).world.mem
    unfold transact
    dsimp only
    split
    · rw [hd, Bool.not_true, Bool.or_false]
      rfl
    · split <;> rfl

theorem convertAndTransact_debug (hx : req.excl = false) (hd : req.debug = true) :
    (e.convertAndTransact req).2.2 = withMem e (e.convertAndTransact req).2.2.world.mem := by
  by_cases hc : req.size > 1 ∧ req.endian ≠ e.endian
  · rw [Env.convertAndTransact_swapped hc]
    exact access_debug hx hd
  · rw [Env.convertAndTransact_direct hc]
    exact access_debug hx hd

/-- What a request inside memory reads and writes. -/
structure Moves (req : Request) (w : World Memory) (x : Response) (data : List U8)
    (w' : World Memory) : Prop where
  success : x = .success
  read : req.read = true → data = readBytes w.mem req.addr.toNat req.size ∧ w' = w
  write : req.read = false →
    w' = { w with mem := writeBytes w.mem req.addr.toNat (req.data.take req.size) }

theorem transact_inside {w : World Memory} (h : req.addr.toNat + req.size ≤ w.dev.size) :
    Moves req w (transact req w).resp (transact req w).data (transact req w).world := by
  have hend : ¬w.dev.size < (req.addr + BitVec.ofNat 32 req.size).toNat := by
    rw [BitVec.toNat_add, BitVec.toNat_ofNat, Nat.add_mod_mod]
    have := Nat.mod_le (req.addr.toNat + req.size) (2 ^ 32)
    omega
  unfold transact
  rw [if_neg hend]
  dsimp only
  cases hr : req.read with
  | true => exact ⟨rfl, fun _ => ⟨rfl, rfl⟩, fun h => (nomatch hr.symm.trans h)⟩
  | false => exact ⟨rfl, fun h => (nomatch hr.symm.trans h), fun _ => rfl⟩

/-- The pointer and `transact` serve a request inside memory alike. -/
theorem access_inside (hs : OfSize size e) (hx : req.excl = false)
    (hin : req.addr.toNat + req.size ≤ size) :
    Moves req e.world (e.access req).1 (e.access req).2.1.data (e.access req).2.2.world ∧
      (e.access req).2.2 = { e with world := (e.access req).2.2.world } := by
  obtain ⟨n, hn⟩ := directMemoryPtr_snd e req
  have hp := hs.directMemoryPtr req
  unfold Env.access
  generalize e.directMemoryPtr req = d at hn hp
  obtain ⟨p, r⟩ := d
  dsimp only at hn hp
  subst hn hp
  by_cases hl : req.addr ≤ lastDirect size
  · rw [if_pos hl]
    dsimp only
    rw [hx, if_neg Bool.false_ne_true]
    cases hr : req.read with
    | true => exact ⟨⟨rfl, fun _ => ⟨rfl, rfl⟩, fun h => (nomatch hr.symm.trans h)⟩, rfl⟩
    | false => exact ⟨⟨rfl, fun h => (nomatch hr.symm.trans h), fun _ => rfl⟩, rfl⟩
  · rw [if_neg hl]
    have hin' : ({ req with cycles := n, endian := e.endian } : Request).addr.toNat +
        ({ req with cycles := n, endian := e.endian } : Request).size ≤ e.world.dev.size := by
      rw [hs.size]
      exact hin
    have ht := transact_inside hin'
    exact ⟨⟨ht.success, ht.read, ht.write⟩, rfl⟩

end Memory

namespace Mmu

variable {m : Mmu} {e : Env Memory} {req : Request}

theorem readPte_peeks (h : req.Peeks) (addr : U32) :
    (readPte e req addr).2.2.2 = e ∧ (readPte e req addr).2.2.1.Peeks := by
  refine ⟨Memory.convertAndTransact_peeks ⟨h.read, h.excl, h.debug⟩, ?_⟩
  obtain ⟨d, n, ha⟩ : Request.Answers { req with addr := addr, data := e.garbage 4, size := 4 }
    (readPte e req addr).2.2.1 := Env.convertAndTransact_answers ..
  rw [ha]
  exact ⟨h.read, h.excl, h.debug⟩

theorem walk_peeks (m : Mmu) (h : req.Peeks) : (m.walk e req).2 = e := by
  have hw : (walkRequest e req).Peeks := ⟨rfl, h.excl, h.debug⟩
  obtain ⟨h1, hr⟩ := readPte_peeks (e := e) hw ((m.ctrl &&& MMUCR.PGD) + (bits32 req.addr 31 24 <<< 2))
  unfold walk
  dsimp only
  split
  · rfl
  · split <;> rename_i he1 <;> rw [he1] at h1 hr
    · rename_i pte1 r1 env1
      split
      · exact h1
      · obtain ⟨h2, -⟩ := readPte_peeks (e := env1) hr
          (pageAlign pte1 + (bits32 req.addr 23 13 <<< 2))
        split <;> rename_i he2 <;> rw [he2] at h2
        · split <;> exact h2.trans h1
        · exact h2.trans h1
    · exact h1

/-- A debugger translates without a trace. -/
theorem translate_peeks (m : Mmu) (h : req.Peeks) :
    (m.translate e req).2.1 = m ∧ (m.translate e req).2.2.1 = e := by
  unfold translate
  rw [h.debug, if_pos rfl]
  dsimp only
  split
  · unfold hit
    dsimp only
    rw [h.debug, if_pos rfl]
    exact ⟨rfl, rfl⟩
  · split
    · exact ⟨rfl, rfl⟩
    · have hw := walk_peeks (e := e) m h
      split <;> rename_i he <;> rw [he] at hw
      · exact ⟨rfl, hw⟩
      · refine ⟨?_, hw⟩
        unfold refill
        dsimp only
        rw [h.debug, Bool.not_true, Bool.and_false, if_neg Bool.false_ne_true, if_pos rfl]

end Mmu

/-! ## Chunks -/

namespace Gdb

variable {g : Gdb Memory} {size : Nat}

/-- The stub over other memory and with another page cache. -/
def holding (g : Gdb Memory) (mem : Nat → U8) (tlb : U32 → U32) : Gdb Memory :=
  { g.withEnv (Memory.withMem g.cpu.env mem) with tlb := tlb }

@[simp] theorem holding_self (g : Gdb Memory) : g.holding g.cpu.env.world.mem g.tlb = g := rfl

/-- A big-endian port over the memory of the simulator. -/
structure OfSize (size : Nat) (g : Gdb Memory) : Prop where
  port : Memory.OfSize size g.cpu.env
  endian : g.cpu.env.endian = .big

theorem OfSize.holding (h : OfSize size g) (mem : Nat → U8) (tlb : U32 → U32) :
    OfSize size (g.holding mem tlb) where
  port := ⟨h.port.dataPtr, h.port.dataStart, h.port.dataEnd, h.port.insnPtr, h.port.insnStart,
    h.port.insnEnd, h.port.size⟩
  endian := h.endian

theorem OfSize.moves (h : OfSize size g) {req : Request} (he : req.endian = .big)
    (hx : req.excl = false) (hin : req.addr.toNat + req.size ≤ size) :
    ∃ data n w, g.cpu.env.convertAndTransact req =
      (.success, { req with data := data, cycles := n }, { g.cpu.env with world := w }) ∧
      Memory.Moves req g.cpu.env.world .success data w := by
  obtain ⟨hm, henv⟩ := Memory.access_inside h.port hx hin
  obtain ⟨data, n, ha⟩ := Env.access_answers g.cpu.env req
  rw [Env.convertAndTransact_direct (by rw [he, h.endian]; exact fun hc => hc.2 rfl)]
  generalize g.cpu.env.access req = x at hm henv ha
  obtain ⟨resp, r, e⟩ := x
  dsimp only at hm henv ha
  have hs := hm.success
  rw [hs, ha] at hm
  refine ⟨data, n, e.world, ?_, hm⟩
  rw [hs, ha, henv]

theorem memRead_eq (h : OfSize size g) {phys : U32} {n : Nat} (hin : phys.toNat + n ≤ size) :
    g.memRead phys n = .ok (readBytes g.cpu.env.world.mem phys.toNat n, g) := by
  obtain ⟨data, k, w, hc, hm⟩ := h.moves (show ({ g.dataRequest true phys with
    endian := .big, data := g.cpu.env.garbage n, size := n } : Request).endian = .big from rfl) rfl hin
  obtain ⟨hd, hw⟩ := hm.read rfl
  unfold memRead
  rw [hc, hd, hw]
  rfl

theorem memWrite_eq (h : OfSize size g) {phys : U32} {bytes : List U8}
    (hin : phys.toNat + bytes.length ≤ size) : g.memWrite phys bytes =
      .ok (g.holding (writeBytes g.cpu.env.world.mem phys.toNat bytes) g.tlb) := by
  obtain ⟨data, k, w, hc, hm⟩ := h.moves (show ({ g.dataRequest false phys with
    endian := .big, data := bytes, size := bytes.length } : Request).endian = .big from rfl) rfl hin
  have hw := hm.write rfl
  rw [List.take_length] at hw
  unfold memWrite
  rw [hc, hw]
  rfl

/-! ## Translations -/

/-- A debugger's translation leaves the stub as it is. -/
theorem translateDmmu_snd {req : Request} (h : req.Peeks) : (g.translateDmmu req).2.1 = g := by
  obtain ⟨hm, he⟩ := Mmu.translate_peeks (e := g.cpu.env) g.cpu.dmmu h
  unfold translateDmmu
  dsimp only
  rw [hm, he]
  rfl

theorem translateImmu_snd {req : Request} (h : req.Peeks) : (g.translateImmu req).2.1 = g := by
  obtain ⟨hm, he⟩ := Mmu.translate_peeks (e := g.cpu.env) g.cpu.immu h
  unfold translateImmu
  dsimp only
  rw [hm, he]
  rfl

theorem translate_snd (g : Gdb Memory) (addr : U32) : (g.translate addr).2 = g := by
  have hq : (g.dataRequest true addr).Peeks := ⟨rfl, rfl, rfl⟩
  have hd : (g.tryDmmu (g.dataRequest true addr)).2.1 = g ∧
      (g.tryDmmu (g.dataRequest true addr)).2.2.Peeks := by
    have hf := Mmu.translate_fields g.cpu.dmmu g.cpu.env (g.dataRequest true addr)
    unfold tryDmmu
    split
    · exact ⟨translateDmmu_snd hq, hf.read, hf.excl, hf.debug⟩
    · exact ⟨rfl, hq⟩
  rw [translate_eq]
  split
  · rfl
  · generalize g.tryDmmu (g.dataRequest true addr) = x at hd
    obtain ⟨res, g', req⟩ := x
    obtain ⟨rfl, hp⟩ := hd
    have hi : (g'.tryImmu req).2.1 = g' := by
      unfold tryImmu
      split
      · exact translateImmu_snd hp
      · rfl
    unfold afterDmmu
    dsimp only
    split
    · rfl
    · split <;> exact hi

/-! ## Pages -/

/-- Where the bytes of a page in frames of memory are. -/
def place (frame : U32 → BitVec 19) (addr : U32) : U32 :=
  mkAddr ((frame (pageNumber addr)).setWidth 32) (pageOffset addr)

theorem toNat_pageNumber (addr : U32) : (pageNumber addr).toNat = addr.toNat / 0x2000 := by
  unfold pageNumber
  rw [BitVec.toNat_ushiftRight, Nat.shiftRight_eq_div_pow]

theorem toNat_pageOffset (addr : U32) : (pageOffset addr).toNat = addr.toNat % 0x2000 := by
  unfold pageOffset
  rw [BitVec.toNat_and]
  exact Nat.and_two_pow_sub_one_eq_mod addr.toNat 13

theorem toNat_place (frame : U32 → BitVec 19) (addr : U32) : (place frame addr).toNat =
    (frame (pageNumber addr)).toNat * 0x2000 + addr.toNat % 0x2000 := by
  have hf := (frame (pageNumber addr)).isLt
  have hs : ((frame (pageNumber addr)).setWidth 32 <<< 13).toNat =
      (frame (pageNumber addr)).toNat <<< 13 := by
    rw [BitVec.toNat_shiftLeft, BitVec.toNat_setWidth, Nat.shiftLeft_eq]
    omega
  unfold place mkAddr
  rw [BitVec.toNat_or, hs, toNat_pageOffset, ← Nat.shiftLeft_add_eq_or_of_lt (by omega),
    Nat.shiftLeft_eq]

theorem pageNumber_place (frame : U32 → BitVec 19) (addr : U32) :
    pageNumber (place frame addr) = (frame (pageNumber addr)).setWidth 32 := by
  have hf := (frame (pageNumber addr)).isLt
  apply BitVec.eq_of_toNat_eq
  rw [toNat_pageNumber, toNat_place, BitVec.toNat_setWidth]
  omega

theorem toNat_offset_place (frame : U32 → BitVec 19) (addr : U32) :
    (pageOffset (place frame addr)).toNat = addr.toNat % 0x2000 := by
  rw [toNat_pageOffset, toNat_place]
  omega

/-- Up to the end of its page an address moves with its place. -/
theorem toNat_place_add (frame : U32 → BitVec 19) {addr : U32} {j : Nat}
    (hj : addr.toNat % 0x2000 + j < 0x2000) :
    (place frame (addr + BitVec.ofNat 32 j)).toNat = (place frame addr).toNat + j := by
  have ha := addr.isLt
  have hadd : (addr + BitVec.ofNat 32 j).toNat = addr.toNat + j := by
    rw [BitVec.toNat_add, BitVec.toNat_ofNat]
    omega
  have hp : pageNumber (addr + BitVec.ofNat 32 j) = pageNumber addr := by
    apply BitVec.eq_of_toNat_eq
    rw [toNat_pageNumber, toNat_pageNumber, hadd]
    omega
  rw [toNat_place, toNat_place, hp, hadd]
  omega

/-- Within the size of a page no two addresses have one place. -/
theorem place_injective {frame : U32 → BitVec 19} {addr : U32} {i j : Nat} (hi : i < 0x2000)
    (hj : j < 0x2000) (h : place frame (addr + BitVec.ofNat 32 i) =
      place frame (addr + BitVec.ofNat 32 j)) : i = j := by
  have hn := congrArg (fun p : U32 => p.toNat % 0x2000) h
  rw [toNat_place, toNat_place, BitVec.toNat_add, BitVec.toNat_add, BitVec.toNat_ofNat,
    BitVec.toNat_ofNat] at hn
  omega

theorem chunk_spec (phys : U32) {l : Nat} (hl : 0 < l) : 0 < chunk phys l ∧ chunk phys l ≤ l ∧
    (pageOffset phys).toNat + chunk phys l ≤ 0x2000 := by
  have ho := Nat.mod_lt phys.toNat (show 0 < 0x2000 by decide)
  rw [← toNat_pageOffset] at ho
  unfold chunk gdbRdbufSize rspMaxPacketSize
  omega

/-! ## Ranges -/

/-- The `i`th address of a range, in memory. -/
def target (frame : U32 → BitVec 19) (addr : U32) (i : Nat) : Nat :=
  (place frame (addr + BitVec.ofNat 32 i)).toNat

/-- A range that the stub finds in memory, page by page: in its page cache, or by a translation that
does not depend on what the range holds. -/
structure Mapped (size : Nat) (frame : U32 → BitVec 19) (addr : U32) (len : Nat) (g : Gdb Memory) :
    Prop where
  cached : ∀ i < len, g.tlb (pageNumber (addr + BitVec.ofNat 32 i)) = 0#32 ∨
    g.tlb (pageNumber (addr + BitVec.ofNat 32 i)) =
      (frame (pageNumber (addr + BitVec.ofNat 32 i))).setWidth 32
  translated : ∀ i < len, g.tlb (pageNumber (addr + BitVec.ofNat 32 i)) = 0#32 →
    ∀ mem, (∀ b, (∀ j < len, b ≠ target frame addr j) → mem b = g.cpu.env.world.mem b) →
      ((g.holding mem g.tlb).translate (addr + BitVec.ofNat 32 i)).1 =
        some (place frame (addr + BitVec.ofNat 32 i))
  inside : ∀ i < len, target frame addr i < size

section Ranges

variable {g' : Gdb Memory} {frame : U32 → BitVec 19} {addr : U32} {len : Nat} {mem : Nat → U8} {tlb : U32 → U32}

/-- What the loops leave in the page cache. -/
def Kept (frame : U32 → BitVec 19) (addr : U32) (len : Nat) (g : Gdb Memory) (tlb : U32 → U32) :
    Prop := ∀ i < len, tlb (pageNumber (addr + BitVec.ofNat 32 i)) =
      g.tlb (pageNumber (addr + BitVec.ofNat 32 i)) ∨
    tlb (pageNumber (addr + BitVec.ofNat 32 i)) =
      (frame (pageNumber (addr + BitVec.ofNat 32 i))).setWidth 32

/-- Memory outside the range is as it was. -/
def Beside (frame : U32 → BitVec 19) (addr : U32) (len : Nat) (g : Gdb Memory) (mem : Nat → U8) :
    Prop := ∀ b, (∀ j < len, b ≠ target frame addr j) → mem b = g.cpu.env.world.mem b

/-- The range is still found when the loops are done. -/
theorem Mapped.after (hm : Mapped size frame addr len g) (hk : Kept frame addr len g g'.tlb)
    (hb : Beside frame addr len g mem) (hc : g'.cpu = (g.holding mem g.tlb).cpu)
    (he : g'.elf = g.elf) : Mapped size frame addr len g' where
  cached i hi := by
    rcases hk i hi with h | h
    · rw [h]
      exact hm.cached i hi
    · exact .inr h
  translated i hi h0 mem' hb' := by
    have h0' : g.tlb (pageNumber (addr + BitVec.ofNat 32 i)) = 0#32 := by
      rcases hk i hi with h | h
      · exact h.symm.trans h0
      · exact (hm.cached i hi).elim id fun h' => h'.trans (h.symm.trans h0)
    have hmem : Beside frame addr len g mem' := fun b hne => by
      rw [hb' b hne, hc]
      exact hb b hne
    have hcpu : (g'.holding mem' g'.tlb).cpu = (g.holding mem' g.tlb).cpu := by
      unfold holding withEnv withCpu
      dsimp only
      rw [hc]
      rfl
    rw [translate_congr (g := g.holding mem' g.tlb) (x := g'.holding mem' g'.tlb) hcpu he]
    exact hm.translated i hi h0' mem' hmem
  inside := hm.inside

/-- An address of the range is found at its place. -/
theorem Mapped.toPhys (hm : Mapped size frame addr len g) (hk : Kept frame addr len g tlb)
    (hb : Beside frame addr len g mem) {i : Nat} (hi : i < len) :
    ∃ tlb', Kept frame addr len g tlb' ∧
      (g.holding mem tlb).toPhys (addr + BitVec.ofNat 32 i) =
        .ok (place frame (addr + BitVec.ofNat 32 i), g.holding mem tlb') := by
  unfold Gdb.toPhys
  dsimp only
  split
  · rename_i hp
    refine ⟨tlb, hk, ?_⟩
    have hf : tlb (pageNumber (addr + BitVec.ofNat 32 i)) =
        (frame (pageNumber (addr + BitVec.ofNat 32 i))).setWidth 32 := by
      rcases hk i hi with h | h
      · exact h.trans ((hm.cached i hi).resolve_left fun h0 => hp (h.trans h0))
      · exact h
    show Outcome.ok (mkAddr (tlb _) _, _) = _
    rw [hf]
    rfl
  · rename_i hp
    have hp : tlb (pageNumber (addr + BitVec.ofNat 32 i)) = 0#32 := not_not.1 hp
    have h0 : g.tlb (pageNumber (addr + BitVec.ofNat 32 i)) = 0#32 := by
      rcases hk i hi with h | h
      · exact h.symm.trans hp
      · exact (hm.cached i hi).elim id fun h' => h'.trans (h.symm.trans hp)
    have ht := hm.translated i hi h0 mem hb
    have hc : (g.holding mem tlb).translate (addr + BitVec.ofNat 32 i) =
        (some (place frame (addr + BitVec.ofNat 32 i)), g.holding mem tlb) := by
      refine Prod.ext ?_ (translate_snd _ _)
      rw [translate_congr (g := g.holding mem g.tlb) (x := g.holding mem tlb) rfl rfl]
      exact ht
    rw [hc]
    refine ⟨_, ?_, rfl⟩
    intro j hj
    rw [pageNumber_place, Function.update_apply]
    split
    · rename_i he
      rw [he]
      exact .inr rfl
    · exact hk j hj

/-! ## The loops -/

/-- A conversion that takes bytes from its data one after the other. -/
structure Splits (convert : Nat → List U8 → Option (List U8 × List U8)) : Prop where
  zero : ∀ data, convert 0 data = some ([], data)
  add : ∀ m n data, convert (m + n) data =
    (convert m data).bind fun x => (convert n x.2).map fun y => (x.1 ++ y.1, y.2)
  length : ∀ n data x, convert n data = some x → x.1.length = n

theorem Splits.some_add {convert : Nat → List U8 → Option (List U8 × List U8)} (hc : Splits convert)
    {m n : Nat} {data w rest : List U8} (h : convert (m + n) data = some (w, rest)) :
    ∃ w₁ w₂ data₁, w = w₁ ++ w₂ ∧ w₁.length = m ∧ w₂.length = n ∧
      convert m data = some (w₁, data₁) ∧ convert n data₁ = some (w₂, rest) := by
  rw [hc.add] at h
  obtain ⟨⟨w₁, d₁⟩, h₁, h₂⟩ := Option.bind_eq_some_iff.1 h
  obtain ⟨⟨w₂, d₂⟩, h₃, hw⟩ := Option.map_eq_some_iff.1 h₂
  obtain ⟨rfl, rfl⟩ := Prod.mk.inj hw
  exact ⟨w₁, w₂, d₁, rfl, hc.length _ _ _ h₁, hc.length _ _ _ h₃, h₁, h₃⟩

theorem target_add {i l k : Nat}
    (hk : (pageOffset (place frame (addr + BitVec.ofNat 32 i))).toNat + l ≤ 0x2000) (hl : k < l) :
    target frame addr (i + k) = target frame addr i + k := by
  rw [toNat_offset_place] at hk
  unfold target
  rw [BitVec.ofNat_add, ← BitVec.add_assoc]
  exact toNat_place_add frame (by omega)

/-- A chunk ends inside memory. -/
theorem Mapped.chunk_inside (hm : Mapped size frame addr len g) {i l : Nat} (hl : 0 < l)
    (hi : i + l ≤ len)
    (hk : (pageOffset (place frame (addr + BitVec.ofNat 32 i))).toNat + l ≤ 0x2000) :
    target frame addr i + l ≤ size := by
  have hin := hm.inside (i + (l - 1)) (by omega)
  rw [target_add hk (by omega)] at hin
  omega

/-- A chunk of the range: its length, its place, and the page cache once it is found. -/
structure Chunk (frame : U32 → BitVec 19) (addr : U32) (len size : Nat) (g : Gdb Memory)
    (mem : Nat → U8) (tlb : U32 → U32) (i l n : Nat) (tlb' : U32 → U32) : Prop where
  found : (g.holding mem tlb).toPhys (addr + BitVec.ofNat 32 i) =
    .ok (place frame (addr + BitVec.ofNat 32 i), g.holding mem tlb')
  length : chunk (place frame (addr + BitVec.ofNat 32 i)) l = n
  pos : 0 < n
  le : n ≤ l
  shift : ∀ k < n, target frame addr (i + k) = target frame addr i + k
  inside : target frame addr i + n ≤ size
  kept : Kept frame addr len g tlb'

theorem Mapped.chunk (hm : Mapped size frame addr len g) (hb : Beside frame addr len g mem)
    (hk : Kept frame addr len g tlb) {i l : Nat} (hl : 0 < l) (hil : i + l = len) :
    ∃ n tlb', Chunk frame addr len size g mem tlb i l n tlb' := by
  obtain ⟨tlb', hk', hp⟩ := hm.toPhys hk hb (show i < len by omega)
  obtain ⟨hn, hnl, hpage⟩ := chunk_spec (place frame (addr + BitVec.ofNat 32 i)) hl
  exact ⟨_, tlb', hp, rfl, hn, hnl, fun k hk => target_add hpage hk,
    hm.chunk_inside hn (by omega) hpage, hk'⟩

/-- Bytes written to a chunk stay in the range. -/
theorem Chunk.beside {i l n : Nat} {tlb' : U32 → U32} (h : Chunk frame addr len size g mem tlb i l n tlb')
    (hil : i + l = len) (hb : Beside frame addr len g mem) {w : List U8} (hw : w.length = n) :
    Beside frame addr len g (writeBytes mem (target frame addr i) w) := by
  intro b hne
  refine (writeBytes_of_not_mem ?_).trans (hb b hne)
  rw [hw]
  rintro ⟨h1, h2⟩
  have hle := h.le
  refine hne (i + (b - target frame addr i)) (by omega) ?_
  rw [h.shift _ (by omega)]
  omega

section Write

variable {convert : Nat → List U8 → Option (List U8 × List U8)} {i l n fuel : Nat}
  {tlb' : U32 → U32} {data rest w : List U8}

/-- One round of the loop. -/
theorem Chunk.write (h : Chunk frame addr len size g mem tlb i l n tlb') (hs : OfSize size g)
    (hc : convert n data = some (w, rest)) (hw : w.length = n) :
    writeLoop convert (fuel + 1) (addr + BitVec.ofNat 32 i) l data (g.holding mem tlb) =
      writeLoop convert fuel (addr + BitVec.ofNat 32 (i + n)) (l - n) rest
        (g.holding (writeBytes mem (target frame addr i) w) tlb') := by
  have hl : l > 0 := Nat.lt_of_lt_of_le h.pos h.le
  have hin := h.inside
  rw [← hw] at hin
  rw [writeLoop, if_pos hl, h.found, Outcome.ok_bind]
  dsimp only
  rw [h.length, hc]
  dsimp only
  rw [memWrite_eq (hs.holding mem tlb') hin, Outcome.ok_bind, BitVec.ofNat_add, ← BitVec.add_assoc]
  rfl

/-- The loop reads behind its data. -/
theorem Chunk.fault (h : Chunk frame addr len size g mem tlb i l n tlb')
    (hc : convert n data = none) :
    writeLoop convert (fuel + 1) (addr + BitVec.ofNat 32 i) l data (g.holding mem tlb) =
      .fault .badIndex := by
  have hl : l > 0 := Nat.lt_of_lt_of_le h.pos h.le
  rw [writeLoop, if_pos hl, h.found, Outcome.ok_bind]
  dsimp only
  rw [h.length, hc]

end Write

/-- Memory in which the bytes `w` follow each other from the `i`th address of the range on. -/
structure Stored (frame : U32 → BitVec 19) (addr : U32) (i : Nat) (w : List U8)
    (mem mem' : Nat → U8) : Prop where
  inside : ∀ k < w.length, mem' (target frame addr (i + k)) = w.getD k 0#8
  outside : ∀ b, (∀ k < w.length, b ≠ target frame addr (i + k)) → mem' b = mem b

theorem Stored.nil (i : Nat) (mem : Nat → U8) : Stored frame addr i [] mem mem :=
  ⟨fun k h => absurd h (Nat.not_lt_zero k), fun _ _ => rfl⟩

/-- A chunk and what follows it. -/
theorem Stored.append {i : Nat} {w v : List U8} {mem' : Nat → U8}
    (h : Stored frame addr (i + w.length) v (writeBytes mem (target frame addr i) w) mem')
    (hlen : i + w.length + v.length ≤ 0x2000)
    (ht : ∀ k < w.length, target frame addr (i + k) = target frame addr i + k) :
    Stored frame addr i (w ++ v) mem mem' := by
  constructor
  · intro k hk
    rw [List.length_append] at hk
    by_cases hkw : k < w.length
    · -- the rest of the range does not come back to the chunk
      rw [h.outside _ fun j hj he => ?_, ht k hkw]
      · unfold writeBytes
        rw [if_pos (by omega), Nat.add_sub_cancel_left, List.getD_append _ _ _ _ hkw]
      · have := place_injective (by omega) (by omega) (BitVec.eq_of_toNat_eq he)
        omega
    · have hin := h.inside (k - w.length) (by omega)
      rw [show i + w.length + (k - w.length) = i + k by omega] at hin
      rw [hin, List.getD_append_right _ _ _ _ (by omega)]
  · intro b hb
    rw [List.length_append] at hb
    rw [h.outside b fun k hk => ?_, writeBytes_of_not_mem]
    · rintro ⟨h1, h2⟩
      refine hb (b - target frame addr i) (by omega) ?_
      rw [ht _ (by omega)]
      omega
    · rw [Nat.add_assoc]
      exact hb _ (by omega)

/-- The loop of `M` and `X` runs to its end; in a range of a page's size at most it writes every
byte to its place and nothing else. -/
theorem writeLoop_ok {convert : Nat → List U8 → Option (List U8 × List U8)} (hs : OfSize size g)
    (hm : Mapped size frame addr len g) (hc : Splits convert) (fuel : Nat) :
    ∀ (i l : Nat) (data w rest : List U8) (mem : Nat → U8) (tlb : U32 → U32), i + l = len →
      l ≤ fuel → convert l data = some (w, rest) → Beside frame addr len g mem →
      Kept frame addr len g tlb → ∃ mem' tlb',
        writeLoop convert fuel (addr + BitVec.ofNat 32 i) l data (g.holding mem tlb) =
          .ok (g.holding mem' tlb') ∧ Kept frame addr len g tlb' ∧
        (len ≤ 0x2000 → Stored frame addr i w mem mem') := by
  induction fuel with
  | zero =>
    intro i l data w rest mem tlb _ hf hcv _ hk
    obtain rfl : l = 0 := Nat.le_zero.1 hf
    obtain rfl : w = [] := List.eq_nil_of_length_eq_zero (hc.length _ _ _ hcv)
    exact ⟨mem, tlb, rfl, hk, fun _ => .nil i mem⟩
  | succ fuel ih =>
    intro i l data w rest mem tlb hil hf hcv hb hk
    by_cases hl : l = 0
    · subst hl
      obtain rfl : w = [] := List.eq_nil_of_length_eq_zero (hc.length _ _ _ hcv)
      exact ⟨mem, tlb, rfl, hk, fun _ => .nil i mem⟩
    · obtain ⟨n, tlb₁, hn⟩ := hm.chunk hb hk (Nat.pos_of_ne_zero hl) hil
      obtain ⟨j, rfl⟩ := Nat.exists_eq_add_of_le hn.le
      have hpos := hn.pos
      -- the bytes of the chunk and those behind it
      obtain ⟨w₁, w₂, d₁, rfl, hw₁, hw₂, hc₁, hc₂⟩ := hc.some_add hcv
      obtain ⟨mem', tlb', hloop, hk', hst⟩ := ih (i + n) j d₁ w₂ rest _ tlb₁ (by omega) (by omega)
        hc₂ (hn.beside hil hb hw₁) hn.kept
      refine ⟨mem', tlb', ?_, hk', ?_⟩
      · rw [hn.write hs hc₁ hw₁, Nat.add_sub_cancel_left, hloop]
      · rw [← hw₁] at hst hn
        exact fun hlen => (hst hlen).append (by omega) hn.shift

/-- A range that the data does not fill is not written to its end. -/
theorem writeLoop_fault {convert : Nat → List U8 → Option (List U8 × List U8)} (hs : OfSize size g)
    (hm : Mapped size frame addr len g) (hc : Splits convert) (fuel : Nat) :
    ∀ (i l : Nat) (data : List U8) (mem : Nat → U8) (tlb : U32 → U32), i + l = len → l ≤ fuel →
      convert l data = none → Beside frame addr len g mem → Kept frame addr len g tlb → 0 < l →
        writeLoop convert fuel (addr + BitVec.ofNat 32 i) l data (g.holding mem tlb) =
          .fault .badIndex := by
  induction fuel with
  | zero => exact fun i l data mem tlb _ hf _ _ _ hl => absurd hl (by omega)
  | succ fuel ih =>
    intro i l data mem tlb hil hf hcv hb hk hl
    obtain ⟨n, tlb₁, hn⟩ := hm.chunk hb hk hl hil
    obtain ⟨j, rfl⟩ := Nat.exists_eq_add_of_le hn.le
    have hpos := hn.pos
    rw [hc.add] at hcv
    cases hc₁ : convert n data with
    | none => exact hn.fault hc₁
    | some x =>
      obtain ⟨w₁, d₁⟩ := x
      have hw₁ : w₁.length = n := hc.length _ _ _ hc₁
      have hc₂ : convert j d₁ = none := by
        rw [hc₁, Option.bind_some, Option.map_eq_none_iff] at hcv
        exact hcv
      have hj : 0 < j := Nat.pos_of_ne_zero fun hj => by
        rw [hj, hc.zero] at hc₂
        cases hc₂
      rw [hn.write hs hc₁ hw₁, Nat.add_sub_cancel_left]
      exact ih (i + n) j d₁ _ tlb₁ (by omega) (by omega) hc₂ (hn.beside hil hb hw₁) hn.kept hj

/-- The loop of `m` reads every byte from its place. -/
theorem readLoop_ok (hs : OfSize size g) (hm : Mapped size frame addr len g) (fuel : Nat)
    (hb : Beside frame addr len g mem) :
    ∀ (i l : Nat) (tlb : U32 → U32) (text : List U8), i + l = len → l ≤ fuel →
      Kept frame addr len g tlb → ∃ tlb',
        readLoop fuel (addr + BitVec.ofNat 32 i) l (g.holding mem tlb) text =
          .ok (text ++ hexBytes ((List.range l).map fun k => mem (target frame addr (i + k))),
            g.holding mem tlb') ∧ Kept frame addr len g tlb' := by
  induction fuel with
  | zero =>
    intro i l tlb text _ hf hk
    obtain rfl : l = 0 := Nat.le_zero.1 hf
    exact ⟨tlb, by rw [readLoop]; simp [hexBytes], hk⟩
  | succ fuel ih =>
    intro i l tlb text hil hf hk
    by_cases hl : l = 0
    · subst hl
      exact ⟨tlb, by rw [readLoop]; simp [hexBytes], hk⟩
    · obtain ⟨n, tlb₁, hn⟩ := hm.chunk hb hk (Nat.pos_of_ne_zero hl) hil
      obtain ⟨j, rfl⟩ := Nat.exists_eq_add_of_le hn.le
      have hpos := hn.pos
      have hread : readBytes mem (target frame addr i) n =
          (List.range n).map fun k => mem (target frame addr (i + k)) := by
        unfold readBytes
        apply List.map_congr_left
        intro k hk
        rw [hn.shift k (List.mem_range.1 hk)]
      obtain ⟨tlb', hloop, hk'⟩ := ih (i + n) j tlb₁
        (text ++ hexBytes (readBytes mem (target frame addr i) n)) (by omega) (by omega) hn.kept
      refine ⟨tlb', ?_, hk'⟩
      have hmem := memRead_eq (hs.holding mem tlb₁) hn.inside
      rw [readLoop, if_pos (Nat.pos_of_ne_zero hl), hn.found, Outcome.ok_bind]
      dsimp only
      rw [hn.length, hmem, Outcome.ok_bind]
      dsimp only
      rw [BitVec.add_assoc, ← BitVec.ofNat_add, Nat.add_sub_cancel_left]
      refine hloop.trans ?_
      rw [hread, List.range_add, List.map_append, List.map_map]
      unfold hexBytes
      rw [List.flatMap_append, List.append_assoc]
      simp only [Function.comp_def, Nat.add_assoc]

end Ranges

end Gdb

end Or1kiss
