import Or1kiss.Enclosure

/-!
# Paging

On the simulator's memory a page table walk is a function of the bytes of memory (`pte`). A TLB that
holds what the page tables say (`Coherent`) is invisible: a translation ends as the walk alone would
have it (`translate_coherent`), however the TLB came by its entries.
-/

namespace Or1kiss

open Host Bits Outcome Runs

namespace Memory

/-- How far a port reaches: the last address of its direct pointers, and the bytes of its device. -/
structure Extent where
  last : U32
  device : Nat
  deriving DecidableEq, Repr

/-- How far the port reaches now. -/
def extent (e : Env Memory) : Extent := { last := e.dataEnd, device := e.world.dev.size }

/-- A port of that extent, whatever it holds. -/
structure Spans (room : Extent) (e : Env Memory) : Prop where
  dataPtr : e.dataPtr = some 0
  dataStart : e.dataStart = 0#32
  dataEnd : e.dataEnd = room.last
  insnPtr : e.insnPtr = some 0
  insnStart : e.insnStart = 0#32
  insnEnd : e.insnEnd = room.last
  device : e.world.dev.size = room.device
  endian : e.endian = .big
  host : e.hostEndian = .little

variable {room : Extent} {e e' : Env Memory} {req : Request} {a : U32}

theorem Spans.directMemoryPtr (h : Spans room e) (req : Request) : (e.directMemoryPtr req).1 =
    if req.addr ≤ room.last then some req.addr.toNat else none := by
  -- the pointers do not look at the device
  have hlast : lastDirect (room.last.toNat + 1) = room.last := by
    unfold lastDirect
    rw [BitVec.ofNat_add, BitVec.ofNat_toNat, BitVec.setWidth_eq, BitVec.add_sub_cancel]
  have hsize : OfSize (room.last.toNat + 1)
      { e with world := { e.world with dev.size := room.last.toNat + 1 } } :=
    ⟨h.dataPtr, h.dataStart, h.dataEnd.trans hlast.symm, h.insnPtr, h.insnStart,
      h.insnEnd.trans hlast.symm, rfl⟩
  have hp := hsize.directMemoryPtr req
  rwa [hlast] at hp

/-! ## Reading a table -/

/-- The port serves `n` bytes at `a`: by its direct pointer, or because the end of the access, in
32 bits, is in the device. -/
def Reaches (room : Extent) (a : U32) (n : Nat) : Prop :=
  a ≤ room.last ∨ (a + BitVec.ofNat 32 n).toNat ≤ room.device

instance (room : Extent) (a : U32) (n : Nat) : Decidable (Reaches room a n) :=
  inferInstanceAs (Decidable (_ ∨ _))

/-- The word at `a`. -/
def wordAt (room : Extent) (mem : Nat → U8) (a : U32) : Option U32 :=
  if Reaches room a 4 then some (wordLE (readBytes mem a.toNat 4).reverse) else none

/-- The entry that the page tables behind `pgd` hold for the page of `va`. -/
def pte (room : Extent) (mem : Nat → U8) (pgd va : U32) : Option U32 := do
  guard (pgd ≠ 0#32)
  let pte1 ← wordAt room mem (pgd + (bits32 va 31 24 <<< 2))
  guard (pte1 ≠ 0#32)
  let pte2 ← wordAt room mem (pageAlign pte1 + (bits32 va 23 13 <<< 2))
  guard (pte2 ≠ 0#32)
  return pte2

theorem pte_eq_some {mem : Nat → U8} {pgd va pte2 : U32} (h : pte room mem pgd va = some pte2) :
    ∃ pte1, wordAt room mem (pgd + (bits32 va 31 24 <<< 2)) = some pte1 ∧ pte1 ≠ 0#32 ∧
      wordAt room mem (pageAlign pte1 + (bits32 va 23 13 <<< 2)) = some pte2 := by
  obtain ⟨-, -, h⟩ := Option.bind_eq_some_iff.1 h
  obtain ⟨pte1, h1, h⟩ := Option.bind_eq_some_iff.1 h
  obtain ⟨_, hz, h⟩ := Option.bind_eq_some_iff.1 h
  obtain ⟨p, h2, h⟩ := Option.bind_eq_some_iff.1 h
  obtain ⟨_, -, h⟩ := Option.bind_eq_some_iff.1 h
  cases h
  refine ⟨pte1, h1, ?_, h2⟩
  rintro rfl
  cases hz

/-- What a read leaves. -/
structure Answer (room : Extent) (e : Env Memory) (req : Request) (r : Response × Request × Env Memory) :
    Prop where
  resp : r.1 = if Reaches room req.addr req.size then .success else .error
  data : Reaches room req.addr req.size → r.2.1.data = readBytes e.world.mem req.addr.toNat req.size
  port : Spans room r.2.2

/-- A read that is not served by the pointer. -/
theorem transact_answer {w : World Memory} (hr : req.read = true) :
    ((transact req w).resp = if w.dev.size < (req.addr + BitVec.ofNat 32 req.size).toNat then .error
      else .success) ∧
    (¬w.dev.size < (req.addr + BitVec.ofNat 32 req.size).toNat →
      (transact req w).data = readBytes w.mem req.addr.toNat req.size) ∧
    (transact req w).world.dev.size = w.dev.size := by
  unfold transact
  by_cases hs : w.dev.size < (req.addr + BitVec.ofNat 32 req.size).toNat
  · rw [if_pos hs, if_pos hs]
    exact ⟨rfl, fun hn => (hn hs).elim, rfl⟩
  · rw [if_neg hs, if_neg hs, if_pos hr]
    exact ⟨rfl, fun _ => rfl, rfl⟩

theorem Spans.served (h : Spans room e) (hs : e.Served e') (hd : e'.world.dev.size = e.world.dev.size) :
    Spans room e' := by
  obtain ⟨w, x, d, rfl⟩ := hs
  exact ⟨h.dataPtr, h.dataStart, h.dataEnd, h.insnPtr, h.insnStart, h.insnEnd, hd.trans h.device,
    h.endian, h.host⟩

theorem access_answer (h : Spans room e) (hr : req.read = true) : Answer room e req (e.access req) := by
  obtain ⟨n, hn⟩ := directMemoryPtr_snd e req
  have hp := h.directMemoryPtr req
  unfold Env.access
  generalize e.directMemoryPtr req = d at hn hp
  obtain ⟨p, r⟩ := d
  dsimp only at hn hp
  subst hn hp
  by_cases hd : req.addr ≤ room.last
  · have hreach : Reaches room req.addr req.size := .inl hd
    rw [if_pos hd]
    dsimp only
    split
    · unfold Env.exclusiveAccess
      rw [if_pos hr]
      exact ⟨(if_pos hreach).symm, fun _ => rfl, h.served ⟨_, _, _, rfl⟩ rfl⟩
    · exact ⟨(if_pos hreach).symm, fun _ => rfl, h⟩
  · rw [if_neg hd]
    dsimp only
    have hr' : ({ req with cycles := n, endian := e.endian } : Request).read = true := hr
    obtain ⟨hresp, hdata, hsize⟩ := transact_answer (w := e.world) hr'
    have hreach : Reaches room req.addr req.size ↔
        ¬e.world.dev.size < (req.addr + BitVec.ofNat 32 req.size).toNat := by
      rw [Nat.not_lt, h.device]
      exact ⟨fun h => h.resolve_left hd, .inr⟩
    refine ⟨hresp.trans ?_, fun hc => hdata (hreach.1 hc), h.served ⟨_, e.exclAddr, e.exclData, rfl⟩ hsize⟩
    rw [if_congr hreach rfl rfl, ite_not]

/-- The bytes beyond a word are not part of it. -/
theorem wordLE_append {xs ys : List U8} (h : xs.length = 4) : wordLE (xs ++ ys) = wordLE xs := by
  have hw := wordLE_append_setWidth xs ys (n := 32) (by omega)
  rwa [BitVec.setWidth_eq, BitVec.setWidth_eq] at hw

theorem readPte_wordAt (h : Spans room e) (hr : req.read = true) (he : req.endian = .little) :
    (if (Mmu.readPte e req a).1 = .success then some (Mmu.readPte e req a).2.1 else none) =
      wordAt room e.world.mem a ∧ ((Mmu.readPte e req a).1 = .success ∨ (Mmu.readPte e req a).1 = .error) ∧
      Spans room (Mmu.readPte e req a).2.2.2 ∧ (Mmu.readPte e req a).2.2.1.endian = .little := by
  let q : Request := { req with addr := a, data := e.garbage 4, size := 4 }
  have hc : q.size > 1 ∧ q.endian ≠ e.endian := by
    refine ⟨show (4 : Nat) > 1 by decide, ?_⟩
    rw [show q.endian = .little from he, h.endian]
    nofun
  have ha : Answer room e (e.swapped q) (e.access (e.swapped q)) := access_answer h hr
  have hresp : (e.access (e.swapped q)).1 = if Reaches room a 4 then .success else .error := ha.resp
  have hend : (Mmu.readPte e req a).2.2.1.endian = .little := by
    obtain ⟨d, n, hq⟩ := Env.convertAndTransact_answers e q
    show (e.convertAndTransact q).2.1.endian = .little
    rw [hq]
    exact he
  have hres : (Mmu.readPte e req a).1 = (e.access (e.swapped q)).1 :=
    congrArg Prod.fst (Env.convertAndTransact_swapped hc)
  have henv : (Mmu.readPte e req a).2.2.2 = (e.access (e.swapped q)).2.2 :=
    congrArg (fun r => r.2.2) (Env.convertAndTransact_swapped hc)
  have hval : Reaches room a 4 → (Mmu.readPte e req a).2.1 =
      wordLE (readBytes e.world.mem a.toNat 4).reverse := fun hre => by
    have hdata : (e.access (e.swapped q)).2.1.data = readBytes e.world.mem a.toNat 4 := ha.data hre
    show ofBytes (e.convertAndTransact q).2.2.hostEndian (e.convertAndTransact q).2.1.data = _
    rw [Env.convertAndTransact_swapped hc]
    dsimp only
    rw [ha.port.host]
    show wordLE (memcpyswp q.data (e.access (e.swapped q)).2.1.data 4) = _
    rw [hdata]
    exact wordLE_append (List.length_reverse ..)
  rw [hres, hresp, henv]
  unfold wordAt
  by_cases hre : Reaches room a 4
  · rw [if_pos hre, if_pos hre, if_pos rfl, hval hre]
    exact ⟨rfl, .inl rfl, ha.port, hend⟩
  · rw [if_neg hre, if_neg hre, if_neg nofun]
    exact ⟨rfl, .inr rfl, ha.port, hend⟩

/-- A walk reads the page tables. -/
theorem walk_pte {m : Mmu} (h : Spans room e) (req : Request) :
    (m.walk e req).1.map Prod.fst = pte room e.world.mem (m.ctrl &&& MMUCR.PGD) req.addr := by
  have hr : (Mmu.walkRequest e req).read = true := rfl
  have he : (Mmu.walkRequest e req).endian = .little := h.host
  obtain ⟨hw1, hs1, hp1, he1⟩ := readPte_wordAt (a := (m.ctrl &&& MMUCR.PGD) +
    (bits32 req.addr 31 24 <<< 2)) h hr he
  have hm1 := Mmu.readPte_mem e honest hr ((m.ctrl &&& MMUCR.PGD) + (bits32 req.addr 31 24 <<< 2))
  have hr1 := Mmu.readPte_read e (Mmu.walkRequest e req) ((m.ctrl &&& MMUCR.PGD) + (bits32 req.addr 31 24 <<< 2))
  unfold pte Mmu.walk
  dsimp only
  by_cases hz : m.ctrl &&& MMUCR.PGD = 0#32
  · rw [if_pos hz]
    simp [hz]
  · rw [if_neg hz, ← hw1]
    have hg : guard (m.ctrl &&& MMUCR.PGD ≠ 0#32) = some () := if_pos hz
    generalize Mmu.readPte e (Mmu.walkRequest e req) ((m.ctrl &&& MMUCR.PGD) +
      (bits32 req.addr 31 24 <<< 2)) = r at hs1 hp1 he1 hm1 hr1
    obtain ⟨resp, pte1, q, e1⟩ := r
    dsimp only at hs1 hp1 he1 hm1 hr1
    rw [hg]
    rcases hs1 with rfl | rfl
    · dsimp only
      by_cases hz1 : pte1 = 0#32
      · rw [if_pos hz1]
        simp [hz1]
      · obtain ⟨hw2, hs2, -, -⟩ := readPte_wordAt (a := pageAlign pte1 + (bits32 req.addr 23 13 <<< 2))
          hp1 (hr1.trans hr) he1
        have hg1 : guard (pte1 ≠ 0#32) = some () := if_pos hz1
        rw [if_neg hz1, if_pos rfl, Option.bind_eq_bind, Option.bind_some, Option.bind_eq_bind,
          Option.bind_some, hg1, ← hm1, ← hw2]
        generalize Mmu.readPte e1 q (pageAlign pte1 + (bits32 req.addr 23 13 <<< 2)) = r at hs2
        obtain ⟨resp, pte2, q2, e2⟩ := r
        dsimp only at hs2
        rcases hs2 with rfl | rfl
        · dsimp only
          by_cases hz2 : pte2 = 0#32
          · simp [hz2]
          · simp [hz2]
        · rfl
    · rfl

end Memory

/-! ## The TLB as a cache -/

namespace Mmu

variable {room : Memory.Extent} {e : Env Memory} {m m' : Mmu} {mem : Nat → U8} {req : Request}

/-- What the page tables say to a data access: the result, and the physical address. -/
def plain (m : Mmu) (room : Memory.Extent) (mem : Nat → U8) (req : Request) : MmuResult × U32 :=
  match Memory.pte room mem (m.ctrl &&& MMUCR.PGD) req.addr with
  | none => (.tlbMiss, req.addr)
  | some pte2 =>
    if test pte2 (accessMask req) then (.okay, pageAlign pte2 ||| pageOffset req.addr)
    else (.pageFault, req.addr)

/-- The TLB holds what the page tables say. -/
structure Coherent (m : Mmu) (room : Memory.Extent) (mem : Nat → U8) : Prop where
  walks : test m.cfg MMUCFG.HTR = true
  entries : ∀ va way, way < m.numWays → m.matching va way = true →
    ∃ pte2, Memory.pte room mem (m.ctrl &&& MMUCR.PGD) va = some pte2 ∧
      m.transReg way (m.setOf va) &&& transMask = (pte2 ||| MMUPTE.CC) &&& transMask

theorem Coherent.alike (h : m.Coherent room mem) (ha : Alike m m') : m'.Coherent room mem where
  walks := by
    rw [ha.cfg]
    exact h.walks
  entries va way hw hm := by
    rw [ha.numWays] at hw
    rw [ha.matching] at hm
    rw [ha.transReg, ha.ctrl]
    exact h.entries va way hw hm

/-- The page tables say one thing about a page. -/
theorem pte_congr {pgd a b : U32} (h : pageAlign a = pageAlign b) :
    Memory.pte room mem pgd a = Memory.pte room mem pgd b := by
  obtain ⟨h1, h2⟩ := bits32_congr (pageNumber_congr h)
  unfold Memory.pte
  rw [h1, h2]

theorem Coherent.refilled {pte2 : U32} {way : Nat} (h : m.Coherent room e.world.mem)
    (hp : Memory.Spans room e) (hi : req.imem = false) (hr : Refilled m e req pte2 way m') :
    m'.Coherent room e.world.mem where
  walks := by
    rw [hr.cfg]
    exact h.walks
  entries va way' hw hm := by
    have hways : m'.numWays = m.numWays := by
      unfold numWays
      rw [hr.cfg]
    rw [hways] at hw
    rw [hr.ctrl]
    rcases hr.matching hm with ⟨hold, ht⟩ | ⟨hva, ht⟩
    · rw [ht]
      exact h.entries va way' hw hold
    · obtain ⟨n, hn⟩ := hr.walked
      refine ⟨pte2, ?_, ?_⟩
      · rw [pte_congr hva, ← Memory.walk_pte hp req, hn]
        rfl
      · rw [ht]
        unfold refillTrans
        rw [hi]
        rfl

/-- What a refused translation ends with: a fault where there is an entry without the right, in the
TLB or in the page tables. -/
theorem translate_refused (hd : req.debug = false) (hh : test m.cfg MMUCFG.HTR = true)
    (hr : (m.translate e req).1 ≠ .okay) :
    ((m.translate e req).1 = if (m.hitWay req.addr).isSome ∨ (m.walk e req).1.isSome then .pageFault
      else .tlbMiss) ∧
    (m.hitWay req.addr = none → ∀ pte2 n, (m.walk e req).1 = some (pte2, n) →
      test (refillTrans pte2 req) (accessMask req) = false) := by
  have ha : Alike m (m.age (m.setOf req.addr)) := alike_age (m.setOf_lt req.addr)
  revert hr
  unfold translate
  rw [hd, if_neg Bool.false_ne_true, ← ha.hitWay rfl, ← walk_alike ha]
  dsimp only
  split
  · rename_i way hw
    rw [hw, if_pos (.inl rfl)]
    unfold hit
    rw [hd, if_neg Bool.false_ne_true]
    dsimp only
    split
    · exact fun _ => ⟨rfl, nofun⟩
    · exact fun hr => (hr rfl).elim
  · rename_i hw
    rw [hw, ha.cfg, hh]
    simp only [Bool.not_true, Bool.false_and, Bool.false_eq_true, if_false]
    split
    · rename_i env hwalk
      rw [hwalk]
      exact fun _ => ⟨rfl, fun _ _ _ => nofun⟩
    · rename_i pte2 cycles env hwalk
      rw [hwalk]
      unfold refill
      dsimp only
      have ht : (if (req.imem && test pte2 MMUPTE.EXEC) = true then
          pte2 ||| MMUPTE.CC ||| (MMU.SXE ||| MMU.UXE) else pte2 ||| MMUPTE.CC) =
          refillTrans pte2 req := rfl
      rw [hd, ht]
      cases htest : test (refillTrans pte2 req) (accessMask req) with
      | false =>
        refine fun _ => ⟨rfl, fun _ pte n hpte => ?_⟩
        cases hpte
        exact htest
      | true => exact fun hr => (hr rfl).elim

/-- The attribute that a refill adds is no right. -/
theorem accessMask_coherent (req : Request) : MMUPTE.CC &&& accessMask req = 0#32 := by
  unfold accessMask
  split_ifs <;> decide

/-- A TLB that holds what the page tables say is invisible, and stays so. -/
theorem translate_coherent (h : m.Coherent room e.world.mem) (hp : Memory.Spans room e)
    (hd : req.debug = false) (hi : req.imem = false) :
    ((m.translate e req).1, (m.translate e req).2.2.2.addr) = m.plain room e.world.mem req ∧
      (m.translate e req).2.1.Coherent room e.world.mem := by
  constructor
  · have hpte := Memory.walk_pte hp (m := m) req
    have ht := m.translate_translated e hd
    have href := translate_refused (e := e) hd h.walks
    have hcc : MMUPTE.CC &&& accessMask req = 0#32 := accessMask_coherent req
    have hentry : ∀ way, m.hitWay req.addr = some way → ∃ pte2,
        Memory.pte room e.world.mem (m.ctrl &&& MMUCR.PGD) req.addr = some pte2 ∧
          test (m.transReg way (m.setOf req.addr)) (accessMask req) = test pte2 (accessMask req) ∧
          pageAlign (m.transReg way (m.setOf req.addr)) = pageAlign pte2 := fun way hw => by
      obtain ⟨pte2, hpte, htr⟩ := h.entries req.addr way
        (List.mem_range.1 (List.mem_of_find?_eq_some hw)) (List.find?_some hw)
      refine ⟨pte2, hpte, ?_, ?_⟩
      · rw [test_congr (accessMask_transMask req) htr]
        exact test_congr BitVec.and_self (or_and_of_disjoint hcc)
      · rw [← pageAlign_transMask, htr, pageAlign_transMask, pageAlign_accessed _ _ (by decide)]
    generalize m.translate e req = r at ht href
    cases ht with
    | refused res m' env' hne ha hw =>
      obtain ⟨hres, hwalk⟩ := href hne
      dsimp only at hres
      show (res, req.addr) = _
      unfold plain
      cases hhit : m.hitWay req.addr with
      | some way =>
        obtain ⟨pte2, hpte2, htest, -⟩ := hentry way hhit
        rw [hhit, if_pos (.inl rfl)] at hres
        rw [hpte2, hres]
        dsimp only
        rw [← htest, hw way hhit, if_neg Bool.false_ne_true]
      | none =>
        cases hwk : (m.walk e req).1 with
        | none =>
          rw [hhit, hwk] at hres
          rw [hwk] at hpte
          rw [← hpte, hres]
          rfl
        | some p =>
          obtain ⟨pte2, n⟩ := p
          have htest := hwalk hhit pte2 n hwk
          rw [test_congr BitVec.and_self (refillTrans_data hi hcc)] at htest
          rw [hwk, if_pos (.inr rfl)] at hres
          rw [hwk] at hpte
          rw [← hpte, hres]
          dsimp only [Option.map_some]
          rw [htest, if_neg Bool.false_ne_true]
    | hit way m' req' hw hp hx ha =>
      obtain ⟨pte2, hpte2, htest, hpage⟩ := hentry way hw
      show (MmuResult.okay, req'.addr) = _
      unfold plain
      rw [hpte2]
      dsimp only
      rw [← htest, if_pos hp, hx, hpage]
    | refill pte2 way m' env' req' hw hp hx hr =>
      obtain ⟨n, hn⟩ := hr.walked
      rw [hn] at hpte
      show (MmuResult.okay, req'.addr) = _
      unfold plain
      rw [← hpte]
      dsimp only [Option.map_some]
      rw [test_congr BitVec.and_self (refillTrans_data hi hcc)] at hp
      rw [if_pos hp, hx, pageAlign_refillTrans]
  · rcases m.translate_entries e req with ha | ⟨pte2, way, hr⟩
    · exact h.alike ha
    · exact h.refilled hp hi hr

end Mmu

/-! ## Page tables behind the MMU -/

/-- Page tables that are out of reach of user mode: they do not depend on the frames, and let user
mode write to frames only. -/
structure Tables (room : Memory.Extent) (W : U32 → Prop) (mem : Nat → U8) (pgd : U32) : Prop where
  apart : ∀ mem', (∀ b, ¬InFrames W b → mem' b = mem b) → ∀ va,
    Memory.pte room mem' pgd va = Memory.pte room mem pgd va
  writable : ∀ va pte2, Memory.pte room mem pgd va = some pte2 → test pte2 MMU.UWE = true →
    W (pageAlign pte2)

namespace Mmu

variable {room : Memory.Extent} {W : U32 → Prop} {e e' : Env Memory} {m m' : Mmu} {mem mem' : Nat → U8}
  {req : Request}

theorem Coherent.congr (h : m.Coherent room mem)
    (hm : ∀ va, Memory.pte room mem' (m.ctrl &&& MMUCR.PGD) va = Memory.pte room mem (m.ctrl &&& MMUCR.PGD) va) :
    m.Coherent room mem' := by
  refine ⟨h.walks, fun va way hw hmt => ?_⟩
  rw [hm]
  exact h.entries va way hw hmt

theorem plain_congr (hm : ∀ va, Memory.pte room mem' (m.ctrl &&& MMUCR.PGD) va =
    Memory.pte room mem (m.ctrl &&& MMUCR.PGD) va)
    (hc : m'.ctrl &&& MMUCR.PGD = m.ctrl &&& MMUCR.PGD) :
    m'.plain room mem' req = m.plain room mem req := by
  unfold plain
  rw [hc, hm]

/-- A data access translates as it did when the port was `e`. -/
theorem translate_paged {pgd : U32} (hp : Memory.Spans room e) (ht : Tables room W e.world.mem pgd)
    (hc : m.ctrl &&& MMUCR.PGD = pgd) (h : m.Coherent room e.world.mem) (hs : Later e e')
    (hk : KeepsOutside W e e') (hd : req.debug = false) (hi : req.imem = false) :
    ((m.translate e' req).1, (m.translate e' req).2.2.2.addr) = m.plain room e.world.mem req ∧
      (m.translate e' req).2.1.Coherent room e.world.mem := by
  subst hc
  have hpte := ht.apart e'.world.mem hk
  have hctrl : (m.translate e' req).2.1.ctrl = m.ctrl := Or1k.translate_ctrl m e' req
  obtain ⟨hr, hcoh⟩ := translate_coherent (h.congr hpte) (hp.served hs.served hs.size) hd hi
  rw [plain_congr hpte rfl] at hr
  refine ⟨hr, hcoh.congr fun va => ?_⟩
  rw [hctrl]
  exact (hpte va).symm

/-- The fence that page tables and a TLB that agrees with them put up. -/
def paging (room : Memory.Extent) (W : U32 → Prop) (e : Env Memory) (pgd : U32) (hp : Memory.Spans room e)
    (ht : Tables room W e.world.mem pgd) : Fence where
  frames := W
  port := e
  holds m := m.ctrl &&& MMUCR.PGD = pgd ∧ m.Coherent room e.world.mem
  direct := ⟨hp.dataPtr, hp.dataStart⟩
  translate m e' req h hs hk hi := by
    refine ⟨?_, ?_⟩
    · rw [Or1k.translate_ctrl]
      exact h.1
    · cases hd : req.debug with
      | true =>
        rw [translate_debug hd]
        exact h.2
      | false => exact (translate_paged hp ht h.1 h.2 hs hk hd hi).2
  store m e' req h hs hk hd hi hr hu ho := by
    have hplain := (translate_paged hp ht h.1 h.2 hs hk hd hi).1
    have hmask : accessMask req = MMU.UWE := by
      unfold accessMask
      rw [hd, hi, hr, hu]
      rfl
    unfold plain at hplain
    rw [h.1, hmask] at hplain
    split at hplain
    · rw [ho] at hplain
      cases hplain
    · rename_i pte2 hpte
      split at hplain
      · rename_i hw
        have haddr : (m.translate e' req).2.2.2.addr = pageAlign pte2 ||| pageOffset req.addr :=
          congrArg Prod.snd hplain
        rw [haddr, pageAlign_or_offset]
        exact ht.writable _ pte2 hpte hw
      · rw [ho] at hplain
        cases hplain

end Mmu

namespace Machine

open Or1k Or1kiss.Core

variable [HostLib] {m m₀ : Machine Memory} {W : U32 → Prop}

/-- In user mode, behind page tables that it cannot write to, the TLB is invisible: if it agrees with
the page tables, then at the end of every run without an exception, and behind the entry of the
first one, each data access is translated as the page tables were before the run. -/
theorem user_paged {size n : Nat} {image : Nat → U8}
    (h₀ : system.Run (init (Memory.env size image) n) m₀) (hu : m₀.cpu.isSupervisor = false)
    (hd : m₀.cpu.isDmmuActive = true)
    (ht : Tables (Memory.extent m₀.cpu.env) W m₀.cpu.env.world.mem (m₀.cpu.dmmu.ctrl &&& MMUCR.PGD))
    (hc : m₀.cpu.dmmu.Coherent (Memory.extent m₀.cpu.env) m₀.cpu.env.world.mem)
    {l : List (Move (Machine Memory) (Action Memory))} (h : system.Path m₀ l m)
    (hq : ∀ st ∈ l, st.act.keepsOff = true ∧ st.pre.cpu.taken = m₀.cpu.taken) :
    (∀ b, ¬InFrames W b → m.cpu.env.world.mem b = m₀.cpu.env.world.mem b) ∧
      ∀ req : Request, req.debug = false → req.imem = false →
        ((m.cpu.dmmu.translate m.cpu.env req).1, (m.cpu.dmmu.translate m.cpu.env req).2.2.2.addr) =
          m₀.cpu.dmmu.plain (Memory.extent m₀.cpu.env) m₀.cpu.env.world.mem req := by
  have hport : Memory.Spans (Memory.extent m₀.cpu.env) m₀.cpu.env := by
    obtain ⟨w, a, d, he⟩ := (run_served h₀).env
    rw [he]
    constructor <;> rfl
  obtain ⟨hh, -⟩ := run_fenced (F := Mmu.paging _ W m₀.cpu.env _ hport ht) h₀ hu hd rfl ⟨rfl, hc⟩ h hq
  refine ⟨hh.outside, fun req hd hi => ?_⟩
  rw [(Mmu.translate_paged hport ht hh.mmu.1 hh.mmu.2 hh.env hh.outside hd hi).1]
  exact Mmu.plain_congr (fun _ => rfl) hh.mmu.1

end Machine

namespace Machine

open Or1k

attribute [local instance] HostLib.plain

/-- The word at `a` is not in the frame. -/
def clearOf (frame a : U32) : Bool := isAligned a 4 && pageAlign a != frame

/-- Page tables outside of a frame that let user mode write to that frame at most. -/
def tablesClear (room : Memory.Extent) (mem : Nat → U8) (pgd frame : U32) : Bool :=
  (List.range 256).all fun i =>
    clearOf frame (pgd + (BitVec.ofNat 32 i <<< 2)) &&
      match Memory.wordAt room mem (pgd + (BitVec.ofNat 32 i <<< 2)) with
      | none => true
      | some pte1 => pte1 == 0#32 || (List.range 2048).all fun j =>
        clearOf frame (pageAlign pte1 + (BitVec.ofNat 32 j <<< 2)) &&
          match Memory.wordAt room mem (pageAlign pte1 + (BitVec.ofNat 32 j <<< 2)) with
          | none => true
          | some pte2 => !test pte2 MMU.UWE || pageAlign pte2 == frame

theorem wordAt_clear {room : Memory.Extent} {frame a : U32} {mem mem' : Nat → U8} (h : clearOf frame a = true)
    (hm : ∀ b, ¬InFrames (· = frame) b → mem' b = mem b) :
    Memory.wordAt room mem' a = Memory.wordAt room mem a := by
  have hb : readBytes mem' a.toNat 4 = readBytes mem a.toNat 4 := by
    refine List.map_congr_left fun k hk => hm _ ?_
    rintro ⟨x, hx, hxb⟩
    obtain ⟨hal, hne⟩ := Bool.and_eq_true_iff.1 h
    have hk := List.mem_range.1 hk
    obtain ⟨-, hpage⟩ := page_of_access (.inr (.inr rfl)) hal (Nat.le_add_right a.toNat k)
      (Nat.add_lt_add_left hk a.toNat)
    rw [← hxb, BitVec.ofNat_toNat, BitVec.setWidth_eq] at hpage
    exact bne_iff_ne.1 hne (hpage.symm.trans hx)
  unfold Memory.wordAt
  rw [hb]

theorem tables_of_clear {room : Memory.Extent} {mem : Nat → U8} {pgd frame : U32}
    (h : tablesClear room mem pgd frame = true) : Tables room (· = frame) mem pgd := by
  have hi : ∀ va : U32, ∃ i < 256, bits32 va 31 24 = BitVec.ofNat 32 i := fun va =>
    ⟨(bits32 va 31 24).toNat, by
      unfold bits32
      rw [BitVec.toNat_ushiftRight, Nat.shiftRight_eq_div_pow]
      have hv := (va <<< (31 - 31)).isLt
      omega, by rw [BitVec.ofNat_toNat, BitVec.setWidth_eq]⟩
  have hj : ∀ va : U32, ∃ j < 2048, bits32 va 23 13 = BitVec.ofNat 32 j := fun va =>
    ⟨(bits32 va 23 13).toNat, by
      unfold bits32
      rw [BitVec.toNat_ushiftRight, Nat.shiftRight_eq_div_pow]
      have hv := (va <<< (31 - 23)).isLt
      omega, by rw [BitVec.ofNat_toNat, BitVec.setWidth_eq]⟩
  have hall := List.all_eq_true.1 h
  constructor
  · intro mem' hm va
    obtain ⟨i, hil, hie⟩ := hi va
    obtain ⟨j, hjl, hje⟩ := hj va
    have h1 := hall i (List.mem_range.2 hil)
    obtain ⟨hc1, h2⟩ := Bool.and_eq_true_iff.1 h1
    unfold Memory.pte
    rw [hie, hje, wordAt_clear hc1 hm]
    split at h2
    · rename_i hw
      rw [hw]
      rfl
    · rename_i pte1 hw
      rw [hw]
      by_cases hz : pte1 = 0#32
      · simp [hz]
      · rw [beq_false_of_ne hz, Bool.false_or] at h2
        obtain ⟨hc2, -⟩ := Bool.and_eq_true_iff.1 (List.all_eq_true.1 h2 j (List.mem_range.2 hjl))
        simp only [Option.bind_eq_bind, Option.bind_some]
        rw [wordAt_clear hc2 hm]
  · intro va pte2 hpte hu
    obtain ⟨i, hil, hie⟩ := hi va
    obtain ⟨j, hjl, hje⟩ := hj va
    obtain ⟨-, h2⟩ := Bool.and_eq_true_iff.1 (hall i (List.mem_range.2 hil))
    obtain ⟨pte1, hw1, hz, hw2⟩ := Memory.pte_eq_some hpte
    rw [hie] at hw1
    rw [hje] at hw2
    rw [hw1] at h2
    dsimp only at h2
    rw [beq_false_of_ne hz, Bool.false_or] at h2
    obtain ⟨-, h3⟩ := Bool.and_eq_true_iff.1 (List.all_eq_true.1 h2 j (List.mem_range.2 hjl))
    rw [hw2] at h3
    dsimp only at h3
    rw [hu, Bool.not_true, Bool.false_or] at h3
    exact beq_iff_eq.1 h3

/-- The load of `tlbProgram`, in a memory that ends behind the page tables. -/
theorem user_paged_load : ∃ m₀ m : Machine Memory, system.Run (init (Memory.env 0x4008 (Memory.image tlbProgram)) 0) m₀ ∧
    m₀.next = some m ∧ test (m₀.cpu.dmmu.matchReg 0 0) MMUM.V = false ∧
      test (m.cpu.dmmu.matchReg 0 0) MMUM.V = true ∧
      ∀ req : Request, req.debug = false → req.imem = false →
        ((m.cpu.dmmu.translate m.cpu.env req).1, (m.cpu.dmmu.translate m.cpu.env req).2.2.2.addr) =
          m₀.cpu.dmmu.plain (Memory.extent m₀.cpu.env) m₀.cpu.env.world.mem req := by
  obtain ⟨m₀, hr, hm⟩ := System.exists_run system
    (init (Memory.env 0x4008 (Memory.image tlbProgram)) 0) atLoad
    (fun m => !m.cpu.isSupervisor && m.cpu.isDmmuActive &&
      tablesClear (Memory.extent m.cpu.env) m.cpu.env.world.mem (m.cpu.dmmu.ctrl &&& MMUCR.PGD) 0#32 &&
      test m.cpu.dmmu.cfg MMUCFG.HTR &&
      ((List.range m.cpu.dmmu.numWays).all fun way => (List.range 128).all fun set =>
        !test (m.cpu.dmmu.matchReg way set) MMUM.V) &&
      (m.next).any fun m' : Machine Memory => test (m'.cpu.dmmu.matchReg 0 0) MMUM.V)
    (by decide +kernel)
  simp only [Bool.and_eq_true, Bool.not_eq_true'] at hm
  obtain ⟨⟨⟨⟨⟨hu, hd⟩, ht⟩, hh⟩, he⟩, hm⟩ := hm
  obtain ⟨m, hn, hv⟩ := (Option.any_eq_true _ _).1 hm
  have hempty : ∀ way set, way < m₀.cpu.dmmu.numWays → set < 128 →
      test (m₀.cpu.dmmu.matchReg way set) MMUM.V = false := fun way set hw hs => by
    have hset := List.all_eq_true.1 (List.all_eq_true.1 he way (List.mem_range.2 hw)) set
      (List.mem_range.2 hs)
    simpa using hset
  have hc : m₀.cpu.dmmu.Coherent (Memory.extent m₀.cpu.env) m₀.cpu.env.world.mem := by
    refine ⟨hh, fun va way hw hmt => ?_⟩
    have hoff := hempty way _ hw (m₀.cpu.dmmu.setOf_lt va)
    rw [(Bool.and_eq_true_iff.1 hmt).1] at hoff
    cases hoff
  have hpath : system.Path m₀ [⟨m₀, .run, m⟩] m := .tail .refl hn
  refine ⟨m₀, m, hr, hn, hempty 0 0 ?_ (by decide), hv, ?_⟩
  · unfold Mmu.numWays
    omega
  · exact (user_paged hr hu hd (tables_of_clear ht) hc hpath fun st hst => by
      rw [List.mem_singleton.1 hst]
      exact ⟨rfl, rfl⟩).2

end Machine

end Or1kiss
