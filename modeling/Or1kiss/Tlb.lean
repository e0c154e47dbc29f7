import Mathlib.Tactic.IntervalCases
import Or1kiss.Mmu

/-!
# What the TLB answers

`entry` is what decides a translation: valid bit and page of the match register, and the
translate register without the bits that record accesses. A hit and the aging of a set keep
all entries (`Alike`); a refill replaces one (`Refilled`). `Maps` says that the TLB holds a
translation, and survives as long as the entries do.
-/

namespace Or1kiss

open Bits

/-- Valid bit and page of a match register. -/
abbrev matchMask : U32 := MMUM.V ||| ~~~pageMask

/-- The bits of a translate register that an access does not set. -/
abbrev transMask : U32 := ~~~(MMUPTE.A ||| MMUPTE.D)

/-! ## Pages -/

theorem pageAlign_or_offset (a b : U32) : pageAlign (pageAlign a ||| pageOffset b) = pageAlign a := by
  unfold pageAlign pageOffset
  ext i hi
  simp only [BitVec.getElem_and, BitVec.getElem_or, BitVec.getElem_not]
  cases pageMask[i] <;> simp

theorem pageAlign_or_pageOffset (a : U32) : pageAlign a ||| pageOffset a = a := by
  unfold pageAlign pageOffset
  ext i hi
  simp only [BitVec.getElem_and, BitVec.getElem_or, BitVec.getElem_not]
  cases pageMask[i] <;> simp

theorem pageAlign_eq_iff {a b : U32} : pageCompare a b = true ↔ pageAlign a = pageAlign b := by
  unfold pageCompare pageAlign
  rw [beq_iff_eq]
  have hx : (a ^^^ b) &&& ~~~pageMask = (a &&& ~~~pageMask) ^^^ (b &&& ~~~pageMask) := by
    ext i hi
    simp only [BitVec.getElem_and, BitVec.getElem_xor, BitVec.getElem_not]
    cases pageMask[i] <;> simp
  rw [hx, BitVec.xor_eq_zero_iff]

theorem pageCompare_congr {a b b' : U32} (h : pageAlign b = pageAlign b') :
    pageCompare a b = pageCompare a b' := by
  rw [Bool.eq_iff_iff, pageAlign_eq_iff, pageAlign_eq_iff, h]

theorem pageAlign_idem (a : U32) : pageAlign (pageAlign a) = pageAlign a := by
  unfold pageAlign
  rw [BitVec.and_assoc, BitVec.and_self]

theorem pageNumber_congr {a b : U32} (h : pageAlign a = pageAlign b) :
    pageNumber a = pageNumber b := by
  have hp : ∀ x : U32, pageNumber x = pageAlign x >>> 13 := by
    intro x
    unfold pageNumber pageAlign
    apply BitVec.eq_of_getLsbD_eq
    intro i hi
    simp only [BitVec.getLsbD_ushiftRight, BitVec.getLsbD_and, BitVec.getLsbD_not]
    have hm : i < 19 → pageMask.getLsbD (13 + i) = false := by
      intro h
      interval_cases i <;> decide
    by_cases h19 : i < 19
    · rw [hm h19]
      simp
      omega
    · have hx : x.getLsbD (13 + i) = false := BitVec.getLsbD_of_ge _ _ (by omega)
      rw [hx, Bool.false_and]
  rw [hp, hp, h]

/-- The age of a match register, two bits of it. -/
theorem and_lru3 (x : U32) : x &&& MMUM.LRU3 = (x.extractLsb' 6 2).setWidth 32 <<< 6 := by
  have hbit : ∀ i < 32, MMUM.LRU3.getLsbD i = decide (6 ≤ i ∧ i < 8) := by decide
  apply BitVec.eq_of_getLsbD_eq
  intro i hi
  rw [BitVec.getLsbD_and, hbit i hi, BitVec.getLsbD_shiftLeft, BitVec.getLsbD_setWidth,
    BitVec.getLsbD_extractLsb']
  by_cases h6 : i < 6
  · simp [h6]
  · have hi6 : 6 + (i - 6) = i := by omega
    rw [hi6]
    by_cases h8 : i < 8
    · have : i - 6 < 2 := by omega
      have h32 : i - 6 < 32 := by omega
      have h6' : 6 ≤ i := by omega
      simp [h6, h6', h8, this, hi, h32]
    · have : ¬i - 6 < 2 := by omega
      simp [h8, this]

/-- The age bits of a match register, counted up, stay out of what decides a translation. -/
theorem aged_and_matchMask (x : U32) :
    ((x &&& ~~~MMUM.LRU3) ||| ((x &&& MMUM.LRU3) + MMUM.LRU1)) &&& matchMask = x &&& matchMask := by
  have hage : ((x &&& MMUM.LRU3) + MMUM.LRU1) &&& matchMask = 0#32 := by
    have hall : ∀ z : BitVec 2, ((z.setWidth 32 <<< 6) + MMUM.LRU1) &&& matchMask = 0#32 := by
      decide
    rw [and_lru3, hall]
  have hd : ∀ a b k : U32, (a ||| b) &&& k = (a &&& k) ||| (b &&& k) := fun a b k => by
    ext i hi
    simp [Bool.and_or_distrib_right]
  rw [hd, hage, BitVec.or_zero, BitVec.and_assoc]
  congr 1

namespace Mmu

variable {m m' : Mmu} {req : Request}

/-- What a pair of registers says about translation. -/
def entry (m : Mmu) (way set : Nat) : U32 × U32 :=
  (m.matchReg way set &&& matchMask, m.transReg way set &&& transMask)

/-- Two MMUs that answer alike. -/
structure Alike (m m' : Mmu) : Prop where
  cfg : m'.cfg = m.cfg
  ctrl : m'.ctrl = m.ctrl
  entry : ∀ way set, set < 128 → m'.entry way set = m.entry way set

theorem Alike.refl (m : Mmu) : Alike m m := ⟨rfl, rfl, fun _ _ _ => rfl⟩

theorem Alike.trans {m'' : Mmu} (h : Alike m m') (h' : Alike m' m'') : Alike m m'' :=
  ⟨h'.cfg.trans h.cfg, h'.ctrl.trans h.ctrl, fun way set hs =>
    (h'.entry way set hs).trans (h.entry way set hs)⟩

theorem setOf_lt (m : Mmu) (addr : U32) : m.setOf addr < 128 := by
  have hb : (bits32 m.cfg 4 2).toNat ≤ 7 := by
    unfold bits32
    rw [BitVec.toNat_ushiftRight, Nat.shiftRight_eq_div_pow]
    have h := (m.cfg <<< (31 - 4)).isLt
    omega
  have hn : m.numSets ≤ 128 := by
    unfold numSets
    rw [Nat.shiftLeft_eq, Nat.one_mul]
    exact Nat.pow_le_pow_right (by decide) hb
  have hp : 0 < m.numSets := by
    unfold numSets
    rw [Nat.shiftLeft_eq, Nat.one_mul]
    exact Nat.two_pow_pos _
  unfold setOf setMask
  rw [BitVec.toNat_and, BitVec.toNat_ofNat]
  have h := Nat.and_le_right (n := (pageNumber addr).toNat) (m := (m.numSets - 1) % 2 ^ 32)
  have h' := Nat.mod_le (m.numSets - 1) (2 ^ 32)
  omega

/-! ## Writing registers -/

theorem matchReg_write_match (m : Mmu) (way set way' set' : Nat) (v : U32) :
    (m.write (tlbMR way set) v).matchReg way' set' =
      if tlbMR way' set' = tlbMR way set then v else m.matchReg way' set' := by
  unfold write matchReg
  dsimp only
  rw [Function.update_apply]

theorem transReg_write_trans (m : Mmu) (way set way' set' : Nat) (v : U32) :
    (m.write (tlbTR way set) v).transReg way' set' =
      if tlbTR way' set' = tlbTR way set then v else m.transReg way' set' := by
  unfold write transReg
  dsimp only
  rw [Function.update_apply]

theorem transReg_write_match {way set way' set' : Nat} (hs : set < 128) (hs' : set' < 128)
    (v : U32) : (m.write (tlbMR way set) v).transReg way' set' = m.transReg way' set' := by
  have hne : tlbTR way' set' ≠ tlbMR way set := by
    unfold tlbTR tlbMR
    omega
  unfold write transReg
  dsimp only
  rw [Function.update_of_ne hne]

theorem matchReg_write_trans {way set way' set' : Nat} (hs : set < 128) (hs' : set' < 128)
    (v : U32) : (m.write (tlbTR way set) v).matchReg way' set' = m.matchReg way' set' := by
  have hne : tlbMR way' set' ≠ tlbTR way set := by
    unfold tlbTR tlbMR
    omega
  unfold write matchReg
  dsimp only
  rw [Function.update_of_ne hne]

theorem tlbMR_inj {way set way' set' : Nat} (hs : set < 128) (hs' : set' < 128)
    (h : tlbMR way' set' = tlbMR way set) : way' = way ∧ set' = set := by
  unfold tlbMR at h
  omega

theorem alike_write_match {way set : Nat} {v : U32} (hs : set < 128)
    (hv : v &&& matchMask = m.matchReg way set &&& matchMask) :
    Alike m (m.write (tlbMR way set) v) where
  cfg := rfl
  ctrl := rfl
  entry way' set' hs' := by
    unfold entry
    rw [transReg_write_match hs hs', matchReg_write_match]
    split
    · rename_i h
      obtain ⟨rfl, rfl⟩ := tlbMR_inj hs hs' h
      rw [hv]
    · rfl

theorem alike_write_trans {way set : Nat} {v : U32} (hs : set < 128)
    (hv : v &&& transMask = m.transReg way set &&& transMask) :
    Alike m (m.write (tlbTR way set) v) where
  cfg := rfl
  ctrl := rfl
  entry way' set' hs' := by
    unfold entry
    rw [matchReg_write_trans hs hs', transReg_write_trans]
    split
    · rename_i h
      obtain ⟨rfl, rfl⟩ := tlbMR_inj hs hs' (Nat.add_right_cancel h)
      rw [hv]
    · rfl

/-! ## Aging and hits -/

theorem alike_ageWay {set : Nat} (hs : set < 128) (way : Nat) : Alike m (ageWay set m way) := by
  unfold ageWay
  dsimp only
  split
  · exact alike_write_match hs (aged_and_matchMask _)
  · exact .refl m

theorem alike_age {set : Nat} (hs : set < 128) : Alike m (m.age set) := by
  unfold age
  have h : ∀ (ways : List Nat) (m : Mmu), Alike m (ways.foldl (ageWay set) m) := by
    intro ways
    induction ways with
    | nil => exact fun m => .refl m
    | cons way ways ih => exact fun m => (alike_ageWay hs way).trans (ih _)
  exact h _ m

theorem alike_hit (way : Nat) (req : Request) : Alike m (m.hit way req).2.1 := by
  have hs := m.setOf_lt req.addr
  unfold hit
  dsimp only
  split
  · exact .refl m
  · split
    · exact .refl m
    · refine (alike_write_trans hs ?_).trans (alike_write_match hs ?_)
      · split
        · exact or_and_of_disjoint (by decide)
        · rw [or_and_of_disjoint (by decide)]
          exact or_and_of_disjoint (by decide)
      · rw [matchReg_write_trans hs hs]
        exact and_not_and_of_disjoint (by decide)

/-! ## Lookup -/

theorem Alike.setOf (h : Alike m m') (addr : U32) : m'.setOf addr = m.setOf addr := by
  unfold Mmu.setOf setMask numSets
  rw [h.cfg]

theorem Alike.numWays (h : Alike m m') : m'.numWays = m.numWays := by
  unfold Mmu.numWays
  rw [h.cfg]

/-- The way matches the page of an address. -/
def matching (m : Mmu) (addr : U32) (way : Nat) : Bool :=
  test (m.matchReg way (m.setOf addr)) MMUM.V &&
    pageCompare (pageAlign addr) (m.matchReg way (m.setOf addr))

theorem hitWay_eq (m : Mmu) (addr : U32) :
    m.hitWay addr = (List.range m.numWays).find? (m.matching addr) := rfl

/-- Matching looks at the entry of a way. -/
theorem matching_congr {addr addr' : U32} {way : Nat} (ha : pageAlign addr = pageAlign addr')
    (hs : m'.setOf addr' = m.setOf addr)
    (he : (m'.entry way (m.setOf addr)).1 = (m.entry way (m.setOf addr)).1) :
    m'.matching addr' way = m.matching addr way := by
  unfold matching
  rw [hs, ha]
  have hv := test_congr (m := MMUM.V) (k := matchMask) (by decide) he
  have hm : ∀ x : U32, pageAlign x = (x &&& matchMask) &&& ~~~pageMask := fun x => by
    unfold pageAlign
    rw [BitVec.and_assoc]
    congr 1
  have hp : pageAlign (m'.matchReg way (m.setOf addr)) = pageAlign (m.matchReg way (m.setOf addr)) := by
    rw [hm, hm]
    exact congrArg (· &&& ~~~pageMask) he
  rw [hv, pageCompare_congr hp]

theorem setOf_congr {addr addr' : U32} (h : pageAlign addr = pageAlign addr') :
    m.setOf addr = m.setOf addr' := by
  unfold Mmu.setOf
  rw [pageNumber_congr h]

theorem Alike.hitWay {addr addr' : U32} (h : Alike m m') (ha : pageAlign addr = pageAlign addr') :
    m'.hitWay addr' = m.hitWay addr := by
  rw [hitWay_eq, hitWay_eq, h.numWays]
  congr 1
  funext way
  exact matching_congr ha ((h.setOf addr').trans (setOf_congr ha).symm)
    (congrArg Prod.fst (h.entry way _ (m.setOf_lt addr)))

theorem walk_alike {σ : Type} [EnvImpl σ] (h : Alike m m') (env : Env σ) (req : Request) :
    m'.walk env req = m.walk env req := by
  unfold walk
  rw [h.ctrl]

theorem accessMask_transMask (req : Request) : accessMask req &&& transMask = accessMask req := by
  unfold accessMask
  split
  · decide
  · split
    · split <;> decide
    · split <;> split <;> decide

/-- The translation that a refill puts in the TLB. -/
def refillTrans (pte2 : U32) (req : Request) : U32 :=
  let trans := pte2 ||| MMUPTE.CC
  if req.imem && test pte2 MMUPTE.EXEC then trans ||| (MMU.SXE ||| MMU.UXE) else trans

/-- A way was refilled from the entry `pte2` of the page table. -/
structure Refilled {σ : Type} [EnvImpl σ] (m : Mmu) (env : Env σ) (req : Request) (pte2 : U32)
    (way : Nat) (m' : Mmu) : Prop where
  walked : ∃ cycles, (m.walk env req).1 = some (pte2, cycles)
  way_lt : way < m.numWays
  cfg : m'.cfg = m.cfg
  ctrl : m'.ctrl = m.ctrl
  filled : m'.entry way (m.setOf req.addr) =
    (pageAlign req.addr ||| MMUM.V, refillTrans pte2 req &&& transMask)
  others : ∀ way' set', set' < 128 → (way' ≠ way ∨ set' ≠ m.setOf req.addr) →
    m'.entry way' set' = m.entry way' set'

/-- What a translation does to the MMU. -/
inductive Translated {σ : Type} [EnvImpl σ] (m : Mmu) (env : Env σ) (req : Request) :
    MmuResult × Mmu × Env σ × Request → Prop where
  | refused (res : MmuResult) (m' : Mmu) (env' : Env σ) (hr : res ≠ .okay) (ha : Alike m m')
      (hw : ∀ way, m.hitWay req.addr = some way →
        test (m.transReg way (m.setOf req.addr)) (accessMask req) = false) :
      Translated m env req (res, m', env', req)
  | hit (way : Nat) (m' : Mmu) (req' : Request) (hw : m.hitWay req.addr = some way)
      (hp : test (m.transReg way (m.setOf req.addr)) (accessMask req) = true)
      (hx : req'.addr = pageAlign (m.transReg way (m.setOf req.addr)) ||| pageOffset req.addr)
      (ha : Alike m m') : Translated m env req (.okay, m', env, req')
  | refill (pte2 : U32) (way : Nat) (m' : Mmu) (env' : Env σ) (req' : Request)
      (hw : m.hitWay req.addr = none) (hp : test (refillTrans pte2 req) (accessMask req) = true)
      (hx : req'.addr = pageAlign (refillTrans pte2 req) ||| pageOffset req.addr)
      (hr : Refilled m env req pte2 way m') : Translated m env req (.okay, m', env', req')

theorem findEmptyWay_lt (m : Mmu) (set : Nat) : m.findEmptyWay set < m.numWays := by
  have hpos : 0 < m.numWays := by
    unfold numWays
    omega
  unfold findEmptyWay
  split
  · rename_i way h
    exact List.mem_range.1 (List.mem_of_find?_eq_some h)
  · have h : ∀ (ways : List Nat) (so : Nat × U32), so.1 < m.numWays →
        (∀ w ∈ ways, w < m.numWays) → (ways.foldl (fun (so : Nat × U32) way =>
          let age := m.matchReg way set &&& MMUM.LRU3
          if age ≥ so.2 then (way, age) else so) so).1 < m.numWays := by
      intro ways
      induction ways with
      | nil => exact fun so h _ => h
      | cons w ways ih =>
        intro so hso hw
        apply ih
        · dsimp only
          split
          · exact hw w List.mem_cons_self
          · exact hso
        · exact fun v hv => hw v (List.mem_cons_of_mem _ hv)
    exact h _ _ hpos fun w hw => List.mem_range.1 hw

theorem pageAlign_transMask (t : U32) : pageAlign (t &&& transMask) = pageAlign t := by
  unfold pageAlign
  rw [BitVec.and_assoc]
  congr 1

/-- The bits that record an access are not part of a translation. -/
theorem pageAlign_accessed (t k : U32) (hk : k &&& ~~~pageMask = 0#32) :
    pageAlign (t ||| k) = pageAlign t := or_and_of_disjoint hk

section Translate

variable {σ : Type} [EnvImpl σ] {env : Env σ}

/-- The last part of a refill: both registers of a way are written. -/
theorem refilled_write {pte2 : U32} {cycles : Nat} {t : U32} (hw : (m.walk env req).1 = some (pte2, cycles))
    (ht : t &&& transMask = refillTrans pte2 req &&& transMask) :
    Refilled m env req pte2 (m.findEmptyWay (m.setOf req.addr))
      ((m.write (tlbMR (m.findEmptyWay (m.setOf req.addr)) (m.setOf req.addr))
        (pageAlign req.addr ||| MMUM.LRU0 ||| MMUM.V)).write
        (tlbTR (m.findEmptyWay (m.setOf req.addr)) (m.setOf req.addr)) t) := by
  have hs := m.setOf_lt req.addr
  generalize hset : m.setOf req.addr = set at hs ⊢
  have hmr : (pageAlign req.addr ||| MMUM.LRU0 ||| MMUM.V) &&& matchMask =
      pageAlign req.addr ||| MMUM.V := by
    unfold pageAlign
    have : (MMUM.LRU0 : U32) = 0#32 := rfl
    rw [this, BitVec.or_zero]
    ext i hi
    simp only [BitVec.getElem_and, BitVec.getElem_or, BitVec.getElem_not]
    cases pageMask[i] <;> cases MMUM.V[i] <;> simp
  constructor
  · exact ⟨cycles, hw⟩
  · exact m.findEmptyWay_lt set
  · rfl
  · rfl
  · rw [hset]
    unfold entry
    rw [matchReg_write_trans hs hs, matchReg_write_match, if_pos rfl, transReg_write_trans,
      if_pos rfl, hmr, ht]
  · intro way' set' hs' hne
    rw [hset] at hne
    have hmne : ¬tlbMR way' set' = tlbMR (m.findEmptyWay set) set := fun h => by
      have := tlbMR_inj hs hs' h
      omega
    have htne : ¬tlbTR way' set' = tlbTR (m.findEmptyWay set) set := fun h =>
      hmne (Nat.add_right_cancel h)
    unfold entry
    rw [matchReg_write_trans hs hs', matchReg_write_match, if_neg hmne, transReg_write_trans,
      if_neg htne, transReg_write_match hs hs']

theorem Refilled.of_alike {m₁ : Mmu} {pte2 : U32} {way : Nat} (h : Alike m m₁)
    (hr : Refilled m₁ env req pte2 way m') : Refilled m env req pte2 way m' where
  walked := by rw [← walk_alike h]; exact hr.walked
  way_lt := by rw [← h.numWays]; exact hr.way_lt
  cfg := hr.cfg.trans h.cfg
  ctrl := hr.ctrl.trans h.ctrl
  filled := by rw [← h.setOf]; exact hr.filled
  others way' set' hs hne :=
    (hr.others way' set' hs (by rw [h.setOf]; exact hne)).trans (h.entry way' set' hs)

theorem Alike.test_trans {way set : Nat} (h : Alike m m') (hs : set < 128) (req : Request) :
    test (m'.transReg way set) (accessMask req) = test (m.transReg way set) (accessMask req) :=
  test_congr (accessMask_transMask req) (congrArg Prod.snd (h.entry way set hs))

theorem Alike.page_trans {way set : Nat} (h : Alike m m') (hs : set < 128) :
    pageAlign (m'.transReg way set) = pageAlign (m.transReg way set) := by
  rw [← pageAlign_transMask, ← pageAlign_transMask (m.transReg way set)]
  exact congrArg (fun e : U32 × U32 => pageAlign e.2) (h.entry way set hs)

/-- A hit: the access rights decide, and the physical page is that of the entry. -/
theorem hit_translated {m₁ : Mmu} {way : Nat} (h : Alike m m₁) (hd : req.debug = false)
    (hw : m₁.hitWay req.addr = some way) :
    Translated m env req ((m₁.hit way req).1, (m₁.hit way req).2.1, env, (m₁.hit way req).2.2) := by
  have hs := m.setOf_lt req.addr
  have hwm : m.hitWay req.addr = some way := (h.hitWay rfl).symm.trans hw
  have ha := h.trans (alike_hit (m := m₁) way req)
  revert ha
  unfold hit
  dsimp only
  rw [hd, h.setOf]
  cases hp : test (m₁.transReg way (m.setOf req.addr)) (accessMask req) with
  | false =>
    intro ha
    refine .refused .pageFault _ env (by decide) ha fun way' hw' => ?_
    rw [hwm] at hw'
    cases hw'
    exact (h.test_trans hs req).symm.trans hp
  | true =>
    intro ha
    refine .hit way _ _ hwm ((h.test_trans hs req).symm.trans hp) ?_ ha
    show pageAlign _ ||| pageOffset req.addr = _
    rw [← h.page_trans hs]
    congr 1
    split
    · exact pageAlign_accessed _ _ (by decide)
    · rw [pageAlign_accessed _ _ (by decide), pageAlign_accessed _ _ (by decide)]

/-- A refill: the access rights of the page table decide. -/
theorem refill_translated {m₁ : Mmu} {pte2 : U32} {cycles : Nat} {env' : Env σ} (h : Alike m m₁)
    (hd : req.debug = false) (hn : m₁.hitWay req.addr = none)
    (hw : (m₁.walk env req).1 = some (pte2, cycles)) :
    Translated m env req ((m₁.refill pte2 cycles req).1, (m₁.refill pte2 cycles req).2.1, env',
      (m₁.refill pte2 cycles req).2.2) := by
  have hnm : m.hitWay req.addr = none := (h.hitWay rfl).symm.trans hn
  have ht : (if (req.imem && test pte2 MMUPTE.EXEC) = true then
      pte2 ||| MMUPTE.CC ||| (MMU.SXE ||| MMU.UXE) else pte2 ||| MMUPTE.CC) =
      refillTrans pte2 req := rfl
  unfold refill
  dsimp only
  rw [ht, hd]
  generalize hg : refillTrans pte2 req = t
  cases hp : test t (accessMask req) with
  | false =>
    refine .refused .pageFault _ env' (by decide) h fun way' hw' => ?_
    rw [hnm] at hw'
    cases hw'
  | true =>
    have hacc : ∀ r : Bool, pageAlign (if r = true then t ||| MMUPTE.A
        else t ||| MMUPTE.A ||| MMUPTE.D) = pageAlign t := by
      intro r
      split
      · exact pageAlign_accessed _ _ (by decide)
      · rw [pageAlign_accessed _ _ (by decide), pageAlign_accessed _ _ (by decide)]
    have hmask : ∀ r : Bool, (if r = true then t ||| MMUPTE.A
        else t ||| MMUPTE.A ||| MMUPTE.D) &&& transMask = t &&& transMask := by
      intro r
      split
      · exact or_and_of_disjoint (by decide)
      · rw [or_and_of_disjoint (by decide)]
        exact or_and_of_disjoint (by decide)
    refine .refill pte2 _ _ env' _ hnm (by rw [hg]; exact hp) ?_
      (Refilled.of_alike h (refilled_write hw (by rw [hg]; exact hmask req.read)))
    show pageAlign _ ||| pageOffset req.addr = _
    rw [hacc, hg]

/-- A translation refuses, hits, or refills. -/
theorem translate_translated (m : Mmu) (env : Env σ) (hd : req.debug = false) :
    Translated m env req (m.translate env req) := by
  have hage : Alike m (m.age (m.setOf req.addr)) := alike_age (m.setOf_lt req.addr)
  unfold translate
  rw [hd, if_neg Bool.false_ne_true]
  dsimp only
  split
  · rename_i way hw
    exact hit_translated hage hd hw
  · rename_i hw
    have hn : ∀ way, m.hitWay req.addr = some way →
        test (m.transReg way (m.setOf req.addr)) (accessMask req) = false := by
      intro way h
      rw [← hage.hitWay rfl, hw] at h
      cases h
    split
    · exact .refused .tlbMiss _ env (by decide) hage hn
    · split
      · rename_i env' hwalk
        exact .refused .tlbMiss _ env' (by decide) hage hn
      · rename_i pte2 cycles env' hwalk
        exact refill_translated hage hd hw (by rw [hwalk])

/-- A debugger's translation leaves the MMU alone. -/
theorem translate_debug (hd : req.debug = true) : (m.translate env req).2.1 = m := by
  unfold translate
  rw [hd, if_pos rfl]
  dsimp only
  split
  · unfold hit
    dsimp only
    rw [if_pos hd]
  · split
    · rfl
    · split
      · rfl
      · unfold refill
        dsimp only
        rw [hd, Bool.not_true, Bool.and_false, if_neg Bool.false_ne_true, if_pos rfl]

/-- Entries change by a refill only, for an address that has missed. -/
theorem translate_misses (m : Mmu) (env : Env σ) (req : Request) :
    Alike m (m.translate env req).2.1 ∨ (m.hitWay req.addr = none ∧
      ∃ pte2 way, Refilled m env req pte2 way (m.translate env req).2.1) := by
  cases hd : req.debug with
  | true =>
    rw [translate_debug hd]
    exact .inl (.refl m)
  | false =>
    have h := translate_translated m env hd
    generalize m.translate env req = r at h
    cases h with
    | refused res m' env' hr ha hw => exact .inl ha
    | hit way m' req' hw hp hx ha => exact .inl ha
    | refill pte2 way m' env' req' hw hp hx hr => exact .inr ⟨hw, pte2, way, hr⟩

theorem translate_entries (m : Mmu) (env : Env σ) (req : Request) :
    Alike m (m.translate env req).2.1 ∨
      ∃ pte2 way, Refilled m env req pte2 way (m.translate env req).2.1 :=
  (m.translate_misses env req).imp_right And.right

/-! ## A translation that stays -/

/-- The TLB translates the page of `addr` to `phys`, for accesses that need the right `mask`. -/
def Maps (m : Mmu) (addr mask phys : U32) : Prop :=
  ∃ way, m.hitWay addr = some way ∧ test (m.transReg way (m.setOf addr)) mask = true ∧
    pageAlign (m.transReg way (m.setOf addr)) = phys

/-- A translation stays while its set is matched as before. -/
theorem Maps.of_matching {addr mask phys : U32} (h : Maps m addr mask phys)
    (hm : mask &&& transMask = mask) (hc : m'.cfg = m.cfg)
    (hw : ∀ way, m'.matching addr way = m.matching addr way)
    (ht : ∀ way, (m'.entry way (m.setOf addr)).2 = (m.entry way (m.setOf addr)).2) :
    Maps m' addr mask phys := by
  obtain ⟨way, hit, hp, hx⟩ := h
  have hset : m'.setOf addr = m.setOf addr := by
    unfold Mmu.setOf setMask numSets
    rw [hc]
  refine ⟨way, ?_, ?_, ?_⟩
  · rw [hitWay_eq] at hit ⊢
    have hn : m'.numWays = m.numWays := by
      unfold Mmu.numWays
      rw [hc]
    rw [hn, show m'.matching addr = m.matching addr from funext hw, hit]
  · rw [hset, ← hp]
    exact test_congr hm (ht way)
  · rw [hset, ← hx, ← pageAlign_transMask, ← pageAlign_transMask (m.transReg way _)]
    exact congrArg pageAlign (ht way)

theorem Maps.alike {addr mask phys : U32} (h : Maps m addr mask phys)
    (hm : mask &&& transMask = mask) (ha : Alike m m') : Maps m' addr mask phys :=
  h.of_matching hm ha.cfg
    (fun way => matching_congr rfl (ha.setOf addr)
      (congrArg Prod.fst (ha.entry way _ (m.setOf_lt addr))))
    (fun way => congrArg Prod.snd (ha.entry way _ (m.setOf_lt addr)))

/-- A translation is one of a page. -/
theorem Maps.page {addr addr' mask phys : U32} (h : Maps m addr mask phys)
    (ha : pageAlign addr = pageAlign addr') : Maps m addr' mask phys := by
  obtain ⟨way, hit, hp, hx⟩ := h
  rw [← (Alike.refl m).hitWay ha] at hit
  rw [setOf_congr ha] at hp hx
  exact ⟨way, hit, hp, hx⟩

/-- What the TLB holds, a translation finds. -/
theorem translate_of_maps {phys : U32} (env : Env σ) (h : Maps m req.addr (accessMask req) phys)
    (hd : req.debug = false) : (m.translate env req).1 = .okay ∧
      (m.translate env req).2.2.2.addr = phys ||| pageOffset req.addr := by
  obtain ⟨way, hit, hp, hx⟩ := h
  have ht := translate_translated m env hd
  generalize m.translate env req = r at ht
  cases ht with
  | refused res m' env' hr ha hw =>
    rw [hw way hit] at hp
    cases hp
  | hit way' m' req' hw hp' hx' ha =>
    rw [hit] at hw
    cases hw
    exact ⟨rfl, by rw [hx', hx]⟩
  | refill pte2 way' m' env' req' hw hp' hx' hr =>
    rw [hit] at hw
    cases hw

/-- The only way that matches after a refill is the one refilled. -/
theorem Refilled.hitWay {pte2 : U32} {way : Nat} (hr : Refilled m env req pte2 way m')
    (hw : m.hitWay req.addr = none) : m'.hitWay req.addr = some way := by
  have hset : m'.setOf req.addr = m.setOf req.addr := by
    unfold Mmu.setOf setMask numSets
    rw [hr.cfg]
  have hways : m'.numWays = m.numWays := by
    unfold Mmu.numWays
    rw [hr.cfg]
  have hmatch : m'.matching req.addr way = true := by
    have hf : m'.matchReg way (m.setOf req.addr) &&& matchMask = pageAlign req.addr ||| MMUM.V :=
      congrArg Prod.fst hr.filled
    have hd : (pageAlign req.addr ||| MMUM.V) &&& MMUM.V = MMUM.V := by
      ext i hi
      simp only [BitVec.getElem_and, BitVec.getElem_or]
      cases MMUM.V[i] <;> simp
    have hv : test (m'.matchReg way (m.setOf req.addr)) MMUM.V = true := by
      have he : m'.matchReg way (m.setOf req.addr) &&& MMUM.V =
          (m'.matchReg way (m.setOf req.addr) &&& matchMask) &&& MMUM.V := by
        rw [BitVec.and_assoc]
        congr 1
      rw [test_eq_true_iff, he, hf, hd]
      decide
    have hp : pageAlign (m'.matchReg way (m.setOf req.addr)) = pageAlign req.addr := by
      have he : pageAlign (m'.matchReg way (m.setOf req.addr)) =
          pageAlign (m'.matchReg way (m.setOf req.addr) &&& matchMask) := by
        unfold pageAlign
        rw [BitVec.and_assoc]
        congr 1
      rw [he, hf, pageAlign_accessed _ _ (by decide), pageAlign_idem]
    unfold matching
    rw [hset, hv, Bool.true_and, pageAlign_eq_iff, pageAlign_idem, hp]
  have hothers : ∀ w, w ≠ way → m'.matching req.addr w = m.matching req.addr w := fun w hne =>
    matching_congr rfl hset (congrArg Prod.fst (hr.others w _ (m.setOf_lt _) (.inl hne)))
  rw [hitWay_eq] at hw ⊢
  rw [List.find?_eq_none] at hw
  rw [hways]
  cases hfind : (List.range m.numWays).find? (m'.matching req.addr) with
  | none =>
    rw [List.find?_eq_none] at hfind
    exact (hfind way (List.mem_range.2 hr.way_lt) hmatch).elim
  | some w =>
    by_cases hne : w = way
    · rw [hne]
    · have hw' := List.find?_some hfind
      rw [hothers w hne] at hw'
      exact (hw w (List.mem_of_find?_eq_some hfind) hw').elim

/-- What a translation has found, the TLB holds. -/
theorem maps_of_translate (hd : req.debug = false) (ho : (m.translate env req).1 = .okay) :
    Maps (m.translate env req).2.1 req.addr (accessMask req)
      (pageAlign (m.translate env req).2.2.2.addr) := by
  have ht := translate_translated m env hd
  have hs := m.setOf_lt req.addr
  generalize m.translate env req = r at ht ho
  cases ht with
  | refused res m' env' hr ha hw => exact (hr ho).elim
  | hit way m' req' hw hp hx ha =>
    refine Maps.alike ⟨way, hw, hp, ?_⟩ (accessMask_transMask req) ha
    rw [hx, pageAlign_or_offset]
  | refill pte2 way m' env' req' hw hp hx hr =>
    have hset : m'.setOf req.addr = m.setOf req.addr := by
      unfold Mmu.setOf setMask numSets
      rw [hr.cfg]
    have he : m'.transReg way (m.setOf req.addr) &&& transMask =
        refillTrans pte2 req &&& transMask := congrArg Prod.snd hr.filled
    refine ⟨way, hr.hitWay hw, ?_, ?_⟩
    · rw [hset, ← hp]
      exact test_congr (accessMask_transMask req) he
    · rw [hset, hx, pageAlign_or_offset, ← pageAlign_transMask, he, pageAlign_transMask]

end Translate

end Mmu

end Or1kiss
