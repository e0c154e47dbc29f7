import Or1kiss.Lib.Runs
import Or1kiss.Memory
import Or1kiss.Tlb

/-!
# Refills

A table walk and the hit that follows it (`walk_agrees_hit`), and the shape of the TLB over any
sequence of translations and flushes (`wellPlaced_run`): one way for a page, in the set of its
number.
-/

namespace Or1kiss

open Bits Runs

/-- The attributes that a translation gives to a request. -/
def Request.attributes (req : Request) : Bool × Bool × Bool × Bool :=
  (req.cacheCoherent, req.cacheInhibit, req.cacheWriteback, req.weaklyOrdered)

/-- The attributes of a page. -/
def pageAttributes (trans : U32) : Bool × Bool × Bool × Bool :=
  (test trans MMUPTE.CC, test trans MMUPTE.CI, test trans MMUPTE.WBC, test trans MMUPTE.WOM)

namespace Mmu

variable {m m' : Mmu} {req : Request}

theorem pageAttributes_congr {a b : U32} (h : a &&& transMask = b &&& transMask) :
    pageAttributes a = pageAttributes b := by
  unfold pageAttributes
  rw [test_congr (m := MMUPTE.CC) (k := transMask) (by decide) h,
    test_congr (m := MMUPTE.CI) (k := transMask) (by decide) h,
    test_congr (m := MMUPTE.WBC) (k := transMask) (by decide) h,
    test_congr (m := MMUPTE.WOM) (k := transMask) (by decide) h]

/-- Recording an access does not change what decides a translation. -/
theorem accessed_transMask (t : U32) (read : Bool) :
    (if read = true then t ||| MMUPTE.A else t ||| MMUPTE.A ||| MMUPTE.D) &&& transMask =
      t &&& transMask := by
  split
  · exact or_and_of_disjoint (by decide)
  · rw [or_and_of_disjoint (by decide)]
    exact or_and_of_disjoint (by decide)

/-! ## The walk and the hit -/

/-- A hit gives the page and its attributes. -/
theorem hit_resolves {way : Nat} (hd : req.debug = false)
    (hp : test (m.transReg way (m.setOf req.addr)) (accessMask req) = true) :
    (m.hit way req).1 = .okay ∧
      (m.hit way req).2.2.addr =
        pageAlign (m.transReg way (m.setOf req.addr)) ||| pageOffset req.addr ∧
      (m.hit way req).2.2.attributes = pageAttributes (m.transReg way (m.setOf req.addr)) := by
  unfold hit
  dsimp only
  rw [hd, hp]
  have ht := accessed_transMask (m.transReg way (m.setOf req.addr)) req.read
  refine ⟨rfl, ?_, pageAttributes_congr ht⟩
  show pageAlign _ ||| pageOffset req.addr = _
  rw [← pageAlign_transMask, ht, pageAlign_transMask]

/-- A refill leaves the attributes of its request alone. -/
theorem refill_attributes (m : Mmu) (pte2 : U32) (cycles : Nat) (req : Request) :
    (m.refill pte2 cycles req).2.2.attributes = req.attributes := by
  unfold refill
  dsimp only
  generalize (if (req.imem && test pte2 MMUPTE.EXEC) = true then
    pte2 ||| MMUPTE.CC ||| (MMU.SXE ||| MMU.UXE) else pte2 ||| MMUPTE.CC) = t
  split
  · rfl
  · split <;> rfl

section Translate

variable {σ : Type} [EnvImpl σ] {env env' : Env σ} {req' : Request}

/-- A translation that hits. -/
theorem translate_of_hit {way : Nat} (env : Env σ) (hd : req.debug = false)
    (hw : m.hitWay req.addr = some way)
    (hp : test (m.transReg way (m.setOf req.addr)) (accessMask req) = true) :
    ∃ m' r, m.translate env req = (.okay, m', env, r) ∧
      r.addr = pageAlign (m.transReg way (m.setOf req.addr)) ||| pageOffset req.addr ∧
      r.attributes = pageAttributes (m.transReg way (m.setOf req.addr)) := by
  have hs := m.setOf_lt req.addr
  have ha : Alike m (m.age (m.setOf req.addr)) := alike_age hs
  have hset := ha.setOf req.addr
  have hp' : test ((m.age (m.setOf req.addr)).transReg way
      ((m.age (m.setOf req.addr)).setOf req.addr)) (accessMask req) = true := by
    rw [hset, ha.test_trans hs]
    exact hp
  obtain ⟨hok, haddr, hattr⟩ := hit_resolves hd hp'
  rw [hset, ha.page_trans hs] at haddr
  rw [hset] at hattr
  refine ⟨((m.age (m.setOf req.addr)).hit way req).2.1, _, ?_, haddr, hattr.trans ?_⟩
  · unfold translate
    rw [hd, if_neg Bool.false_ne_true]
    dsimp only
    rw [ha.hitWay rfl, hw]
    dsimp only
    rw [hok]
  · exact pageAttributes_congr (congrArg Prod.snd (ha.entry way _ hs))

/-- A translation by the table walk: the way is refilled, the attributes are left alone. -/
theorem translate_of_walk (hd : req.debug = false) (hw : m.hitWay req.addr = none)
    (ht : m.translate env req = (.okay, m', env', req')) :
    ∃ pte2 way, Refilled m env req pte2 way m' ∧
      test (refillTrans pte2 req) (accessMask req) = true ∧
      req'.addr = pageAlign (refillTrans pte2 req) ||| pageOffset req.addr ∧
      req'.attributes = req.attributes := by
  have hr := translate_translated m env hd
  have hattr : (m.translate env req).2.2.2.attributes = req.attributes := by
    have ha : Alike m (m.age (m.setOf req.addr)) := alike_age (m.setOf_lt req.addr)
    have hn : (m.age (m.setOf req.addr)).hitWay req.addr = none := (ha.hitWay rfl).trans hw
    unfold translate
    rw [hd, if_neg Bool.false_ne_true]
    dsimp only
    rw [hn]
    dsimp only
    split
    · rfl
    · split
      · rfl
      · exact refill_attributes _ _ _ req
  rw [ht] at hr hattr
  generalize hres : (MmuResult.okay, m', env', req') = r at hr
  cases hr with
  | refused res m₁ env₁ hr => cases hres; exact (hr rfl).elim
  | hit way m₁ req₁ hw' => rw [hw] at hw'; cases hw'
  | refill pte2 way m₁ env₁ req₁ hw' hp hx hf =>
    cases hres
    exact ⟨pte2, way, hf, hp, hx, hattr⟩

/-- The request is a hit that makes no memory access, with the result of `req'`. -/
def HitsAlike (m : Mmu) (req req' : Request) : Prop :=
  ∀ env : Env σ, ∃ m' r, m.translate env req = (.okay, m', env, r) ∧ r.addr = req'.addr ∧
    r.attributes = req'.attributes

/-- After a table walk the same request hits, without a memory access and at the same physical
address; its attributes are the same exactly if it had those of the page before the walk. -/
theorem walk_agrees_hit (hd : req.debug = false) (hw : m.hitWay req.addr = none)
    (ht : m.translate env req = (.okay, m', env', req')) :
    ∃ pte2 cycles, (m.walk env req).1 = some (pte2, cycles) ∧
      (∀ env'' : Env σ, ∃ m'' r, m'.translate env'' req = (.okay, m'', env'', r) ∧
        r.addr = req'.addr ∧ r.attributes = pageAttributes (pte2 ||| MMUPTE.CC)) ∧
      (HitsAlike (σ := σ) m' req req' ↔ req.attributes = pageAttributes (pte2 ||| MMUPTE.CC)) := by
  obtain ⟨pte2, way, hr, hp, hx, hattr⟩ := translate_of_walk hd hw ht
  obtain ⟨cycles, hwalk⟩ := hr.walked
  have hset : m'.setOf req.addr = m.setOf req.addr := by
    unfold setOf setMask numSets
    rw [hr.cfg]
  have he : m'.transReg way (m'.setOf req.addr) &&& transMask =
      refillTrans pte2 req &&& transMask := by
    rw [hset]
    exact congrArg Prod.snd hr.filled
  have hpage : pageAttributes (m'.transReg way (m'.setOf req.addr)) =
      pageAttributes (pte2 ||| MMUPTE.CC) := by
    rw [pageAttributes_congr he]
    unfold refillTrans
    dsimp only
    split
    · have hk : ∀ k : U32, (MMU.SXE ||| MMU.UXE) &&& k = 0#32 →
          test (pte2 ||| MMUPTE.CC ||| (MMU.SXE ||| MMU.UXE)) k = test (pte2 ||| MMUPTE.CC) k := by
        intro k hk
        unfold test
        rw [or_and_of_disjoint hk]
      unfold pageAttributes
      rw [hk MMUPTE.CC (by decide), hk MMUPTE.CI (by decide), hk MMUPTE.WBC (by decide),
        hk MMUPTE.WOM (by decide)]
    · rfl
  have hhit : ∀ env'' : Env σ, ∃ m'' r, m'.translate env'' req = (.okay, m'', env'', r) ∧
      r.addr = req'.addr ∧ r.attributes = pageAttributes (pte2 ||| MMUPTE.CC) := by
    intro env''
    have hp' : test (m'.transReg way (m'.setOf req.addr)) (accessMask req) = true := by
      rw [← hp]
      exact test_congr (accessMask_transMask req) he
    obtain ⟨m'', r, htr, ha, hat⟩ := translate_of_hit env'' hd (hr.hitWay hw) hp'
    refine ⟨m'', r, htr, ?_, hat.trans hpage⟩
    rw [ha, hx, ← pageAlign_transMask, he, pageAlign_transMask]
  refine ⟨pte2, cycles, hwalk, hhit, fun h => ?_, fun h env'' => ?_⟩
  · obtain ⟨m'', r, htr, -, hat⟩ := h env
    obtain ⟨m₂, r₂, htr₂, -, hat₂⟩ := hhit env
    rw [htr] at htr₂
    cases htr₂
    rw [← hattr, ← hat, hat₂]
  · obtain ⟨m'', r, htr, ha, hat⟩ := hhit env''
    exact ⟨m'', r, htr, ha, by rw [hat, hattr, h]⟩

end Translate

/-- An MMU with a page directory for the first page of `tableEnv`. -/
def tableMmu : Mmu := (init MMUCFG.cpu).setCr 0x2000#32

/-- Memory that holds a page table. -/
def tableEnv : Env Memory := Memory.env 0x8000 (Memory.image [(0x2000, 0x4000#32), (0x4000, 0x7c0#32)])

/-- A load of the supervisor. -/
def tableLoad (coherent : Bool) : Request :=
  { Request.init .little with read := true, super := true, size := 4, cacheCoherent := coherent }

/-- The walk leaves the cache coherent flag clear, the hit sets it. -/
theorem walk_agrees_hit_fails : ∃ (m m' : Mmu) (env env' : Env Memory) (req req' : Request),
    req.debug = false ∧ m.hitWay req.addr = none ∧
      m.translate env req = (.okay, m', env', req') ∧ ¬HitsAlike (σ := Memory) m' req req' := by
  refine ⟨tableMmu, (tableMmu.translate tableEnv (tableLoad false)).2.1, tableEnv,
    (tableMmu.translate tableEnv (tableLoad false)).2.2.1, tableLoad false,
    (tableMmu.translate tableEnv (tableLoad false)).2.2.2, rfl, by decide +kernel,
    Prod.ext (by decide +kernel) rfl, fun h => ?_⟩
  obtain ⟨m'', r, htr, -, hat⟩ := h tableEnv
  have hr := congrArg (fun t : MmuResult × Mmu × Env Memory × Request => t.2.2.2.attributes) htr
  dsimp only at hr
  rw [hat] at hr
  exact absurd hr (by decide +kernel)

/-- The walk and the hit agree on a load that was cache coherent before. -/
theorem walk_agrees_hit_coherent :
    HitsAlike (σ := Memory) (tableMmu.translate tableEnv (tableLoad true)).2.1 (tableLoad true)
      (tableMmu.translate tableEnv (tableLoad true)).2.2.2 := by
  have ht : tableMmu.translate tableEnv (tableLoad true) = (.okay,
      (tableMmu.translate tableEnv (tableLoad true)).2.1,
      (tableMmu.translate tableEnv (tableLoad true)).2.2.1,
      (tableMmu.translate tableEnv (tableLoad true)).2.2.2) := Prod.ext (by decide +kernel) rfl
  have hw : tableMmu.hitWay (tableLoad true).addr = none := by decide +kernel
  obtain ⟨pte2, cycles, hwalk, -, hiff⟩ := walk_agrees_hit rfl hw ht
  apply hiff.2
  have hp : (tableMmu.walk tableEnv (tableLoad true)).1.map Prod.fst = some 0x7c0#32 := by
    decide +kernel
  rw [hwalk] at hp
  cases hp
  decide

/-! ## The shape of the TLB -/

/-- The way holds a valid entry. -/
def valid (m : Mmu) (way set : Nat) : Bool := test (m.matchReg way set) MMUM.V

/-- The page of an entry. -/
def page (m : Mmu) (way set : Nat) : Nat := (pageNumber (m.matchReg way set)).toNat

/-- Every page has one way, in the set of its number. -/
structure WellPlaced (m : Mmu) : Prop where
  placed : ∀ way set, way < m.numWays → set < m.numSets → m.valid way set = true →
    m.page way set % m.numSets = set
  unique : ∀ set way way', set < m.numSets → way < m.numWays → way' < m.numWays →
    m.valid way set = true → m.valid way' set = true → m.page way set = m.page way' set → way = way'

theorem numSets_pow (m : Mmu) : ∃ k, k ≤ 7 ∧ m.numSets = 2 ^ k := by
  refine ⟨(bits32 m.cfg 4 2).toNat, ?_, ?_⟩
  · unfold bits32
    rw [BitVec.toNat_ushiftRight, Nat.shiftRight_eq_div_pow]
    have h := (m.cfg <<< (31 - 4)).isLt
    omega
  · unfold numSets
    rw [Nat.shiftLeft_eq, Nat.one_mul]

theorem numSets_le (m : Mmu) : m.numSets ≤ 128 := by
  obtain ⟨k, hk, h⟩ := m.numSets_pow
  rw [h]
  exact Nat.pow_le_pow_right (by decide) hk

/-- The set of an address is its page number modulo the number of sets. -/
theorem setOf_eq_mod (m : Mmu) (addr : U32) :
    m.setOf addr = (pageNumber addr).toNat % m.numSets := by
  obtain ⟨k, hk, h⟩ := m.numSets_pow
  have hlt : 2 ^ k ≤ 128 := Nat.pow_le_pow_right (by decide) hk
  unfold setOf setMask
  rw [h, BitVec.toNat_and, BitVec.toNat_ofNat, Nat.mod_eq_of_lt (by omega),
    Nat.and_two_pow_sub_one_eq_mod]

theorem setOf_lt_numSets (m : Mmu) (addr : U32) : m.setOf addr < m.numSets := by
  obtain ⟨k, -, h⟩ := m.numSets_pow
  rw [setOf_eq_mod]
  apply Nat.mod_lt
  rw [h]
  exact Nat.two_pow_pos k

/-- The two entries are the same, or the second one is not valid. -/
def Kept (m m' : Mmu) (way set : Nat) : Prop :=
  m'.valid way set = false ∨ m'.valid way set = m.valid way set ∧ m'.page way set = m.page way set

theorem pageAlign_matchMask (x : U32) : pageAlign (x &&& matchMask) = pageAlign x := by
  unfold pageAlign
  rw [BitVec.and_assoc]
  congr 1

/-- The page number is all of the page. -/
theorem pageAlign_of_pageNumber {a b : U32} (h : pageNumber a = pageNumber b) :
    pageAlign a = pageAlign b := by
  have hx : ∀ x : U32, pageAlign x = pageNumber x <<< 13 := fun x => by
    have hbit : ∀ i < 32, pageMask.getLsbD i = decide (i < 13) := by decide
    unfold pageAlign pageNumber
    apply BitVec.eq_of_getLsbD_eq
    intro i hi
    rw [BitVec.getLsbD_and, BitVec.getLsbD_not, hbit i hi, BitVec.getLsbD_shiftLeft,
      BitVec.getLsbD_ushiftRight]
    by_cases h13 : i < 13
    · simp [h13]
    · have hle : 13 + (i - 13) = i := by omega
      simp [h13, hi, hle]
  rw [hx, hx, h]

theorem page_congr {way set way' set' : Nat}
    (h : pageAlign (m'.matchReg way' set') = pageAlign (m.matchReg way set)) :
    m'.page way' set' = m.page way set := by
  unfold page
  rw [pageNumber_congr h]

theorem kept_of_entry {way set : Nat} (h : m'.entry way set = m.entry way set) :
    Kept m m' way set := by
  right
  have he : m'.matchReg way set &&& matchMask = m.matchReg way set &&& matchMask :=
    congrArg Prod.fst h
  refine ⟨test_congr (by decide) he, page_congr ?_⟩
  rw [← pageAlign_matchMask, he, pageAlign_matchMask]

/-- What keeps or invalidates entries keeps their places. -/
theorem WellPlaced.of_kept (h : WellPlaced m) (hc : m'.cfg = m.cfg)
    (hk : ∀ way set, set < 128 → Kept m m' way set) : WellPlaced m' := by
  have hn : m'.numSets = m.numSets := by
    unfold numSets
    rw [hc]
  have hw : m'.numWays = m.numWays := by
    unfold numWays
    rw [hc]
  have hle := m.numSets_le
  constructor
  · intro way set hway hset hv
    rw [hn] at hset ⊢
    rw [hw] at hway
    rcases hk way set (by omega) with hf | ⟨hv', hp⟩
    · rw [hf] at hv
      cases hv
    · rw [hp]
      exact h.placed way set hway hset (hv' ▸ hv)
  · intro set way way' hset hway hway' hv hv' hp
    rw [hn] at hset
    rw [hw] at hway hway'
    rcases hk way set (by omega) with hf | ⟨hvk, hpk⟩
    · rw [hf] at hv
      cases hv
    · rcases hk way' set (by omega) with hf | ⟨hvk', hpk'⟩
      · rw [hf] at hv'
        cases hv'
      · rw [hpk, hpk'] at hp
        exact h.unique set way way' hset hway hway' (hvk ▸ hv) (hvk' ▸ hv') hp

theorem WellPlaced.alike (h : WellPlaced m) (ha : Alike m m') : WellPlaced m' :=
  h.of_kept ha.cfg fun way set hs => kept_of_entry (ha.entry way set hs)

/-- A page that no way matched gets the way that is refilled. -/
theorem WellPlaced.refilled {σ : Type} [EnvImpl σ] {env : Env σ} {pte2 : U32} {way : Nat}
    (h : WellPlaced m) (hw : m.hitWay req.addr = none) (hr : Refilled m env req pte2 way m') :
    WellPlaced m' := by
  have hn : m'.numSets = m.numSets := by
    unfold numSets
    rw [hr.cfg]
  have hways : m'.numWays = m.numWays := by
    unfold numWays
    rw [hr.cfg]
  have hle := m.numSets_le
  have hother : ∀ way' set', set' < m.numSets → (way' ≠ way ∨ set' ≠ m.setOf req.addr) →
      m'.valid way' set' = m.valid way' set' ∧ m'.page way' set' = m.page way' set' := by
    intro way' set' hs hne
    have he := hr.others way' set' (by omega) hne
    have hm : m'.matchReg way' set' &&& matchMask = m.matchReg way' set' &&& matchMask :=
      congrArg Prod.fst he
    refine ⟨test_congr (by decide) hm, page_congr ?_⟩
    rw [← pageAlign_matchMask, hm, pageAlign_matchMask]
  have hpage : m'.page way (m.setOf req.addr) = (pageNumber req.addr).toNat := by
    have hf : m'.matchReg way (m.setOf req.addr) &&& matchMask = pageAlign req.addr ||| MMUM.V :=
      congrArg Prod.fst hr.filled
    unfold page
    rw [pageNumber_congr (b := req.addr)]
    rw [← pageAlign_matchMask, hf, pageAlign_accessed _ _ (by decide), pageAlign_idem]
  -- a valid entry of the refilled page would have been a hit
  have hfresh : ∀ way', way' < m.numWays → m.valid way' (m.setOf req.addr) = true →
      m.page way' (m.setOf req.addr) ≠ (pageNumber req.addr).toNat := by
    intro way' hway' hv hp
    rw [hitWay_eq, List.find?_eq_none] at hw
    apply hw way' (List.mem_range.2 hway')
    unfold matching
    have hv : test (m.matchReg way' (m.setOf req.addr)) MMUM.V = true := hv
    rw [hv, Bool.true_and, pageAlign_eq_iff, pageAlign_idem]
    exact (pageAlign_of_pageNumber (BitVec.eq_of_toNat_eq hp)).symm
  constructor
  · intro way' set' hway' hset' hv
    rw [hn] at hset' ⊢
    rw [hways] at hway'
    by_cases hc : way' = way ∧ set' = m.setOf req.addr
    · obtain ⟨rfl, rfl⟩ := hc
      rw [hpage, setOf_eq_mod]
    · obtain ⟨hv', hp⟩ := hother way' set' hset' (by omega)
      rw [hp]
      exact h.placed way' set' hway' hset' (hv' ▸ hv)
  · intro set' w w' hset' hlt hlt' hv hv' hp
    rw [hn] at hset'
    rw [hways] at hlt hlt'
    by_cases hs : set' = m.setOf req.addr
    · subst hs
      by_cases hc : w = way <;> by_cases hc' : w' = way
      · rw [hc, hc']
      · obtain ⟨hvo, hpo⟩ := hother w' _ hset' (.inl hc')
        rw [hc, hpage, hpo] at hp
        exact (hfresh w' hlt' (hvo ▸ hv') hp.symm).elim
      · obtain ⟨hvo, hpo⟩ := hother w _ hset' (.inl hc)
        rw [hc', hpage, hpo] at hp
        exact (hfresh w hlt (hvo ▸ hv) hp).elim
      · obtain ⟨hvo, hpo⟩ := hother w _ hset' (.inl hc)
        obtain ⟨hvo', hpo'⟩ := hother w' _ hset' (.inl hc')
        rw [hpo, hpo'] at hp
        exact h.unique _ w w' hset' hlt hlt' (hvo ▸ hv) (hvo' ▸ hv') hp
    · obtain ⟨hvo, hpo⟩ := hother w set' hset' (.inr hs)
      obtain ⟨hvo', hpo'⟩ := hother w' set' hset' (.inr hs)
      rw [hpo, hpo'] at hp
      exact h.unique _ w w' hset' hlt hlt' (hvo ▸ hv) (hvo' ▸ hv') hp

theorem WellPlaced.translate {σ : Type} [EnvImpl σ] (h : WellPlaced m) (env : Env σ)
    (req : Request) : WellPlaced (m.translate env req).2.1 := by
  cases hd : req.debug with
  | true =>
    rw [translate_debug hd]
    exact h
  | false =>
    have ht := translate_translated m env hd
    generalize m.translate env req = r at ht
    cases ht with
    | refused res m' env' hr ha hw => exact h.alike ha
    | hit way m' req' hw hp hx ha => exact h.alike ha
    | refill pte2 way m' env' req' hw hp hx hr => exact h.refilled hw hr

theorem WellPlaced.flushTlbEntry (h : WellPlaced m) (ea : U32) : WellPlaced (m.flushTlbEntry ea) := by
  have hs := m.setOf_lt ea
  unfold Mmu.flushTlbEntry
  dsimp only
  generalize m.setOf ea = set at hs ⊢
  generalize List.range m.numWays = ways
  induction ways generalizing m with
  | nil => exact h
  | cons way ways ih =>
    rw [List.foldl_cons]
    apply ih
    split
    · refine h.of_kept rfl fun way' set' hs' => ?_
      unfold Kept valid page
      rw [matchReg_write_match]
      split
      · left
        exact test_and_not_self _ _
      · exact .inr ⟨rfl, rfl⟩
    · exact h

theorem wellPlaced_of_invalid (h : ∀ way set, m.valid way set = false) : WellPlaced m := by
  constructor
  · intro way set _ _ hv
    rw [h] at hv
    cases hv
  · intro set way way' _ _ _ hv
    rw [h] at hv
    cases hv

theorem WellPlaced.setCr (h : WellPlaced m) (val : U32) : WellPlaced (m.setCr val) := by
  unfold Mmu.setCr
  split
  · exact wellPlaced_of_invalid fun way set => test_eq_false_iff.2 BitVec.zero_and
  · exact h.of_kept rfl fun way set hs => .inr ⟨rfl, rfl⟩

/-! ## Runs of an MMU -/

/-- A call of one of the functions that work on the TLB. -/
inductive TlbCall (σ : Type) where
  | translate (env : Env σ) (req : Request)
  | flushTlbEntry (ea : U32)
  | setCr (val : U32)

def call {σ : Type} [EnvImpl σ] (m : Mmu) : TlbCall σ → Mmu
  | .translate env req => (m.translate env req).2.1
  | .flushTlbEntry ea => m.flushTlbEntry ea
  | .setCr val => m.setCr val

/-- An MMU as a system of calls. -/
def calls (σ : Type) [EnvImpl σ] : System Mmu (TlbCall σ) where
  next m a := some (m.call a)

/-- After any sequence of calls on an empty TLB every page has one way, in the set of its number,
and a refill goes to an existing way. -/
theorem wellPlaced_run {σ : Type} [EnvImpl σ] {cfg : U32} {m : Mmu}
    (h : (calls σ).Run (.init cfg) m) :
    m.WellPlaced ∧ ∀ set, m.findEmptyWay set < m.numWays := by
  refine ⟨h.invariant (P := WellPlaced) (fun m a m' hm _ hn => ?_) ?_, m.findEmptyWay_lt⟩
  · cases hn
    cases a with
    | translate env req => exact hm.translate env req
    | flushTlbEntry ea => exact hm.flushTlbEntry ea
    | setCr val => exact hm.setCr val
  · exact wellPlaced_of_invalid fun way set => test_eq_false_iff.2 BitVec.zero_and

/-- A page directory is set, and a page is refilled. -/
theorem wellPlaced_run_refill : ∃ m : Mmu, (calls Memory).Run (.init MMUCFG.cpu) m ∧
    m.valid 0 0 = true ∧ m.WellPlaced := by
  obtain ⟨m, hr, hm⟩ := System.exists_run (calls Memory) (.init MMUCFG.cpu)
    [.setCr 0x2000#32, .translate tableEnv (tableLoad false)] (fun m => m.valid 0 0)
    (by decide +kernel)
  exact ⟨m, hr, hm, (wellPlaced_run hr).1⟩

end Mmu

end Or1kiss
