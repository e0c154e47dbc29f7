import Or1kiss.Lib.Delayed
import Or1kiss.TlbWrite

/-!
# The age of an entry

`translate` counts the age of every valid entry of a set in two bits of its match register, and
evicts the oldest. The count is an addition: behind age 3 it carries into the next bit and the age
starts again, so that an entry just used can be the oldest. Calls that find no entry of age 3
(`Young`) evict in the order of use (`aging_ordered`).
-/

namespace Or1kiss

open Bits Runs

namespace Mmu

variable {m m' : Mmu} {set set' way way' : Nat}

/-! ## Two bits of a register -/

/-- The age in a match register. -/
def ageBits (x : U32) : BitVec 2 := x.extractLsb' 6 2

/-- A match register after one more tick. -/
def aged (x : U32) : U32 := (x &&& ~~~MMUM.LRU3) ||| ((x &&& MMUM.LRU3) + MMUM.LRU1)

def ageOf (m : Mmu) (way set : Nat) : Nat := (ageBits (m.matchReg way set)).toNat

theorem ageBits_lru (z : BitVec 2) : ageBits (z.setWidth 32 <<< 6) = z := by
  revert z
  decide

theorem ageBits_eq {x : U32} {z : BitVec 2} (h : x &&& MMUM.LRU3 = z.setWidth 32 <<< 6) :
    ageBits x = z := by
  rw [← ageBits_lru z, ← h, and_lru3]
  exact (ageBits_lru _).symm

/-- A tick below age 3 counts. -/
theorem ageBits_aged {x : U32} (h : (ageBits x).toNat ≠ 3) :
    (ageBits (aged x)).toNat = (ageBits x).toNat + 1 := by
  have hall : ∀ z : BitVec 2, z.toNat ≠ 3 →
      ((z.setWidth 32 <<< 6) + MMUM.LRU1) &&& MMUM.LRU3 = (z + 1#2).setWidth 32 <<< 6 ∧
        (z + 1#2).toNat = z.toNat + 1 := by
    decide
  have hz := hall (ageBits x) h
  have hb : ageBits (aged x) = ageBits x + 1#2 := by
    apply ageBits_eq
    have hclear : (x &&& ~~~MMUM.LRU3) &&& MMUM.LRU3 = 0#32 := by
      rw [BitVec.and_assoc]
      exact BitVec.and_zero
    unfold aged
    rw [BitVec.or_comm, or_and_of_disjoint hclear, and_lru3 x]
    exact hz.1
  rw [hb, hz.2]

/-- A tick below age 3 stays in its bits. -/
theorem aged_and_not_lru {x : U32} (h : (ageBits x).toNat ≠ 3) :
    aged x &&& ~~~MMUM.LRU3 = x &&& ~~~MMUM.LRU3 := by
  have hall : ∀ z : BitVec 2, z.toNat ≠ 3 →
      ((z.setWidth 32 <<< 6) + MMUM.LRU1) &&& ~~~MMUM.LRU3 = 0#32 := by
    decide
  have hz := hall (ageBits x) h
  unfold aged
  rw [or_and_of_disjoint (by rw [and_lru3]; exact hz), BitVec.and_assoc, BitVec.and_self]

/-! ## What a call does to the match registers -/

theorem matchReg_ageWay (hs : set < 128) (hs' : set' < 128) (w : Nat) :
    (ageWay set m w).matchReg way set' = if w = way ∧ set = set' ∧ m.valid w set = true then
      aged (m.matchReg way set') else m.matchReg way set' := by
  unfold ageWay valid
  dsimp only
  by_cases hv : test (m.matchReg w set) MMUM.V = true
  · rw [if_pos hv, matchReg_write_match]
    by_cases he : w = way ∧ set = set'
    · obtain ⟨rfl, rfl⟩ := he
      rw [if_pos rfl, if_pos ⟨rfl, rfl, hv⟩]
      rfl
    · rw [if_neg fun h => he ⟨(tlbMR_inj hs hs' h).1.symm, (tlbMR_inj hs hs' h).2.symm⟩,
        if_neg fun h => he ⟨h.1, h.2.1⟩]
  · rw [if_neg hv, if_neg fun h => hv h.2.2]

theorem valid_aged (x : U32) : test (aged x) MMUM.V = test x MMUM.V :=
  test_congr (k := matchMask) (by decide) (aged_and_matchMask x)

/-- Aging counts in the valid entries of the set, and nowhere else. -/
theorem matchReg_age (hs : set < 128) (hs' : set' < 128) : (m.age set).matchReg way set' =
    if way < m.numWays ∧ set = set' ∧ m.valid way set = true then aged (m.matchReg way set')
    else m.matchReg way set' := by
  -- every way of the list is aged once
  have hfold : ∀ (ways : List Nat) (m : Mmu), ways.Nodup →
      (ways.foldl (ageWay set) m).matchReg way set' =
        if way ∈ ways ∧ set = set' ∧ m.valid way set = true then aged (m.matchReg way set')
        else m.matchReg way set' := by
    intro ways
    induction ways with
    | nil =>
      intro m _
      rw [if_neg fun h => List.not_mem_nil h.1]
      rfl
    | cons w ws ih =>
      intro m hn
      obtain ⟨hnot, hnodup⟩ := List.nodup_cons.1 hn
      have hstep : (ageWay set m w).matchReg way set' = if w = way ∧ set = set' ∧ m.valid w set = true then
          aged (m.matchReg way set') else m.matchReg way set' := matchReg_ageWay hs hs' w
      have hvalid : (ageWay set m w).valid way set = m.valid way set := by
        unfold valid
        rw [matchReg_ageWay hs hs]
        split
        · exact valid_aged _
        · rfl
      rw [List.foldl_cons, ih _ hnodup, hvalid, hstep]
      by_cases he : w = way
      · subst he
        rw [if_neg fun h => hnot h.1]
        by_cases hv : set = set' ∧ m.valid w set = true
        · rw [if_pos ⟨rfl, hv⟩, if_pos ⟨List.mem_cons_self, hv⟩]
        · rw [if_neg fun h => hv h.2, if_neg fun h => hv h.2]
      · have hother : ¬(w = way ∧ set = set' ∧ m.valid w set = true) := fun h => he h.1
        have hmem : way ∈ w :: ws ↔ way ∈ ws :=
          ⟨fun h => (List.mem_cons.1 h).resolve_left fun h => he h.symm, List.mem_cons_of_mem w⟩
        rw [if_neg hother]
        simp only [hmem]
  unfold age
  rw [hfold _ m List.nodup_range]
  simp only [List.mem_range]

theorem valid_age (hs : set < 128) (hs' : set' < 128) :
    (m.age set).valid way set' = m.valid way set' := by
  unfold valid
  rw [matchReg_age hs hs']
  split
  · exact valid_aged _
  · rfl

section Translate

variable {σ : Type} [EnvImpl σ] {env : Env σ} {req : Request}

/-- The way whose entry a translation hits or refills. -/
def usedWay (m : Mmu) (env : Env σ) (req : Request) : Option Nat :=
  if (m.translate env req).1 = .okay then
    match m.hitWay req.addr with
    | some way => some way
    | none => some ((m.age (m.setOf req.addr)).findEmptyWay (m.setOf req.addr))
  else none

/-- The match register that the use of a way leaves. -/
def usedMatch (m : Mmu) (addr : U32) (way : Nat) : U32 :=
  match m.hitWay addr with
  | some _ => (m.age (m.setOf addr)).matchReg way (m.setOf addr) &&& ~~~MMUM.LRU3
  | none => pageAlign addr ||| MMUM.LRU0 ||| MMUM.V

/-- A call ages the set, and goes on from there. -/
theorem translate_age (hd : req.debug = false) :
    ((m.translate env req).1 ≠ .okay ∧ (m.translate env req).2.1 = m.age (m.setOf req.addr)) ∨
    ((m.translate env req).1 = .okay ∧ ∃ way trans, m.hitWay req.addr = some way ∧
      (m.translate env req).2.1 =
        ((m.age (m.setOf req.addr)).write (tlbTR way (m.setOf req.addr)) trans).write
          (tlbMR way (m.setOf req.addr))
          ((m.age (m.setOf req.addr)).matchReg way (m.setOf req.addr) &&& ~~~MMUM.LRU3)) ∨
    ((m.translate env req).1 = .okay ∧ m.hitWay req.addr = none ∧ ∃ trans,
      (m.translate env req).2.1 = (m.age (m.setOf req.addr)).load
        ((m.age (m.setOf req.addr)).findEmptyWay (m.setOf req.addr)) (m.setOf req.addr)
        (pageAlign req.addr ||| MMUM.LRU0 ||| MMUM.V) trans) := by
  have ha : Alike m (m.age (m.setOf req.addr)) := alike_age (m.setOf_lt req.addr)
  have hset := ha.setOf req.addr
  have hw : (m.age (m.setOf req.addr)).hitWay req.addr = m.hitWay req.addr := ha.hitWay rfl
  unfold translate
  rw [hd, if_neg Bool.false_ne_true]
  generalize m.age (m.setOf req.addr) = m₁ at hset hw
  dsimp only
  rw [hw]
  cases m.hitWay req.addr with
  | some way =>
    dsimp only
    unfold hit
    dsimp only
    rw [hd, if_neg Bool.false_ne_true, hset]
    split
    · exact .inl ⟨nofun, rfl⟩
    · exact .inr (.inl ⟨rfl, way, _, rfl, rfl⟩)
  | none =>
    dsimp only
    split
    · exact .inl ⟨nofun, rfl⟩
    · split
      · exact .inl ⟨nofun, rfl⟩
      · unfold refill
        dsimp only
        rw [hd, hset]
        generalize (if (req.imem && test _ MMUPTE.EXEC) = true then _ else _) = t
        split
        · exact .inl ⟨nofun, rfl⟩
        · exact .inr (.inr ⟨rfl, rfl, _, rfl⟩)

/-- Only the used way has more than its age changed. -/
theorem matchReg_translate (hd : req.debug = false) (hs' : set' < 128) :
    (m.translate env req).2.1.matchReg way set' =
      if m.usedWay env req = some way ∧ set' = m.setOf req.addr then m.usedMatch req.addr way
      else (m.age (m.setOf req.addr)).matchReg way set' := by
  have hs := m.setOf_lt req.addr
  have key : ∀ (w : Nat) (x y z : U32), (set' = m.setOf req.addr → w = way → x = y) →
      (if tlbMR way set' = tlbMR w (m.setOf req.addr) then x else z) =
        if some w = some way ∧ set' = m.setOf req.addr then y else z := by
    intro w x y z hxy
    by_cases he : w = way ∧ set' = m.setOf req.addr
    · rw [if_pos (by rw [he.1, he.2]), if_pos ⟨congrArg some he.1, he.2⟩, hxy he.2 he.1]
    · rw [if_neg fun h => he ⟨(tlbMR_inj hs hs' h).1.symm, (tlbMR_inj hs hs' h).2⟩,
        if_neg fun h => he ⟨Option.some.inj h.1, h.2⟩]
  unfold usedWay usedMatch
  have ht := @translate_age m _ _ env req hd
  obtain ⟨hr, hm⟩ | ⟨hr, w, trans, hw, hm⟩ | ⟨hr, hw, trans, hm⟩ := ht
  · rw [if_neg hr, if_neg (fun h => nomatch h.1), hm]
  · rw [if_pos hr, hm, matchReg_write_match, matchReg_write_trans hs hs', hw]
    exact key w _ _ _ fun _ h => by rw [h]
  · rw [if_pos hr, hm, hw]
    unfold load
    rw [matchReg_write_trans hs hs', matchReg_write_match]
    exact key _ _ _ _ fun _ _ => rfl

theorem usedWay_lt {w : Nat} (h : m.usedWay env req = some w) : w < m.numWays := by
  have ha : Alike m (m.age (m.setOf req.addr)) := alike_age (m.setOf_lt req.addr)
  unfold usedWay at h
  split at h
  · split at h
    · rename_i way hw
      cases h
      exact List.mem_range.1 (List.mem_of_find?_eq_some hw)
    · cases h
      rw [← ha.numWays]
      exact findEmptyWay_lt _ _
  · cases h

theorem numWays_translate : (m.translate env req).2.1.numWays = m.numWays := by
  obtain ha | ⟨pte2, way, hr⟩ := translate_entries m env req
  · exact ha.numWays
  · unfold numWays
    rw [hr.cfg]

end Translate

/-! ## The oldest way -/

/-- The scan keeps a way that is as old as every way it has seen. -/
theorem oldest_scan (f : Nat → U32) (ways : List Nat) (so : Nat × U32) (P : Nat × U32 → Prop)
    (h0 : P so) (hP : ∀ w ∈ ways, P (w, f w)) :
    let r := ways.foldl (fun (so : Nat × U32) way => if f way ≥ so.2 then (way, f way) else so) so
    P r ∧ so.2 ≤ r.2 ∧ ∀ w ∈ ways, f w ≤ r.2 := by
  induction ways generalizing so with
  | nil => exact ⟨h0, BitVec.le_refl _, fun w hw => (List.not_mem_nil hw).elim⟩
  | cons v ws ih =>
    have hws : ∀ w ∈ ws, P (w, f w) := fun w hw => hP w (List.mem_cons_of_mem v hw)
    rw [List.foldl_cons]
    by_cases hv : f v ≥ so.2
    · rw [if_pos hv]
      obtain ⟨hp, hle, hall⟩ := ih (v, f v) (hP v List.mem_cons_self) hws
      refine ⟨hp, BitVec.le_trans hv hle, fun w hw => ?_⟩
      rcases List.mem_cons.1 hw with rfl | hw
      · exact hle
      · exact hall w hw
    · rw [if_neg hv]
      obtain ⟨hp, hle, hall⟩ := ih so h0 hws
      refine ⟨hp, hle, fun w hw => ?_⟩
      rcases List.mem_cons.1 hw with rfl | hw
      · exact BitVec.le_trans (BitVec.le_of_lt (BitVec.not_le.1 hv)) hle
      · exact hall w hw

/-- Between valid entries the oldest one goes. -/
theorem ageOf_le_findEmptyWay (hv : ∀ way < m.numWays, m.valid way set = true)
    (hw : way < m.numWays) : m.ageOf way set ≤ m.ageOf (m.findEmptyWay set) set := by
  have hnone : (List.range m.numWays).find? (fun way => !test (m.matchReg way set) MMUM.V) = none := by
    rw [List.find?_eq_none]
    intro w hw hn
    rw [show test (m.matchReg w set) MMUM.V = true from hv w (List.mem_range.1 hw)] at hn
    cases hn
  have hmono : ∀ x y : U32, x &&& MMUM.LRU3 ≤ y &&& MMUM.LRU3 → (ageBits x).toNat ≤ (ageBits y).toNat := by
    intro x y h
    rw [and_lru3, and_lru3] at h
    have hall : ∀ a b : BitVec 2, a.setWidth 32 <<< 6 ≤ (b.setWidth 32 <<< 6 : U32) → a.toNat ≤ b.toNat := by
      decide
    exact hall _ _ h
  have hscan := oldest_scan (fun way => m.matchReg way set &&& MMUM.LRU3) (List.range m.numWays)
    (0, 0#32) (fun so => so.2 = 0#32 ∨ so.2 = m.matchReg so.1 set &&& MMUM.LRU3) (.inl rfl)
    fun w _ => .inr rfl
  unfold ageOf findEmptyWay
  rw [hnone]
  dsimp only at hscan ⊢
  obtain ⟨hp, -, hall⟩ := hscan
  have hle := hall way (List.mem_range.2 hw)
  generalize List.foldl _ _ _ = r at hp hle ⊢
  apply hmono
  rcases hp with hp | hp
  · rw [hp] at hle
    exact BitVec.le_trans hle (BitVec.le_def.2 (Nat.zero_le _))
  · rwa [← hp]

theorem findEmptyWay_valid (hv : m.valid (m.findEmptyWay set) set = true) :
    ∀ way < m.numWays, m.valid way set = true := by
  unfold findEmptyWay at hv
  split at hv
  · rename_i way h
    have hinv := List.find?_some h
    rw [show test (m.matchReg way set) MMUM.V = true from hv] at hinv
    cases hinv
  · rename_i h
    intro way hw
    have hn := List.find?_eq_none.1 h way (List.mem_range.2 hw)
    rwa [Bool.not_eq_true', Bool.not_eq_false] at hn

/-! ## The order of use -/

/-- What is known of the use of the sets: the way used last, and for each way the calls since. -/
structure Usage where
  last : Nat → Option Nat
  unused : Nat → Nat → Nat

namespace Usage

/-- The ages stand for the use before the run. -/
def start (m : Mmu) : Usage := { last := fun _ => none, unused := fun set way => m.ageOf way set }

/-- A call for `set` that uses the way `used`. -/
def after (u : Usage) (set : Nat) (used : Option Nat) : Usage where
  last s := if s = set then used.or (u.last s) else u.last s
  unused s way := if s = set then if used = some way then 0 else u.unused s way + 1
    else u.unused s way

end Usage

section Runs

variable {σ : Type} [EnvImpl σ] {env : Env σ} {req : Request} {u : Usage}

/-- An MMU that translates for the guest. -/
def accesses (σ : Type) [EnvImpl σ] : System Mmu (Env σ × Request) where
  next m a := if a.2.debug then none else some (m.translate a.1 a.2).2.1

/-- The same with the use of its ways. -/
def aging (σ : Type) [EnvImpl σ] : System (Mmu × Usage) (Env σ × Request) :=
  (accesses σ).watch fun u mv =>
    u.after (mv.pre.setOf mv.act.2.addr) (mv.pre.usedWay mv.act.1 mv.act.2)

/-- The way `victim` loses its valid entry to a refill. -/
structure Evicts (m : Mmu) (env : Env σ) (req : Request) (victim : Nat) : Prop where
  miss : m.hitWay req.addr = none
  used : m.usedWay env req = some victim
  valid : m.valid victim (m.setOf req.addr) = true

/-- Ages are kept in their bits, grow until the entry is used, and decide what a refill evicts. -/
structure Ordered (m : Mmu) (u : Usage) (env : Env σ) (req : Request) : Prop where
  bits : ∀ way set, set < 128 →
    (m.age (m.setOf req.addr)).matchReg way set &&& ~~~MMUM.LRU3 =
        m.matchReg way set &&& ~~~MMUM.LRU3 ∧
      (m.age (m.setOf req.addr)).transReg way set = m.transReg way set
  grows : ∀ way set, way < m.numWays → set < 128 → m.valid way set = true →
    ¬(m.usedWay env req = some way ∧ set = m.setOf req.addr) →
      m.ageOf way set ≤ (m.translate env req).2.1.ageOf way set
  oldest : ∀ victim, Evicts m env req victim → ∀ way < m.numWays,
    min 3 (u.unused (m.setOf req.addr) way + 1) ≤ min 3 (u.unused (m.setOf req.addr) victim + 1)
  recent : ∀ victim, Evicts m env req victim → u.last (m.setOf req.addr) ≠ some victim

/-- No valid entry of the set of an address is of age 3. -/
def Young (m : Mmu) (addr : U32) : Prop :=
  ∀ way < m.numWays, m.valid way (m.setOf addr) = true → m.ageOf way (m.setOf addr) ≠ 3

/-- The ages say how long the entries have not been used. -/
structure Tracked (m : Mmu) (u : Usage) : Prop where
  age : ∀ way set, way < m.numWays → set < 128 → m.valid way set = true →
    u.unused set way = m.ageOf way set
  last : ∀ way set, set < 128 → u.last set = some way → ∀ way' < m.numWays,
    m.valid way' set = true → way' ≠ way → u.unused set way < u.unused set way'

/-- A call counts once for every valid entry of the set. -/
theorem ageOf_age {addr : U32} (hy : m.Young addr) (hw : way < m.numWays)
    (hv : m.valid way (m.setOf addr) = true) :
    (m.age (m.setOf addr)).ageOf way (m.setOf addr) = m.ageOf way (m.setOf addr) + 1 := by
  have hs := m.setOf_lt addr
  unfold ageOf
  rw [matchReg_age hs hs, if_pos ⟨hw, rfl, hv⟩, ageBits_aged (hy way hw hv)]

theorem ageOf_age_other {addr : U32} (hs' : set' < 128) (hne : set' ≠ m.setOf addr) :
    (m.age (m.setOf addr)).ageOf way set' = m.ageOf way set' := by
  unfold ageOf
  rw [matchReg_age (m.setOf_lt addr) hs', if_neg fun h => hne h.2.1.symm]

/-- A used entry is valid and of age zero. -/
theorem usedMatch_fresh (hu : m.usedWay env req = some way) :
    test (m.usedMatch req.addr way) MMUM.V = true ∧ ageBits (m.usedMatch req.addr way) = 0#2 := by
  have hs := m.setOf_lt req.addr
  unfold usedWay at hu
  unfold usedMatch
  split at hu
  · split at hu <;> rename_i hw
    · cases hu
      refine ⟨?_, ageBits_eq ?_⟩
      · have hv : m.matching req.addr way = true := List.find?_some hw
        have hva : (m.age (m.setOf req.addr)).valid way (m.setOf req.addr) = true := by
          rw [valid_age hs hs]
          exact (Bool.and_eq_true _ _ ▸ hv).1
        unfold valid at hva
        rw [← hva]
        exact test_congr (k := MMUM.V) (by decide) (and_not_and_of_disjoint (by decide))
      · rw [BitVec.and_assoc]
        exact BitVec.and_zero
    · refine ⟨test_or_self (by decide), ageBits_eq ?_⟩
      unfold pageAlign
      rw [or_and_of_disjoint (by decide), or_and_of_disjoint (by decide), BitVec.and_assoc]
      exact BitVec.and_zero
  · cases hu

theorem ageOf_translate (hd : req.debug = false) (hy : m.Young req.addr) (hw : way < m.numWays)
    (hs' : set' < 128) (hv : m.valid way set' = true) :
    (m.translate env req).2.1.ageOf way set' =
      if set' = m.setOf req.addr then if m.usedWay env req = some way then 0
        else m.ageOf way set' + 1 else m.ageOf way set' := by
  unfold ageOf
  rw [matchReg_translate hd hs']
  by_cases hset : set' = m.setOf req.addr
  · subst hset
    rw [if_pos rfl]
    by_cases hu : m.usedWay env req = some way
    · rw [if_pos ⟨hu, rfl⟩, if_pos hu, (usedMatch_fresh hu).2]
      rfl
    · rw [if_neg fun h => hu h.1, if_neg hu]
      exact ageOf_age hy hw hv
  · rw [if_neg fun h => hset h.2, if_neg hset]
    exact ageOf_age_other hs' hset

theorem valid_translate (hd : req.debug = false) (hs' : set' < 128)
    (hn : ¬(m.usedWay env req = some way ∧ set' = m.setOf req.addr)) :
    (m.translate env req).2.1.valid way set' = m.valid way set' := by
  unfold valid
  rw [matchReg_translate hd hs', if_neg hn]
  exact valid_age (m.setOf_lt req.addr) hs'

/-- A young set is aged in order, and the ages still say when its entries were used. -/
theorem Tracked.translate (ht : Tracked m u) (hd : req.debug = false) (hy : m.Young req.addr) :
    Tracked (m.translate env req).2.1 (u.after (m.setOf req.addr) (m.usedWay env req)) := by
  constructor
  · intro way set hw hs hv
    rw [numWays_translate] at hw
    unfold Usage.after
    dsimp only
    by_cases hused : m.usedWay env req = some way ∧ set = m.setOf req.addr
    · obtain ⟨hu, rfl⟩ := hused
      rw [if_pos rfl, if_pos hu]
      unfold ageOf
      rw [matchReg_translate hd hs, if_pos ⟨hu, rfl⟩, (usedMatch_fresh hu).2]
      rfl
    · rw [valid_translate hd hs hused] at hv
      rw [ageOf_translate hd hy hw hs hv, ht.age way set hw hs hv]
  · intro way set hs hl way' hw' hv' hne
    rw [numWays_translate] at hw'
    unfold Usage.after at hl ⊢
    dsimp only at hl ⊢
    by_cases hset : set = m.setOf req.addr
    · rw [if_pos hset] at hl
      rw [if_pos hset, if_pos hset]
      cases hu : m.usedWay env req with
      | some w =>
        rw [hu] at hl
        cases hl
        rw [if_pos rfl, if_neg fun h => hne (Option.some.inj h).symm]
        exact Nat.succ_pos _
      | none =>
        rw [hu, Option.none_or] at hl
        rw [if_neg nofun, if_neg nofun]
        rw [valid_translate hd hs (by rw [hu]; exact fun h => nomatch h.1)] at hv'
        exact Nat.succ_lt_succ (ht.last way set hs hl way' hw' hv' hne)
    · rw [if_neg hset] at hl
      rw [if_neg hset, if_neg hset]
      rw [valid_translate hd hs fun h => hset h.2] at hv'
      exact ht.last way set hs hl way' hw' hv' hne

/-- A refill of a full young set evicts the entry that is unused for the longest time. -/
theorem Evicts.oldest {victim : Nat} (he : Evicts m env req victim) (ht : Tracked m u)
    (hy : m.Young req.addr) : (∀ way < m.numWays, m.valid way (m.setOf req.addr) = true) ∧
      ∀ way < m.numWays,
        u.unused (m.setOf req.addr) way ≤ u.unused (m.setOf req.addr) victim := by
  have hs := m.setOf_lt req.addr
  have ha : Alike m (m.age (m.setOf req.addr)) := alike_age hs
  have hlt := usedWay_lt he.used
  have hfind : (m.age (m.setOf req.addr)).findEmptyWay (m.setOf req.addr) = victim := by
    have hu := he.used
    unfold usedWay at hu
    rw [he.miss] at hu
    split at hu
    · exact Option.some.inj hu
    · cases hu
  have hall : ∀ way < (m.age (m.setOf req.addr)).numWays,
      (m.age (m.setOf req.addr)).valid way (m.setOf req.addr) = true := by
    apply findEmptyWay_valid
    rw [hfind, valid_age hs hs]
    exact he.valid
  have hvalid : ∀ way < m.numWays, m.valid way (m.setOf req.addr) = true := by
    intro way hw
    rw [← valid_age hs hs]
    exact hall way (ha.numWays.symm ▸ hw)
  refine ⟨hvalid, fun way hw => ?_⟩
  have hle := ageOf_le_findEmptyWay hall (ha.numWays.symm ▸ hw)
  rw [hfind, ageOf_age hy hw (hvalid way hw), ageOf_age hy hlt he.valid] at hle
  rw [ht.age way _ hw hs (hvalid way hw), ht.age victim _ hlt hs he.valid]
  exact Nat.le_of_succ_le_succ hle

theorem ordered_of_tracked (ht : Tracked m u) (hways : 2 ≤ m.numWays) (hd : req.debug = false)
    (hy : m.Young req.addr) : Ordered m u env req where
  bits way set hs := by
    refine ⟨?_, transReg_age (m.setOf_lt req.addr) way set hs⟩
    rw [matchReg_age (m.setOf_lt req.addr) hs]
    split
    · rename_i h
      obtain ⟨hw, rfl, hv⟩ := h
      exact aged_and_not_lru (hy way hw hv)
    · rfl
  grows way set hw hs hv hn := by
    rw [ageOf_translate hd hy hw hs hv]
    split
    · rename_i hset
      rw [if_neg fun hu => hn ⟨hu, hset⟩]
      exact Nat.le_succ _
    · exact le_refl _
  oldest victim he way hw := by
    have hle := (he.oldest ht hy).2 way hw
    exact min_le_min_left 3 (Nat.succ_le_succ hle)
  recent victim he hl := by
    obtain ⟨hall, hold⟩ := he.oldest ht hy
    have hother : ∃ way < m.numWays, way ≠ victim := by
      by_cases h0 : victim = 0
      · exact ⟨1, hways, by omega⟩
      · exact ⟨0, by omega, fun h => h0 h.symm⟩
    obtain ⟨way, hw, hne⟩ := hother
    have hlt := ht.last victim _ (m.setOf_lt req.addr) hl way hw (hall way hw) hne
    exact absurd (hold way hw) (Nat.not_le.2 hlt)

theorem accesses_next {a : Env σ × Request} (h : (accesses σ).next m a = some m') :
    a.2.debug = false ∧ (m.translate a.1 a.2).2.1 = m' := by
  change (if a.2.debug then none else some (m.translate a.1 a.2).2.1) = some m' at h
  split at h
  · cases h
  · rename_i hd
    exact ⟨eq_false_of_ne_true hd, Option.some.inj h⟩

/-- In a run whose calls find no entry of age 3 in their set, entries are aged and evicted in the
order of their use. -/
theorem aging_ordered {m₀ : Mmu} {q : Mmu × Usage}
    {l : List (Move (Mmu × Usage) (Env σ × Request))} (hways : 2 ≤ m₀.numWays)
    (h : (aging σ).Path (m₀, .start m₀) l q) (hy : ∀ mv ∈ l, mv.pre.1.Young mv.act.2.addr) :
    ∀ mv ∈ l, Ordered mv.pre.1 mv.pre.2 mv.act.1 mv.act.2 := by
  refine (h.forall_of (P := fun p => Tracked p.1 p.2 ∧ 2 ≤ p.1.numWays)
    (R := fun mv => Ordered mv.pre.1 mv.pre.2 mv.act.1 mv.act.2) ?_ hy ?_).2
  · rintro p a t hn hyoung ⟨ht, hw⟩
    obtain ⟨m', hm, rfl⟩ := System.watch_next hn
    obtain ⟨hd, rfl⟩ := accesses_next hm
    exact ⟨⟨ht.translate hd hyoung, by rw [numWays_translate]; exact hw⟩,
      ordered_of_tracked ht hw hd hyoung⟩
  · exact ⟨⟨fun _ _ _ _ _ => rfl, fun _ _ _ hl => nomatch hl⟩, hways⟩

end Runs

/-! ## An entry that ages too far -/

/-- Pages 0, 128, 256, 384 and 512, which share a set. -/
def agingEnv : Env Memory :=
  Memory.env 0x8000 (Memory.image [(0x2000, 0x4000#32), (0x4000, 0x7c0#32), (0x4200, 0x27c0#32),
    (0x4400, 0x47c0#32), (0x4600, 0x67c0#32), (0x4800, 0x87c0#32)])

/-- A load of the supervisor from page `128 * n`. -/
def agingLoad (n : Nat) : Env Memory × Request :=
  (agingEnv, { tableLoad false with addr := BitVec.ofNat 32 (n * 0x100000) })

/-- The ages of ways 0 and 2 start again, and the fifth page evicts the entry used just before. -/
theorem aging_ordered_fails : ∃ (m₀ : Mmu) (m : Mmu) (u : Usage) (env : Env Memory) (req : Request),
    2 ≤ m₀.numWays ∧ (aging Memory).Run (m₀, .start m₀) (m, u) ∧ req.debug = false ∧
      ¬Ordered m u env req := by
  obtain ⟨⟨m, u⟩, hr, hp⟩ := System.exists_run (aging Memory) (tableMmu, .start tableMmu)
    ([0, 1, 2, 1, 2, 3, 3, 3].map agingLoad)
    (fun q => q.1.hitWay (agingLoad 4).2.addr == none && q.2.last 0 == some 3 &&
      q.1.usedWay agingEnv (agingLoad 4).2 == some 3 && q.1.valid 3 0 &&
        q.1.setOf (agingLoad 4).2.addr == 0) (by decide +kernel)
  simp only [Bool.and_eq_true, beq_iff_eq] at hp
  obtain ⟨⟨⟨⟨hmiss, hlast⟩, hused⟩, hvalid⟩, hset⟩ := hp
  refine ⟨tableMmu, m, u, agingEnv, (agingLoad 4).2, by decide, hr, rfl, fun h => ?_⟩
  refine h.recent 3 ⟨hmiss, hused, ?_⟩ ?_
  · rw [hset]
    exact hvalid
  · rw [hset]
    exact hlast

/-- The same with two ways. -/
def twoWayMmu : Mmu := (init (MMUCFG.cpu ^^^ 2#32)).setCr 0x2000#32

instance (m : Mmu) (addr : U32) : Decidable (m.Young addr) :=
  inferInstanceAs (Decidable (∀ way < m.numWays, m.valid way (m.setOf addr) = true →
    m.ageOf way (m.setOf addr) ≠ 3))

/-- Of two entries the one that was not used again is evicted, at age 1. -/
theorem aging_ordered_evicts : ∃ (q : Mmu × Usage) (l : List (Move (Mmu × Usage) (Env Memory × Request))),
    (aging Memory).Path (twoWayMmu, .start twoWayMmu) l q ∧
      (∀ mv ∈ l, Ordered mv.pre.1 mv.pre.2 mv.act.1 mv.act.2) ∧
      ∃ mv ∈ l, Evicts mv.pre.1 mv.act.1 mv.act.2 1 ∧ mv.pre.1.ageOf 1 0 = 1 ∧
        mv.pre.2.last 0 = some 0 := by
  obtain ⟨l, q, hl, hn, hy, -⟩ := System.exists_path (aging Memory)
    (fun mv => mv.pre.1.hitWay mv.act.2.addr == none && mv.pre.1.usedWay mv.act.1 mv.act.2 == some 1 &&
      mv.pre.1.valid 1 (mv.pre.1.setOf mv.act.2.addr) && mv.pre.1.ageOf 1 0 == 1 &&
        mv.pre.2.last 0 == some 0)
    (fun q a => decide (q.1.Young a.2.addr)) (twoWayMmu, .start twoWayMmu)
    ([0, 1, 0, 2].map agingLoad) 1 (fun _ => true) (by decide +kernel)
  have hord := aging_ordered (by decide) hl fun mv hm => of_decide_eq_true (hy mv hm)
  obtain ⟨mv, hm, hp⟩ := List.countP_pos_iff.1 (hn ▸ Nat.one_pos)
  simp only [Bool.and_eq_true, beq_iff_eq] at hp
  obtain ⟨⟨⟨⟨hmiss, hused⟩, hvalid⟩, hage⟩, hlast⟩ := hp
  exact ⟨q, l, hl, hord, mv, hm, ⟨hmiss, hused, hvalid⟩, hage, hlast⟩

end Mmu

end Or1kiss
