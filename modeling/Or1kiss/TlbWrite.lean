import Or1kiss.Refill

/-!
# Loading the TLB

A handler loads a translation by two writes to special purpose registers. Their numbers are split
three times: `set_spr` finds the MMU by range, `set_tlb` takes way and set from the rest, and
`translate` looks the registers up by way and set. The splits fit (`tlb_loaded`): the next access
to the page finds what was written, and the entries elsewhere answer as before.
-/

namespace Or1kiss

open Bits

variable {σ : Type}

/-! ## What a hit answers -/

namespace Mmu

variable {m : Mmu} {req : Request}

theorem transReg_ageWay {set : Nat} (hs : set < 128) (way way' set' : Nat) (hs' : set' < 128) :
    (ageWay set m way).transReg way' set' = m.transReg way' set' := by
  unfold ageWay
  dsimp only
  split
  · exact transReg_write_match hs hs' _
  · rfl

/-- Aging keeps the translate registers. -/
theorem transReg_age {set : Nat} (hs : set < 128) (way set' : Nat) (hs' : set' < 128) :
    (m.age set).transReg way set' = m.transReg way set' := by
  unfold age
  generalize List.range m.numWays = ways
  induction ways generalizing m with
  | nil => rfl
  | cons w ws ih => exact ih.trans (transReg_ageWay hs w way set' hs')

/-- What an access gets from a translate register. -/
def hitAnswer (trans : U32) (req : Request) : MmuResult × Request :=
  if req.debug then (.okay, resolve req trans)
  else if !test trans (accessMask req) then (.pageFault, req)
  else (.okay, resolve req
    (if req.read then trans ||| MMUPTE.A else trans ||| MMUPTE.A ||| MMUPTE.D))

theorem hit_answer (m : Mmu) (way : Nat) (req : Request) :
    ((m.hit way req).1, (m.hit way req).2.2) =
      hitAnswer (m.transReg way (m.setOf req.addr)) req := by
  unfold hit hitAnswer
  dsimp only
  split
  · rfl
  · split <;> rfl

/-- The result and the request of a translation that hits. -/
theorem translate_hit [EnvImpl σ] {way : Nat} (env : Env σ) (hw : m.hitWay req.addr = some way) :
    ((m.translate env req).1, (m.translate env req).2.2.2) =
        hitAnswer (m.transReg way (m.setOf req.addr)) req ∧
      (m.translate env req).2.2.1 = env := by
  have hs := m.setOf_lt req.addr
  have ha : Alike m (m.age (m.setOf req.addr)) := alike_age hs
  cases hd : req.debug with
  | true =>
    unfold translate
    rw [hd, if_pos rfl]
    dsimp only
    rw [hw]
    exact ⟨hit_answer m way req, rfl⟩
  | false =>
    unfold translate
    rw [hd, if_neg Bool.false_ne_true]
    dsimp only
    rw [ha.hitWay rfl, hw]
    refine ⟨(hit_answer _ way req).trans ?_, rfl⟩
    rw [ha.setOf, transReg_age hs way _ hs]

/-! ## The registers of a way -/

theorem numWays_le (m : Mmu) : m.numWays ≤ 4 := by
  have h := (m.cfg <<< (31 - 1)).isLt
  unfold numWays bits32
  rw [BitVec.toNat_ushiftRight, Nat.shiftRight_eq_div_pow]
  omega

theorem setTlb_write {way set r : Nat} (v : U32) (hw : way < m.numWays) (hs : set < m.numSets)
    (hr : r = set ∨ r = set + 128) :
    m.setTlb (BitVec.ofNat 32 (way * 256 + r)) v = m.write (way * 256 + r) v := by
  have hset := m.numSets_le
  have hways := m.numWays_le
  have hn : (BitVec.ofNat 32 (way * 256 + r)).toNat = way * 256 + r := by
    rw [BitVec.toNat_ofNat, Nat.mod_eq_of_lt (by omega)]
  have hway : (BitVec.ofNat 32 (way * 256 + r) >>> 8).toNat = way := by
    rw [BitVec.toNat_ushiftRight, hn, Nat.shiftRight_eq_div_pow]
    omega
  have hlow : (BitVec.ofNat 32 (way * 256 + r) &&& 0x7f#32).toNat = set := by
    rw [BitVec.toNat_and, hn]
    refine (Nat.and_two_pow_sub_one_eq_mod (way * 256 + r) 7).trans ?_
    omega
  unfold setTlb
  dsimp only
  rw [hway, hlow, hn, if_neg (by omega)]

theorem pageAlign_valid (ea : U32) : pageAlign (pageAlign ea ||| MMUM.V) = pageAlign ea := by
  unfold pageAlign
  rw [or_and_of_disjoint (by decide), BitVec.and_assoc, BitVec.and_self]

/-- Both registers of a way and set. -/
def load (m : Mmu) (way set : Nat) (matchv trans : U32) : Mmu :=
  (m.write (tlbMR way set) matchv).write (tlbTR way set) trans

section Load

variable {way set : Nat} {matchv trans : U32}

theorem matchReg_load {way' set' : Nat} (hs : set < 128) (hs' : set' < 128) :
    (m.load way set matchv trans).matchReg way' set' =
      if way' = way ∧ set' = set then matchv else m.matchReg way' set' := by
  unfold load
  rw [matchReg_write_trans hs hs', matchReg_write_match]
  by_cases h : way' = way ∧ set' = set
  · rw [if_pos h, if_pos (by rw [h.1, h.2])]
  · rw [if_neg h, if_neg fun he => h (tlbMR_inj hs hs' he)]

theorem transReg_load {way' set' : Nat} (hs : set < 128) (hs' : set' < 128) :
    (m.load way set matchv trans).transReg way' set' =
      if way' = way ∧ set' = set then trans else m.transReg way' set' := by
  unfold load
  rw [transReg_write_trans, transReg_write_match hs hs']
  by_cases h : way' = way ∧ set' = set
  · rw [if_pos h, if_pos (by rw [h.1, h.2])]
  · have hne : tlbTR way' set' ≠ tlbTR way set := fun he =>
      h (tlbMR_inj hs hs' (Nat.add_right_cancel he))
    rw [if_neg h, if_neg hne]

theorem setOf_load (addr : U32) : (m.load way set matchv trans).setOf addr = m.setOf addr := rfl

/-- The way a match is loaded into is the first one if no lower way matches. -/
theorem hitWay_load {ea : U32} (trans : U32) (hw : way < m.numWays)
    (hlow : ∀ way' < way, m.matching ea way' = false) :
    (m.load way (m.setOf ea) (pageAlign ea ||| MMUM.V) trans).hitWay ea = some way := by
  have hs := m.setOf_lt ea
  rw [hitWay_eq]
  refine List.find?_range_eq_some.2 ⟨?_, List.mem_range.2 hw, fun way' hw' => ?_⟩
  · unfold matching
    rw [setOf_load, matchReg_load hs hs, if_pos ⟨rfl, rfl⟩]
    rw [test_or_self (by decide), Bool.true_and, pageAlign_eq_iff, pageAlign_idem, pageAlign_valid]
  · unfold matching
    rw [setOf_load, matchReg_load hs hs, if_neg fun h => absurd h.1 (by omega)]
    rw [← matching, hlow way' hw']
    rfl

/-- A page that is found elsewhere is found there still. -/
theorem hitWay_load_other {ea addr : U32} {way' : Nat} (trans : U32) (hp : pageAlign addr ≠ pageAlign ea)
    (hne : ¬(way' = way ∧ m.setOf addr = m.setOf ea)) (hw : m.hitWay addr = some way') :
    (m.load way (m.setOf ea) (pageAlign ea ||| MMUM.V) trans).hitWay addr = some way' := by
  have hs := m.setOf_lt ea
  have hs' := m.setOf_lt addr
  rw [hitWay_eq] at hw ⊢
  obtain ⟨hm, hlt, hfirst⟩ := List.find?_range_eq_some.1 hw
  refine List.find?_range_eq_some.2 ⟨?_, hlt, fun w hw' => ?_⟩
  · unfold matching
    rw [setOf_load, matchReg_load hs hs', if_neg hne]
    exact hm
  · have hold := hfirst w hw'
    unfold matching
    rw [setOf_load, matchReg_load hs hs']
    split
    · have hf : pageCompare (pageAlign addr) (pageAlign ea ||| MMUM.V) = false := by
        rw [Bool.eq_false_iff]
        intro hc
        rw [pageAlign_eq_iff, pageAlign_idem, pageAlign_valid] at hc
        exact hp hc
      rw [hf, Bool.and_false]
      rfl
    · exact hold

end Load

end Mmu

/-! ## The numbers of the registers -/

/-- The MMU that a group of special purpose registers belongs to. -/
inductive MmuGroup where
  | dmmu
  | immu
  deriving DecidableEq, Repr

namespace MmuGroup

/-- `SPR_DTLBW0MR` and `SPR_ITLBW0MR` -/
def w0mr : MmuGroup → Nat
  | .dmmu => 0xa00
  | .immu => 0x1200

/-- Match registers of a way, and its translate registers behind them. -/
def mr (g : MmuGroup) (way set : Nat) : U32 := BitVec.ofNat 32 (g.w0mr + (256 * way + set))

def tr (g : MmuGroup) (way set : Nat) : U32 := BitVec.ofNat 32 (g.w0mr + (256 * way + 128 + set))

/-- The registers of way 3 end the file. -/
def file : MmuGroup → SprFile
  | .dmmu => .dtlb
  | .immu => .itlb

def mmu (g : MmuGroup) (c : Core σ) : Mmu :=
  match g with
  | .dmmu => c.dmmu
  | .immu => c.immu

variable {g : MmuGroup} {k : Nat}

theorem toNat_reg (g : MmuGroup) (hk : k < 1024) :
    (BitVec.ofNat 32 (g.w0mr + k)).toNat = g.w0mr + k := by
  rw [BitVec.toNat_ofNat]
  apply Nat.mod_eq_of_lt
  cases g <;> simp only [w0mr] <;> omega

/-- No named register has a number of the files. -/
theorem spReg_none (g : MmuGroup) (hk : k < 1024) :
    SpReg.ofNum (BitVec.ofNat 32 (g.w0mr + k)) = none := by
  have hout : ∀ r : SpReg, r.num.toNat < g.w0mr ∨ g.w0mr + 1024 ≤ r.num.toNat := by
    intro r
    cases g <;> cases r <;> decide
  unfold SpReg.ofNum
  rw [List.find?_eq_none]
  intro r _ he
  have hn := congrArg BitVec.toNat (beq_iff_eq.1 he)
  rw [toNat_reg g hk] at hn
  have := hout r
  omega

theorem sprFile_some (g : MmuGroup) (hk : k < 1024) :
    SprFile.ofNum ((g.w0mr + k : Nat) : Int) = some g.file := by
  have hin : ∀ f : SprFile, (decide ((f.range.1 : Int) ≤ ((g.w0mr + k : Nat) : Int)) &&
      decide (((g.w0mr + k : Nat) : Int) < f.range.2)) = decide (f = g.file) := by
    intro f
    rw [← Bool.decide_and]
    apply decide_eq_decide.2
    cases g <;> cases f <;> simp [SprFile.range, w0mr, file] <;> omega
  unfold SprFile.ofNum
  rw [funext hin]
  cases g <;> rfl

theorem access_reg (g : MmuGroup) (hk : k < 1024) :
    sprGetAccess (BitVec.ofNat 32 (g.w0mr + k)) = .superReadWrite := by
  have hi : (BitVec.ofNat 32 (g.w0mr + k)).toInt = ((g.w0mr + k : Nat) : Int) := by
    rw [BitVec.toInt_eq_toNat_of_lt, toNat_reg g hk]
    rw [toNat_reg g hk]
    cases g <;> simp only [w0mr] <;> omega
  unfold sprGetAccess
  rw [spReg_none g hk, hi, sprFile_some g hk]

theorem offset_reg (g : MmuGroup) : g.file.offset (BitVec.ofNat 32 (g.w0mr + k)) = BitVec.ofNat 32 k := by
  unfold SprFile.offset
  rw [BitVec.ofNat_add, BitVec.add_comm]
  cases g <;> exact BitVec.add_sub_cancel _ _

/-- A supervisor's write lands in the MMU of the group. -/
theorem setSpr_reg [EnvImpl σ] {s : Or1k σ} (hs : s.isSupervisor = true) (hk : k < 1024) (v : U32) :
    ∃ s', s.setSpr (BitVec.ofNat 32 (g.w0mr + k)) v false = .ok s' ∧ s'.isSupervisor = true ∧
      g.mmu s'.toCore = (g.mmu s.toCore).setTlb (BitVec.ofNat 32 k) v := by
  have hd : s.writeDenied (BitVec.ofNat 32 (g.w0mr + k)) false = false := by
    unfold Or1k.writeDenied sprCheckAccess
    rw [access_reg g hk, hs]
    rfl
  refine ⟨s.requestBreak.withCore
    (s.requestBreak.toCore.writeFile g.file (g.file.offset (BitVec.ofNat 32 (g.w0mr + k))) v), ?_, ?_, ?_⟩
  · unfold Or1k.setSpr Or1k.writeSpr
    rw [hd, if_neg Bool.false_ne_true, spReg_none g hk]
    dsimp only
    rw [toNat_reg g hk, sprFile_some g hk]
  · cases g <;> exact hs
  · rw [offset_reg]
    cases g <;> rfl

/-- Both writes of a supervisor. -/
theorem setSpr_load [EnvImpl σ] {s : Or1k σ} {way set : Nat} (hs : s.isSupervisor = true)
    (hw : way < (g.mmu s.toCore).numWays) (hset : set < (g.mmu s.toCore).numSets)
    (matchv trans : U32) : ∃ s₁ s₂, s.setSpr (g.mr way set) matchv false = .ok s₁ ∧
      s₁.setSpr (g.tr way set) trans false = .ok s₂ ∧
      g.mmu s₂.toCore = (g.mmu s.toCore).load way set matchv trans := by
  have hways := (g.mmu s.toCore).numWays_le
  have hsets := (g.mmu s.toCore).numSets_le
  obtain ⟨s₁, h₁, hs₁, hm₁⟩ := setSpr_reg (g := g) (k := 256 * way + set) hs (by omega) matchv
  obtain ⟨s₂, h₂, -, hm₂⟩ := setSpr_reg (g := g) (k := 256 * way + 128 + set) hs₁ (by omega) trans
  refine ⟨s₁, s₂, h₁, h₂, ?_⟩
  have hmr : 256 * way + set = way * 256 + set := by omega
  have htr : 256 * way + 128 + set = way * 256 + (set + 128) := by omega
  rw [hmr, Mmu.setTlb_write _ hw hset (.inl rfl)] at hm₁
  rw [htr, hm₁, Mmu.setTlb_write (m := (g.mmu s.toCore).write _ _) _ hw hset (.inr rfl)] at hm₂
  rw [hm₂]
  unfold Mmu.load tlbTR tlbMR
  rw [Nat.add_assoc]

end MmuGroup

/-! ## What a handler loads -/

theorem pageAlign_of_offset {a : U32} (h : pageOffset a = 0#32) : pageAlign a = a := by
  have hsplit := pageAlign_or_pageOffset a
  rwa [h, BitVec.or_zero] at hsplit

/-- The rights of a translate register are those of its low bits. -/
theorem Mmu.test_rights {ppage perm : U32} (hp : pageOffset ppage = 0#32) (req : Request) :
    test (ppage ||| perm) (accessMask req) = test perm (accessMask req) := by
  have hmask : pageMask &&& accessMask req = accessMask req := by
    unfold accessMask
    split
    · decide
    · split
      · split <;> decide
      · split <;> split <;> decide
  have hz : test ppage (accessMask req) = false := by
    rw [test_eq_false_iff, ← hmask, ← BitVec.and_assoc]
    rw [show ppage &&& pageMask = 0#32 from hp, BitVec.zero_and]
  rw [test_or, hz, Bool.false_or]

/-- A supervisor loads a page into a way of the TLB: accesses to the page go by what was loaded,
and the pages that other entries hold are translated as before. -/
theorem tlb_loaded [EnvImpl σ] {s : Or1k σ} {g : MmuGroup} {way : Nat} {ea ppage perm : U32}
    (hs : s.isSupervisor = true) (hw : way < (g.mmu s.toCore).numWays)
    (hpp : pageOffset ppage = 0#32) (hperm : pageAlign perm = 0#32)
    (hlow : ∀ way' < way, (g.mmu s.toCore).matching ea way' = false) :
    ∃ s₁ s₂,
      s.setSpr (g.mr way ((g.mmu s.toCore).setOf ea)) (pageAlign ea ||| MMUM.V) false = .ok s₁ ∧
      s₁.setSpr (g.tr way ((g.mmu s.toCore).setOf ea)) (ppage ||| perm) false = .ok s₂ ∧
      (∀ (env : Env σ) (req : Request), req.debug = false → req.addr = ea →
        if test perm (accessMask req) then
          ((g.mmu s₂.toCore).translate env req).1 = .okay ∧
            ((g.mmu s₂.toCore).translate env req).2.2.2.addr = ppage ||| pageOffset ea
        else ((g.mmu s₂.toCore).translate env req).1 = .pageFault) ∧
      ∀ (env : Env σ) (req : Request) (way' : Nat),
        (g.mmu s.toCore).hitWay req.addr = some way' → pageAlign req.addr ≠ pageAlign ea →
        (way' ≠ way ∨ (g.mmu s.toCore).setOf req.addr ≠ (g.mmu s.toCore).setOf ea) →
          ((g.mmu s₂.toCore).translate env req).1 = ((g.mmu s.toCore).translate env req).1 ∧
            ((g.mmu s₂.toCore).translate env req).2.2 = ((g.mmu s.toCore).translate env req).2.2 := by
  have hset := (g.mmu s.toCore).setOf_lt ea
  obtain ⟨s₁, s₂, h₁, h₂, hm⟩ := MmuGroup.setSpr_load hs hw ((g.mmu s.toCore).setOf_lt_numSets ea)
    (pageAlign ea ||| MMUM.V) (ppage ||| perm)
  refine ⟨s₁, s₂, h₁, h₂, ?_, ?_⟩
  · rintro env req hd rfl
    rw [hm]
    have ht := (Mmu.translate_hit env (Mmu.hitWay_load (ppage ||| perm) hw hlow)).1
    rw [Mmu.setOf_load, Mmu.transReg_load hset hset, if_pos ⟨rfl, rfl⟩] at ht
    unfold Mmu.hitAnswer at ht
    rw [hd, if_neg Bool.false_ne_true, Mmu.test_rights hpp] at ht
    have hpage : pageAlign (ppage ||| perm) = ppage := by
      rw [Mmu.pageAlign_accessed _ _ hperm, pageAlign_of_offset hpp]
    cases hp : test perm (accessMask req) with
    | false =>
      rw [hp] at ht
      rw [if_neg Bool.false_ne_true]
      exact congrArg Prod.fst ht
    | true =>
      rw [hp] at ht
      rw [if_pos rfl]
      refine ⟨congrArg Prod.fst ht, (congrArg (fun x => x.2.addr) ht).trans ?_⟩
      show pageAlign _ ||| pageOffset req.addr = _
      congr 1
      split
      · rw [Mmu.pageAlign_accessed _ _ (by decide), hpage]
      · rw [Mmu.pageAlign_accessed _ _ (by decide), Mmu.pageAlign_accessed _ _ (by decide), hpage]
  · intro env req way' hhit hpage hne
    have hother : ¬(way' = way ∧ (g.mmu s.toCore).setOf req.addr = (g.mmu s.toCore).setOf ea) :=
      fun h => hne.elim (· h.1) (· h.2)
    have hold := Mmu.translate_hit env hhit
    have hnew := Mmu.translate_hit env
      (Mmu.hitWay_load_other (ppage ||| perm) hpage hother hhit)
    rw [Mmu.setOf_load, Mmu.transReg_load hset ((g.mmu s.toCore).setOf_lt _), if_neg hother] at hnew
    rw [hm]
    have hx := Prod.ext_iff.1 (hnew.1.trans hold.1.symm)
    exact ⟨hx.1, Prod.ext (hnew.2.trans hold.2.symm) hx.2⟩

/-- After reset the supervisor loads page 3 for page 0 into way 1 of the data MMU. -/
theorem tlb_loaded_reset : ∃ s : Or1k Memory,
    (s.dmmu.translate (Memory.env 0x8000 (Memory.image [])) (Mmu.tableLoad false)).1 = .okay := by
  let s : Or1k Memory := .init (Memory.env 0x8000 (Memory.image [])) 0
  have hs : s.isSupervisor = true := by decide
  have hw : 1 < (MmuGroup.dmmu.mmu s.toCore).numWays := by decide
  have hpp : pageOffset 0x6000#32 = 0#32 := by decide
  have hperm : pageAlign 0x100#32 = 0#32 := by decide
  have hlow : ∀ way < 1, (MmuGroup.dmmu.mmu s.toCore).matching 0#32 way = false := by decide +kernel
  obtain ⟨s₁, s₂, -, -, h, -⟩ := tlb_loaded hs hw hpp hperm hlow
  have ht := h (Memory.env 0x8000 (Memory.image [])) (Mmu.tableLoad false) rfl rfl
  rw [if_pos (by decide)] at ht
  exact ⟨s₂, ht.1⟩

end Or1kiss
