import Or1kiss.PageCache
import Or1kiss.Refinement
import Or1kiss.TlbWrite
import Or1kiss.UserMode

/-!
# Memory protection

In user mode, behind the data MMU, a program writes to the frames that the TLB and the page tables
let user mode write to (`Mmu.Encloses`), and to no other byte of memory, however long it runs
before an exception takes it out of user mode (`user_enclosed`). The frames may hold anything but
page tables that would let user mode write elsewhere.
-/

namespace Or1kiss

open Host Bits Outcome Runs

variable {W : U32 → Prop} {e e' : Env Memory} {m m' : Mmu} {req : Request}

/-- The byte lies in one of the frames. -/
def InFrames (W : U32 → Prop) (b : Nat) : Prop := ∃ a : U32, W (pageAlign a) ∧ a.toNat = b

/-- Memory outside of the frames is as it was. -/
def KeepsOutside (W : U32 → Prop) (e e' : Env Memory) : Prop :=
  ∀ b, ¬InFrames W b → e'.world.mem b = e.world.mem b

theorem KeepsOutside.refl (W : U32 → Prop) (e : Env Memory) : KeepsOutside W e e := fun _ _ => rfl

theorem KeepsOutside.trans {e'' : Env Memory} (h : KeepsOutside W e e') (h' : KeepsOutside W e' e'') :
    KeepsOutside W e e'' := fun b hb => (h' b hb).trans (h b hb)

theorem KeepsOutside.of_mem (h : e'.world.mem = e.world.mem) : KeepsOutside W e e' :=
  fun b _ => congrFun h b

/-- The port later on: what it serves has changed, its size has not. -/
structure Later (e e' : Env Memory) : Prop where
  served : e.Served e'
  size : e'.world.dev.size = e.world.dev.size

theorem Later.refl (e : Env Memory) : Later e e := ⟨.refl e, rfl⟩

theorem Later.trans {e'' : Env Memory} (h : Later e e') (h' : Later e' e'') : Later e e'' :=
  ⟨h.served.trans h'.served, h'.size.trans h.size⟩

namespace Memory

theorem transact_later {w : World Memory} : (transact req w).world.dev.size = w.dev.size := by
  unfold transact
  split
  · rfl
  · dsimp only
    split <;> rfl

theorem access_later : Later e (e.access req).2.2 := by
  refine ⟨Env.access_served req, ?_⟩
  unfold Env.access
  split
  · dsimp only
    split
    · unfold Env.exclusiveAccess
      split
      · rfl
      · split
        · rfl
        · split <;> rfl
    · split <;> rfl
  · exact transact_later

theorem convertAndTransact_later : Later e (e.convertAndTransact req).2.2 := by
  by_cases hc : req.size > 1 ∧ req.endian ≠ e.endian
  · rw [Env.convertAndTransact_swapped hc]
    exact access_later
  · rw [Env.convertAndTransact_direct hc]
    exact access_later

theorem walk_later : Later e (m.walk e req).2 := by
  have h1 : Later e (Mmu.readPte e (Mmu.walkRequest e req)
    ((m.ctrl &&& MMUCR.PGD) + (bits32 req.addr 31 24 <<< 2))).2.2.2 := convertAndTransact_later
  unfold Mmu.walk
  dsimp only
  split
  · exact .refl e
  · split <;> rename_i he1 <;> rw [he1] at h1
    · rename_i pte1 r1 env1
      split
      · exact h1
      · have h2 : Later env1 (Mmu.readPte env1 r1
          (pageAlign pte1 + (bits32 req.addr 23 13 <<< 2))).2.2.2 := convertAndTransact_later
        split <;> rename_i he2 <;> rw [he2] at h2
        · split <;> exact h1.trans h2
        · exact h1.trans h2
    · exact h1

theorem translate_later : Later e (m.translate e req).2.2.1 := by
  unfold Mmu.translate
  dsimp only
  generalize (if req.debug = true then m else m.age (m.setOf req.addr)) = m'
  split
  · exact .refl e
  · split
    · exact .refl e
    · have h : Later e (m'.walk e req).2 := walk_later
      split <;> rename_i he <;> rw [he] at h <;> exact h

end Memory

theorem mod_of_isAligned {a : U32} {n : Nat} (hn : n = 1 ∨ n = 2 ∨ n = 4)
    (h : isAligned a n = true) : a.toNat % n = 0 := by
  have hz := congrArg BitVec.toNat (beq_iff_eq.1 h)
  rw [BitVec.toNat_and] at hz
  rcases hn with rfl | rfl | rfl
  · exact Nat.mod_one _
  · exact (Nat.and_two_pow_sub_one_eq_mod a.toNat 1).symm.trans hz
  · exact (Nat.and_two_pow_sub_one_eq_mod a.toNat 2).symm.trans hz

/-- An aligned access stays in the page that it begins in. -/
theorem page_of_access {a : U32} {n b : Nat} (hn : n = 1 ∨ n = 2 ∨ n = 4) (ha : isAligned a n = true)
    (h1 : a.toNat ≤ b) (h2 : b < a.toNat + n) :
    (BitVec.ofNat 32 b).toNat = b ∧ pageAlign (BitVec.ofNat 32 b) = pageAlign a := by
  have hmod := mod_of_isAligned hn ha
  have hlt := a.isLt
  have hb : b < 2 ^ 32 := by rcases hn with rfl | rfl | rfl <;> omega
  have hto : (BitVec.ofNat 32 b).toNat = b := Nat.mod_eq_of_lt hb
  refine ⟨hto, pageAlign_congr ?_⟩
  rw [← BitVec.toNat_inj, Gdb.toNat_pageNumber, Gdb.toNat_pageNumber, hto]
  rcases hn with rfl | rfl | rfl <;> omega

namespace Mmu

/-! ## Translation -/

/-- The translation that a matching way holds is that of another MMU, or the one refilled. -/
theorem Refilled.matching {e : Env σ} [EnvImpl σ] {pte2 va : U32} {way way' : Nat}
    (hr : Refilled m e req pte2 way m') (hm : m'.matching va way' = true) :
    (m.matching va way' = true ∧
      m'.transReg way' (m'.setOf va) &&& transMask = m.transReg way' (m.setOf va) &&& transMask) ∨
    (pageAlign va = pageAlign req.addr ∧
      m'.transReg way' (m'.setOf va) &&& transMask = refillTrans pte2 req &&& transMask) := by
  have hset : m'.setOf va = m.setOf va := by
    unfold setOf setMask numSets
    rw [hr.cfg]
  by_cases hsame : way' = way ∧ m.setOf va = m.setOf req.addr
  · obtain ⟨rfl, hs⟩ := hsame
    have hf := hr.filled
    rw [← hs, ← hset] at hf
    refine .inr ⟨?_, congrArg Prod.snd hf⟩
    have hp := (Bool.and_eq_true_iff.1 hm).2
    have hmr : m'.matchReg way' (m'.setOf va) &&& matchMask = pageAlign req.addr ||| MMUM.V :=
      congrArg Prod.fst hf
    rwa [pageAlign_eq_iff, pageAlign_idem, ← pageAlign_matchMask (m'.matchReg _ _), hmr,
      pageAlign_valid] at hp
  · have he := hr.others way' (m.setOf va) (m.setOf_lt va) (by omega)
    refine .inl ⟨(matching_congr rfl hset (congrArg Prod.fst he)).symm.trans hm, ?_⟩
    rw [hset]
    exact congrArg Prod.snd he

theorem Alike.matching {va : U32} {way : Nat} (h : Alike m m') :
    m'.matching va way = m.matching va way :=
  matching_congr rfl (h.setOf va) (congrArg Prod.fst (h.entry way _ (m.setOf_lt va)))

theorem Alike.transReg {va : U32} {way : Nat} (h : Alike m m') :
    m'.transReg way (m'.setOf va) &&& transMask = m.transReg way (m.setOf va) &&& transMask := by
  rw [h.setOf]
  exact congrArg Prod.snd (h.entry way _ (m.setOf_lt va))

/-- A refill for a data access puts the rights of the page table in the TLB. -/
theorem refillTrans_data {pte2 mask : U32} (hi : req.imem = false) (hm : MMUPTE.CC &&& mask = 0#32) :
    refillTrans pte2 req &&& mask = pte2 &&& mask := by
  unfold refillTrans
  rw [hi]
  exact or_and_of_disjoint hm

/-- User mode may write to these frames only: by the entries of the TLB, and by the page tables,
whatever is written to the frames. -/
structure Encloses (W : U32 → Prop) (e : Env Memory) (m : Mmu) : Prop where
  entries : ∀ va way, way < m.numWays → m.matching va way = true →
    test (m.transReg way (m.setOf va)) MMU.UWE = true → W (pageAlign (m.transReg way (m.setOf va)))
  tables : ∀ e', Later e e' → KeepsOutside W e e' → ∀ req pte2 n,
    (m.walk e' req).1 = some (pte2, n) → test pte2 MMU.UWE = true → W (pageAlign pte2)

theorem Encloses.alike (h : Encloses W e m) (ha : Alike m m') : Encloses W e m' where
  entries va way hw hm hu := by
    rw [ha.numWays] at hw
    rw [ha.matching] at hm
    rw [test_congr (k := transMask) (by decide) ha.transReg] at hu
    rw [← pageAlign_transMask, ha.transReg, pageAlign_transMask]
    exact h.entries va way hw hm hu
  tables e' hs hk req pte2 n hw := by
    rw [walk_alike ha] at hw
    exact h.tables e' hs hk req pte2 n hw

theorem Encloses.refilled {pte2 : U32} {way : Nat} (h : Encloses W e m) (hs : Later e e')
    (hk : KeepsOutside W e e') (hi : req.imem = false) (hr : Refilled m e' req pte2 way m') :
    Encloses W e m' where
  entries va way' hw' hm hu := by
    have hways : m'.numWays = m.numWays := by
      unfold numWays
      rw [hr.cfg]
    rw [hways] at hw'
    rcases hr.matching hm with ⟨hold, ht⟩ | ⟨-, ht⟩
    · rw [test_congr (k := transMask) (by decide) ht] at hu
      rw [← pageAlign_transMask, ht, pageAlign_transMask]
      exact h.entries va way' hw' hold hu
    · obtain ⟨n, hn⟩ := hr.walked
      rw [test_congr (k := transMask) (by decide) ht,
        test_congr BitVec.and_self (refillTrans_data hi (by decide))] at hu
      rw [← pageAlign_transMask, ht, pageAlign_transMask, pageAlign_refillTrans]
      exact h.tables e' hs hk req pte2 n hn hu
  tables e'' hs hk req' pte2' n hw := by
    refine h.tables e'' hs hk req' pte2' n ?_
    rw [← hw]
    unfold walk
    rw [hr.ctrl]

theorem Encloses.translate (h : Encloses W e m) (hs : Later e e') (hk : KeepsOutside W e e')
    (hi : req.imem = false) : Encloses W e (m.translate e' req).2.1 := by
  rcases m.translate_entries e' req with ha | ⟨pte2, way, hr⟩
  · exact h.alike ha
  · exact h.refilled hs hk hi hr

/-- A store of user mode goes to one of the frames. -/
theorem Encloses.store (h : Encloses W e m) (hs : Later e e') (hk : KeepsOutside W e e')
    (hd : req.debug = false) (hi : req.imem = false) (hr : req.read = false) (hu : req.super = false)
    (ho : (m.translate e' req).1 = .okay) : W (pageAlign (m.translate e' req).2.2.2.addr) := by
  have hmask : accessMask req = MMU.UWE := by
    unfold accessMask
    rw [hd, hi, hr, hu]
    rfl
  have ht : Translated m e' req (m.translate e' req) := m.translate_translated e' hd
  generalize m.translate e' req = r at ht ho
  cases ht with
  | refused res m' env' hr => exact (hr ho).elim
  | hit way m' req' hw hp hx ha =>
    rw [hmask] at hp
    show W (pageAlign req'.addr)
    rw [hx, pageAlign_or_offset]
    have hlt := List.mem_range.1 (List.mem_of_find?_eq_some hw)
    exact h.entries _ way hlt (List.find?_some hw) hp
  | refill pte2 way m' env' req' hw hp hx hr =>
    rw [hmask] at hp
    show W (pageAlign req'.addr)
    obtain ⟨n, hn⟩ := hr.walked
    rw [hx, pageAlign_or_offset, pageAlign_refillTrans]
    rw [test_congr BitVec.and_self (refillTrans_data hi (by decide))] at hp
    exact h.tables e' hs hk req pte2 n hn hp

end Mmu

/-- Frames that a data MMU keeps user mode to, from a port on: translations keep what holds of the
MMU, and let stores of user mode go to the frames only. -/
structure Fence where
  frames : U32 → Prop
  port : Env Memory
  holds : Mmu → Prop
  direct : port.dataPtr = some 0 ∧ port.dataStart = 0#32
  translate : ∀ m e req, holds m → Later port e → KeepsOutside frames port e → req.imem = false →
    holds (m.translate e req).2.1
  store : ∀ m e req, holds m → Later port e → KeepsOutside frames port e → req.debug = false →
    req.imem = false → req.read = false → req.super = false → (m.translate e req).1 = .okay →
    frames (pageAlign (m.translate e req).2.2.2.addr)

variable {F : Fence}

/-- The frames that the TLB and the page tables let user mode write to. -/
def Mmu.enclosure (W : U32 → Prop) (e : Env Memory) (hd : e.dataPtr = some 0 ∧ e.dataStart = 0#32) :
    Fence where
  frames := W
  port := e
  holds := Encloses W e
  direct := hd
  translate _ _ _ h hs hk hi := h.translate hs hk hi
  store _ _ _ h hs hk hd hi hr hu ho := h.store hs hk hd hi hr hu ho

/-! ## Data accesses -/

namespace Memory

/-- A data request touches the bytes that it names. -/
theorem touches_bounds {b : Nat} (hs : Later e e') (hd : e.dataPtr = some 0 ∧ e.dataStart = 0#32)
    (hi : req.imem = false) (hx : req.excl = true → req.size = 4) (h : Touches e' req b) :
    req.addr.toNat ≤ b ∧ b < req.addr.toNat + req.size := by
  have hp : e'.dataPtr = some 0 ∧ e'.dataStart = 0#32 := by
    obtain ⟨w, a, d, rfl⟩ := hs.served
    exact hd
  have hptr : (e'.directMemoryPtr req).1 = some req.addr.toNat ∨ (e'.directMemoryPtr req).1 = none := by
    unfold Env.directMemoryPtr Env.getDataPtr
    rw [hi, if_neg Bool.false_ne_true, hp.1, hp.2]
    dsimp only
    split
    · exact .inr rfl
    · exact .inl (by simp)
  unfold Touches at h
  rcases hptr with hptr | hptr <;> rw [hptr] at h <;> dsimp only at h
  · split at h
    · rename_i hc
      rw [hx hc.1]
      exact h.2
    · exact h
  · exact h.2

end Memory

namespace Core

variable {c x : Core Memory} {ci : Instruction}

/-- A CPU whose data MMU has kept user mode to the frames. -/
structure Held (F : Fence) (c : Core Memory) : Prop where
  mmu : F.holds c.dmmu
  env : Later F.port c.env
  outside : KeepsOutside F.frames F.port c.env

theorem Held.of_eq (h : Held F c) (hd : x.dmmu = c.dmmu) (he : x.env = c.env) : Held F x := by
  refine ⟨?_, ?_, ?_⟩
  · rw [hd]
    exact h.mmu
  · rw [he]
    exact h.env
  · rw [he]
    exact h.outside

theorem Held.reads (h : Held F c) (hd : x.dmmu = c.dmmu) (he : Later c.env x.env)
    (hm : x.env.world.mem = c.env.world.mem) : Held F x := by
  refine ⟨?_, h.env.trans he, h.outside.trans (.of_mem hm)⟩
  rw [hd]
  exact h.mmu

theorem Held.entered (h : Held F c) (t : ExType) (addr : U32) : Held F (c.entered t addr) := by
  unfold Core.entered
  dsimp only
  split <;> exact h.of_eq rfl rfl

theorem Held.exception {t : ExType} {addr : U32} (h : Held F c) (hx : c.exception t addr = .ok x) :
    Held F x := by
  obtain ⟨-, rfl⟩ | ⟨-, -, rfl⟩ := exception_ok hx
  · exact h
  · exact h.entered t addr

theorem Held.abort (h : Held F c) (t : ExType) (req : Request) :
    Ends (fun y => Held F y.1) (fun r => Held F r.core) (c.abort t req) :=
  ends_of (fun r hr => by
    obtain ⟨x, hx, rfl⟩ := Outcome.lift_eq_ok.1 hr
    exact h.exception hx) fun y hy => (abort_ne_throw hy).elim

theorem Held.complete (h : Held F c) (req : Request) : Held F (c.complete req).core := by
  unfold Core.complete
  split <;> exact h.of_eq rfl rfl

/-- What user mode may send: a read, or a store to one of the frames. -/
def Admitted (W : U32 → Prop) (req : Request) : Prop :=
  req.read = true ∨ (W (pageAlign req.addr) ∧ req.imem = false ∧
    (req.size = 1 ∨ req.size = 2 ∨ req.size = 4) ∧ (req.excl = true → req.size = 4) ∧
    isAligned req.addr req.size = true)

theorem Held.send (h : Held F c) (ha : Admitted F.frames req) :
    Ends (fun y => Held F y.1) (fun r => Held F r.core) (c.send req) := by
  have hs : Held F { c with env := (c.env.convertAndTransact req).2.2 } := by
    refine ⟨h.mmu, h.env.trans Memory.convertAndTransact_later, h.outside.trans ?_⟩
    rcases ha with hr | ⟨hw, hi, hn, hx, hal⟩
    · exact .of_mem (Env.convertAndTransact_read_mem Memory.honest hr)
    · intro b hb
      refine Memory.convertAndTransact_frame fun ht => hb ?_
      obtain ⟨h1, h2⟩ := Memory.touches_bounds h.env F.direct hi hx ht
      obtain ⟨hto, hpage⟩ := page_of_access hn hal h1 h2
      exact ⟨_, by rw [hpage]; exact hw, hto⟩
  unfold Core.send
  generalize c.env.convertAndTransact req = r at hs
  obtain ⟨resp, q, e'⟩ := r
  dsimp only at hs ⊢
  cases resp with
  | error => exact hs.abort _ _
  | failed =>
    dsimp only
    split
    · exact .throw hs
    · exact .ok (Held.complete (c := clearFlag { c with env := e' } SR.F) (hs.of_eq rfl rfl) q)
  | success =>
    refine .ok (Held.complete ?_ q)
    split <;> exact hs.of_eq rfl rfl

theorem isAligned_congr {a b : U32} (h : a &&& 3#32 = b &&& 3#32) (n : Nat) :
    isAligned a n = isAligned b n := by
  have hk : 3#32 &&& BitVec.ofNat 32 (min n 4 - 1) = BitVec.ofNat 32 (min n 4 - 1) := by
    have hn : min n 4 - 1 = 0 ∨ min n 4 - 1 = 1 ∨ min n 4 - 1 = 2 ∨ min n 4 - 1 = 3 := by omega
    rcases hn with hn | hn | hn | hn <;> rw [hn] <;> decide
  unfold isAligned
  rw [← hk, ← BitVec.and_assoc, ← BitVec.and_assoc, h]

/-- What makes the data requests subject to the MMU. -/
structure Screened (c : Core σ) : Prop where
  dmmu : c.isDmmuActive = true
  user : c.isSupervisor = false
  imem : c.dreq.imem = false
  debug : c.dreq.debug = false

theorem Held.translateData (h : Held F c) (hi : req.imem = false) :
    Held F (c.translateData req).2.2 := by
  have hm := translateData_mem Memory.honest c req
  unfold Core.translateData at hm ⊢
  split
  · rename_i ha
    rw [if_pos ha] at hm
    exact ⟨F.translate _ _ _ h.mmu h.env h.outside hi, h.env.trans Memory.translate_later,
      h.outside.trans (.of_mem hm)⟩
  · exact h

/-- Translation admits what user mode may send. -/
theorem Held.admitted (h : Held F c) (ha : c.isDmmuActive = true) (hi : req.imem = false)
    (hd : req.debug = false) (hu : req.super = false)
    (hn : req.size = 1 ∨ req.size = 2 ∨ req.size = 4) (hx : req.excl = true → req.size = 4)
    (hal : isAligned req.addr req.size = true) (ho : (c.translateData req).1 = .okay) :
    Admitted F.frames (c.translateData req).2.1 := by
  have hf := translateData_fields c req
  have hlow := translateData_low c req ho
  cases hr : req.read with
  | true => exact .inl (hf.read.trans hr)
  | false =>
    refine .inr ⟨?_, hf.imem.trans hi, ?_, ?_, ?_⟩
    · unfold Core.translateData at ho ⊢
      rw [if_pos ha] at ho ⊢
      exact F.store _ _ _ h.mmu h.env h.outside hd hi hr hu ho
    · rw [hf.size]
      exact hn
    · rw [hf.excl, hf.size]
      exact hx
    · rw [hf.size, isAligned_congr hlow]
      exact hal

theorem Held.transact (h : Held F c) (hg : Screened c)
    (hi : req.imem = false) (hd : req.debug = false)
    (hn : req.size = 1 ∨ req.size = 2 ∨ req.size = 4) (hx : req.excl = true → req.size = 4) :
    Ends (fun y => Held F y.1) (fun r => Held F r.core) (c.transact req) := by
  obtain ⟨w, hw⟩ := c.checkWatchpoints_eq (c.dataRequest req)
  have hc : Held F (c.checkWatchpoints (c.dataRequest req)) := by
    rw [hw]
    exact h.of_eq rfl rfl
  have ha : (c.checkWatchpoints (c.dataRequest req)).isDmmuActive = true := by
    rw [hw]
    exact hg.dmmu
  unfold Core.transact
  dsimp only
  split
  · exact hc.abort _ _
  · rename_i hal
    have hal : isAligned req.addr req.size = true := by
      unfold misaligned at hal
      rw [show (c.dataRequest req).debug = false from hd, Bool.not_false, Bool.and_true,
        Bool.not_eq_true, Bool.not_eq_false'] at hal
      exact hal
    have hi' : (c.dataRequest req).imem = false := hi
    have ht := hc.translateData hi'
    have hadm := hc.admitted ha hi' hd hg.user hn hx hal
    rw [translateSend_eq]
    generalize (c.checkWatchpoints (c.dataRequest req)).translateData (c.dataRequest req) = q at ht hadm
    obtain ⟨res, q, b⟩ := q
    cases res with
    | tlbMiss | pageFault => exact ht.abort _ _
    | okay => exact ht.send (hadm rfl)

/-- A load or store of user mode keeps the enclosure. -/
theorem Held.executeMem {x : MemExec} (h : Held F c) (hg : Screened c)
    :
    Ends (Held F) (fun r => Held F r.2) (c.executeMem x ci) := by
  have hend : (∀ f, c.executeMem x ci ≠ .fault f) →
      Ends (Held F) (fun r => Held F r.2) (c.executeMem x ci) := fun hnf => by
    rw [executeMem_access] at hnf ⊢
    obtain ⟨i, a, v, -, -, -, he⟩ := accessMemory_sends hnf
    rw [he]
    have hx : x.isExclusive = true → x.size = 4 := by cases x <;> decide
    have hi : (memRequest x.isLoad x.isExclusive x.size a v ci c).imem = false := hg.imem
    refine (h.transact hg hi hg.debug x.size_cases hx).lift (fun y hy => hy.of_eq rfl rfl) fun r hr => ?_
    dsimp only
    split <;> exact hr.of_eq rfl rfl
  cases hq : c.executeMem x ci with
  | fault f => exact .fault f
  | ok r =>
    rw [hq] at hend
    exact hend nofun
  | throw y =>
    rw [hq] at hend
    exact hend nofun

theorem Held.refused (h : Held F c) (hr : c.ireq.read = true) (hx : Refused c x) :
    Held F x ∧ x.ireq.read = true := by
  obtain ⟨t, addr, -, -, rfl⟩ := hx
  exact ⟨h.entered t addr, (reading_entered hr t addr).read⟩

theorem Held.refuse (h : Held F c) (hr : c.ireq.read = true) (t : ExType) :
    Ends (fun c => Held F c ∧ c.ireq.read = true) (fun r => Held F r.2 ∧ r.2.ireq.read = true)
      (c.refuse t) :=
  ends_of (fun r hx => by
    have hread := (reading_refuse hr hx).read
    obtain ⟨x, he, rfl⟩ := Outcome.lift_eq_ok.1 hx
    exact ⟨h.exception he, hread⟩) fun y hy => (refuse_ne_throw hy).elim

theorem Held.fetchAddress (h : Held F c) (hr : c.ireq.read = true) :
    Ends (fun c => Held F c ∧ c.ireq.read = true) (fun r => Held F r.2 ∧ r.2.ireq.read = true)
      c.fetchAddress := by
  have ht : Held F c.translateFetch.2 ∧ c.translateFetch.2.ireq.read = true := by
    refine ⟨h.reads rfl Memory.translate_later ?_, ?_⟩
    · exact Mmu.translate_mem c.immu c.env c.fetchRequest Memory.honest
    · exact (Mmu.translate_fields c.immu c.env c.fetchRequest).read.trans hr
  unfold Core.fetchAddress
  split
  · split
    · exact .ok ⟨h.of_eq rfl rfl, hr⟩
    · split <;> rename_i he <;> rw [he] at ht
      · exact ht.1.refuse ht.2 _
      · exact ht.1.refuse ht.2 _
      · exact .ok ⟨ht.1.of_eq rfl rfl, ht.2⟩
  · exact .ok ⟨h.of_eq rfl rfl, hr⟩

theorem Held.fetchWord (h : Held F c) (hr : c.ireq.read = true) :
    Ends (fun c => Held F c ∧ c.ireq.read = true) (fun r => Held F r.2 ∧ r.2.ireq.read = true)
      c.fetchWord := by
  have hread := readInsn_reading Memory.honest hr
  have ht : Held F c.readInsn.2 :=
    h.reads rfl Memory.convertAndTransact_later hread.mem
  unfold Core.fetchWord
  split
  · exact .ok ⟨h.of_eq rfl rfl, hr⟩
  · split <;> rename_i he <;> rw [he] at ht hread
    · exact ht.refuse hread.read _
    · exact .throw ⟨ht, hread.read⟩
    · exact .ok ⟨ht, hread.read⟩

theorem Held.scheduleJump {c y : Core Memory} {target : U32} {delay : Nat} (h : Held F c)
    (hs : c.scheduleJump target delay = .ok y) : Held F y := by
  rw [scheduleJump_eq] at hs
  split at hs
  · cases hs
    exact h.of_eq rfl rfl
  · have hj : Held F (c.setJump target (c.instructions + delay)) := h.of_eq rfl rfl
    exact hj.exception hs

end Core

namespace Or1k

open Or1kiss.Core

variable {s f x : Or1k Memory} {ci : Instruction}

/-- Fetching reads. -/
theorem fetch_held (h : Held F s.toCore) (hr : s.ireq.read = true) :
    Ends (fun x => Held F x.toCore) (fun r => Held F r.2.toCore) s.fetch := by
  have hends := fetch_ends (s := s) (P := fun c => Held F c ∧ c.ireq.read = true)
    (h.fetchAddress hr) (fun c hc => hc.1.fetchWord hc.2) (fun c x hc hx => hc.1.refused hc.2 hx)
    fun c w hc => ⟨hc.1.of_eq rfl rfl, hc.2⟩
  exact hends.mono (fun x hx => hx.1) fun r hr => hr.1

theorem FetchedInsn.screened (h : Screened s.toCore) (hf : FetchedInsn s f) : Screened f.toCore := by
  obtain ⟨_, _, _, ⟨_, _, _, _, _, _, -, rfl⟩, rfl⟩ := hf
  exact ⟨h.dmmu, h.user, h.imem, h.debug⟩

variable [HostLib]

theorem execute_held (h : Held F f.toCore) (hg : Screened f.toCore)
    (hx : f.execute ci = .ok x) : Held F x.toCore := by
  by_cases hm : ∃ e, ci.exec = some (.mem e)
  · obtain ⟨e, hm⟩ := hm
    obtain ⟨n, hc, -⟩ := execute_mem hm hx
    exact (h.executeMem hg).of_ok hc
  · cases execute_ok hx with
    | plain c limit e hce hpl hr =>
      obtain ⟨ts, hts, -⟩ := hr
      have hmem : e.isMem = false := by
        cases e with
        | mem e => exact (hm ⟨e, hce⟩).elim
        | _ => rfl
      rw [hmem] at hts
      exact h.of_eq hts.noAccess.2 hts.noAccess.1
    | untaken => exact h
    | taken e target r c hce hj ht hs hr =>
      have hc : Held F { f.toCore with toRegs := r } := h.of_eq rfl rfl
      exact hc.scheduleJump hs
    | mtspr a b =>
      rw [sprWritten_user hg.user]
      exact h.of_eq rfl rfl
    | nop y hne hnop =>
      obtain ⟨rfl, -⟩ | ⟨rfl, -⟩ | ⟨c, rfl, ⟨g, t, a, b, rfl⟩, -⟩ := nop_ok hnop <;>
        exact h.of_eq rfl rfl
    | rfe y hre hrfe =>
      obtain ⟨c, hc, rfl⟩ := rfe_ok hrfe
      have hm : Held F c := h.scheduleJump hc
      unfold rfeRestored
      split <;> exact hm.of_eq rfl rfl

/-- An iteration in user mode keeps the enclosure, whatever exception it ends with. -/
theorem fetchExecute_held (h : Held F s.toCore) (hg : Screened s.toCore) (hr : s.ireq.read = true)
    :
    Ends (fun x => Held F x.toCore) (fun x => Held F x.toCore) s.fetchExecute := by
  have hf := fetch_held h hr
  refine ends_of (fun x hx => ?_) fun x hx => ?_
  · obtain ⟨ci, f, hfe, hfi, -⟩ | ⟨hfe, -⟩ := fetchExecute_ok hx
    · have he : f.execute ci = .ok x := (fetchExecute_of_fetch hfe).symm.trans hx
      exact execute_held (hf.of_ok hfe) (FetchedInsn.screened hg hfi) he
    · exact hf.of_ok hfe
  · rcases fetchExecute_throw hx with hft | ⟨ci, f, e, c, hfe, hfi, -, hm, rfl⟩
    · exact hf.of_throw hft
    · exact (Held.executeMem (hf.of_ok hfe) (FetchedInsn.screened hg hfi)).of_throw hm

omit [HostLib] in
/-- The privileged registers that neither an instruction of user mode nor the hardware around it
changes, and the status besides the flags. -/
structure Bound (s s' : Or1k Memory) : Prop where
  status : s'.status &&& ~~~openFlags = s.status &&& ~~~openFlags
  expc : s'.expc = s.expc
  exsr : s'.exsr = s.exsr
  exea : s'.exea = s.exea
  evba : s'.evba = s.evba
  aecr : s'.aecr = s.aecr
  aesr : s'.aesr = s.aesr
  picMr : s'.picMr = s.picMr
  dmmucr : s'.dmmu.ctrl = s.dmmu.ctrl
  immucr : s'.immu.ctrl = s.immu.ctrl
  shadow : s'.shadow = s.shadow

omit [HostLib]

theorem Bound.trans (h : Bound s f) (h' : Bound f x) : Bound s x where
  status := h'.status.trans h.status
  expc := h'.expc.trans h.expc
  exsr := h'.exsr.trans h.exsr
  exea := h'.exea.trans h.exea
  evba := h'.evba.trans h.evba
  aecr := h'.aecr.trans h.aecr
  aesr := h'.aesr.trans h.aesr
  picMr := h'.picMr.trans h.picMr
  dmmucr := h'.dmmucr.trans h.dmmucr
  immucr := h'.immucr.trans h.immucr
  shadow := h'.shadow.trans h.shadow

theorem Confined.bound (h : Confined s x) : Bound s x :=
  ⟨h.status, h.expc, h.exsr, h.exea, h.evba, h.aecr, h.aesr, h.picMr, h.dmmucr, h.immucr, h.shadow⟩

/-- Where no interrupt is accepted the registers stay. -/
theorem Steady.bound (hs : Steady s x) (hc : Ignored s x ∨ ∃ e, Accepted e s x)
    (ht : x.taken = s.taken) : Bound s x := by
  rcases hc with hi | ⟨e, ha⟩
  · exact ⟨by rw [hi.status], hi.expc, hi.exsr, hi.exea, hs.evba, hs.aecr,
      congrArg Regs.aesr hs.toRegs, hs.picMr, by rw [hs.dmmu], by rw [hs.immu], hs.shadow⟩
  · exact (List.cons_ne_self _ _ (ha.taken.symm.trans ht)).elim

theorem Bound.screened (h : Bound s x) (hg : Screened s.toCore) (hk : x.dreq.kind = s.dreq.kind) :
    Screened x.toCore := by
  obtain ⟨h1, h2, h3⟩ : x.dreq.endian = s.dreq.endian ∧ x.dreq.imem = s.dreq.imem ∧
      x.dreq.debug = s.dreq.debug := by simpa [Request.kind] using hk
  refine ⟨?_, ?_, h2.trans hg.imem, h3.trans hg.debug⟩
  · rw [← hg.dmmu]
    exact test_congr (k := ~~~openFlags) (by decide) h.status
  · rw [← hg.user]
    exact test_congr (k := ~~~openFlags) (by decide) h.status

end Or1k

namespace Machine

open Or1k Or1kiss.Core

variable [HostLib] {m m₀ m' : Machine Memory} {a : Action Memory}

/-- One step behind the data MMU. -/
theorem act_enclosed (hk : a.keepsOff = true) (hn : m.act a = some m')
    (h : Held F m.cpu.toCore) (hg : Screened m.cpu.toCore) (hr : m.cpu.ireq.read = true)
    :
    Held F m'.cpu.toCore ∧ (m'.cpu.taken = m.cpu.taken → Bound m.cpu m'.cpu) := by
  cases act_transition hn with
  | begin r s n =>
    have hs : Steady s (began n s) := began_steady
    exact ⟨h.of_eq hs.dmmu (dozed_env.trans externalChecked_fixed.2),
      fun ht => hs.bound began_cases ht⟩
  | mini | finish | leave => exact ⟨h.of_eq rfl rfl, fun _ => by constructor <;> rfl⟩
  | iterate limit s x hl hfe =>
    have hb : Held F s.beginCycle.toCore := h.of_eq rfl rfl
    have hx := (fetchExecute_held hb ⟨hg.dmmu, hg.user, hg.imem, hg.debug⟩ hr).of_ok hfe
    rw [retired_cpu]
    have hd : x.retire.redirect.dmmu = x.dmmu := redirect_frame (·.dmmu) x fun _ _ _ _ => rfl
    have he : x.retire.redirect.env = x.env := redirect_frame (·.env) x fun _ _ _ _ => rfl
    refine ⟨hx.of_eq hd he, fun ht => ?_⟩
    have htx : x.retire.redirect.taken = x.taken := redirect_frame (·.taken) x fun _ _ _ _ => rfl
    rcases fetchExecute_isolated hfe hg.user with hne | hi
    · exact (hne (htx.symm.trans ht)).elim
    · have hbc : Bound s s.beginCycle := by constructor <;> rfl
      exact hbc.trans hi.redirect.confined.bound
  | throw limit s x hl hfe =>
    have hb : Held F s.beginCycle.toCore := h.of_eq rfl rfl
    have hbc : Bound s s.beginCycle := by constructor <;> rfl
    exact ⟨(fetchExecute_held hb ⟨hg.dmmu, hg.user, hg.imem, hg.debug⟩ hr).of_throw hfe,
      fun _ => hbc.trans (fetchExecute_throw_isolated hfe).confined.bound⟩
  | drain s =>
    rw [drained_cpu]
    have hs : Steady s s.timerUpdated.externalChecked := timerUpdated_steady.trans externalChecked_steady
    exact ⟨h.of_eq hs.dmmu (externalChecked_fixed.2.trans timerUpdated_fixed.2),
      fun ht => hs.bound endMini_cases ht⟩
  | interrupt p s id set =>
    obtain ⟨v, he⟩ := s.toCore.interrupt_eq id set
    rw [he]
    exact ⟨h.of_eq rfl rfl, fun _ => by constructor <;> rfl⟩
  | outside r s s' a ha h' =>
    cases outside_ok h' with
    | writeSpr | writeGpr | world => cases hk
    | setUp => exact ⟨h.of_eq rfl rfl, fun _ => by constructor <;> rfl⟩

/-- Every run keeps the port that the constructor attaches, and the kind of the requests. -/
theorem run_served {size n : Nat} {image : Nat → U8}
    (h : system.Run (init (Memory.env size image) n) m) :
    (init (Memory.env size image) n).cpu.toCore.Attached m.cpu.toCore :=
  h.invariant (P := fun m => (init (Memory.env size image) n).cpu.toCore.Attached m.cpu.toCore)
    (fun _ _ _ hp _ hn => hp.trans (act_attached hn)) (.refl _)

/-- What every run leaves of the constructor: the ranges of the port and the kind of the requests. -/
theorem run_attached {size n : Nat} {image : Nat → U8}
    (h : system.Run (init (Memory.env size image) n) m) :
    (m.cpu.env.dataPtr = some 0 ∧ m.cpu.env.dataStart = 0#32) ∧
      m.cpu.dreq.imem = false ∧ m.cpu.dreq.debug = false := by
  have ha := run_served h
  obtain ⟨w, a, d, he⟩ := ha.env
  have hk : m.cpu.dreq.kind = (.little, false, false) := ha.kind
  obtain ⟨-, hi, hd⟩ : m.cpu.dreq.endian = .little ∧ m.cpu.dreq.imem = false ∧
      m.cpu.dreq.debug = false := by simpa [Request.kind] using hk
  exact ⟨⟨congrArg Env.dataPtr he, congrArg Env.dataStart he⟩, hi, hd⟩

/-- What user mode cannot get past holds until an exception is entered, and behind its entry. -/
theorem run_fenced {size n : Nat} {image : Nat → U8}
    (h₀ : system.Run (init (Memory.env size image) n) m₀) (hu : m₀.cpu.isSupervisor = false)
    (hd : m₀.cpu.isDmmuActive = true) (hp : F.port = m₀.cpu.env) (hw : F.holds m₀.cpu.dmmu)
    {l : List (Move (Machine Memory) (Action Memory))} (h : system.Path m₀ l m)
    (hl : ∀ st ∈ l, st.act.keepsOff = true ∧ st.pre.cpu.taken = m₀.cpu.taken) :
    Held F m.cpu.toCore ∧ (m.cpu.taken = m₀.cpu.taken → Screened m.cpu.toCore ∧ Bound m₀.cpu m.cpu) := by
  obtain ⟨-, hi, hdb⟩ := run_attached h₀
  have hg₀ : Screened m₀.cpu.toCore := ⟨hd, hu, hi, hdb⟩
  have hh₀ : Held F m₀.cpu.toCore := by
    refine ⟨hw, ?_, ?_⟩ <;> rw [hp]
    · exact .refl _
    · exact .refl _ _
  have hinv := h.forall_of (R := fun _ => True) (P := fun m => Held F m.cpu.toCore ∧
      m.cpu.toCore.fetchKind = m₀.cpu.toCore.fetchKind ∧ m.cpu.dreq.kind = m₀.cpu.dreq.kind ∧
      (m.cpu.taken = m₀.cpu.taken → Bound m₀.cpu m.cpu))
    (C := fun st => st.act.keepsOff = true ∧ st.pre.cpu.taken = m₀.cpu.taken)
    (fun m a m' hn ⟨hk, ht⟩ ⟨hh, hf, hq, hb⟩ => by
      have hb := hb ht
      have hr : m.cpu.ireq.read = true := by
        rw [show m.cpu.ireq.read = m₀.cpu.ireq.read from congrArg (·.1) hf]
        exact (run_fetching h₀).read
      obtain ⟨hh', hb'⟩ := act_enclosed hk hn hh (hb.screened hg₀ hq) hr
      exact ⟨⟨hh', (act_fetchKind hn).trans hf, (act_attached hn).kind.trans hq,
        fun ht' => hb.trans (hb' (ht'.trans ht.symm))⟩, trivial⟩)
    hl ⟨hh₀, rfl, rfl, fun _ => by constructor <;> rfl⟩
  obtain ⟨⟨hh, -, hq, hb⟩, -⟩ := hinv
  exact ⟨hh, fun ht => ⟨(hb ht).screened hg₀ hq, hb ht⟩⟩

/-- In every run, what is executed in user mode behind the data MMU until an exception is entered,
that last instruction included, writes to no byte of memory outside of the frames that the TLB and
the page tables let user mode write to; and until then the CPU stays in user mode, and the
privileged registers of `Bound` are as they were. -/
theorem user_enclosed {size n : Nat} {image : Nat → U8}
    (h₀ : system.Run (init (Memory.env size image) n) m₀) (hu : m₀.cpu.isSupervisor = false)
    (hd : m₀.cpu.isDmmuActive = true) (hw : m₀.cpu.dmmu.Encloses W m₀.cpu.env)
    {l : List (Move (Machine Memory) (Action Memory))} (h : system.Path m₀ l m)
    (hl : ∀ st ∈ l, st.act.keepsOff = true ∧ st.pre.cpu.taken = m₀.cpu.taken) :
    (∀ b, ¬InFrames W b → m.cpu.env.world.mem b = m₀.cpu.env.world.mem b) ∧
      (m.cpu.taken = m₀.cpu.taken → m.cpu.isSupervisor = false ∧ Bound m₀.cpu m.cpu) := by
  obtain ⟨hh, hb⟩ := run_fenced (F := Mmu.enclosure W m₀.cpu.env (run_attached h₀).1) h₀ hu hd rfl hw
    h hl
  exact ⟨hh.outside, fun ht => ⟨(hb ht).1.user, (hb ht).2⟩⟩

end Machine

namespace Machine

open Or1k

attribute [local instance] HostLib.plain

/-- Page 0 is put at 0x4000 for user mode, which then stores a word. -/
def storeProgram : List (Nat × U32) :=
  [(0x100, 0x9c600001#32), (0x104, 0xc0201a00#32), (0x108, 0x9c8040c0#32), (0x10c, 0xc0202280#32),
   (0x110, 0x9ca00020#32), (0x114, 0xc0002811#32), (0x118, 0xd4001810#32)]

/-- The entries that grant one of the rights are those of these frames. -/
def opensOnly (rights : U32) (frames : List U32) (m : Mmu) : Bool :=
  (List.range m.numWays).all fun way => (List.range 128).all fun set =>
    !test (m.matchReg way set) MMUM.V || !test (m.transReg way set) rights ||
      frames.contains (pageAlign (m.transReg way set))

theorem frame_of_opensOnly {rights va : U32} {frames : List U32} {m : Mmu} {way : Nat}
    (h : opensOnly rights frames m = true) (hw : way < m.numWays) (hm : m.matching va way = true)
    (hu : test (m.transReg way (m.setOf va)) rights = true) :
    pageAlign (m.transReg way (m.setOf va)) ∈ frames := by
  have hset := List.all_eq_true.1 (List.all_eq_true.1 h way (List.mem_range.2 hw)) (m.setOf va)
    (List.mem_range.2 (m.setOf_lt va))
  rw [(Bool.and_eq_true_iff.1 hm).1, hu] at hset
  exact List.contains_iff_mem.1 hset

/-- Without page tables it is the entries that enclose user mode. -/
theorem encloses_opensOnly {e : Env Memory} {m : Mmu} {frames : List U32}
    (h : opensOnly MMU.UWE frames m = true) (hp : m.ctrl &&& MMUCR.PGD = 0#32) :
    m.Encloses (· ∈ frames) e where
  entries va way hw hm hu := frame_of_opensOnly h hw hm hu
  tables e' _ _ req pte2 n hw := by
    unfold Mmu.walk at hw
    dsimp only at hw
    rw [if_pos hp] at hw
    cases hw

/-- The store of `storeProgram`. -/
theorem user_enclosed_store : ∃ m₀ m : Machine Memory, system.Run (Memory.boot storeProgram) m₀ ∧
    m₀.executes = true ∧ m₀.next = some m ∧ m.cpu.env.world.mem 0x4013 = 1#8 ∧
      m₀.cpu.env.world.mem 0x4013 = 0#8 ∧ m.cpu.isSupervisor = false ∧
      ∀ b, ¬InFrames (· ∈ [0x4000#32]) b → m.cpu.env.world.mem b = m₀.cpu.env.world.mem b := by
  obtain ⟨m₀, hr, hm⟩ := System.exists_run system (Memory.boot storeProgram)
    (.call 1000#32 :: List.replicate 13 .run)
    (fun m => m.executes && !m.cpu.isSupervisor && m.cpu.isDmmuActive && opensOnly MMU.UWE [0x4000#32] m.cpu.dmmu &&
      m.cpu.dmmu.ctrl &&& MMUCR.PGD == 0#32 && m.cpu.env.world.mem 0x4013 == 0#8 &&
      (m.next).any fun m' : Machine Memory => m'.cpu.env.world.mem 0x4013 == 1#8 &&
        decide (m'.cpu.taken = m.cpu.taken))
    (by decide +kernel)
  simp only [Bool.and_eq_true, Bool.not_eq_true', beq_iff_eq] at hm
  obtain ⟨⟨⟨⟨⟨⟨hx, hu⟩, hd⟩, hf⟩, hp⟩, hz⟩, hm⟩ := hm
  obtain ⟨m, hn, hm⟩ := (Option.any_eq_true _ _).1 hm
  obtain ⟨ho, ht⟩ := Bool.and_eq_true_iff.1 hm
  have hpath : system.Path m₀ [⟨m₀, .run, m⟩] m := .tail .refl hn
  obtain ⟨hmem, huser⟩ := user_enclosed hr hu hd (encloses_opensOnly hf hp) hpath fun st hst => by
    rw [List.mem_singleton.1 hst]
    exact ⟨rfl, rfl⟩
  exact ⟨m₀, m, hr, hx, hn, beq_iff_eq.1 ho, hz, (huser (of_decide_eq_true ht)).1, hmem⟩

end Machine

end Or1kiss
