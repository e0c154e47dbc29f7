import Or1kiss.Memory
import Or1kiss.Refill
import Or1kiss.Reservation

/-!
# The address of a fault

`fetch` and `transact` hand `exception` the address that their request holds at the moment.
`translate` rewrites it in place, so an exception raised behind a translation, a bus error or
an illegal instruction, puts the physical address in EEAR. It is the effective one exactly
where the page is mapped to itself.
-/

namespace Or1kiss

open Host Bits Runs

variable {σ : Type}

/-- An address keeps its value on its own page only. -/
theorem pageAlign_or_eq_iff {t a : U32} : pageAlign t ||| pageOffset a = a ↔ pageAlign t = pageAlign a :=
  ⟨fun h => by rw [← pageAlign_or_offset t a, h], fun h => by rw [h, pageAlign_or_pageOffset]⟩

/-! ## The page of a translation -/

namespace Mmu

/-- The translation `trans` lets the access through. -/
def grants (req : Request) (trans : U32) : Bool := req.debug || test trans (accessMask req)

variable [EnvImpl σ]

/-- The translation of the page of a request: in the TLB, else in the page tables. -/
def entryOf (m : Mmu) (env : Env σ) (req : Request) : Option U32 :=
  match m.hitWay req.addr with
  | some way => some (m.transReg way (m.setOf req.addr))
  | none =>
    if !test m.cfg MMUCFG.HTR && !req.debug then none
    else (m.walk env req).1.map fun p => refillTrans p.1 req

/-- The physical page that the MMU lets a request on. -/
def pageOf (m : Mmu) (env : Env σ) (req : Request) : Option U32 :=
  ((m.entryOf env req).filter (grants req)).map pageAlign

/-- The page of the request is mapped to itself, or is not mapped for it. -/
def InPlace (m : Mmu) (env : Env σ) (req : Request) : Prop :=
  ∀ page, m.pageOf env req = some page → page = pageAlign req.addr

variable {m : Mmu} {env : Env σ} {req : Request}

omit [EnvImpl σ] in
theorem hit_addr (m : Mmu) (way : Nat) (req : Request) : (m.hit way req).2.2.addr =
    if grants req (m.transReg way (m.setOf req.addr)) then
      pageAlign (m.transReg way (m.setOf req.addr)) ||| pageOffset req.addr
    else req.addr := by
  unfold hit grants
  dsimp only
  cases hd : req.debug with
  | true => rfl
  | false =>
    rw [if_neg Bool.false_ne_true, Bool.false_or]
    cases hp : test (m.transReg way (m.setOf req.addr)) (accessMask req) with
    | false => rfl
    | true =>
      show pageAlign _ ||| pageOffset req.addr = _
      rw [if_pos rfl, ← pageAlign_transMask, accessed_transMask, pageAlign_transMask]

omit [EnvImpl σ] in
theorem refill_addr (m : Mmu) (pte2 : U32) (cycles : Nat) (req : Request) :
    (m.refill pte2 cycles req).2.2.addr = if grants req (refillTrans pte2 req) then
      pageAlign (refillTrans pte2 req) ||| pageOffset req.addr else req.addr := by
  have ht : (if (req.imem && test pte2 MMUPTE.EXEC) = true then
      pte2 ||| MMUPTE.CC ||| (MMU.SXE ||| MMU.UXE) else pte2 ||| MMUPTE.CC) =
      refillTrans pte2 req := rfl
  have hacc : pageAlign (if req.read = true then refillTrans pte2 req ||| MMUPTE.A
      else refillTrans pte2 req ||| MMUPTE.A ||| MMUPTE.D) = pageAlign (refillTrans pte2 req) := by
    rw [← pageAlign_transMask, accessed_transMask, pageAlign_transMask]
  unfold refill grants
  dsimp only
  rw [ht]
  cases hd : req.debug with
  | true =>
    rw [Bool.not_true, Bool.and_false, if_neg Bool.false_ne_true, if_pos rfl, Bool.true_or, if_pos rfl]
    show pageAlign _ ||| pageOffset req.addr = _
    rw [hacc]
  | false =>
    rw [Bool.not_false, Bool.and_true, Bool.false_or]
    cases hp : test (refillTrans pte2 req) (accessMask req) with
    | false => rfl
    | true =>
      rw [Bool.not_true, if_neg Bool.false_ne_true, if_neg Bool.false_ne_true, if_pos rfl]
      show pageAlign _ ||| pageOffset req.addr = _
      rw [hacc]

/-- Ageing does not change what is found. -/
theorem Alike.pageOf {m' : Mmu} (h : Alike m m') (env : Env σ) (req : Request) :
    m'.pageOf env req = m.pageOf env req := by
  have hs := m.setOf_lt req.addr
  unfold Mmu.pageOf Mmu.entryOf
  rw [h.hitWay rfl, h.setOf, h.cfg, ← walk_alike h]
  cases m.hitWay req.addr with
  | none => rfl
  | some way =>
    dsimp only
    have hg : grants req (m'.transReg way (m.setOf req.addr)) =
        grants req (m.transReg way (m.setOf req.addr)) := by
      unfold grants
      rw [h.test_trans hs]
    rw [Option.filter_some, Option.filter_some, hg]
    split
    · exact congrArg some (h.page_trans hs)
    · rfl

/-- `translate` leaves the physical address in the request, or leaves the request alone. -/
theorem translate_addr (m : Mmu) (env : Env σ) (req : Request) :
    (m.translate env req).2.2.2.addr =
      ((m.pageOf env req).map (· ||| pageOffset req.addr)).getD req.addr := by
  have ha : Alike m (if req.debug then m else m.age (m.setOf req.addr)) := by
    split
    · exact .refl m
    · exact alike_age (m.setOf_lt req.addr)
  rw [← ha.pageOf env req]
  unfold translate
  dsimp only
  generalize (if req.debug = true then m else m.age (m.setOf req.addr)) = m'
  unfold pageOf entryOf
  cases m'.hitWay req.addr with
  | some way =>
    dsimp only
    rw [hit_addr, Option.filter_some]
    split <;> rfl
  | none =>
    dsimp only
    split
    · rfl
    · split <;> rename_i hw <;> rw [hw]
      · rfl
      · dsimp only
        rw [refill_addr, Option.map_some, Option.filter_some]
        split <;> rfl

theorem translate_addr_eq_iff : (m.translate env req).2.2.2.addr = req.addr ↔ m.InPlace env req := by
  rw [translate_addr]
  unfold InPlace pageOf
  cases (m.entryOf env req).filter (grants req) with
  | none => exact ⟨fun _ _ h => (nomatch h), fun _ => rfl⟩
  | some t => exact pageAlign_or_eq_iff.trans ⟨fun h _ hp => (Option.some.inj hp).symm.trans h, fun h => h _ rfl⟩

end Mmu

/-! ## Data accesses -/

namespace Core

variable [EnvImpl σ] {c x : Core σ} {req : Request} {r : Access σ} {ci : Instruction}

/-- A data access that keeps its address on the way to the port. -/
def AccessesInPlace (req : Request) (c : Core σ) : Prop :=
  misaligned req = false → c.isDmmuActive = true → c.dmmu.InPlace c.env req

omit [EnvImpl σ] in
theorem exception_exea {t : ExType} {addr : U32} (ht : t.isAsync = false)
    (h : c.exception t addr = .ok x) : x.exea = addr := by
  obtain ⟨hm, -⟩ | ⟨-, -, rfl⟩ := exception_ok h
  · rw [masked_of_sync c ht] at hm
    cases hm
  · unfold entered
    rw [ht]
    rfl

omit [EnvImpl σ] in
theorem abort_exea {t : ExType} (ht : t.isAsync = false) (h : c.abort t req = .ok r) :
    r.core.exea = req.addr := by
  obtain ⟨x, hx, rfl⟩ := Outcome.lift_eq_ok.1 h
  exact exception_exea ht hx

/-- A bus error is about the address that was sent. -/
theorem send_exea (h : c.send req = .ok r) (ht : r.core.taken ≠ c.taken) : r.core.exea = req.addr := by
  have hans := Env.convertAndTransact_answers c.env req
  unfold send at h
  generalize c.env.convertAndTransact req = q at h hans
  obtain ⟨resp, q, e⟩ := q
  obtain ⟨d, n, rfl⟩ := hans
  cases resp with
  | error =>
    have haddr := abort_exea rfl h
    exact haddr
  | failed =>
    dsimp only at h
    split at h
    · cases h
    · cases h
      exact (ht (complete_taken _ _)).elim
  | success =>
    cases h
    refine (ht ?_).elim
    rw [complete_taken]
    split <;> rfl

/-- Whatever `transact` raises is about the address that translation leaves. -/
theorem translateSend_exea (h : c.translateSend req = .ok r) (ht : r.core.taken ≠ c.taken) :
    r.core.exea = (c.translateData req).2.1.addr := by
  obtain ⟨d, e, -, hcore⟩ := translateData_core c req
  rw [translateSend_eq] at h
  split at h <;> rename_i he <;> rw [he] at hcore ⊢
  · exact abort_exea rfl h
  · exact abort_exea rfl h
  · refine send_exea h ?_
    dsimp only at hcore
    rw [hcore]
    exact ht

theorem transact_exea_iff (h : c.transact req = .ok r) (ht : r.core.taken ≠ c.taken) :
    r.core.exea = req.addr ↔ c.AccessesInPlace (c.dataRequest req) := by
  obtain ⟨w, hw⟩ := c.checkWatchpoints_eq (c.dataRequest req)
  unfold transact at h
  dsimp only at h
  rw [hw] at h
  unfold AccessesInPlace
  split at h
  · rename_i hm
    have haddr := abort_exea rfl h
    exact iff_of_true haddr fun hm' => by rw [hm] at hm'; cases hm'
  · rename_i hm
    have haddr := translateSend_exea h ht
    rw [translateData_wpEvent] at haddr
    rw [haddr]
    unfold translateData
    cases ha : c.isDmmuActive with
    | true =>
      rw [if_pos rfl]
      exact Mmu.translate_addr_eq_iff.trans ⟨fun h _ _ => h, fun h => h (by simpa using hm) rfl⟩
    | false =>
      rw [if_neg Bool.false_ne_true]
      exact iff_of_true rfl fun _ hf => by cases hf

/-- A load or store, with its effective address. -/
theorem executeMem_exea_iff {e : MemExec} {n : Nat} (hr : c.requestOf e ci = some req)
    (h : c.executeMem e ci = .ok (n, x)) (ht : x.taken ≠ c.taken) :
    x.exea = req.addr ↔ c.AccessesInPlace req := by
  rw [executeMem_access] at h
  obtain ⟨i, a, v, ha, hv, -, he⟩ := accessMemory_sends (by rw [h]; simp)
  obtain ⟨r, hs, hc⟩ := Outcome.lift_eq_ok.1 (he.symm.trans h)
  obtain ⟨rfl, hx⟩ := Prod.mk.inj hc
  have hxr : x.taken = r.core.taken ∧ x.exea = r.core.exea := by
    rw [← hx]
    split <;> exact ⟨rfl, rfl⟩
  unfold requestOf at hr
  rw [ha, hv] at hr
  cases hr
  rw [hxr.2]
  exact transact_exea_iff hs (by rwa [← hxr.1])

/-! ## Fetches -/

/-- A fetch that keeps its address on the way to the port. -/
def FetchesInPlace (c : Core σ) : Prop :=
  c.isImmuActive = true →
    if c.samePage then c.physIpg ||| pageOffset c.nextPc = c.nextPc
    else c.immu.InPlace c.env c.fetchRequest

omit [EnvImpl σ] in
theorem refuse_exea {t : ExType} {f : Bool × Core σ} (ht : t.isAsync = false)
    (h : c.refuse t = .ok f) : f.1 = false ∧ f.2.exea = c.ireq.addr := by
  obtain ⟨b, hb, rfl⟩ := Outcome.lift_eq_ok.1 h
  exact ⟨rfl, exception_exea ht hb⟩

/-- The address step finds the address of the fetch, or raises an exception about it. -/
theorem fetchAddress_place {f : Bool × Core σ} (h : c.fetchAddress = .ok f) :
    ∃ a, (if f.1 then f.2.ireq.addr else f.2.exea) = a ∧ (a = c.nextPc ↔ c.FetchesInPlace) := by
  unfold fetchAddress at h
  unfold FetchesInPlace
  cases ha : c.isImmuActive with
  | false =>
    rw [ha, if_neg Bool.false_ne_true] at h
    cases h
    exact ⟨_, rfl, iff_of_true rfl fun hf => by cases hf⟩
  | true =>
    rw [ha, if_pos rfl] at h
    cases hs : c.samePage with
    | true =>
      rw [hs, if_pos rfl] at h
      cases h
      exact ⟨_, rfl, ⟨fun h _ => h, fun h => h rfl⟩⟩
    | false =>
      rw [hs, if_neg Bool.false_ne_true] at h
      have haddr : c.translateFetch.2.ireq.addr = c.nextPc ↔ c.immu.InPlace c.env c.fetchRequest :=
        Mmu.translate_addr_eq_iff
      refine ⟨c.translateFetch.2.ireq.addr, ?_, haddr.trans ⟨fun h _ => h, fun h => h rfl⟩⟩
      split at h <;> rename_i he <;> rw [he]
      · obtain ⟨hf, hx⟩ := refuse_exea rfl h
        rw [hf, if_neg Bool.false_ne_true, hx]
      · obtain ⟨hf, hx⟩ := refuse_exea rfl h
        rw [hf, if_neg Bool.false_ne_true, hx]
      · cases h
        rfl

/-- The memory step keeps the address, or raises an exception about it. -/
theorem fetchWord_place {f : Bool × Core σ} (h : c.fetchWord = .ok f) :
    (if f.1 then f.2.ireq.addr else f.2.exea) = c.ireq.addr := by
  unfold fetchWord at h
  split at h
  · cases h
    rfl
  · have hans := Env.convertAndTransact_answers c.env { c.ireq with data := bytesOf c.env.hostEndian c.insn }
    have haddr : c.readInsn.2.ireq.addr = c.ireq.addr := by
      obtain ⟨d, n, hd⟩ := hans
      show (c.env.convertAndTransact _).2.1.addr = c.ireq.addr
      rw [hd]
    split at h <;> rename_i he <;> rw [he] at haddr
    · obtain ⟨hf, hx⟩ := refuse_exea rfl h
      rw [hf, if_neg Bool.false_ne_true, hx]
      exact haddr
    · cases h
    · cases h
      exact haddr

end Core

/-! ## Steps -/

namespace Or1k

variable [EnvImpl σ] {s x f : Or1k σ} {ci : Instruction}

omit [EnvImpl σ] in
/-- The decoder refuses the word that was fetched from `m_ireq.addr`. -/
theorem compile_exea (h : s.compile = .ok (none, x)) : x.exea = s.ireq.addr := by
  unfold compile at h
  dsimp only at h
  split at h
  · obtain ⟨b, hb, hx⟩ := Outcome.bind_eq_ok.1 h
    obtain ⟨c, hc, rfl⟩ := onCore_eq_ok.1 hb
    cases hx
    exact Core.exception_exea rfl hc
  · split at h <;> cases h

/-- Whatever a fetch raises is about the address it ended up with. -/
theorem fetch_exea_iff (h : s.fetch = .ok (none, x)) : x.exea = s.nextPc ↔ s.toCore.FetchesInPlace := by
  obtain ⟨⟨found, s1⟩, h1, h⟩ := Outcome.bind_eq_ok.1 h
  obtain ⟨_, c1, hc1, he⟩ := liftCore_eq_ok.1 h1
  obtain ⟨rfl, rfl⟩ := Prod.mk.inj he
  obtain ⟨a, ha, hiff⟩ := Core.fetchAddress_place hc1
  rw [← hiff]
  dsimp only at h ha
  cases found with
  | false =>
    cases h
    rw [if_neg Bool.false_ne_true] at ha
    exact iff_of_eq (congrArg (· = s.nextPc) ha)
  | true =>
    rw [if_neg (by simp)] at h
    rw [if_pos rfl] at ha
    split at h
    · cases h
    · obtain ⟨⟨read, s2⟩, h2, h⟩ := Outcome.bind_eq_ok.1 h
      obtain ⟨_, c2, hc2, he⟩ := liftCore_eq_ok.1 h2
      obtain ⟨rfl, rfl⟩ := Prod.mk.inj he
      have hw := Core.fetchWord_place hc2
      dsimp only at h hw
      cases read with
      | false =>
        cases h
        rw [if_neg Bool.false_ne_true] at hw
        exact iff_of_eq (congrArg (· = s.nextPc) (hw.trans ha))
      | true =>
        rw [if_neg (by simp)] at h
        rw [if_pos rfl] at hw
        exact iff_of_eq (congrArg (· = s.nextPc) ((compile_exea h).trans (hw.trans ha)))

variable [HostLib]

/-- The instruction that leaves `x` raises an exception in its fetch, or in its data access, at
the effective address `ea`. -/
inductive Faults (s x : Or1k σ) : U32 → Prop where
  | fetch (h : s.fetch = .ok (none, x)) : Faults s x s.nextPc
  | access (e : MemExec) (ci : Instruction) (c : Core σ) (req : Request)
      (hm : s.memInsn = some (e, ci, c)) (hr : c.requestOf e ci = some req)
      (hx : s.fetchExecute = .ok x) (ht : x.taken ≠ c.taken) : Faults s x req.addr

/-- What the fetch, or the data access behind it, is about keeps its address. -/
def InPlace (s : Or1k σ) : Prop :=
  match s.memInsn with
  | some (e, ci, c) => ∀ req, c.requestOf e ci = some req → c.AccessesInPlace req
  | none => s.toCore.FetchesInPlace

omit [HostLib] in
theorem memInsn_eq_none (h : s.fetch = .ok (none, x)) : s.memInsn = none := by
  unfold memInsn
  rw [h]

theorem faults_exea_iff {ea : U32} (h : Faults s x ea) : x.exea = ea ↔ s.InPlace := by
  unfold InPlace
  cases h with
  | fetch h =>
    rw [memInsn_eq_none h]
    exact fetch_exea_iff h
  | access e ci c req hm hr hx ht =>
    rw [hm]
    obtain ⟨f, hf, he, rfl⟩ := memInsn_eq_some hm
    obtain ⟨⟨insn, f'⟩, hf', hx⟩ := Outcome.bind_eq_ok.1 hx
    cases hf.symm.trans hf'
    obtain ⟨n, hc, -⟩ := execute_mem he hx
    have hiff := Core.executeMem_exea_iff hr hc ht
    refine hiff.trans ⟨fun h req' hr' => ?_, fun h => h req hr⟩
    cases hr.symm.trans hr'
    exact h

end Or1k

namespace Machine

open Or1k

variable [EnvImpl σ] [HostLib] {m m' : Machine σ}

/-- The step raises an exception in its fetch or its data access, at the effective address `ea`. -/
def FaultsAt (m : Machine σ) (ea : U32) : Prop :=
  m.executes = true ∧ ∃ x, m.cpu.beginCycle.fetchExecute = .ok x ∧ Faults m.cpu.beginCycle x ea

/-- EEAR is the effective address of the fault exactly if the page is mapped to itself where the
access is translated. -/
theorem eear_effective_iff {ea : U32} (hn : m.next = some m') (h : FaultsAt m ea) :
    m'.cpu.exea = ea ↔ m.cpu.beginCycle.InPlace := by
  obtain ⟨he, x, hx, hf⟩ := h
  have hexea : m'.cpu.exea = x.exea := by
    obtain ⟨limit, y, hy, rfl⟩ | ⟨y, hy, rfl⟩ := iteration_cases he hn
    · cases hx.symm.trans hy
      exact retired_frame (·.exea) limit x fun _ _ _ _ => rfl
    · cases hx.symm.trans hy
  rw [hexea]
  exact faults_exea_iff hf

end Machine

namespace Machine

open Or1k

attribute [local instance] HostLib.plain

/-- Map the page at 0x2000 to the one at zero, and return with `l.rfe` to 0x2200, where the memory
holds no instruction. -/
def mappedProgram : List (Nat × U32) :=
  [(0x100, 0xa8602001#32), (0x104, 0xc0401a01#32), (0x108, 0xa8600040#32), (0x10c, 0xc0401a81#32),
   (0x110, 0xa8602200#32), (0x114, 0xc0001820#32), (0x118, 0xa8608041#32), (0x11c, 0xc0001840#32),
   (0x120, 0x24000000#32), (0x200, 0x3c000000#32)]

/-- The illegal instruction at 0x2200 is reported at 0x200. -/
theorem eear_effective_iff_fails : ∃ m m' : Machine Memory,
    system.Run (Memory.boot mappedProgram) m ∧ m.next = some m' ∧ FaultsAt m 0x2200#32 ∧
      m'.cpu.exea = 0x200#32 ∧ m'.cpu.exea ≠ 0x2200#32 := by
  obtain ⟨m, hr, hm⟩ := System.exists_run system (Memory.boot mappedProgram)
    (.call 100#32 :: List.replicate 20 .run)
    (fun m => m.executes && decide (m.cpu.nextPc = 0x2200#32) &&
      (m.cpu.beginCycle.fetch.value?).any (fun r => r.1.isNone) &&
      (m.next).any fun m' : Machine Memory => decide (m'.cpu.exea = 0x200#32))
    (by decide +kernel)
  simp only [Bool.and_eq_true, decide_eq_true_eq] at hm
  obtain ⟨⟨⟨hx, hpc⟩, hf⟩, hn⟩ := hm
  obtain ⟨m', hn, hexea⟩ := (Option.any_eq_true _ _).1 hn
  have hexea := of_decide_eq_true hexea
  obtain ⟨⟨o, x⟩, hfetch, ho⟩ := (Option.any_eq_true _ _).1 hf
  obtain rfl : o = none := Option.isNone_iff_eq_none.1 ho
  have hfetch := Outcome.value?_eq_some.1 hfetch
  have hfault : FaultsAt m 0x2200#32 := by
    rw [← hpc]
    refine ⟨hx, x, ?_, .fetch hfetch⟩
    unfold fetchExecute
    rw [hfetch]
    rfl
  refine ⟨m, m', hr, hn, hfault, hexea, ?_⟩
  rw [hexea]
  decide

/-- A misaligned `l.lwz r3,1(r0)` after reset is reported at its effective address. -/
theorem eear_effective_iff_lwz : ∃ m m' : Machine Memory, m.next = some m' ∧
    FaultsAt m 0x1#32 ∧ m'.cpu.exea = 0x1#32 := by
  obtain ⟨m, -, hm⟩ := System.exists_run system (Memory.boot [(0x100, 0x84600001#32)])
    [.call 1#32, .run]
    (fun m => m.executes && m.next.isSome &&
      m.cpu.beginCycle.memInsn.any fun w => (m.cpu.beginCycle.fetchExecute.value?).any fun x =>
        (w.2.2.requestOf w.1 w.2.1).any fun req : Request =>
          decide (req.addr = 0x1#32 ∧ Core.misaligned req = true ∧ x.taken ≠ w.2.2.taken))
    (by decide +kernel)
  simp only [Bool.and_eq_true] at hm
  obtain ⟨⟨hx, hn⟩, hf⟩ := hm
  obtain ⟨m', hn⟩ := Option.isSome_iff_exists.1 hn
  obtain ⟨⟨e, ci, c⟩, hmem, hf⟩ := (Option.any_eq_true _ _).1 hf
  obtain ⟨x, hfe, hf⟩ := (Option.any_eq_true _ _).1 hf
  have hfe := Outcome.value?_eq_some.1 hfe
  obtain ⟨req, hr, hp⟩ := (Option.any_eq_true _ _).1 hf
  obtain ⟨haddr, hmis, htaken⟩ := of_decide_eq_true hp
  have hfault : FaultsAt m 0x1#32 := haddr ▸ ⟨hx, x, hfe, .access e ci c req hmem hr hfe htaken⟩
  refine ⟨m, m', hn, hfault, (eear_effective_iff hn hfault).2 ?_⟩
  unfold Or1k.InPlace
  rw [hmem]
  intro req' hr' hmis'
  cases hr.symm.trans hr'
  rw [hmis] at hmis'
  cases hmis'

end Machine

end Or1kiss
