import Or1kiss.Memory
import Or1kiss.Monitor
import Or1kiss.Tlb

/-!
# User mode is confined

An instruction executed in user mode enters an exception, or leaves the privileged state as it
is (`Confined`). The TLBs are no exception to that, but they are filled by hardware: a
translation may replace an entry by one of the page table that the supervisor has set up.
-/

namespace Or1kiss

open Host Bits Runs

variable {σ : Type}

/-- The status bits that any instruction may change; FO is fixed to one. -/
abbrev openFlags : U32 := SR.F ||| SR.CY ||| SR.OV ||| SR.FO

namespace Core

variable [EnvImpl σ] {c c' : Core σ} {ci : Instruction} {req : Request}

/-- The data MMU was not used, or to translate the request. -/
def Accessed (req : Request) (c c' : Core σ) : Prop :=
  c'.dmmu = c.dmmu ∨ c'.dmmu = (c.dmmu.translate c.env req).2.1

/-- The data MMU was not used, or for the load or store `ci`. -/
def LoadsStores (ci : Instruction) (c c' : Core σ) : Prop :=
  c'.dmmu = c.dmmu ∨ ∃ e req, ci.exec = some (.mem e) ∧ c.requestOf e ci = some req ∧
    c'.dmmu = (c.dmmu.translate c.env req).2.1

omit [EnvImpl σ] in
theorem abort_dmmu {t : ExType} {r : Access σ} (h : c.abort t req = .ok r) :
    r.core.dmmu = c.dmmu := by
  obtain ⟨c1, h1, rfl⟩ := Outcome.lift_eq_ok.1 h
  obtain ⟨-, rfl⟩ | ⟨-, -, rfl⟩ := exception_ok h1
  · rfl
  · unfold entered
    dsimp only
    split <;> rfl

theorem send_dmmu {r : Access σ} (h : c.send req = .ok r) : r.core.dmmu = c.dmmu := by
  have hc : ∀ (d : Core σ) (q : Request), (d.complete q).core.dmmu = d.dmmu := by
    intro d q
    unfold complete
    split <;> rfl
  simp only [send] at h
  split at h
  · exact (abort_dmmu h).trans rfl
  · split at h
    · cases h
    · cases h
      exact (hc _ _).trans rfl
  · cases h
    rw [hc]
    split <;> rfl

theorem send_throw_dmmu {x : Core σ × Request} (h : c.send req = .throw x) :
    x.1.dmmu = c.dmmu := by
  simp only [send] at h
  split at h
  · exact (abort_ne_throw h).elim
  · split at h
    · cases h
      rfl
    · cases h
  · cases h

theorem translateData_accessed (c : Core σ) (req : Request) :
    Accessed req c (c.translateData req).2.2 := by
  unfold translateData
  split
  · exact .inr rfl
  · exact .inl rfl

/-- A data access translates once at most, in the environment it started in. -/
theorem transact_accessed :
    (∀ r, c.transact req = .ok r → Accessed (c.dataRequest req) c r.core) ∧
      ∀ x, c.transact req = .throw x → Accessed (c.dataRequest req) c x.1 := by
  have hw : ∀ q : Request, (c.checkWatchpoints q).dmmu = c.dmmu ∧
      (c.checkWatchpoints q).env = c.env := by
    intro q
    unfold checkWatchpoints
    split <;> exact ⟨rfl, rfl⟩
  unfold transact
  dsimp only
  generalize c.dataRequest req = q
  have ht := translateData_accessed (c.checkWatchpoints q) q
  unfold Accessed at ht ⊢
  rw [(hw q).1, (hw q).2] at ht
  split
  · refine ⟨fun r hr => .inl ?_, fun x hx => (abort_ne_throw hx).elim⟩
    rw [abort_dmmu hr, (hw q).1]
  · unfold translateSend
    split <;> rename_i he <;> rw [he] at ht <;> dsimp only at ht
    · exact ⟨fun r hr => by rwa [abort_dmmu hr], fun x hx => (abort_ne_throw hx).elim⟩
    · exact ⟨fun r hr => by rwa [abort_dmmu hr], fun x hx => (abort_ne_throw hx).elim⟩
    · exact ⟨fun r hr => by rwa [send_dmmu hr], fun x hx => by rwa [send_throw_dmmu hx]⟩

/-- A load or store translates the address that it accesses. -/
theorem executeMem_accessed {e : MemExec} :
    (∀ n, c.executeMem e ci = .ok (n, c') → ∃ req, c.requestOf e ci = some req ∧ Accessed req c c') ∧
      (c.executeMem e ci = .throw c' → ∃ req, c.requestOf e ci = some req ∧ Accessed req c c') := by
  rw [executeMem_access]
  constructor
  · intro n h
    obtain ⟨i, a, v, ha, hv, -, he⟩ := accessMemory_sends (by rw [h]; simp)
    obtain ⟨r, hr, hc⟩ := Outcome.lift_eq_ok.1 (he.symm.trans h)
    obtain ⟨rfl, rfl⟩ := Prod.mk.inj hc
    refine ⟨_, by rw [requestOf, ha, hv], ?_⟩
    have hacc := transact_accessed.1 r hr
    unfold Accessed at hacc ⊢
    split <;> exact hacc
  · intro h
    obtain ⟨i, a, v, ha, hv, -, he⟩ := accessMemory_sends (by rw [h]; simp)
    obtain ⟨x, hx, rfl⟩ := Outcome.lift_eq_throw.1 (he.symm.trans h)
    exact ⟨_, by rw [requestOf, ha, hv], transact_accessed.2 x hx⟩

theorem loadsStores_of_accessed {e : MemExec} (he : ci.exec = some (.mem e))
    (h : ∃ req, c.requestOf e ci = some req ∧ Accessed req c c') : LoadsStores ci c c' := by
  obtain ⟨req, hreq, ha | ha⟩ := h
  · exact .inl ha
  · exact .inr ⟨e, req, he, hreq, ha⟩

end Core

/-! ## Special purpose registers -/

/-- A number that the access table finds in no file is in no file of the accessors either. -/
theorem SprFile.ofNum_toNat {reg : U32} (h : SprFile.ofNum reg.toInt = none) :
    SprFile.ofNum (reg.toNat : Int) = none := by
  by_cases hr : 2 * reg.toNat < 2 ^ 32
  · rwa [BitVec.toInt_eq_toNat_of_lt hr] at h
  · have hb : 0x1600 ≤ (reg.toNat : Int) := by omega
    unfold SprFile.ofNum
    rw [List.find?_eq_none]
    intro f _
    cases f <;> simp [SprFile.range] <;> omega

namespace Or1k

variable {s s' f x : Or1k σ} {ci : Instruction}

/-- User mode writes no register. -/
theorem sprWritten_user [EnvImpl σ] {reg val : U32} (hu : s.isSupervisor = false) :
    s.sprWritten reg val false = s.requestBreak := by
  unfold sprWritten
  split
  · rfl
  · rename_i hd
    have ha : (sprGetAccess reg).uwe = true := by
      simpa [writeDenied, sprCheckAccess, hu] using hd
    unfold regWritten
    unfold sprGetAccess at ha
    cases hr : SpReg.ofNum reg with
    | some r =>
      rw [hr] at ha
      dsimp only at ha ⊢
      cases r <;> first | exact absurd ha (by decide) | rfl
    | none =>
      rw [hr] at ha
      dsimp only at ha ⊢
      cases hf : SprFile.ofNum reg.toInt with
      | some f =>
        rw [hf] at ha
        cases ha
      | none => rw [SprFile.ofNum_toNat hf]

/-- Without SUMRA user mode reads nothing. -/
theorem getSpr_user {reg : U32} (hr : s.readsSuper = false) : s.getSpr reg false = 0#32 := by
  unfold getSpr
  split
  · rfl
  · rename_i hd
    have ha : (sprGetAccess reg).ure = true := by
      simpa [readDenied, sprCheckAccess, hr] using hd
    unfold sprGetAccess at ha
    cases hs : SpReg.ofNum reg with
    | some r =>
      rw [hs] at ha
      dsimp only at ha
      cases r <;> cases ha
    | none =>
      rw [hs] at ha
      dsimp only at ha ⊢
      cases hf : SprFile.ofNum reg.toInt with
      | some f =>
        rw [hf] at ha
        cases ha
      | none => rw [SprFile.ofNum_toNat hf]

/-- What `l.mfspr` delivers in user mode depends on the general purpose registers only. -/
theorem mfspr_user (hr : s.readsSuper = false) (hr' : s'.readsSuper = false)
    (hg : s'.gpr = s.gpr) (h : s.executeOrbis32Mfspr ci = .ok x) :
    ∃ x', s'.executeOrbis32Mfspr ci = .ok x' ∧ x'.gpr = x.gpr := by
  have hd : s'.toCore.deref ci ci.src1 = s.toCore.deref ci ci.src1 := by
    unfold Core.deref
    rw [hg]
  unfold executeOrbis32Mfspr at h ⊢
  rw [hd]
  obtain ⟨c, hc, rfl⟩ := onCore_eq_ok.1 h
  obtain ⟨a, ha, hc⟩ := Outcome.bind_eq_ok.1 hc
  rw [getSpr_user hr] at hc
  rw [ha, Outcome.ok_bind, getSpr_user hr']
  unfold Core.assign at hc ⊢
  split at hc
  · split at hc
    · rename_i i _ hi
      cases hc
      refine ⟨s'.withCore (s'.toCore.setGpr ⟨i, hi⟩ 0#32), ?_, ?_⟩
      · rw [onCore, dif_pos hi]
        rfl
      · show Function.update s'.gpr _ _ = Function.update s.gpr _ _
        rw [hg]
    · cases hc
  · cases hc

/-- The privileged registers, and the status besides the flags that any instruction may change,
are as they were. -/
structure Confined (s s' : Or1k σ) : Prop where
  status : s'.status &&& ~~~openFlags = s.status &&& ~~~openFlags
  expc : s'.expc = s.expc
  exsr : s'.exsr = s.exsr
  exea : s'.exea = s.exea
  evba : s'.evba = s.evba
  aecr : s'.aecr = s.aecr
  aesr : s'.aesr = s.aesr
  picMr : s'.picMr = s.picMr
  picSr : s'.picSr = s.picSr
  pmr : s'.pmr = s.pmr
  ttmr : s'.tick.ttmr = s.tick.ttmr
  dmmucr : s'.dmmu.ctrl = s.dmmu.ctrl
  immucr : s'.immu.ctrl = s.immu.ctrl
  shadow : s'.shadow = s.shadow

theorem Confined.refl (s : Or1k σ) : Confined s s := by constructor <;> rfl

theorem Confined.trans (h : Confined s f) (h' : Confined f x) : Confined s x where
  status := h'.status.trans h.status
  expc := h'.expc.trans h.expc
  exsr := h'.exsr.trans h.exsr
  exea := h'.exea.trans h.exea
  evba := h'.evba.trans h.evba
  aecr := h'.aecr.trans h.aecr
  aesr := h'.aesr.trans h.aesr
  picMr := h'.picMr.trans h.picMr
  picSr := h'.picSr.trans h.picSr
  pmr := h'.pmr.trans h.pmr
  ttmr := h'.ttmr.trans h.ttmr
  dmmucr := h'.dmmucr.trans h.dmmucr
  immucr := h'.immucr.trans h.immucr
  shadow := h'.shadow.trans h.shadow

/-- User mode is left through an exception only. -/
theorem Confined.user (h : Confined s s') (hu : s.isSupervisor = false) :
    s'.isSupervisor = false := by
  rw [← hu]
  exact test_congr (k := ~~~openFlags) (by decide) h.status

section Execute

variable [EnvImpl σ]

/-- A translation keeps the control register. -/
theorem translate_ctrl (m : Mmu) (env : Env σ) (req : Request) :
    (m.translate env req).2.1.ctrl = m.ctrl := by
  rcases m.translate_entries env req with ha | ⟨pte2, way, hr⟩
  · exact ha.ctrl
  · exact hr.ctrl

theorem LoadsStores.ctrl {c c' : Core σ} (h : Core.LoadsStores ci c c') :
    c'.dmmu.ctrl = c.dmmu.ctrl := by
  rcases h with h | ⟨e, req, -, -, h⟩
  · rw [h]
  · rw [h, translate_ctrl]

theorem confined_of_calm {c : Core σ} (limit : Nat) (hk : Core.Kept f.toCore c)
    (hc : Core.Calm f.toCore c) (ha : Core.LoadsStores ci f.toCore c) :
    Confined f { f with toCore := c, limit := limit } where
  status := by
    have hm : ∀ v : U32, v &&& ~~~openFlags = (v &&& ~~~resultFlags) &&& ~~~openFlags := by
      intro v
      rw [BitVec.and_assoc]
      congr 1
    rw [hm, hm f.status]
    exact congrArg (· &&& ~~~openFlags) hc.status
  expc := hc.expc
  exsr := hc.exsr
  exea := hc.exea
  evba := hk.evba
  aecr := hk.aecr
  aesr := hc.aesr
  picMr := hk.picMr
  picSr := hk.picSr
  pmr := hc.pmr
  ttmr := rfl
  dmmucr := LoadsStores.ctrl ha
  immucr := by
    show c.immu.ctrl = f.immu.ctrl
    rw [hk.immu]
  shadow := hk.shadow

variable [HostLib]

/-- In user mode the data MMU is used by loads and stores only, for the address they access. -/
theorem execute_loadsStores (h : f.execute ci = .ok x) (hu : f.isSupervisor = false) :
    Core.LoadsStores ci f.toCore x.toCore := by
  cases execute_ok h with
  | plain c limit e he hp hr =>
    cases e with
    | mem e =>
      unfold execute at h
      rw [he] at h
      obtain ⟨⟨stall, s1⟩, h1, h⟩ := Outcome.bind_eq_ok.1 h
      obtain ⟨_, d, hd, h2⟩ := liftCore_eq_ok.1 h1
      cases h2
      have hcd : c = d := (congrArg Or1k.toCore (Outcome.ok.inj h)).symm
      rw [hcd]
      exact Core.loadsStores_of_accessed he (Core.executeMem_accessed.1 _ hd)
    | _ =>
      obtain ⟨ts, heff, -⟩ := hr
      exact .inl heff.noAccess.2
  | untaken e he hj ht => exact .inl rfl
  | taken e target r c he hj ht hs hr =>
    obtain ⟨-, rfl⟩ | ⟨-, -, rfl⟩ := Core.scheduleJump_cases hs
    · exact .inl rfl
    · exact .inl rfl
  | mtspr a b he ha hb =>
    rw [sprWritten_user hu]
    exact .inl rfl
  | nop x he hn =>
    obtain ⟨rfl, -⟩ | ⟨rfl, -⟩ | ⟨c, rfl, ⟨_, _, _, _, rfl⟩, -⟩ := nop_ok hn
    · exact .inl rfl
    · exact .inl rfl
    · exact .inl rfl
  | rfe x he hx =>
    obtain ⟨c, hc, rfl⟩ := rfe_ok hx
    have hr : (f.withCore c).rfeRestored.dmmu = c.dmmu := by
      unfold rfeRestored
      split <;> rfl
    left
    rw [hr]
    obtain ⟨-, rfl⟩ | ⟨-, -, rfl⟩ := Core.scheduleJump_cases hc
    · rfl
    · rfl

/-- An executor in user mode enters an exception, or is confined. -/
theorem execute_confined (h : f.execute ci = .ok x) (hu : f.isSupervisor = false) :
    x.taken ≠ f.taken ∨ (Confined f x ∧ x.immu = f.immu) := by
  have ha := execute_loadsStores h hu
  cases execute_ok h with
  | plain c limit e he hp hr =>
    have ho := hr.outcomes
    rcases ho.control with hc | ⟨ht, -⟩
    · exact .inr ⟨confined_of_calm limit ho.toKept hc ha, ho.immu⟩
    · exact .inl ht
  | untaken e he hj ht => exact .inr ⟨.refl f, rfl⟩
  | taken e target r c he hj ht hs hr =>
    obtain ⟨-, rfl⟩ | ⟨-, -, rfl⟩ := Core.scheduleJump_cases hs
    · refine .inr ⟨?_, rfl⟩
      constructor <;> first | rfl | exact hr
    · left
      exact List.cons_ne_self _ _
  | mtspr a b he hd hb =>
    right
    rw [sprWritten_user hu]
    exact ⟨by constructor <;> rfl, rfl⟩
  | nop x he hn =>
    right
    obtain ⟨rfl, -⟩ | ⟨rfl, -⟩ | ⟨c, rfl, ⟨_, _, _, _, rfl⟩, -⟩ := nop_ok hn
    · exact ⟨by constructor <;> rfl, rfl⟩
    · exact ⟨by constructor <;> rfl, rfl⟩
    · exact ⟨by constructor <;> rfl, rfl⟩
  | rfe x he hx =>
    obtain ⟨c, hc, rfl⟩ := rfe_ok hx
    obtain ⟨-, rfl⟩ | ⟨-, -, rfl⟩ := Core.scheduleJump_cases hc
    · right
      have hr : (f.withCore (f.setJump f.rfeTarget (f.instructions + 0))).rfeRestored =
          (f.withCore (f.setJump f.rfeTarget (f.instructions + 0))).requestBreak :=
        if_neg (by rw [Bool.not_eq_true]; exact hu)
      rw [hr]
      exact ⟨by constructor <;> rfl, rfl⟩
    · left
      have hr : ∀ c : Core σ, (f.withCore c).rfeRestored.taken = c.taken := by
        intro c
        unfold rfeRestored
        split <;> rfl
      rw [hr, Core.entered_taken]
      exact List.cons_ne_self _ _

omit [HostLib] in
/-- A load or store that throws a C++ exception is confined, too. -/
theorem thrown_confined {e : MemExec} {c : Core σ} (he : ci.exec = some (.mem e))
    (h : f.toCore.executeMem e ci = .throw c) :
    Confined f (f.withCore c) ∧ c.immu = f.immu ∧ Core.LoadsStores ci f.toCore c := by
  have hc := Core.executeMem_throw_effects h
  have ha : Core.LoadsStores ci f.toCore c :=
    Core.loadsStores_of_accessed he (Core.executeMem_accessed.2 h)
  exact ⟨confined_of_calm f.limit hc.kept (hc.calm rfl) ha, hc.kept.immu, ha⟩

/-! ## The whole iteration -/

/-- The request has missed, and one way was refilled for its page from the page tables. -/
def Filled (m : Mmu) (env : Env σ) (req : Request) (m' : Mmu) : Prop :=
  m.hitWay req.addr = none ∧ ∃ pte2 way, Mmu.Refilled m env req pte2 way m'

omit [HostLib] in
theorem Addressed.filled {c c' : Core σ} (h : Core.Addressed c c') :
    Mmu.Alike c.immu c'.immu ∨ Filled c.immu c.env c.fetchRequest c'.immu := by
  cases h with
  | kept hs h =>
    rw [show c'.immu = c.immu from congrArg Prod.fst h]
    exact .inl (.refl _)
  | refused ha hs hr h | filled ha hs hr h =>
    rw [show c'.immu = _ from congrArg Prod.fst h]
    exact c.immu.translate_misses c.env c.fetchRequest

omit [HostLib] in
/-- Fetching is confined. -/
theorem FetchedInsn.confined (h : FetchedInsn s f) (ha : Core.Addressed s.toCore f.toCore) :
    Confined s f := by
  have hc : f.immu.ctrl = s.immu.ctrl := by
    rcases Addressed.filled ha with ha | ⟨-, pte2, way, hr⟩
    · exact ha.ctrl
    · exact hr.ctrl
  obtain ⟨_, _, _, ⟨_, _, _, _, _, _, -, rfl⟩, rfl⟩ := h
  constructor <;> first | rfl | exact hc

/-- What an iteration in user mode that enters no exception leaves behind. The ITLB may be filled for
the address fetched, and the DTLB for the address of the load or store executed. The page tables
are read in the environment before the fetch, and in the one after it. -/
structure Isolated (s x : Or1k σ) : Prop where
  confined : Confined s x
  itlb : Mmu.Alike s.immu x.immu ∨ Filled s.immu s.env s.fetchRequest x.immu
  dtlb : Mmu.Alike s.dmmu x.dmmu ∨ ∃ ci f e req, s.fetch = .ok (some ci, f) ∧
    ci.exec = some (.mem e) ∧ f.requestOf e ci = some req ∧ Filled s.dmmu f.env req x.dmmu

omit [HostLib] in
theorem isolated_of_fetched (hf : s.fetch = .ok (some ci, f)) (hfi : FetchedInsn s f)
    (hc : Confined f x) (hi : x.immu = f.immu) (ha : Core.LoadsStores ci f.toCore x.toCore) :
    Isolated s x where
  confined := (hfi.confined (fetch_addressed hf)).trans hc
  itlb := by
    rw [hi]
    exact Addressed.filled (fetch_addressed hf)
  dtlb := by
    have hd : f.dmmu = s.dmmu := congrArg (·.dmmu) hfi.eq
    rcases ha with ha | ⟨e, req, he, hreq, ha⟩
    · rw [show x.dmmu = s.dmmu from ha.trans hd]
      exact .inl (.refl _)
    · rw [show x.dmmu = _ from ha, hd]
      exact (s.dmmu.translate_misses f.env req).imp_right fun h => ⟨ci, f, e, req, hf, he, hreq, h⟩

theorem fetchExecute_isolated (h : s.fetchExecute = .ok x) (hu : s.isSupervisor = false) :
    x.taken ≠ s.taken ∨ Isolated s x := by
  obtain ⟨⟨insn, f⟩, hf, h⟩ := Outcome.bind_eq_ok.1 h
  obtain ⟨⟨ci, hci⟩, hfi⟩ | ⟨hn, b, c, hb, ⟨t, addr, ht, ha, rfl⟩, hx⟩ := fetch_ok hf
  · dsimp only at hci hfi
    subst hci
    have hc := hfi.confined (fetch_addressed hf)
    have ht : f.taken = s.taken := congrArg (·.taken) hfi.eq
    rcases execute_confined h (hc.user hu) with he | ⟨he, hi⟩
    · left
      rwa [← ht]
    · exact .inr (isolated_of_fetched hf hfi he hi (execute_loadsStores h (hc.user hu)))
  · dsimp only at hn hx
    subst hn
    cases h
    left
    have hbt : b.taken = s.taken := congrArg (·.taken) hb.eq
    rw [hx]
    show (b.entered t addr).taken ≠ s.taken
    rw [Core.entered_taken, hbt]
    exact List.cons_ne_self _ _

theorem fetchExecute_throw_isolated (h : s.fetchExecute = .throw x) : Isolated s x := by
  rcases fetchExecute_throw h with h | ⟨ci, f, e, c, hf, hfi, he, hm, rfl⟩
  · have ha := fetch_throw_addressed h
    have hfi := fetch_throw h
    refine ⟨hfi.confined ha, Addressed.filled ha, .inl ?_⟩
    obtain ⟨_, _, _, ⟨_, _, _, _, _, _, -, rfl⟩, rfl⟩ := hfi
    exact .refl _
  · obtain ⟨hc, hi, ha⟩ := thrown_confined he hm
    exact isolated_of_fetched hf hfi hc hi ha

omit [EnvImpl σ] [HostLib] in
theorem confined_redirect : Confined x x.retire.redirect := by
  have hs : (x.status ||| SR.FO) &&& ~~~openFlags = x.status &&& ~~~openFlags :=
    or_and_of_disjoint (by decide)
  unfold redirect
  split <;> constructor <;> first | rfl | exact hs

omit [HostLib] in
theorem Isolated.redirect (h : Isolated s x) : Isolated s x.retire.redirect where
  confined := h.confined.trans confined_redirect
  itlb := by
    have hi : x.retire.redirect.immu = x.immu := by
      unfold Or1k.redirect
      split <;> rfl
    rw [hi]
    exact h.itlb
  dtlb := by
    have hd : x.retire.redirect.dmmu = x.dmmu := by
      unfold Or1k.redirect
      split <;> rfl
    rw [hd]
    exact h.dtlb

end Execute

end Or1k

namespace Machine

open Or1k

/-- In every run, an instruction executed in user mode enters an exception, or leaves the CPU in
user mode with the privileged registers as they were and with TLB entries that are the old
ones or come from the page tables; and `l.mfspr` tells user mode nothing. -/
theorem user_isolated [EnvImpl σ] [HostLib] {m₀ m : Machine σ}
    {l : List (Move (Machine σ) (Action σ))} (h : system.Path m₀ l m) :
    (∀ st ∈ l, IsIteration st → st.pre.cpu.isSupervisor = false →
      st.post.cpu.taken ≠ st.pre.cpu.taken ∨
        (st.post.cpu.isSupervisor = false ∧ Isolated st.pre.cpu.beginCycle st.post.cpu)) ∧
    ∀ (s s' x : Or1k σ) (ci : Instruction), s.readsSuper = false → s'.readsSuper = false →
      s'.gpr = s.gpr → s.executeOrbis32Mfspr ci = .ok x →
      ∃ x', s'.executeOrbis32Mfspr ci = .ok x' ∧ x'.gpr = x.gpr := by
  refine ⟨h.forall fun m a m' hn ⟨ha, hx⟩ hu => ?_, fun s s' x ci hr hr' hg h =>
    mfspr_user hr hr' hg h⟩
  dsimp only at ha hx hu ⊢
  subst ha
  have hb : m.cpu.beginCycle.isSupervisor = false := hu
  rcases iteration_cases hx hn with ⟨limit, x, hf, rfl⟩ | ⟨x, hf, rfl⟩
  · rw [retired_cpu]
    have ht : x.retire.redirect.taken = x.taken := by
      unfold redirect
      split <;> rfl
    rcases fetchExecute_isolated hf hb with he | hi
    · left
      rwa [ht]
    · exact .inr ⟨hi.redirect.confined.user hb, hi.redirect⟩
  · have hi := fetchExecute_throw_isolated hf
    exact .inr ⟨hi.confined.user hb, hi⟩

end Machine

namespace Machine

open Or1k

attribute [local instance] HostLib.plain

/-- A load in user mode, with the data MMU on and a page table for the first page. -/
def tlbProgram : List (Nat × U32) :=
  [(0x100, 0x9c602000#32), (0x104, 0xc0201800#32), (0x108, 0x9c800020#32), (0x10c, 0xc0002011#32),
   (0x110, 0x84a00000#32), (0x2000, 0x4000#32), (0x4000, 0x3c0#32)]

/-- The load of `tlbProgram` is about to be executed. -/
def atLoad : List (Action Memory) := .call 1000#32 :: List.replicate 9 .run

/-- The hardware fills the TLB for an access of user mode. -/
theorem user_isolated_fails : ∃ m m' : Machine Memory, system.Run (Memory.boot tlbProgram) m ∧
    m.executes = true ∧ m.next = some m' ∧ m.cpu.isSupervisor = false ∧
      m'.cpu.taken = m.cpu.taken ∧ test (m.cpu.dmmu.matchReg 0 0) MMUM.V = false ∧
      test (m'.cpu.dmmu.matchReg 0 0) MMUM.V = true := by
  obtain ⟨m, hr, hm⟩ := System.exists_run system (Memory.boot tlbProgram) atLoad
    (fun m => m.executes && !m.cpu.isSupervisor && !test (m.cpu.dmmu.matchReg 0 0) MMUM.V &&
      (m.next).any fun m' : Machine Memory => decide (m'.cpu.taken = m.cpu.taken) &&
        test (m'.cpu.dmmu.matchReg 0 0) MMUM.V)
    (by decide +kernel)
  simp only [Bool.and_eq_true, Bool.not_eq_true'] at hm
  obtain ⟨⟨⟨hx, hu⟩, hv⟩, hm⟩ := hm
  obtain ⟨m', hn, hm⟩ := (Option.any_eq_true _ _).1 hm
  obtain ⟨ht, hv'⟩ := Bool.and_eq_true_iff.1 hm
  exact ⟨m, m', hr, hx, hn, hu, of_decide_eq_true ht, hv, hv'⟩

/-- The same load leaves everything else alone. -/
theorem user_isolated_load : ∃ m m' : Machine Memory, m.next = some m' ∧
    m.cpu.isSupervisor = false ∧ m'.cpu.isSupervisor = false ∧
      Isolated m.cpu.beginCycle m'.cpu := by
  obtain ⟨m, hr, hm⟩ := System.exists_run system (Memory.boot tlbProgram) atLoad
    (fun m => m.executes && !m.cpu.isSupervisor && (m.next).any fun m' : Machine Memory =>
      decide (m'.cpu.taken = m.cpu.taken))
    (by decide +kernel)
  simp only [Bool.and_eq_true, Bool.not_eq_true'] at hm
  obtain ⟨⟨hx, hu⟩, hm⟩ := hm
  obtain ⟨m', hn, ht⟩ := (Option.any_eq_true _ _).1 hm
  obtain ⟨l, hl, hmem⟩ := hr.path_tail (a := Action.run) hn
  rcases (user_isolated hl).1 _ hmem ⟨rfl, hx⟩ hu with he | hi
  · exact (he (of_decide_eq_true ht)).elim
  · exact ⟨m, m', hn, hu, hi⟩

end Machine

end Or1kiss
