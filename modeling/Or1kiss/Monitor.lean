import Or1kiss.Port
import Or1kiss.Transition

/-!
# The exclusive monitor

`m_excl_addr` and `m_excl_data` are written by exclusive reads through the direct pointer, and
by nothing else. `Core.monitor` is what decides an exclusive access besides the request; every
step but an `l.lwa` or `l.swa` leaves it alone (`act_monitor`), since no other request is
exclusive, nor the table walk in front of it.
-/

namespace Or1kiss

open Host Bits Runs

variable {σ : Type}

/-- What no access changes in a data request. -/
def Request.kind (req : Request) : Endian × Bool × Bool := (req.endian, req.imem, req.debug)

namespace Env

/-- The monitor, and the two endiannesses an access is converted between. -/
def monitor (e : Env σ) : U32 × List U8 × Endian × Endian :=
  (e.exclAddr, e.exclData, e.hostEndian, e.endian)

variable [EnvImpl σ] {e : Env σ} {req : Request}

theorem access_monitor (hx : req.excl = false) : (e.access req).2.2.monitor = e.monitor := by
  obtain ⟨d, n, hd⟩ := directMemoryPtr_answers e req
  unfold access
  split <;> rename_i h <;> rw [h] at hd <;> dsimp only at hd <;> subst hd
  · dsimp only
    rw [hx, if_neg Bool.false_ne_true]
    split <;> rfl
  · rfl

theorem convertAndTransact_monitor (hx : req.excl = false) :
    (e.convertAndTransact req).2.2.monitor = e.monitor := by
  by_cases h : req.size > 1 ∧ req.endian ≠ e.endian
  · rw [convertAndTransact_swapped h]
    exact access_monitor hx
  · rw [convertAndTransact_direct h]
    exact access_monitor hx

end Env

namespace Mmu

theorem Translates.kind {req r : Request} (h : Translates req r) : r.kind = req.kind := by
  unfold Request.kind
  rw [h.endian, h.imem, h.debug]

variable [EnvImpl σ] {m : Mmu} {env : Env σ} {req : Request}

theorem readPte_monitor (env : Env σ) (addr : U32) (hx : req.excl = false) :
    (readPte env req addr).2.2.2.monitor = env.monitor ∧
      (readPte env req addr).2.2.1.excl = false := by
  refine ⟨Env.convertAndTransact_monitor hx, ?_⟩
  obtain ⟨d, n, h⟩ : Request.Answers { req with addr := addr, data := env.garbage 4, size := 4 }
    (readPte env req addr).2.2.1 := Env.convertAndTransact_answers ..
  rw [h]
  exact hx

theorem walk_monitor (m : Mmu) (env : Env σ) (hx : req.excl = false) :
    (m.walk env req).2.monitor = env.monitor := by
  have hw : (walkRequest env req).excl = false := hx
  have h1 := readPte_monitor env ((m.ctrl &&& MMUCR.PGD) + (bits32 req.addr 31 24 <<< 2)) hw
  unfold walk
  dsimp only
  split
  · rfl
  · split <;> rename_i he1 <;> rw [he1] at h1 <;> obtain ⟨h1, hr⟩ := h1
    · rename_i pte1 r1 env1
      split
      · exact h1
      · have h2 := readPte_monitor env1 (pageAlign pte1 + (bits32 req.addr 23 13 <<< 2)) hr
        split <;> rename_i he2 <;> rw [he2] at h2
        · split <;> exact h2.1.trans h1
        · exact h2.1.trans h1
    · exact h1

theorem translate_monitor (m : Mmu) (env : Env σ) (hx : req.excl = false) :
    (m.translate env req).2.2.1.monitor = env.monitor := by
  unfold translate
  dsimp only
  generalize (if req.debug = true then m else m.age (m.setOf req.addr)) = m'
  split
  · rfl
  · split
    · rfl
    · have h := walk_monitor m' env hx
      split <;> rename_i he <;> rw [he] at h <;> exact h

end Mmu

namespace Core

/-- The monitor, that no fetch is exclusive, and the kind of the data requests. -/
def monitor (c : Core σ) : Bool × (Endian × Bool × Bool) × U32 × List U8 × Endian × Endian :=
  (c.ireq.excl, c.dreq.kind, c.env.monitor)

variable {c b c' : Core σ} {ci : Instruction}

theorem entered_monitor (t : ExType) (addr : U32) : (c.entered t addr).monitor = c.monitor := by
  unfold entered
  dsimp only
  split <;> rfl

theorem exception_monitor {t : ExType} {addr : U32} (h : c.exception t addr = .ok c') :
    c'.monitor = c.monitor := by
  obtain ⟨-, rfl⟩ | ⟨-, -, rfl⟩ := exception_ok h
  · rfl
  · exact entered_monitor t addr

theorem monitor_env {e : Env σ} (h : e.monitor = c.env.monitor) :
    ({ c with env := e } : Core σ).monitor = c.monitor := by
  unfold monitor
  rw [h]

variable [EnvImpl σ]

/-! ## Fetch -/

theorem translateFetch_monitor (hx : c.ireq.excl = false) : c.translateFetch.2.monitor = c.monitor := by
  have hr := Mmu.translate_fields c.immu c.env c.fetchRequest
  have hm := Mmu.translate_monitor c.immu c.env (show c.fetchRequest.excl = false from hx)
  have he : c.translateFetch.2.ireq.excl = c.ireq.excl := hr.excl
  show (c.translateFetch.2.ireq.excl, c.dreq.kind, c.translateFetch.2.env.monitor) = _
  rw [he, show c.translateFetch.2.env.monitor = c.env.monitor from hm]
  rfl

omit [EnvImpl σ] in
theorem refuse_monitor {t : ExType} {r : Bool × Core σ} (h : c.refuse t = .ok r) :
    r.2.monitor = c.monitor := by
  obtain ⟨c1, h1, rfl⟩ := Outcome.lift_eq_ok.1 h
  exact exception_monitor h1

theorem fetchAddress_monitor {r : Bool × Core σ} (hx : c.ireq.excl = false)
    (h : c.fetchAddress = .ok r) : r.2.monitor = c.monitor := by
  unfold fetchAddress at h
  split at h
  · split at h
    · cases h
      rfl
    · have ht := translateFetch_monitor hx
      split at h <;> rename_i he <;> rw [he] at ht
      · exact (refuse_monitor h).trans ht
      · exact (refuse_monitor h).trans ht
      · cases h
        exact ht
  · cases h
    rfl

theorem readInsn_monitor (hx : c.ireq.excl = false) : c.readInsn.2.monitor = c.monitor := by
  let req : Request := { c.ireq with data := bytesOf c.env.hostEndian c.insn }
  have hm := Env.convertAndTransact_monitor (e := c.env) (show req.excl = false from hx)
  obtain ⟨d, n, hd⟩ := Env.convertAndTransact_answers c.env req
  have he : c.readInsn.2.ireq.excl = c.ireq.excl := by
    show ((c.env.convertAndTransact req).2.1).excl = _
    rw [hd]
  show (c.readInsn.2.ireq.excl, c.dreq.kind, c.readInsn.2.env.monitor) = _
  rw [he, show c.readInsn.2.env.monitor = c.env.monitor from hm]
  rfl

theorem fetchWord_monitor {r : Bool × Core σ} (hx : c.ireq.excl = false)
    (h : c.fetchWord = .ok r) : r.2.monitor = c.monitor := by
  unfold fetchWord at h
  split at h
  · cases h
    rfl
  · have ht := readInsn_monitor hx
    split at h <;> rename_i he <;> rw [he] at ht
    · exact (refuse_monitor h).trans ht
    · cases h
    · cases h
      exact ht

theorem fetchWord_throw_monitor (hx : c.ireq.excl = false) (h : c.fetchWord = .throw c') :
    c'.monitor = c.monitor := by
  unfold fetchWord at h
  split at h
  · cases h
  · have ht := readInsn_monitor hx
    split at h <;> rename_i he <;> rw [he] at ht
    · exact (refuse_ne_throw h).elim
    · cases h
      exact ht
    · cases h

/-! ## Executors -/

theorem Effects.monitor {ts : List ExType} (h : Effects false c ts c') : c'.monitor = c.monitor := by
  induction h with
  | refl => rfl
  | tail _ h ih =>
    rw [← ih]
    cases h with
    | regs r s ha h => rfl
    | data hm => cases hm
    | translate hm => cases hm
    | raise t addr aesr ht he => exact entered_monitor t addr

omit [EnvImpl σ] in
theorem scheduleJump_monitor {target : U32} {delay : Nat} (h : c.scheduleJump target delay = .ok c') :
    c'.monitor = c.monitor := by
  rw [scheduleJump_eq] at h
  split at h
  · cases h
    rfl
  · have hj : (c.setJump target (c.instructions + delay)).monitor = c.monitor := rfl
    exact (exception_monitor h).trans hj

theorem send_monitor {req : Request} {r : Access σ} (hx : req.excl = false)
    (h : c.send req = .ok r) : r.core.monitor = c.monitor ∧ r.req.kind = req.kind := by
  have hm := Env.convertAndTransact_monitor (e := c.env) hx
  obtain ⟨d, n, hans⟩ := Env.convertAndTransact_answers c.env req
  unfold send at h
  generalize c.env.convertAndTransact req = q at h hm hans
  obtain ⟨resp, q, e⟩ := q
  dsimp only at h hm hans
  subst hans
  have hc : ({ c with env := e } : Core σ).monitor = c.monitor := monitor_env hm
  cases resp with
  | error =>
    obtain ⟨x, hxc, rfl⟩ := Outcome.lift_eq_ok.1 h
    exact ⟨(exception_monitor hxc).trans hc, rfl⟩
  | failed =>
    dsimp only at h
    rw [hx] at h
    cases h
  | success =>
    dsimp only at h
    rw [hx, if_neg Bool.false_ne_true] at h
    cases h
    unfold complete
    split <;> exact ⟨hc, rfl⟩

/-- Only an access that is not exclusive can be thrown out of the simulator. -/
theorem send_throw_monitor {req : Request} {t : Core σ × Request} (h : c.send req = .throw t) :
    req.excl = false ∧ t.1.monitor = c.monitor ∧ t.2.kind = req.kind := by
  have hm : req.excl = false → (c.env.convertAndTransact req).2.2.monitor = c.env.monitor :=
    Env.convertAndTransact_monitor
  obtain ⟨d, n, hans⟩ := Env.convertAndTransact_answers c.env req
  unfold send at h
  generalize c.env.convertAndTransact req = q at h hm hans
  obtain ⟨resp, q, e⟩ := q
  dsimp only at h hm hans
  subst hans
  cases resp with
  | error => exact (Outcome.lift_ne_throw h).elim
  | failed =>
    dsimp only at h
    split at h
    · rename_i hx
      have hx := Bool.eq_false_iff.2 (by simpa using hx)
      cases h
      exact ⟨hx, monitor_env (hm hx), rfl⟩
    · cases h
  | success => cases h

theorem translateSend_eq (c : Core σ) (req : Request) : c.translateSend req =
    match c.translateData req with
    | (.tlbMiss, req, c) => c.abort .dataTlbMiss req
    | (.pageFault, req, c) => c.abort .dataPageFault req
    | (.okay, req, c) => c.send req := rfl

theorem translateData_fields (c : Core σ) (req : Request) :
    Mmu.Translates req (c.translateData req).2.1 := by
  unfold translateData
  split
  · exact Mmu.translate_fields c.dmmu c.env req
  · constructor <;> rfl

theorem translateData_monitor {req : Request} (hx : req.excl = false) :
    (c.translateData req).2.2.monitor = c.monitor := by
  unfold translateData
  split
  · have hm := Mmu.translate_monitor c.dmmu c.env hx
    exact monitor_env hm
  · rfl

omit [EnvImpl σ] in
theorem abort_monitor {t : ExType} {req : Request} {r : Access σ} (h : c.abort t req = .ok r) :
    r.core.monitor = c.monitor ∧ r.req = req := by
  obtain ⟨x, hx, rfl⟩ := Outcome.lift_eq_ok.1 h
  exact ⟨exception_monitor hx, rfl⟩

omit [EnvImpl σ] in
theorem checkWatchpoints_monitor (req : Request) : (c.checkWatchpoints req).monitor = c.monitor := by
  unfold checkWatchpoints
  split <;> rfl

theorem transact_monitor {req : Request} {r : Access σ} (hx : req.excl = false)
    (h : c.transact req = .ok r) : r.core.monitor = c.monitor ∧ r.req.kind = req.kind := by
  unfold transact at h
  dsimp only at h
  have hw := c.checkWatchpoints_monitor (c.dataRequest req)
  split at h
  · obtain ⟨hc, hr⟩ := abort_monitor h
    exact ⟨hc.trans hw, by rw [hr]; rfl⟩
  · have hf := translateData_fields (c.checkWatchpoints (c.dataRequest req)) (c.dataRequest req)
    have ht := translateData_monitor (c := c.checkWatchpoints (c.dataRequest req))
      (show (c.dataRequest req).excl = false from hx)
    rw [translateSend_eq] at h
    generalize (c.checkWatchpoints (c.dataRequest req)).translateData (c.dataRequest req) = q
      at h hf ht
    obtain ⟨res, q, d⟩ := q
    dsimp only at h hf ht
    cases res with
    | tlbMiss | pageFault =>
      obtain ⟨hc, hr⟩ := abort_monitor h
      exact ⟨hc.trans (ht.trans hw), by rw [hr]; exact hf.kind⟩
    | okay =>
      obtain ⟨hc, hr⟩ := send_monitor (hf.excl.trans hx) h
      exact ⟨hc.trans (ht.trans hw), hr.trans hf.kind⟩

theorem transact_throw_monitor {req : Request} {t : Core σ × Request}
    (h : c.transact req = .throw t) :
    req.excl = false ∧ t.1.monitor = c.monitor ∧ t.2.kind = req.kind := by
  unfold transact at h
  dsimp only at h
  have hw := c.checkWatchpoints_monitor (c.dataRequest req)
  split at h
  · exact (Outcome.lift_ne_throw h).elim
  · have hf := translateData_fields (c.checkWatchpoints (c.dataRequest req)) (c.dataRequest req)
    have hm : (c.dataRequest req).excl = false → ((c.checkWatchpoints (c.dataRequest req)).translateData
        (c.dataRequest req)).2.2.monitor = _ := translateData_monitor
    rw [translateSend_eq] at h
    generalize (c.checkWatchpoints (c.dataRequest req)).translateData (c.dataRequest req) = q
      at h hf hm
    obtain ⟨res, q, d⟩ := q
    dsimp only at h hf hm
    cases res with
    | tlbMiss | pageFault => exact (Outcome.lift_ne_throw h).elim
    | okay =>
      obtain ⟨hx, hc, hr⟩ := send_throw_monitor h
      have hx : req.excl = false := hf.excl.symm.trans hx
      exact ⟨hx, hc.trans ((hm hx).trans hw), hr.trans hf.kind⟩

omit [EnvImpl σ] in
theorem writeBack_monitor {req : Request} (i : Fin 32) (he : req.kind = c.dreq.kind) :
    (c.writeBack i req).monitor = c.monitor := by
  show (c.ireq.excl, req.kind, c.env.monitor) = _
  rw [he]
  rfl

/-- The request of a load or store at `a + imm` with the bytes of `v`. -/
def memRequest (read excl : Bool) (size : Nat) (a v : U32) (ci : Instruction) (c : Core σ) : Request :=
  { c.dreq with
    read := read, excl := excl, addr := a + ci.imm, size := size
    data := (bytesOf c.env.hostEndian v).take size }

/-- The request of a load or store, as `transact` sends it on. -/
def requestOf (e : MemExec) (ci : Instruction) (c : Core σ) : Option Request :=
  match c.deref ci ci.src1, c.deref ci (e.buffer ci) with
  | .ok a, .ok v => some (c.dataRequest (memRequest e.isLoad e.isExclusive e.size a v ci c))
  | _, _ => none

/-- A load or store that gets past its operands sends its request. -/
theorem accessMemory_sends {read excl : Bool} {size : Nat} {post : U32 → U32} {buf : Operand}
    (h : ∀ f, accessMemory read excl size post buf ci c ≠ .fault f) :
    ∃ (i : Fin 32) (a v : U32), c.deref ci ci.src1 = .ok a ∧ c.deref ci buf = .ok v ∧
      buf = .reg i ∧ accessMemory read excl size post buf ci c =
        (c.transact (memRequest read excl size a v ci c)).lift (fun t => t.1.writeBack i t.2) fun r =>
          let c := r.core.writeBack i r.req
          (r.stall, if r.done && read then c.setGpr i (post (c.gpr i)) else c) := by
  revert h
  unfold accessMemory
  cases c.deref ci ci.src1 with
  | throw e => exact e.elim
  | fault f => intro h; exact (h f rfl).elim
  | ok a =>
    cases c.deref ci buf with
    | throw e => exact e.elim
    | fault f => intro h; exact (h f rfl).elim
    | ok v =>
      intro h
      cases buf with
      | null | imm => exact (h _ rfl).elim
      | reg i =>
        simp only [Outcome.widen, Outcome.lift_ok, id_eq, Outcome.ok_bind] at h ⊢
        split at h
        · rename_i hi
          refine ⟨⟨i, hi⟩, a, v, rfl, rfl, rfl, ?_⟩
          rw [dif_pos hi]
          rfl
        · exact (h _ rfl).elim

theorem accessMemory_monitor {read : Bool} {size n : Nat} {post : U32 → U32} {buf : Operand}
    (h : accessMemory read false size post buf ci c = .ok (n, c')) : c'.monitor = c.monitor := by
  obtain ⟨i, a, v, -, -, -, he⟩ := accessMemory_sends (by rw [h]; simp)
  obtain ⟨r, hr, hc⟩ := Outcome.lift_eq_ok.1 (he.symm.trans h)
  obtain ⟨rfl, rfl⟩ := Prod.mk.inj hc
  obtain ⟨hm, hd⟩ := transact_monitor rfl hr
  have hd : r.req.kind = r.core.dreq.kind := hd.trans (congrArg (·.2.1) hm).symm
  have hw := (writeBack_monitor i hd).trans hm
  split
  · exact hw
  · exact hw

theorem accessMemory_throw_monitor {read excl : Bool} {size : Nat} {post : U32 → U32}
    {buf : Operand} (h : accessMemory read excl size post buf ci c = .throw c') :
    excl = false ∧ c'.monitor = c.monitor := by
  obtain ⟨i, a, v, -, -, -, he⟩ := accessMemory_sends (by rw [h]; simp)
  obtain ⟨t, ht, rfl⟩ := Outcome.lift_eq_throw.1 (he.symm.trans h)
  obtain ⟨hx, hm, hd⟩ := transact_throw_monitor ht
  refine ⟨hx, ?_⟩
  exact (writeBack_monitor i (hd.trans (congrArg (·.2.1) hm).symm)).trans hm

end Core

namespace Or1k

open Or1kiss.Core

variable {s f s' : Or1k σ} {ci : Instruction}

theorem interrupted_monitor {e : ExType} : (s.interrupted e).toCore.monitor = s.toCore.monitor := by
  unfold interrupted
  split
  · rfl
  · exact entered_monitor e 0#32

theorem externalChecked_monitor : s.externalChecked.toCore.monitor = s.toCore.monitor := by
  unfold externalChecked
  split
  · exact interrupted_monitor
  · rfl

theorem timerUpdated_monitor : s.timerUpdated.toCore.monitor = s.toCore.monitor := by
  show s.tickChecked.toCore.monitor = _
  unfold tickChecked
  split
  · split
    · exact interrupted_monitor
    · rfl
  · rfl

variable [EnvImpl σ]

theorem dozed_monitor : s.dozed.toCore.monitor = s.toCore.monitor := by
  unfold dozed
  split
  · rfl
  · dsimp only
    split
    · rfl
    · exact timerUpdated_monitor

theorem sprWritten_monitor (reg val : U32) (debug : Bool) :
    (s.sprWritten reg val debug).toCore.monitor = s.toCore.monitor := by
  unfold sprWritten
  split
  · rfl
  · unfold regWritten
    cases SpReg.ofNum reg with
    | none =>
      cases SprFile.ofNum reg.toNat with
      | none => rfl
      | some f => cases f <;> rfl
    | some r =>
      cases r with
      | pmr => exact dozed_monitor
      | picsr =>
        simp only [Core.writeReg]
        split <;> rfl
      | _ => rfl

/-! ## Fetching and executing -/

theorem monitor_ends (hx : s.ireq.excl = false) :
    Outcome.Ends (fun x => x.toCore.monitor = s.toCore.monitor)
      (fun r => r.2.toCore.monitor = s.toCore.monitor) s.fetch := by
  have hexcl : ∀ {c : Core σ}, c.monitor = s.toCore.monitor → c.ireq.excl = false :=
    fun h => (congrArg Prod.fst h).trans hx
  refine fetch_ends (P := fun c => c.monitor = s.toCore.monitor) ?_ (fun c h => ?_)
    (fun c x h hr => ?_) fun c w h => h
  · exact Outcome.ends_of (fun r hr => fetchAddress_monitor hx hr)
      fun x hx => (fetchAddress_ne_throw hx).elim
  · exact Outcome.ends_of (fun r hr => (fetchWord_monitor (hexcl h) hr).trans h)
      fun x ht => (fetchWord_throw_monitor (hexcl h) ht).trans h
  · obtain ⟨t, addr, -, -, rfl⟩ := hr
    exact (entered_monitor t addr).trans h

theorem fetch_monitor {r : Option Instruction × Or1k σ} (hx : s.ireq.excl = false)
    (h : s.fetch = .ok r) : r.2.toCore.monitor = s.toCore.monitor := (monitor_ends hx).of_ok h

theorem fetch_throw_monitor (hx : s.ireq.excl = false) (h : s.fetch = .throw s') :
    s'.toCore.monitor = s.toCore.monitor := (monitor_ends hx).of_throw h

variable [HostLib]

/-- Every instruction but `l.lwa` and `l.swa` leaves the monitor alone. -/
theorem execute_monitor (hn : ∀ e, ci.exec = some (.mem e) → e.isExclusive = false)
    (h : s.execute ci = .ok s') : s'.toCore.monitor = s.toCore.monitor := by
  by_cases he : ∃ e, ci.exec = some (.mem e)
  · obtain ⟨e, he⟩ := he
    obtain ⟨n, hm, -⟩ := execute_mem he h
    rw [executeMem_access, hn e he] at hm
    exact accessMemory_monitor hm
  · cases execute_ok h with
    | plain c limit e hce hp hr =>
      obtain ⟨ts, hts, -⟩ := hr
      have hmem : e.isMem = false := by
        cases e with
        | mem e => exact (he ⟨e, hce⟩).elim
        | _ => rfl
      rw [hmem] at hts
      exact hts.monitor
    | untaken => rfl
    | taken e target r c hce hj ht hs hr =>
      have hc : ({ s.toCore with toRegs := r } : Core σ).monitor = s.toCore.monitor := rfl
      exact (scheduleJump_monitor hs).trans hc
    | mtspr a b => exact sprWritten_monitor _ _ _
    | nop s' hne hnop =>
      obtain ⟨rfl, -⟩ | ⟨rfl, -⟩ | ⟨c, rfl, ⟨g, t, a, b, rfl⟩, -⟩ := nop_ok hnop <;> rfl
    | rfe s' hre hrfe =>
      obtain ⟨c, hc, rfl⟩ := rfe_ok hrfe
      have hm : (s.withCore c).toCore.monitor = s.toCore.monitor := scheduleJump_monitor hc
      unfold rfeRestored
      split <;> exact hm

theorem execute_throw_monitor (h : s.execute ci = .throw s') :
    (∀ e, ci.exec = some (.mem e) → e.isExclusive = false) ∧
      s'.toCore.monitor = s.toCore.monitor := by
  obtain ⟨e, c, he, hc, rfl⟩ := execute_throw h
  rw [executeMem_access] at hc
  obtain ⟨hx, hm⟩ := accessMemory_throw_monitor hc
  refine ⟨fun e' he' => ?_, hm⟩
  rw [he] at he'
  cases he'
  exact hx

/-- The load or store at the program counter, and the core that executes it. -/
def memInsn (s : Or1k σ) : Option (MemExec × Instruction × Core σ) :=
  match s.fetch with
  | .ok (some ci, f) =>
    match ci.exec with
    | some (.mem e) => some (e, ci, f.toCore)
    | _ => none
  | _ => none

omit [HostLib] in
theorem memInsn_of_fetch {e : MemExec} (hf : s.fetch = .ok (some ci, f))
    (he : ci.exec = some (.mem e)) : s.memInsn = some (e, ci, f.toCore) := by
  unfold memInsn
  rw [hf]
  dsimp only
  rw [he]

theorem fetchExecute_monitor (hx : s.ireq.excl = false)
    (hn : ∀ e ci c, s.memInsn = some (e, ci, c) → e.isExclusive = false)
    (h : s.fetchExecute = .ok s') : s'.toCore.monitor = s.toCore.monitor := by
  obtain ⟨⟨insn, f⟩, hf, h⟩ := Outcome.bind_eq_ok.1 h
  have hm : f.toCore.monitor = s.toCore.monitor := fetch_monitor hx hf
  cases insn with
  | none =>
    cases h
    exact hm
  | some ci =>
    exact (execute_monitor (fun e he => hn e ci _ (memInsn_of_fetch hf he)) h).trans hm

theorem fetchExecute_throw_monitor (hx : s.ireq.excl = false) (h : s.fetchExecute = .throw s') :
    s'.toCore.monitor = s.toCore.monitor := by
  rcases Outcome.bind_eq_throw.1 h with h | ⟨⟨insn, f⟩, hf, h⟩
  · exact fetch_throw_monitor hx h
  · have hm : f.toCore.monitor = s.toCore.monitor := fetch_monitor hx hf
    cases insn with
    | none => cases h
    | some ci => exact (execute_throw_monitor h).2.trans hm

end Or1k

namespace Machine

open Or1k

variable [EnvImpl σ] [HostLib] {m m' : Machine σ} {a : Action σ}

/-- The load or store that an action executes. -/
def memInsn (m : Machine σ) : Action σ → Option (MemExec × Instruction × Core σ)
  | .run => if m.executes then m.cpu.beginCycle.memInsn else none
  | _ => none

omit [HostLib] in
theorem outside_monitor {s s' : Or1k σ} (h : outside s a = .ok s') :
    s'.toCore.monitor = s.toCore.monitor := by
  cases outside_ok h with
  | writeSpr reg val => exact sprWritten_monitor reg val true
  | writeGpr | world | setUp => rfl

/-- Whatever happens, but an `l.lwa` or `l.swa`. -/
theorem act_monitor (hx : m.cpu.ireq.excl = false) (hn : m.act a = some m')
    (he : ∀ e ci c, m.memInsn a = some (e, ci, c) → e.isExclusive = false) :
    m'.cpu.toCore.monitor = m.cpu.toCore.monitor := by
  cases act_transition hn with
  | begin r s n =>
    have h : (externalChecked { s with limit := s.cycles + n.toNat }).toCore.monitor =
        s.toCore.monitor := externalChecked_monitor
    exact dozed_monitor.trans h
  | mini | finish | leave => rfl
  | iterate limit s x hl hfe =>
    have hb : s.beginCycle.toCore.monitor = s.toCore.monitor := rfl
    have hxb : s.beginCycle.ireq.excl = false := hx
    have hr : (retired limit x).cpu.toCore.monitor = x.toCore.monitor :=
      retired_frame (·.toCore.monitor) limit x fun _ _ _ _ => rfl
    have hnx : ∀ e ci c, s.beginCycle.memInsn = some (e, ci, c) → e.isExclusive = false := by
      intro e ci c hc
      apply he e ci c
      simp only [memInsn, executes, hl, decide_true, if_true]
      exact hc
    rw [hr, fetchExecute_monitor hxb hnx hfe, hb]
  | throw limit s x hl hfe =>
    have hb : s.beginCycle.toCore.monitor = s.toCore.monitor := rfl
    have hxb : s.beginCycle.ireq.excl = false := hx
    exact (fetchExecute_throw_monitor hxb hfe).trans hb
  | drain s =>
    rw [drained_cpu]
    exact externalChecked_monitor.trans timerUpdated_monitor
  | interrupt p s id set =>
    obtain ⟨v, he⟩ := s.toCore.interrupt_eq id set
    rw [he]
    rfl
  | outside r s s' a ha h => exact outside_monitor h

end Machine

end Or1kiss
