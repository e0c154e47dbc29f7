import Or1kiss.Attached
import Or1kiss.Budget

/-!
# What an access costs

An instruction takes one cycle, and a load or store that completes takes another. The
simulator's memory charges that when `transact` serves the access. The direct data pointer
serves all but the last addresses, and there the cost is charged twice: by
`direct_memory_ptr` and by `convert_and_transact`.
-/

namespace Or1kiss

open Host Bits Runs

variable {σ : Type}

/-! ## The charge of one access -/

namespace Memory

variable {e : Env Memory} {req : Request}

/-- A request for data that a guest makes, not yet charged, on the port as `memory` sets it up. -/
structure Billed (e : Env Memory) (req : Request) : Prop where
  imem : req.imem = false
  debug : req.debug = false
  cycles : req.cycles = 0
  dataCycles : e.dataCycles = 1

theorem Billed.swapped (h : Billed e req) : Billed e (e.swapped req) := ⟨h.imem, h.debug, h.cycles, h.dataCycles⟩

/-- Both `direct_memory_ptr` and `convert_and_transact` charge. -/
theorem access_pointed (h : Billed e req) (hp : (e.getDataPtr req.addr).isSome = true) :
    (e.access req).1 ≠ .error ∧ ((e.access req).1 = .failed → req.excl = true) ∧
      (e.access req).2.1.cycles = 2 := by
  obtain ⟨p, hp⟩ := Option.isSome_iff_exists.1 hp
  have hd : e.directMemoryPtr req = (some p, { req with cycles := 1 }) := by
    unfold Env.directMemoryPtr
    rw [h.imem, if_neg Bool.false_ne_true, hp, h.cycles, h.dataCycles]
  unfold Env.access
  rw [hd]
  dsimp only
  rw [h.dataCycles]
  split
  · rename_i hx
    refine ⟨Env.exclusiveAccess_ne_error p, fun _ => hx, ?_⟩
    unfold Env.exclusiveAccess
    split
    · rfl
    · split
      · rfl
      · split <;> rfl
  · split <;> exact ⟨Response.noConfusion, Response.noConfusion, rfl⟩

/-- `transact` charges once, and only for an access it serves. -/
theorem access_unpointed (h : Billed e req) (hp : (e.getDataPtr req.addr).isSome = false) :
    (e.access req).1 = .error ∨ ((e.access req).1 = .success ∧ (e.access req).2.1.cycles = 1) := by
  have hd : e.directMemoryPtr req = (none, { req with cycles := 1 }) := by
    unfold Env.directMemoryPtr
    rw [h.imem, if_neg Bool.false_ne_true, Option.isSome_eq_false_iff, Option.isNone_iff_eq_none] at *
    rw [hp, h.cycles, h.dataCycles]
  unfold Env.access
  rw [hd]
  show (transact _ _).resp = _ ∨ ((transact _ _).resp = _ ∧ (transact _ _).cycles = 1)
  unfold transact
  dsimp only
  rw [h.debug, if_neg Bool.false_ne_true]
  split
  · exact .inl rfl
  · split <;> exact .inr ⟨rfl, rfl⟩

theorem convertAndTransact_pointed (h : Billed e req) (hp : (e.getDataPtr req.addr).isSome = true) :
    (e.convertAndTransact req).1 ≠ .error ∧
      ((e.convertAndTransact req).1 = .failed → req.excl = true) ∧
        (e.convertAndTransact req).2.1.cycles = 2 := by
  by_cases hc : req.size > 1 ∧ req.endian ≠ e.endian
  · rw [Env.convertAndTransact_swapped hc]
    exact access_pointed h.swapped hp
  · rw [Env.convertAndTransact_direct hc]
    exact access_pointed h hp

theorem convertAndTransact_unpointed (h : Billed e req)
    (hp : (e.getDataPtr req.addr).isSome = false) : (e.convertAndTransact req).1 = .error ∨
      ((e.convertAndTransact req).1 = .success ∧ (e.convertAndTransact req).2.1.cycles = 1) := by
  by_cases hc : req.size > 1 ∧ req.endian ≠ e.endian
  · rw [Env.convertAndTransact_swapped hc]
    exact access_unpointed h.swapped hp
  · rw [Env.convertAndTransact_direct hc]
    exact access_unpointed h hp

end Memory

namespace Core

variable {c x : Core Memory} {e : MemExec} {ci : Instruction} {req : Request} {n : Nat}

/-- The direct data pointer serves the load or store. -/
def pointed [EnvImpl σ] (e : MemExec) (ci : Instruction) (c : Core σ) : Bool :=
  (c.physical e ci).any fun a => (c.env.getDataPtr a).isSome

/-- The load or store completes: there is no exception, and an `l.swa` stores. -/
def completes [EnvImpl σ] (e : MemExec) (ci : Instruction) (c : Core σ) : Bool :=
  match c.executeMem e ci with
  | .ok (_, x) => decide (x.taken = c.taken) && (e != .swa || test x.status SR.F)
  | _ => false

/-- What is charged for a load or store. -/
def charge [EnvImpl σ] (e : MemExec) (ci : Instruction) (c : Core σ) : Nat :=
  if c.pointed e ci then 2 else if c.completes e ci then 1 else 0

theorem complete_stall (hd : req.debug = false) : (c.complete req).stall = req.cycles := by
  unfold complete
  rw [hd]
  rfl

theorem send_pointed (h : Memory.Billed c.env req) (hp : (c.env.getDataPtr req.addr).isSome = true) :
    ∃ r, c.send req = .ok r ∧ r.stall = 2 := by
  obtain ⟨hne, hx, hc⟩ := Memory.convertAndTransact_pointed h hp
  obtain ⟨d, k, hans⟩ := Env.convertAndTransact_answers c.env req
  unfold send
  generalize c.env.convertAndTransact req = q at hne hx hc hans
  obtain ⟨resp, q, t⟩ := q
  dsimp only at hne hx hc hans ⊢
  have hd : q.debug = false := by
    rw [hans]
    exact h.debug
  have hq : q.excl = req.excl := by rw [hans]
  cases resp with
  | error => exact (hne rfl).elim
  | failed =>
    dsimp only
    rw [hq, hx rfl, Bool.not_true, if_neg Bool.false_ne_true]
    exact ⟨_, rfl, (complete_stall hd).trans hc⟩
  | success => exact ⟨_, rfl, (complete_stall hd).trans hc⟩

/-- An access has come through, or has raised an exception. -/
structure Through (excl : Bool) (c : Core Memory) (r : Access Memory) : Prop where
  stall : r.stall = 1
  taken : r.core.taken = c.taken
  flag : excl = true → test r.core.status SR.F = true

theorem send_unpointed (h : Memory.Billed c.env req)
    (hp : (c.env.getDataPtr req.addr).isSome = false) :
    (∃ r, c.send req = .ok r ∧ Through req.excl c r) ∨
      ∃ (b : Core Memory) (q : Request), b.taken = c.taken ∧ c.send req = b.abort .dataBusError q := by
  have hu := Memory.convertAndTransact_unpointed h hp
  obtain ⟨d, k, hans⟩ := Env.convertAndTransact_answers c.env req
  unfold send
  generalize c.env.convertAndTransact req = q at hu hans
  obtain ⟨resp, q, t⟩ := q
  dsimp only at hu hans ⊢
  rcases hu with rfl | ⟨rfl, hc⟩
  · exact .inr ⟨{ c with env := t }, q, rfl, rfl⟩
  · have hd : q.debug = false := by
      rw [hans]
      exact h.debug
    have hq : q.excl = req.excl := by rw [hans]
    refine .inl ⟨_, rfl, (complete_stall hd).trans hc, ?_, fun hx => ?_⟩
    · rw [complete_taken]
      split <;> rfl
    · obtain ⟨k, hk, -⟩ := complete_core q (if q.excl = true then
        setFlag { c with env := t } SR.F else { c with env := t })
      rw [hk, hq, hx, if_pos rfl]
      exact test_or_self (v := c.status) (by decide)

/-- An exception is raised instead of the access. -/
structure Barred (c : Core Memory) (r : Access Memory) : Prop where
  stall : r.stall = 0
  taken : r.core.taken ≠ c.taken

theorem abort_barred {b : Core Memory} {t : ExType} {r : Access Memory} (hb : b.taken = c.taken)
    (ht : t.isAsync = false) (h : b.abort t req = .ok r) : Barred c r := by
  obtain ⟨x, hx, rfl⟩ := Outcome.lift_eq_ok.1 h
  obtain ⟨hm, -⟩ | ⟨-, -, rfl⟩ := exception_ok hx
  · rw [masked_of_sync _ ht] at hm
    cases hm
  · obtain ⟨-, -, htk, -, -⟩ := entered_fields ht req.addr b
    refine ⟨rfl, fun he => ?_⟩
    rw [← hb] at he
    exact List.cons_ne_self _ _ (htk.symm.trans he)

/-- Without translation the request goes to the port as it is. -/
theorem transact_untranslated (req : Request) (hd : c.isDmmuActive = false) : ∃ w, c.transact req =
    if misaligned (c.dataRequest req) then
      abort .dataAlignment (c.dataRequest req) { c with wpEvent := w }
    else send (c.dataRequest req) { c with wpEvent := w } := by
  obtain ⟨w, hw⟩ := c.checkWatchpoints_eq (c.dataRequest req)
  have ht : ({ c with wpEvent := w } : Core Memory).translateData (c.dataRequest req) =
      (.okay, c.dataRequest req, { c with wpEvent := w }) := by
    unfold translateData
    rw [if_neg (by rw [show isDmmuActive { c with wpEvent := w } = false from hd]; decide)]
  refine ⟨w, ?_⟩
  unfold transact
  dsimp only
  rw [hw, translateSend_eq, ht]

theorem resolved_untranslated (hd : c.isDmmuActive = false) :
    c.resolved req = if misaligned req then none else some req.addr := by
  unfold resolved translateData
  rw [hd, if_neg Bool.false_ne_true]

/-- The data request of a guest, on the port as `memory` sets it up. -/
structure Metered (c : Core Memory) : Prop where
  imem : c.dreq.imem = false
  debug : c.dreq.debug = false
  dataCycles : c.env.dataCycles = 1

theorem transact_pointed (hd : c.isDmmuActive = false)
    (hb : Memory.Billed c.env (c.dataRequest req))
    (hp : ((c.resolved (c.dataRequest req)).any fun a => (c.env.getDataPtr a).isSome) = true) :
    ∃ r, c.transact req = .ok r ∧ r.stall = 2 := by
  obtain ⟨w, ht⟩ := transact_untranslated req hd
  rw [resolved_untranslated hd] at hp
  split at hp
  · cases hp
  · rename_i ha
    rw [if_neg ha] at ht
    rw [ht]
    exact send_pointed (c := { c with wpEvent := w }) hb hp

theorem transact_unpointed (hd : c.isDmmuActive = false)
    (hb : Memory.Billed c.env (c.dataRequest req))
    (hp : ((c.resolved (c.dataRequest req)).any fun a => (c.env.getDataPtr a).isSome) = false) :
    (∃ r, c.transact req = .ok r ∧ Through req.excl c r) ∨
      ∃ (b : Core Memory) (t : ExType) (q : Request), t.isAsync = false ∧ b.taken = c.taken ∧
        c.transact req = b.abort t q := by
  obtain ⟨w, ht⟩ := transact_untranslated req hd
  rw [resolved_untranslated hd] at hp
  split at hp
  · rename_i ha
    rw [if_pos ha] at ht
    exact .inr ⟨{ c with wpEvent := w }, _, _, rfl, rfl, ht⟩
  · rename_i ha
    rw [if_neg ha] at ht
    rw [ht]
    rcases send_unpointed (c := { c with wpEvent := w }) hb hp with ⟨r, hr, hth⟩ | ⟨b, q, htk, he⟩
    · exact .inl ⟨r, hr, hth.stall, hth.taken, hth.flag⟩
    · exact .inr ⟨b, _, q, rfl, htk, he⟩

/-- What a load or store is charged. -/
theorem executeMem_charge (hm : Metered c) (hd : c.isDmmuActive = false)
    (h : c.executeMem e ci = .ok (n, x)) : n = c.charge e ci := by
  have h' := h
  rw [executeMem_access] at h'
  obtain ⟨i, a, v, ha, hv, -, he⟩ := accessMemory_sends (by rw [h']; simp)
  obtain ⟨r, hr, hc⟩ := Outcome.lift_eq_ok.1 (he.symm.trans h')
  obtain ⟨rfl, hx⟩ := Prod.mk.inj hc
  let q := memRequest e.isLoad e.isExclusive e.size a v ci c
  have hb : Memory.Billed c.env (c.dataRequest q) := ⟨hm.imem, hm.debug, rfl, hm.dataCycles⟩
  have hphys : c.physical e ci = c.resolved (c.dataRequest q) := by
    unfold physical requestOf
    rw [ha, hv]
    rfl
  have hxt : x.taken = r.core.taken ∧ x.status = r.core.status := by
    rw [← hx]
    split <;> exact ⟨rfl, rfl⟩
  have hcomp : c.completes e ci = (decide (x.taken = c.taken) && (e != .swa || test x.status SR.F)) := by
    unfold completes
    rw [h]
  unfold charge pointed
  rw [hphys, hcomp, hxt.1, hxt.2]
  cases hp : (c.resolved (c.dataRequest q)).any fun a => (c.env.getDataPtr a).isSome with
  | true =>
    obtain ⟨r', hr', hs⟩ := transact_pointed hd hb hp
    cases hr'.symm.trans hr
    rw [if_pos rfl]
    exact hs
  | false =>
    rw [if_neg Bool.false_ne_true]
    rcases transact_unpointed hd hb hp with ⟨r', hr', hth⟩ | ⟨b, t, q', ht, hbt, he⟩
    · cases hr'.symm.trans hr
      have hflag : (e != .swa || test r.core.status SR.F) = true := by
        by_cases hes : e = .swa
        · have hx : e.isExclusive = true := by rw [hes]; rfl
          rw [hth.flag hx, Bool.or_true]
        · rw [bne_iff_ne.2 hes, Bool.true_or]
      rw [decide_eq_true hth.taken, hflag, Bool.true_and, if_pos rfl]
      exact hth.stall
    · have hbar := abort_barred hbt ht (he.symm.trans hr)
      rw [decide_eq_false hbar.taken, Bool.false_and, if_neg Bool.false_ne_true]
      exact hbar.stall

theorem executeMem_ne_throw (hm : Metered c) (hd : c.isDmmuActive = false) :
    c.executeMem e ci ≠ .throw x := by
  intro h
  rw [executeMem_access] at h
  obtain ⟨i, a, v, ha, hv, -, he⟩ := accessMemory_sends (by rw [h]; simp)
  obtain ⟨t, ht, -⟩ := Outcome.lift_eq_throw.1 (he.symm.trans h)
  let q := memRequest e.isLoad e.isExclusive e.size a v ci c
  have hb : Memory.Billed c.env (c.dataRequest q) := ⟨hm.imem, hm.debug, rfl, hm.dataCycles⟩
  cases hp : (c.resolved (c.dataRequest q)).any fun a => (c.env.getDataPtr a).isSome with
  | true =>
    obtain ⟨r, hr, -⟩ := transact_pointed hd hb hp
    cases hr.symm.trans ht
  | false =>
    rcases transact_unpointed hd hb hp with ⟨r, hr, -⟩ | ⟨b, t', q', -, -, he⟩
    · cases hr.symm.trans ht
    · exact abort_ne_throw (he.symm.trans ht)

theorem Metered.attached (h : Metered c) (ha : Attached c x) : Metered x := by
  obtain ⟨hk, w, a, d, he⟩ := ha
  refine ⟨(congrArg (·.2.1) hk).trans h.imem, (congrArg (·.2.2) hk).trans h.debug, ?_⟩
  rw [he]
  exact h.dataCycles

end Core

/-! ## The two counters -/

namespace Or1k

open Or1kiss.Core

variable {s f x : Or1k σ} {ci : Instruction} {n : Nat} [EnvImpl σ]

/-- `n` cycles have been spent beyond one for each instruction. -/
def Spent (n : Nat) (s x : Or1k σ) : Prop := x.cycles + s.instructions = s.cycles + x.instructions + n

omit [EnvImpl σ] in
theorem Spent.of_eq (hc : x.cycles = s.cycles) (hi : x.instructions = s.instructions) : Spent 0 s x := by
  unfold Spent
  rw [hc, hi]
  rfl

omit [EnvImpl σ] in
/-- An instruction and its cycle are counted as it begins. -/
theorem Spent.counted (h : Spent n s.beginCycle x) : Spent n s x := by
  have h : x.cycles + (s.instructions + 1) = s.cycles + 1 + x.instructions + n := h
  show x.cycles + s.instructions = s.cycles + x.instructions + n
  omega

omit [EnvImpl σ] in
theorem FetchedInsn.counters (h : FetchedInsn s f) : f.cycles = s.cycles ∧
    f.instructions = s.instructions ∧ f.status = s.status :=
  ⟨congrArg (·.cycles) h.eq, congrArg (·.instructions) h.eq, congrArg (·.status) h.eq⟩

/-- What is charged beyond the cycle of the instruction at the program counter. -/
def charge (s : Or1k σ) : Nat :=
  match s.memInsn with
  | some (e, ci, c) => c.charge e ci
  | none => 0

/-- The instruction at the program counter is `l.nop` 0x5. -/
def resetsCount (s : Or1k σ) : Bool :=
  match s.fetch with
  | .ok (some ci, _) => decide (ci.exec = some .nop) && ci.imm.toNat == 0x5
  | _ => false

theorem charge_of_not_mem (hf : s.fetch = .ok (some ci, f)) (he : ∀ e, ci.exec ≠ some (.mem e)) :
    s.charge = 0 := by
  have hm : s.memInsn = none := by
    cases h : s.memInsn with
    | none => rfl
    | some w =>
      obtain ⟨e, ci', c⟩ := w
      obtain ⟨g, hg, hx, -⟩ := memInsn_eq_some h
      cases hf.symm.trans hg
      exact (he e hx).elim
  unfold charge
  rw [hm]

variable [HostLib]

theorem execute_instructions (h : f.execute ci = .ok x) (hn : ci.exec ≠ some .nop) :
    x.instructions = f.instructions := by
  cases execute_ok h with
  | plain c limit e he hp hr => exact hr.outcomes.instructions
  | untaken => rfl
  | taken e target r c he hj ht hs hr => exact (Core.scheduleJump_outcomes hs).1.instructions
  | mtspr a b he ha hb =>
    obtain ⟨-, hd⟩ | hw := sprWritten_cases (s := f) (a ||| ci.imm) b false
    · have hs := dozed_steady (s := f.requestBreak.withCore (f.requestBreak.toCore.writeReg .pmr b))
      rw [hd]
      exact hs.instructions
    · exact hw.instructions
  | nop x he hx => exact (hn he).elim
  | rfe x he hx =>
    obtain ⟨c, hc, rfl⟩ := rfe_ok hx
    have hk : c.instructions = f.instructions := by
      obtain ⟨-, rfl⟩ | ⟨-, -, rfl⟩ := Core.scheduleJump_cases hc
      · rfl
      · exact ((Core.kept_setJump _ _).trans (Core.kept_entered rfl _)).instructions
    have hj : (f.withCore c).rfeRestored.instructions = c.instructions := by
      unfold rfeRestored
      split <;> rfl
    exact hj.trans hk

/-- An instruction that is neither a memory access nor an `l.mtspr`. -/
theorem execute_spent (h : f.execute ci = .ok x) (hm : ∀ e, ci.exec ≠ some (.mem e))
    (ht : ci.exec ≠ some .mtspr) (hr : ¬(ci.exec = some .nop ∧ ci.imm.toNat = 0x5))
    (hc : 0 < f.cycles) (hi : 0 < f.instructions) : Spent 0 f x := by
  by_cases hn : ci.exec = some .nop
  · have hx : f.executeOrbis32Nop ci = .ok x := by
      unfold execute at h
      rw [hn] at h
      exact h
    obtain ⟨rfl, -⟩ | ⟨rfl, h5⟩ | ⟨c, rfl, ⟨g, t, a, b, rfl⟩, -⟩ := nop_ok hx
    · show f.cycles - 1 + f.instructions = f.cycles + (f.instructions - 1) + 0
      omega
    · exact (hr ⟨hn, h5⟩).elim
    · exact .of_eq rfl rfl
  · refine .of_eq ?_ (execute_instructions h hn)
    simp only [execute] at h
    split at h
    · cases h
    · rename_i e he
      obtain ⟨c, hc, rfl⟩ := onCore_eq_ok.1 h
      exact Core.execute_cycles he hc
    · rename_i e he
      exact (hm e he).elim
    · obtain ⟨c, hc, rfl⟩ := onCore_eq_ok.1 h
      obtain ⟨a, -, ha⟩ := Outcome.bind_eq_ok.1 hc
      exact Core.assign_cycles ha
    · rename_i he
      exact (ht he).elim
    · rename_i he
      exact (hn he).elim
    · obtain ⟨c, hc, rfl⟩ := rfe_ok h
      refine .trans ?_ (Core.scheduleJump_cycles hc)
      unfold rfeRestored
      split <;> rfl

end Or1k

namespace Or1k

open Or1kiss.Core

variable {s f x : Or1k Memory} {ci : Instruction} [HostLib]

/-- An instruction is charged for its memory access only. -/
theorem fetchExecute_spent (hm : Metered s.toCore) (hd : s.isDmmuActive = false)
    (hc : 0 < s.cycles) (hi : 0 < s.instructions) (hr : s.resetsCount = false)
    (hz : ∀ reg val f, s.mtspr = some (reg, val, f) → reg = SpReg.pmr.num →
      (f.requestBreak.withCore (f.requestBreak.toCore.writeReg .pmr val)).sleepy = false)
    (h : s.fetchExecute = .ok x) : Spent s.charge s x := by
  obtain ⟨ci, f, hf, hfi, -⟩ | ⟨hf, b, c, hfb, ⟨t, addr, ht, -, rfl⟩, rfl⟩ := fetchExecute_ok h
  · have hx : f.execute ci = .ok x := (fetchExecute_of_fetch hf).symm.trans h
    obtain ⟨hfc, hfn, hfs⟩ := hfi.counters
    have hspent : Spent s.charge f x := by
      by_cases hme : ∃ e, ci.exec = some (.mem e)
      · obtain ⟨e, he⟩ := hme
        obtain ⟨n, hn, -⟩ := execute_mem he hx
        have hmi := memInsn_of_fetch hf he
        have hdf : f.isDmmuActive = false := (congrArg (test · SR.DME) hfs).trans hd
        have hn' := executeMem_charge (hm.attached hfi.attached) hdf hn
        have hcy := executeMem_charged hn
        have hin := execute_instructions hx (by rw [he]; exact fun h => by cases h)
        unfold charge
        rw [hmi]
        show x.cycles + f.instructions = f.cycles + x.instructions + f.toCore.charge e ci
        rw [← hn', hcy, hin]
        omega
      · have hme : ∀ e, ci.exec ≠ some (.mem e) := fun e he => hme ⟨e, he⟩
        rw [charge_of_not_mem hf hme]
        by_cases hmt : ci.exec = some .mtspr
        · have hin := execute_instructions hx (by rw [hmt]; exact fun h => by cases h)
          refine .of_eq ?_ hin
          cases hw : s.mtspr with
          | some w =>
            obtain ⟨reg, val, g⟩ := w
            obtain ⟨hfi', hfe⟩ := mtspr_executed hw
            cases hfe.symm.trans h
            obtain ⟨hgc, -, -⟩ := hfi'.counters
            rw [hfc, ← hgc]
            by_cases hp : reg = SpReg.pmr.num
            · have hq := hz reg val g hw hp
              subst hp
              rw [regWritten_pmr, dozed_of_not_sleepy hq]
              rfl
            · exact (regWritten_write hp val).cycles
          | none =>
            cases executed_denied hf hmt (execute_ok hx) hw
            rfl
        · refine execute_spent hx hme hmt (fun hn5 => ?_) (hfc ▸ hc) (hfn ▸ hi)
          unfold resetsCount at hr
          rw [hf] at hr
          dsimp only at hr
          rw [hn5.1, hn5.2] at hr
          cases hr
    unfold Spent at hspent ⊢
    rw [hfc, hfn] at hspent
    exact hspent
  · have hch : s.charge = 0 := by
      have hmi : s.memInsn = none := by
        unfold memInsn
        rw [hf]
      unfold charge
      rw [hmi]
    rw [hch]
    obtain ⟨_, _, _, _, _, _, -, rfl⟩ := hfb
    exact .of_eq (Core.entered_cycles t addr) (Core.kept_entered ht addr).instructions

/-- No load or store is thrown out of the simulator, so a C++ exception costs nothing more. -/
theorem fetchExecute_throw_spent (hm : Metered s.toCore) (hd : s.isDmmuActive = false)
    (h : s.fetchExecute = .throw x) : Spent s.charge s x := by
  rcases fetchExecute_throw h with hf | ⟨ci, f, e, c, -, hfi, -, hc, rfl⟩
  · have hmi : s.memInsn = none := by
      unfold memInsn
      rw [hf]
    have hch : s.charge = 0 := by
      unfold charge
      rw [hmi]
    obtain ⟨hc, hi, -⟩ := (fetch_throw hf).counters
    rw [hch]
    exact .of_eq hc hi
  · obtain ⟨-, -, hfs⟩ := hfi.counters
    have hdf : f.isDmmuActive = false := (congrArg (test · SR.DME) hfs).trans hd
    exact (executeMem_ne_throw (hm.attached hfi.attached) hdf hc).elim

end Or1k

/-! ## Runs -/

namespace Machine

open Or1k Or1kiss.Core

variable [EnvImpl σ] {a : Action σ}

/-- What is charged for the load or store of an action. -/
def charge (m : Machine σ) : Action σ → Nat
  | .run => if m.executes then m.cpu.beginCycle.charge else 0
  | _ => 0

theorem charge_run {m : Machine σ} (hx : m.executes = true) : m.charge .run = m.cpu.beginCycle.charge := if_pos hx

/-- The action resets the instruction counter. -/
def resetsCount (m : Machine σ) : Action σ → Bool
  | .run => m.executes && m.cpu.beginCycle.resetsCount
  | _ => false

/-- The action makes a load or store that completes. -/
def completes (m : Machine σ) (a : Action σ) : Bool :=
  (m.memInsn a).any fun w => w.2.2.completes w.1 w.2.1

/-- The action makes a load or store that the direct data pointer serves. -/
def pointed (m : Machine σ) (a : Action σ) : Bool :=
  (m.memInsn a).any fun w => w.2.2.pointed w.1 w.2.1

theorem charge_eq (m : Machine σ) (a : Action σ) :
    m.charge a = if m.pointed a then 2 else if m.completes a then 1 else 0 := by
  cases a with
  | run =>
    unfold charge pointed completes memInsn
    dsimp only
    split
    · unfold Or1k.charge
      split
      · rename_i e ci c h
        rw [h]
        rfl
      · rename_i h
        rw [h]
        rfl
    · rfl
  | _ => rfl

/-- Address translation of data is off, nothing sleeps, and the counter is not reset. -/
def unaided (st : Move (Machine σ) (Action σ)) : Bool :=
  !st.pre.cpu.isDmmuActive && awake st && !st.pre.resetsCount st.act

end Machine

namespace Machine

open Or1k Or1kiss.Core

variable [HostLib] {m m' : Machine Memory} {a : Action Memory}

omit [HostLib] in
theorem outside_spent {s s' : Or1k Memory} {r : Option StepResult} (h : outside s a = .ok s')
    (haw : (((⟨.idle r, s⟩ : Machine Memory).dozes a).all (!·.sleepy)) = true) : Spent 0 s s' := by
  cases outside_ok h with
  | writeSpr reg val =>
    have hw : s.sprWritten reg val true = s.requestBreak.regWritten reg val := rfl
    rw [hw]
    by_cases hp : reg = SpReg.pmr.num
    · unfold dozes at haw
      dsimp only at haw
      rw [if_pos hp, Option.all_some, Bool.not_eq_true'] at haw
      subst hp
      rw [regWritten_pmr, dozed_of_not_sleepy haw]
      exact .of_eq rfl rfl
    · have hw := regWritten_write (s := s.requestBreak) hp val
      exact .of_eq hw.cycles hw.instructions
  | writeGpr | world | setUp => exact .of_eq rfl rfl

/-- What an action spends beyond one cycle for each instruction. -/
theorem act_spent (hm : Metered m.cpu.toCore) (hu : unaided ⟨m, a, m'⟩ = true) (hn : m.act a = some m') :
    Spent (m.charge a) m.cpu m'.cpu := by
  unfold unaided at hu
  simp only [Bool.and_eq_true, Bool.not_eq_true'] at hu
  obtain ⟨⟨hd, haw⟩, hr⟩ := hu
  unfold awake at haw
  dsimp only at haw hd hr
  cases act_transition hn with
  | begin r s n =>
    have hz : ({ s with limit := s.cycles + n.toNat }.externalChecked).sleepy = false := by
      simpa [dozes] using haw
    refine .of_eq ?_ began_steady.instructions
    unfold began
    rw [dozed_of_not_sleepy hz]
    exact externalChecked_cycles
  | mini s h => exact .of_eq rfl rfl
  | finish s h => exact .of_eq rfl rfl
  | leave limit s h =>
    have hc : (⟨.inner limit, s⟩ : Machine Memory).charge .run = 0 := by
      unfold charge
      dsimp only
      rw [if_neg (by simpa [executes] using h)]
    rw [hc]
    exact .of_eq rfl rfl
  | iterate limit s x hl hfe =>
    have hx : (⟨.inner limit, s⟩ : Machine Memory).executes = true := by simpa [executes] using hl
    have hc : (⟨.inner limit, s⟩ : Machine Memory).charge .run = s.beginCycle.charge := charge_run hx
    have hr' : s.beginCycle.resetsCount = false := by
      unfold resetsCount at hr
      rw [hx, Bool.true_and] at hr
      exact hr
    have hz : ∀ reg val f, s.beginCycle.mtspr = some (reg, val, f) → reg = SpReg.pmr.num →
        (f.requestBreak.withCore (f.requestBreak.toCore.writeReg .pmr val)).sleepy = false := by
      intro reg val f hw hp
      have hmt : (⟨.inner limit, s⟩ : Machine Memory).mtspr .run = some (reg, val, f) :=
        (mtspr_run hx).trans hw
      unfold dozes at haw
      dsimp only at haw
      rw [hmt] at haw
      dsimp only at haw
      rw [if_pos hp] at haw
      simpa using haw
    have hsp := fetchExecute_spent (s := s.beginCycle) ⟨hm.imem, hm.debug, hm.dataCycles⟩ hd
      (Nat.succ_pos _) (Nat.succ_pos _) hr' hz hfe
    rw [hc]
    unfold Spent
    rw [retired_frame (·.cycles) limit x fun _ _ _ _ => rfl,
      retired_frame (·.instructions) limit x fun _ _ _ _ => rfl]
    exact hsp.counted
  | throw limit s x hl hfe =>
    have hx : (⟨.inner limit, s⟩ : Machine Memory).executes = true := by simpa [executes] using hl
    have hc : (⟨.inner limit, s⟩ : Machine Memory).charge .run = s.beginCycle.charge := charge_run hx
    have hsp := fetchExecute_throw_spent (s := s.beginCycle) ⟨hm.imem, hm.debug, hm.dataCycles⟩ hd hfe
    rw [hc]
    exact hsp.counted
  | drain s =>
    rw [drained_cpu]
    refine .of_eq ?_ ?_
    · exact externalChecked_cycles.trans tickChecked_cycles
    · exact (timerUpdated_steady.trans externalChecked_steady).instructions
  | interrupt p s id set =>
    have hi : (s.toCore.interrupt id set).cycles = s.cycles ∧
        (s.toCore.interrupt id set).instructions = s.instructions := by
      obtain ⟨v, he⟩ := s.toCore.interrupt_eq id set
      rw [he]
      exact ⟨rfl, rfl⟩
    exact .of_eq hi.1 hi.2
  | outside r s s' a ha h =>
    have hc : (⟨.idle r, s⟩ : Machine Memory).charge a = 0 := by
      cases a with
      | run => cases ha
      | _ => rfl
    rw [hc]
    exact outside_spent h haw

/-- The simulator with the number of loads and stores that have completed. -/
abbrev tallying : System (Machine Memory × Nat) (Action Memory) :=
  system.watch fun n st => if st.pre.completes st.act then n + 1 else n

/-- One cycle for each instruction, and one for each load or store that has completed. -/
def Costed (q : Machine Memory × Nat) : Prop := q.1.cpu.cycles = q.1.cpu.instructions + q.2

instance (q : Machine Memory × Nat) : Decidable (Costed q) :=
  inferInstanceAs (Decidable (q.1.cpu.cycles = q.1.cpu.instructions + q.2))

/-- An access that is charged twice upsets the account, any other keeps it. -/
theorem step_costed {q q' : Machine Memory × Nat} (hn : tallying.next q a = some q')
    (hm : Metered q.1.cpu.toCore) (hu : unaided ⟨q.1, a, q'.1⟩ = true) (h : Costed q) :
    Costed q' ↔ q.1.pointed a = false := by
  obtain ⟨m, n⟩ := q
  obtain ⟨m', hact, rfl⟩ := System.watch_next hn
  have hs := act_spent hm hu hact
  dsimp only at hs h hu ⊢
  rw [charge_eq] at hs
  unfold Costed at h ⊢
  unfold Spent at hs
  dsimp only at h ⊢
  cases hp : m.pointed a with
  | true =>
    rw [hp, if_pos rfl] at hs
    refine iff_of_false ?_ Bool.noConfusion
    split <;> omega
  | false =>
    rw [hp, if_neg Bool.false_ne_true] at hs
    refine iff_of_true ?_ rfl
    split at hs <;> rename_i hc
    · rw [if_pos hc]
      omega
    · rw [if_neg hc]
      omega

/-- In every run on the simulator's memory, the cycle counter is one for each instruction and one
for each load or store that completed, if and only if none is served by the direct data pointer. -/
theorem cycles_counted {env : Env Memory} (hc : env.dataCycles = 1) {size : Nat}
    {l : List (Move (Machine Memory × Nat) (Action Memory))} {q : Machine Memory × Nat}
    (h : tallying.Path (init env size, 0) l q) (hu : ∀ st ∈ l, unaided st.base = true) :
    (∀ st ∈ l, Costed st.post) ↔ ∀ st ∈ l, st.pre.1.pointed st.act = false := by
  have hiff := h.forall_iff (P := fun q => Metered q.1.cpu.toCore ∧ Costed q)
    (C := fun st => unaided st.base = true ∧ st.pre.1.pointed st.act = false)
    (R := fun st => unaided st.base = true ∧ Costed st.post) (by
      rintro q a q' hn ⟨hu, hp⟩ ⟨hm, hcost⟩
      obtain ⟨m', hact, he⟩ := System.watch_next hn
      have hq : q'.1 = m' := congrArg Prod.fst he
      have hm' : Metered q'.1.cpu.toCore := hm.attached (act_attached (hact.trans (congrArg some hq.symm)))
      have hk := (step_costed hn hm hu hcost).2 hp
      exact ⟨⟨hm', hk⟩, hu, hk⟩) (by
      rintro q a q' hn hno ⟨hm, hcost⟩ ⟨hu, hk⟩
      exact hno ⟨hu, (step_costed hn hm hu hcost).1 hk⟩)
    ⟨⟨rfl, rfl, hc⟩, rfl⟩
  constructor
  · exact fun hr st hst => (hiff.1 (fun st hst => ⟨hu st hst, hr st hst⟩) st hst).2
  · exact fun hp st hst => (hiff.2 (fun st hst => ⟨hu st hst, hp st hst⟩) st hst).2

end Machine

namespace Machine

attribute [local instance] HostLib.plain

/-- One load takes three cycles. -/
theorem cycles_counted_fails :
    ∃ (l : List (Move (Machine Memory × Nat) (Action Memory))) (q : Machine Memory × Nat),
      tallying.Path (Memory.boot [(0x100, 0x84600000#32)], 0) l q ∧
      (∀ st ∈ l, unaided st.base = true) ∧ q.1.cpu.instructions = 1 ∧ q.2 = 1 ∧ q.1.cpu.cycles = 3 := by
  obtain ⟨q, hr, hq⟩ := tallying.exists_steps (fun q a => unaided ⟨q.1, a, q.1⟩)
    (Memory.boot [(0x100, 0x84600000#32)], 0) [.call 1#32, .run, .run]
    (fun q => decide (q.1.cpu.instructions = 1 ∧ q.2 = 1 ∧ q.1.cpu.cycles = 3)) (by decide +kernel)
  obtain ⟨l, hl, hok⟩ := hr.path_ok
  exact ⟨l, q, hl, hok, of_decide_eq_true hq⟩

/-- A load that `transact` serves takes two. -/
theorem cycles_counted_transact :
    ∃ (l : List (Move (Machine Memory × Nat) (Action Memory))) (q : Machine Memory × Nat),
      tallying.Path (init { Memory.env 0x8000 (Memory.image [(0x100, 0x84600000#32)]) with
        dataPtr := none } 0, 0) l q ∧ q.2 = 1 ∧ q.1.cpu.cycles = 2 ∧ ∀ st ∈ l, Costed st.post := by
  obtain ⟨q, hr, hq⟩ := tallying.exists_steps
    (fun q a => unaided ⟨q.1, a, q.1⟩ && !q.1.pointed a)
    (init { Memory.env 0x8000 (Memory.image [(0x100, 0x84600000#32)]) with dataPtr := none } 0, 0)
    [.call 1#32, .run, .run] (fun q => decide (q.2 = 1 ∧ q.1.cpu.cycles = 2)) (by decide +kernel)
  obtain ⟨l, hl, hok⟩ := hr.path_ok
  simp only [Bool.and_eq_true, Bool.not_eq_true'] at hok
  obtain ⟨h1, h2⟩ := of_decide_eq_true hq
  exact ⟨l, q, hl, h1, h2, (cycles_counted rfl hl fun st hst => (hok st hst).1).2
    fun st hst => (hok st hst).2⟩

end Machine

end Or1kiss
