import Or1kiss.Reservation

/-!
# The port of a run

A simulator talks to one `env`. Requests change its memory, its devices and the exclusive
monitor; the ranges of the direct pointers, what they charge and the endianness stay as they
are, and so does the kind of the data requests (`act_attached`).
-/

namespace Or1kiss

open Host Bits Runs

variable {σ : Type}

namespace Core

variable {c b x : Core σ} {ci : Instruction} {req : Request}

/-- The port is the same but for what it serves, and so is the kind of the data requests. -/
structure Attached (c x : Core σ) : Prop where
  kind : x.dreq.kind = c.dreq.kind
  env : c.env.Served x.env

theorem Attached.refl (c : Core σ) : Attached c c := ⟨rfl, .refl _⟩

theorem Attached.trans (h : Attached c b) (h' : Attached b x) : Attached c x :=
  ⟨h'.kind.trans h.kind, h.env.trans h'.env⟩

theorem Attached.of_eq (hd : x.dreq = c.dreq) (he : x.env = c.env) : Attached c x :=
  ⟨congrArg Request.kind hd, by rw [he]; exact .refl _⟩

theorem entered_attached (t : ExType) (addr : U32) : Attached c (c.entered t addr) := by
  unfold entered
  dsimp only
  split <;> exact .of_eq rfl rfl

theorem exception_attached {t : ExType} {addr : U32} (h : c.exception t addr = .ok x) :
    Attached c x := by
  obtain ⟨-, rfl⟩ | ⟨-, -, rfl⟩ := exception_ok h
  · exact .refl _
  · exact entered_attached t addr

theorem scheduleJump_attached {target : U32} {delay : Nat} (h : c.scheduleJump target delay = .ok x) :
    Attached c x := by
  rw [scheduleJump_eq] at h
  split at h
  · cases h
    exact .of_eq rfl rfl
  · have hj : Attached c (c.setJump target (c.instructions + delay)) := .of_eq rfl rfl
    exact hj.trans (exception_attached h)

theorem checkWatchpoints_attached : Attached c (c.checkWatchpoints req) := by
  unfold checkWatchpoints
  split <;> exact .of_eq rfl rfl

theorem writeBack_attached {r : Request} (i : Fin 32) (h : Attached c x) (hr : r.kind = c.dreq.kind) :
    Attached c (x.writeBack i r) := ⟨hr, h.env⟩

theorem Fetched.attached (h : Fetched c x) : Attached c x := by
  obtain ⟨_, _, _, _, _, _, hs, rfl⟩ := h
  exact ⟨rfl, hs⟩

variable [EnvImpl σ]

theorem Effects.attached {ts : List ExType} (h : Effects false c ts x) : Attached c x := by
  induction h with
  | refl => exact .refl c
  | @tail _ _ b _ _ h ih =>
    refine ih.trans ?_
    cases h with
    | regs r s ha h => exact .of_eq rfl rfl
    | data hm => cases hm
    | translate hm => cases hm
    | raise t addr aesr ht he =>
      have hb : Attached b { b with aesr := aesr } := .of_eq rfl rfl
      exact hb.trans (entered_attached t addr)

theorem translateData_attached (c : Core σ) (req : Request) :
    Attached c (c.translateData req).2.2 := by
  obtain ⟨d, t, hs, he⟩ := c.translateData_core req
  rw [he]
  exact ⟨rfl, hs⟩

theorem send_attached {r : Access σ} (h : c.send req = .ok r) :
    Attached c r.core ∧ r.req.kind = req.kind := by
  have hs := Env.convertAndTransact_served (e := c.env) req
  obtain ⟨d, n, hans⟩ := Env.convertAndTransact_answers c.env req
  unfold send at h
  generalize c.env.convertAndTransact req = q at h hs hans
  obtain ⟨resp, q, e⟩ := q
  dsimp only at h hs hans
  subst hans
  have hc : Attached c { c with env := e } := ⟨rfl, hs⟩
  have hdone : ∀ {b : Core σ} {q : Request}, Attached c b → q.kind = req.kind →
      Attached c (b.complete q).core ∧ (b.complete q).req.kind = req.kind := by
    intro b q hb hq
    unfold complete
    split
    · exact ⟨hb, hq⟩
    · exact ⟨⟨hb.kind, hb.env⟩, hq⟩
  cases resp with
  | error =>
    obtain ⟨x, hxc, rfl⟩ := Outcome.lift_eq_ok.1 h
    exact ⟨hc.trans (exception_attached hxc), rfl⟩
  | failed =>
    dsimp only at h
    split at h
    · cases h
    · cases h
      exact hdone ⟨rfl, hs⟩ rfl
  | success =>
    dsimp only at h
    cases h
    refine hdone ?_ rfl
    split <;> exact ⟨rfl, hs⟩

theorem send_throw_attached {t : Core σ × Request} (h : c.send req = .throw t) :
    Attached c t.1 ∧ t.2.kind = req.kind := by
  have hs := Env.convertAndTransact_served (e := c.env) req
  obtain ⟨d, n, hans⟩ := Env.convertAndTransact_answers c.env req
  unfold send at h
  generalize c.env.convertAndTransact req = q at h hs hans
  obtain ⟨resp, q, e⟩ := q
  dsimp only at h hs hans
  subst hans
  cases resp with
  | error => exact (Outcome.lift_ne_throw h).elim
  | failed =>
    dsimp only at h
    split at h
    · cases h
      exact ⟨⟨rfl, hs⟩, rfl⟩
    · cases h
  | success => cases h

/-- Where `transact` goes, with a request of the same kind. -/
theorem transact_path (c : Core σ) (req : Request) : ∃ b q, Attached c b ∧ q.kind = req.kind ∧
    (c.transact req = b.send q ∨ ∃ t, c.transact req = b.abort t q) := by
  have hw : Attached c (c.checkWatchpoints (c.dataRequest req)) := checkWatchpoints_attached
  unfold transact
  dsimp only
  split
  · exact ⟨_, c.dataRequest req, hw, rfl, .inr ⟨_, rfl⟩⟩
  · have hf := translateData_fields (c.checkWatchpoints (c.dataRequest req)) (c.dataRequest req)
    have ht := hw.trans (translateData_attached _ (c.dataRequest req))
    rw [translateSend_eq]
    generalize (c.checkWatchpoints (c.dataRequest req)).translateData (c.dataRequest req) = q at hf ht
    obtain ⟨res, q, d⟩ := q
    cases res with
    | tlbMiss | pageFault => exact ⟨d, q, ht, hf.kind, .inr ⟨_, rfl⟩⟩
    | okay => exact ⟨d, q, ht, hf.kind, .inl rfl⟩

theorem transact_attached {r : Access σ} (h : c.transact req = .ok r) :
    Attached c r.core ∧ r.req.kind = req.kind := by
  obtain ⟨b, q, hb, hq, he | ⟨t, he⟩⟩ := c.transact_path req
  · obtain ⟨hc, hr⟩ := send_attached (he.symm.trans h)
    exact ⟨hb.trans hc, hr.trans hq⟩
  · obtain ⟨x, hx, rfl⟩ := Outcome.lift_eq_ok.1 (he.symm.trans h)
    exact ⟨hb.trans (exception_attached hx), hq⟩

theorem transact_throw_attached {t : Core σ × Request} (h : c.transact req = .throw t) :
    Attached c t.1 ∧ t.2.kind = req.kind := by
  obtain ⟨b, q, hb, hq, he | ⟨e, he⟩⟩ := c.transact_path req
  · obtain ⟨hc, hr⟩ := send_throw_attached (he.symm.trans h)
    exact ⟨hb.trans hc, hr.trans hq⟩
  · exact (Outcome.lift_ne_throw (he.symm.trans h)).elim

theorem executeMem_attached {e : MemExec} {n : Nat} (h : c.executeMem e ci = .ok (n, x)) :
    Attached c x := by
  rw [executeMem_access] at h
  obtain ⟨i, a, v, -, -, -, he⟩ := accessMemory_sends (by rw [h]; simp)
  obtain ⟨r, hr, hc⟩ := Outcome.lift_eq_ok.1 (he.symm.trans h)
  obtain ⟨rfl, rfl⟩ := Prod.mk.inj hc
  obtain ⟨ha, hk⟩ := transact_attached hr
  have hw := writeBack_attached i ha hk
  split
  · exact ⟨hw.kind, hw.env⟩
  · exact hw

theorem executeMem_throw_attached {e : MemExec} (h : c.executeMem e ci = .throw x) :
    Attached c x := by
  rw [executeMem_access] at h
  obtain ⟨i, a, v, -, -, -, he⟩ := accessMemory_sends (by rw [h]; simp)
  obtain ⟨t, ht, rfl⟩ := Outcome.lift_eq_throw.1 (he.symm.trans h)
  obtain ⟨ha, hk⟩ := transact_throw_attached ht
  exact writeBack_attached i ha hk

end Core

namespace Or1k

open Or1kiss.Core

variable {s f x : Or1k σ} {ci : Instruction}

theorem interrupted_attached {e : ExType} : Attached s.toCore (s.interrupted e).toCore := by
  unfold interrupted
  split
  · exact .refl _
  · exact entered_attached e 0#32

theorem externalChecked_attached : Attached s.toCore s.externalChecked.toCore := by
  unfold externalChecked
  split
  · exact interrupted_attached
  · exact .refl _

theorem timerUpdated_attached : Attached s.toCore s.timerUpdated.toCore := by
  show Attached s.toCore s.tickChecked.toCore
  unfold tickChecked
  split
  · have hy : Attached s.toCore s.syncTick.toCore := .of_eq rfl rfl
    split
    · exact hy.trans interrupted_attached
    · exact hy
  · exact .refl _

theorem FetchedInsn.attached (h : FetchedInsn s f) : Attached s.toCore f.toCore := by
  obtain ⟨_, _, _, hc, rfl⟩ := h
  exact hc.attached

variable [EnvImpl σ]

theorem dozed_attached : Attached s.toCore s.dozed.toCore := by
  have hs : s.env.Served (s.sleep s.dozeSkip).2.env := ⟨_, s.env.exclAddr, s.env.exclData, rfl⟩
  unfold dozed
  split
  · exact .refl _
  · dsimp only
    split
    · exact ⟨rfl, hs⟩
    · have hk : Attached s.toCore ((s.sleep s.dozeSkip).2.skipCycles s.dozeSkip).toCore := ⟨rfl, hs⟩
      exact hk.trans timerUpdated_attached

theorem sprWritten_attached (reg val : U32) (debug : Bool) :
    Attached s.toCore (s.sprWritten reg val debug).toCore := by
  unfold sprWritten
  split
  · exact .of_eq rfl rfl
  · unfold regWritten
    cases SpReg.ofNum reg with
    | none =>
      cases SprFile.ofNum reg.toNat with
      | none => exact .of_eq rfl rfl
      | some f => cases f <;> exact .of_eq rfl rfl
    | some r =>
      cases r with
      | pmr =>
        have hw : Attached s.toCore
            (s.requestBreak.withCore (s.requestBreak.toCore.writeReg .pmr val)).toCore := .of_eq rfl rfl
        exact hw.trans dozed_attached
      | picsr =>
        simp only [Core.writeReg]
        split <;> exact .of_eq rfl rfl
      | _ => exact .of_eq rfl rfl

variable [HostLib]

/-- An instruction keeps the port. -/
theorem execute_attached (h : s.execute ci = .ok x) : Attached s.toCore x.toCore := by
  by_cases he : ∃ e, ci.exec = some (.mem e)
  · obtain ⟨e, he⟩ := he
    obtain ⟨n, hm, -⟩ := execute_mem he h
    exact executeMem_attached hm
  · cases execute_ok h with
    | plain c limit e hce hp hr =>
      obtain ⟨ts, hts, -⟩ := hr
      have hmem : e.isMem = false := by
        cases e with
        | mem e => exact (he ⟨e, hce⟩).elim
        | _ => rfl
      rw [hmem] at hts
      exact hts.attached
    | untaken => exact .of_eq rfl rfl
    | taken e target r c hce hj ht hs hr =>
      have hc : Attached s.toCore { s.toCore with toRegs := r } := .of_eq rfl rfl
      exact hc.trans (scheduleJump_attached hs)
    | mtspr a b => exact sprWritten_attached _ _ _
    | nop s' hne hnop =>
      obtain ⟨rfl, -⟩ | ⟨rfl, -⟩ | ⟨c, rfl, ⟨g, t, a, b, rfl⟩, -⟩ := nop_ok hnop <;>
        exact .of_eq rfl rfl
    | rfe s' hre hrfe =>
      obtain ⟨c, hc, rfl⟩ := rfe_ok hrfe
      have hm : Attached s.toCore c := scheduleJump_attached hc
      unfold rfeRestored
      split <;> exact ⟨hm.kind, hm.env⟩

theorem fetchExecute_attached (h : s.fetchExecute = .ok x) : Attached s.toCore x.toCore := by
  obtain ⟨ci, f, hf, hfi, -⟩ | ⟨hf, b, c, hfb, ⟨t, addr, -, -, rfl⟩, rfl⟩ := fetchExecute_ok h
  · have hx : f.execute ci = .ok x := (fetchExecute_of_fetch hf).symm.trans h
    exact hfi.attached.trans (execute_attached hx)
  · exact hfb.attached.trans (entered_attached t addr)

theorem fetchExecute_throw_attached (h : s.fetchExecute = .throw x) :
    Attached s.toCore x.toCore := by
  rcases fetchExecute_throw h with hf | ⟨ci, f, e, c, -, hfi, -, hm, rfl⟩
  · exact (fetch_throw hf).attached
  · exact hfi.attached.trans (executeMem_throw_attached hm)

end Or1k

namespace Machine

open Or1k

variable [EnvImpl σ] {m m' : Machine σ} {a : Action σ}

theorem outside_attached {s s' : Or1k σ} (h : outside s a = .ok s') : s.toCore.Attached s'.toCore := by
  cases outside_ok h with
  | writeSpr reg val => exact sprWritten_attached reg val true
  | world w => exact ⟨rfl, w, s.env.exclAddr, s.env.exclData, rfl⟩
  | writeGpr | setUp => exact .of_eq rfl rfl

variable [HostLib]

/-- Every action keeps the port. -/
theorem act_attached (hn : m.act a = some m') : m.cpu.toCore.Attached m'.cpu.toCore := by
  cases act_transition hn with
  | begin r s n =>
    have hl : s.toCore.Attached { s with limit := s.cycles + n.toNat }.toCore := .of_eq rfl rfl
    exact hl.trans (externalChecked_attached.trans dozed_attached)
  | mini | finish | leave => exact .of_eq rfl rfl
  | iterate limit s x hl hfe =>
    have hb : s.toCore.Attached s.beginCycle.toCore := .of_eq rfl rfl
    have hr : x.toCore.Attached x.retire.redirect.toCore := by
      unfold redirect
      split <;> exact .of_eq rfl rfl
    rw [retired_cpu]
    exact hb.trans ((fetchExecute_attached hfe).trans hr)
  | throw limit s x hl hfe =>
    have hb : s.toCore.Attached s.beginCycle.toCore := .of_eq rfl rfl
    exact hb.trans (fetchExecute_throw_attached hfe)
  | drain s =>
    rw [drained_cpu]
    exact timerUpdated_attached.trans externalChecked_attached
  | interrupt p s id set =>
    show s.toCore.Attached (s.toCore.interrupt id set)
    obtain ⟨v, he⟩ := s.toCore.interrupt_eq id set
    rw [he]
    exact .of_eq rfl rfl
  | outside r s s' a ha h => exact outside_attached h

end Machine

end Or1kiss
