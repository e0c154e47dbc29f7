import Or1kiss.Cost

/-!
# What the port replies

A load or store that gets past alignment and translation is sent to the port. `Served` sorts its
ends: it raises an exception and is charged nothing, or the port has served it, and the reply
says what it is charged and, for an exclusive access, what becomes of the flag.
-/

namespace Or1kiss

open Host Bits

variable {σ : Type}

namespace Core

variable [EnvImpl σ] {c x : Core σ} {req : Request} {r : Access σ} {ci : Instruction} {e : MemExec}

/-- The reply to a data request. -/
def replyTo (req : Request) (c : Core σ) : Option (Response × Request) :=
  if misaligned req then none
  else
    match c.translateData req with
    | (.okay, r, b) => some ((b.env.convertAndTransact r).1, (b.env.convertAndTransact r).2.1)
    | _ => none

/-- The reply to a load or store. -/
def reply (e : MemExec) (ci : Instruction) (c : Core σ) : Option (Response × Request) :=
  (c.requestOf e ci).bind fun req => c.replyTo req

/-- How an access that was replied to in such a way ends, with `n` cycles charged. -/
inductive Served (excl : Bool) (reply : Option (Response × Request)) (c : Core σ) (n : Nat)
    (x : Core σ) : Prop where
  | aborted (hr : ∀ p, reply = some p → p.1 = .error) (hn : n = 0) (ht : x.taken ≠ c.taken)
  | served (resp : Response) (r : Request) (hr : reply = some (resp, r)) (he : resp ≠ .error)
      (hn : n = if r.debug then 0 else r.cycles) (ht : x.taken = c.taken)
      (hs : x.status = if excl then
        (if resp = .success then c.status ||| SR.F else c.status &&& ~~~SR.F) else c.status)

omit [EnvImpl σ] in
theorem abort_ends {t : ExType} (ht : t.isAsync = false) (h : c.abort t req = .ok r) :
    r.stall = 0 ∧ r.core.taken ≠ c.taken := by
  obtain ⟨x, hx, rfl⟩ := Outcome.lift_eq_ok.1 h
  obtain ⟨hm, -⟩ | ⟨-, -, rfl⟩ := exception_ok hx
  · rw [masked_of_sync _ ht] at hm
    cases hm
  · obtain ⟨-, -, htk, -, -⟩ := entered_fields ht req.addr c
    exact ⟨rfl, fun he => List.cons_ne_self _ _ (htk.symm.trans he)⟩

omit [EnvImpl σ] in
theorem complete_ends (c : Core σ) (req : Request) :
    (c.complete req).stall = (if req.debug then 0 else req.cycles) ∧
      (c.complete req).core.taken = c.taken ∧ (c.complete req).core.status = c.status := by
  unfold complete
  split <;> exact ⟨rfl, rfl, rfl⟩

theorem send_served (h : c.send req = .ok r) : Served req.excl
    (some ((c.env.convertAndTransact req).1, (c.env.convertAndTransact req).2.1)) c r.stall r.core := by
  have hans := Env.convertAndTransact_answers c.env req
  unfold send at h
  generalize c.env.convertAndTransact req = q at h hans
  obtain ⟨resp, q, t⟩ := q
  have hq : q.excl = req.excl := by
    obtain ⟨d, k, rfl⟩ := hans
    rfl
  cases resp with
  | error =>
    obtain ⟨hn, ht⟩ := abort_ends rfl h
    refine .aborted (fun p hp => ?_) hn ht
    cases hp
    rfl
  | failed =>
    dsimp only at h
    split at h
    · cases h
    · rename_i hx
      cases h
      obtain ⟨hn, ht, hs⟩ := complete_ends (clearFlag { c with env := t } SR.F) q
      have hx : req.excl = true := by rw [← hq]; simpa using hx
      refine .served _ _ rfl nofun hn ht ?_
      rw [hs, if_pos hx]
      rfl
  | success =>
    cases h
    obtain ⟨hn, ht, hs⟩ := complete_ends (if q.excl = true then setFlag { c with env := t } SR.F
      else { c with env := t }) q
    refine .served _ _ rfl nofun hn (ht.trans ?_) (hs.trans ?_)
    · split <;> rfl
    · rw [hq]
      split <;> rfl

theorem transact_served (h : c.transact req = .ok r) :
    Served req.excl (c.replyTo (c.dataRequest req)) c r.stall r.core := by
  obtain ⟨w, hw⟩ := c.checkWatchpoints_eq (c.dataRequest req)
  unfold transact at h
  dsimp only at h
  rw [hw] at h
  unfold replyTo
  split at h
  · rename_i hm
    rw [if_pos hm]
    obtain ⟨hn, ht⟩ := abort_ends rfl h
    refine .aborted (fun p hp => ?_) hn ht
    cases hp
  · rename_i hm
    rw [if_neg hm]
    obtain ⟨d, t, -, hcore⟩ := translateData_core c (c.dataRequest req)
    have hx : (c.translateData (c.dataRequest req)).2.1.excl = req.excl :=
      (translateData_fields c (c.dataRequest req)).excl
    rw [translateSend_eq, translateData_wpEvent] at h
    generalize c.translateData (c.dataRequest req) = q at h hcore hx
    obtain ⟨res, q, b⟩ := q
    dsimp only at hcore hx
    subst hcore
    rw [← hx]
    cases res with
    | tlbMiss =>
      obtain ⟨hn, ht⟩ := abort_ends (t := .dataTlbMiss) rfl h
      refine .aborted (fun p hp => ?_) hn ht
      cases hp
    | pageFault =>
      obtain ⟨hn, ht⟩ := abort_ends (t := .dataPageFault) rfl h
      refine .aborted (fun p hp => ?_) hn ht
      cases hp
    | okay =>
      cases send_served h with
      | aborted hr hn ht => exact .aborted hr hn ht
      | served resp r' hr he hn ht hs => exact .served resp r' hr he hn ht hs

/-- The ends of a load or store. -/
theorem executeMem_served {n : Nat} (h : c.executeMem e ci = .ok (n, x)) :
    Served e.isExclusive (c.reply e ci) c n x := by
  rw [executeMem_access] at h
  obtain ⟨i, a, v, ha, hv, -, he⟩ := accessMemory_sends (by rw [h]; simp)
  obtain ⟨r, hr, hc⟩ := Outcome.lift_eq_ok.1 (he.symm.trans h)
  obtain ⟨rfl, hx⟩ := Prod.mk.inj hc
  have hxr : x.taken = r.core.taken ∧ x.status = r.core.status := by
    rw [← hx]
    split <;> exact ⟨rfl, rfl⟩
  have hreq : c.reply e ci =
      c.replyTo (c.dataRequest (memRequest e.isLoad e.isExclusive e.size a v ci c)) := by
    unfold reply requestOf
    rw [ha, hv]
    rfl
  rw [hreq]
  cases transact_served hr with
  | aborted hr hn ht => exact .aborted hr hn (hxr.1 ▸ ht)
  | served resp r' hr he hn ht hs => exact .served resp r' hr he hn (hxr.1.trans ht) (hxr.2.trans hs)

end Core

namespace Machine

open Runs

attribute [local instance] HostLib.plain

/-- A load or store evaluated up to the step that executes it. -/
theorem exists_memInsn (m₀ : Machine Memory) (as : List (Action Memory))
    (p : MemExec → Instruction → Core Memory → Machine Memory → Machine Memory → Bool)
    (h : (system.runsIf (fun _ _ => true) as m₀).any (fun m => match m.memInsn .run, m.next,
        m.cpu.beginCycle.fetchExecute with
      | some (e, ci, c), some m', .ok _ => p e ci c m m'
      | _, _, _ => false) = true) :
    ∃ m m' e ci c x, system.Run m₀ m ∧ m.memInsn .run = some (e, ci, c) ∧ m.next = some m' ∧
      m.cpu.beginCycle.fetchExecute = .ok x ∧ p e ci c m m' = true := by
  obtain ⟨m, hr, h⟩ := System.exists_run system m₀ as _ h
  split at h
  · rename_i e ci c m' x hm hn hx
    exact ⟨m, m', e, ci, c, x, hr, hm, hn, hx, h⟩
  · cases h

end Machine

end Or1kiss
