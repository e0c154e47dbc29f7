import Or1kiss.Delivery

/-!
# What an instruction sees of the timer

Fetching and executing read neither `m_limit` nor the timer, apart from `l.mfspr` and `l.mtspr` of
TTMR and TTCR. `fetchExecute_retimed` runs an instruction beside itself, with another limit and
another timer.
-/

namespace Or1kiss

open Host Bits

variable {σ : Type}

namespace Or1k

variable {s f x : Or1k σ} {ci : Instruction} {l k : Nat} {t : Tick} {reg val : U32}

/-- Another limit and another timer. -/
def retimed (l : Nat) (t : Tick) (k : Nat) (s : Or1k σ) : Or1k σ :=
  { s with limit := l, tick := t, tickUpdate := k }

theorem withCore_retimed (c : Core σ) :
    (s.retimed l t k).withCore c = (s.withCore c).retimed l t k := rfl

theorem liftCore_retimed {α : Type} (y : Outcome (Core σ) (α × Core σ)) :
    (s.retimed l t k).liftCore y =
      (s.liftCore y).lift (retimed l t k) fun r => (r.1, r.2.retimed l t k) := by
  cases y <;> rfl

theorem onCore_retimed (y : Outcome Empty (Core σ)) :
    (s.retimed l t k).onCore y = (s.onCore y).lift (retimed l t k) (retimed l t k) := by
  cases y with
  | throw e => cases e
  | ok | fault => rfl

theorem compile_retimed : (s.retimed l t k).compile =
    s.compile.lift (retimed l t k) fun r => (r.1, r.2.retimed l t k) := by
  unfold compile
  have hi : (s.retimed l t k).insn = s.insn := rfl
  have ha : (s.retimed l t k).ireq = s.ireq := rfl
  have hc : (s.retimed l t k).toCore = s.toCore := rfl
  have hd : (s.retimed l t k).decodeCache = s.decodeCache := rfl
  have hn : (s.retimed l t k).compiles = s.compiles := rfl
  dsimp only
  rw [hi, ha]
  split
  · unfold exception
    rw [hc, onCore_retimed]
    cases s.onCore (s.toCore.exception .illegalInsn s.ireq.addr) <;> rfl
  · split <;> rfl

variable [EnvImpl σ]

/-- Fetching sees nothing of the timer. -/
theorem fetch_retimed : (s.retimed l t k).fetch =
    s.fetch.lift (retimed l t k) fun r => (r.1, r.2.retimed l t k) := by
  unfold fetch
  have hc : (s.retimed l t k).toCore = s.toCore := rfl
  rw [hc, liftCore_retimed]
  cases s.liftCore s.toCore.fetchAddress with
  | throw e => rfl
  | fault e => rfl
  | ok r =>
    obtain ⟨found, g⟩ := r
    rw [Outcome.lift_ok, Outcome.ok_bind, Outcome.ok_bind]
    dsimp only
    have hg : (g.retimed l t k).toCore = g.toCore := rfl
    have hd : (g.retimed l t k).decodeCache = g.decodeCache := rfl
    rw [hg, hd, liftCore_retimed]
    split
    · rfl
    · split
      · rfl
      · cases g.liftCore g.toCore.fetchWord with
        | throw e => rfl
        | fault e => rfl
        | ok r =>
          obtain ⟨read, h⟩ := r
          rw [Outcome.lift_ok, Outcome.ok_bind, Outcome.ok_bind]
          dsimp only
          split
          · rfl
          · exact compile_retimed

omit [EnvImpl σ] in
theorem nop_retimed [HostLib] : (s.retimed l t k).executeOrbis32Nop ci =
    (s.executeOrbis32Nop ci).lift (retimed l t k) (retimed l t k) := by
  unfold executeOrbis32Nop
  split <;> first | rfl | skip
  · have hc : (s.retimed l t k).clock = s.clock := rfl
    rw [hc]
    split <;> rfl
  · have hd : (s.retimed l t k).env.getDataPtr ((s.retimed l t k).gpr 3) =
        s.env.getDataPtr (s.gpr 3) := rfl
    rw [hd]
    split <;> rfl

theorem rfe_retimed (h : s.executeOrbis32Rfe ci = .ok x) :
    (s.retimed l t k).executeOrbis32Rfe ci = .ok (x.retimed l t k) := by
  obtain ⟨c, hc, rfl⟩ := rfe_ok h
  unfold executeOrbis32Rfe scheduleJump
  have ht : (s.retimed l t k).getSpr SpReg.epcr.num false = s.rfeTarget := getSpr_epcr
  have hcore : (s.retimed l t k).toCore = s.toCore := rfl
  dsimp only
  rw [ht, hcore, hc]
  show setSpr ((s.withCore c).retimed l t k) SpReg.sr.num _ false = _
  rw [setSpr_eq, sprWritten_sr, getSpr_esr]
  unfold rfeRestored
  have hs : ((s.withCore c).retimed l t k).isSupervisor = (s.withCore c).isSupervisor := rfl
  rw [hs]
  split <;> rfl

omit [EnvImpl σ] in
/-- What `l.mfspr` reads, unless it is TTCR of another timer. -/
theorem getSpr_retimed (hm : t.ttmr = s.tick.ttmr)
    (hc : s.readDenied reg false = false → reg = SpReg.ttcr.num → t.ttcr = s.tick.ttcr) :
    (s.retimed l t k).getSpr reg false = s.getSpr reg false := by
  unfold getSpr
  have hd : (s.retimed l t k).readDenied reg false = s.readDenied reg false := rfl
  rw [hd]
  cases h : s.readDenied reg false with
  | true => rfl
  | false =>
    rw [if_neg Bool.false_ne_true, if_neg Bool.false_ne_true]
    cases hr : SpReg.ofNum reg with
    | none => rfl
    | some r =>
      have hreg := SpReg.num_of_ofNum hr
      cases r with
      | ttmr => exact hm
      | ttcr => exact hc h hreg
      | _ => rfl

/-- What a write makes of another timer. -/
def timerWritten (reg val : U32) (t : Tick) : Tick := (TimerWrite.ofSpr reg val).elim t (·.apply t)

theorem timerWritten_of_none (h : TimerWrite.ofSpr reg val = none) : timerWritten reg val t = t := by
  unfold timerWritten
  rw [h]
  rfl

theorem regWritten_retimed_other (hp : reg ≠ SpReg.pmr.num) (hm : reg ≠ SpReg.ttmr.num)
    (hc : reg ≠ SpReg.ttcr.num) :
    (s.retimed l t k).regWritten reg val = (s.regWritten reg val).retimed l t k := by
  unfold regWritten
  cases hr : SpReg.ofNum reg with
  | none =>
    cases SprFile.ofNum reg.toNat with
    | none => rfl
    | some f => cases f <;> rfl
  | some r =>
    have hreg := SpReg.num_of_ofNum hr
    cases r with
    | icbir =>
      have hd : (s.retimed l t k).decodeCache = s.decodeCache := rfl
      dsimp only
      rw [hd]
      generalize s.decodeCache.invalidateBlock val 32 = d
      rfl
    | pmr => exact (hp hreg).elim
    | ttmr => exact (hm hreg).elim
    | ttcr => exact (hc hreg).elim
    | _ => rfl

theorem regWritten_retimed (hz : reg = SpReg.pmr.num →
    (s.withCore (s.toCore.writeReg .pmr val)).sleepy = false) :
    (s.retimed l t k).regWritten reg val =
      (s.regWritten reg val).retimed l (timerWritten reg val t) k := by
  by_cases hp : reg = SpReg.pmr.num
  · have hs := hz hp
    have hs' : ((s.retimed l t k).withCore ((s.retimed l t k).toCore.writeReg .pmr val)).sleepy =
        false := hs
    subst hp
    rw [regWritten_pmr, regWritten_pmr, dozed_of_not_sleepy hs, dozed_of_not_sleepy hs',
      timerWritten_of_none rfl, withCore_retimed]
    rfl
  · by_cases hm : reg = SpReg.ttmr.num
    · subst hm
      rw [regWritten_ttmr, regWritten_ttmr]
      rfl
    · by_cases hc : reg = SpReg.ttcr.num
      · subst hc
        rw [regWritten_ttcr, regWritten_ttcr]
        rfl
      · have hn : TimerWrite.ofSpr reg val = none := by
          unfold TimerWrite.ofSpr
          rw [if_neg hm, if_neg hc]
        rw [timerWritten_of_none hn, regWritten_retimed_other hp hm hc]

/-! ## Instructions -/

/-- The register that `l.mfspr` at the program counter reads with permission. -/
def mfspr (s : Or1k σ) : Option U32 :=
  match s.fetch with
  | .ok (some ci, f) =>
    match ci.exec, f.toCore.deref ci ci.src1 with
    | some .mfspr, .ok a => if f.readDenied (a ||| ci.imm) false then none else some (a ||| ci.imm)
    | _, _ => none
  | _ => none

/-- What the instruction at the program counter makes of another timer. -/
def retimer (s : Or1k σ) (t : Tick) : Tick := s.mtspr.elim t fun w => timerWritten w.1 w.2.1 t

theorem mtspr_retimed : (s.retimed l t k).mtspr =
    s.mtspr.map fun w => (w.1, w.2.1, w.2.2.retimed l t k) := by
  unfold mtspr
  rw [fetch_retimed]
  cases s.fetch with
  | throw e => rfl
  | fault e => rfl
  | ok r =>
    obtain ⟨insn, f⟩ := r
    cases insn with
    | none => rfl
    | some ci =>
      rw [Outcome.lift_ok]
      dsimp only
      have hc : (f.retimed l t k).toCore = f.toCore := rfl
      rw [hc]
      split
      · rename_i a b he ha hb
        have hd : (f.retimed l t k).writeDenied (a ||| ci.imm) false =
            f.writeDenied (a ||| ci.imm) false := rfl
        rw [hd]
        split <;> rfl
      · rfl

omit [EnvImpl σ] in
theorem mfspr_retimed (h : s.executeOrbis32Mfspr ci = .ok x) (hm : t.ttmr = s.tick.ttmr)
    (hc : ∀ a, s.toCore.deref ci ci.src1 = .ok a → s.readDenied (a ||| ci.imm) false = false →
      a ||| ci.imm = SpReg.ttcr.num → t.ttcr = s.tick.ttcr) :
    (s.retimed l t k).executeOrbis32Mfspr ci = .ok (x.retimed l t k) := by
  unfold executeOrbis32Mfspr at h ⊢
  obtain ⟨c, hx, rfl⟩ := onCore_eq_ok.1 h
  obtain ⟨a, ha, hx⟩ := Outcome.bind_eq_ok.1 hx
  have hcore : (s.retimed l t k).toCore = s.toCore := rfl
  rw [hcore, ha, Outcome.ok_bind, getSpr_retimed hm fun hd hr => hc a ha hd hr, hx]
  rfl

variable [HostLib]

/-- An executor that writes no register of the timer. -/
theorem execute_retimed (h : s.execute ci = .ok x) (hw : ci.exec ≠ some .mtspr)
    (hm : t.ttmr = s.tick.ttmr)
    (hc : ∀ a, ci.exec = some .mfspr → s.toCore.deref ci ci.src1 = .ok a →
      s.readDenied (a ||| ci.imm) false = false → a ||| ci.imm = SpReg.ttcr.num →
      t.ttcr = s.tick.ttcr) :
    ∃ l', (s.retimed l t k).execute ci = .ok (x.retimed l' t k) := by
  have hcore : (s.retimed l t k).toCore = s.toCore := rfl
  unfold execute at h ⊢
  split at h
  · cases h
  · rw [hcore, onCore_retimed, h]
    exact ⟨l, rfl⟩
  · obtain ⟨⟨stall, s1⟩, h1, h⟩ := Outcome.bind_eq_ok.1 h
    cases h
    refine ⟨l + stall, ?_⟩
    unfold executeMem
    rw [hcore, liftCore_retimed, h1]
    obtain ⟨n, c, -, he⟩ := liftCore_eq_ok.1 h1
    cases he
    rfl
  · rename_i he
    exact ⟨l, mfspr_retimed h hm fun a ha hd hr => hc a he ha hd hr⟩
  · rename_i he
    exact (hw he).elim
  · exact ⟨l, nop_retimed.trans (congrArg (Outcome.lift _ _) h)⟩
  · exact ⟨l, rfe_retimed h⟩

/-- An `l.mtspr` without permission. -/
theorem mtspr_retimed_denied {f : Or1k σ} (hf : s.fetch = .ok (some ci, f))
    (he : ci.exec = some .mtspr) (hm : s.mtspr = none) (h : f.execute ci = .ok x) :
    x = f.requestBreak ∧ (f.retimed l t k).execute ci = .ok (x.retimed l t k) := by
  obtain ⟨a, b, ha, hb, -⟩ := (execute_ok h).of_mtspr he
  obtain rfl := executed_denied hf he (execute_ok h) hm
  have hcore : (f.retimed l t k).toCore = f.toCore := rfl
  refine ⟨rfl, ?_⟩
  unfold execute
  rw [he]
  dsimp only
  unfold executeOrbis32Mtspr deref
  rw [hcore, ha, hb]
  show (f.retimed l t k).setSpr (a ||| ci.imm) b false = _
  rw [setSpr_eq]
  unfold sprWritten
  have hd : f.writeDenied (a ||| ci.imm) false = true := mtspr_denied hf he ha hb hm
  have hd' : (f.retimed l t k).writeDenied (a ||| ci.imm) false = true := hd
  rw [if_pos hd']
  rfl

/-- An instruction beside itself with another limit and another timer: it leaves the same, unless it
reads TTCR, and writes both timers alike. -/
theorem fetchExecute_retimed (h : s.fetchExecute = .ok x) (hm : t.ttmr = s.tick.ttmr)
    (hc : s.mfspr = some SpReg.ttcr.num → t.ttcr = s.tick.ttcr)
    (hz : ∀ reg val f, s.mtspr = some (reg, val, f) → reg = SpReg.pmr.num →
      (f.requestBreak.withCore (f.requestBreak.toCore.writeReg .pmr val)).sleepy = false) :
    ∃ l', (s.retimed l t k).fetchExecute = .ok (x.retimed l' (s.retimer t) k) := by
  cases hw : s.mtspr with
  | some w =>
    obtain ⟨reg, val, f⟩ := w
    have ht : s.retimer t = timerWritten reg val t := by
      unfold retimer
      rw [hw]
      rfl
    have hw' : (s.retimed l t k).mtspr = some (reg, val, f.retimed l t k) := by
      rw [mtspr_retimed, hw]
      rfl
    cases (mtspr_executed hw).2.symm.trans h
    refine ⟨l, ?_⟩
    rw [(mtspr_executed hw').2, ht, ← regWritten_retimed fun hp => hz reg val f hw hp]
    rfl
  | none =>
    have ht : s.retimer t = t := by
      unfold retimer
      rw [hw]
      rfl
    rw [ht]
    obtain ⟨⟨insn, f⟩, hf, h⟩ := Outcome.bind_eq_ok.1 h
    have hf' : (s.retimed l t k).fetch = .ok (insn, f.retimed l t k) := by
      rw [fetch_retimed, hf]
      rfl
    cases insn with
    | none =>
      cases h
      refine ⟨l, ?_⟩
      unfold fetchExecute
      rw [hf']
      rfl
    | some ci =>
      have h : f.execute ci = .ok x := h
      rw [fetchExecute_of_fetch hf']
      by_cases he : ci.exec = some .mtspr
      · exact ⟨l, (mtspr_retimed_denied hf he hw h).2⟩
      · have htick : f.tick = s.tick := congrArg (·.tick) (FetchedInsn.of_fetch hf).eq
        rw [← htick] at hm hc
        refine execute_retimed h he hm fun a hr ha hd hreg => hc ?_
        unfold mfspr
        rw [hf]
        dsimp only
        rw [hr, ha]
        dsimp only
        rw [hd, hreg]
        rfl

end Or1k

end Or1kiss
