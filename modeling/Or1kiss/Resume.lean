import Or1kiss.Aborted
import Or1kiss.Account

/-!
# Returning from an interrupt

`advance` accepts tick and external exceptions between two instructions. A handler that is a
single `l.rfe` puts back what the exception saved (`Restored`), except between a jump and its
delay slot: there EPCR is the address of the jump, and executing it again puts back the rest.
`lasting` follows the last instruction, so that "it" is a value of the run.
-/

namespace Or1kiss

open Host Bits Runs

variable {σ : Type}

/-- The register a jump links. -/
def Instruction.linkReg (ci : Instruction) (e : CoreExec) : Option (Fin 32) :=
  match e, ci.src1 with
  | .jumpRel, .reg i | .jumpAbs, .reg i => if h : i < 32 then some ⟨i, h⟩ else none
  | _, _ => none

/-- The jump links the register that holds its target: `l.jalr r9`. -/
def Instruction.relinks (ci : Instruction) : Bool :=
  match ci.src1, ci.src2 with
  | .reg i, .reg j => i == j
  | _, _ => false

namespace Core

variable {c b c' : Core σ} {ci : Instruction}

/-! ## Jumps -/

/-- The registers behind a taken jump. -/
def jumpRegs (c : Core σ) (ci : Instruction) (e : CoreExec) : Fin 32 → U32 :=
  match ci.linkReg e with
  | some i => Function.update c.gpr i (c.nextPc + 8#32)
  | none => c.gpr

theorem link_ok {e : CoreExec} (he : e = .jumpRel ∨ e = .jumpAbs) (h : c.link ci = .ok c') :
    c' = { c with gpr := c.jumpRegs ci e } := by
  have hd : BitVec.ofNat 32 ((branchDelay + 1) * 4) = 8#32 := by rw [branchDelay_eq]
  unfold link at h
  unfold jumpRegs Instruction.linkReg
  rw [hd] at h
  cases hs : ci.src1 with
  | null =>
    rw [hs] at h
    cases h
    rcases he with rfl | rfl <;> rfl
  | imm =>
    rw [hs] at h
    cases h
  | reg i =>
    rw [hs] at h
    dsimp only [assign] at h ⊢
    split at h
    · rename_i hi
      cases h
      rcases he with rfl | rfl <;> dsimp only <;> rw [dif_pos hi] <;> rfl
    · cases h

/-- A taken jump to an aligned target. -/
theorem execute_taken [HostLib] {e : CoreExec} {target : U32} (hj : e.isJump = true)
    (h : c.execute e ci = .ok c') (ht : c.takenTarget ci e = some target)
    (ha : isAligned target 4 = true) :
    c' = ({ c with gpr := c.jumpRegs ci e } : Core σ).setJump target (c.instructions + 1) := by
  have hsched : ∀ {b x : Core σ}, b.instructions = c.instructions →
      b.scheduleJump target branchDelay = .ok x → x = b.setJump target (c.instructions + 1) := by
    intro b x hb hs
    rw [scheduleJump_eq, if_pos ha, branchDelay_eq, hb] at hs
    cases hs
    rfl
  cases e with
  | bf =>
    unfold takenTarget at ht
    dsimp only at ht
    have h : c.executeOrbis32Bf ci = .ok c' := h
    unfold executeOrbis32Bf at h
    split at ht
    · rename_i hf
      cases ht
      rw [if_pos hf] at h
      exact hsched rfl h
    · cases ht
  | bnf =>
    unfold takenTarget at ht
    dsimp only at ht
    have h : c.executeOrbis32Bnf ci = .ok c' := h
    unfold executeOrbis32Bnf at h
    split at ht
    · rename_i hf
      cases ht
      rw [if_pos hf] at h
      exact hsched rfl h
    · cases ht
  | jumpRel =>
    obtain ⟨b, hb, h⟩ := Outcome.bind_eq_ok.1 h
    obtain ⟨c1, h1, h⟩ := Outcome.bind_eq_ok.1 h
    unfold takenTarget at ht
    rw [hb] at ht
    cases ht
    rw [link_ok (.inl rfl) h1] at h
    exact hsched (by rfl) h
  | jumpAbs =>
    obtain ⟨b, hb, h⟩ := Outcome.bind_eq_ok.1 h
    obtain ⟨c1, h1, h⟩ := Outcome.bind_eq_ok.1 h
    unfold takenTarget at ht
    rw [hb] at ht
    cases ht
    rw [link_ok (.inr rfl) h1] at h
    exact hsched (by rfl) h
  | _ => cases hj

theorem jumpRegs_of_ne {e : CoreExec} {j : Fin 32} (h : ci.src1 ≠ .reg j) :
    c.jumpRegs ci e j = c.gpr j := by
  have hne : ∀ i : Fin 32, ci.linkReg e = some i → j ≠ i := by
    rintro i hl rfl
    unfold Instruction.linkReg at hl
    split at hl
    · rename_i k hk
      split at hl <;> cases hl
      exact h hk
    · rename_i k hk
      split at hl <;> cases hl
      exact h hk
    · cases hl
  unfold jumpRegs
  cases hl : ci.linkReg e with
  | none => rfl
  | some i => exact Function.update_of_ne (hne i hl) _ _

/-- The jump finds its operands behind itself as it found them before. -/
theorem takenTarget_again {e : CoreExec} (h0 : c.gpr 0 = 0#32) (hr : ci.relinks = false)
    (hg : b.gpr = Function.update (c.jumpRegs ci e) 0 0#32)
    (hf : test b.status SR.F = test c.status SR.F) (hn : b.nextPc = c.nextPc) :
    b.takenTarget ci e = c.takenTarget ci e := by
  have hd : b.deref ci ci.src2 = c.deref ci ci.src2 := by
    unfold Instruction.relinks at hr
    unfold deref
    split
    · rfl
    · rfl
    · rename_i j hj
      rw [hj] at hr
      split
      · rename_i hlt
        apply congrArg Outcome.ok
        rw [hg]
        by_cases hz : (⟨j, hlt⟩ : Fin 32) = 0
        · rw [hz, Function.update_self, h0]
        · rw [Function.update_of_ne hz]
          apply jumpRegs_of_ne
          intro hs
          rw [hs] at hr
          exact absurd rfl (beq_eq_false_iff_ne.1 hr)
      · rfl
  unfold takenTarget
  rw [hd, hf, hn]

/-- Linking twice is linking once. -/
theorem jumpRegs_again {e : CoreExec} (hg : b.gpr = Function.update (c.jumpRegs ci e) 0 0#32)
    (hn : b.nextPc = c.nextPc) :
    Function.update (b.jumpRegs ci e) 0 0#32 = Function.update (c.jumpRegs ci e) 0 0#32 := by
  have hlink : ∀ (g : Fin 32 → U32) (i : Fin 32) (v : U32), Function.update
      (Function.update (Function.update (Function.update g i v) 0 0#32) i v) 0 0#32 =
        Function.update (Function.update g i v) 0 0#32 := by
    intro g i v
    funext k
    by_cases hk : k = 0
    · rw [hk, Function.update_self, Function.update_self]
    · by_cases hi : k = i
      · subst hi
        simp [Function.update_of_ne hk]
      · simp [Function.update_of_ne hk, Function.update_of_ne hi]
  unfold jumpRegs at hg ⊢
  rw [hn, hg]
  split
  · exact hlink _ _ _
  · exact Function.update_idem _ _ _

/-! ## Fetches -/

/-- The fetch members are those of a read, and memory is as before. -/
structure Reading (c c' : Core σ) : Prop where
  read : c'.ireq.read = true
  mem : c'.env.world.mem = c.env.world.mem

theorem Reading.trans (h : Reading c b) (h' : Reading b c') : Reading c c' :=
  ⟨h'.read, h'.mem.trans h.mem⟩

theorem reading_entered (hr : c.ireq.read = true) (t : ExType) (addr : U32) :
    Reading c (c.entered t addr) := by
  unfold entered
  dsimp only
  split <;> exact ⟨hr, rfl⟩

theorem reading_refuse {t : ExType} {r : Bool × Core σ} (hr : c.ireq.read = true)
    (h : c.refuse t = .ok r) : Reading c r.2 := by
  obtain ⟨c1, h1, rfl⟩ := Outcome.lift_eq_ok.1 h
  obtain ⟨-, rfl⟩ | ⟨-, -, rfl⟩ := exception_ok h1
  · exact ⟨hr, rfl⟩
  · exact reading_entered hr t _

variable [EnvImpl σ]

theorem fetchAddress_reading {r : Bool × Core σ} (hp : EnvImpl.Honest σ)
    (hr : c.ireq.read = true) (h : c.fetchAddress = .ok r) : Reading c r.2 := by
  unfold fetchAddress at h
  split at h
  · split at h
    · cases h
      exact ⟨hr, rfl⟩
    · have ht : Reading c c.translateFetch.2 := by
        refine ⟨?_, Mmu.translate_mem c.immu c.env c.fetchRequest hp⟩
        exact (Mmu.translate_fields c.immu c.env c.fetchRequest).read.trans hr
      split at h <;> rename_i he <;> rw [he] at ht
      · exact ht.trans (reading_refuse ht.read h)
      · exact ht.trans (reading_refuse ht.read h)
      · cases h
        exact ⟨ht.read, ht.mem⟩
  · cases h
    exact ⟨hr, rfl⟩

theorem readInsn_reading (hp : EnvImpl.Honest σ) (hr : c.ireq.read = true) :
    Reading c c.readInsn.2 := by
  let req : Request := { c.ireq with data := bytesOf c.env.hostEndian c.insn }
  have hreq : req.read = true := hr
  obtain ⟨d, n, hd⟩ := Env.convertAndTransact_answers c.env req
  refine ⟨?_, Env.convertAndTransact_read_mem hp hreq⟩
  show ((c.env.convertAndTransact req).2.1).read = true
  rw [hd]
  exact hr

theorem fetchWord_reading (hp : EnvImpl.Honest σ) (hr : c.ireq.read = true) :
    (∀ r, c.fetchWord = .ok r → Reading c r.2) ∧ ∀ c', c.fetchWord = .throw c' → Reading c c' := by
  have ht := readInsn_reading hp hr
  unfold fetchWord
  constructor
  · intro r h
    split at h
    · cases h
      exact ⟨hr, rfl⟩
    · split at h <;> rename_i he <;> rw [he] at ht
      · exact ht.trans (reading_refuse ht.read h)
      · cases h
      · cases h
        exact ht
  · intro c' h
    split at h
    · cases h
    · split at h <;> rename_i he <;> rw [he] at ht
      · exact (refuse_ne_throw h).elim
      · cases h
        exact ht
      · cases h

end Core

namespace Or1k

variable {s f x : Or1k σ} {ci : Instruction}

variable [EnvImpl σ]

/-- A fetch reads, whether it finds an instruction, raises an exception or is thrown out. -/
theorem fetch_reading (hp : EnvImpl.Honest σ) (hr : s.ireq.read = true) :
    (∀ r, s.fetch = .ok r → Core.Reading s.toCore r.2.toCore) ∧
      ∀ x, s.fetch = .throw x → Core.Reading s.toCore x.toCore := by
  have hends : Outcome.Ends (fun x => Core.Reading s.toCore x.toCore)
      (fun r => Core.Reading s.toCore r.2.toCore) s.fetch := by
    refine fetch_ends ?_ (fun c h => ?_) (fun c x h hx => ?_) fun c w h => ⟨h.read, h.mem⟩
    · exact Outcome.ends_of (fun r hc => Core.fetchAddress_reading hp hr hc)
        fun x hx => (Core.fetchAddress_ne_throw hx).elim
    · have hw := Core.fetchWord_reading hp h.read
      exact Outcome.ends_of (fun r hc => h.trans (hw.1 r hc)) fun x hx => h.trans (hw.2 x hx)
    · obtain ⟨t, addr, -, -, rfl⟩ := hx
      exact h.trans (Core.reading_entered h.read t addr)
  exact ⟨fun r h => hends.of_ok h, fun x h => hends.of_throw h⟩

theorem dozed_fixed : s.dozed.status &&& SR.FO = s.status &&& SR.FO := by
  unfold dozed
  split
  · rfl
  · dsimp only
    split
    · rfl
    · exact timerUpdated_fixed.1

/-- What a step without an instruction leaves alone. -/
structure Aside (s x : Or1k σ) : Prop where
  gpr : x.gpr = s.gpr
  ireq : x.ireq = s.ireq
  instructions : x.instructions = s.instructions
  prevPc : x.prevPc = s.prevPc
  fixed : x.status &&& SR.FO = s.status &&& SR.FO

omit [EnvImpl σ] in
theorem Steady.aside (h : Steady s x) (hf : x.status &&& SR.FO = s.status &&& SR.FO) :
    Aside s x :=
  ⟨congrArg Regs.gpr h.toRegs, h.ireq, h.instructions, h.prevPc, hf⟩

end Or1k

/-- Memory and devices change behind the port. -/
def Action.isWorld : Action σ → Bool
  | .world _ => true
  | _ => false

namespace Machine

open Or1k

variable [EnvImpl σ] [HostLib] {m m' : Machine σ} {a : Action σ}

/-- A step without an instruction, not from a debugger. -/
theorem act_aside (hx : ¬IsIteration ⟨m, a, m'⟩) (hw : a.writesRegister = false)
    (hn : m.act a = some m') : Aside m.cpu m'.cpu ∧
      (Ignored m.cpu m'.cpu ∨ ∃ e, Accepted e m.cpu m'.cpu) := by
  cases act_transition hn with
  | begin r s n =>
    refine ⟨Steady.aside began_steady ?_, began_cases⟩
    exact dozed_fixed.trans (externalChecked_fixed (s := { s with limit := s.cycles + n.toNat })).1
  | mini | finish | leave => exact ⟨⟨rfl, rfl, rfl, rfl, rfl⟩, .inl ⟨rfl, rfl, rfl, rfl, rfl, rfl, rfl, rfl⟩⟩
  | iterate limit s x hl hfe | throw limit s x hl hfe =>
    exact (hx ⟨rfl, by simpa [executes] using hl⟩).elim
  | drain s =>
    rw [drained_cpu]
    refine ⟨Steady.aside (timerUpdated_steady.trans externalChecked_steady) ?_, endMini_cases⟩
    exact externalChecked_fixed.1.trans timerUpdated_fixed.1
  | interrupt p s id set =>
    obtain ⟨v, he⟩ := s.toCore.interrupt_eq id set
    rw [he]
    exact ⟨⟨rfl, rfl, rfl, rfl, rfl⟩, .inl ⟨rfl, rfl, rfl, rfl, rfl, rfl, rfl, rfl⟩⟩
  | outside r s s' a ha h =>
    cases outside_ok h with
    | writeSpr | writeGpr => cases hw
    | world | setUp =>
      exact ⟨⟨rfl, rfl, rfl, rfl, rfl⟩, .inl ⟨rfl, rfl, rfl, rfl, rfl, rfl, rfl, rfl⟩⟩

/-- A CPU that is awake stays so, and its memory as it is. -/
theorem act_env (hx : ¬IsIteration ⟨m, a, m'⟩) (hw : a.writesRegister = false)
    (hb : a.isWorld = false) (hd : test m.cpu.pmr PMR.DME = false) (hn : m.act a = some m') :
    m'.cpu.env = m.cpu.env ∧ test m'.cpu.pmr PMR.DME = false := by
  have hint : ∀ {s : Or1k σ}, test s.pmr PMR.DME = false →
      test s.externalChecked.pmr PMR.DME = false := fun {s} h => by
    rcases externalChecked_cases (s := s) with he | ha
    · rwa [he]
    · exact ha.awake
  cases act_transition hn with
  | begin r s n =>
    have hd' := hint (s := { s with limit := s.cycles + n.toNat }) hd
    have hz := dozed_awake hd'
    show (began n s).env = s.env ∧ test (began n s).pmr PMR.DME = false
    unfold began
    rw [hz]
    exact ⟨externalChecked_fixed.2, hd'⟩
  | mini | finish | leave => exact ⟨rfl, hd⟩
  | iterate limit s x hl hfe | throw limit s x hl hfe =>
    exact (hx ⟨rfl, by simpa [executes] using hl⟩).elim
  | drain s =>
    rw [drained_cpu]
    refine ⟨externalChecked_fixed.2.trans timerUpdated_fixed.2, hint ?_⟩
    rcases timerUpdated_cases (s := s) with hi | ha
    · show test s.tickChecked.pmr PMR.DME = false
      unfold tickChecked
      split
      · split
        · unfold interrupted
          split
          · exact hd
          · exact test_and_not_self _ _
        · exact hd
      · exact hd
    · exact ha.awake
  | interrupt p s id set =>
    obtain ⟨v, he⟩ := s.toCore.interrupt_eq id set
    rw [he]
    exact ⟨rfl, hd⟩
  | outside r s s' a ha h =>
    cases outside_ok h with
    | writeSpr | writeGpr => cases hw
    | world => cases hb
    | setUp => exact ⟨rfl, hd⟩

end Machine

/-! ## The last instruction -/

/-- How the last iteration went. -/
inductive Last (σ : Type) where
  /-- No instruction was executed: after reset, or the fetch raised an exception. -/
  | refused
  /-- `ci` was executed by `f`. -/
  | executed (ci : Instruction) (f : Or1k σ)
  /-- A C++ exception left the instruction unfinished, or r0 with what it had read. -/
  | torn

namespace Or1k

variable [EnvImpl σ] [HostLib] {s f x : Or1k σ} {ci : Instruction}

/-- How the iteration from here goes. -/
def last (s : Or1k σ) : Last σ :=
  if s.gpr 0 = 0#32 then
    match s.fetchExecute, s.fetch with
    | .ok _, .ok (some ci, f) => .executed ci f
    | .ok _, _ => .refused
    | _, _ => .torn
  else .torn

/-- Between the taken jump `ci`, which `f` executed, and its delay slot. -/
structure Behind (ci : Instruction) (f s : Or1k σ) : Prop where
  zero : f.gpr 0 = 0#32
  jump : ∃ e, ci.exec = some (.core e) ∧ e.isJump = true ∧
    f.toCore.takenTarget ci e = some s.jumpTarget ∧
    s.gpr = Function.update (f.toCore.jumpRegs ci e) 0 0#32
  aligned : isAligned s.jumpTarget 4 = true
  jumpInsn : s.jumpInsn = s.instructions + 1
  prevPc : s.prevPc = f.nextPc
  nextPc : s.nextPc = f.nextPc + 4#32
  status : s.status = f.status ||| SR.FO

/-- What holds between two instructions. -/
structure Settled (g : Last σ) (s : Or1k σ) : Prop where
  read : s.ireq.read = true
  bound : s.jumpInsn ≤ s.instructions + 1
  zero : g ≠ .torn → s.gpr 0 = 0#32
  fixed : g ≠ .torn → s.status ||| SR.FO = s.status
  behind : g ≠ .torn → s.toCore.isJumpInsn = true → ∃ ci f, g = .executed ci f ∧ Behind ci f s

omit [EnvImpl σ] [HostLib] in
theorem isJumpInsn_iff : s.toCore.isJumpInsn = true ↔ s.jumpInsn = s.instructions + 1 := by
  unfold Core.isJumpInsn
  rw [beq_iff_eq]
  exact eq_comm

omit [EnvImpl σ] [HostLib] in
/-- Retiring restores the fixed values. -/
theorem redirect_fixed : x.retire.redirect.gpr = Function.update x.gpr 0 0#32 ∧
    x.retire.redirect.status = x.status ||| SR.FO ∧ x.retire.redirect.prevPc = x.nextPc ∧
    x.retire.redirect.ireq = x.ireq ∧ x.retire.redirect.env = x.env := by
  unfold redirect
  split <;> exact ⟨rfl, rfl, rfl, rfl, rfl⟩

/-- A taken jump is behind an iteration that leaves a jump pending. -/
theorem executed_behind (hf : s.fetch = .ok (some ci, f)) (h : f.execute ci = .ok x)
    (hb : f.jumpInsn ≤ f.instructions) (hn : s.recounts = false) :
    x.jumpInsn ≤ x.instructions ∨
      (x.jumpInsn = x.instructions + 1 ∧ (f.gpr 0 = 0#32 → Behind ci f x.retire.redirect)) := by
  obtain ⟨hri, hrj, hrt, -⟩ := redirect_counters (x := x)
  obtain ⟨hrg, hrs, hrp, -, -⟩ := redirect_fixed (x := x)
  have hpc := redirect_nextPc (x := x)
  cases execute_ok h with
  | plain c limit e he hp hr =>
    left
    have ho := hr.outcomes
    rcases ho.control with hc | ⟨ht, hh⟩
    · show c.jumpInsn ≤ c.instructions
      rw [hc.jumpInsn, ho.instructions]
      exact hb
    · exact Nat.le_of_eq hh.due
  | untaken => exact .inl hb
  | taken e target r c he hj ht hs hr =>
    by_cases ha : isAligned target 4 = true
    · right
      have hx : f.toCore.execute e ci = .ok c := by
        unfold execute at h
        rw [he] at h
        obtain ⟨c', hc', heq⟩ := onCore_eq_ok.1 h
        have hcc : c = c' := congrArg Or1k.toCore heq
        rw [hcc]
        exact hc'
      have hc := Core.execute_taken hj hx ht ha
      have hxi : (f.withCore c).instructions = f.instructions := by rw [hc]; rfl
      have hxj : (f.withCore c).jumpInsn = f.instructions + 1 := by rw [hc]; rfl
      have hne : ¬((f.withCore c).instructions == (f.withCore c).jumpInsn) = true := by
        rw [hxi, hxj, beq_iff_eq]
        omega
      rw [if_neg hne] at hpc
      refine ⟨by rw [hxi, hxj], fun h0 => ⟨h0, ⟨e, he, hj, ?_, ?_⟩, ?_, ?_, ?_, ?_, ?_⟩⟩
      · rw [hrt, hc]
        exact ht
      · rw [hrg, hc]
        rfl
      · rw [hrt, hc]
        exact ha
      · rw [hrj, hri, hxi, hxj]
      · rw [hrp, hc]
        rfl
      · rw [hpc, hc]
        rfl
      · rw [hrs, hc]
        rfl
    · left
      obtain ⟨ha', -⟩ | ⟨-, -, rfl⟩ := Core.scheduleJump_cases hs
      · exact (ha ha').elim
      · exact Nat.le_refl _
  | mtspr a b he ha hb' =>
    left
    obtain ⟨-, hd⟩ | hw := sprWritten_cases (s := f) (a ||| ci.imm) b false
    · rw [hd]
      have hi := (dozed_steady (s := f.requestBreak.withCore
        (f.requestBreak.toCore.writeReg .pmr b))).instructions
      rcases dozed_cases (s := f.requestBreak.withCore (f.requestBreak.toCore.writeReg .pmr b))
        with hq | hq
      · rw [hq.jumpInsn, hi]
        exact hb
      · rw [hq.jumpInsn]
        exact Nat.zero_le _
    · rw [hw.jumpInsn, hw.instructions]
      exact hb
  | nop x he hx =>
    left
    have hnc : ci.imm.toNat ≠ 0x1 ∧ ci.imm.toNat ≠ 0xc ∧ ci.imm.toNat ≠ 0x5 := by
      unfold recounts at hn
      rw [hf] at hn
      simp only [he, BEq.rfl, Bool.true_and, Bool.or_eq_false_iff, beq_eq_false_iff_ne] at hn
      have hne : ∀ k : Nat, k < 2 ^ 32 → ci.imm ≠ BitVec.ofNat 32 k → ci.imm.toNat ≠ k :=
        fun k hk hi hn => hi (by rw [← hn, BitVec.ofNat_toNat, BitVec.setWidth_eq])
      exact ⟨hne _ (by decide) hn.1.1, hne _ (by decide) hn.2, hne _ (by decide) hn.1.2⟩
    obtain ⟨-, h1 | hc⟩ | ⟨-, h5⟩ | ⟨c, rfl, hbk, -⟩ := nop_ok hx
    · exact (hnc.1 h1).elim
    · exact (hnc.2.1 hc).elim
    · exact (hnc.2.2 h5).elim
    · show c.jumpInsn ≤ c.instructions
      rw [hbk.calm.jumpInsn, hbk.kept.instructions]
      exact hb
  | rfe x he hx =>
    left
    obtain ⟨c, hc, rfl⟩ := rfe_ok hx
    have hle : c.jumpInsn ≤ c.instructions := by
      obtain ⟨-, rfl⟩ | ⟨-, -, rfl⟩ := Core.scheduleJump_cases hc
      · exact Nat.le_refl _
      · exact Nat.le_refl _
    unfold rfeRestored
    split <;> exact hle

/-- A completed iteration, between two instructions. -/
theorem fetchExecute_settled (hp : EnvImpl.Honest σ) (h : s.fetchExecute = .ok x)
    (hr : s.ireq.read = true) (hb : s.jumpInsn ≤ s.instructions) (hn : s.recounts = false) :
    Settled s.last x.retire.redirect := by
  obtain ⟨hri, hrj, -, -⟩ := redirect_counters (x := x)
  obtain ⟨hrg, hrs, -, hrr, -⟩ := redirect_fixed (x := x)
  have hzero : x.retire.redirect.gpr 0 = 0#32 := by rw [hrg, Function.update_self]
  have hfixed : x.retire.redirect.status ||| SR.FO = x.retire.redirect.status := by
    rw [hrs, BitVec.or_assoc, BitVec.or_self]
  have hcalm : x.ireq.read = true → x.jumpInsn ≤ x.instructions →
      Settled s.last x.retire.redirect := by
    intro hread hle
    refine ⟨hrr ▸ hread, by omega, fun _ => hzero, fun _ => hfixed, fun _ hj => ?_⟩
    rw [isJumpInsn_iff] at hj
    omega
  have hall := h
  obtain ⟨⟨insn, f⟩, hf, h⟩ := Outcome.bind_eq_ok.1 h
  have hreading := ((fetch_reading hp hr).1 _ hf).read
  dsimp only at h hreading
  obtain ⟨⟨ci, hci⟩, hfi⟩ | ⟨hnone, b, c, hfb, ⟨t, addr, ht, ha, rfl⟩, hfc⟩ := fetch_ok hf
  · dsimp only at hci hfi
    subst hci
    have hs := hfi.sameCounters
    have hgpr : f.gpr = s.gpr := congrArg (·.gpr) hfi.eq
    have hread : x.ireq.read = true := by
      rw [executed_ireq (execute_ok h)]
      exact hreading
    have hfb : f.jumpInsn ≤ f.instructions := by
      rw [hs.jumpInsn, hs.instructions]
      exact hb
    rcases executed_behind hf h hfb hn with hle | ⟨hj, hbeh⟩
    · exact hcalm hread hle
    · refine ⟨hrr ▸ hread, by omega, fun _ => hzero, fun _ => hfixed, fun hg _ => ?_⟩
      unfold last at hg ⊢
      rw [hall, hf] at hg ⊢
      split at hg
      · rename_i h0
        rw [if_pos h0]
        exact ⟨ci, f, rfl, hbeh (hgpr ▸ h0)⟩
      · exact (hg rfl).elim
  · dsimp only at hnone hfc
    subst hnone hfc
    cases h
    exact hcalm hreading (Nat.le_of_eq (Core.handling_entered ht addr ha).due)

/-- A C++ exception out of an iteration. -/
theorem fetchExecute_torn (hp : EnvImpl.Honest σ) (h : s.fetchExecute = .throw x)
    (hr : s.ireq.read = true) (hb : s.jumpInsn ≤ s.instructions) : Settled s.last x := by
  have hlast : s.last = .torn := by
    unfold last
    rw [h]
    split <;> rfl
  have hs := fetchExecute_throw_counters h
  have hread : x.ireq.read = true := by
    rcases fetchExecute_throw h with h | ⟨ci, f, e, c, hf, -, -, hm, rfl⟩
    · exact ((fetch_reading hp hr).2 _ h).read
    · have hreading := ((fetch_reading hp hr).1 _ hf).read
      exact (Core.executeMem_throw_effects hm).kept.ireq ▸ hreading
  refine ⟨hread, ?_, fun hg => (hg hlast).elim, fun hg => (hg hlast).elim, fun hg => (hg hlast).elim⟩
  rw [hs.jumpInsn, hs.instructions]
  omega

omit [EnvImpl σ] [HostLib] in
theorem or_fixed_iff {v : U32} : v ||| SR.FO = v ↔ v &&& SR.FO = SR.FO := by
  constructor
  · intro h
    have habsorb : (v ||| SR.FO) &&& SR.FO = SR.FO := by
      ext i hi
      rw [BitVec.getElem_and, BitVec.getElem_or]
      cases v[i] <;> cases SR.FO[i] <;> rfl
    rwa [h] at habsorb
  · intro h
    have habsorb : v ||| (v &&& SR.FO) = v := by
      ext i hi
      rw [BitVec.getElem_or, BitVec.getElem_and]
      cases v[i] <;> cases SR.FO[i] <;> rfl
    rwa [h] at habsorb

end Or1k

namespace Machine

open Or1k

variable [EnvImpl σ] [HostLib] {m m' : Machine σ} {a : Action σ}

/-- How the last iteration went, after a step. -/
def lastAfter (g : Last σ) (st : Move (Machine σ) (Action σ)) : Last σ :=
  match st.act with
  | .run => if st.pre.executes then st.pre.cpu.beginCycle.last else g
  | _ => g

/-- The simulator with its last instruction. -/
abbrev lasting : System (Machine σ × Last σ) (Action σ) := system.watch lastAfter

theorem lastAfter_of_not_iteration {g : Last σ} (hx : ¬IsIteration ⟨m, a, m'⟩) :
    lastAfter g ⟨m, a, m'⟩ = g := by
  unfold lastAfter
  cases a with
  | run => exact if_neg fun h => hx ⟨rfl, h⟩
  | _ => rfl

omit [EnvImpl σ] [HostLib] in
theorem settled_aside {g : Last σ} {s x : Or1k σ} (h : Settled g s) (ha : Aside s x)
    (hc : Ignored s x ∨ ∃ e, Accepted e s x) : Settled g x := by
  refine ⟨?_, ?_, ?_, ?_, ?_⟩
  · rw [ha.ireq]
    exact h.read
  · rcases hc with hi | ⟨e, hacc⟩
    · rw [hi.jumpInsn, ha.instructions]
      exact h.bound
    · rw [hacc.jumpInsn]
      exact Nat.zero_le _
  · intro hg
    rw [ha.gpr]
    exact h.zero hg
  · intro hg
    rw [or_fixed_iff, ha.fixed, ← or_fixed_iff]
    exact h.fixed hg
  · intro hg hj
    rw [isJumpInsn_iff] at hj
    rcases hc with hi | ⟨e, hacc⟩
    · rw [hi.jumpInsn, ha.instructions, ← isJumpInsn_iff] at hj
      obtain ⟨ci, f, hgf, hb⟩ := h.behind hg hj
      refine ⟨ci, f, hgf, hb.zero, ?_, ?_, ?_, ?_, ?_, ?_⟩
      · rw [hi.jumpTarget, ha.gpr]
        exact hb.jump
      · rw [hi.jumpTarget]
        exact hb.aligned
      · rw [hi.jumpInsn, ha.instructions]
        exact hb.jumpInsn
      · rw [ha.prevPc]
        exact hb.prevPc
      · rw [hi.nextPc]
        exact hb.nextPc
      · rw [hi.status]
        exact hb.status
    · rw [hacc.jumpInsn] at hj
      omega

theorem step_settled (hp : EnvImpl.Honest σ) {q q' : Machine σ × Last σ}
    (hn : lasting.next q a = some q') (hu : undisturbed q.1 a = true)
    (h : Settled q.2 q.1.cpu) : Settled q'.2 q'.1.cpu := by
  obtain ⟨m, g⟩ := q
  obtain ⟨m', hm, rfl⟩ := System.watch_next hn
  dsimp only at hm h hu ⊢
  unfold undisturbed at hu
  simp only [Bool.and_eq_true, Bool.not_eq_true'] at hu
  obtain ⟨hw, hu⟩ := hu
  by_cases hx : IsIteration ⟨m, a, m'⟩
  · obtain ⟨ha, hx⟩ := hx
    dsimp only at ha hx
    subst ha
    have hlast : lastAfter g ⟨m, .run, m'⟩ = m.cpu.beginCycle.last := if_pos hx
    have hrec : m.cpu.beginCycle.recounts = false := by
      rw [hx, Bool.true_and] at hu
      exact hu
    have hread : m.cpu.beginCycle.ireq.read = true := h.read
    have hbound : m.cpu.beginCycle.jumpInsn ≤ m.cpu.beginCycle.instructions := h.bound
    rw [hlast]
    rcases iteration_cases hx hm with ⟨limit, x, hfe, rfl⟩ | ⟨x, hfe, rfl⟩
    · rw [retired_cpu]
      exact fetchExecute_settled hp hfe hread hbound hrec
    · exact fetchExecute_torn hp hfe hread hbound
  · rw [lastAfter_of_not_iteration hx]
    obtain ⟨ha, hc⟩ := act_aside hx hw hm
    exact settled_aside h ha hc

theorem steps_settled (hp : EnvImpl.Honest σ) {env : Env σ} {size : Nat} {q : Machine σ × Last σ}
    (h : lasting.Steps (fun q a => undisturbed q.1 a = true) (init env size, .refused) q) :
    Settled q.2 q.1.cpu := by
  have h0 : Settled .refused (init env size).cpu := by
    have hfixed : (SR.FO ||| SR.SM) ||| SR.FO = SR.FO ||| SR.SM := by decide
    refine ⟨rfl, Nat.zero_le _, fun _ => rfl, fun _ => hfixed, fun _ hj => ?_⟩
    rw [isJumpInsn_iff] at hj
    cases hj
  exact h.invariant (P := fun q => Settled q.2 q.1.cpu)
    (fun _ _ _ hs hu hn => step_settled hp hn hu hs) h0

/-! ## There and back -/

/-- `advance` itself accepts an interrupt: at its start, or after `update_timer`. -/
def accepts (m : Machine σ) (a : Action σ) (m' : Machine σ) : Prop :=
  match a with
  | .call _ => m.cpu.isInterruptPending = true ∧ m.cpu.isExtIrqEnabled = true
  | .run => m.phase = .drain ∧ m'.cpu.taken ≠ m.cpu.taken
  | _ => False

/-- No instruction is executed, and nothing is written from outside. -/
def idles (m : Machine σ) (a : Action σ) : Bool :=
  (match a with
    | .run => !m.executes
    | _ => true) && !a.writesRegister && !a.isWorld

/-- And no interrupt is accepted. -/
def rests (m : Machine σ) (a : Action σ) : Bool :=
  idles m a && (m.act a).all fun m' => decide (m'.cpu.taken = m.cpu.taken)

/-- The handler of an exception that was accepted in `s`. -/
structure Handles (s x : Or1k σ) : Prop where
  expc : x.expc = if s.toCore.isJumpInsn then s.prevPc else s.nextPc
  exsr : x.exsr = s.status
  mode : HandlerMode x.status
  awake : test x.pmr PMR.DME = false
  gpr : x.gpr = s.gpr
  read : x.ireq.read = true
  mem : x.env.world.mem = s.env.world.mem

/-- Behind the handler, about to execute the instruction at `pc`. -/
structure Returned (s : Or1k σ) (pc : U32) (x : Or1k σ) : Prop where
  nextPc : x.nextPc = pc
  jumpInsn : x.jumpInsn ≤ x.instructions
  status : x.status = s.status
  awake : test x.pmr PMR.DME = false
  gpr : x.gpr = s.gpr
  read : x.ireq.read = true
  mem : x.env.world.mem = s.env.world.mem

/-- Control, registers, status and memory are as they were. -/
structure Restored (s x : Or1k σ) : Prop where
  nextPc : x.nextPc = s.nextPc
  pending : x.toCore.isJumpInsn = s.toCore.isJumpInsn
  jumpTarget : s.toCore.isJumpInsn = true → x.jumpTarget = s.jumpTarget
  gpr : x.gpr = s.gpr
  status : x.status = s.status
  mem : x.env.world.mem = s.env.world.mem

omit [EnvImpl σ] [HostLib] in
theorem not_iteration_of_idles (h : idles m a = true) : ¬IsIteration ⟨m, a, m'⟩ := by
  rintro ⟨ha, hx⟩
  dsimp only at ha hx
  subst ha
  unfold idles at h
  rw [hx] at h
  cases h

omit [EnvImpl σ] [HostLib] in
theorem idles_outside (h : idles m a = true) : a.writesRegister = false ∧ a.isWorld = false := by
  unfold idles at h
  simp only [Bool.and_eq_true, Bool.not_eq_true'] at h
  exact ⟨h.1.2, h.2⟩

theorem accepts_handles {g : Last σ} (hs : Settled g m.cpu) (hn : m.act a = some m')
    (h : accepts m a m') : Handles m.cpu m'.cpu := by
  have hx : ¬IsIteration ⟨m, a, m'⟩ := by
    rintro ⟨ha, hx⟩
    dsimp only at ha hx
    subst ha
    obtain ⟨hp, -⟩ := h
    unfold executes at hx
    rw [hp] at hx
    cases hx
  have hw : a.writesRegister = false := by
    cases a <;> first | rfl | cases h
  have haside := (act_aside hx hw hn).1
  have hboth : ∃ e, Accepted e m.cpu m'.cpu ∧ m'.cpu.env = m.cpu.env := by
    cases act_transition hn with
    | begin r s n =>
      obtain ⟨hp, he⟩ := h
      have hd : ∀ b : Or1k σ, b.isInterruptPending = true → b.isExtIrqEnabled = true →
          Accepted .external b b.externalChecked := by
        intro b hp he
        unfold externalChecked
        rw [if_pos hp]
        rcases interrupted_cases (s := b) (e := .external) rfl with ⟨hm, -⟩ | ha
        · have hm : (!b.isExtIrqEnabled) = true := hm
          rw [he] at hm
          cases hm
        · exact ha
      have ha := hd { s with limit := s.cycles + n.toNat } hp he
      have hz : began n s = externalChecked { s with limit := s.cycles + n.toNat } :=
        dozed_awake ha.awake
      refine ⟨.external, ?_, ?_⟩
      · show Accepted .external s (began n s)
        rw [hz]
        exact ⟨ha.async, ha.enabled, ha.taken, ha.nextPc, ha.mode, ha.expc, ha.exsr, ha.jumpInsn,
          ha.jumpTarget, ha.awake⟩
      · show (began n s).env = s.env
        rw [hz]
        exact externalChecked_fixed.2
    | drain s =>
      obtain ⟨-, ht⟩ := h
      rw [drained_cpu] at ht ⊢
      rcases endMini_cases (s := s) with hi | ⟨e, ha⟩
      · exact (ht hi.taken).elim
      · exact ⟨e, ha, externalChecked_fixed.2.trans timerUpdated_fixed.2⟩
    | mini | finish | iterate | throw | leave => cases h.1
    | interrupt => cases h
    | outside r s s' a ha =>
      cases a with
      | call | run => cases ha
      | _ => cases h
  obtain ⟨e, ha, henv⟩ := hboth
  refine ⟨?_, ha.exsr, ha.mode, ha.awake, haside.gpr, haside.ireq ▸ hs.read, by rw [henv]⟩
  rw [ha.expc]
  have hasync := ha.async
  cases e <;> first | rfl | cases hasync

/-- Nothing disturbs the handler: in its mode every interrupt is masked. -/
theorem idles_handles {s : Or1k σ} (h : Handles s m.cpu) (hi : idles m a = true)
    (hn : m.act a = some m') : Handles s m'.cpu := by
  obtain ⟨hw, hb⟩ := idles_outside hi
  have hx : ¬IsIteration ⟨m, a, m'⟩ := not_iteration_of_idles hi
  obtain ⟨ha, hq | ⟨e, hacc⟩⟩ := act_aside hx hw hn
  · obtain ⟨henv, hawake⟩ := act_env hx hw hb h.awake hn
    exact ⟨hq.expc.trans h.expc, hq.exsr.trans h.exsr, hq.status ▸ h.mode, hawake,
      ha.gpr.trans h.gpr, ha.ireq ▸ h.read, henv ▸ h.mem⟩
  · have hm := masked_of_handlerMode h.mode hacc.async
    exact nomatch hm.symm.trans hacc.enabled

/-- Nothing happens behind the handler either, unless an interrupt is accepted. -/
theorem rests_returned {s : Or1k σ} {pc : U32} (h : Returned s pc m.cpu) (hi : rests m a = true)
    (hn : m.act a = some m') : Returned s pc m'.cpu := by
  unfold rests at hi
  rw [Bool.and_eq_true, hn, Option.all_some, decide_eq_true_eq] at hi
  obtain ⟨hi, ht⟩ := hi
  obtain ⟨hw, hb⟩ := idles_outside hi
  have hx : ¬IsIteration ⟨m, a, m'⟩ := not_iteration_of_idles hi
  obtain ⟨ha, hq | ⟨e, hacc⟩⟩ := act_aside hx hw hn
  · obtain ⟨henv, hawake⟩ := act_env hx hw hb h.awake hn
    refine ⟨hq.nextPc.trans h.nextPc, ?_, hq.status.trans h.status, hawake, ha.gpr.trans h.gpr,
      ha.ireq ▸ h.read, henv ▸ h.mem⟩
    rw [hq.jumpInsn, ha.instructions]
    exact h.jumpInsn
  · rw [hacc.taken] at ht
    exact (List.cons_ne_self _ _ ht).elim

theorem fetchExecute_rfe {s f : Or1k σ} {ci : Instruction} (hf : s.fetch = .ok (some ci, f))
    (hr : ci.exec = some .rfe) :
    FetchedInsn s f ∧ s.fetchExecute = f.executeOrbis32Rfe ci := by
  refine ⟨.of_fetch hf, ?_⟩
  rw [fetchExecute_of_fetch hf]
  unfold execute
  rw [hr]

omit [HostLib] in
theorem rfe_ne_throw {f x : Or1k σ} {ci : Instruction} : f.executeOrbis32Rfe ci ≠ .throw x := by
  intro h
  rcases Outcome.bind_eq_throw.1 h with h | ⟨b, -, h⟩
  · exact onCore_ne_throw h
  · rw [setSpr_eq] at h
    cases h

omit [EnvImpl σ] [HostLib] in
/-- A handler may read EPCR and ESR, and write SR. -/
theorem supervises {f : Or1k σ} (h : HandlerMode f.status) :
    f.isSupervisor = true ∧ f.readsSuper = true := by
  have hmode : f.status &&& modeMask = SR.SM &&& modeMask := h.trans (by decide)
  have hsm : f.isSupervisor = true := by
    unfold Core.isSupervisor
    rw [test_congr (by decide) hmode]
    decide
  refine ⟨hsm, ?_⟩
  unfold readsSuper
  rw [hsm]
  rfl

/-- `l.rfe` returns to EPCR and restores the status. -/
theorem rfe_returns (hp : EnvImpl.Honest σ) {s f : Or1k σ} {ci : Instruction}
    (h : Handles s m.cpu) (hz : s.gpr 0 = 0#32) (hfo : s.status ||| SR.FO = s.status)
    (ha : isAligned m.cpu.expc 4 = true) (hx : m.executes = true)
    (hf : m.cpu.beginCycle.fetch = .ok (some ci, f)) (hr : ci.exec = some .rfe)
    (hn : m.next = some m') : Returned s m.cpu.expc m'.cpu := by
  have hread := (fetch_reading hp (s := m.cpu.beginCycle) h.read).1 _ hf
  obtain ⟨hfi, hfe⟩ := fetchExecute_rfe hf hr
  obtain ⟨hexpc, hexsr, hgpr, hpmr, hstat⟩ : f.expc = m.cpu.expc ∧ f.exsr = m.cpu.exsr ∧
      f.gpr = m.cpu.gpr ∧ f.pmr = m.cpu.pmr ∧ f.status = m.cpu.status :=
    ⟨congrArg (·.expc) hfi.eq, congrArg (·.exsr) hfi.eq, congrArg (·.gpr) hfi.eq,
      congrArg (·.pmr) hfi.eq, congrArg (·.status) hfi.eq⟩
  obtain ⟨hsm, hsuper⟩ := supervises (f := f) (hstat ▸ h.mode)
  rcases iteration_cases hx hn with ⟨limit, x, hok, rfl⟩ | ⟨x, hth, rfl⟩
  · rw [hfe] at hok
    obtain ⟨c, hc, rfl⟩ := rfe_ok hok
    have htarget : f.rfeTarget = m.cpu.expc := by
      unfold rfeTarget
      rw [if_pos hsuper, hexpc]
    rw [htarget] at hc
    obtain ⟨-, rfl⟩ | ⟨hna, -, -⟩ := Core.scheduleJump_cases hc
    · have hx : (f.withCore (f.toCore.setJump m.cpu.expc (f.instructions + 0))).rfeRestored =
          { (f.withCore (f.toCore.setJump m.cpu.expc (f.instructions + 0))).requestBreak with
            status := s.status } := by
        unfold rfeRestored
        have hsm' : (f.withCore (f.toCore.setJump m.cpu.expc (f.instructions + 0))).isSupervisor =
            true := hsm
        have hst : (f.withCore (f.toCore.setJump m.cpu.expc (f.instructions + 0))).rfeStatus =
            s.status := by
          unfold rfeStatus
          have hs' : (f.withCore (f.toCore.setJump m.cpu.expc (f.instructions + 0))).readsSuper =
              true := hsuper
          rw [if_pos hs']
          exact hexsr.trans h.exsr
        rw [if_pos hsm', hst]
      rw [retired_cpu, hx]
      generalize hy : ({ (f.withCore (f.toCore.setJump m.cpu.expc (f.instructions + 0))).requestBreak
        with status := s.status } : Or1k σ) = y
      have hpc := redirect_nextPc (x := y)
      obtain ⟨hri, hrj, -, -⟩ := redirect_counters (x := y)
      obtain ⟨hrg, hrs, -, hrr, hre⟩ := redirect_fixed (x := y)
      have hdue : (y.instructions == y.jumpInsn) = true := by
        rw [← hy]
        exact beq_self_eq_true f.instructions
      rw [if_pos hdue] at hpc
      refine ⟨?_, ?_, ?_, ?_, ?_, ?_, ?_⟩
      · rw [hpc, ← hy]
        rfl
      · rw [hri, hrj, ← hy]
        exact Nat.le_refl _
      · rw [hrs, ← hy]
        exact hfo
      · have hp' : y.retire.redirect.pmr = y.pmr := redirect_frame (·.pmr) y fun _ _ _ _ => rfl
        rw [hp', ← hy]
        show test f.pmr PMR.DME = false
        rw [hpmr]
        exact h.awake
      · rw [hrg, ← hy]
        show Function.update f.gpr 0 0#32 = s.gpr
        rw [hgpr, show m.cpu.gpr = s.gpr from h.gpr, ← hz, Function.update_eq_self]
      · rw [hrr, ← hy]
        exact hread.read
      · rw [hre, ← hy]
        exact hread.mem.trans h.mem
    · exact nomatch ha.symm.trans hna
  · exact (rfe_ne_throw (hfe ▸ hth)).elim

/-- The jump is executed again. -/
theorem jump_again (hp : EnvImpl.Honest σ) {s f f' : Or1k σ} {ci : Instruction}
    (hb : Behind ci f s) (hl : ci.relinks = false) (hfo : s.status ||| SR.FO = s.status)
    (h : Returned s s.prevPc m.cpu) (hx : m.executes = true)
    (hf : m.cpu.beginCycle.fetch = .ok (some ci, f')) (hn : m.next = some m') :
    Restored s m'.cpu := by
  obtain ⟨e, he, hj, ht, hg⟩ := hb.jump
  have hread := (fetch_reading hp (s := m.cpu.beginCycle) h.read).1 _ hf
  have hfi : FetchedInsn m.cpu.beginCycle f' := .of_fetch hf
  obtain ⟨hgpr, hstat, hnpc, hins⟩ : f'.gpr = m.cpu.gpr ∧ f'.status = m.cpu.status ∧
      f'.nextPc = m.cpu.nextPc ∧ f'.instructions = m.cpu.instructions + 1 :=
    ⟨congrArg (·.gpr) hfi.eq, congrArg (·.status) hfi.eq, congrArg (·.nextPc) hfi.eq,
      congrArg (·.instructions) hfi.eq⟩
  have hfe : m.cpu.beginCycle.fetchExecute = f'.onCore (f'.toCore.execute e ci) := by
    rw [fetchExecute_of_fetch hf]
    unfold execute
    rw [he]
  have hpc : f'.nextPc = f.nextPc := by rw [hnpc, h.nextPc, hb.prevPc]
  have hgf : f'.toCore.gpr = Function.update (f.toCore.jumpRegs ci e) 0 0#32 := by
    show f'.gpr = _
    rw [hgpr, h.gpr, hg]
  have hflag : test f'.status SR.F = test f.status SR.F := by
    rw [hstat, h.status, hb.status, test_or, show test SR.FO SR.F = false by decide, Bool.or_false]
  have ht' : f'.toCore.takenTarget ci e = some s.jumpTarget := by
    rw [Core.takenTarget_again hb.zero hl hgf hflag hpc]
    exact ht
  rcases iteration_cases hx hn with ⟨limit, x, hok, rfl⟩ | ⟨x, hth, rfl⟩
  · rw [hfe] at hok
    obtain ⟨c, hc, rfl⟩ := onCore_eq_ok.1 hok
    have hc := Core.execute_taken hj hc ht' hb.aligned
    rw [retired_cpu]
    generalize hy : f'.withCore c = y
    have hrpc := redirect_nextPc (x := y)
    obtain ⟨hri, hrj, hrt, -⟩ := redirect_counters (x := y)
    obtain ⟨hrg, hrs, -, -, hre⟩ := redirect_fixed (x := y)
    have hyi : y.instructions = f'.instructions := by rw [← hy, hc]; rfl
    have hyj : y.jumpInsn = f'.instructions + 1 := by rw [← hy, hc]; rfl
    have hne : ¬(y.instructions == y.jumpInsn) = true := by
      rw [hyi, hyj, beq_iff_eq]
      omega
    have hpend : y.retire.redirect.toCore.isJumpInsn = true := by
      rw [isJumpInsn_iff, hri, hrj, hyi, hyj]
    rw [if_neg hne] at hrpc
    refine ⟨?_, ?_, fun _ => ?_, ?_, ?_, ?_⟩
    · rw [hrpc, hb.nextPc, ← hpc, ← hy, hc]
      rfl
    · rw [hpend, isJumpInsn_iff.2 hb.jumpInsn]
    · rw [hrt, ← hy, hc]
      rfl
    · rw [hrg, ← hy, hc, hg]
      exact Core.jumpRegs_again hgf hpc
    · rw [hrs, ← hy, hc]
      show f'.status ||| SR.FO = s.status
      rw [hstat, h.status, hfo]
    · rw [hre, ← hy, hc]
      exact hread.mem.trans h.mem
  · rw [hfe] at hth
    exact (onCore_ne_throw hth).elim

omit [EnvImpl σ] [HostLib] in
theorem isAligned_add_four (pc : U32) : isAligned (pc + 4#32) 4 = isAligned pc 4 := by
  rw [Core.isAligned_four, Core.isAligned_four]
  have h4 : (pc + 4#32) &&& 3#32 = pc &&& 3#32 := by
    apply BitVec.eq_of_toNat_eq
    simp only [BitVec.toNat_and, BitVec.toNat_add, BitVec.toNat_ofNat]
    rw [show 3 % 2 ^ 32 = 2 ^ 2 - 1 by decide, Nat.and_two_pow_sub_one_eq_mod,
      Nat.and_two_pow_sub_one_eq_mod]
    omega
  rw [h4]

/-- An interrupt that `advance` accepts at a word-aligned program counter, and whose handler is a
single `l.rfe`, leaves everything as it was; or control is at the jump before the delay slot, and
executing it again leaves everything as it was. -/
theorem resumes (hp : EnvImpl.Honest σ) {env : Env σ} {size : Nat} {m m₁ m₂ m₃ : Machine σ}
    {g : Last σ} {ci : Instruction} {f : Or1k σ}
    (h : lasting.Steps (fun q a => undisturbed q.1 a = true) (init env size, .refused) (m, g))
    (hg : g ≠ .torn) (ha : isAligned m.cpu.nextPc 4 = true)
    (hn : m.act a = some m₁) (hacc : accepts m a m₁)
    (h₁ : system.Steps (fun m a => idles m a = true) m₁ m₂) (hx : m₂.executes = true)
    (hf : m₂.cpu.beginCycle.fetch = .ok (some ci, f)) (hr : ci.exec = some .rfe)
    (hn₂ : m₂.next = some m₃) :
    (m.cpu.toCore.isJumpInsn = false → Restored m.cpu m₃.cpu) ∧
      (m.cpu.toCore.isJumpInsn = true → ∃ cj fj e, g = .executed cj fj ∧
        cj.exec = some (.core e) ∧ fj.toCore.takenTarget cj e = some m.cpu.jumpTarget ∧
        m₃.cpu.nextPc = fj.nextPc ∧
        (cj.relinks = false → ∀ m₄ m₅ f', system.Steps (fun m a => rests m a = true) m₃ m₄ →
          m₄.executes = true → m₄.cpu.beginCycle.fetch = .ok (some cj, f') →
            m₄.next = some m₅ → Restored m.cpu m₅.cpu)) := by
  have hs : Settled g m.cpu := steps_settled hp h
  have hh : Handles m.cpu m₂.cpu := h₁.invariant (P := fun x => Handles m.cpu x.cpu)
    (fun _ _ _ hh hi hn => idles_handles hh hi hn) (accepts_handles hs hn hacc)
  have hret : isAligned m₂.cpu.expc 4 = true → Returned m.cpu m₂.cpu.expc m₃.cpu := fun hal =>
    rfe_returns hp hh (hs.zero hg) (hs.fixed hg) hal hx hf hr hn₂
  have hexpc := hh.expc
  constructor
  · intro hj
    rw [hj, if_neg Bool.false_ne_true] at hexpc
    have hr := hret (hexpc ▸ ha)
    refine ⟨hr.nextPc.trans hexpc, ?_, fun hjt => ?_, hr.gpr, hr.status, hr.mem⟩
    · rw [hj, ← Bool.not_eq_true, isJumpInsn_iff]
      have := hr.jumpInsn
      omega
    · exact nomatch hj.symm.trans hjt
  · intro hj
    obtain ⟨cj, fj, hgf, hb⟩ := hs.behind hg hj
    rw [if_pos hj] at hexpc
    have hal : isAligned m₂.cpu.expc 4 = true := by
      rw [hexpc, hb.prevPc, ← isAligned_add_four, ← hb.nextPc]
      exact ha
    have hr := hret hal
    rw [hexpc] at hr
    obtain ⟨e, he, -, ht, -⟩ := hb.jump
    refine ⟨cj, fj, e, hgf, he, ht, hr.nextPc.trans hb.prevPc, fun hl m₄ m₅ f' h₄ hx₄ hf₄ hn₄ => ?_⟩
    have hr₄ : Returned m.cpu m.cpu.prevPc m₄.cpu :=
      h₄.invariant (P := fun x => Returned m.cpu m.cpu.prevPc x.cpu)
        (fun _ _ _ hr hi hn => rests_returned hr hi hn) hr
    exact jump_again hp hb hl (hs.fixed hg) hr₄ hx₄ hf₄ hn₄

end Machine

namespace Machine

open Or1k

attribute [local instance] HostLib.plain

/-- A run by the actions `as` to an accepted interrupt, from there by `bs` to the `l.rfe` of its
handler, and one more iteration, evaluated up to a test of the ends. -/
theorem exists_interrupted (m : Machine Memory) (as bs : List (Action Memory))
    (p : Machine Memory × Last Memory → Machine Memory → Machine Memory → Bool)
    (h : ((lasting.runsIf (fun q a => undisturbed q.1 a) as (m, .refused)).any fun q =>
      (q.1.next).any fun m₁ => (system.runsIf idles bs m₁).any fun m₂ => (m₂.next).any fun m₃ =>
        (match q.2 with | .torn => false | _ => true) &&
        decide (q.1.phase = .drain ∧ m₁.cpu.taken ≠ q.1.cpu.taken) && m₂.executes &&
        (match m₂.cpu.beginCycle.fetch with
          | .ok (some ci, _) => decide (ci.exec = some .rfe)
          | _ => false) && p q m₂ m₃) = true) :
    ∃ q m₁ m₂ m₃ ci f, lasting.Steps (fun q a => undisturbed q.1 a = true) (m, .refused) q ∧
      q.2 ≠ .torn ∧ q.1.act .run = some m₁ ∧ accepts q.1 .run m₁ ∧
      system.Steps (fun m a => idles m a = true) m₁ m₂ ∧ m₂.executes = true ∧
      m₂.cpu.beginCycle.fetch = .ok (some ci, f) ∧ ci.exec = some .rfe ∧ m₂.next = some m₃ ∧
      p q m₂ m₃ = true := by
  obtain ⟨q, hr, h⟩ := lasting.exists_steps _ _ _ _ h
  obtain ⟨m₁, h₁, h⟩ := (Option.any_eq_true _ _).1 h
  obtain ⟨m₂, hs, h⟩ := System.exists_steps _ _ _ _ _ h
  obtain ⟨m₃, h₃, h⟩ := (Option.any_eq_true _ _).1 h
  simp only [Bool.and_eq_true, decide_eq_true_eq] at h
  obtain ⟨⟨⟨⟨hg, hacc⟩, hx⟩, hf⟩, hp⟩ := h
  have htorn : q.2 ≠ .torn := by
    intro ht
    rw [ht] at hg
    cases hg
  split at hf
  · rename_i ci f hfe
    exact ⟨q, m₁, m₂, m₃, ci, f, hr, htorn, h₁, hacc, hs, hx, hfe, of_decide_eq_true hf, h₃, hp⟩
  · cases hf

/-- An interrupt behind an `l.mtspr` to NPC of an address that is not word-aligned: `l.rfe`
raises an alignment exception. -/
theorem resumes_fails : ∃ (m m₁ m₂ m₃ : Machine Memory) (g : Last Memory) (ci : Instruction)
    (f : Or1k Memory), lasting.Steps (fun q a => undisturbed q.1 a = true)
      (Memory.boot [(0x100, 0xa8608005#32), (0x104, 0xc0001811#32), (0x108, 0xa8800202#32),
        (0x10c, 0xc0002010#32), (0x800, 0x24000000#32)], .refused) (m, g) ∧
    g ≠ .torn ∧ m.act .run = some m₁ ∧ accepts m .run m₁ ∧
    system.Steps (fun m a => idles m a = true) m₁ m₂ ∧ m₂.executes = true ∧
    m₂.cpu.beginCycle.fetch = .ok (some ci, f) ∧ ci.exec = some .rfe ∧ m₂.next = some m₃ ∧
    m.cpu.toCore.isJumpInsn = false ∧ m₃.cpu.nextPc ≠ m.cpu.nextPc ∧
    m₃.cpu.nextPc ≠ m.cpu.prevPc := by
  obtain ⟨q, m₁, m₂, m₃, ci, f, hr, hg, hn, hacc, hs, hx, hf, he, h₃, hp⟩ := exists_interrupted
    (Memory.boot [(0x100, 0xa8608005#32), (0x104, 0xc0001811#32), (0x108, 0xa8800202#32),
        (0x10c, 0xc0002010#32), (0x800, 0x24000000#32)])
    [.call 10#32, .run, .run, .run, .run, .run, .run, .run, .interrupt 0 true]
    [.interrupt 0 false, .run]
    (fun q _ m₃ => decide (q.1.cpu.toCore.isJumpInsn = false ∧ m₃.cpu.nextPc ≠ q.1.cpu.nextPc ∧
      m₃.cpu.nextPc ≠ q.1.cpu.prevPc))
    (by decide +kernel)
  obtain ⟨hj, hne, hne'⟩ := of_decide_eq_true hp
  exact ⟨q.1, m₁, m₂, m₃, q.2, ci, f, hr, hg, hn, hacc, hs, hx, hf, he, h₃, hj, hne, hne'⟩

/-- An interrupt between `l.j` and its delay slot: `l.rfe` returns to the jump, and the jump
puts back the rest. -/
theorem resumes_jump : ∃ m m₃ m₅ : Machine Memory, m.cpu.toCore.isJumpInsn = true ∧
    m.cpu.nextPc = 0x10c#32 ∧ m₃.cpu.nextPc = 0x108#32 ∧ Restored m.cpu m₅.cpu := by
  obtain ⟨⟨m, g⟩, m₁, m₂, m₃, ci, f, hr, hg, hn, hacc, hs, hx, hf, he, h₃, hp⟩ :=
    exists_interrupted
      (Memory.boot [(0x100, 0xa8608005#32), (0x104, 0xc0001811#32), (0x108, 0x00000002#32),
        (0x800, 0x24000000#32)])
      [.call 3#32, .run, .run, .run, .run, .run, .run, .run, .interrupt 0 true]
      [.run, .interrupt 0 false, .call 3#32, .run]
      (fun q _ m₃ => decide (q.1.cpu.toCore.isJumpInsn = true ∧ q.1.cpu.nextPc = 0x10c#32) &&
        match q.2 with
        | .executed cj fj => decide (cj.relinks = false ∧ fj.nextPc = 0x108#32) &&
          (system.runsIf rests [.run, .run] m₃).any fun m₄ => (m₄.next).isSome && m₄.executes &&
            match m₄.cpu.beginCycle.fetch with
            | .ok (some ci, _) => decide (ci = cj)
            | _ => false
        | _ => false)
      (by decide +kernel)
  dsimp only at hr hg hn hacc hp
  rw [Bool.and_eq_true] at hp
  obtain ⟨hm, hp⟩ := hp
  obtain ⟨hj, hpc⟩ := of_decide_eq_true hm
  split at hp
  · rename_i cj fj
    rw [Bool.and_eq_true] at hp
    obtain ⟨hc, hp⟩ := hp
    obtain ⟨hl, hfj⟩ := of_decide_eq_true hc
    obtain ⟨m₄, h₄, hp⟩ := System.exists_steps _ _ _ _ _ hp
    simp only [Bool.and_eq_true] at hp
    obtain ⟨⟨h₅, hx₄⟩, hf₄⟩ := hp
    obtain ⟨m₅, h₅⟩ := Option.isSome_iff_exists.1 h₅
    split at hf₄
    · rename_i ci' f' hf'
      cases of_decide_eq_true hf₄
      have ha : isAligned m.cpu.nextPc 4 = true := by
        rw [hpc]
        decide
      obtain ⟨c, fc, e, hce, -, -, hback, hagain⟩ :=
        (resumes Memory.honest hr hg ha hn hacc hs hx hf he h₃).2 hj
      cases hce
      exact ⟨m, m₃, m₅, hj, hpc, hback.trans hfj, hagain hl m₄ m₅ f' h₄ hx₄ hf' h₅⟩
    · cases hf₄
  · cases hp

end Machine

end Or1kiss
