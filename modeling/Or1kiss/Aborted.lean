import Or1kiss.Delay
import Or1kiss.Port

/-!
# Loads and stores that raise an exception

`transact` has four ways into an exception, all of them before anything is charged. What the
access leaves is the state it found, except for the watchpoint event, the data MMU and the
exception itself (`Failed`): the bytes of the register come back from the port as they were.
`jumping` follows the address of the jump whose delay slot comes next; EPCR is that address
in a delay slot, and the address of the instruction elsewhere.
-/

namespace Or1kiss

open Host Bits Runs DelaySlot

variable {σ : Type}

/-- The exceptions of a data access. -/
def ExType.isData : ExType → Bool
  | .dataAlignment | .dataTlbMiss | .dataPageFault | .dataBusError => true
  | _ => false

theorem ExType.isData_sync {t : ExType} (h : t.isData = true) : t.isAsync = false := by
  cases t <;> first | rfl | cases h

namespace Core

/-! ## The way into an exception -/

variable {c x : Core σ} {req : Request} {r : Access σ} {ci : Instruction}

/-- What `transact` leaves when it raises an exception. -/
structure Failed (c : Core σ) (req : Request) (r : Access σ) : Prop where
  done : r.done = false
  stall : r.stall = 0
  data : r.req.data = req.data
  size : r.req.size = req.size
  core : ∃ (t : ExType) (addr : U32) (w : WatchpointEvent) (d : Mmu) (e : Env σ),
    t.isData = true ∧ e.world.mem = c.env.world.mem ∧ e.hostEndian = c.env.hostEndian ∧
      r.core = entered { c with wpEvent := w, dmmu := d, env := e } t addr

theorem abort_failed {t : ExType} {w : WatchpointEvent} {d : Mmu} {e : Env σ} {req' : Request}
    (h : abort t req' { c with wpEvent := w, dmmu := d, env := e } = .ok r) (ht : t.isData = true)
    (hm : e.world.mem = c.env.world.mem) (he : e.hostEndian = c.env.hostEndian)
    (hd : req'.data = req.data) (hs : req'.size = req.size) : Failed c req r := by
  obtain ⟨x, hx, rfl⟩ := Outcome.lift_eq_ok.1 h
  obtain ⟨hm', -⟩ | ⟨-, -, rfl⟩ := exception_ok hx
  · rw [masked_of_sync _ (ExType.isData_sync ht)] at hm'
    cases hm'
  · exact ⟨rfl, rfl, hd, hs, t, req'.addr, w, d, e, ht, hm, he, rfl⟩

theorem complete_taken (c : Core σ) (req : Request) : (c.complete req).core.taken = c.taken := by
  unfold complete
  split <;> rfl

theorem entered_fields {t : ExType} (ht : t.isAsync = false) (addr : U32) (c : Core σ) :
    (c.entered t addr).toRegs = c.toRegs ∧ (c.entered t addr).cycles = c.cycles ∧
      (c.entered t addr).taken = t :: c.taken ∧ (c.entered t addr).expc = c.exceptionPc t ∧
        (c.entered t addr).env = c.env := by
  unfold entered
  rw [ht]
  exact ⟨rfl, rfl, rfl, rfl, rfl⟩

variable [EnvImpl σ]

/-- An access that reaches the port raises an exception only if the port fails. -/
theorem send_failed {w : WatchpointEvent} {d : Mmu} {e : Env σ} {req' : Request}
    (h : send req' { c with wpEvent := w, dmmu := d, env := e } = .ok r)
    (ht : r.core.taken ≠ c.taken) (hp : EnvImpl.Honest σ) (hm : e.world.mem = c.env.world.mem)
    (he : e.hostEndian = c.env.hostEndian) (hd : req'.data = req.data) (hs : req'.size = req.size)
    (hn : req.size = 1 ∨ req.size = 2 ∨ req.size = 4 ∨ req.size = 8)
    (hl : req.data.length = req.size) : Failed c req r := by
  rw [← hs] at hn
  rw [← hd, ← hs] at hl
  have herr := fun h => @Env.convertAndTransact_error _ e req' _ hp hn hl h
  have hserved := @Env.convertAndTransact_served _ e _ req'
  obtain ⟨data, n, hans⟩ := Env.convertAndTransact_answers e req'
  unfold send at h
  generalize e.convertAndTransact req' = q at h herr hserved hans
  obtain ⟨resp, q, e'⟩ := q
  dsimp only at h herr hserved hans
  cases resp with
  | error =>
    obtain ⟨hdata, hmem⟩ := herr rfl
    obtain ⟨world, a, x, rfl⟩ := hserved
    refine abort_failed h rfl (hmem.trans hm) he (hdata.trans hd) ?_
    rw [hans]
    exact hs
  | failed =>
    dsimp only at h
    split at h
    · cases h
    · cases h
      exact (ht (complete_taken _ _)).elim
  | success =>
    cases h
    refine (ht ?_).elim
    rw [complete_taken]
    split <;> rfl

/-- The four failure points. -/
theorem transact_failed (hp : EnvImpl.Honest σ)
    (hn : req.size = 1 ∨ req.size = 2 ∨ req.size = 4 ∨ req.size = 8)
    (hl : req.data.length = req.size) (h : c.transact req = .ok r)
    (ht : r.core.taken ≠ c.taken) : Failed c req r := by
  obtain ⟨w, hw⟩ := c.checkWatchpoints_eq (c.dataRequest req)
  unfold transact at h
  dsimp only at h
  rw [hw] at h
  split at h
  · exact abort_failed h rfl rfl rfl rfl rfl
  · unfold translateSend translateData at h
    by_cases ha : c.isDmmuActive = true
    · rw [if_pos (show isDmmuActive { c with wpEvent := w } = true from ha)] at h
      have hr := Mmu.translate_fields c.dmmu c.env (c.dataRequest req)
      have hmem := Mmu.translate_mem c.dmmu c.env (c.dataRequest req) hp
      have hserved := Mmu.translate_served c.dmmu c.env (c.dataRequest req)
      dsimp only at h
      generalize c.dmmu.translate c.env (c.dataRequest req) = q at h hr hmem hserved
      obtain ⟨res, d, e, q⟩ := q
      dsimp only at h hr hmem hserved
      have he : e.hostEndian = c.env.hostEndian := by
        obtain ⟨_, _, _, rfl⟩ := hserved
        rfl
      cases res with
      | tlbMiss => exact abort_failed h rfl hmem he hr.data hr.size
      | pageFault => exact abort_failed h rfl hmem he hr.data hr.size
      | okay => exact send_failed h ht hp hmem he hr.data hr.size hn hl
    · rw [if_neg (show ¬ isDmmuActive { c with wpEvent := w } = true from ha)] at h
      exact send_failed h ht hp rfl rfl rfl rfl hn hl

/-- What a load or store leaves when it raises an exception. -/
structure Spared (c x : Core σ) : Prop where
  gpr : x.gpr = c.gpr
  mem : x.env.world.mem = c.env.world.mem
  cycles : x.cycles = c.cycles
  taken : ∃ t, t.isData = true ∧ x.taken = t :: c.taken
  expc : x.expc = if c.isDelayInsn then c.prevPc else c.nextPc

omit [EnvImpl σ] in
theorem exceptionPc_isData {t : ExType} (ht : t.isData = true) :
    c.exceptionPc t = if c.isDelayInsn then c.prevPc else c.nextPc := by
  cases t <;> first | rfl | cases ht

/-- The bytes that were taken from a register, written back to it. -/
theorem overlay_take (old : List U8) (n : Nat) : overlay old (old.take n) n = old := by
  have hk : min n (old.take n).length = min n old.length := by
    rw [List.length_take]
    omega
  have hm : min (min n old.length) n = min n old.length := by omega
  unfold overlay
  dsimp only
  rw [hk, List.take_take, hm, List.take_append_drop]

theorem accessMemory_spared {read excl : Bool} {size n : Nat} {post : U32 → U32} {buf : Operand}
    (hp : EnvImpl.Honest σ) (hn : size = 1 ∨ size = 2 ∨ size = 4)
    (h : accessMemory read excl size post buf ci c = .ok (n, x)) (ht : x.taken ≠ c.taken) :
    n = 0 ∧ Spared c x := by
  obtain ⟨a, ha, h⟩ := Outcome.bind_eq_ok.1 h
  obtain ⟨v, hv, h⟩ := Outcome.bind_eq_ok.1 h
  have hv := Outcome.widen_eq_ok.1 hv
  cases buf with
  | null | imm => cases h
  | reg i =>
    by_cases hi : i < 32
    · have hv : v = c.gpr ⟨i, hi⟩ := by
        simp only [deref, dif_pos hi] at hv
        cases hv
        rfl
      simp only [dif_pos hi] at h
      obtain ⟨r, hr, hx⟩ := Outcome.lift_eq_ok.1 h
      obtain ⟨rfl, rfl⟩ := Prod.mk.inj hx
      have htaken : r.core.taken ≠ c.taken := by
        intro he
        apply ht
        rw [← he]
        split <;> rfl
      have hl : ((bytesOf c.env.hostEndian v).take size).length = size := by
        rw [List.length_take, length_bytesOf]
        omega
      have hf := transact_failed hp (by dsimp only; omega) hl hr htaken
      obtain ⟨t, addr, w, d, e, hd, hm, he, hc⟩ := hf.core
      have hdata : r.req.data = (bytesOf c.env.hostEndian v).take size := hf.data
      have hsize : r.req.size = size := hf.size
      rw [hf.done, Bool.false_and, if_neg Bool.false_ne_true]
      obtain ⟨hregs, hcycles, htk, hexpc, henv⟩ := entered_fields (ExType.isData_sync hd) addr
        { c with wpEvent := w, dmmu := d, env := e }
      refine ⟨hf.stall, ?_, ?_, ?_, ⟨t, hd, ?_⟩, ?_⟩
      · -- the port gave back the bytes of the register
        have hg : r.core.gpr = c.gpr := by
          rw [hc]
          exact congrArg Regs.gpr hregs
        have hh : r.core.env.hostEndian = c.env.hostEndian := by
          rw [hc, henv]
          exact he
        show Function.update r.core.gpr ⟨i, hi⟩ _ = c.gpr
        rw [hdata, hsize, hg, hh, hv, overlay_take, ofBytes_bytesOf, Function.update_eq_self]
      · show r.core.env.world.mem = _
        rw [hc, henv]
        exact hm
      · show r.core.cycles = _
        rw [hc, hcycles]
      · show r.core.taken = _
        rw [hc, htk]
      · show r.core.expc = _
        rw [hc, hexpc, exceptionPc_isData hd]
        rfl
    · simp only [dif_neg hi] at h
      cases h

/-- A load or store that raises an exception changes no register and no memory and charges no
stall cycles. -/
theorem executeMem_spared {e : MemExec} {n : Nat} (hp : EnvImpl.Honest σ)
    (h : c.executeMem e ci = .ok (n, x)) (ht : x.taken ≠ c.taken) : n = 0 ∧ Spared c x := by
  rw [executeMem_access] at h
  exact accessMemory_spared hp e.size_cases h ht

end Core

/-! ## The restart address -/

/-- A debugger writes a register. -/
def Action.writesRegister : Action σ → Bool
  | .writeSpr _ _ | .writeGpr _ _ => true
  | _ => false

namespace Or1k

variable [EnvImpl σ] [HostLib] {s x : Or1k σ}

/-- The instruction at the program counter is an `l.nop` that changes the instruction counter. -/
def recounts (s : Or1k σ) : Bool :=
  match s.fetch with
  | .ok (some ci, _) =>
    ci.exec == some .nop && (ci.imm == 0x1#32 || ci.imm == 0x5#32 || ci.imm == 0xc#32)
  | _ => false

omit [HostLib] in
theorem countsOn_of_not_recounts (h : s.recounts = false) : s.countsOn = true := by
  unfold recounts at h
  unfold countsOn
  split
  · rename_i ci f hf
    rw [hf] at h
    have hc : counted ci s.instructions = s.instructions := by
      unfold counted
      split
      · rename_i he
        simp only [he, BEq.rfl, Bool.true_and, Bool.or_eq_false_iff, beq_eq_false_iff_ne] at h
        have hne : ∀ k : Nat, k < 2 ^ 32 → ci.imm ≠ BitVec.ofNat 32 k → ci.imm.toNat ≠ k :=
          fun k hk hi hn => hi (by rw [← hn, BitVec.ofNat_toNat, BitVec.setWidth_eq])
        have h1 := hne 0x1 (by decide) h.1.1
        have h5 := hne 0x5 (by decide) h.1.2
        have hc := hne 0xc (by decide) h.2
        split
        · exact (h1 ‹_›).elim
        · exact (hc ‹_›).elim
        · exact (h5 ‹_›).elim
        · rfl
      · rfl
    rw [hc]
    simp
  · rfl

theorem event_ne_idle : s.event ≠ .idle := by
  unfold event
  split
  · split
    · unfold control
      split
      · split <;> nofun
      · nofun
      · split
        · split <;> nofun
        · nofun
      · nofun
    · nofun
  · nofun

/-- A jump leaves the program counter to its delay slot. -/
theorem fetchExecute_jump {target : U32} (h : s.fetchExecute = .ok x)
    (he : s.event = .jump target) : x.nextPc = s.nextPc := by
  obtain ⟨ci, f, hf, hfi, hx⟩ | ⟨hf, -⟩ := fetchExecute_ok h
  · have hs := hfi.sameCounters
    unfold event at he
    rw [h, hf] at he
    dsimp only at he
    split at he
    · rename_i ht
      cases executed_steered hx with
      | plain hc => exact nomatch hc.symm.trans he
      | jump target hc ht hn => exact hn.trans hs.nextPc
      | elsewhere hc => exact nomatch (hc (ht.trans hs.taken.symm)).symm.trans he
    · cases he
  · unfold event at he
    rw [h, hf] at he
    cases he

end Or1k

namespace Machine

open Or1k

variable [EnvImpl σ] [HostLib] {m m' : Machine σ} {a : Action σ} {g : Option U32}

/-- The address of the taken jump whose delay slot comes next. -/
def jumpAfter (g : Option U32) (st : Move (Machine σ) (Action σ)) : Option U32 :=
  match event st with
  | .jump _ => some st.pre.cpu.nextPc
  | .plain | .elsewhere => none
  | .idle => g

/-- The simulator with the address of that jump. -/
abbrev jumping : System (Machine σ × Option U32) (Action σ) := system.watch jumpAfter

/-- No debugger writes a register, and no `l.nop` changes the instruction counter. -/
def undisturbed (m : Machine σ) (a : Action σ) : Bool :=
  !a.writesRegister && !(m.executes && m.cpu.beginCycle.recounts)

/-- The counters and the previous program counter agree with the jump. -/
def Follows (g : Option U32) (s : Or1k σ) : Prop :=
  ∃ due : Option U32, due.isSome = g.isSome ∧ Delayed due s ∧ Bounded due s ∧
    ∀ pc, g = some pc → s.prevPc = pc

omit [HostLib] in
theorem outside_prevPc {s s' : Or1k σ} (h : outside s a = .ok s') (hw : a.writesRegister = false) :
    s'.prevPc = s.prevPc := by
  cases outside_ok h with
  | writeSpr reg val => cases hw
  | writeGpr | world | setUp => rfl

theorem act_prevPc (hx : ¬IsIteration ⟨m, a, m'⟩) (hn : m.act a = some m')
    (hw : a.writesRegister = false) : m'.cpu.prevPc = m.cpu.prevPc := by
  cases act_transition hn with
  | begin r s n => exact began_steady.prevPc
  | mini | finish | leave => rfl
  | iterate limit s x hl hfe | throw limit s x hl hfe =>
    exact (hx ⟨rfl, by simpa [executes] using hl⟩).elim
  | drain s =>
    rw [drained_cpu]
    exact (timerUpdated_steady.trans externalChecked_steady).prevPc
  | interrupt p s id set =>
    obtain ⟨v, he⟩ := s.toCore.interrupt_eq id set
    rw [he]
    rfl
  | outside r s s' a ha h => exact outside_prevPc h hw

/-- What a step leaves in the previous program counter, where it matters. -/
theorem step_prevPc (hn : m.act a = some m') (hw : a.writesRegister = false)
    (hg : ∀ pc, g = some pc → m.cpu.prevPc = pc) :
    ∀ pc, jumpAfter g ⟨m, a, m'⟩ = some pc → m'.cpu.prevPc = pc := by
  intro pc hpc
  by_cases hx : IsIteration ⟨m, a, m'⟩
  · obtain ⟨ha, hx⟩ := hx
    dsimp only at ha hx
    subst ha
    rcases iteration_cases hx hn with ⟨limit, x, hf, rfl⟩ | ⟨x, hf, rfl⟩
    · have hev := event_of_retired limit hx hf
      unfold jumpAfter at hpc
      rw [hev] at hpc
      split at hpc
      · rename_i target he
        cases hpc
        have hprev : (retired limit x).cpu.prevPc = x.nextPc := by
          rw [retired_cpu]
          unfold redirect
          split <;> rfl
        rw [hprev]
        have hj : x.nextPc = m.cpu.beginCycle.nextPc := fetchExecute_jump hf he
        exact hj
      · cases hpc
      · cases hpc
      · rename_i he
        exact (event_ne_idle he).elim
    · unfold jumpAfter at hpc
      rw [event_of_throw hx hf] at hpc
      cases hpc
  · rw [act_prevPc hx hn hw]
    unfold jumpAfter at hpc
    rw [event_of_not_iteration hx] at hpc
    split at hpc
    · rename_i target he
      split at he
      · cases he
      · split at he <;> cases he
    · cases hpc
    · cases hpc
    · exact hg pc hpc

theorem isSome_jumpAfter {due : Option U32} (h : due.isSome = g.isSome)
    (st : Move (Machine σ) (Action σ)) : (slotAfter due st).isSome = (jumpAfter g st).isSome := by
  unfold slotAfter jumpAfter
  cases event st with
  | plain | elsewhere | jump => rfl
  | idle => exact h

theorem step_follows {q q' : Machine σ × Option U32} (hn : jumping.next q a = some q')
    (hu : undisturbed q.1 a = true) (hf : Follows q.2 q.1.cpu) : Follows q'.2 q'.1.cpu := by
  obtain ⟨m, g⟩ := q
  obtain ⟨m', hm, rfl⟩ := System.watch_next hn
  obtain ⟨due, hs, hd, hb, hp⟩ := hf
  dsimp only at hm hs hd hb hp hu ⊢
  simp only [undisturbed, Bool.and_eq_true, Bool.not_eq_true', Bool.and_eq_false_iff] at hu
  obtain ⟨hw, hu⟩ := hu
  have hnext : delayed.next (m, due) a = some (m', slotAfter due ⟨m, a, m'⟩) :=
    System.next_watch slotAfter hm
  have hc : CountsOn ⟨(m, due), a, (m', slotAfter due ⟨m, a, m'⟩)⟩ := by
    constructor
    · rintro ⟨-, hx⟩
      rcases hu with hu | hu
      · exact nomatch hu.symm.trans hx
      · exact countsOn_of_not_recounts hu
    · show a.writesNpc = false
      cases a <;> first | rfl | cases hw
  exact ⟨_, isSome_jumpAfter hs _, (step_lawful hnext hd).1, step_bounded hnext hc hb,
    step_prevPc hm hw hp⟩

omit [EnvImpl σ] [HostLib] in
/-- What the counters say of an instruction that has been fetched. -/
theorem Follows.restart {f : Or1k σ} (h : Follows g m.cpu)
    (hf : FetchedInsn m.cpu.beginCycle f) :
    (if f.toCore.isDelayInsn then f.prevPc else f.nextPc) = g.getD m.cpu.nextPc := by
  obtain ⟨due, hs, hd, hb, hp⟩ := h
  have hc := hf.sameCounters
  have hprev : f.prevPc = m.cpu.prevPc := congrArg (·.prevPc) hf.eq
  have hnext : f.nextPc = m.cpu.nextPc := hc.nextPc
  have hi : f.instructions = m.cpu.instructions + 1 := hc.instructions
  have hj : f.jumpInsn = m.cpu.jumpInsn := hc.jumpInsn
  cases g with
  | none =>
    have hnone : due = none := Option.not_isSome_iff_eq_none.1 (by simp [hs])
    have hle := hb.2 hnone
    have hnd : f.toCore.isDelayInsn = false := by
      unfold Core.isDelayInsn
      rw [beq_eq_false_iff_ne]
      omega
    rw [hnd, if_neg Bool.false_ne_true]
    exact hnext
  | some pc =>
    obtain ⟨target, ht⟩ := Option.isSome_iff_exists.1 (hs.trans rfl)
    have hdelay : f.toCore.isDelayInsn = true := by
      unfold Core.isDelayInsn
      rw [beq_iff_eq, hi, hj, (hd target ht).1]
    rw [if_pos hdelay, hprev]
    exact hp pc rfl

theorem run_follows {env : Env σ} {size : Nat} {q : Machine σ × Option U32}
    (h : jumping.Steps (fun q a => undisturbed q.1 a = true) (init env size, none) q) :
    Follows q.2 q.1.cpu := by
  have hd : Delayed none (init env size).cpu := nofun
  have hb : Bounded none (init env size).cpu := ⟨Nat.zero_le _, fun _ => Nat.le_refl _⟩
  have h0 : Follows none (init env size).cpu := ⟨none, rfl, hd, hb, nofun⟩
  exact h.invariant (P := fun q => Follows q.2 q.1.cpu)
    (fun _ _ _ hq ha hn => step_follows hn ha hq) h0

/-- A load or store that raises an exception leaves the registers, memory and the time as they
were, in every state; along a run, EPCR is its address, or that of the jump before it. -/
theorem aborts_precisely (hp : EnvImpl.Honest σ) :
    (∀ (s x : Or1k σ) (ci : Instruction) (e : MemExec), ci.exec = some (.mem e) →
      s.execute ci = .ok x → x.taken ≠ s.taken →
        (∃ t, t.isData = true ∧ x.taken = t :: s.taken) ∧ x.gpr = s.gpr ∧
          x.env.world.mem = s.env.world.mem ∧ x.cycles = s.cycles ∧ x.limit = s.limit) ∧
    ∀ (env : Env σ) (size : Nat) (m : Machine σ) (g : Option U32),
      jumping.Steps (fun q a => undisturbed q.1 a = true) (init env size, none) (m, g) →
      ∀ (f x : Or1k σ) (ci : Instruction) (e : MemExec),
        m.cpu.beginCycle.fetch = .ok (some ci, f) → ci.exec = some (.mem e) →
          f.execute ci = .ok x → x.taken ≠ f.taken → x.expc = g.getD m.cpu.nextPc := by
  have hspared : ∀ (s x : Or1k σ) (ci : Instruction) (e : MemExec), ci.exec = some (.mem e) →
      s.execute ci = .ok x → x.taken ≠ s.taken → Core.Spared s.toCore x.toCore ∧
        x.limit = s.limit := by
    intro s x ci e he h ht
    obtain ⟨n, hm, hl⟩ := execute_mem he h
    obtain ⟨rfl, hs⟩ := Core.executeMem_spared hp hm ht
    exact ⟨hs, hl⟩
  constructor
  · intro s x ci e he h ht
    obtain ⟨hs, hl⟩ := hspared s x ci e he h ht
    exact ⟨hs.taken, hs.gpr, hs.mem, hs.cycles, hl⟩
  · intro env size m g hr f x ci e hf he h ht
    exact (hspared f x ci e he h ht).1.expc.trans ((run_follows hr).restart (.of_fetch hf))

end Machine

/-- The simulator's memory refuses an access before it looks at the data. -/
theorem Memory.honest : EnvImpl.Honest Memory := by
  constructor
  · intro req w h
    change (Memory.transact req w).resp = .error at h
    show (Memory.transact req w).data = _ ∧ (Memory.transact req w).world.mem = _
    unfold Memory.transact at h ⊢
    split
    · exact ⟨rfl, rfl⟩
    · rename_i hs
      rw [if_neg hs] at h
      dsimp only at h
      split at h <;> cases h
  · intro req w hr
    show (Memory.transact req w).world.mem = _
    unfold Memory.transact
    simp only [hr, if_true]
    split <;> rfl

namespace Machine

attribute [local instance] HostLib.plain

/-- A misaligned `l.lwz` in the delay slot of `l.j`. -/
theorem aborts_precisely_lwz : ∃ (m : Machine Memory) (f x : Or1k Memory) (ci : Instruction),
    m.cpu.beginCycle.fetch = .ok (some ci, f) ∧ f.execute ci = .ok x ∧
      (∃ t, t.isData = true ∧ x.taken = t :: f.taken) ∧ x.gpr = f.gpr ∧
        x.env.world.mem = f.env.world.mem ∧ m.cpu.nextPc = 0x104#32 ∧ x.expc = 0x100#32 := by
  obtain ⟨⟨m, g⟩, hr, hq⟩ := System.exists_steps jumping (fun q a => undisturbed q.1 a)
    (Memory.boot [(0x100, 0x2#32), (0x104, 0x84600001#32)], none) [.call 10#32, .run, .run]
    (fun q => decide (q.2 = some 0x100#32 ∧ q.1.cpu.nextPc = 0x104#32) &&
      q.1.cpu.beginCycle.fetch.value?.any fun r => r.1.any fun ci =>
        decide (ci.exec = some (.mem .lw)) &&
          (r.2.execute ci).value?.any fun x => decide (x.taken ≠ r.2.taken))
    (by decide +kernel)
  rw [Bool.and_eq_true, decide_eq_true_eq] at hq
  obtain ⟨⟨hg, hpc⟩, hq⟩ := hq
  dsimp only at hg hpc
  obtain ⟨⟨i, f⟩, hf, hq⟩ := (Option.any_eq_true _ _).1 hq
  obtain ⟨ci, hi, hq⟩ := (Option.any_eq_true _ _).1 hq
  rw [Bool.and_eq_true, decide_eq_true_eq] at hq
  obtain ⟨he, hq⟩ := hq
  obtain ⟨x, hx, hq⟩ := (Option.any_eq_true _ _).1 hq
  have ht := of_decide_eq_true hq
  have hi : i = some ci := hi
  subst hi
  have hf := Outcome.value?_eq_some.1 hf
  have hx := Outcome.value?_eq_some.1 hx
  obtain ⟨hstate, hrun⟩ := aborts_precisely Memory.honest
  obtain ⟨htaken, hgpr, hmem, -, -⟩ := hstate f x ci _ he hx ht
  refine ⟨m, f, x, ci, hf, hx, htaken, hgpr, hmem, hpc, ?_⟩
  rw [hrun _ _ m g hr f x ci _ hf he hx ht, hg]
  rfl

end Machine

end Or1kiss
