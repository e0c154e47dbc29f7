import Or1kiss.LoadStore
import Or1kiss.Budget
import Or1kiss.CodeWrites
import Or1kiss.DirectPath
import Or1kiss.Resume

/-!
# Runs and the instruction set

A run of the simulator on its memory follows the instruction set: with translation, interrupts and
the range exception off, its iterations are the instructions of the program in memory, one by one,
whatever calls, quanta, breakpoints, watchpoints, interrupt lines and sleep make of it
(`run_refines`). `Represents` is the relation between the two levels. A decode cache is on as long as
the program does not write the code that it executes (`Coded`).
-/

namespace Or1kiss

open Host Bits Outcome Isa DelaySlot Runs

variable {σ : Type} {room : Nat} {text : Option (U32 → Prop)} {v v' : Data} {k : Kind} {t : Option U32}
  {ops : Operands}

/-! ## Opcodes -/

namespace Opcode

variable {op : Opcode}

theorem executor_of_kind (h : op.kind = some k) : (∃ e, op.executor = some (.core e)) ∨
    (∃ e, op.executor = some (.mem e)) ∨ (op.executor = some .nop ∧ k = .request) := by
  cases op <;> cases h
  case orbis32Nop => exact .inr (.inr ⟨rfl, rfl⟩)
  all_goals first
    | exact .inl ⟨_, rfl⟩
    | exact .inr (.inl ⟨_, rfl⟩)

/-- The decoder supports what has a kind. -/
theorem supported_of_kind (h : op.kind = some k) : ¬(op = .invalidOpcode ∨ op = .orbis32Cust1) ∧
    ∃ handler, decodeTable op = some handler := by
  refine ⟨?_, ?_⟩
  · rintro (rfl | rfl) <;> cases h
  · cases op <;> cases h <;> exact ⟨_, rfl⟩

end Opcode

/-- The handler of a supported word binds the operands that the instruction set says. -/
theorem operands_sound {op : Opcode} {fmt : Format} {f : Fields} {handler : U32 → Instruction → Instruction}
    (hk : op.kind = some k) (hf : op.format = some fmt) (hh : decodeTable op = some handler)
    (hs : k.Sound (fmt.operands f) v) (addr : U32) :
    (handler (fmt.encode f) (.blank addr (fmt.encode f))).operands = fmt.operands f := by
  by_cases hm : op = .orbis32Macrc
  · subst hm
    cases hk
    cases hf
    cases hh
    have hd : f.d.toNat = 0 := Operand.reg.inj (show Operand.reg f.d.toNat = .reg 0 from hs)
    rw [macrc_operands, hd, Nat.mul_zero]
    exact congrArg (fun n => Operands.mk (.reg n) .null .null 0#32) hd.symm
  · exact operands_encode hf hh hm f addr

/-- A decoded instruction has the executor of its opcode, and its operands. -/
theorem Instruction.Full.decodes {ci : Instruction} {op : Opcode} {fmt : Format} {f : Fields}
    (h : ci.Full) (hw : ci.insn = fmt.encode f) (hk : op.kind = some k) (hf : op.format = some fmt)
    (hs : k.Sound (fmt.operands f) v) : ci.exec = op.executor ∧ ci.operands = fmt.operands f := by
  obtain ⟨-, handler, hh, hci⟩ := h
  rw [hw, decode_encode hf] at hh
  rw [hw] at hci
  rw [hci]
  exact ⟨exec_handler hh _ _, operands_sound hk hf hh hs _⟩

/-! ## Memory -/

namespace Isa

@[simp] theorem Data.write_mem (op : Operand) (x : U32) : (v.write op x).mem = v.mem := by
  cases op <;> rfl

theorem Kind.goOn_mem {w : Data} (h : Kind.goOn w = some (v', t)) (hm : w.mem = v.mem) :
    v'.mem = v.mem := by
  cases h
  exact hm

/-- An instruction leaves memory alone, or writes the bytes that it says. -/
theorem Kind.act_mem {pc : U32} (h : k.act room pc ops v = some (v', t)) : v'.mem = v.mem ∨
    ∃ addr n x, k.writes ops v = some (addr, n) ∧
      v'.mem = writeBytes v.mem addr.toNat ((bytesOf .big x).drop (4 - n)) := by
  cases k with
  | store n =>
    dsimp only [Kind.act] at h
    split at h
    · cases h
      exact .inr ⟨_, n, _, rfl, rfl⟩
    · cases h
  | multiply signed | product signed => cases signed <;> exact .inl (goOn_mem h (by simp))
  | divide signed =>
    cases signed <;> dsimp only [Kind.act] at h <;> split_ifs at h <;>
      exact .inl (goOn_mem h (by simp))
  | accumulate k =>
    dsimp only [Kind.act] at h
    split at h <;> exact .inl (goOn_mem h (by simp))
  | request | load n signed =>
    dsimp only [Kind.act] at h
    split_ifs at h
    exact .inl (goOn_mem h (by simp))
  | branch on =>
    dsimp only [Kind.act] at h
    split at h
    · obtain ⟨a, -, he⟩ := Option.map_eq_some_iff.1 h
      cases he
      exact .inl rfl
    · exact .inl (goOn_mem h rfl)
  | jump relative =>
    obtain ⟨a, -, he⟩ := Option.map_eq_some_iff.1 h
    cases he
    exact .inl (Data.write_mem _ _)
  | _ => exact .inl (goOn_mem h (by simp))

/-- A word that an instruction does not write. -/
theorem Kind.act_loaded {pc p : U32} (h : k.act room pc ops v = some (v', t))
    (hw : ∀ addr n, k.writes ops v = some (addr, n) →
      p.toNat + 4 ≤ addr.toNat ∨ addr.toNat + n ≤ p.toNat) : v'.loaded p 4 = v.loaded p 4 := by
  unfold Data.loaded
  rcases Kind.act_mem h with hm | ⟨addr, n, x, ha, hm⟩
  · rw [hm]
  · have hd := hw addr n ha
    have hl : ((bytesOf .big x).drop (4 - n)).length = 4 - (4 - n) := by
      rw [List.length_drop, length_bytesOf]
    rw [hm, readBytes_congr fun b h1 h2 => writeBytes_of_not_mem (by rw [hl]; omega)]

end Isa

/-! ## The two levels -/

/-- The start of a program. -/
def Isa.start (image : Nat → U8) : Isa.State :=
  { pc := ExType.reset.vector, due := none,
    data := { gpr := fun _ => 0#32, flag := false, carry := false, overflow := false, acc := 0#64,
              mem := image } }

/-- A slot that was used holds the instruction at its address, which is code. -/
structure Instruction.Copies (T : U32 → Prop) (v : Data) (ci : Instruction) : Prop where
  full : ci.Full
  code : T ci.addr
  insn : ci.insn = v.loaded ci.addr 4

/-- The decode cache is off, or holds code of the program as it is in memory. -/
def DecodeCache.Coded (text : Option (U32 → Prop)) (v : Data) (d : DecodeCache) : Prop :=
  match text with
  | none => d.isOff = true
  | some T => ∀ i, d.slots i = .invalid ∨ (d.slots i).Copies T v

theorem DecodeCache.Coded.keep {d : DecodeCache} (h : d.Coded text v)
    (hw : ∀ T, text = some T → ∀ p, T p → v'.loaded p 4 = v.loaded p 4) : d.Coded text v' := by
  cases text with
  | none => exact h
  | some T =>
    intro i
    rcases h i with hi | hc
    · exact .inl hi
    · exact .inr ⟨hc.full, hc.code, hc.insn.trans (hw T rfl _ hc.code).symm⟩

theorem DecodeCache.Coded.store {d : DecodeCache} {ci : Instruction} (h : d.Coded text v)
    (addr : U32) (hc : ∀ T, text = some T → ci.Copies T v) : (d.store addr ci).Coded text v := by
  cases text with
  | none => exact h
  | some T =>
    exact forall_store (P := fun ci => ci = .invalid ∨ ci.Copies T v) h addr (.inr (hc T rfl))

namespace Or1k

variable {s x : Or1k Memory} {A B : Isa.State}

/-- The simulator is where the program is: what it sees, control with its delay slot, and nothing
that interferes. -/
structure Represents (room : Nat) (text : Option (U32 → Prop)) (s : Or1k Memory) (A : Isa.State) :
    Prop where
  data : s.toCore.view = A.data
  pc : s.nextPc = A.pc
  due : A.due = if s.jumpInsn = s.instructions + 1 then some s.jumpTarget else none
  bounded : s.jumpInsn ≤ s.instructions + 1
  direct : s.toCore.Direct room
  quiet : s.status &&& Core.switches = 0#32
  untaken : s.taken = []
  code : s.decodeCache.Coded text A.data

theorem Represents.of_rest (h : Represents room text s A) (hv : x.toCore.view = s.toCore.view)
    (hr : x.toCore.rest = s.toCore.rest) (hd : x.decodeCache = s.decodeCache) :
    Represents room text x A := by
  have hpc : x.nextPc = s.nextPc := congrArg (fun x => x.1.1) hr
  have hi : x.instructions = s.instructions := congrArg (fun x => x.1.2.1) hr
  have hj : x.jumpInsn = s.jumpInsn := congrArg (fun x => x.1.2.2.1) hr
  have ht : x.jumpTarget = s.jumpTarget := congrArg (fun x => x.1.2.2.2) hr
  have hs : x.status &&& Core.switches = s.status &&& Core.switches := congrArg (fun x => x.2.1) hr
  have hk : x.taken = s.taken := congrArg (fun x => x.2.2.2.2.2.2) hr
  refine ⟨hv.trans h.data, hpc.trans h.pc, ?_, ?_, h.direct.of_rest hr, hs.trans h.quiet,
    hk.trans h.untaken, ?_⟩
  · rw [h.due, hi, hj, ht]
  · rw [hi, hj]
    exact h.bounded
  · rw [hd]
    exact h.code

/-- A switch is off. -/
theorem Represents.off (h : Represents room text s A) {f : U32} (hf : f &&& Core.switches = f) :
    test s.status f = false := by
  have hq : s.status &&& Core.switches = 0#32 &&& Core.switches := h.quiet.trans (by decide)
  rw [test_congr hf hq]
  unfold test
  rw [BitVec.zero_and]
  rfl

/-! ## Fetch -/

theorem looks_untranslated (hm : s.toCore.isImmuActive = false) :
    s.Looks { s.toCore with ireq := s.toCore.fetchRequest } := by
  show s.toCore.fetchAddress = _
  unfold Core.fetchAddress
  rw [hm, if_neg Bool.false_ne_true]

/-- The word at the program counter. -/
theorem fetchWord_loaded (h : s.toCore.Direct room) (hp : s.nextPc.toNat + 4 ≤ room) {c : Core Memory}
    (hc : c = { s.toCore with ireq := s.toCore.fetchRequest }) :
    c.fetchWord = .ok (true, { c with insn := s.toCore.view.loaded s.nextPc 4 }) := by
  have hptr : c.env.getInsnPtr c.ireq.addr = some s.nextPc.toNat := by
    rw [hc]
    exact h.port.insnPointer (by decide) hp
  have hbytes : ofBytes c.env.hostEndian (c.insnBytes s.nextPc.toNat).reverse =
      s.toCore.view.loaded s.nextPc 4 := by
    rw [hc]
    show ofBytes s.env.hostEndian _ = _
    rw [h.port.host]
    rfl
  rw [Core.fetchWord_pointed hptr, hbytes]

theorem compile_handled {handler : U32 → Instruction → Instruction} (hl : ¬Illegal s.insn)
    (hh : decodeTable (decode s.insn) = some handler) :
    s.compile = .ok (some (handler s.insn (.blank s.ireq.addr s.insn)), { s with
      decodeCache := s.decodeCache.store s.ireq.addr (handler s.insn (.blank s.ireq.addr s.insn))
      compiles := s.compiles + 1 }) := by
  unfold compile
  dsimp only
  rw [if_neg (show ¬(decode s.insn = .invalidOpcode ∨ decode s.insn = .orbis32Cust1) from hl), hh]

theorem fetch_hit {c : Core Memory} (hl : s.Looks c) (ht : s.Tagged c.ireq.addr) :
    s.fetch = .ok (some (s.decodeCache.lookup c.ireq.addr),
      s.withCore { c with insn := (s.decodeCache.lookup c.ireq.addr).insn }) := by
  have hl : s.toCore.fetchAddress = .ok (true, c) := hl
  unfold fetch liftCore
  rw [hl]
  exact if_pos ht

theorem fetch_miss {c d : Core Memory} (hl : s.Looks c) (ht : ¬s.Tagged c.ireq.addr)
    (hw : c.fetchWord = .ok (true, d)) : s.fetch = (s.withCore d).compile := by
  have hl : s.toCore.fetchAddress = .ok (true, c) := hl
  unfold fetch liftCore
  rw [hl]
  refine (if_neg ht).trans ?_
  show ((Outcome.lift _ _ c.fetchWord) >>= _) = _
  rw [hw]
  rfl

/-- The instruction at the program counter is fetched from memory or from the cache, as it is in
memory. -/
theorem fetch_shows (h : s.toCore.Direct room) (hm : s.toCore.isImmuActive = false)
    (hc : s.decodeCache.Coded text s.toCore.view) (hp : s.nextPc.toNat + 4 ≤ room)
    (hT : ∀ T, text = some T → T s.nextPc) (hl : ¬Illegal (s.toCore.view.loaded s.nextPc 4))
    {handler : U32 → Instruction → Instruction}
    (hh : decodeTable (decode (s.toCore.view.loaded s.nextPc 4)) = some handler) :
    ∃ ci x, s.fetch = .ok (some ci, x) ∧ ci.Full ∧ ci.insn = s.toCore.view.loaded s.nextPc 4 ∧
      x.toCore.view = s.toCore.view ∧ x.toCore.rest = s.toCore.rest ∧
      x.decodeCache.Coded text s.toCore.view := by
  have hlook := looks_untranslated hm
  by_cases ht : s.Tagged s.nextPc
  · have hslot : (s.decodeCache.lookup s.nextPc).Full ∧
        (s.decodeCache.lookup s.nextPc).insn = s.toCore.view.loaded s.nextPc 4 := by
      cases text with
      | none => exact (Bool.false_ne_true (ht.2.symm.trans hc)).elim
      | some T =>
        rcases hc (s.decodeCache.index s.nextPc) with hi | hi
        · -- the tag of an unused slot is out of memory
          have ha : s.nextPc = 0xffffffff#32 := ht.1.symm.trans (congrArg (·.addr) hi)
          have hle := h.port.le
          have hn : s.nextPc.toNat = 4294967295 := by rw [ha]; rfl
          omega
        · refine ⟨hi.full, hi.insn.trans ?_⟩
          exact congrArg (s.toCore.view.loaded · 4) ht.1
    exact ⟨_, _, fetch_hit hlook ht, hslot.1, hslot.2, rfl, rfl, hc⟩
  · have hfull := Instruction.full_handler hh s.nextPc
    have hmiss := (fetch_miss hlook ht (fetchWord_loaded h hp rfl)).trans (compile_handled hl hh)
    have hcopy : ∀ T, text = some T → (handler (s.toCore.view.loaded s.nextPc 4) (.blank s.nextPc
        (s.toCore.view.loaded s.nextPc 4))).Copies T s.toCore.view := fun T hT' => by
      refine ⟨hfull, ?_, ?_⟩
      · rw [handler_addr hh]
        exact hT T hT'
      · rw [handler_addr hh, (handler_blank hh _ _).2.1]
    exact ⟨_, _, hmiss, hfull, (handler_blank hh _ _).2.1, rfl, rfl, hc.store _ hcopy⟩

/-! ## Execution -/

variable [HostLib] {ci : Instruction} {op : Opcode} {fmt : Format} {f : Fields}

theorem nop_acts (hi : ci.imm = ops.imm) (ha : Kind.request.act room s.nextPc ops s.toCore.view = some (v, t)) :
    ∃ c, s.executeOrbis32Nop ci = .ok (s.withCore c) ∧ s.toCore.Acts c v t := by
  dsimp only [Kind.act] at ha
  split at ha
  · cases ha
  · rename_i hn
    cases ha
    rw [← hi] at hn
    unfold executeOrbis32Nop
    generalize ci.imm.toNat = n at hn
    split
    all_goals first
      | exact absurd (by decide) hn
      | exact ⟨_, rfl, rfl, rfl⟩

/-- Executing an instruction does what the instruction set says. -/
theorem execute_acts (h : s.toCore.Direct room) (hu : s.toCore.Unranged) (he : ci.exec = op.executor)
    (hci : ci.operands = fmt.operands f) (hk : op.kind = some k) (hf : op.format = some fmt)
    (ha : k.act room s.nextPc (fmt.operands f) s.toCore.view = some (v, t))
    (hs : k.Sound (fmt.operands f) s.toCore.view) :
    ∃ x, s.execute ci = .ok x ∧ s.toCore.Acts x.toCore v t ∧ x.decodeCache = s.decodeCache := by
  unfold execute
  rcases Opcode.executor_of_kind hk with ⟨e, hx⟩ | ⟨e, hx⟩ | ⟨hx, rfl⟩
  · obtain ⟨d, hd, hacts⟩ := Core.core_acts hk hf hx hci hu ha hs
    rw [he, hx]
    dsimp only
    rw [hd]
    exact ⟨_, rfl, hacts, rfl⟩
  · obtain ⟨n, d, hd, hacts⟩ := Core.mem_acts hk hf hx hci h ha
    rw [he, hx]
    dsimp only
    unfold executeMem
    rw [hd]
    exact ⟨_, rfl, hacts, rfl⟩
  · obtain ⟨c, hc, hacts⟩ := nop_acts (congrArg Operands.imm hci) ha
    rw [he, hx]
    exact ⟨_, hc, hacts, rfl⟩

/-! ## Iterations -/

omit [HostLib] in
theorem retire_view : x.retire.redirect.toCore.view = x.toCore.view.settled := by
  have hs : ∀ g, SR.FO &&& g = 0#32 → test (x.status ||| SR.FO) g = test x.status g := fun g hg =>
    test_congr BitVec.and_self (or_and_of_disjoint hg)
  have hr : x.retire.toCore.view = x.toCore.view.settled := by
    show Data.mk _ (test (x.status ||| SR.FO) SR.F) (test (x.status ||| SR.FO) SR.CY)
      (test (x.status ||| SR.FO) SR.OV) _ _ = _
    rw [hs _ (by decide), hs _ (by decide), hs _ (by decide)]
    rfl
  rw [← hr]
  unfold redirect
  split <;> rfl

omit [HostLib] in
/-- Control behind an instruction that has left a jump to `t`. -/
theorem retire_shows {c : Core Memory} (h : x.toCore.rest = (c.jumping t).rest)
    (hd : c.Direct room) (hq : c.status &&& Core.switches = 0#32) (hk : c.taken = []) (hb : c.jumpInsn ≤ c.instructions)
    (hc : x.decodeCache.Coded text x.toCore.view.settled) {due : Option U32}
    (hdue : due = if c.jumpInsn = c.instructions then some c.jumpTarget else none)
    (hone : due = none ∨ t = none) : Represents room text x.retire.redirect
      { pc := due.getD (c.nextPc + 4#32), due := t, data := x.toCore.view.settled } := by
  have hpc : x.nextPc = (c.jumping t).nextPc := congrArg (fun x => x.1.1) h
  have hi : x.instructions = (c.jumping t).instructions := congrArg (fun x => x.1.2.1) h
  have hj : x.jumpInsn = (c.jumping t).jumpInsn := congrArg (fun x => x.1.2.2.1) h
  have ht : x.jumpTarget = (c.jumping t).jumpTarget := congrArg (fun x => x.1.2.2.2) h
  have hs : x.status &&& Core.switches = c.status &&& Core.switches := by
    refine (congrArg (fun x => x.2.1) h).trans ?_
    cases t <;> rfl
  have hdir : x.toCore.Direct room := by
    have hr : ((c.jumping t).rest).2 = c.rest.2 := by cases t <;> rfl
    have hj : (c.jumping t).Direct room := by cases t <;> exact ⟨hd.port, hd.imem, hd.endian, hd.dmmu⟩
    exact hj.of_rest h
  have hx : x.taken = c.taken := by
    refine (congrArg (fun x => x.2.2.2.2.2.2) h).trans ?_
    cases t <;> rfl
  obtain ⟨hri, hrj, hrt, hrk⟩ := redirect_counters (x := x)
  have hfo : (x.status ||| SR.FO) &&& Core.switches = x.status &&& Core.switches :=
    or_and_of_disjoint (by decide)
  have hdmmu : test (x.status ||| SR.FO) SR.DME = false :=
    (test_congr (k := Core.switches) (by decide) hfo).trans hdir.dmmu
  have hcode : x.retire.redirect.decodeCache = x.decodeCache :=
    Machine.redirect_frame (·.decodeCache) x fun _ _ _ _ => rfl
  refine ⟨retire_view, ?_, ?_, ?_, ?_, ?_, hrk.trans (hx.trans hk), by rw [hcode]; exact hc⟩
  · show x.retire.redirect.nextPc = due.getD (c.nextPc + 4#32)
    rw [redirect_nextPc, hpc, hi, hj, ht, hdue]
    cases t with
    | none =>
      show (if (c.instructions == c.jumpInsn) = true then c.jumpTarget else c.nextPc + 4#32) = _
      simp only [beq_iff_eq, eq_comm (a := c.instructions)]
      split <;> rfl
    | some a =>
      have hn : ¬c.jumpInsn = c.instructions := fun he => by
        rw [hdue, if_pos he] at hone
        rcases hone with hone | hone <;> cases hone
      have hne : ¬((c.instructions == c.instructions + 1) = true) := by simp
      rw [if_neg hn]
      exact if_neg hne
  · show t = _
    rw [hri, hrj, hrt, hi, hj, ht]
    cases t with
    | none => exact (if_neg (show ¬c.jumpInsn = c.instructions + 1 by omega)).symm
    | some a => exact (if_pos (show c.instructions + 1 = c.instructions + 1 from rfl)).symm
  · rw [hri, hrj, hi, hj]
    cases t with
    | none => exact Nat.le_succ_of_le hb
    | some a => exact Nat.le_refl _
  · unfold redirect
    split <;> exact ⟨hdir.port, hdir.imem, hdir.endian, hdmmu⟩
  · refine Eq.trans ?_ (hfo.trans (hs.trans hq))
    unfold redirect
    split <;> rfl

/-- One iteration is one instruction. -/
theorem iterate_shows (h : Represents room text s A) (hB : Supported room text A B) :
    ∃ x, s.beginCycle.fetchExecute = .ok x ∧ Represents room text x.retire.redirect B := by
  obtain ⟨k, ops, v, t, ⟨hp, op, fmt, f, hk, hf, hw, rfl⟩, ha, hb, hs, hT⟩ := hB
  obtain ⟨hone, rfl⟩ := Config.after_eq_some.1 hb
  have hview : s.beginCycle.toCore.view = A.data := h.data
  have hdir : s.beginCycle.toCore.Direct room := ⟨h.direct.port, h.direct.imem, h.direct.endian,
    h.direct.dmmu⟩
  have hpc : s.beginCycle.nextPc = A.pc := h.pc
  have hdec : decode (s.beginCycle.toCore.view.loaded s.beginCycle.nextPc 4) = op := by
    rw [hview, hpc, hw, decode_encode hf]
  obtain ⟨hl, handler, hh⟩ := Opcode.supported_of_kind hk
  obtain ⟨ci, y, hfetch, hfull, hinsn, hyv, hyr, hyc⟩ := fetch_shows hdir (h.off (by decide))
    (by rw [hview]; exact h.code) (by rw [hpc]; exact hp) (fun T hT' => hpc ▸ (hT T hT').1)
    (by unfold Illegal; rw [hdec]; exact hl) (by rw [hdec]; exact hh)
  have hypc : y.nextPc = A.pc := (congrArg (fun x => x.1.1) hyr).trans hpc
  have hydir := hdir.of_rest hyr
  obtain ⟨he, hops⟩ := hfull.decodes (by rw [hinsn, hview, hpc, hw]) hk hf hs
  have hrange : s.beginCycle.toCore.Unranged := h.off (by decide)
  obtain ⟨x, hx, hacts, hxc⟩ := execute_acts hydir (hrange.of_rest hyr) he hops hk hf
    (by rw [hypc, hyv, hview]; exact ha) (by rw [hyv, hview]; exact hs)
  refine ⟨x, (fetchExecute_of_fetch hfetch).trans hx, ?_⟩
  have hyi : y.instructions = s.instructions + 1 := congrArg (fun x => x.1.2.1) hyr
  have hyj : y.jumpInsn = s.jumpInsn := congrArg (fun x => x.1.2.2.1) hyr
  have hyt : y.jumpTarget = s.jumpTarget := congrArg (fun x => x.1.2.2.2) hyr
  have hyq : y.status &&& Core.switches = 0#32 := (congrArg (fun x => x.2.1) hyr).trans h.quiet
  have hcode : x.decodeCache.Coded text v.settled := by
    rw [hxc]
    refine hyc.keep fun T hT' p hp' => ?_
    rw [hview]
    have hkept := Kind.act_loaded ha fun addr n hw => (hT T hT').2 addr n hw p hp'
    exact hkept
  rw [← hacts.view] at hcode ⊢
  rw [← hypc]
  have hyk : y.taken = [] := (congrArg (fun x => x.2.2.2.2.2.2) hyr).trans h.untaken
  exact retire_shows hacts.rest hydir hyq hyk (by rw [hyi, hyj]; exact h.bounded) hcode
    (by rw [hyi, hyj, hyt]; exact h.due) hone

/-! ## Between iterations -/

omit [HostLib] in
/-- Sleep on the simulator's memory leaves the port as it is. -/
theorem dozed_env : s.dozed.env = s.env := by
  unfold dozed
  dsimp only
  split_ifs
  · rfl
  · rfl
  · exact timerUpdated_fixed.2

omit [HostLib] in
/-- Interrupts are not accepted, and nothing else is noticed. -/
theorem Represents.steady (h : Represents room text s A) (hs : Steady s x)
    (hc : Ignored s x ∨ ∃ e, Accepted e s x) (ha : s.toCore.Attached x.toCore)
    (he : x.env = s.env) : Represents room text x A := by
  rcases hc with hi | ⟨e, hacc⟩
  · have hv : x.toCore.view = s.toCore.view := by
      unfold Core.view Core.macValue
      rw [congrArg (·.gpr) hs.toRegs, congrArg (·.mac) hs.toRegs, hi.status, he]
    have hr : x.toCore.rest = s.toCore.rest := by
      have hk := ha.kind
      unfold Request.kind at hk
      obtain ⟨h1, h2, h3⟩ : x.dreq.endian = s.dreq.endian ∧ x.dreq.imem = s.dreq.imem ∧
          x.dreq.debug = s.dreq.debug := by simpa using hk
      unfold Core.rest Core.port
      rw [hi.nextPc, hs.instructions, hi.jumpInsn, hi.jumpTarget, hi.status, he, h1, h2, h3, hi.taken]
    exact h.of_rest hv hr hs.decodeCache
  · have hoff := hacc.enabled
    have hasync := hacc.async
    cases e <;> cases hasync
    case external.refl =>
      have hoff : (!test s.status SR.IEE) = false := hoff
      rw [h.off (f := SR.IEE) (by decide)] at hoff
      cases hoff
    case tickTimer.refl =>
      have hoff : (!test s.status SR.TEE) = false := hoff
      rw [h.off (f := SR.TEE) (by decide)] at hoff
      cases hoff

end Or1k

/-! ## Runs -/

/-- Neither a debugger nor a device writes registers or memory. -/
def Action.keepsOff (a : Action σ) : Bool := !a.writesRegister && !a.isWorld

namespace Machine

open Or1k

variable [HostLib] {m m' : Machine Memory} {a : Action Memory} {A B : Isa.State}

omit [HostLib] in
theorem iterates_iff : iterates ⟨m, a, m'⟩ = true ↔ IsIteration ⟨m, a, m'⟩ := by
  unfold iterates IsIteration
  rw [Bool.and_eq_true]
  refine and_congr_left' ?_
  cases a <;> simp [Action.isRun]

theorem act_shows (hx : iterates ⟨m, a, m'⟩ = false) (hk : a.keepsOff = true)
    (hn : m.act a = some m') (h : Represents room text m.cpu A) : Represents room text m'.cpu A := by
  have hat := act_attached hn
  have hit : ¬IsIteration ⟨m, a, m'⟩ := fun hi => by
    rw [iterates_iff.2 hi] at hx
    cases hx
  cases act_transition hn with
  | begin r s n =>
    refine h.steady began_steady began_cases hat ?_
    exact dozed_env.trans externalChecked_fixed.2
  | mini | finish | leave => exact h.of_rest rfl rfl rfl
  | iterate limit s x hl hfe | throw limit s x hl hfe =>
    exact (hit ⟨rfl, by simpa [executes] using hl⟩).elim
  | drain s =>
    rw [drained_cpu] at hat ⊢
    exact h.steady (timerUpdated_steady.trans externalChecked_steady) endMini_cases hat
      (externalChecked_fixed.2.trans timerUpdated_fixed.2)
  | interrupt p s id set =>
    obtain ⟨v, he⟩ := s.toCore.interrupt_eq id set
    rw [he]
    exact h.of_rest rfl rfl rfl
  | outside r s s' a ha h' =>
    cases outside_ok h' with
    | writeSpr | writeGpr | world => cases hk
    | setUp => exact h.of_rest rfl rfl rfl

/-- An iteration of a program that can go on takes its next instruction. -/
theorem next_shows (hx : m.executes = true) (h : Represents room text m.cpu A)
    (hB : Isa.Supported room text A B) : ∃ m', m.next = some m' ∧ Represents room text m'.cpu B := by
  obtain ⟨p, s⟩ := m
  cases p with
  | inner limit =>
    obtain ⟨x, hfe, hs⟩ := iterate_shows h hB
    refine ⟨retired limit x, ?_, ?_⟩
    · have hi : s.iterate limit = .ok (x.retire.after, x.retire.newLimit limit, x.retire.redirect) := by
        unfold Or1k.iterate
        rw [hfe]
        rfl
      have hl : s.cycles < limit := of_decide_eq_true hx
      show (if s.cycles < limit then ofOutcome (s.iterate limit) iterated else _) = _
      rw [if_pos hl, hi]
      rfl
    · rw [retired_cpu]
      exact hs
  | idle | outer | drain => cases hx

/-- Outside of its instructions the simulator stops only between two calls. -/
theorem idle_of_stop (hx : m.executes ≠ true) (hn : m.next = none) :
    ∃ r, m.phase = .idle r := by
  obtain ⟨p, s⟩ := m
  cases p with
  | idle r => exact ⟨r, rfl⟩
  | outer =>
    unfold next at hn
    dsimp only at hn
    split at hn <;> cases hn
  | inner limit =>
    have hl : ¬s.cycles < limit := fun hl => hx (decide_eq_true hl)
    unfold next at hn
    dsimp only at hn
    rw [if_neg hl] at hn
    cases hn
  | drain =>
    unfold next at hn
    dsimp only at hn
    rw [endMini_eq] at hn
    cases hn

omit [HostLib] in
theorem init_shows {size n : Nat} {image : Nat → U8} (hp : 0 < size) (hl : size ≤ 2 ^ 32)
    (hn : text = none → n = 0) :
    Represents size text (init (Memory.env size image) n).cpu (Isa.start image) := by
  have hoff : ∀ f, f &&& (SR.FO ||| SR.SM) = 0#32 → test (SR.FO ||| SR.SM) f = false := fun f hf => by
    unfold test
    rw [BitVec.and_comm, hf]
    rfl
  refine ⟨?_, rfl, rfl, Nat.zero_le _, ⟨⟨Memory.ofSize_env size image, hp, hl, rfl, rfl⟩, rfl, rfl,
    hoff SR.DME (by decide)⟩, ?_, rfl, ?_⟩
  · have hz : (0#32 ++ 0#32 : U64) = 0#64 := by decide
    show Data.mk (fun _ => 0#32) (test (SR.FO ||| SR.SM) SR.F) (test (SR.FO ||| SR.SM) SR.CY)
      (test (SR.FO ||| SR.SM) SR.OV) (0#32 ++ 0#32) image = _
    rw [hoff _ (by decide), hoff _ (by decide), hoff _ (by decide), hz]
    rfl
  · exact (by decide : (SR.FO ||| SR.SM) &&& Core.switches = 0#32)
  · cases text with
    | none =>
      cases hn rfl
      rfl
    | some T => exact fun _ => .inl rfl

/-- A run of the simulator follows the instruction set: it shows what the program computes in as
many instructions as it makes iterations, enters no exception, and does not come to a stop in
the middle of a call while the program can go on. -/
theorem run_refines {size n : Nat} {image : Nat → U8} (hp : 0 < size) (hl : size ≤ 2 ^ 32)
    (hn : text = none → n = 0) {l : List (Move (Machine Memory) (Action Memory))}
    (h : system.Path (init (Memory.env size image) n) l m) (hk : ∀ st ∈ l, st.act.keepsOff = true)
    (hA : StepN (Isa.Supported size text) (l.countP iterates) (Isa.start image) A) :
    m.cpu.toCore.view = A.data ∧ m.cpu.nextPc = A.pc ∧ m.cpu.taken = [] ∧
      ((∃ B, Isa.Supported size text A B) → m.next = none → ∃ r, m.phase = .idle r) := by
  have hs : Represents size text m.cpu A := by
    refine h.follows_steps (R := fun m A => Represents size text m.cpu A)
      (C := fun st => st.act.keepsOff = true) (p := iterates) (fun s a t g hn hk hs => ?_) hk
      (init_shows hp hl hn) hA
    split
    · rename_i hi
      intro g' hg
      obtain ⟨rfl, hx⟩ := iterates_iff.1 hi
      obtain ⟨m', hm, hs'⟩ := next_shows hx hs hg
      cases hm.symm.trans hn
      exact hs'
    · rename_i hi
      exact act_shows (Bool.not_eq_true _ ▸ hi) hk hn hs
  refine ⟨hs.data, hs.pc, hs.untaken, fun ⟨B, hB⟩ hstop => ?_⟩
  by_cases hx : m.executes = true
  · obtain ⟨m', hm, -⟩ := next_shows hx hs hB
    cases hm.symm.trans hstop
  · exact idle_of_stop hx hstop

end Machine

namespace Machine

attribute [local instance] HostLib.plain

/-- Code is below the data. -/
def below (p : U32) : Prop := p.toNat < 0x200

theorem supported_below (op : Opcode) (f : Fields) {fmt : Format} {A : Isa.State}
    (hk : op.kind = some k) (hf : op.format = some fmt) (hw : A.data.loaded A.pc 4 = fmt.encode f)
    (ha : k.act 0x8000 A.pc (fmt.operands f) A.data = some (v, none)) (hd : A.due = none)
    (hs : k.Sound (fmt.operands f) A.data) (hp : A.pc.toNat < 0x200)
    (hx : ∀ addr n, k.writes (fmt.operands f) A.data = some (addr, n) → 0x204 ≤ addr.toNat) :
    Isa.Supported 0x8000 (some below) A { pc := A.pc + 4#32, due := none, data := v.settled } := by
  refine ⟨k, _, v, none, ⟨by omega, op, fmt, f, hk, hf, hw, rfl⟩, ha, ?_, hs, ?_⟩
  · rw [Config.after_eq_some, hd]
    exact ⟨.inl rfl, rfl⟩
  · rintro _ ⟨⟩
    refine ⟨hp, fun addr n ha p hp => .inl ?_⟩
    have hlow := hx addr n ha
    have hp : p.toNat < 0x200 := hp
    omega

/-- `l.addi r1, r0, 5`, `l.sw 0x204(r0), r1` and `l.lwz r2, 0x204(r0)` with a decode cache. -/
theorem run_refines_store : ∃ (l : List (Move (Machine Memory) (Action Memory))) (m : Machine Memory),
    system.Path (init (Memory.env 0x8000 (Memory.image [(0x100, 0x9c200005#32),
      (0x104, 0xd4000a04#32), (0x108, 0x84400204#32)])) 4) l m ∧
      l.countP iterates = 3 ∧ m.cpu.gpr 2 = 5#32 := by
  generalize hi : Memory.image [(0x100, 0x9c200005#32), (0x104, 0xd4000a04#32),
    (0x108, 0x84400204#32)] = image
  obtain ⟨l, m, hl, hn, hk, -⟩ := System.exists_path system iterates (fun _ a => a.keepsOff)
    (init (Memory.env 0x8000 image) 4) [.call 10#32, .run, .run, .run, .run] 3 (fun _ => true)
    (by rw [← hi]; decide +kernel)
  refine ⟨l, m, hl, hn, ?_⟩
  have hsteps : ∃ A, StepN (Isa.Supported 0x8000 (some below)) (l.countP iterates) (Isa.start image) A ∧
      A.data.gpr 2 = 5#32 := by
    rw [hn, ← hi]
    refine ⟨_, .tail (.tail (.tail (.refl _)
      (supported_below .orbis32Addi { d := 1, a := 0, b := 0, k := 5, l := 0, n := 0 } rfl rfl
        (by decide +kernel) rfl rfl (fun h => nomatch h.1) (by decide) nofun))
      (supported_below .orbis32Sw { d := 0, a := 0, b := 1, k := 0x204, l := 0, n := 0 } rfl rfl
        (by decide +kernel) rfl rfl trivial (by decide) ?_))
      (supported_below .orbis32Lwz { d := 2, a := 0, b := 0, k := 0x204, l := 0, n := 0 } rfl rfl
        (by decide +kernel) rfl rfl trivial (by decide) nofun), ?_⟩
    · rintro _ _ ⟨⟩
      decide
    · decide +kernel
  have hon : some below = none → 4 = 0 := nofun
  obtain ⟨A, hA, hr⟩ := hsteps
  have hv := (run_refines (by decide) (by decide) hon hl hk hA).1
  rw [← hr, ← hv]
  rfl

end Machine

end Or1kiss
