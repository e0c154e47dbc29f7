import Or1kiss.CodeWrites
import Or1kiss.RegPackets
import Or1kiss.Reservation
import Or1kiss.Resume

/-!
# The fixed values

r0 is zero and SR[FO] is set because `advance` restores both behind every instruction. A debugger
writes to them like to any other register, and so does a load of r0 that a C++ exception cuts short.
`FixedValues` follows what was last left in them; an instruction sees the fixed values if and only if
nothing else was (`fixed_values_iff`).
-/

namespace Or1kiss

open Host Bits Outcome Runs

variable {σ : Type}

/-- What stands in r0 and in SR[FO]. -/
structure FixedValues where
  zero : U32
  one : Bool
  deriving DecidableEq

namespace FixedValues

/-- Behind an instruction. -/
def restored : FixedValues := { zero := 0#32, one := true }

/-- Register 34 of the debugger is SR. -/
def writeReg (t : FixedValues) (reg : Fin 35) (val : U32) : FixedValues :=
  if reg.val = 0 then { t with zero := val }
  else if reg.val = 34 then { t with one := test val SR.FO }
  else t

theorem eq_restored_iff {t : FixedValues} : t = restored ↔ t.zero = 0#32 ∧ t.one = true := by
  obtain ⟨zero, one⟩ := t
  exact FixedValues.mk.injEq .. ▸ Iff.rfl

def writeSpr (t : FixedValues) (reg val : U32) : FixedValues :=
  if reg = SpReg.sr.num then { t with one := test val SR.FO } else t

def writeRegs (str : List U8) (rs : List (Fin 35)) (t : FixedValues) : FixedValues :=
  rs.foldl (fun t reg => t.writeReg reg (Gdb.digitsAt str reg)) t

/-- `P` -/
def regWrite (t : FixedValues) (text : List U8) : FixedValues :=
  match Gdb.regWriteArgs text with
  | some (reg, val) => if h : reg.toNat < 35 then t.writeReg ⟨reg.toNat, h⟩ val else t
  | none => t

/-- `q` -/
def query (t : FixedValues) (text : List U8) : FixedValues :=
  match Gdb.sprWriteArgs text with
  | some (reg, val) => t.writeSpr reg val
  | none => t

/-- What a packet leaves, by its text. -/
def packet (t : FixedValues) (command : List U8) : FixedValues :=
  let c := command.headD 0#8
  let text := command ++ [0#8]
  if c = chr 'P' then t.regWrite text
  else if c = chr 'G' then t.writeRegs (text.drop 1) (List.finRange 35)
  else if c = chr 'q' then t.query text
  else t

end FixedValues

namespace Core

variable [EnvImpl σ]

/-- What comes back for a request that gets to the port. -/
def replied (req : Request) (c : Core σ) : Request :=
  let r := c.translateData req
  (r.2.2.env.convertAndTransact r.2.1).2.1

/-- The word in r0 with the bytes that come back, if a load or store has it for its buffer. -/
def leftInZero (e : MemExec) (ci : Instruction) (c : Core σ) : Option U32 :=
  match e.buffer ci, c.requestOf e ci with
  | .reg 0, some req =>
    let r := c.replied req
    some (ofBytes c.env.hostEndian (overlay (bytesOf c.env.hostEndian (c.gpr 0)) r.data r.size))
  | _, _ => none

end Core

/-- The same for the instruction at the program counter. -/
def Or1k.leftInZero [EnvImpl σ] (s : Or1k σ) : Option U32 :=
  s.memInsn.bind fun i => i.2.2.leftInZero i.1 i.2.1

namespace FixedValues

variable [EnvImpl σ]

/-- What an action leaves; a C++ exception cuts the instruction short. -/
def act (t : FixedValues) (m : Machine σ) (a : Action σ) (cut : Bool) : FixedValues :=
  match a with
  | .run =>
    if m.executes then
      if cut then { t with zero := m.cpu.beginCycle.leftInZero.getD t.zero } else restored
    else t
  | .writeGpr i val => if i = 0 then { t with zero := val } else t
  | .writeSpr reg val => t.writeSpr reg val
  | _ => t

def after (t : FixedValues) (st : Move (Debugged σ) (Debugged.Event σ)) : FixedValues :=
  match st.act with
  | .act a => t.act st.pre.machine a (st.post.phase == .idle none)
  | .packet command => t.packet command

end FixedValues

/-- What stands in the registers. -/
structure Or1k.Holds (s : Or1k σ) (t : FixedValues) : Prop where
  zero : s.gpr 0 = t.zero
  one : test s.status SR.FO = t.one

namespace Or1k

variable [EnvImpl σ] {s f x : Or1k σ} {t : FixedValues} {ci : Instruction}

omit [EnvImpl σ] in
theorem Holds.of_eq (h : s.Holds t) (hg : x.gpr = s.gpr)
    (hs : x.status &&& SR.FO = s.status &&& SR.FO) : x.Holds t where
  zero := by rw [hg, h.zero]
  one := by rw [test_congr (BitVec.and_self) hs, h.one]

/-! ## Writes -/

omit [EnvImpl σ] in
theorem Holds.setGpr (h : s.Holds t) (i : Fin 32) (val : U32) :
    (s.setGpr i val).Holds (if i = 0 then { t with zero := val } else t) := by
  by_cases hi : i = 0
  · subst hi
    have hz : Function.update s.gpr 0 val 0 = val := Function.update_self ..
    rw [if_pos rfl]
    exact ⟨hz, h.one⟩
  · rw [if_neg hi]
    exact ⟨(Function.update_of_ne (Ne.symm hi) _ _).trans h.zero, h.one⟩

theorem regWritten_gpr (reg val : U32) : (s.regWritten reg val).gpr = s.gpr := by
  unfold regWritten
  cases SpReg.ofNum reg with
  | none =>
    cases SprFile.ofNum reg.toNat with
    | none => rfl
    | some f => cases f <;> rfl
  | some r =>
    cases r with
    | pmr => exact congrArg Regs.gpr dozed_steady.toRegs
    | picsr =>
      simp only [Core.writeReg]
      split <;> rfl
    | _ => rfl

/-- A debugger's write of a special purpose register. -/
theorem Holds.sprWritten (h : s.Holds t) (reg val : U32) :
    (s.sprWritten reg val true).Holds (t.writeSpr reg val) := by
  have hw : s.sprWritten reg val true = s.requestBreak.regWritten reg val := rfl
  have hg : (s.requestBreak.regWritten reg val).gpr = s.gpr := regWritten_gpr reg val
  rw [hw]
  unfold FixedValues.writeSpr
  by_cases hr : reg = SpReg.sr.num
  · subst hr
    rw [if_pos rfl]
    exact ⟨(congrFun hg 0).trans h.zero, rfl⟩
  · rw [if_neg hr]
    refine h.of_eq hg ?_
    by_cases hp : reg = SpReg.pmr.num
    · subst hp
      rw [regWritten_pmr]
      exact dozed_fixed
    · rw [(regWritten_write (s := s.requestBreak) hp val).status hr]
      rfl

end Or1k

/-! ## C++ exceptions -/

namespace Core

variable [EnvImpl σ] {c d : Core σ} {e : MemExec} {ci : Instruction} {req : Request}

/-- A C++ exception comes from the port, and takes its answer along. -/
theorem transact_throw_replied {x : Core σ × Request} (h : c.transact req = .throw x) :
    x.2 = c.replied (c.dataRequest req) ∧ x.1.gpr = c.gpr ∧ x.1.status = c.status := by
  obtain ⟨w, hw⟩ := checkWatchpoints_eq c (c.dataRequest req)
  obtain ⟨m, t, -, hcore⟩ := translateData_core c (c.dataRequest req)
  unfold transact at h
  dsimp only at h
  split at h
  · exact (Outcome.lift_ne_throw h).elim
  · rw [translateSend_eq, hw, translateData_wpEvent] at h
    unfold replied
    generalize c.translateData (c.dataRequest req) = q at h hcore ⊢
    obtain ⟨res, q, b⟩ := q
    dsimp only at h hcore ⊢
    cases res with
    | tlbMiss | pageFault => exact (Outcome.lift_ne_throw h).elim
    | okay =>
      unfold send at h
      dsimp only at h
      subst hcore
      dsimp only at h ⊢
      generalize t.convertAndTransact q = r at h ⊢
      obtain ⟨resp, r, u⟩ := r
      cases resp with
      | error => exact (Outcome.lift_ne_throw h).elim
      | success => cases h
      | failed =>
        dsimp only at h
        split at h
        · cases h
          exact ⟨rfl, rfl, rfl⟩
        · cases h

omit [EnvImpl σ] in
theorem writeBack_gpr (i : Fin 32) : (c.writeBack i req).gpr = Function.update c.gpr i
    (ofBytes c.env.hostEndian (overlay (bytesOf c.env.hostEndian (c.gpr i)) req.data req.size)) :=
  rfl

/-- What a load or store leaves in r0 that a C++ exception cuts short. -/
theorem executeMem_throw_zero (h : c.executeMem e ci = .throw d) :
    d.gpr 0 = (c.leftInZero e ci).getD (c.gpr 0) ∧ d.status = c.status := by
  have hh : d.env.hostEndian = c.env.hostEndian := (executeMem_throw_attached h).env.hostEndian
  rw [executeMem_access] at h
  obtain ⟨i, a, v, ha, hv, hb, he⟩ := accessMemory_sends (by rw [h]; simp)
  obtain ⟨x, hx, rfl⟩ := Outcome.lift_eq_throw.1 (he.symm.trans h)
  obtain ⟨hr, hg, hs⟩ := transact_throw_replied hx
  refine ⟨?_, hs⟩
  have hreq : c.requestOf e ci =
      some (c.dataRequest (memRequest e.isLoad e.isExclusive e.size a v ci c)) := by
    unfold requestOf
    rw [ha, hv]
  have hx : x.1.env.hostEndian = c.env.hostEndian := hh
  rw [writeBack_gpr, hx, hg, hr]
  unfold leftInZero
  rw [hreq, hb]
  by_cases hi : i = 0
  · subst hi
    exact Function.update_self ..
  · rw [Function.update_of_ne (Ne.symm hi)]
    split
    · rename_i heq _
      exact (hi (Fin.ext (Operand.reg.inj heq))).elim
    · rfl

end Core

namespace Or1k

variable [EnvImpl σ] [HostLib] {s f x : Or1k σ} {t : FixedValues} {ci : Instruction}

omit [EnvImpl σ] [HostLib] in
theorem holds_restored : x.retire.redirect.Holds .restored := by
  obtain ⟨hg, hs, -⟩ := redirect_fixed (x := x)
  have hz : Function.update x.gpr 0 0#32 0 = 0#32 := Function.update_self ..
  constructor
  · rw [hg]
    exact hz
  · rw [hs]
    exact test_or_self (by decide)

omit [EnvImpl σ] [HostLib] in
theorem FetchedInsn.fixed (h : FetchedInsn s f) : f.gpr = s.gpr ∧ f.status = s.status :=
  ⟨congrArg (·.gpr) h.eq, congrArg (·.status) h.eq⟩

theorem fetchExecute_throw_holds (h : s.Holds t) (hx : s.fetchExecute = .throw x) :
    x.Holds { t with zero := s.leftInZero.getD t.zero } := by
  rcases fetchExecute_throw hx with hf | ⟨ci, f, e, d, hf, hfi, he, hd, rfl⟩
  · have hnone : s.leftInZero = none := by
      unfold leftInZero memInsn
      rw [hf]
      rfl
    obtain ⟨hg, hs⟩ := (fetch_throw hf).fixed
    rw [hnone]
    exact h.of_eq hg (by rw [hs])
  · obtain ⟨hg, hs⟩ := hfi.fixed
    have hleft : s.leftInZero = f.toCore.leftInZero e ci := by
      unfold leftInZero
      rw [memInsn_of_fetch hf he]
      rfl
    obtain ⟨hz, hst⟩ := Core.executeMem_throw_zero hd
    constructor
    · show d.gpr 0 = s.leftInZero.getD t.zero
      rw [hz, hleft, hg, h.zero]
    · show test d.status SR.FO = t.one
      rw [hst, hs, h.one]

end Or1k

namespace Machine

open Or1k

variable [EnvImpl σ] [HostLib] {m m' : Machine σ} {a : Action σ} {t : FixedValues}

omit [EnvImpl σ] [HostLib] in
theorem retired_phase (limit : Nat) (x : Or1k σ) : (retired limit x).phase ≠ .idle none := by
  unfold retired iterated
  dsimp only
  split <;> exact nofun

/-- What an action leaves in the registers. -/
theorem act_holds (h : m.cpu.Holds t) (hn : m.act a = some m') :
    m'.cpu.Holds (t.act m a (m'.phase == .idle none)) := by
  by_cases hx : IsIteration ⟨m, a, m'⟩
  · obtain ⟨rfl, hx⟩ := hx
    unfold FixedValues.act
    dsimp only at hx ⊢
    rw [if_pos hx]
    rcases iteration_cases hx hn with ⟨limit, x, -, rfl⟩ | ⟨x, hf, rfl⟩
    · rw [beq_false_of_ne (retired_phase limit x), if_neg Bool.false_ne_true, retired_cpu]
      exact holds_restored
    · have hb : m.cpu.beginCycle.Holds t := ⟨h.zero, h.one⟩
      rw [BEq.rfl, if_pos rfl]
      exact fetchExecute_throw_holds hb hf
  · cases hw : a.writesRegister with
    | false =>
      obtain ⟨ha, -⟩ := act_aside hx hw hn
      have hsame : t.act m a (m'.phase == .idle none) = t := by
        cases a with
        | run => exact if_neg fun he => hx ⟨rfl, he⟩
        | writeGpr | writeSpr => cases hw
        | _ => rfl
      rw [hsame]
      exact h.of_eq ha.gpr ha.fixed
    | true =>
      cases act_transition hn with
      | outside r s s' a ha hout =>
        cases a with
        | writeSpr reg val =>
          have hout : s.setSpr reg val true = .ok s' := hout
          rw [setSpr_eq] at hout
          cases hout
          exact h.sprWritten reg val
        | writeGpr i val =>
          cases hout
          exact h.setGpr i val
        | _ => cases hw
      | _ => cases hw

end Machine

/-! ## Packets -/

namespace Gdb

variable {g x : Gdb σ} {t : FixedValues} {command : List U8}

/-- The CPU of the stub holds the values. -/
abbrev Holds (t : FixedValues) (g : Gdb σ) : Prop := g.cpu.Holds t

theorem holds_written {s : Or1k σ} (h : s.Holds t) (reg : Fin 35) (val : U32) :
    (written s reg val).Holds (t.writeReg reg val) := by
  unfold written FixedValues.writeReg
  by_cases hr : reg.val < 32
  · have hi : (⟨reg.val, hr⟩ : Fin 32) = 0 ↔ reg.val = 0 := Fin.ext_iff
    have hset := h.setGpr ⟨reg.val, hr⟩ val
    rw [dif_pos hr, if_neg (show reg.val ≠ 34 by omega)]
    by_cases h0 : reg.val = 0
    · rw [if_pos h0]
      rwa [if_pos (hi.2 h0)] at hset
    · rw [if_neg h0]
      rwa [if_neg (mt hi.1 h0)] at hset
  · rw [dif_neg hr, if_neg (show reg.val ≠ 0 by omega)]
    by_cases h34 : reg.val = 34
    · rw [if_pos h34, if_neg (by omega), if_neg (by omega)]
      exact ⟨h.zero, rfl⟩
    · rw [if_neg h34]
      split
      · exact ⟨h.zero, h.one⟩
      · rw [if_pos (show reg.val = 33 by omega)]
        exact ⟨h.zero, h.one⟩

theorem holds_send (h : Holds t x) (text : List U8) :
    Outcome.Ends (Holds t) (Holds t) (x.send text) :=
  send_ends (fun _ => h) text

theorem holds_points (t : FixedValues) : PointInvariant (Holds (σ := σ) t) :=
  ⟨fun _ _ _ h => ⟨h.zero, h.one⟩, fun _ h => h, fun h => h, fun _ h => h, fun h => h⟩

theorem holds_memory (t : FixedValues) : MemoryInvariant (Holds (σ := σ) t) :=
  ⟨fun _ _ _ h => ⟨h.zero, h.one⟩, fun _ h => h, fun _ h => h⟩

variable [EnvImpl σ]

omit [EnvImpl σ] in
theorem holds_writeRegs {s : Or1k σ} (str : List U8) (rs : List (Fin 35)) (h : s.Holds t) :
    (rs.foldl (fun s reg => written s reg (digitsAt str reg)) s).Holds (t.writeRegs str rs) := by
  induction rs generalizing s t with
  | nil => exact h
  | cons reg rs ih => exact ih (holds_written h reg _)

/-- What the writes of a packet leave in the registers. -/
theorem holds_registersWritten {s : Or1k σ} (h : s.Holds t) (command : List U8) :
    (registersWritten s command).Holds (t.packet command) := by
  unfold registersWritten FixedValues.packet
  dsimp only
  split
  · unfold FixedValues.regWrite
    cases regWriteArgs (command ++ [0#8]) with
    | none => exact h
    | some args =>
      dsimp only
      split
      · exact holds_written h _ _
      · exact h
  · split
    · exact holds_writeRegs _ _ h
    · split
      · unfold FixedValues.query
        cases sprWriteArgs (command ++ [0#8]) with
        | none => exact h
        | some args => exact h.sprWritten _ _
      · exact h

/-- What a packet leaves in the registers. -/
theorem execute_holds (h : Holds t g) (hx : g.execute command = .ok x) :
    Holds (t.packet command) x := by
  suffices hends : Outcome.Ends (Holds (t.packet command)) (Holds (t.packet command))
      (g.execute command) from hends.of_ok hx
  by_cases hm : ∃ c ∈ ['m', 'M', 'X'], command.headD 0#8 = chr c
  · obtain ⟨c, hcm, he⟩ := hm
    have hnone : t.packet command = t := by
      unfold FixedValues.packet
      dsimp only
      rw [he]
      simp only [List.mem_cons, List.not_mem_nil, or_false] at hcm
      rcases hcm with rfl | rfl | rfl <;>
        rw [if_neg (by decide), if_neg (by decide), if_neg (by decide)]
    have hmem := holds_memory (σ := σ) t
    rw [hnone]
    refine execute_ends (fun x text hx => holds_send hx text) h fun hd hm hc => ?_
    rcases memory_handler hm hcm (hc.trans he) with he | he | he
    · rw [he]
      exact hmem.handleMemRead h _
    · rw [he]
      exact hmem.handleMemWrite h _
    · rw [he]
      exact hmem.handleMemWriteBin h _
  · exact execute_registers (holds_points _) (fun c hcm he => hm ⟨c, hcm, he⟩)
      (holds_registersWritten h command)

end Gdb

/-! ## Execution and packets of any kind -/

namespace Debugged

variable [EnvImpl σ] [HostLib] {d : Debugged σ} {q q' : Debugged σ × FixedValues} {e : Event σ}
  {f : Or1k σ}

/-- Packets come at any point of control. -/
def commanded : System (Debugged σ) (Event σ) where
  next d e :=
    match e with
    | .act a => d.next (.act a)
    | .packet command => (d.stub.execute command).value?.map fun g => { d with stub := g }

/-- With what stands in the registers. -/
def fixing : System (Debugged σ × FixedValues) (Event σ) := commanded.watch FixedValues.after

/-- The state in which the step executes an instruction. -/
def executing (d : Debugged σ) (e : Event σ) : Option (Or1k σ) :=
  match e with
  | .act .run =>
    if d.machine.executes then
      match d.stub.cpu.beginCycle.fetch with
      | .ok (some _, f) => some f
      | _ => none
    else none
  | _ => none

/-- An instruction reads r0 as zero, and SR[FO] is set. -/
def SeesFixed (m : Move (Debugged σ × FixedValues) (Event σ)) : Prop :=
  ∀ f, m.pre.1.executing m.act = some f → f.gpr 0 = 0#32 ∧ test f.status SR.FO = true

/-- No instruction is executed, or nothing else stands in the registers. -/
def untainted (q : Debugged σ × FixedValues) (e : Event σ) : Bool :=
  (q.1.executing e).isNone || decide (q.2 = .restored)

omit [HostLib] in
theorem executing_fixed (h : d.executing e = some f) :
    f.gpr = d.stub.cpu.gpr ∧ f.status = d.stub.cpu.status := by
  unfold executing at h
  split at h
  · split at h
    · split at h
      · rename_i hf
        cases h
        exact (Or1k.FetchedInsn.of_fetch hf).fixed
      · cases h
    · cases h
  · cases h

omit [HostLib] in
theorem seesFixed_iff (h : q.1.stub.cpu.Holds q.2) : SeesFixed ⟨q, e, q'⟩ ↔ untainted q e = true := by
  unfold SeesFixed untainted
  dsimp only
  cases he : q.1.executing e with
  | none => exact iff_of_true (fun f hf => (Option.some_ne_none f hf.symm).elim) rfl
  | some f =>
    obtain ⟨hg, hs⟩ := executing_fixed he
    rw [Option.isNone_some, Bool.false_or, decide_eq_true_iff, FixedValues.eq_restored_iff, ← h.zero,
      ← h.one, ← hg, ← hs]
    constructor
    · exact fun hsees => hsees f rfl
    · intro hfixed f' hf'
      obtain rfl := Option.some.inj hf'
      exact hfixed

/-- What a step leaves in the registers. -/
theorem holds_next (h : q.1.stub.cpu.Holds q.2) (hn : fixing.next q e = some q') :
    q'.1.stub.cpu.Holds q'.2 := by
  obtain ⟨d, hd, rfl⟩ := System.watch_next hn
  cases e with
  | act a =>
    obtain ⟨m, hm, rfl⟩ := Option.map_eq_some_iff.1 hd
    exact Machine.act_holds (m := q.1.machine) h hm
  | packet command =>
    obtain ⟨g, hg, rfl⟩ := Option.map_eq_some_iff.1 hd
    exact Gdb.execute_holds h (Outcome.value?_eq_some.1 hg)

omit [EnvImpl σ] [HostLib] in
theorem start_holds (env : Env σ) (size : Nat) (elf : Option Elf) (rsp : Rsp) :
    (start env size elf rsp).stub.cpu.Holds .restored := by
  have hfo : test (SR.FO ||| SR.SM) SR.FO = true := by decide
  exact ⟨rfl, hfo⟩

/-- In every run of execution and of packets of any kind, each instruction sees the fixed values if
and only if none is executed while something else was left in the registers. -/
theorem fixed_values_iff {env : Env σ} {size : Nat} {elf : Option Elf} {rsp : Rsp}
    {l : List (Move (Debugged σ × FixedValues) (Event σ))}
    (h : fixing.Path (start env size elf rsp, .restored) l q) :
    (∀ m ∈ l, SeesFixed m) ↔ ∀ m ∈ l, untainted m.pre m.act = true := by
  refine h.forall_iff (P := fun q => q.1.stub.cpu.Holds q.2) (fun q e q' hn hc hp => ?_)
    (fun q e q' hn hc hp => ?_) (start_holds ..)
  · exact ⟨holds_next hp hn, (seesFixed_iff hp).2 hc⟩
  · exact fun hr => hc ((seesFixed_iff hp).1 hr)

end Debugged

namespace Debugged

attribute [local instance] HostLib.plain

/-- `l.add r3,r0,r0` -/
def adding : Debugged Memory × FixedValues :=
  (start (Memory.env 0x8000 (Memory.image [(0x100, 0xe0600000#32)])) 0 none
    { isOpen := true, input := [], output := [] }, .restored)

def writeZero (digit : Char) : Event Memory := .packet (ascii "P0=" ++ [chr digit, 0#8])

/-- The debugger has written one to r0, and the sum is two. -/
theorem fixed_values_iff_fails : ∃ l q, fixing.Path adding l q ∧ q.1.stub.cpu.gpr 3 = 2#32 ∧
    ¬∀ m ∈ l, SeesFixed m := by
  obtain ⟨q, hr, hq⟩ := fixing.exists_run adding [writeZero '1', .act (.call 1#32), .act .run]
    (fun q => !untainted q (.act .run) &&
      (fixing.next q (.act .run)).any fun q' => decide (q'.1.stub.cpu.gpr 3 = 2#32))
    (by decide +kernel)
  rw [Bool.and_eq_true, Bool.not_eq_true'] at hq
  obtain ⟨q', hn, hsum⟩ := (Option.any_eq_true _ _).1 hq.2
  obtain ⟨l, hl, hm⟩ := hr.path_tail hn
  have hh : q.1.stub.cpu.Holds q.2 := hr.invariant (P := fun q => q.1.stub.cpu.Holds q.2)
    (fun _ _ _ h _ hn => holds_next h hn) (start_holds ..)
  refine ⟨l, q', hl, of_decide_eq_true hsum, fun hc => ?_⟩
  have ha := (seesFixed_iff hh).1 (hc _ hm)
  rw [hq.1] at ha
  cases ha

/-- It has taken that back. -/
theorem fixed_values_iff_rewritten : ∃ l q, fixing.Path adding l q ∧
    q.1.stub.cpu.instructions = 1 ∧ ∀ m ∈ l, SeesFixed m := by
  obtain ⟨q, hr, hq⟩ := fixing.exists_steps untainted adding
    [writeZero '1', writeZero '0', .act (.call 1#32), .act .run, .act .run]
    (fun q => decide (q.1.stub.cpu.instructions = 1)) (by decide +kernel)
  obtain ⟨l, hl, ha⟩ := hr.path_ok
  exact ⟨l, q, hl, of_decide_eq_true hq, (fixed_values_iff hl).2 ha⟩

end Debugged

end Or1kiss
