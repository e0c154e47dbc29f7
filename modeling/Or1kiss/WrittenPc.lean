import Or1kiss.Delay
import Or1kiss.Halted
import Or1kiss.RegPackets

/-!
# A program counter that the debugger writes

The program counter is written in three kinds of packets. Control is more than that: a jump that
was recorded before the stop is still pending, and redirects the program behind the first
instruction. `diverted` says when the second instruction is not the next one.
-/

namespace Or1kiss

open Host Bits Runs

variable {σ : Type}

/-! ## One instruction -/

namespace Or1k

variable [EnvImpl σ] {s f x : Or1k σ} {ci : Instruction}

/-- The instruction at the program counter is a jump, a branch or `l.rfe`. -/
def branches (s : Or1k σ) : Bool :=
  match s.fetch with
  | .ok (some ci, _) =>
    match ci.exec with
    | some (.core e) => e.isJump
    | some .rfe => true
    | _ => false
  | _ => false

/-- `l.mtspr` of another value to NPC. -/
def movesPc (f : Or1k σ) (ci : Instruction) : Bool :=
  match ci.exec, f.toCore.deref ci ci.dest, f.toCore.deref ci ci.src1 with
  | some .mtspr, .ok a, .ok b => decide (a ||| ci.imm = SpReg.npc.num) &&
      !f.writeDenied SpReg.npc.num false && b != f.nextPc
  | _, _, _ => false

/-- A jump is due behind the instruction and leads elsewhere, or none is and the instruction itself
moves the program counter. -/
def diverted (s : Or1k σ) : Bool :=
  match s.fetch with
  | .ok (some ci, f) =>
    if counted ci s.instructions = s.jumpInsn then s.jumpTarget != s.nextPc + 4#32 else f.movesPc ci
  | _ => false

/-- What an instruction leaves that neither branches nor raises an exception. -/
structure Sequential (ci : Instruction) (f x : Or1k σ) : Prop where
  jumpInsn : x.jumpInsn = f.jumpInsn
  jumpTarget : x.jumpTarget = f.jumpTarget
  instructions : x.instructions = counted ci f.instructions
  nextPc : x.nextPc = f.nextPc ↔ f.movesPc ci = false

omit [EnvImpl σ] in
theorem movesPc_of_not_mtspr (h : ci.exec ≠ some .mtspr) : f.movesPc ci = false := by
  unfold movesPc
  split
  · rename_i he _ _
    exact absurd he h
  · rfl

/-- `l.mtspr` writes NPC, or leaves it. -/
theorem sequential_mtspr {a b : U32} (he : ci.exec = some .mtspr)
    (ha : f.toCore.deref ci ci.dest = .ok a) (hb : f.toCore.deref ci ci.src1 = .ok b)
    (ht : (f.sprWritten (a ||| ci.imm) b false).taken = f.taken) :
    Sequential ci f (f.sprWritten (a ||| ci.imm) b false) := by
  have hcount : counted ci f.instructions = f.instructions :=
    counted_of_not_nop (by rw [he]; exact fun h => by cases h)
  have hmoves : f.movesPc ci = (decide (a ||| ci.imm = SpReg.npc.num) &&
      !f.writeDenied SpReg.npc.num false && b != f.nextPc) := by
    unfold movesPc
    rw [he, ha, hb]
  by_cases hr : a ||| ci.imm = SpReg.npc.num
  · have hw : f.sprWritten (a ||| ci.imm) b false =
        if f.writeDenied SpReg.npc.num false then f.requestBreak
        else { f.requestBreak with nextPc := b } := by
      rw [hr]
      rfl
    rw [decide_eq_true hr, Bool.true_and] at hmoves
    rw [hw]
    cases hd : f.writeDenied SpReg.npc.num false with
    | true =>
      rw [hd, Bool.not_true, Bool.false_and] at hmoves
      exact ⟨rfl, rfl, hcount.symm, iff_of_true rfl hmoves⟩
    | false =>
      rw [hd, Bool.not_false, Bool.true_and] at hmoves
      refine ⟨rfl, rfl, hcount.symm, ?_⟩
      rw [hmoves, bne_eq_false_iff_eq]
      rfl
  · have hsame : (f.sprWritten (a ||| ci.imm) b false).jumpInsn = f.jumpInsn ∧
        (f.sprWritten (a ||| ci.imm) b false).jumpTarget = f.jumpTarget ∧
        (f.sprWritten (a ||| ci.imm) b false).instructions = f.instructions ∧
        (f.sprWritten (a ||| ci.imm) b false).nextPc = f.nextPc := by
      obtain ⟨-, hd⟩ | hw := sprWritten_cases (s := f) (a ||| ci.imm) b false
      · rw [hd] at ht ⊢
        rcases dozed_cases (s := f.requestBreak.withCore (f.requestBreak.toCore.writeReg .pmr b))
          with hi | hacc
        · exact ⟨hi.jumpInsn, hi.jumpTarget, dozed_steady.instructions, hi.nextPc⟩
        · rw [hacc.taken] at ht
          exact (List.cons_ne_self _ _ ht).elim
      · exact ⟨hw.jumpInsn, hw.jumpTarget, hw.instructions, hw.nextPc hr⟩
    obtain ⟨hj, hg, hi, hn⟩ := hsame
    refine ⟨hj, hg, hi.trans hcount.symm, iff_of_true hn ?_⟩
    rw [hmoves, decide_eq_false hr, Bool.false_and, Bool.false_and]

variable [HostLib]

theorem executed_sequential (h : Executed ci f x) (ht : x.taken = f.taken)
    (hjump : ∀ e, ci.exec = some (.core e) → e.isJump = false) (hrfe : ci.exec ≠ some .rfe) :
    Sequential ci f x := by
  by_cases hm : ci.exec = some .mtspr
  · cases h with
    | mtspr a b he ha hb => exact sequential_mtspr he ha hb ht
    | plain c limit e he hp =>
      rw [hm] at he
      cases he
      cases hp
    | untaken e he | taken e _ _ _ he | nop _ he | rfe _ he =>
      rw [hm] at he
      cases he
  · have hctrl : f.control ci = .plain := by
      unfold control
      cases he : ci.exec with
      | none => rfl
      | some e =>
        cases e with
        | core e =>
          have hc := control_of_not_jump (f := f) he (hjump e he)
          unfold control at hc
          rw [he] at hc
          exact hc
        | rfe => exact (hrfe he).elim
        | mtspr => exact (hm he).elim
        | mem e | mfspr | nop => rfl
    cases executed_steered h with
    | plain hc _ hn hj hg hi =>
      exact ⟨hj, hg, hi, iff_of_true hn (movesPc_of_not_mtspr hm)⟩
    | jump target hc =>
      rw [hctrl] at hc
      cases hc
    | elsewhere hc =>
      have hc := hc ht
      rw [hctrl] at hc
      cases hc

/-- The program counter behind an instruction that is neither a jump nor `l.rfe`. -/
theorem next_iff_diverted (h : s.fetchExecute = .ok x) (ht : x.taken = s.taken)
    (hb : s.branches = false) :
    x.retire.redirect.nextPc = s.nextPc + 4#32 ↔ s.diverted = false := by
  obtain ⟨ci, f, hf, hfi, hx⟩ | ⟨-, b, c, hfb, ⟨t, addr, -, -, rfl⟩, rfl⟩ := fetchExecute_ok h
  · have hs := hfi.sameCounters
    have hjump : ∀ e, ci.exec = some (.core e) → e.isJump = false := fun e he => by
      unfold branches at hb
      rw [hf] at hb
      dsimp only at hb
      rw [he] at hb
      exact hb
    have hrfe : ci.exec ≠ some .rfe := fun he => by
      unfold branches at hb
      rw [hf] at hb
      dsimp only at hb
      rw [he] at hb
      cases hb
    have hseq := executed_sequential hx (ht.trans hs.taken.symm) hjump hrfe
    have hdiv : s.diverted = if counted ci s.instructions = s.jumpInsn then
        s.jumpTarget != s.nextPc + 4#32 else f.movesPc ci := by
      unfold diverted
      rw [hf]
    rw [redirect_nextPc, hseq.instructions, hseq.jumpInsn, hseq.jumpTarget, hs.instructions,
      hs.jumpInsn, hs.jumpTarget, hdiv]
    by_cases hdue : counted ci s.instructions = s.jumpInsn
    · rw [if_pos (beq_iff_eq.2 hdue), if_pos hdue]
      simp
    · rw [if_neg (fun h => hdue (beq_iff_eq.1 h)), if_neg hdue, ← hseq.nextPc, hs.nextPc]
      exact BitVec.add_left_inj _
  · have hb : b.taken = s.taken := congrArg (·.taken) hfb.eq
    have ht : (b.entered t addr).taken = s.taken := ht
    rw [Core.entered_taken, hb] at ht
    exact (List.cons_ne_self _ _ ht).elim

end Or1k

/-! ## Resuming -/

namespace Machine

open Or1k

variable [EnvImpl σ] [HostLib] {m m' : Machine σ}

/-- A step that executes no instruction, enters no exception, and is not a write of the program
counter. -/
def waits (m : Machine σ) (a : Action σ) : Bool :=
  !(a.isRun && m.executes) && !a.writesNpc && (m.act a).all fun m' => m'.cpu.taken == m.cpu.taken

/-- What decides on the next program counter, without the instruction. -/
structure SameCourse (s s' : Or1k σ) : Prop where
  nextPc : s'.nextPc = s.nextPc
  instructions : s'.instructions = s.instructions
  jumpInsn : s'.jumpInsn = s.jumpInsn
  jumpTarget : s'.jumpTarget = s.jumpTarget

theorem waits_course {a : Action σ} (h : m.waits a = true) (hn : m.act a = some m') :
    SameCourse m.cpu m'.cpu := by
  simp only [waits, Bool.and_eq_true, Bool.not_eq_true', Bool.and_eq_false_iff] at h
  obtain ⟨⟨hx, hw⟩, ht⟩ := h
  rw [hn, Option.all_some, beq_iff_eq] at ht
  have hit : ¬IsIteration ⟨m, a, m'⟩ := by
    rintro ⟨ha, he⟩
    dsimp only at ha he
    subst ha
    rcases hx with hx | hx
    · cases hx
    · rw [he] at hx
      cases hx
  rcases act_rested hit hn with hr | hi
  · exact ⟨hr.nextPc hw, hr.instructions, hr.jumpInsn, hr.jumpTarget⟩
  · exact (hi.1 ht).elim

/-- Between two instructions control stays where it is. -/
theorem waiting_course (h : system.Steps (fun m a => m.waits a = true) m m') :
    SameCourse m.cpu m'.cpu := by
  refine h.invariant (P := fun x => SameCourse m.cpu x.cpu) (fun x a y hx hok hn => ?_)
    ⟨rfl, rfl, rfl, rfl⟩
  have hc := waits_course hok hn
  exact ⟨hc.nextPc.trans hx.nextPc, hc.instructions.trans hx.instructions,
    hc.jumpInsn.trans hx.jumpInsn, hc.jumpTarget.trans hx.jumpTarget⟩

/-- From a stop on, `m` is about to execute the first instruction, which completes without an
exception, and `n` the second. -/
structure FirstTwo (s : Or1k σ) (m n : Machine σ) : Prop where
  resumed : ∃ r, system.Steps (fun m a => m.waits a = true) ⟨.idle r, s⟩ m
  first : m.executes = true
  completed : ∃ m' x, m.next = some m' ∧ m.cpu.beginCycle.fetchExecute = .ok x ∧
    x.taken = m.cpu.taken ∧ system.Steps (fun m a => m.waits a = true) m' n
  second : n.executes = true

/-- The first instruction is at the program counter of the stop; where the second one is. -/
theorem FirstTwo.course {s : Or1k σ} {m n : Machine σ} (h : FirstTwo s m n) :
    SameCourse s m.cpu ∧ (m.cpu.beginCycle.branches = false →
      (n.cpu.nextPc = m.cpu.nextPc + 4#32 ↔ m.cpu.beginCycle.diverted = false)) := by
  obtain ⟨⟨r, hr⟩, hm, ⟨m', x, hn, hf, ht, hw⟩, -⟩ := h
  refine ⟨waiting_course hr, fun hb => ?_⟩
  rcases iteration_cases hm hn with ⟨limit, y, hy, rfl⟩ | ⟨y, hy, -⟩
  · cases hf.symm.trans hy
    rw [(waiting_course hw).nextPc, retired_cpu]
    exact next_iff_diverted hf ht hb
  · cases hf.symm.trans hy

/-- Both machines, for the actions up to each of the instructions. -/
def firstTwo (s : Or1k σ) (before after : List (Action σ)) : Option (Machine σ × Machine σ) := do
  let m ← system.runsIf (fun m a => m.waits a) before ⟨.idle none, s⟩
  let m' ← m.next
  let n ← system.runsIf (fun m a => m.waits a) after m'
  if m.executes && m'.phase != .idle none && m'.cpu.taken == m.cpu.taken && n.executes then some (m, n)
  else none

theorem firstTwo_of {s : Or1k σ} {before after : List (Action σ)} {m n : Machine σ}
    (h : firstTwo s before after = some (m, n)) : FirstTwo s m n := by
  obtain ⟨m₁, hm₁, h⟩ := Option.bind_eq_some_iff.1 h
  obtain ⟨m', hm', h⟩ := Option.bind_eq_some_iff.1 h
  obtain ⟨n₁, hn₁, h⟩ := Option.bind_eq_some_iff.1 h
  split at h
  · rename_i hc
    cases h
    simp only [Bool.and_eq_true, bne_iff_ne, beq_iff_eq] at hc
    obtain ⟨⟨⟨hx, hp⟩, ht⟩, hn⟩ := hc
    refine ⟨⟨none, System.steps_of_runsIf hm₁⟩, hx, ?_, hn⟩
    rcases iteration_cases hx hm' with ⟨limit, x, hf, he⟩ | ⟨x, -, rfl⟩
    · refine ⟨m', x, hm', hf, ?_, System.steps_of_runsIf hn₁⟩
      rw [he, retired_cpu, redirect_counters.2.2.2] at ht
      exact ht
    · exact absurd rfl hp
  · cases h

end Machine

/-! ## Packets that write the program counter -/

namespace Gdb

inductive PcPacket where
  | one
  | all
  | remote
  deriving DecidableEq, Repr

/-- The command asks for the value in NPC: `P` for register 33, `G`, or `writespr` in `qRcmd`. -/
inductive WritesPc (v : U32) : PcPacket → List U8 → Prop where
  | one {ds es : List U8} (hd : Spells ds 33#32) (he : Spells es v) :
      WritesPc v .one (chr 'P' :: (ds ++ chr '=' :: es) ++ [0#8])
  | all (vals : Fin 35 → U32) (rest : List U8) (hv : vals 33 = v) :
      WritesPc v .all (chr 'G' :: (payload vals ++ rest) ++ [0#8])
  | remote {hex ds es : List U8} (hh : ∀ c ∈ hex, c ≠ 0#8) (hl : hex.length % 2 = 0)
      (ht : rcmdText hex = ascii "writespr " ++ (ds ++ chr ' ' :: es))
      (hd : Spells ds SpReg.npc.num) (hd4 : ds.length ≤ 4) (he : Spells es v) (he8 : es.length ≤ 8) :
      WritesPc v .remote (ascii "qRcmd," ++ hex ++ [0#8])

/-- The value that arrives: `G` reads its digits backwards. -/
def PcPacket.value (p : PcPacket) (v : U32) : U32 :=
  if p = .all then str2int (hexWord v) else v

section Packets

variable [EnvImpl σ] {g g' : Gdb σ} {p : PcPacket} {v : U32} {text : List U8}

open Machine

/-- A state with another program counter. -/
structure Moved (s s' : Or1k σ) (v : U32) : Prop where
  nextPc : s'.nextPc = v
  instructions : s'.instructions = s.instructions
  jumpInsn : s'.jumpInsn = s.jumpInsn
  jumpTarget : s'.jumpTarget = s.jumpTarget

omit [EnvImpl σ] in
theorem written_course (s : Or1k σ) (reg : Fin 35) (val : U32) :
    (written s reg val).instructions = s.instructions ∧
      (written s reg val).jumpInsn = s.jumpInsn ∧ (written s reg val).jumpTarget = s.jumpTarget := by
  unfold written
  split_ifs <;> exact ⟨rfl, rfl, rfl⟩

/-- `G` leaves the counters alone. -/
theorem writeRegs_course {str : List U8} {rs : List (Fin 35)} (h : writeRegs str rs g = .ok g') :
    g'.cpu.instructions = g.cpu.instructions ∧ g'.cpu.jumpInsn = g.cpu.jumpInsn ∧
      g'.cpu.jumpTarget = g.cpu.jumpTarget := by
  induction rs generalizing g with
  | nil =>
    cases h
    exact ⟨rfl, rfl, rfl⟩
  | cons reg rs ih =>
    obtain ⟨digits, -, h⟩ := Outcome.bind_eq_ok.1 h
    obtain ⟨g₁, hg₁, h⟩ := Outcome.bind_eq_ok.1 h
    rw [writeReg_eq] at hg₁
    cases hg₁
    obtain ⟨hi, hj, ht⟩ := ih h
    obtain ⟨hi', hj', ht'⟩ := written_course g.cpu reg (str2int digits)
    exact ⟨hi.trans hi', hj.trans hj', ht.trans ht'⟩

/-- Spaces in front of a digit string are skipped, and nothing else. -/
theorem dropWhile_spells {ds rest : List U8} (hd : Spells ds v) :
    (chr ' ' :: (ds ++ rest)).dropWhile isSpace = ds ++ rest := by
  obtain ⟨c, cs, rfl⟩ := List.exists_cons_of_ne_nil hd.nonempty
  have hspace := (digit_facts (hd.digits c List.mem_cons_self)).1
  rw [List.dropWhile_cons_of_pos rfl, List.cons_append,
    List.dropWhile_cons_of_neg (by rw [hspace]; exact Bool.false_ne_true)]

/-- `writespr` with the number of NPC. -/
theorem handleRcmd_writespr {hex ds es : List U8} (hh : ∀ c ∈ hex, c ≠ 0#8)
    (hl : hex.length % 2 = 0) (ht : rcmdText hex = ascii "writespr " ++ (ds ++ chr ' ' :: es))
    (hd : Spells ds SpReg.npc.num) (hd4 : ds.length ≤ 4) (he : Spells es v) (he8 : es.length ≤ 8) :
    g.handleRcmd (ascii "qRcmd," ++ hex ++ [0#8] ++ [0#8]) =
      (g.withCpu { g.cpu.requestBreak with nextPc := v }).send (ascii "OK") := by
  have hcmd : cstr ((ascii "qRcmd," ++ hex ++ [0#8] ++ [0#8]).drop 6) = hex := by
    have hdrop : (ascii "qRcmd," ++ hex ++ [0#8] ++ [0#8]).drop 6 = hex ++ ([0#8] ++ [0#8]) := by
      rw [List.append_assoc, List.append_assoc]
      rfl
    rw [hdrop, cstr_append hh]
    exact List.append_nil _
  have hs : cstr (rcmdText hex) = ascii "writespr " ++ (ds ++ chr ' ' :: es) := by
    rw [ht]
    have htext : ∀ c ∈ ascii "writespr ", c ≠ 0#8 := by decide
    refine cstr_of_forall fun c hc => ?_
    rcases List.mem_append.1 hc with hc | hc
    · exact htext c hc
    · rcases List.mem_append.1 hc with hc | hc
      · exact hd.ne_zero c hc
      · rcases List.mem_cons.1 hc with rfl | hc
        · decide
        · exact he.ne_zero c hc
  have hend : EndsNumber (chr ' ' :: es) := by
    intro c h
    cases h
    decide
  have hnpc : g.setSpr SpReg.npc.num v = .ok (g.withCpu { g.cpu.requestBreak with nextPc := v }) :=
    writeReg_eq g 33 v
  have hread : scanText (ascii "readspr") (ascii "writespr " ++ (ds ++ chr ' ' :: es)) = none := rfl
  have hwrite : scanText (ascii "writespr") (ascii "writespr " ++ (ds ++ chr ' ' :: es)) =
      some (chr ' ' :: (ds ++ chr ' ' :: es)) := rfl
  have hreg : scanHex 4 (ds ++ chr ' ' :: es) = some (SpReg.npc.num, chr ' ' :: es) :=
    scanHex_spells hd hend hd4
  have hval : scanHex 8 es = some (v, []) := by
    have h : scanHex 8 (es ++ []) = some (v, []) := scanHex_spells he nofun he8
    rwa [List.append_nil] at h
  have hspace : (chr ' ' :: es).dropWhile isSpace = es := by
    have h : (chr ' ' :: (es ++ [])).dropWhile isSpace = es ++ [] := dropWhile_spells he
    rwa [List.append_nil] at h
  unfold handleRcmd
  dsimp only
  rw [hcmd, if_neg (not_not.2 hl), hs, hread, Option.bind_none]
  dsimp only
  simp only [hwrite, Option.bind_eq_bind, Option.bind_some, dropWhile_spells hd, hreg, hspace, hval]
  rw [hnpc, Outcome.ok_bind]

/-- What the packet does to the CPU. -/
theorem execute_writesPc (hw : WritesPc v p text) (hg : g.execute text = .ok g') :
    Moved g.cpu g'.cpu (p.value v) := by
  suffices hends : Outcome.Ends (fun x : Gdb σ => Moved g.cpu x.cpu (p.value v))
      (fun x => Moved g.cpu x.cpu (p.value v)) (g.execute text) by
    rw [hg] at hends
    cases hends with
    | ok hx => exact hx
  cases hw with
  | @one ds es hd he =>
    refine execute_handled (h := ('P', handleRegWrite)) (fun x text hx => send_ends (fun r => hx) text) rfl ?_
    have hc : chr 'P' :: (ds ++ chr '=' :: es) ++ [0#8] ++ [0#8] =
        command 'P' (ds ++ chr '=' :: es) := List.append_assoc ..
    have hr : g.handleRegWrite (command 'P' (ds ++ chr '=' :: es)) =
        (g.withCpu (written g.cpu 33 v)).send (ascii "OK") := handleRegWrite_spells hd he
    dsimp only
    rw [hc, hr]
    exact send_ends (fun r => ⟨rfl, rfl, rfl, rfl⟩) _
  | all vals rest hv =>
    refine execute_handled (h := ('G', handleRegWriteAll)) (fun x text hx => send_ends (fun r => hx) text) rfl ?_
    have hstr : (chr 'G' :: (payload vals ++ rest) ++ [0#8] ++ [0#8]).drop 1 =
        payload vals ++ (rest ++ ([0#8] ++ [0#8])) := by
      rw [List.cons_append, List.cons_append, List.drop_one, List.tail_cons, List.append_assoc,
        List.append_assoc]
    have hlen : ∀ reg ∈ List.finRange 35,
        reg.val * 8 + 8 ≤ (payload vals ++ (rest ++ ([0#8] ++ [0#8]))).length := fun reg _ => by
      rw [List.length_append, length_payload]
      omega
    obtain ⟨s, hs, hreg⟩ := writeRegs_eq hlen g
    have hpc : s.nextPc = str2int (hexWord v) := by
      have h33 := hreg 33
      rw [if_pos (List.mem_finRange _), digitsAt, payload_slice, hv] at h33
      exact h33
    obtain ⟨hi, hj, ht⟩ := writeRegs_course hs
    dsimp only
    unfold handleRegWriteAll
    rw [hstr, hs, Outcome.ok_bind]
    exact send_ends (fun r => ⟨hpc, hi, hj, ht⟩) _
  | @remote hex ds es hh hl ht hd hd4 he he8 =>
    refine execute_handled (h := ('q', handleQuery)) (fun x text hx => send_ends (fun r => hx) text) rfl ?_
    have hq : g.handleQuery (ascii "qRcmd," ++ hex ++ [0#8] ++ [0#8]) =
        g.handleRcmd (ascii "qRcmd," ++ hex ++ [0#8] ++ [0#8]) := rfl
    dsimp only
    rw [hq, handleRcmd_writespr hh hl ht hd hd4 he he8]
    exact send_ends (fun r => ⟨rfl, rfl, rfl, rfl⟩) _

/-- The first instruction is at the value that was written, and the second at the next address, if
and only if the value arrives and the first instruction is not diverted. -/
theorem written_pc_iff (hw : WritesPc v p text) (hg : g.execute text = .ok g') [HostLib]
    {m n : Machine σ} (h : FirstTwo g'.cpu m n) :
    (m.cpu.nextPc = v ∧ (m.cpu.beginCycle.branches = false → n.cpu.nextPc = v + 4#32)) ↔
      (p = .all → Palindrome v) ∧
        (m.cpu.beginCycle.branches = false → m.cpu.beginCycle.diverted = false) := by
  have hmoved := execute_writesPc hw hg
  obtain ⟨hcourse, hsecond⟩ := h.course
  have hpc : m.cpu.nextPc = p.value v := hcourse.nextPc.trans hmoved.nextPc
  have hfirst : m.cpu.nextPc = v ↔ (p = .all → Palindrome v) := by
    rw [hpc, PcPacket.value]
    by_cases ha : p = .all
    · rw [if_pos ha, str2int_hexWord_iff]
      exact ⟨fun h _ => h, fun h => h ha⟩
    · rw [if_neg ha]
      exact iff_of_true rfl fun h => absurd h ha
  rw [← hfirst]
  refine and_congr_right fun hv => forall_congr' fun hb => ?_
  rw [← hsecond hb, hv]

end Packets

section Plain

open Machine

attribute [local instance] HostLib.plain

/-- A jump to 0x140, and `l.nop` at 0x200. -/
def jumping : Session Memory :=
  { stub := .init (Memory.boot [(0x100, 0x00000010#32), (0x200, 0x15000000#32)]).cpu none
      { isOpen := true, input := [], output := [] }, sim := .ready }

def pcPacket : List U8 := ascii "P21=200" ++ [0#8]

theorem writesPc_pcPacket : WritesPc 0x200#32 .one pcPacket := by
  have hd : Spells (ascii "21") 33#32 := ⟨by decide, by decide, by decide⟩
  have he : Spells (ascii "200") 0x200#32 := ⟨by decide, by decide, by decide⟩
  exact .one hd he

/-- The program is stopped in front of the delay slot; the second instruction is at the target of
the jump. -/
theorem written_pc_fails : ∃ (s : Session Memory) (g' : Gdb Memory) (m n : Machine Memory),
    Session.system.Run jumping s ∧ s.stub.mode = .halted ∧ WritesPc 0x200#32 .one pcPacket ∧
    s.stub.execute pcPacket = .ok g' ∧ FirstTwo g'.cpu m n ∧ n.cpu.nextPc = 0x140#32 ∧
    ¬(m.cpu.nextPc = 0x200#32 ∧
      (m.cpu.beginCycle.branches = false → n.cpu.nextPc = 0x200#32 + 4#32)) := by
  obtain ⟨s, hr, hs⟩ := Session.system.exists_run jumping (Session.stepInsn 5)
    (fun s : Session Memory => decide (s.stub.mode = .halted) &&
      (((s.stub.execute pcPacket).value?.bind fun g' => firstTwo g'.cpu [.call 2#32, .run] []).any
        fun x => decide (x.1.cpu.beginCycle.branches = false ∧ x.2.cpu.nextPc = 0x140#32)))
    (by decide +kernel)
  rw [Bool.and_eq_true] at hs
  obtain ⟨⟨m, n⟩, hmn, hpc⟩ := (Option.any_eq_true _ _).1 hs.2
  obtain ⟨g', hg', htwo⟩ := Option.bind_eq_some_iff.1 hmn
  obtain ⟨hb, hn⟩ := of_decide_eq_true hpc
  refine ⟨s, g', m, n, hr, of_decide_eq_true hs.1, writesPc_pcPacket, Outcome.value?_eq_some.1 hg',
    firstTwo_of htwo, hn, fun h => ?_⟩
  have hnext := h.2 hb
  rw [hn] at hnext
  cases hnext

/-- In front of the jump nothing is pending. -/
theorem written_pc_reset : ∃ m n : Machine Memory, m.cpu.nextPc = 0x200#32 ∧
    (m.cpu.beginCycle.branches = false → n.cpu.nextPc = 0x200#32 + 4#32) := by
  have hsome : (((jumping.stub.execute pcPacket).value?.bind fun g' =>
      firstTwo g'.cpu [.call 2#32, .run] []).any fun x =>
        x.1.cpu.beginCycle.diverted == false) = true := by decide +kernel
  obtain ⟨⟨m, n⟩, hmn, hdiv⟩ := (Option.any_eq_true _ _).1 hsome
  obtain ⟨g', hg', htwo⟩ := Option.bind_eq_some_iff.1 hmn
  exact ⟨m, n, (written_pc_iff writesPc_pcPacket (Outcome.value?_eq_some.1 hg') (firstTwo_of htwo)).2
    ⟨PcPacket.noConfusion, fun _ => beq_iff_eq.1 hdiv⟩⟩

end Plain

end Gdb

end Or1kiss
