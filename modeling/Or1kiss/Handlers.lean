import Mathlib.Data.List.Nodup
import Or1kiss.RegPackets

/-!
# What handlers do not touch

A packet changes the CPU, adds to the output, and may clear the page cache or change the mode. A
property that these changes keep holds behind every handler, also where it throws. The memory
packets add to the page cache as well; what the others write to the registers is in their text
(`registersWritten`).
-/

namespace Or1kiss

open Host

variable {σ : Type}

namespace Gdb

/-- The property survives what a handler does to the stub, the page cache apart. -/
structure Invariant (P : Gdb σ → Prop) : Prop where
  withCpu : ∀ {x : Gdb σ} (s : Or1k σ), P x → P (x.withCpu s)
  sent : ∀ {x : Gdb σ} (output : List U8), P x → P (x.withRsp { x.rsp with output := output })
  cleared : ∀ {x : Gdb σ}, P x → P { x with tlb := fun _ => 0#32 }
  mode : ∀ {x : Gdb σ} (mode : GdbMode), P x → P { x with mode := mode }
  detached : ∀ {x : Gdb σ}, P x → P { x with detached := true }

/-- The property survives what a handler does that writes neither registers nor memory. -/
structure PointInvariant (P : Gdb σ → Prop) : Prop where
  points : ∀ {x : Gdb σ} (b : List U32) (r w : List Watchpoint), P x →
    P (x.withCpu { x.cpu with breakpoints := b, watchpointsR := r, watchpointsW := w })
  sent : ∀ {x : Gdb σ} (output : List U8), P x → P (x.withRsp { x.rsp with output := output })
  cleared : ∀ {x : Gdb σ}, P x → P { x with tlb := fun _ => 0#32 }
  mode : ∀ {x : Gdb σ} (mode : GdbMode), P x → P { x with mode := mode }
  detached : ∀ {x : Gdb σ}, P x → P { x with detached := true }

variable {P : Gdb σ → Prop} {g x : Gdb σ}

theorem Invariant.pointInvariant (hP : Invariant P) : PointInvariant P where
  points _ _ _ h := hP.withCpu _ h
  sent := hP.sent
  cleared := hP.cleared
  mode := hP.mode
  detached := hP.detached

/-- An answer, or the exception of a closed connection. -/
theorem sendPacket_ends
    (hs : ∀ {x : Gdb σ} (output : List U8), P x → P (x.withRsp { x.rsp with output := output }))
    (h : P x) (p : Packet) : Outcome.Ends P P ((x.rsp.send p).lift x.withRsp x.withRsp) := by
  unfold Rsp.send
  split
  · exact .ok (hs _ h)
  · exact .throw h

theorem Invariant.send (hP : Invariant P) (h : P x) (text : List U8) :
    Outcome.Ends P P (x.send text) := sendPacket_ends hP.sent h _

theorem PointInvariant.send (hP : PointInvariant P) (h : P x) (text : List U8) :
    Outcome.Ends P P (x.send text) := sendPacket_ends hP.sent h _

section Handlers

variable [EnvImpl σ]

/-! ## Registers read, and breakpoints -/

omit [EnvImpl σ] in
theorem PointInvariant.handleRegRead (hP : PointInvariant P) (h : P g) (command : List U8) :
    Outcome.Ends P P (g.handleRegRead command) := by
  unfold Gdb.handleRegRead
  split
  · split
    · exact hP.send h _
    · exact .throw h
  · exact .throw h

omit [EnvImpl σ] in
/-- A breakpoint comes or goes. -/
theorem PointInvariant.breakpoint (hP : PointInvariant P) (h : P x) (addr : U32) :
    P (x.withCpu (x.cpu.insertBreakpoint addr)) ∧ P (x.withCpu (x.cpu.removeBreakpoint addr)) := by
  refine ⟨?_, hP.points _ _ _ h⟩
  unfold Or1k.insertBreakpoint
  split
  · exact h
  · exact hP.points _ _ _ h

omit [EnvImpl σ] in
/-- A watchpoint comes or goes. -/
theorem PointInvariant.watchpoint (hP : PointInvariant P) (h : P x) (write : Bool)
    (wp : Watchpoint) : P (x.withCpu (x.cpu.insertWatchpoint write wp)) ∧
      P (x.withCpu (x.cpu.removeWatchpoint write wp)) := by
  cases write <;> exact ⟨hP.points _ _ _ h, hP.points _ _ _ h⟩

omit [EnvImpl σ] in
theorem PointInvariant.handleBreakpointSet (hP : PointInvariant P) (h : P g)
    (command : List U8) : Outcome.Ends P P (g.handleBreakpointSet command) := by
  unfold Gdb.handleBreakpointSet
  split
  · dsimp only
    split_ifs
    · exact hP.send (hP.breakpoint h _).1 _
    · exact hP.send (hP.watchpoint h true _).1 _
    · exact hP.send (hP.watchpoint h false _).1 _
    · exact hP.send (hP.watchpoint (hP.watchpoint h true _).1 false _).1 _
    · exact .throw h
  · exact .throw h

omit [EnvImpl σ] in
theorem PointInvariant.handleBreakpointDelete (hP : PointInvariant P) (h : P g)
    (command : List U8) : Outcome.Ends P P (g.handleBreakpointDelete command) := by
  unfold Gdb.handleBreakpointDelete
  split
  · dsimp only
    split_ifs
    · exact hP.send (hP.breakpoint h _).2 _
    · exact hP.send (hP.watchpoint h true _).2 _
    · exact hP.send (hP.watchpoint h false _).2 _
    · exact hP.send (hP.watchpoint (hP.watchpoint h true _).2 false _).2 _
    · exact .throw h
  · exact .throw h

/-! ## What a packet writes to the registers -/

/-- Register and value of a `P` packet. -/
def regWriteArgs (command : List U8) : Option (U32 × U32) := do
  let s ← scanChar (chr 'P') (cstr command)
  let (reg, s) ← scanHexAny s
  let s ← scanChar (chr '=') s
  let (val, _) ← scanHexAny s
  some (reg, val)

/-- Register and value of a `writespr`. -/
def writesprArgs (s : List U8) : Option (U32 × U32) := do
  let s ← scanText (ascii "writespr") s
  let (reg, s) ← scanHex 4 (s.dropWhile isSpace)
  let (val, _) ← scanHex 8 (s.dropWhile isSpace)
  some (reg, val)

/-- The same for the packet that it comes in. -/
def sprWriteArgs (command : List U8) : Option (U32 × U32) :=
  let cmd := cstr (command.drop 6)
  if (ascii "qRcmd").isPrefixOf command ∧ cmd.length % 2 = 0 then writesprArgs (cstr (rcmdText cmd))
  else none

/-- The simulator behind the register writes of a packet, by its text. -/
def registersWritten (s : Or1k σ) (command : List U8) : Or1k σ :=
  let c := command.headD 0#8
  let text := command ++ [0#8]
  if c = chr 'P' then
    match regWriteArgs text with
    | some (reg, val) => if h : reg.toNat < 35 then written s ⟨reg.toNat, h⟩ val else s
    | none => s
  else if c = chr 'G' then
    (List.finRange 35).foldl (fun s reg => written s reg (digitsAt (text.drop 1) reg)) s
  else if c = chr 'q' then
    match sprWriteArgs text with
    | some (reg, val) => s.sprWritten reg val true
    | none => s
  else s

theorem handleRegWrite_eq (g : Gdb σ) (text : List U8) : g.handleRegWrite text =
    match regWriteArgs text with
    | some (reg, val) => if h : reg.toNat < 35 then do
        (← g.writeReg ⟨reg.toNat, h⟩ val).send (ascii "OK") else .throw g
    | none => .throw g := rfl

theorem PointInvariant.handleRegWrite (hP : PointInvariant P) {text : List U8}
    (h : P (g.withCpu (match regWriteArgs text with
      | some (reg, val) => if h : reg.toNat < 35 then written g.cpu ⟨reg.toNat, h⟩ val else g.cpu
      | none => g.cpu))) : Outcome.Ends P P (g.handleRegWrite text) := by
  rw [handleRegWrite_eq]
  cases he : regWriteArgs text with
  | none =>
    rw [he] at h
    exact .throw h
  | some args =>
    obtain ⟨reg, val⟩ := args
    rw [he] at h
    dsimp only at h ⊢
    split
    · rename_i hlt
      rw [dif_pos hlt] at h
      rw [writeReg_eq, Outcome.ok_bind]
      exact hP.send h _
    · rename_i hlt
      rw [dif_neg hlt] at h
      exact .throw h

/-- A payload that is too short is read behind its end. -/
theorem writeRegs_ends (str : List U8) (rs : List (Fin 35)) {Q : Gdb σ → Prop}
    (h : P (g.withCpu (rs.foldl (fun s reg => written s reg (digitsAt str reg)) g.cpu))) :
    Outcome.Ends Q P (writeRegs str rs g) := by
  induction rs generalizing g with
  | nil => exact .ok h
  | cons reg rs ih =>
    rw [writeRegs]
    unfold chars
    split
    · rw [Outcome.ok_bind, writeReg_eq, Outcome.ok_bind]
      exact ih (g := g.withCpu _) h
    · exact .fault _

omit [EnvImpl σ] in
theorem scanText_ne {c d : U8} (hc : d ≠ c) (cs s : List U8) : scanText (c :: cs) (d :: s) = none := by
  have hd : scanChar c (d :: s) = none := if_neg hc
  show (scanChar c (d :: s)).bind _ = none
  rw [hd]
  rfl

omit [EnvImpl σ] in
theorem writesprArgs_of_readspr {s rest : List U8}
    (h : scanText (ascii "readspr") s = some rest) : writesprArgs s = none := by
  have hr : ascii "readspr" = chr 'r' :: ascii "eadspr" := rfl
  have hw : ascii "writespr" = chr 'w' :: ascii "ritespr" := rfl
  have hnone : scanText (ascii "writespr") s = none := by
    cases s with
    | nil => rfl
    | cons c s =>
      by_cases hc : c = chr 'w'
      · subst hc
        rw [hr, scanText_ne (by decide)] at h
        cases h
      · rw [hw, scanText_ne hc]
  unfold writesprArgs
  rw [hnone]
  rfl

theorem setSpr_written (g : Gdb σ) (reg val : U32) :
    g.setSpr reg val = .ok (g.withCpu (g.cpu.sprWritten reg val true)) := by
  unfold setSpr
  rw [Or1k.setSpr_eq]
  rfl

theorem handleRcmd_eq (g : Gdb σ) (text : List U8) : g.handleRcmd text =
    if (cstr (text.drop 6)).length % 2 ≠ 0 then .throw g
    else
      match (scanText (ascii "readspr") (cstr (rcmdText (cstr (text.drop 6))))).bind
        fun s => scanHex 4 (s.dropWhile isSpace) with
      | some (reg, _) => g.send (rcmdReply (hexPadded (chr ' ') 8 (g.cpu.getSpr reg true)))
      | none =>
        match writesprArgs (cstr (rcmdText (cstr (text.drop 6)))) with
        | some (reg, val) => do (← g.setSpr reg val).send (ascii "OK")
        | none => .throw g := rfl

theorem PointInvariant.handleRcmd (hP : PointInvariant P) {text : List U8}
    (hq : (ascii "qRcmd").isPrefixOf text = true)
    (h : P (g.withCpu (match sprWriteArgs text with
      | some (reg, val) => g.cpu.sprWritten reg val true
      | none => g.cpu))) : Outcome.Ends P P (g.handleRcmd text) := by
  rw [handleRcmd_eq]
  unfold sprWriteArgs at h
  dsimp only at h
  by_cases hl : (cstr (text.drop 6)).length % 2 = 0
  · rw [if_neg (not_not.2 hl)]
    rw [if_pos ⟨hq, hl⟩] at h
    generalize cstr (rcmdText (cstr (text.drop 6))) = s at h ⊢
    cases hr : (scanText (ascii "readspr") s).bind fun s => scanHex 4 (s.dropWhile isSpace) with
    | some r =>
      -- what reads a register does not write one
      obtain ⟨rest, hs, -⟩ := Option.bind_eq_some_iff.1 hr
      rw [writesprArgs_of_readspr hs] at h
      exact hP.send h _
    | none =>
      cases he : writesprArgs s with
      | none =>
        rw [he] at h
        exact .throw h
      | some args =>
        obtain ⟨reg, val⟩ := args
        rw [he] at h
        dsimp only at h ⊢
        rw [setSpr_written, Outcome.ok_bind]
        exact hP.send h _
  · rw [if_pos hl]
    rw [if_neg fun h => hl h.2] at h
    exact .throw h

theorem handleQuery_rcmd {text : List U8} (hq : (ascii "qRcmd").isPrefixOf text = true) :
    g.handleQuery text = g.handleRcmd text := by
  obtain ⟨rest, rfl⟩ := List.isPrefixOf_iff_prefix.1 hq
  rfl

theorem PointInvariant.handleQuery (hP : PointInvariant P) {text : List U8}
    (h : P (g.withCpu (match sprWriteArgs text with
      | some (reg, val) => g.cpu.sprWritten reg val true
      | none => g.cpu))) : Outcome.Ends P P (g.handleQuery text) := by
  by_cases hq : (ascii "qRcmd").isPrefixOf text = true
  · rw [handleQuery_rcmd hq]
    exact hP.handleRcmd hq h
  · -- any other query only answers
    have hnone : sprWriteArgs text = none := if_neg fun h => hq h.1
    rw [hnone] at h
    unfold Gdb.handleQuery
    split_ifs <;> exact hP.send h _

/-! ## Memory -/

/-- The property survives what a memory packet does to the stub. -/
structure MemoryInvariant (P : Gdb σ → Prop) : Prop where
  moved : ∀ {x : Gdb σ} (d i : Mmu) (env : Env σ), P x →
    P (x.withCpu (x.cpu.withCore { x.cpu.toCore with dmmu := d, immu := i, env := env }))
  sent : ∀ {x : Gdb σ} (output : List U8), P x → P (x.withRsp { x.rsp with output := output })
  cached : ∀ {x : Gdb σ} (tlb : U32 → U32), P x → P { x with tlb := tlb }

omit [EnvImpl σ] in
theorem Invariant.memory (hP : Invariant P)
    (hc : ∀ {x : Gdb σ} (tlb : U32 → U32), P x → P { x with tlb := tlb }) : MemoryInvariant P where
  moved _ _ _ h := hP.withCpu _ h
  sent := hP.sent
  cached := hc

section Cached

variable (hP : MemoryInvariant P)
include hP

theorem MemoryInvariant.memRead (h : P x) (phys : U32) (n : Nat) :
    Outcome.Ends P (fun r => P r.2) (x.memRead phys n) := by
  unfold Gdb.memRead
  dsimp only
  split
  · exact .ok (hP.moved _ _ _ h)
  · exact .throw (hP.moved _ _ _ h)

theorem MemoryInvariant.memWrite (h : P x) (phys : U32) (bytes : List U8) :
    Outcome.Ends P P (x.memWrite phys bytes) := by
  unfold Gdb.memWrite
  dsimp only
  split
  · exact .ok (hP.moved _ _ _ h)
  · exact .throw (hP.moved _ _ _ h)

theorem MemoryInvariant.translate (h : P x) (addr : U32) : P (x.translate addr).2 := by
  have step : ∀ (y : Gdb σ) (active : Bool) (req : Request)
      (tr : Gdb σ → Request → MmuResult × Gdb σ × Request), P y → P (tr y req).2.1 →
      P (if active then tr y req else (.tlbMiss, y, req)).2.1 := fun y active req tr hy ht => by
    cases active with
    | true => exact ht
    | false => exact hy
  unfold Gdb.translate
  split
  · exact h
  · dsimp only
    have h₁ := step x x.cpu.isDmmuActive (x.dataRequest true addr) translateDmmu h (hP.moved _ _ _ h)
    generalize (if x.cpu.isDmmuActive then x.translateDmmu (x.dataRequest true addr)
      else (.tlbMiss, x, x.dataRequest true addr)) = r at h₁ ⊢
    obtain ⟨res, y, req⟩ := r
    dsimp only at h₁ ⊢
    split
    · exact h₁
    · have h₂ := step y y.cpu.isImmuActive req translateImmu h₁ (hP.moved _ _ _ h₁)
      generalize (if y.cpu.isImmuActive then y.translateImmu req else (.tlbMiss, y, req)) = r at h₂ ⊢
      obtain ⟨res, z, req⟩ := r
      dsimp only at h₂ ⊢
      split <;> exact h₂

theorem MemoryInvariant.toPhys (h : P x) (addr : U32) :
    Outcome.Ends P (fun r => P r.2) (x.toPhys addr) := by
  have ht := hP.translate h addr
  unfold Gdb.toPhys
  dsimp only
  split
  · exact .ok h
  · split
    · rename_i phys y he
      rw [he] at ht
      exact .ok (hP.cached _ ht)
    · rename_i y he
      rw [he] at ht
      exact .throw ht

theorem MemoryInvariant.readLoop (h : P x) (fuel : Nat) (addr : U32) (length : Nat) (text : List U8) :
    Outcome.Ends P (fun r => P r.2) (readLoop fuel addr length x text) := by
  induction fuel generalizing x addr length text with
  | zero => exact .ok h
  | succ fuel ih =>
    rw [Gdb.readLoop]
    split
    · refine (hP.toPhys h addr).bind fun a ha => ?_
      exact (hP.memRead ha _ _).bind fun b hb => ih hb _ _ _
    · exact .ok h

theorem MemoryInvariant.writeLoop (convert : Nat → List U8 → Option (List U8 × List U8)) (h : P x)
    (fuel : Nat) (addr : U32) (length : Nat) (data : List U8) :
    Outcome.Ends P P (writeLoop convert fuel addr length data x) := by
  induction fuel generalizing x addr length data with
  | zero => exact .ok h
  | succ fuel ih =>
    rw [Gdb.writeLoop]
    split
    · refine (hP.toPhys h addr).bind fun a ha => ?_
      dsimp only
      split
      · exact (hP.memWrite ha _ _).bind fun b hb => ih hb _ _ _
      · exact .fault _
    · exact .ok h

theorem MemoryInvariant.handleMemRead (h : P g) (command : List U8) :
    Outcome.Ends P P (g.handleMemRead command) := by
  unfold Gdb.handleMemRead
  split
  · exact (hP.readLoop h _ _ _ _).bind fun a ha => sendPacket_ends hP.sent ha _
  · exact .throw h

theorem MemoryInvariant.handleMemWrite (h : P g) (command : List U8) :
    Outcome.Ends P P (g.handleMemWrite command) := by
  unfold Gdb.handleMemWrite
  split
  · split
    · exact .throw h
    · split
      · exact (hP.writeLoop _ h _ _ _ _).bind fun a ha => sendPacket_ends hP.sent ha _
      · exact .throw h
  · exact .throw h

theorem MemoryInvariant.handleMemWriteBin (h : P g) (command : List U8) :
    Outcome.Ends P P (g.handleMemWriteBin command) := by
  unfold Gdb.handleMemWriteBin
  split
  · split
    · exact .throw h
    · split
      · exact sendPacket_ends hP.sent h _
      · split
        · exact (hP.writeLoop _ h _ _ _ _).bind fun a ha => sendPacket_ends hP.sent ha _
        · exact .throw h
  · exact .throw h

end Cached

/-! ## All handlers -/

/-- No two handlers are for the same character. -/
theorem handlers_inj {h k : Char × (Gdb σ → List U8 → Outcome (Gdb σ) (Gdb σ))}
    (hm : h ∈ handlers) (hk : k ∈ handlers) (he : chr h.1 = chr k.1) : h = k := by
  have hchars : handlers.map (fun h : Char × (Gdb σ → List U8 → Outcome (Gdb σ) (Gdb σ)) =>
      chr h.1) = ascii "qscDkpPgGmMXZzHv?" := rfl
  have hnodup : (ascii "qscDkpPgGmMXZzHv?").Nodup := by decide
  exact List.inj_on_of_nodup_map (hchars ▸ hnodup) hm hk he

/-- A handler that writes neither registers nor memory. -/
theorem PointInvariant.handler (hP : PointInvariant P)
    {h : Char × (Gdb σ → List U8 → Outcome (Gdb σ) (Gdb σ))} (hm : h ∈ handlers)
    (hne : ∀ c ∈ ['q', 'P', 'G', 'm', 'M', 'X'], chr h.1 ≠ chr c) (hg : P g) (command : List U8) :
    Outcome.Ends P P (h.2 g command) := by
  unfold handlers at hm
  simp only [List.mem_cons, List.not_mem_nil, or_false] at hm
  rcases hm with rfl | rfl | rfl | rfl | rfl | rfl | rfl | rfl | rfl | rfl | rfl | rfl | rfl | rfl |
    rfl | rfl | rfl
  · exact (hne 'q' (by simp) rfl).elim
  · exact .ok (hP.mode .stepping (hP.cleared hg))
  · exact .ok (hP.mode .running (hP.cleared hg))
  · exact hP.send (hP.detached (hP.mode .running (hP.cleared hg))) _
  · exact .ok (hP.mode .killed hg)
  · exact hP.handleRegRead hg command
  · exact (hne 'P' (by simp) rfl).elim
  · exact hP.send hg _
  · exact (hne 'G' (by simp) rfl).elim
  · exact (hne 'm' (by simp) rfl).elim
  · exact (hne 'M' (by simp) rfl).elim
  · exact (hne 'X' (by simp) rfl).elim
  · exact hP.handleBreakpointSet hg command
  · exact hP.handleBreakpointDelete hg command
  · exact hP.send hg _
  · exact hP.send hg _
  · exact hP.send hg _

/-- A handler other than those of the memory packets. -/
theorem Invariant.handler (hP : Invariant P)
    {h : Char × (Gdb σ → List U8 → Outcome (Gdb σ) (Gdb σ))} (hm : h ∈ handlers)
    (hne : ∀ c ∈ ['m', 'M', 'X'], chr h.1 ≠ chr c) (hg : P g) (command : List U8) :
    Outcome.Ends P P (h.2 g command) := by
  by_cases hq : chr h.1 = chr 'q'
  · obtain rfl := handlers_inj hm (k := ('q', Gdb.handleQuery)) (by simp [handlers]) hq
    exact hP.pointInvariant.handleQuery (hP.withCpu _ hg)
  by_cases hp : chr h.1 = chr 'P'
  · obtain rfl := handlers_inj hm (k := ('P', Gdb.handleRegWrite)) (by simp [handlers]) hp
    exact hP.pointInvariant.handleRegWrite (hP.withCpu _ hg)
  by_cases hG : chr h.1 = chr 'G'
  · obtain rfl := handlers_inj hm (k := ('G', Gdb.handleRegWriteAll)) (by simp [handlers]) hG
    exact (writeRegs_ends _ _ (hP.withCpu _ hg)).bind fun _ hx => hP.send hx _
  refine hP.pointInvariant.handler hm (fun c hc => ?_) hg command
  simp only [List.mem_cons, List.not_mem_nil, or_false] at hc hne
  rcases hc with rfl | rfl | rfl | hc
  · exact hq
  · exact hp
  · exact hG
  · exact hne c hc

/-- The handlers of the memory packets. -/
theorem memory_handler {h : Char × (Gdb σ → List U8 → Outcome (Gdb σ) (Gdb σ))} {c : Char}
    (hm : h ∈ handlers) (hc : c ∈ ['m', 'M', 'X']) (he : chr h.1 = chr c) :
    h.2 = Gdb.handleMemRead ∨ h.2 = Gdb.handleMemWrite ∨ h.2 = Gdb.handleMemWriteBin := by
  simp only [List.mem_cons, List.not_mem_nil, or_false] at hc
  rcases hc with rfl | rfl | rfl
  · exact .inl (congrArg Prod.snd
      (handlers_inj hm (k := ('m', Gdb.handleMemRead)) (by simp [handlers]) he))
  · exact .inr (.inl (congrArg Prod.snd
      (handlers_inj hm (k := ('M', Gdb.handleMemWrite)) (by simp [handlers]) he)))
  · exact .inr (.inr (congrArg Prod.snd
      (handlers_inj hm (k := ('X', Gdb.handleMemWriteBin)) (by simp [handlers]) he)))

theorem Invariant.handled (hP : Invariant P)
    (hc : ∀ {x : Gdb σ} (tlb : U32 → U32), P x → P { x with tlb := tlb })
    {h : Char × (Gdb σ → List U8 → Outcome (Gdb σ) (Gdb σ))} (hm : h ∈ handlers) (hg : P g)
    (command : List U8) : Outcome.Ends P P (h.2 g command) := by
  by_cases hmem : ∃ c ∈ ['m', 'M', 'X'], chr h.1 = chr c
  · obtain ⟨c, hcm, he⟩ := hmem
    have hmem := hP.memory hc
    rcases memory_handler hm hcm he with he | he | he
    · rw [he]
      exact hmem.handleMemRead hg _
    · rw [he]
      exact hmem.handleMemWrite hg _
    · rw [he]
      exact hmem.handleMemWriteBin hg _
  · exact hP.handler hm (fun c hcm he => hmem ⟨c, hcm, he⟩) hg _

/-- Behind a packet that is for no memory holds what its register writes bring about. -/
theorem execute_registers {command : List U8} (hP : PointInvariant P)
    (hne : ∀ c ∈ ['m', 'M', 'X'], command.headD 0#8 ≠ chr c)
    (h : P (g.withCpu (registersWritten g.cpu command))) :
    Outcome.Ends P P (g.execute command) := by
  have hsend : ∀ (x : Gdb σ) text, P x → Outcome.Ends P P (x.send text) :=
    fun x text hx => hP.send hx text
  unfold registersWritten at h
  dsimp only at h
  by_cases hp : command.headD 0#8 = chr 'P'
  · rw [if_pos hp] at h
    refine execute_handled (h := ('P', Gdb.handleRegWrite)) hsend ?_ (hP.handleRegWrite h)
    rw [hp]
    rfl
  rw [if_neg hp] at h
  by_cases hG : command.headD 0#8 = chr 'G'
  · rw [if_pos hG] at h
    refine execute_handled (h := ('G', Gdb.handleRegWriteAll)) hsend ?_
      ((writeRegs_ends _ _ h).bind fun x hx => hP.send hx _)
    rw [hG]
    rfl
  rw [if_neg hG] at h
  by_cases hq : command.headD 0#8 = chr 'q'
  · rw [if_pos hq] at h
    refine execute_handled (h := ('q', Gdb.handleQuery)) hsend ?_ (hP.handleQuery h)
    rw [hq]
    rfl
  rw [if_neg hq] at h
  refine execute_ends hsend h fun hd hm hc => hP.handler hm (fun c hcm he => ?_) h _
  simp only [List.mem_cons, List.not_mem_nil, or_false] at hcm hne
  rcases hcm with rfl | rfl | rfl | hcm
  · exact hq (hc.symm.trans he)
  · exact hp (hc.symm.trans he)
  · exact hG (hc.symm.trans he)
  · exact hne c hcm (hc.symm.trans he)

end Handlers

end Gdb

end Or1kiss
