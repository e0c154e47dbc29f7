import Or1kiss.Memory
import Or1kiss.Transition

/-!
# The decode cache

A slot is full if it is what the handler of its word makes of it (`Instruction.Full`). Two
things get in the way: `fetch` clears and tags a slot before it calls the handler, which may
throw (`decode_na`), and the tag of an unused slot is itself an address. `decodeCache_sound_iff`
says that nothing else does.
-/

namespace Or1kiss

open Host Bits Outcome Runs

variable {σ : Type}

/-! ## Entries -/

/-- A fully decoded entry. -/
structure Instruction.Full (ci : Instruction) : Prop where
  exec_ne_null : ci.exec ≠ none
  decoded : ∃ handler, decodeTable (decode ci.insn) = some handler ∧
    ci = handler ci.insn (.blank ci.addr ci.insn)

/-- A handler sets the executor, keeps word and address, and does not look at the address. -/
theorem handler_blank {op : Opcode} {handler : U32 → Instruction → Instruction}
    (h : decodeTable op = some handler) (addr w : U32) :
    (handler w (.blank addr w)).exec ≠ none ∧ (handler w (.blank addr w)).insn = w ∧
      ∀ a, { handler w (.blank addr w) with addr := a } = handler w (.blank a w) := by
  cases op <;> cases h <;> exact ⟨nofun, rfl, fun _ => rfl⟩

theorem handler_addr {op : Opcode} {handler : U32 → Instruction → Instruction}
    (h : decodeTable op = some handler) (addr w : U32) :
    (handler w (.blank addr w)).addr = addr := by
  rw [← (handler_blank h addr w).2.2 addr]

namespace Instruction

theorem full_handler {w : U32} {handler : U32 → Instruction → Instruction}
    (h : decodeTable (decode w) = some handler) (addr : U32) : (handler w (blank addr w)).Full := by
  obtain ⟨he, hw, -⟩ := handler_blank h addr w
  refine ⟨he, handler, by rw [hw]; exact h, ?_⟩
  rw [hw, handler_addr h]

/-- Invalidation changes the tag only. -/
theorem Full.retag {ci : Instruction} (h : ci.Full) (addr : U32) :
    Full { ci with addr := addr } := by
  obtain ⟨he, handler, hh, hci⟩ := h
  refine ⟨he, handler, hh, ?_⟩
  have ha := (handler_blank hh ci.addr ci.insn).2.2 addr
  rw [← hci] at ha
  exact ha

theorem not_full_invalid : ¬ invalid.Full := fun h => h.exec_ne_null rfl

theorem not_full_blank (addr w : U32) : ¬ (blank addr w).Full := fun h => h.exec_ne_null rfl

end Instruction

/-! ## Slots -/

namespace DecodeCache

variable {c : DecodeCache}

/-- Every slot is full or was never used. -/
def Filled (c : DecodeCache) : Prop := ∀ i, c.slots i = .invalid ∨ (c.slots i).Full

/-- A slot that is tagged with an address of its own is full, if it was ever used. -/
def Sound (c : DecodeCache) : Prop := ∀ addr, (c.lookup addr).addr = addr →
  c.lookup addr = .invalid ∨ (c.lookup addr).Full

theorem Filled.sound (h : c.Filled) : c.Sound := fun addr _ => h (c.index addr)

theorem filled_init (size : Nat) : (init size).Filled := fun _ => .inl rfl

theorem lookup_store (addr : U32) (ci : Instruction) : (c.store addr ci).lookup addr = ci :=
  Function.update_self ..

variable {P : Instruction → Prop}

/-- What holds of every slot and of what is stored. -/
theorem forall_store {ci : Instruction} (h : ∀ i, P (c.slots i)) (addr : U32) (hp : P ci) (i : Nat) :
    P ((c.store addr ci).slots i) := by
  by_cases hi : i = c.index addr
  · have hs : (c.store addr ci).slots i = ci := by
      rw [hi]
      exact lookup_store addr ci
    rw [hs]
    exact hp
  · have hs : (c.store addr ci).slots i = c.slots i := Function.update_of_ne hi ..
    rw [hs]
    exact h i

/-- What holds of every slot and does not look at its tag. -/
theorem forall_invalidate (hp : ∀ ci, P ci → P { ci with addr := 0xffffffff#32 })
    (h : ∀ i, P (c.slots i)) (addr : U32) (i : Nat) : P ((c.invalidate addr).slots i) := by
  unfold DecodeCache.invalidate
  split
  · exact forall_store h addr (hp _ (h (c.index addr))) i
  · exact h i

theorem forall_invalidateBlock (hp : ∀ ci, P ci → P { ci with addr := 0xffffffff#32 })
    (h : ∀ i, P (c.slots i)) (addr : U32) (size i : Nat) :
    P ((c.invalidateBlock addr size).slots i) := by
  unfold DecodeCache.invalidateBlock
  generalize List.range ((size + 3) / 4) = l
  induction l generalizing c with
  | nil => exact h i
  | cons j l ih => exact ih (forall_invalidate hp h _)

theorem Filled.store {ci : Instruction} (h : c.Filled) (addr : U32) (hf : ci = .invalid ∨ ci.Full) :
    (c.store addr ci).Filled := forall_store (P := fun ci => ci = .invalid ∨ ci.Full) h addr hf

theorem Filled.invalidateBlock (h : c.Filled) (addr : U32) (size : Nat) :
    (c.invalidateBlock addr size).Filled := by
  refine forall_invalidateBlock (P := fun ci => ci = .invalid ∨ ci.Full) (fun ci hci => ?_) h addr size
  rcases hci with hi | hf
  · left
    rw [hi]
    rfl
  · exact .inr (hf.retag 0xffffffff#32)

end DecodeCache

/-! ## Fetch -/

namespace Or1k

variable [EnvImpl σ] {s s' : Or1k σ}

/-- `fetch` looks up this physical address; the core is what the address step left. -/
def Looks (s : Or1k σ) (c : Core σ) : Prop := s.toCore.fetchAddress = .ok (true, c)

/-- The slot of the address is tagged with it and the cache is on. -/
def Tagged (s : Or1k σ) (addr : U32) : Prop :=
  (s.decodeCache.lookup addr).addr = addr ∧ s.decodeCache.isOff = false

/-- `fetch` returns a slot without decoding it. -/
def Hits (s : Or1k σ) (ci : Instruction) : Prop :=
  ∃ c, s.Looks c ∧ s.Tagged c.ireq.addr ∧ ci = s.decodeCache.lookup c.ireq.addr

/-- `fetch` reads this word at this address and decodes it. -/
def Reads (s : Or1k σ) (addr w : U32) : Prop :=
  ∃ c c', s.Looks c ∧ ¬ s.Tagged c.ireq.addr ∧ c.fetchWord = .ok (true, c') ∧
    addr = c'.ireq.addr ∧ w = c'.insn

/-- The word raises an illegal instruction exception. -/
def Illegal (w : U32) : Prop := decode w = .invalidOpcode ∨ decode w = .orbis32Cust1

/-- What a fetch does with the decode cache. -/
inductive Cached (s : Or1k σ) : Option Instruction → DecodeCache → Prop where
  | hit (ci : Instruction) (h : s.Hits ci) : Cached s (some ci) s.decodeCache
  | decoded (addr w : U32) (handler : U32 → Instruction → Instruction) (h : s.Reads addr w)
      (hl : ¬ Illegal w) (hh : decodeTable (decode w) = some handler) :
      Cached s (some (handler w (.blank addr w)))
        (s.decodeCache.store addr (handler w (.blank addr w)))
  | unsupported (addr w : U32) (h : s.Reads addr w) (hl : ¬ Illegal w)
      (hh : decodeTable (decode w) = none) :
      Cached s none (s.decodeCache.store addr (.blank addr w))
  | unused (h : ∀ addr w, s.Reads addr w → Illegal w) : Cached s none s.decodeCache

theorem Reads.unique {a b w v : U32} (h : s.Reads a w) (h' : s.Reads b v) : a = b ∧ w = v := by
  obtain ⟨c, d, hc, -, hd, rfl, rfl⟩ := h
  obtain ⟨c', d', hc', -, hd', rfl, rfl⟩ := h'
  cases hc.symm.trans hc'
  cases hd.symm.trans hd'
  exact ⟨rfl, rfl⟩

theorem Hits.not_reads {ci : Instruction} {a w : U32} (h : s.Hits ci) : ¬ s.Reads a w := by
  rintro ⟨c, d, hc, hn, -⟩
  obtain ⟨c', hc', ht, -⟩ := h
  cases hc.symm.trans hc'
  exact hn ht

theorem compile_cached {c : Core σ} {r : Option Instruction × Or1k σ} {d : Core σ}
    (hl : s.Looks c) (hn : ¬ s.Tagged c.ireq.addr) (hw : c.fetchWord = .ok (true, d))
    (h : (s.withCore d).compile = .ok r) : Cached s r.1 r.2.decodeCache := by
  have hr : s.Reads d.ireq.addr d.insn := ⟨c, d, hl, hn, hw, rfl, rfl⟩
  unfold compile at h
  dsimp only at h
  split at h
  · rename_i hi
    obtain ⟨s1, h1, h⟩ := Outcome.bind_eq_ok.1 h
    obtain ⟨b, -, rfl⟩ := onCore_eq_ok.1 h1
    cases h
    refine .unused fun a w ha => ?_
    obtain ⟨-, rfl⟩ := ha.unique hr
    exact hi
  · rename_i hi
    split at h
    · cases h
    · rename_i handler hh
      cases h
      exact .decoded _ _ handler hr hi hh

theorem compile_throw_cached {c d : Core σ} (hl : s.Looks c) (hn : ¬ s.Tagged c.ireq.addr)
    (hw : c.fetchWord = .ok (true, d)) (h : (s.withCore d).compile = .throw s') :
    Cached s none s'.decodeCache := by
  have hr : s.Reads d.ireq.addr d.insn := ⟨c, d, hl, hn, hw, rfl, rfl⟩
  unfold compile at h
  dsimp only at h
  split at h
  · rcases Outcome.bind_eq_throw.1 h with h | ⟨s1, -, h⟩
    · exact (onCore_ne_throw h).elim
    · cases h
  · rename_i hi
    split at h
    · rename_i hh
      cases h
      exact .unsupported _ _ hr hi hh
    · cases h

theorem fetch_cached {r : Option Instruction × Or1k σ} (h : s.fetch = .ok r) :
    Cached s r.1 r.2.decodeCache := by
  obtain ⟨⟨found, s1⟩, h1, h⟩ := Outcome.bind_eq_ok.1 h
  obtain ⟨_, c, hc, he⟩ := liftCore_eq_ok.1 h1
  obtain ⟨rfl, rfl⟩ := Prod.mk.inj he
  dsimp only at h
  cases found with
  | false =>
    cases h
    refine .unused fun a w ⟨c', d, hc', _⟩ => ?_
    cases hc.symm.trans hc'
  | true =>
    rw [if_neg (by simp)] at h
    split at h
    · rename_i ht
      cases h
      exact .hit _ ⟨c, hc, ht, rfl⟩
    · rename_i ht
      obtain ⟨⟨read, s2⟩, h2, h⟩ := Outcome.bind_eq_ok.1 h
      obtain ⟨_, d, hd, he⟩ := liftCore_eq_ok.1 h2
      obtain ⟨rfl, rfl⟩ := Prod.mk.inj he
      dsimp only at h
      cases read with
      | false =>
        cases h
        refine .unused fun a w ⟨c', d', hc', _, hd', _⟩ => ?_
        cases hc.symm.trans hc'
        cases hd.symm.trans hd'
      | true =>
        rw [if_neg (by simp)] at h
        exact compile_cached hc ht hd h

theorem fetch_throw_cached (h : s.fetch = .throw s') : Cached s none s'.decodeCache := by
  rcases Outcome.bind_eq_throw.1 h with h | ⟨⟨found, s1⟩, h1, h⟩
  · obtain ⟨c, hc, -⟩ := liftCore_eq_throw.1 h
    exact (Core.fetchAddress_ne_throw hc).elim
  · obtain ⟨_, c, hc, he⟩ := liftCore_eq_ok.1 h1
    obtain ⟨rfl, rfl⟩ := Prod.mk.inj he
    dsimp only at h
    cases found with
    | false => cases h
    | true =>
      rw [if_neg (by simp)] at h
      split at h
      · cases h
      · rename_i ht
        rcases Outcome.bind_eq_throw.1 h with h | ⟨⟨read, s2⟩, h2, h⟩
        · obtain ⟨d, hd, rfl⟩ := liftCore_eq_throw.1 h
          refine .unused fun a w ⟨c', d', hc', _, hd', _⟩ => ?_
          cases hc.symm.trans hc'
          cases hd.symm.trans hd'
        · obtain ⟨_, d, hd, he⟩ := liftCore_eq_ok.1 h2
          obtain ⟨rfl, rfl⟩ := Prod.mk.inj he
          dsimp only at h
          cases read with
          | false => cases h
          | true =>
            rw [if_neg (by simp)] at h
            exact compile_throw_cached hc ht hd h

/-! ## Execution -/

/-- Executing an instruction invalidates a block of the cache at most. -/
def Invalidated (c c' : DecodeCache) : Prop := c' = c ∨ ∃ addr, c' = c.invalidateBlock addr 32

omit [EnvImpl σ] in
theorem Invalidated.filled {c c' : DecodeCache} (h : Invalidated c c') (hf : c.Filled) :
    c'.Filled := by
  rcases h with h | ⟨addr, h⟩
  · rw [h]
    exact hf
  · rw [h]
    exact hf.invalidateBlock addr 32

theorem regWritten_invalidated (reg val : U32) :
    Invalidated s.decodeCache (s.regWritten reg val).decodeCache := by
  unfold regWritten
  cases SpReg.ofNum reg with
  | none =>
    left
    dsimp only
    cases SprFile.ofNum reg.toNat <;> rfl
  | some r =>
    cases r with
    | icbir =>
      right
      dsimp only
      exact ⟨val, rfl⟩
    | pmr =>
      left
      dsimp only
      exact dozed_steady.decodeCache
    | _ =>
      left
      rfl

theorem sprWritten_invalidated (reg val : U32) (debug : Bool) :
    Invalidated s.decodeCache (s.sprWritten reg val debug).decodeCache := by
  unfold sprWritten
  split
  · exact .inl rfl
  · exact regWritten_invalidated (s := s.requestBreak) reg val

variable [HostLib]

theorem executed_invalidated {ci : Instruction} (h : Executed ci s s') :
    Invalidated s.decodeCache s'.decodeCache := by
  cases h with
  | plain | untaken | taken => exact .inl rfl
  | mtspr a b he ha hb => exact sprWritten_invalidated _ _ _
  | nop s' he h =>
    left
    rcases nop_ok h with ⟨rfl, -⟩ | ⟨rfl, -⟩ | ⟨c, rfl, -⟩ <;> rfl
  | rfe s' he h =>
    left
    obtain ⟨c, -, rfl⟩ := rfe_ok h
    unfold rfeRestored
    split <;> rfl

/-- An iteration fetches; only an instruction that it executes may then invalidate a block. -/
theorem fetchExecute_cached (h : s.fetchExecute = .ok s' ∨ s.fetchExecute = .throw s') :
    ∃ ci dc, Cached s ci dc ∧ Invalidated dc s'.decodeCache ∧
      (ci = none → s'.decodeCache = dc) := by
  rcases h with h | h
  · obtain ⟨⟨ci, f⟩, hf, h⟩ := Outcome.bind_eq_ok.1 h
    refine ⟨ci, f.decodeCache, fetch_cached hf, ?_⟩
    cases ci with
    | none =>
      cases h
      exact ⟨.inl rfl, fun _ => rfl⟩
    | some ci => exact ⟨executed_invalidated (execute_ok h), nofun⟩
  · rcases fetchExecute_throw h with h | ⟨ci, f, e, c, hf, -, -, -, rfl⟩
    · exact ⟨none, _, fetch_throw_cached h, .inl rfl, fun _ => rfl⟩
    · exact ⟨some ci, f.decodeCache, fetch_cached hf, .inl rfl, nofun⟩

end Or1k

/-! ## Runs -/

namespace Machine

open Or1k

variable [EnvImpl σ] [HostLib] {m m' : Machine σ} {a : Action σ}

/-- A step that fetches nothing invalidates a block at most. -/
theorem act_invalidated (hx : ¬IsIteration ⟨m, a, m'⟩) (hn : m.act a = some m') :
    Invalidated m.cpu.decodeCache m'.cpu.decodeCache := by
  cases act_transition hn with
  | begin r s n => exact .inl began_steady.decodeCache
  | mini | finish | leave => exact .inl rfl
  | iterate limit s x hl hfe | throw limit s x hl hfe =>
    exact (hx ⟨rfl, by simpa [executes] using hl⟩).elim
  | drain s =>
    rw [drained_cpu]
    exact .inl (timerUpdated_steady.trans externalChecked_steady).decodeCache
  | interrupt p s id set =>
    left
    obtain ⟨v, he⟩ := s.toCore.interrupt_eq id set
    rw [he]
    rfl
  | outside r s s' a ha h =>
    cases outside_ok h with
    | writeSpr reg val => exact sprWritten_invalidated _ _ _
    | writeGpr | world | setUp => exact .inl rfl

/-- A step that fetches. -/
theorem iteration_cached (hx : IsIteration ⟨m, a, m'⟩) (hn : m.act a = some m') :
    ∃ ci dc, Cached m.cpu.beginCycle ci dc ∧ Invalidated dc m'.cpu.decodeCache ∧
      (ci = none → m'.cpu.decodeCache = dc) := by
  obtain ⟨rfl, hx⟩ := hx
  rcases iteration_cases hx hn with ⟨limit, x, h, rfl⟩ | ⟨x, h, rfl⟩
  · rw [retired_frame (·.decodeCache) limit x fun _ _ _ _ => rfl]
    exact fetchExecute_cached (.inl h)
  · exact fetchExecute_cached (.inr h)

/-- The fetch of a step does not meet a slot that was never used, and decodes no word without a
handler. -/
structure Supported (st : Move (Machine σ) (Action σ)) : Prop where
  used : IsIteration st → ∀ c, st.pre.cpu.beginCycle.Looks c → c.ireq.addr = 0xffffffff#32 →
    st.pre.cpu.decodeCache.isOff = false →
    st.pre.cpu.decodeCache.lookup 0xffffffff#32 ≠ .invalid
  handled : IsIteration st → ∀ addr w, st.pre.cpu.beginCycle.Reads addr w →
    Illegal w ∨ decodeTable (decode w) ≠ none

/-- The slots are sound after the step, and what its fetch returned as a hit is fully decoded. -/
structure Intact (st : Move (Machine σ) (Action σ)) : Prop where
  sound : st.post.cpu.decodeCache.Sound
  hit : IsIteration st → ∀ ci, st.pre.cpu.beginCycle.Hits ci → ci.Full

theorem step_filled (hn : m.act a = some m') (hs : Supported ⟨m, a, m'⟩)
    (hf : m.cpu.decodeCache.Filled) : m'.cpu.decodeCache.Filled ∧ Intact ⟨m, a, m'⟩ := by
  have hpost : m'.cpu.decodeCache.Filled := by
    by_cases hx : IsIteration ⟨m, a, m'⟩
    · obtain ⟨ci, dc, hc, hi, -⟩ := iteration_cached hx hn
      refine hi.filled ?_
      have hb : m.cpu.beginCycle.decodeCache.Filled := hf
      cases hc with
      | hit ci h => exact hb
      | decoded addr w handler h hl hh => exact hb.store addr (.inr (Instruction.full_handler hh addr))
      | unsupported addr w h hl hh =>
        rcases hs.handled hx addr w h with hw | hw
        · exact (hl hw).elim
        · exact (hw hh).elim
      | unused h => exact hb
    · exact (act_invalidated hx hn).filled hf
  refine ⟨hpost, hpost.sound, ?_⟩
  rintro hx ci ⟨c, hl, ⟨ht, ho⟩, rfl⟩
  rcases hf (m.cpu.decodeCache.index c.ireq.addr) with hi | hfull
  · have hi : m.cpu.beginCycle.decodeCache.lookup c.ireq.addr = .invalid := hi
    have ha : c.ireq.addr = 0xffffffff#32 := by
      rw [← ht, hi]
      rfl
    refine (hs.used hx c hl ha ho ?_).elim
    rw [ha] at hi
    exact hi
  · exact hfull

theorem supported_of_intact (hn : m.act a = some m') (h : Intact ⟨m, a, m'⟩) :
    Supported ⟨m, a, m'⟩ := by
  constructor
  · intro hx c hl ha ho hu
    have hi : m.cpu.beginCycle.decodeCache.lookup c.ireq.addr = .invalid := by rw [ha]; exact hu
    have hf := h.hit hx _ ⟨c, hl, ⟨by rw [hi, ha]; rfl, ho⟩, rfl⟩
    rw [hi] at hf
    exact Instruction.not_full_invalid hf
  · intro hx addr w hr
    by_contra hc
    rw [not_or, not_not] at hc
    obtain ⟨ci, dc, hd, -, hn⟩ := iteration_cached hx hn
    cases hd with
    | hit ci hh => exact hh.not_reads hr
    | decoded b v handler hb hl hh =>
      obtain ⟨-, rfl⟩ := hb.unique hr
      exact nomatch hh.symm.trans hc.2
    | unused hu => exact hc.1 (hu addr w hr)
    | unsupported b v hb hl hh =>
      -- the slot stays behind, tagged and cleared
      obtain ⟨rfl, rfl⟩ := hb.unique hr
      have hs := h.sound
      have hp : m'.cpu.decodeCache.lookup b = .blank b v := by
        rw [hn rfl]
        exact DecodeCache.lookup_store b _
      rcases hs b (by rw [hp]; rfl) with hi | hf
      · rw [hp] at hi
        exact absurd (congrArg Instruction.imm hi) (show ¬ 0#32 = 0xffffffff#32 by decide)
      · rw [hp] at hf
        exact Instruction.not_full_blank b v hf

/-- The slots stay sound and every hit is fully decoded exactly in the runs whose fetches are all
supported. -/
theorem decodeCache_sound_iff {env : Env σ} {size : Nat} {l : List (Move (Machine σ) (Action σ))}
    (h : system.Path (Machine.init env size) l m) :
    (∀ st ∈ l, Supported st) ↔ ∀ st ∈ l, Intact st := by
  constructor
  · intro hs
    exact (h.forall_of (fun _ _ _ hn hs hf => step_filled hn hs hf) hs
      (DecodeCache.filled_init size)).2
  · intro hi st hst
    exact (h.forall (R := fun st => Intact st → Supported st)
      (fun _ _ _ hn hi => supported_of_intact hn hi)) st hst (hi st hst)

end Machine

namespace Machine

attribute [local instance] HostLib.plain

/-- `l.nop` and `l.cust2` -/
def customProgram : List (Nat × U32) := [(0x100, 0x15000000#32), (0x104, 0x74000000#32)]

/-- A CPU after reset with a decode cache of 16 slots. -/
def customBoot : Machine Memory := .init (Memory.env 0x8000 (Memory.image customProgram)) 4

/-- The run executes `l.nop` from a full slot. -/
theorem decodeCache_sound_iff_nop : ∃ (l : List (Move (Machine Memory) (Action Memory)))
    (m : Machine Memory), system.Path customBoot l m ∧ m.cpu.compiles = 1 ∧
      ((∀ st ∈ l, Supported st) ↔ ∀ st ∈ l, Intact st) := by
  obtain ⟨m, hr, hm⟩ := system.exists_run customBoot [.call 1, .run, .run]
    (fun m => m.cpu.compiles == 1) (by decide +kernel)
  obtain ⟨l, hl⟩ := hr.path
  exact ⟨l, m, hl, by simpa using hm, decodeCache_sound_iff hl⟩

/-- `l.cust2` throws, and its slot keeps the tag without an executor. -/
theorem decodeCache_sound_fails : ∃ (l : List (Move (Machine Memory) (Action Memory)))
    (m : Machine Memory), system.Path customBoot l m ∧ ¬ ∀ st ∈ l, Intact st := by
  obtain ⟨m, hr, hm⟩ := system.exists_run customBoot [.call 2, .run, .run, .run]
    (fun m => decide (m.cpu.decodeCache.lookup 0x104#32 = .blank 0x104#32 0x74000000#32))
    (by decide +kernel)
  have hm : m.cpu.decodeCache.lookup 0x104#32 = .blank 0x104#32 0x74000000#32 := by simpa using hm
  obtain ⟨l, hl⟩ := hr.path
  refine ⟨l, m, hl, fun hi => ?_⟩
  have hs : m.cpu.decodeCache.Sound := by
    rcases hl.last with rfl | ⟨st, hst, rfl⟩
    · exact (DecodeCache.filled_init 4).sound
    · exact (hi st hst).sound
  rcases hs 0x104#32 (by rw [hm]; rfl) with hu | hf
  · rw [hm] at hu
    exact absurd hu (by decide)
  · rw [hm] at hf
    exact Instruction.not_full_blank _ _ hf

end Machine

end Or1kiss
