import Or1kiss.Cost
import Or1kiss.DecodeCache
import Or1kiss.Lib.Rounding

/-!
# The hit rate of the decode cache

`get_decode_cache_hit_rate` subtracts the compiled instructions from the executed ones. An
instruction is counted before it is fetched, so the two counters stay in order, but for the exit
`l.nop`: it takes its own instruction back and leaves it counted as compiled.
-/

namespace Or1kiss

open Host Bits Runs

variable {σ : Type}

namespace Or1k

/-- `m_instructions - m_compiles`, in 64 bits. -/
def hits (s : Or1k σ) : Nat :=
  if s.compiles ≤ s.instructions then s.instructions - s.compiles
  else s.instructions + 2 ^ 64 - s.compiles

/-- `get_decode_cache_hit_rate`, with the rounding of the host's `float`. -/
def getDecodeCacheHitRate (fl : Rounding) (s : Or1k σ) : ℚ :=
  if s.instructions = 0 then 0 else if s.hits = 0 then 0 else fl.quotient s.hits s.instructions

/-- The counters are in order: the subtraction does not wrap, and the rate is one. -/
structure RateSound (s : Or1k σ) : Prop where
  compiles_le : s.compiles ≤ s.instructions
  hits_add : s.hits + s.compiles = s.instructions
  rate : ∀ fl, 0 ≤ s.getDecodeCacheHitRate fl ∧ s.getDecodeCacheHitRate fl ≤ 1

theorem rateSound_iff {s : Or1k σ} : s.RateSound ↔ s.compiles ≤ s.instructions := by
  refine ⟨fun h => h.compiles_le, fun h => ?_⟩
  have hh : s.hits = s.instructions - s.compiles := if_pos h
  refine ⟨h, by omega, fun fl => ?_⟩
  unfold getDecodeCacheHitRate
  split
  · exact ⟨le_refl 0, zero_le_one⟩
  · rename_i hi
    have hpos : 0 < s.instructions := Nat.pos_of_ne_zero hi
    split
    · exact ⟨le_refl 0, zero_le_one⟩
    · exact ⟨fl.quotient_nonneg hpos, fl.quotient_le_one (by omega) hpos⟩

end Or1k

/-- `NOP_EXIT`, `NOP_SILENT_EXIT` -/
def Instruction.exits (ci : Instruction) : Bool :=
  decide (ci.exec = some .nop) && (ci.imm.toNat == 0x1 || ci.imm.toNat == 0xc)

namespace Or1k

variable [EnvImpl σ] {s f x : Or1k σ} {ci : Instruction} {o : Option Instruction}

instance (s : Or1k σ) (addr : U32) : Decidable (s.Tagged addr) := by
  unfold Tagged
  infer_instance

/-- The instruction at the program counter is not in the decode cache. -/
def misses (s : Or1k σ) : Bool :=
  match s.toCore.fetchAddress with
  | .ok (true, c) => !decide (s.Tagged c.ireq.addr)
  | _ => false

/-- It is an exit `l.nop` that is not in the decode cache. -/
def exitsUncached (s : Or1k σ) : Bool :=
  match s.fetch with
  | .ok (some ci, _) => ci.exits && s.misses
  | _ => false

/-! ## What a fetch counts -/

omit [EnvImpl σ] in
theorem compile_counts (h : s.compile = .ok (o, f)) :
    f.instructions = s.instructions ∧ f.compiles = s.compiles + o.isSome.toNat := by
  unfold compile at h
  dsimp only at h
  split at h
  · obtain ⟨s1, h1, h⟩ := Outcome.bind_eq_ok.1 h
    obtain ⟨c, hc, rfl⟩ := onCore_eq_ok.1 h1
    obtain ⟨t, addr, ht, -, rfl⟩ := Core.exception_refused rfl hc
    cases h
    exact ⟨(Core.kept_entered ht addr).instructions, rfl⟩
  · split at h
    · cases h
    · cases h
      exact ⟨rfl, rfl⟩

/-- An instruction is compiled if it is not in the decode cache. -/
theorem fetch_counts (h : s.fetch = .ok (o, f)) : f.instructions = s.instructions ∧
    f.compiles = s.compiles + (o.isSome && s.misses).toNat := by
  have hfetched {c d : Core σ} (hc : Core.Fetched c d) : d.instructions = c.instructions :=
    congrArg (·.instructions) hc.eq
  have hrefused : ∀ {c d : Core σ}, Core.Refused c d → d.instructions = c.instructions := by
    rintro c d ⟨t, addr, ht, -, rfl⟩
    exact (Core.kept_entered ht addr).instructions
  obtain ⟨⟨found, s1⟩, h1, h⟩ := Outcome.bind_eq_ok.1 h
  obtain ⟨_, c, hc, he⟩ := liftCore_eq_ok.1 h1
  obtain ⟨rfl, rfl⟩ := Prod.mk.inj he
  dsimp only at h
  unfold misses
  rw [hc]
  obtain ⟨hf, hcf⟩ | ⟨hf, b, hb, hcr⟩ := Core.fetchAddress_ok hc <;> dsimp only at hf <;> subst hf
  · have hci : c.instructions = s.instructions := hfetched hcf
    rw [if_neg (by decide)] at h
    dsimp only
    split at h
    · rename_i ht
      have ht : s.Tagged c.ireq.addr := ht
      cases h
      rw [decide_eq_true ht]
      exact ⟨hci, rfl⟩
    · rename_i ht
      have ht : ¬s.Tagged c.ireq.addr := ht
      obtain ⟨⟨read, s2⟩, h2, h⟩ := Outcome.bind_eq_ok.1 h
      obtain ⟨_, d, hd, he⟩ := liftCore_eq_ok.1 h2
      obtain ⟨rfl, rfl⟩ := Prod.mk.inj he
      dsimp only at h
      obtain ⟨hr, hdf⟩ | ⟨hr, b, hb, hdr⟩ := Core.fetchWord_ok hd <;> dsimp only at hr <;> subst hr
      · rw [if_neg (by decide)] at h
        obtain ⟨hi, hcomp⟩ := compile_counts h
        rw [decide_eq_false ht, Bool.not_false, Bool.and_true]
        exact ⟨hi.trans ((hfetched hdf).trans hci), hcomp⟩
      · rw [if_pos (by decide)] at h
        cases h
        exact ⟨(hrefused hdr).trans ((hfetched hb).trans hci), rfl⟩
  · rw [if_pos (by decide)] at h
    cases h
    exact ⟨(hrefused hcr).trans (hfetched hb), rfl⟩

/-- A fetch that the host unwinds has not compiled. -/
theorem fetch_throw_counts (h : s.fetch = .throw x) :
    x.instructions = s.instructions ∧ x.compiles = s.compiles := by
  refine ⟨congrArg (·.instructions) (fetch_throw h).eq, ?_⟩
  rcases Outcome.bind_eq_throw.1 h with h | ⟨⟨found, s1⟩, h1, h⟩
  · obtain ⟨c, hc, -⟩ := liftCore_eq_throw.1 h
    exact (Core.fetchAddress_ne_throw hc).elim
  · obtain ⟨_, c, -, he⟩ := liftCore_eq_ok.1 h1
    obtain ⟨rfl, rfl⟩ := Prod.mk.inj he
    dsimp only at h
    split at h
    · cases h
    split at h
    · cases h
    rcases Outcome.bind_eq_throw.1 h with h | ⟨⟨read, s2⟩, h2, h⟩
    · obtain ⟨d, -, rfl⟩ := liftCore_eq_throw.1 h
      rfl
    · obtain ⟨_, d, -, he⟩ := liftCore_eq_ok.1 h2
      obtain ⟨rfl, rfl⟩ := Prod.mk.inj he
      dsimp only at h
      split at h
      · cases h
      · obtain ⟨dc, rfl⟩ := compile_throw h
        rfl

/-! ## What an instruction counts -/

omit [EnvImpl σ] in
theorem regWritten_compiles [EnvImpl σ] (reg val : U32) :
    (s.regWritten reg val).compiles = s.compiles := by
  unfold regWritten
  cases SpReg.ofNum reg with
  | none => cases SprFile.ofNum reg.toNat <;> rfl
  | some r =>
    cases r with
    | pmr => exact dozed_steady.compiles
    | _ => rfl

theorem sprWritten_compiles (reg val : U32) (debug : Bool) :
    (s.sprWritten reg val debug).compiles = s.compiles := by
  unfold sprWritten
  split
  · rfl
  · exact regWritten_compiles reg val

variable [HostLib]

/-- The exit `l.nop` takes its own instruction back, `l.nop` 0x5 resets the counters, and the others
leave them. -/
theorem execute_counts (h : f.execute ci = .ok x) :
    (ci.exits = true ∧ x.instructions = f.instructions - 1 ∧ x.compiles = f.compiles) ∨
      (ci.exits = false ∧ x.instructions = 0 ∧ x.compiles = 0) ∨
        (ci.exits = false ∧ x.instructions = f.instructions ∧ x.compiles = f.compiles) := by
  unfold Instruction.exits
  by_cases hn : ci.exec = some .nop
  · rw [decide_eq_true hn, Bool.true_and]
    have hx : f.executeOrbis32Nop ci = .ok x := by
      unfold execute at h
      rw [hn] at h
      exact h
    obtain ⟨rfl, he⟩ | ⟨rfl, he⟩ | ⟨c, rfl, ⟨g, t, a, b, rfl⟩, h1, hc, -⟩ := nop_ok hx
    · refine .inl ⟨?_, rfl, rfl⟩
      rcases he with he | he <;> rw [he] <;> rfl
    · refine .inr (.inl ⟨?_, rfl, rfl⟩)
      rw [he]
      rfl
    · refine .inr (.inr ⟨?_, rfl, rfl⟩)
      rw [Bool.or_eq_false_iff]
      exact ⟨beq_false_of_ne h1, beq_false_of_ne hc⟩
  · rw [decide_eq_false hn, Bool.false_and]
    refine .inr (.inr ⟨rfl, execute_instructions h hn, ?_⟩)
    cases execute_ok h with
    | plain | untaken | taken => rfl
    | mtspr a b he ha hb => exact sprWritten_compiles _ _ _
    | nop x he hx => exact (hn he).elim
    | rfe x he hx =>
      obtain ⟨c, -, rfl⟩ := rfe_ok hx
      unfold rfeRestored
      split <;> rfl

/-- An instruction that has been counted keeps the counters in order, unless it is an exit `l.nop`
that is compiled while nothing else was not. -/
theorem fetchExecute_ordered (hc : s.compiles < s.instructions) (h : s.fetchExecute = .ok x) :
    x.compiles ≤ x.instructions ↔
      ¬(s.exitsUncached = true ∧ s.compiles + 1 = s.instructions) := by
  obtain ⟨⟨insn, f⟩, hf, h⟩ := Outcome.bind_eq_ok.1 h
  obtain ⟨hi, hk⟩ := fetch_counts hf
  unfold exitsUncached
  rw [hf]
  cases insn with
  | none =>
    cases h
    dsimp only
    rw [Option.isSome_none, Bool.false_and, Bool.toNat_false] at hk
    exact iff_of_true (by omega) fun he => nomatch he.1
  | some ci =>
    dsimp only at h ⊢
    rw [Option.isSome_some, Bool.true_and] at hk
    have hle := s.misses.toNat_le
    obtain ⟨he, hxi, hxk⟩ | ⟨he, hxi, hxk⟩ | ⟨he, hxi, hxk⟩ := execute_counts h
    · rw [he, Bool.true_and, hxi, hxk, hi, hk]
      cases hm : s.misses with
      | false =>
        rw [Bool.toNat_false]
        exact iff_of_true (by omega) fun he => nomatch he.1
      | true =>
        rw [Bool.toNat_true]
        constructor
        · rintro hle ⟨-, heq⟩
          omega
        · intro hne
          have : s.compiles + 1 ≠ s.instructions := fun heq => hne ⟨rfl, heq⟩
          omega
    · rw [he, Bool.false_and]
      exact iff_of_true (by omega) fun he => nomatch he.1
    · rw [he, Bool.false_and]
      exact iff_of_true (by omega) fun he => nomatch he.1

/-- An instruction that the host unwinds keeps them in order. -/
theorem fetchExecute_throw_ordered (hc : s.compiles < s.instructions)
    (h : s.fetchExecute = .throw x) :
    x.compiles ≤ x.instructions ∧ s.exitsUncached = false := by
  unfold exitsUncached
  rcases fetchExecute_throw h with h | ⟨ci, f, e, c, hf, -, he, hm, rfl⟩
  · obtain ⟨hi, hk⟩ := fetch_throw_counts h
    rw [h]
    exact ⟨by omega, rfl⟩
  · obtain ⟨hi, hk⟩ := fetch_counts hf
    rw [hf]
    dsimp only
    have hexits : ci.exits = false := by
      unfold Instruction.exits
      rw [he]
      rfl
    have hci : c.instructions = f.instructions :=
      (Core.executeMem_throw_effects hm).kept.instructions
    have hle := (Option.isSome (some ci) && s.misses).toNat_le
    rw [hexits, Bool.false_and]
    refine ⟨?_, rfl⟩
    show f.compiles ≤ c.instructions
    omega

end Or1k

namespace Machine

variable [EnvImpl σ] [HostLib] {m m' : Machine σ} {a : Action σ}

/-- The step executes an exit `l.nop` that is not in the decode cache, while as many instructions
have been compiled as executed. -/
def overtakes (m : Machine σ) (a : Action σ) : Bool :=
  match a with
  | .run =>
    m.executes && m.cpu.beginCycle.exitsUncached && decide (m.cpu.compiles = m.cpu.instructions)
  | _ => false

/-- The states in which the rate can be read while a step is under way: the port is asked behind the
count of the instruction, and behind its fetch. -/
def under (m : Machine σ) (a : Action σ) : List (Or1k σ) :=
  match a with
  | .run =>
    if m.executes then
      match m.cpu.beginCycle.fetch with
      | .ok (_, f) => [m.cpu.beginCycle, f]
      | _ => [m.cpu.beginCycle]
    else []
  | _ => []

/-- The rate is sound in every state in which it can be read, up to the end of the step. -/
def Rated (st : Move (Machine σ) (Action σ)) : Prop :=
  st.post.cpu.RateSound ∧ ∀ s ∈ under st.pre st.act, s.RateSound

omit [HostLib] in
theorem under_sound (h : m.cpu.compiles ≤ m.cpu.instructions) (a : Action σ) :
    ∀ s ∈ m.under a, s.RateSound := by
  have hb : m.cpu.beginCycle.RateSound := Or1k.rateSound_iff.2 (Nat.le_succ_of_le h)
  unfold under
  split
  · split
    · split
      · rename_i o f hf
        have hc : m.cpu.beginCycle.compiles = m.cpu.compiles := rfl
        have hi : m.cpu.beginCycle.instructions = m.cpu.instructions + 1 := rfl
        obtain ⟨hfi, hfc⟩ := Or1k.fetch_counts hf
        have hle := (o.isSome && m.cpu.beginCycle.misses).toNat_le
        have hfs : f.RateSound := Or1k.rateSound_iff.2 (by omega)
        intro s hs
        rcases List.mem_cons.1 hs with rfl | hs
        · exact hb
        · rwa [List.mem_singleton.1 hs]
      · intro s hs
        rw [List.mem_singleton.1 hs]
        exact hb
    · exact fun s hs => (List.not_mem_nil hs).elim
  · exact fun s hs => (List.not_mem_nil hs).elim

omit [HostLib] in
theorem outside_counts {s s' : Or1k σ} (h : outside s a = .ok s') :
    s'.instructions = s.instructions ∧ s'.compiles = s.compiles := by
  cases outside_ok h with
  | writeSpr reg val =>
    refine ⟨?_, Or1k.sprWritten_compiles reg val true⟩
    obtain ⟨-, he⟩ | hw := Or1k.sprWritten_cases (s := s) reg val true
    · rw [he]
      exact Or1k.dozed_steady.instructions
    · exact hw.instructions
  | writeGpr | world | setUp => exact ⟨rfl, rfl⟩

/-- A step keeps the counters in order, unless it overtakes. -/
theorem act_ordered (hn : m.act a = some m') (h : m.cpu.compiles ≤ m.cpu.instructions) :
    m'.cpu.compiles ≤ m'.cpu.instructions ↔ m.overtakes a = false := by
  cases act_transition hn with
  | begin r s n =>
    have hs := began_steady (n := n) (s := s)
    refine iff_of_true ?_ rfl
    show (began n s).compiles ≤ (began n s).instructions
    rw [hs.compiles, hs.instructions]
    exact h
  | mini s hl => exact iff_of_true h rfl
  | finish s hl => exact iff_of_true h rfl
  | leave limit s hl =>
    refine iff_of_true h ?_
    unfold overtakes
    rw [show (⟨.inner limit, s⟩ : Machine σ).executes = false from decide_eq_false hl]
    rfl
  | iterate limit s x hl hx =>
    rw [retired_frame (·.compiles) limit x fun _ _ _ _ => rfl,
      retired_frame (·.instructions) limit x fun _ _ _ _ => rfl, Or1k.fetchExecute_ordered (Nat.lt_succ_of_le h) hx]
    unfold overtakes
    rw [show (⟨.inner limit, s⟩ : Machine σ).executes = true from decide_eq_true hl,
      Bool.true_and, Bool.and_eq_false_iff, decide_eq_false_iff_not, not_and_or,
      Bool.not_eq_true]
    refine or_congr_right (not_congr ?_)
    show s.compiles + 1 = s.instructions + 1 ↔ _
    exact Nat.succ_inj
  | throw limit s x hl hx =>
    obtain ⟨hle, he⟩ := Or1k.fetchExecute_throw_ordered (Nat.lt_succ_of_le h) hx
    refine iff_of_true hle ?_
    unfold overtakes
    rw [he, Bool.and_false, Bool.false_and]
  | drain s =>
    have hs := Or1k.timerUpdated_steady.trans (Or1k.externalChecked_steady (s := s.timerUpdated))
    rw [drained_cpu]
    refine iff_of_true ?_ rfl
    rw [hs.compiles, hs.instructions]
    exact h
  | interrupt p s id set =>
    have hi : (s.toCore.interrupt id set).instructions = s.instructions := by
      obtain ⟨v, he⟩ := s.toCore.interrupt_eq id set
      rw [he]
    refine iff_of_true ?_ rfl
    show s.compiles ≤ (s.toCore.interrupt id set).instructions
    rw [hi]
    exact h
  | outside r s s' a ha hout =>
    obtain ⟨hi, hc⟩ := outside_counts hout
    refine iff_of_true ?_ ?_
    · show s'.compiles ≤ s'.instructions
      rw [hi, hc]
      exact h
    · cases a with
      | run => cases ha
      | _ => rfl

/-- In every run from reset the hit rate is sound wherever it can be read if and only if no step
overtakes. -/
theorem hit_rate_iff {env : Env σ} {size : Nat} {l : List (Move (Machine σ) (Action σ))}
    (h : system.Path (init env size) l m) :
    (∀ st ∈ l, Rated st) ↔ ∀ st ∈ l, st.pre.overtakes st.act = false := by
  refine h.forall_iff (P := fun m => m.cpu.compiles ≤ m.cpu.instructions) ?_ ?_ (Nat.le_refl 0)
  · intro s a t hn hc hp
    have ht := (act_ordered hn hp).2 hc
    exact ⟨ht, Or1k.rateSound_iff.2 ht, under_sound hp a⟩
  · intro s a t hn hc hp hr
    exact hc ((act_ordered hn hp).1 hr.1.compiles_le)

end Machine

namespace Machine

attribute [local instance] HostLib.plain

/-- A CPU after reset with a decode cache of 16 slots. -/
def cachedBoot (words : List (Nat × U32)) : Machine Memory :=
  .init (Memory.env 0x8000 (Memory.image words)) 4

/-- `l.nop` and the exit `l.nop` behind it, both just compiled: one instruction, two compiled. -/
theorem hit_rate_iff_fails : ∃ (l : List (Move (Machine Memory) (Action Memory)))
    (m : Machine Memory),
      system.Path (cachedBoot [(0x100, 0x15000000#32), (0x104, 0x15000001#32)]) l m ∧
      m.cpu.instructions = 1 ∧ m.cpu.compiles = 2 ∧ m.cpu.hits = 2 ^ 64 - 1 ∧
      ∀ fl, 1 < m.cpu.getDecodeCacheHitRate fl := by
  obtain ⟨m, hr, hm⟩ := system.exists_run
    (cachedBoot [(0x100, 0x15000000#32), (0x104, 0x15000001#32)]) [.call 3#32, .run, .run, .run]
    (fun m => m.cpu.instructions == 1 && m.cpu.compiles == 2) (by decide +kernel)
  rw [Bool.and_eq_true, beq_iff_eq, beq_iff_eq] at hm
  obtain ⟨hi, hc⟩ := hm
  obtain ⟨l, hl⟩ := hr.path
  have hh : m.cpu.hits = 2 ^ 64 - 1 := by
    unfold Or1k.hits
    rw [hi, hc]
    rfl
  refine ⟨l, m, hl, hi, hc, hh, fun fl => ?_⟩
  unfold Or1k.getDecodeCacheHitRate
  rw [hh, hi, if_neg (by decide), if_neg (by decide)]
  have htwo : (2 : ℚ) ≤ fl.quotient (2 ^ 64 - 1) 1 := fl.two_le_quotient_one (by decide)
  exact lt_of_lt_of_le (by decide) htwo

/-- An illegal instruction leaves room for the exit `l.nop` of its handler, also when the run is
resumed. -/
theorem hit_rate_iff_resumed : ∃ (l : List (Move (Machine Memory) (Action Memory)))
    (m : Machine Memory),
      system.Path (cachedBoot [(0x100, 0x2c000000#32), (0x700, 0x15000001#32)]) l m ∧
      m.phase = .idle (some .exit) ∧ ∀ st ∈ l, Rated st := by
  obtain ⟨m, hr, hm⟩ := system.exists_steps (fun m a => !m.overtakes a)
    (cachedBoot [(0x100, 0x2c000000#32), (0x700, 0x15000001#32)])
    [.call 3#32, .run, .run, .run, .call 2#32, .run, .run]
    (fun m => decide (m.phase = .idle (some .exit))) (by decide +kernel)
  obtain ⟨l, hl, hok⟩ := hr.path_ok
  refine ⟨l, m, hl, of_decide_eq_true hm, (hit_rate_iff hl).2 fun st hst => ?_⟩
  have ho := hok st hst
  rwa [Bool.not_eq_true'] at ho

end Machine

end Or1kiss
