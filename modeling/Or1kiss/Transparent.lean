import Or1kiss.Sleep
import Or1kiss.Twin

/-!
# The decode cache does not show

A hit delivers the word that was at its address when the slot was filled. `outdatedAfter` follows
the cached addresses whose word has changed since, until a write to ICBIR covers them; a run is
`careful` if it never fetches from one. Along such a run the slots are up to date (`Current`), and
the same actions take a simulator without a cache through the same states.
-/

namespace Or1kiss

open Host Bits Outcome Runs

variable {σ : Type}

/-! ## Invalidation -/

/-- The slot after `insn.addr = ~0`. -/
def Instruction.untagged (ci : Instruction) : Instruction := { ci with addr := 0xffffffff#32 }

namespace DecodeCache

variable {d : DecodeCache} {a b val : U32}

/-- The words of the block at `val`. -/
def covers (val a : U32) : Bool := (List.range 8).any fun i => a == val + BitVec.ofNat 32 (4 * i)

theorem lookup_store_of_eq {ci : Instruction} (h : d.index a = d.index b) :
    (d.store b ci).lookup a = ci := by
  show Function.update d.slots (d.index b) ci (d.index a) = ci
  rw [h, Function.update_self]

theorem lookup_store_of_ne {ci : Instruction} (h : d.index a ≠ d.index b) :
    (d.store b ci).lookup a = d.lookup a := Function.update_of_ne h ..

/-- The slot is tagged with an address of its own that `l` names. -/
def named (d : DecodeCache) (val : U32) (l : List Nat) (i : Nat) : Bool :=
  (l.any fun j => (d.slots i).addr == val + BitVec.ofNat 32 (4 * j)) &&
    d.index (d.slots i).addr == i

theorem slots_invalidate (a : U32) (i : Nat) : (d.invalidate a).slots i =
    if d.index a = i ∧ (d.slots i).addr = a then (d.slots i).untagged else d.slots i := by
  unfold invalidate
  by_cases ha : (d.lookup a).addr = a
  · rw [if_pos ha]
    by_cases hi : d.index a = i
    · subst hi
      rw [if_pos ⟨rfl, ha⟩]
      exact Function.update_self ..
    · rw [if_neg fun h => hi h.1]
      exact Function.update_of_ne (Ne.symm hi) ..
  · have hno : ¬(d.index a = i ∧ (d.slots i).addr = a) := by
      rintro ⟨rfl, h⟩
      exact ha h
    rw [if_neg ha, if_neg hno]

theorem index_invalidate (a b : U32) : (d.invalidate a).index b = d.index b := by
  unfold invalidate
  split <;> rfl

theorem index_invalidateBlock (n : Nat) : (d.invalidateBlock val n).index b = d.index b := by
  unfold invalidateBlock
  generalize List.range ((n + 3) / 4) = l
  induction l generalizing d with
  | nil => rfl
  | cons j l ih => exact ih.trans (index_invalidate _ _)

/-- What a write does to a slot: its tag goes if it is one of the addresses, and only that. -/
theorem slots_invalidate_all (l : List Nat) (i : Nat) :
    (l.foldl (fun c j => c.invalidate (val + BitVec.ofNat 32 (4 * j))) d).slots i =
      if d.named val l i then (d.slots i).untagged else d.slots i := by
  induction l generalizing d with
  | nil => rfl
  | cons j l ih =>
    have hs := slots_invalidate (d := d) (val + BitVec.ofNat 32 (4 * j)) i
    rw [List.foldl_cons, ih]
    unfold named
    rw [hs, index_invalidate]
    by_cases hj : d.index (val + BitVec.ofNat 32 (4 * j)) = i ∧
        (d.slots i).addr = val + BitVec.ofNat 32 (4 * j)
    · rw [if_pos hj]
      have hn : (((j :: l).any fun j => (d.slots i).addr == val + BitVec.ofNat 32 (4 * j)) &&
          d.index (d.slots i).addr == i) = true := by
        rw [List.any_cons, hj.2, beq_self_eq_true, Bool.true_or, Bool.true_and, beq_iff_eq]
        exact hj.1
      rw [if_pos hn]
      exact ite_self _
    · rw [if_neg hj]
      refine if_congr ?_ rfl rfl
      rw [List.any_cons, Bool.and_eq_true, Bool.and_eq_true, Bool.or_eq_true, beq_iff_eq, beq_iff_eq]
      constructor
      · exact fun h => ⟨.inr h.1, h.2⟩
      · rintro ⟨h | h, hi⟩
        · exact (hj ⟨h ▸ hi, h⟩).elim
        · exact ⟨h, hi⟩

theorem lookup_invalidateBlock (n : Nat) : (d.invalidateBlock val n).lookup b =
    if d.named val (List.range ((n + 3) / 4)) (d.index b) then (d.lookup b).untagged
    else d.lookup b := by
  unfold lookup
  rw [index_invalidateBlock]
  exact slots_invalidate_all _ (d.index b)

/-- A tag that names its own slot is named if the block covers it. -/
theorem named_of_caches (h : d.caches b = true) :
    d.named val (List.range 8) (d.index b) = covers val b := by
  have ht : (d.slots (d.index b)).addr = b := beq_iff_eq.1 h
  unfold named covers
  rw [ht, beq_self_eq_true, Bool.and_true]

/-- A slot that is still tagged has not been touched. -/
theorem caches_invalidateBlock {n : Nat} (hb : b ≠ 0xffffffff#32)
    (h : (d.invalidateBlock val n).caches b = true) :
    d.caches b = true ∧ (d.invalidateBlock val n).lookup b = d.lookup b := by
  unfold caches at h ⊢
  rw [lookup_invalidateBlock] at h ⊢
  split at h <;> rename_i hn
  · exact (hb (beq_iff_eq.1 h).symm).elim
  · rw [if_neg hn]
    exact ⟨h, rfl⟩

/-- The block is not cached any more. -/
theorem not_caches_of_covers (hb : b ≠ 0xffffffff#32) (hc : covers val b = true) :
    (d.invalidateBlock val 32).caches b = false := by
  refine eq_false_of_ne_true fun h => ?_
  obtain ⟨hcb, hl⟩ := caches_invalidateBlock hb h
  rw [lookup_invalidateBlock, if_pos ((named_of_caches hcb).trans hc)] at hl
  have ht : (d.lookup b).addr = 0xffffffff#32 := congrArg Instruction.addr hl.symm
  exact hb ((beq_iff_eq.1 hcb).symm.trans ht)

end DecodeCache

/-! ## What a fetch leaves in the slots -/

namespace Core

variable [EnvImpl σ] {c d : Core σ}

theorem fetchWord_keeps {b : Bool} (h : c.fetchWord = .ok (b, d)) (ha : Asks c.ireq) :
    d.ireq.addr = c.ireq.addr ∧ Asks d.ireq := by
  have hread : c.readInsn.2.ireq.addr = c.ireq.addr ∧ Asks c.readInsn.2.ireq := by
    let req : Request := { c.ireq with data := bytesOf c.env.hostEndian c.insn }
    obtain ⟨dat, n, hr⟩ := Env.convertAndTransact_answers c.env req
    have hx : c.readInsn.2.ireq = { (c.env.convertAndTransact req).2.1 with data := [] } := rfl
    rw [hx, hr]
    exact ⟨rfl, ha.imem, ha.read, rfl⟩
  unfold fetchWord at h
  split at h
  · cases h
    exact ⟨rfl, ha⟩
  · split at h <;> rename_i hr <;> rw [hr] at hread
    · obtain ⟨x, hx, he⟩ := Outcome.lift_eq_ok.1 h
      cases he
      obtain ⟨-, rfl⟩ | ⟨-, -, rfl⟩ := exception_ok hx
      · exact hread
      · unfold entered
        dsimp only
        split <;> exact hread
    · cases h
    · cases h
      exact hread

end Core

namespace Or1k

variable [EnvImpl σ] {s f x : Or1k σ} {ci : Instruction}

omit [EnvImpl σ] in
theorem compile_keeps {r : Option Instruction × Or1k σ} (h : s.compile = .ok r) :
    (r.2.ireq = s.ireq) ∧ (r.2.decodeCache = s.decodeCache ∨
      ∃ handler, decodeTable (decode s.insn) = some handler ∧ r.2.decodeCache =
        s.decodeCache.store s.ireq.addr (handler s.insn (.blank s.ireq.addr s.insn))) := by
  unfold compile at h
  dsimp only at h
  split at h
  · obtain ⟨y, hy, h⟩ := Outcome.bind_eq_ok.1 h
    obtain ⟨c, hc, rfl⟩ := onCore_eq_ok.1 hy
    cases h
    obtain ⟨-, rfl⟩ | ⟨-, -, rfl⟩ := Core.exception_ok hc
    · exact ⟨rfl, .inl rfl⟩
    · refine ⟨?_, .inl rfl⟩
      show (s.toCore.entered .illegalInsn s.ireq.addr).ireq = _
      unfold Core.entered
      dsimp only
      split <;> rfl
  · split at h
    · cases h
    · rename_i handler hh
      cases h
      exact ⟨rfl, .inr ⟨handler, hh, rfl⟩⟩

/-- The slots after a fetch: as they were, or one is filled from the word at its address. -/
theorem fetch_keeps {r : Option Instruction × Or1k σ} (h : s.fetch = .ok r)
    (ha : Core.Asks s.ireq) : Core.Asks r.2.ireq ∧ (r.2.decodeCache = s.decodeCache ∨
      ∃ c w handler, s.Looks c ∧ c.supplied c.ireq.addr = some w ∧
        decodeTable (decode w) = some handler ∧ r.2.decodeCache =
          s.decodeCache.store c.ireq.addr (handler w (.blank c.ireq.addr w))) := by
  obtain ⟨⟨found, s1⟩, h1, h⟩ := Outcome.bind_eq_ok.1 h
  obtain ⟨_, c, hc, he⟩ := liftCore_eq_ok.1 h1
  obtain ⟨rfl, rfl⟩ := Prod.mk.inj he
  have hask := Core.fetchAddress_asks hc ha
  dsimp only at h
  cases found with
  | false =>
    cases h
    exact ⟨hask, .inl rfl⟩
  | true =>
    rw [if_neg (by simp)] at h
    split at h
    · cases h
      exact ⟨hask, .inl rfl⟩
    · obtain ⟨⟨read, s2⟩, h2, h⟩ := Outcome.bind_eq_ok.1 h
      obtain ⟨_, d, hd, he⟩ := liftCore_eq_ok.1 h2
      obtain ⟨rfl, rfl⟩ := Prod.mk.inj he
      have hd : c.fetchWord = .ok (read, d) := hd
      obtain ⟨haddr, hask'⟩ := Core.fetchWord_keeps hd hask
      dsimp only at h
      cases read with
      | false =>
        cases h
        exact ⟨hask', .inl rfl⟩
      | true =>
        rw [if_neg (by simp)] at h
        obtain ⟨hireq, hdc⟩ := compile_keeps h
        refine ⟨hireq ▸ hask', hdc.imp_right ?_⟩
        rintro ⟨handler, hh, hdc⟩
        refine ⟨c, d.insn, handler, hc, ?_, hh, ?_⟩
        · unfold Core.supplied
          rw [hd]
        · rw [← haddr]
          exact hdc

end Or1k

/-! ## Words that change -/

/-- The word at a cached address has changed, from `c` to `x` or before. -/
def outdated [EnvImpl σ] (g : U32 → Bool) (d : DecodeCache) (c x : Core σ) (a : U32) : Bool :=
  g a || (d.caches a && decide (c.supplied a ≠ x.supplied a))

namespace Machine

open Or1k

section Words

variable [EnvImpl σ]

/-- The core that looks up the cache, if the action fetches. -/
def looking (m : Machine σ) (a : Action σ) : Core σ :=
  match a with
  | .run =>
    if m.executes then
      match m.cpu.beginCycle.toCore.fetchAddress with
      | .ok (true, c) => c
      | _ => m.cpu.toCore
    else m.cpu.toCore
  | _ => m.cpu.toCore

/-- The block that a permitted write to ICBIR invalidates. -/
def invalidates (m : Machine σ) (a : Action σ) : Option U32 :=
  match a with
  | .writeSpr reg val => if reg = SpReg.icbir.num then some val else none
  | a =>
    match m.mtspr a with
    | some (reg, val, _) => if reg = SpReg.icbir.num then some val else none
    | none => none

/-- The addresses whose word has changed while it was cached, until `block` covers them. -/
def outdatedAfter (block : Machine σ → Action σ → Option U32) (g : U32 → Bool)
    (st : Move (Machine σ) (Action σ)) (a : U32) : Bool :=
  let c := st.pre.looking st.act
  outdated (outdated g st.pre.cpu.decodeCache st.pre.cpu.toCore c) st.post.cpu.decodeCache c
    st.post.cpu.toCore a && !(block st.pre st.act).any (DecodeCache.covers · a)

variable [HostLib]

/-- The simulator with the addresses that are outdated. -/
abbrev watching (block : Machine σ → Action σ → Option U32) :
    System (Machine σ × (U32 → Bool)) (Action σ) := system.watch (outdatedAfter block)

/-- A fetch is word-aligned and not from an outdated address, and no C++ exception is thrown. -/
def careful (q : Machine σ × (U32 → Bool)) (a : Action σ) : Bool :=
  match a with
  | .run =>
    !q.1.executes ||
      (match q.1.cpu.beginCycle.toCore.fetchAddress with
        | .ok (true, c) => isAligned c.ireq.addr 4 &&
          !outdated q.2 q.1.cpu.decodeCache q.1.cpu.toCore c c.ireq.addr
        | _ => true) &&
      (match q.1.cpu.beginCycle.fetchExecute with
        | .throw _ => false
        | _ => true)
  | _ => true

end Words

variable [EnvImpl σ] [HostLib] {m m' : Machine σ} {a : Action σ} {g : U32 → Bool}

/-- The slots hold the words at their addresses, unless these are outdated. -/
structure Current (g : U32 → Bool) (s : Or1k σ) : Prop where
  asks : Core.Asks s.ireq
  filled : s.decodeCache.Filled
  fresh : ∀ a, isAligned a 4 = true → s.decodeCache.caches a = true → g a = false →
    s.toCore.supplied a = some (s.decodeCache.lookup a).insn

omit [EnvImpl σ] [HostLib] in
theorem ne_of_aligned {a : U32} (h : isAligned a 4 = true) : a ≠ 0xffffffff#32 := by
  rintro rfl
  cases h

theorem upToDate (h : Current g m.cpu) (hc : careful (m, g) .run = true)
    (hx : m.executes = true) : m.cpu.beginCycle.UpToDate := by
  intro c hl ht
  have hl : m.cpu.beginCycle.toCore.fetchAddress = .ok (true, c) := hl
  unfold careful at hc
  dsimp only at hc
  rw [hx, hl] at hc
  simp only [Bool.not_true, Bool.false_or, Bool.and_eq_true, Bool.not_eq_true'] at hc
  obtain ⟨⟨ha, ho⟩, -⟩ := hc
  have htag : m.cpu.decodeCache.caches c.ireq.addr = true := beq_iff_eq.2 ht.1
  unfold outdated at ho
  rw [htag, Bool.true_and, Bool.or_eq_false_iff, decide_eq_false_iff_not, not_not] at ho
  refine ⟨ho.2 ▸ h.fresh _ ha htag ho.1, ?_⟩
  refine (h.filled (m.cpu.decodeCache.index c.ireq.addr)).resolve_left fun hi => ?_
  -- an unused slot is tagged with an address that is not word-aligned
  have hlook : m.cpu.decodeCache.lookup c.ireq.addr = .invalid := hi
  have htag : (m.cpu.decodeCache.lookup c.ireq.addr).addr = c.ireq.addr := ht.1
  rw [hlook] at htag
  exact ne_of_aligned ha htag.symm

/-- A step without an instruction leaves the fetch request. -/
theorem act_ireq (hx : ¬IsIteration ⟨m, a, m'⟩) (hn : m.act a = some m') :
    m'.cpu.ireq = m.cpu.ireq := by
  cases act_transition hn with
  | begin r s n => exact began_steady.ireq
  | mini | finish | leave => rfl
  | iterate limit s x hl hfe | throw limit s x hl hfe =>
    exact (hx ⟨rfl, by simpa [executes] using hl⟩).elim
  | drain s =>
    rw [drained_cpu]
    exact (timerUpdated_steady.trans externalChecked_steady).ireq
  | interrupt p s id set =>
    obtain ⟨v, he⟩ := s.toCore.interrupt_eq id set
    rw [he]
    rfl
  | outside r s s' a ha h =>
    cases outside_ok h with
    | writeSpr reg val =>
      obtain ⟨-, hd⟩ | hw := sprWritten_cases (s := s) reg val true
      · show (s.sprWritten reg val true).ireq = _
        rw [hd]
        exact dozed_steady.ireq
      · exact hw.ireq
    | writeGpr | world | setUp => rfl

omit [EnvImpl σ] [HostLib] in
theorem regWritten_icbir [EnvImpl σ] {s : Or1k σ} (val : U32) :
    (s.regWritten SpReg.icbir.num val).decodeCache = s.decodeCache.invalidateBlock val 32 := by
  unfold regWritten
  rw [SpReg.ofNum_num]

/-- The slots behind a permitted `l.mtspr` to ICBIR. -/
theorem icbir_decodeCache {val : U32} {f : Or1k σ} (h : m.mtspr a = some (SpReg.icbir.num, val, f))
    (hn : m.act a = some m') : m'.cpu.decodeCache = f.decodeCache.invalidateBlock val 32 := by
  obtain ⟨rfl, hx, hm⟩ := mtspr_eq_some h
  obtain ⟨-, hfe⟩ := mtspr_executed hm
  rcases iteration_cases hx hn with ⟨limit, x, hok, rfl⟩ | ⟨x, hth, -⟩
  · cases hok.symm.trans hfe
    have hdc : ∀ y : Or1k σ, y.retire.redirect.decodeCache = y.decodeCache := by
      intro y
      unfold redirect
      split <;> rfl
    rw [retired_cpu, hdc, regWritten_icbir]
    rfl
  · cases hth.symm.trans hfe

/-- The block that a step invalidates is not cached behind it. -/
theorem not_caches_of_invalidates {val b : U32} (hn : m.act a = some m')
    (hi : m.invalidates a = some val) (hb : b ≠ 0xffffffff#32)
    (hc : DecodeCache.covers val b = true) : m'.cpu.decodeCache.caches b = false := by
  unfold invalidates at hi
  split at hi
  · rename_i reg v
    split at hi
    · rename_i hreg
      cases hi
      cases act_transition hn with
      | outside r s s' a ha h =>
        have h : s.setSpr reg val true = .ok s' := h
        rw [setSpr_eq] at h
        cases h
        show (s.requestBreak.regWritten reg val).decodeCache.caches b = false
        rw [hreg, regWritten_icbir]
        exact DecodeCache.not_caches_of_covers hb hc
    · cases hi
  · split at hi
    · rename_i reg v f hw
      split at hi
      · rename_i hreg
        cases hi
        subst hreg
        rw [icbir_decodeCache hw hn]
        exact DecodeCache.not_caches_of_covers hb hc
      · cases hi
    · cases hi

/-- The slots behind a step: as they were, or one is filled from the word at its address. -/
structure Filling (m m' : Machine σ) (a : Action σ) : Prop where
  asks : Core.Asks m'.cpu.ireq
  filled : m'.cpu.decodeCache.Filled
  slot : ∀ b, b ≠ 0xffffffff#32 → m'.cpu.decodeCache.caches b = true →
    (m.cpu.decodeCache.caches b = true ∧
      m'.cpu.decodeCache.lookup b = m.cpu.decodeCache.lookup b) ∨
    (m.looking a).supplied b = some (m'.cpu.decodeCache.lookup b).insn

omit [HostLib] in
theorem invalidated_filling {d d' : DecodeCache} (h : Invalidated d d') {b : U32}
    (hb : b ≠ 0xffffffff#32) (hc : d'.caches b = true) :
    d.caches b = true ∧ d'.lookup b = d.lookup b := by
  rcases h with h | ⟨val, h⟩ <;> rw [h] at hc ⊢
  · exact ⟨hc, rfl⟩
  · exact DecodeCache.caches_invalidateBlock hb hc

/-- An instruction that was fetched by `f` left `x`. -/
theorem fetchExecute_filling {s x : Or1k σ} (ha : Core.Asks s.ireq) (hf : s.decodeCache.Filled)
    (h : s.fetchExecute = .ok x) : Core.Asks x.ireq ∧ x.decodeCache.Filled ∧
      ∀ b, b ≠ 0xffffffff#32 → x.decodeCache.caches b = true →
        (s.decodeCache.caches b = true ∧ x.decodeCache.lookup b = s.decodeCache.lookup b) ∨
        ∃ c, s.Looks c ∧ c.supplied b = some (x.decodeCache.lookup b).insn := by
  obtain ⟨⟨oi, f⟩, hfetch, hex⟩ := Outcome.bind_eq_ok.1 h
  obtain ⟨hask, hslots⟩ := fetch_keeps hfetch ha
  have hfx : x.ireq = f.ireq ∧ Invalidated f.decodeCache x.decodeCache := by
    cases oi with
    | none =>
      cases hex
      exact ⟨rfl, .inl rfl⟩
    | some ci => exact ⟨executed_ireq (execute_ok hex), executed_invalidated (execute_ok hex)⟩
  refine ⟨hfx.1 ▸ hask, hfx.2.filled ?_, fun b hb hc => ?_⟩
  · rcases hslots with hd | ⟨c, w, handler, hl, hw, hh, hd⟩
    · exact hd ▸ hf
    · exact hd ▸ hf.store _ (.inr (Instruction.full_handler hh _))
  · obtain ⟨hcf, hlf⟩ := invalidated_filling hfx.2 hb hc
    rw [hlf]
    rcases hslots with hd | ⟨c, w, handler, hl, hw, hh, hd⟩
    · have hd : f.decodeCache = s.decodeCache := hd
      rw [hd] at hcf ⊢
      exact .inl ⟨hcf, rfl⟩
    · have hd : f.decodeCache = _ := hd
      rw [hd] at hcf ⊢
      by_cases hi : s.decodeCache.index b = s.decodeCache.index c.ireq.addr
      · unfold DecodeCache.caches at hcf
        rw [DecodeCache.lookup_store_of_eq hi, handler_addr hh, beq_iff_eq] at hcf
        rw [DecodeCache.lookup_store_of_eq hi, (handler_blank hh _ _).2.1, ← hcf]
        exact .inr ⟨c, hl, hw⟩
      · unfold DecodeCache.caches at hcf ⊢
        rw [DecodeCache.lookup_store_of_ne hi] at hcf ⊢
        exact .inl ⟨hcf, rfl⟩

theorem act_filling (ha : Core.Asks m.cpu.ireq) (hf : m.cpu.decodeCache.Filled)
    (hc : careful (m, g) a = true) (hn : m.act a = some m') : Filling m m' a := by
  by_cases hx : IsIteration ⟨m, a, m'⟩
  · obtain ⟨rfl, hx⟩ := hx
    dsimp only at hx
    rcases iteration_cases hx hn with ⟨limit, x, hok, rfl⟩ | ⟨x, hth, -⟩
    · have hr : x.retire.redirect.ireq = x.ireq ∧
          x.retire.redirect.decodeCache = x.decodeCache := by
        unfold redirect
        split <;> exact ⟨rfl, rfl⟩
      obtain ⟨hask, hfill, hslot⟩ := fetchExecute_filling (s := m.cpu.beginCycle) ha hf hok
      refine ⟨?_, ?_, ?_⟩
      · rw [retired_cpu, hr.1]
        exact hask
      · rw [retired_cpu, hr.2]
        exact hfill
      · intro b hb hcb
        rw [retired_cpu, hr.2] at hcb ⊢
        refine (hslot b hb hcb).imp_right ?_
        rintro ⟨c, hl, hw⟩
        have hl : m.cpu.beginCycle.toCore.fetchAddress = .ok (true, c) := hl
        unfold looking
        dsimp only
        rw [if_pos hx, hl]
        exact hw
    · unfold careful at hc
      dsimp only at hc
      rw [hx, hth] at hc
      simp at hc
  · have hi := act_invalidated hx hn
    exact ⟨act_ireq hx hn ▸ ha, hi.filled hf, fun b hb hcb => .inl (invalidated_filling hi hb hcb)⟩

theorem act_current (h : Current g m.cpu) (hc : careful (m, g) a = true)
    (hn : m.act a = some m') :
    Current (outdatedAfter invalidates g ⟨m, a, m'⟩) m'.cpu := by
  obtain ⟨hask, hfill, hslot⟩ := act_filling h.asks h.filled hc hn
  refine ⟨hask, hfill, fun b hb hcache ho => ?_⟩
  have hne := ne_of_aligned hb
  have hcov : (m.invalidates a).any (DecodeCache.covers · b) = false := by
    cases hi : m.invalidates a with
    | none => rfl
    | some val =>
      rw [Option.any_some, ← Bool.not_eq_true]
      intro hv
      exact nomatch hcache.symm.trans (not_caches_of_invalidates hn hi hne hv)
  unfold outdatedAfter at ho
  dsimp only at ho
  rw [hcov, Bool.not_false, Bool.and_true, outdated, hcache, Bool.true_and, Bool.or_eq_false_iff,
    decide_eq_false_iff_not, not_not] at ho
  obtain ⟨ho, hlast⟩ := ho
  rw [← hlast]
  rcases hslot b hne hcache with ⟨hold, hlook⟩ | hnew
  · rw [outdated, hold, Bool.true_and, Bool.or_eq_false_iff, decide_eq_false_iff_not, not_not] at ho
    rw [← ho.2, hlook]
    exact h.fresh b hb hold ho.1
  · exact hnew

/-! ## Side by side -/

/-- The machine without what the decode cache and the last fetch leave behind. -/
def visible (m : Machine σ) : Machine σ :=
  { m with cpu := { m.cpu with
    decodeCache := .init 0, compiles := 0, ireq := { m.cpu.ireq with cycles := 0 } } }

omit [EnvImpl σ] [HostLib] in
theorem Twin.visible {t : Machine σ} (h : Twin m t) : t.visible = m.visible := by
  obtain ⟨p, s⟩ := m
  obtain ⟨q, u⟩ := t
  obtain ⟨hp, dc, k, n, -, hu⟩ := h
  dsimp only at hp hu
  subst hp hu
  rfl

/-- Along a careful run with a decode cache of any size, the same actions take the simulator
without a cache through the same states. -/
theorem decodeCache_transparent (hp : EnvImpl.Supplies σ) (env : Env σ) (k : Nat)
    (as : List (Action σ))
    (hc : (watching invalidates).admits careful as (init env k, fun _ => false) = true) :
    (system.run as (init env k)).map visible = (system.run as (init env 0)).map visible := by
  let R : Machine σ × (U32 → Bool) → Machine σ → Prop := fun q t => Twin q.1 t ∧ Current q.2 q.1.cpu
  have hstep : ∀ q t a, R q t → careful q a = true →
      Option.Rel R ((watching invalidates).next q a) (system.next t a) := by
    rintro ⟨m, g⟩ t a ⟨ht, hcur⟩ ha
    have hup : a = .run → m.executes = true → m.cpu.beginCycle.UpToDate := by
      rintro rfl hx
      exact upToDate hcur ha hx
    have hrel := act_twin (a := a) hp ht hcur.asks hup
    show Option.Rel R ((m.act a).map _) (t.act a)
    cases hm : m.act a with
    | none =>
      rw [hm] at hrel
      cases htn : t.act a with
      | none => exact .none
      | some y => rw [htn] at hrel; cases hrel
    | some x =>
      rw [hm] at hrel
      cases htn : t.act a with
      | none => rw [htn] at hrel; cases hrel
      | some y =>
        rw [htn] at hrel
        cases hrel with
        | some hxy => exact .some ⟨hxy, act_current hcur ha hm⟩
  have h0 : R (init env k, fun _ => false) (init env 0) := by
    refine ⟨⟨rfl, .init 0, 0, 0, rfl, rfl⟩, ⟨rfl, rfl, rfl⟩, DecodeCache.filled_init k, ?_⟩
    intro a ha hcache
    exact (ne_of_aligned ha (beq_iff_eq.1 hcache).symm).elim
  have hrun := System.run_related hstep hc h0
  have hw : ((watching invalidates).run as (init env k, fun _ => false)).map Prod.fst =
      system.run as (init env k) := System.run_watch _ as _
  rw [← hw]
  generalize (watching invalidates).run as (init env k, fun _ => false) = x at hrun ⊢
  generalize system.run as (init env 0) = y at hrun ⊢
  cases hrun with
  | none => rfl
  | some h => exact congrArg some h.1.visible.symm

end Machine

/-- The simulator's memory supplies words and does nothing else. -/
theorem Memory.supplies : EnvImpl.Supplies Memory := by
  intro req w _ hr h
  change (Memory.transact req w).resp = .success at h
  show (Memory.transact req w).world = w
  unfold Memory.transact at h ⊢
  split
  · rename_i hs
    rw [if_pos hs] at h
    cases h
  · rfl

namespace Machine

open Or1k

attribute [local instance] HostLib.plain

/-- `l.addi r3, r0, 1` at 0x100 is overwritten by `l.addi r3, r0, 2`, its block is invalidated
by `l.mtspr`, and it is executed again. -/
def patching (status : U32) : List (Nat × U32) :=
  [(0x100, 0x9c600001#32), (0x104, 0xa8800000#32 ||| status), (0x108, 0xc0002011#32),
    (0x10c, 0x84a00200#32), (0x110, 0xd4002900#32), (0x114, 0xa8c00100#32),
    (0x118, 0xc0803002#32), (0x11c, 0x03fffff9#32), (0x120, 0x15000000#32),
    (0x200, 0x9c600002#32)]

/-- The CPU after reset with `2 ^ k` slots, no slots for zero. -/
def patchingBoot (status : U32) (k : Nat) : Machine Memory :=
  .init (Memory.env 0x8000 (Memory.image (patching status))) k

def patchingRun : List (Action Memory) := .call 10#32 :: List.replicate 18 .run

/-- The block that `l.mtspr` names, also in a mode that may not write ICBIR. -/
def attempts (m : Machine Memory) (a : Action Memory) : Option U32 :=
  match a with
  | .run =>
    if m.executes then
      match m.cpu.beginCycle.fetch with
      | .ok (some ci, f) =>
        match ci.exec, f.toCore.deref ci ci.dest, f.toCore.deref ci ci.src1 with
        | some .mtspr, .ok reg, .ok val => if reg ||| ci.imm = SpReg.icbir.num then some val else none
        | _, _, _ => none
      | _ => none
    else none
  | a => m.invalidates a

/-- In user mode `l.mtspr` does not invalidate the block. -/
theorem decodeCache_transparent_fails : ∃ as : List (Action Memory),
    (watching attempts).admits careful as (patchingBoot 0x8000#32 4, fun _ => false) = true ∧
      (system.run as (patchingBoot 0x8000#32 4)).map visible ≠
        (system.run as (patchingBoot 0x8000#32 0)).map visible := by
  refine ⟨patchingRun, by decide +kernel, fun h => ?_⟩
  have hr := congrArg (Option.map fun m : Machine Memory => m.cpu.gpr 3) h
  revert hr
  decide +kernel

/-- In supervisor mode it does. -/
theorem decodeCache_transparent_patch :
    (system.run patchingRun (patchingBoot 0x8001#32 4)).map visible =
      (system.run patchingRun (patchingBoot 0x8001#32 0)).map visible ∧
    (system.run patchingRun (patchingBoot 0x8001#32 4)).map (·.cpu.gpr 3) = some 2#32 :=
  ⟨decodeCache_transparent Memory.supplies _ 4 patchingRun (by decide +kernel), by decide +kernel⟩

end Machine

end Or1kiss
