import Or1kiss.CodeWrites

/-!
# The block that a write to ICBIR invalidates

`invalidate_block` compares the tags of the slots with eight addresses, four bytes apart from the
value written. `overlaps` are the words that share a byte with the block, `missed` those that a
fetch still finds behind the write: a word that is not one of the eight, and the word at the
address that marks a free slot.
-/

namespace Or1kiss

open Host Bits Outcome Runs

variable {σ : Type}

namespace DecodeCache

variable {d : DecodeCache} {val b : U32}

/-- One of the four bytes at `b` is one of the 32 bytes at `val`. -/
def overlaps (val b : U32) : Bool :=
  (List.range 4).any fun k => decide ((b + BitVec.ofNat 32 k - val).toNat < 32)

theorem overlaps_of_covers (h : covers val b = true) : overlaps val b = true := by
  obtain ⟨i, hi, hb⟩ := List.any_eq_true.1 h
  rw [List.mem_range] at hi
  refine List.any_eq_true.2 ⟨0, by decide, decide_eq_true ?_⟩
  rw [beq_iff_eq.1 hb, BitVec.add_zero, BitVec.add_comm, BitVec.add_sub_cancel,
    BitVec.toNat_ofNat]
  omega

/-- The slots of words apart from the block stay. -/
theorem slots_of_not_overlaps {i : Nat} (h : overlaps val (d.slots i).addr = false) :
    (d.invalidateBlock val 32).slots i = d.slots i := by
  have hn : ¬d.named val (List.range 8) i = true := by
    intro hn
    unfold named at hn
    rw [Bool.and_eq_true] at hn
    exact nomatch h.symm.trans (overlaps_of_covers hn.1)
  unfold invalidateBlock
  rw [show (32 + 3) / 4 = 8 from rfl, slots_invalidate_all, if_neg hn]

/-- A fetch from `b` still finds a slot behind a write of `val` to ICBIR: the slot is tagged with
`b` and this is not one of the eight addresses; or `b` is the mark of a free slot, and the slot is
free or becomes so. -/
def missed (d : DecodeCache) (val b : U32) : Bool :=
  if b = 0xffffffff#32 then d.caches b || d.named val (List.range 8) (d.index b)
  else d.caches b && !covers val b

theorem caches_invalidateBlock_eq : (d.invalidateBlock val 32).caches b = d.missed val b := by
  have hc : (d.invalidateBlock val 32).caches b =
      if d.named val (List.range 8) (d.index b) then 0xffffffff#32 == b else d.caches b := by
    show (((d.invalidateBlock val 32).lookup b).addr == b) = _
    rw [lookup_invalidateBlock]
    split <;> rfl
  rw [hc]
  unfold missed
  by_cases hb : b = 0xffffffff#32
  · rw [if_pos hb, hb, beq_self_eq_true]
    cases d.named val (List.range 8) (d.index 0xffffffff#32) <;> simp
  · rw [if_neg hb, beq_eq_false_iff_ne.2 (Ne.symm hb)]
    cases hcb : d.caches b with
    | true =>
      rw [named_of_caches hcb]
      cases covers val b <;> rfl
    | false => simp

end DecodeCache

/-! ## Steps that do not write ICBIR -/

namespace Or1k

variable [EnvImpl σ] {s x : Or1k σ} {reg val : U32}

theorem regWritten_decodeCache (h : reg ≠ SpReg.icbir.num) :
    (s.regWritten reg val).decodeCache = s.decodeCache := by
  unfold regWritten
  cases hr : SpReg.ofNum reg with
  | none =>
    dsimp only
    cases SprFile.ofNum reg.toNat <;> rfl
  | some r =>
    cases r with
    | icbir =>
      have hf := List.find?_some hr
      exact (h (beq_iff_eq.1 hf).symm).elim
    | pmr =>
      dsimp only
      exact dozed_steady.decodeCache
    | _ => rfl

theorem sprWritten_decodeCache {debug : Bool} (h : reg ≠ SpReg.icbir.num) :
    (s.sprWritten reg val debug).decodeCache = s.decodeCache := by
  unfold sprWritten
  split
  · rfl
  · exact regWritten_decodeCache (s := s.requestBreak) h

variable [HostLib]

/-- The slots behind an iteration that does not write ICBIR are those that the fetch left. -/
theorem fetchExecute_cached_only (hm : ∀ val f, s.mtspr ≠ some (SpReg.icbir.num, val, f))
    (h : s.fetchExecute = .ok x ∨ s.fetchExecute = .throw x) : ∃ ci, Cached s ci x.decodeCache := by
  rcases h with h | h
  · obtain ⟨⟨ci, f⟩, hf, h⟩ := Outcome.bind_eq_ok.1 h
    refine ⟨ci, ?_⟩
    have hfetch : Cached s ci f.decodeCache := fetch_cached hf
    cases ci with
    | none =>
      cases h
      exact hfetch
    | some ci =>
      suffices hx : x.decodeCache = f.decodeCache from hx ▸ hfetch
      cases execute_ok h with
      | plain | untaken | taken => rfl
      | mtspr a b he ha hb =>
        unfold sprWritten
        cases hw : f.writeDenied (a ||| ci.imm) false with
        | true => rfl
        | false =>
          rw [if_neg Bool.false_ne_true]
          refine regWritten_decodeCache fun hreg => hm b f ?_
          unfold mtspr
          rw [hf]
          dsimp only
          rw [he, ha, hb]
          dsimp only
          rw [hw, if_neg Bool.false_ne_true, hreg]
      | nop y he h => rcases nop_ok h with ⟨rfl, -⟩ | ⟨rfl, -⟩ | ⟨c, rfl, -⟩ <;> rfl
      | rfe y he h =>
        obtain ⟨c, -, rfl⟩ := rfe_ok h
        unfold rfeRestored
        split <;> rfl
  · rcases fetchExecute_throw h with h | ⟨ci, f, e, c, hf, -, -, -, rfl⟩
    · exact ⟨none, fetch_throw_cached h⟩
    · exact ⟨some ci, fetch_cached hf⟩

end Or1k

namespace Machine

open Or1k

variable [EnvImpl σ] [HostLib] {m m' : Machine σ} {a : Action σ} {f : Or1k σ} {val b : U32}

/-- The fetch of the step does not find `b` and decodes the word at it. -/
def Refills (st : Move (Machine σ) (Action σ)) (b : U32) : Prop :=
  st.act = .run ∧ st.pre.executes = true ∧ ∃ w, st.pre.cpu.beginCycle.Reads b w

/-- A step that does not write ICBIR leaves the slots, but for the one that its fetch fills. -/
theorem act_uninvalidated (hi : m.invalidates a = none) (hn : m.act a = some m') :
    m'.cpu.decodeCache = m.cpu.decodeCache ∨ IsIteration ⟨m, a, m'⟩ ∧
      ∃ ci, Cached m.cpu.beginCycle ci m'.cpu.decodeCache := by
  by_cases hx : IsIteration ⟨m, a, m'⟩
  · refine .inr ⟨hx, ?_⟩
    obtain ⟨rfl, hx⟩ := hx
    dsimp only at hx
    have hm : ∀ v f, m.cpu.beginCycle.mtspr ≠ some (SpReg.icbir.num, v, f) := by
      intro v f h
      have hw : m.mtspr .run = some (SpReg.icbir.num, v, f) := (mtspr_run hx).trans h
      unfold invalidates at hi
      dsimp only at hi
      rw [hw] at hi
      cases hi
    rcases iteration_cases hx hn with ⟨limit, x, h, rfl⟩ | ⟨x, h, rfl⟩
    · rw [retired_frame (·.decodeCache) limit x fun _ _ _ _ => rfl]
      exact fetchExecute_cached_only hm (.inl h)
    · exact fetchExecute_cached_only hm (.inr h)
  · left
    cases act_transition hn with
    | begin r s n => exact began_steady.decodeCache
    | mini | finish | leave => rfl
    | iterate limit s x hl hfe | throw limit s x hl hfe =>
      exact (hx ⟨rfl, by simpa [executes] using hl⟩).elim
    | drain s =>
      rw [drained_cpu]
      exact (timerUpdated_steady.trans externalChecked_steady).decodeCache
    | interrupt p s id set =>
      obtain ⟨v, he⟩ := s.toCore.interrupt_eq id set
      rw [he]
      rfl
    | outside r s s' a ha h =>
      cases outside_ok h with
      | writeSpr reg v =>
        have hreg : reg ≠ SpReg.icbir.num := by
          intro hreg
          unfold invalidates at hi
          dsimp only at hi
          rw [if_pos hreg] at hi
          cases hi
        exact sprWritten_decodeCache hreg
      | writeGpr | world | setUp => rfl

/-- An address that a step leaves in the cache was there, or has been filled by its fetch. -/
theorem act_caches (hn : m.act a = some m') (hi : b = 0xffffffff#32 → m.invalidates a = none)
    (hc : m'.cpu.decodeCache.caches b = true) :
    m.cpu.decodeCache.caches b = true ∨ Refills ⟨m, a, m'⟩ b := by
  have hslot : ∀ {ci : Option Instruction} {dc : DecodeCache}, IsIteration ⟨m, a, m'⟩ →
      Cached m.cpu.beginCycle ci dc → dc.caches b = true →
      m.cpu.decodeCache.caches b = true ∨ Refills ⟨m, a, m'⟩ b := by
    intro ci dc hx hcached hcd
    cases hcached.slot hcd with
    | kept hold _ => exact .inl hold
    | filled w hr _ => exact .inr ⟨hx.1, hx.2, w, hr⟩
  by_cases hb : b = 0xffffffff#32
  · rcases act_uninvalidated (hi hb) hn with h | ⟨hx, ci, hcached⟩
    · rw [h] at hc
      exact .inl hc
    · exact hslot hx hcached hc
  · by_cases hx : IsIteration ⟨m, a, m'⟩
    · obtain ⟨ci, dc, hcached, hinv, -⟩ := iteration_cached hx hn
      exact hslot hx hcached (invalidated_filling hinv hb hc).1
    · exact .inl (invalidated_filling (act_invalidated hx hn) hb hc).1

/-- What a write of `val` to ICBIR should do to a cache `d`: until it is filled again, no slot is
found from a word that shares a byte with the block, and the slots of other words stay. The address
that marks a free slot counts as long as nothing else writes ICBIR. -/
structure Invalidates (m : Machine σ) (d : DecodeCache) (val : U32) : Prop where
  gone : ∀ b, DecodeCache.overlaps val b = true → ∀ l m', system.Path m l m' →
    (∀ st ∈ l, ¬Refills st b ∧ (b = 0xffffffff#32 → st.pre.invalidates st.act = none)) →
    m'.cpu.decodeCache.holds b = false
  kept : ∀ i, DecodeCache.overlaps val (d.slots i).addr = false →
    m.cpu.decodeCache.slots i = d.slots i

/-- No step brings an address into the cache but a fetch from it. -/
theorem path_caches {l : List (Move (Machine σ) (Action σ))} (hl : system.Path m l m')
    (h : ∀ st ∈ l, ¬Refills st b ∧ (b = 0xffffffff#32 → st.pre.invalidates st.act = none))
    (hc : m'.cpu.decodeCache.caches b = true) : m.cpu.decodeCache.caches b = true := by
  induction hl with
  | refl => exact hc
  | @tail l t u a _ hn ih =>
    obtain ⟨hr, hi⟩ := h _ (List.mem_append_right _ (List.mem_singleton_self _))
    exact ih (fun st hst => h st (List.mem_append_left _ hst))
      ((act_caches hn hi hc).resolve_right hr)

theorem path_isOff {l : List (Move (Machine σ) (Action σ))} (hl : system.Path m l m') :
    m'.cpu.decodeCache.isOff = m.cpu.decodeCache.isOff := by
  induction hl with
  | refl => rfl
  | tail _ hn ih => exact (act_isOff hn).trans ih

/-- A write to ICBIR that the mode permits invalidates the block if and only if the cache is off or
no word that shares a byte with the block is missed. -/
theorem icbir_iff (h : m.mtspr a = some (SpReg.icbir.num, val, f)) (hn : m.act a = some m') :
    Invalidates m' f.decodeCache val ↔ f.decodeCache.isOff = true ∨
      ∀ b, DecodeCache.overlaps val b = true → f.decodeCache.missed val b = false := by
  have hd := icbir_decodeCache h hn
  have hoff : m'.cpu.decodeCache.isOff = f.decodeCache.isOff :=
    Invalidated.isOff (.inr ⟨val, hd⟩)
  have hcaches : ∀ b, m'.cpu.decodeCache.caches b = f.decodeCache.missed val b := by
    intro b
    rw [hd]
    exact DecodeCache.caches_invalidateBlock_eq
  constructor
  · intro hinv
    cases ho : f.decodeCache.isOff with
    | true => exact .inl rfl
    | false =>
      refine .inr fun b hb => ?_
      have hg := hinv.gone b hb [] m' .refl (fun st hst => (List.not_mem_nil hst).elim)
      unfold DecodeCache.holds at hg
      rw [hoff, ho, Bool.not_false, Bool.and_true, hcaches] at hg
      exact hg
  · intro hor
    refine ⟨fun b hb l m'' hl hst => ?_, fun i hi => ?_⟩
    · unfold DecodeCache.holds
      rw [path_isOff hl, hoff]
      rcases hor with ho | hmiss
      · rw [ho]
        exact Bool.and_false _
      · have hcb : m''.cpu.decodeCache.caches b = false := by
          refine eq_false_of_ne_true fun hc => ?_
          have hm := path_caches hl hst hc
          rw [hcaches, hmiss b hb] at hm
          cases hm
        rw [hcb, Bool.false_and]
    · rw [hd]
      exact DecodeCache.slots_of_not_overlaps hi

end Machine

/-! ## Two writes -/

namespace Machine

attribute [local instance] HostLib.plain

/-- `l.ori r3,r0,val` and `l.mtspr r0,r3,ICBIR` with a cache of 16 entries. -/
def invalidating (val : U32) : Machine Memory :=
  .init (Memory.env 0x8000 (Memory.image [(0x100, 0xa8600000#32 ||| val), (0x104, 0xc0801802#32)])) 4

/-- The write, evaluated up to the state that executes it. -/
theorem exists_icbir (val : U32) (p : DecodeCache → Bool)
    (h : (system.runsIf (fun _ _ => true) [.call 2#32, .run, .run] (invalidating val)).any (fun m =>
      match m.mtspr .run with
      | some (reg, v, f) => decide (reg = SpReg.icbir.num ∧ v = val) && p f.decodeCache &&
        (m.act .run).isSome
      | none => false) = true) :
    ∃ m m' f, system.Run (invalidating val) m ∧ m.mtspr .run = some (SpReg.icbir.num, val, f) ∧
      m.act .run = some m' ∧ p f.decodeCache = true := by
  obtain ⟨m, hr, h⟩ := System.exists_run system _ _ _ h
  split at h
  · rename_i reg v f hm
    rw [Bool.and_eq_true, Bool.and_eq_true, decide_eq_true_iff] at h
    obtain ⟨⟨⟨rfl, rfl⟩, hp⟩, hn⟩ := h
    obtain ⟨m', hn⟩ := Option.isSome_iff_exists.1 hn
    exact ⟨m, m', f, hr, hm, hn, hp⟩
  · cases h

/-- At 0x102 the write leaves the instruction at 0x104 in the cache. -/
theorem icbir_iff_fails : ∃ m m' f, system.Run (invalidating 0x102#32) m ∧
    m.mtspr .run = some (SpReg.icbir.num, 0x102#32, f) ∧ m.act .run = some m' ∧
      ¬Invalidates m' f.decodeCache 0x102#32 := by
  obtain ⟨m, m', f, hr, hm, hn, hp⟩ := exists_icbir 0x102#32
    (fun d => !d.isOff && d.missed 0x102#32 0x104#32) (by decide +kernel)
  rw [Bool.and_eq_true, Bool.not_eq_true'] at hp
  refine ⟨m, m', f, hr, hm, hn, fun h => ?_⟩
  have hg := h.gone 0x104#32 (by decide) [] m' .refl fun st hst => (List.not_mem_nil hst).elim
  unfold DecodeCache.holds at hg
  rw [icbir_decodeCache hm hn, DecodeCache.caches_invalidateBlock_eq, hp.2,
    Or1k.Invalidated.isOff (.inr ⟨0x102#32, rfl⟩), hp.1] at hg
  cases hg

/-- At 0x100 it takes both instructions out. -/
theorem icbir_iff_aligned : ∃ m m' f, system.Run (invalidating 0x100#32) m ∧
    m.mtspr .run = some (SpReg.icbir.num, 0x100#32, f) ∧ m.act .run = some m' ∧
      f.decodeCache.caches 0x104#32 = true ∧ Invalidates m' f.decodeCache 0x100#32 := by
  obtain ⟨m, m', f, hr, hm, hn, hp⟩ := exists_icbir 0x100#32
    (fun d => d.caches 0x104#32 && d.size == 4 && (List.range 16).all fun i =>
      [0x100#32, 0x104#32, 0xffffffff#32].contains (d.slots i).addr) (by decide +kernel)
  rw [Bool.and_eq_true, Bool.and_eq_true, beq_iff_eq, List.all_eq_true] at hp
  obtain ⟨⟨hc, hsize⟩, htags⟩ := hp
  refine ⟨m, m', f, hr, hm, hn, hc, (icbir_iff hm hn).2 (.inr fun b hb => ?_)⟩
  have hne : b ≠ 0xffffffff#32 := by
    rintro rfl
    cases hb
  unfold DecodeCache.missed
  rw [if_neg hne]
  cases hcb : f.decodeCache.caches b with
  | false => rfl
  | true =>
    have hi : f.decodeCache.index b < 16 := by
      unfold DecodeCache.index
      rw [hsize, BitVec.toNat_and]
      exact Nat.lt_succ_of_le Nat.and_le_right
    have ht : (f.decodeCache.slots (f.decodeCache.index b)).addr = b := beq_iff_eq.1 hcb
    have hmem := htags _ (List.mem_range.2 hi)
    rw [ht] at hmem
    have hb' : b = 0x100#32 ∨ b = 0x104#32 ∨ b = 0xffffffff#32 := by simpa using hmem
    rcases hb' with rfl | rfl | rfl
    · rfl
    · rfl
    · exact (hne rfl).elim

end Machine

end Or1kiss
