import Or1kiss.Reply
import Or1kiss.WatchStop

/-!
# The bytes under a watchpoint

`watchpoint::overlaps` compares the ends of two ranges as 32-bit sums. A range that ends with the
last byte of the address space has an end of zero, which is above no address.
-/

namespace Or1kiss

open Host Bits Runs

variable {σ : Type}

namespace Watchpoint

variable {wp : Watchpoint} {addr : U32} {n : Nat}

/-- A range of at least one byte that does not wrap. -/
structure Valid (wp : Watchpoint) : Prop where
  pos : 0 < wp.size.toNat
  fits : wp.addr.toNat + wp.size.toNat ≤ 2 ^ 32

/-- One of the `n` bytes at `addr` is one of the watchpoint's. -/
def Meets (wp : Watchpoint) (addr : U32) (n : Nat) : Prop :=
  ∃ b, (wp.addr.toNat ≤ b ∧ b < wp.addr.toNat + wp.size.toNat) ∧
    addr.toNat ≤ b ∧ b < addr.toNat + n

/-- The range ends before the last byte of the address space. -/
def EndsBelow (addr : U32) (n : Nat) : Prop := addr.toNat + n < 2 ^ 32

instance : Decidable (EndsBelow addr n) := inferInstanceAs (Decidable (_ < _))

theorem meets_iff (h : wp.Valid) (hn : 0 < n) : wp.Meets addr n ↔
    addr.toNat < wp.addr.toNat + wp.size.toNat ∧ wp.addr.toNat < addr.toNat + n := by
  have hp := h.pos
  constructor
  · rintro ⟨b, hw, ha⟩
    omega
  · intro hm
    exact ⟨max wp.addr.toNat addr.toNat, by omega, by omega⟩

/-- The comparison finds the common bytes of two ranges that end below the last byte. -/
theorem overlaps_iff (h : wp.Valid) (hn : 0 < n) (ha : addr.toNat + n ≤ 2 ^ 32) :
    wp.overlaps addr (BitVec.ofNat 32 n) = true ↔
      wp.Meets addr n ∧ EndsBelow wp.addr wp.size.toNat ∧ EndsBelow addr n := by
  have hp := h.pos
  have hf := h.fits
  rw [meets_iff h hn]
  unfold overlaps EndsBelow
  rw [Bool.and_eq_true, decide_eq_true_iff, decide_eq_true_iff, BitVec.lt_def, BitVec.lt_def,
    BitVec.toNat_add, BitVec.toNat_add, BitVec.toNat_ofNat]
  omega

end Watchpoint

/-- An aligned access does not wrap. -/
theorem fits_of_aligned {a : U32} {n : Nat} (hn : n = 1 ∨ n = 2 ∨ n = 4)
    (h : isAligned a n = true) : a.toNat + n ≤ 2 ^ 32 := by
  have ha := a.isLt
  have hmask : ∀ k, (a &&& BitVec.ofNat 32 (2 ^ k - 1)) = 0#32 → k < 32 → a.toNat % 2 ^ k = 0 := by
    intro k hk hlt
    have hv := congrArg BitVec.toNat hk
    have hp : 2 ^ k - 1 < 2 ^ 32 := by
      have := Nat.pow_lt_pow_right (a := 2) (by omega) hlt
      omega
    rwa [BitVec.toNat_and, BitVec.toNat_ofNat, Nat.mod_eq_of_lt hp, Nat.and_two_pow_sub_one_eq_mod] at hv
  unfold isAligned at h
  rcases hn with rfl | rfl | rfl
  · omega
  · have h2 := hmask 1 (beq_iff_eq.1 h) (by decide)
    omega
  · have h4 := hmask 2 (beq_iff_eq.1 h) (by decide)
    omega

namespace Core

variable {c : Core σ} {e : MemExec} {req : Request} {a : U32}

/-- The watchpoints of the kind of the access. -/
def watchpointsFor (e : MemExec) (c : Core σ) : List Watchpoint :=
  if e.isLoad then c.watchpointsR else c.watchpointsW

/-- The event behind an access at `a`: raised exactly if the access meets a watchpoint of its kind,
and then it names the access. -/
structure EventRight (e : MemExec) (a : U32) (c : Core σ) (w : WatchpointEvent) : Prop where
  hit : w.hit = true ↔ ∃ wp ∈ c.watchpointsFor e, wp.Meets a e.size
  access : w.hit = true → w.addr = a ∧ w.size = e.size ∧ w.iswr = !e.isLoad

/-- The watchpoint that decides ends below the last byte of the address space, and so does the
access. -/
def Decidedly (e : MemExec) (a : U32) (c : Core σ) : Prop :=
  (∃ wp ∈ c.watchpointsFor e, wp.Meets a e.size) →
    Watchpoint.EndsBelow a e.size ∧ ∃ wp ∈ c.watchpointsFor e, wp.Meets a e.size ∧
      Watchpoint.EndsBelow wp.addr wp.size.toNat

theorem hitsWatchpoint_iff (hv : ∀ wp ∈ c.watchpointsFor e, wp.Valid)
    (ha : isAligned a e.size = true) (hd : req.debug = false) (hi : req.imem = false)
    (hr : req.read = e.isLoad) (haddr : req.addr = a) (hs : req.size = e.size) :
    c.hitsWatchpoint req = true ↔ ∃ wp ∈ c.watchpointsFor e, wp.Meets a e.size ∧
      Watchpoint.EndsBelow wp.addr wp.size.toNat ∧ Watchpoint.EndsBelow a e.size := by
  have hfit := fits_of_aligned e.size_cases ha
  have hpos : 0 < e.size := by
    have := e.size_cases
    omega
  have hw : c.hitsWatchpoint req =
      (c.watchpointsFor e).any (·.overlaps a (BitVec.ofNat 32 e.size)) := by
    unfold hitsWatchpoint watchpointsFor
    rw [hd, hi, hr, haddr, hs]
    rfl
  rw [hw, List.any_eq_true]
  constructor
  · rintro ⟨wp, hm, ho⟩
    exact ⟨wp, hm, (Watchpoint.overlaps_iff (hv wp hm) hpos hfit).1 ho⟩
  · rintro ⟨wp, hm, ho⟩
    exact ⟨wp, hm, (Watchpoint.overlaps_iff (hv wp hm) hpos hfit).2 ho⟩

/-- The event of an access, if none was pending. -/
theorem eventRight_iff (hv : ∀ wp ∈ c.watchpointsFor e, wp.Valid) (ha : isAligned a e.size = true)
    (hd : req.debug = false) (hi : req.imem = false) (hr : req.read = e.isLoad)
    (haddr : req.addr = a) (hs : req.size = e.size) (hb : c.wpEvent.hit = false) :
    EventRight e a c (c.checkWatchpoints req).wpEvent ↔ Decidedly e a c := by
  have hiff := hitsWatchpoint_iff hv ha hd hi hr haddr hs
  have hhit : (c.checkWatchpoints req).wpEvent.hit = c.hitsWatchpoint req := by
    rw [checkWatchpoints_hit, hb, Bool.false_or]
  have haccess : (c.checkWatchpoints req).wpEvent.hit = true →
      (c.checkWatchpoints req).wpEvent.addr = a ∧ (c.checkWatchpoints req).wpEvent.size = e.size ∧
        (c.checkWatchpoints req).wpEvent.iswr = !e.isLoad := by
    intro h
    have hw : (c.checkWatchpoints req).wpEvent = eventOf req := by
      unfold checkWatchpoints
      rw [if_pos (hhit.symm.trans h)]
    rw [hw]
    exact ⟨haddr, hs, congrArg (!·) hr⟩
  have hright : EventRight e a c (c.checkWatchpoints req).wpEvent ↔
      (c.hitsWatchpoint req = true ↔ ∃ wp ∈ c.watchpointsFor e, wp.Meets a e.size) := by
    rw [← hhit]
    exact ⟨fun h => h.hit, fun h => ⟨h, haccess⟩⟩
  rw [hright, hiff]
  constructor
  · intro h hm
    obtain ⟨wp, hmem, hmeets, hw, hend⟩ := h.2 hm
    exact ⟨hend, wp, hmem, hmeets, hw⟩
  · intro h
    constructor
    · rintro ⟨wp, hmem, hmeets, -⟩
      exact ⟨wp, hmem, hmeets⟩
    · intro hm
      obtain ⟨hend, wp, hmem, hmeets, hw⟩ := h hm
      exact ⟨wp, hmem, hmeets, hw, hend⟩

end Core

/-! ## Steps -/

namespace Machine

open Or1k Or1kiss.Core

variable [EnvImpl σ] [HostLib] {m m' : Machine σ} {a : Action σ}

/-- Where an instruction is executed no event is pending, and data requests are the program's. -/
structure Unhit (m : Machine σ) : Prop where
  inner : ∀ limit, m.phase = .inner limit → m.cpu.wpEvent.hit = false
  kind : m.cpu.dreq.kind.2 = (false, false)

omit [EnvImpl σ] [HostLib] in
theorem unhit_init (env : Env σ) (size : Nat) : Unhit (.init env size) :=
  ⟨fun _ => Phase.noConfusion, rfl⟩

theorem act_unhit (hn : m.act a = some m') (h : Unhit m) : Unhit m' := by
  refine ⟨?_, (congrArg Prod.snd (act_attached hn).kind).trans h.kind⟩
  cases act_transition hn with
  | begin | finish | throw | leave | outside => exact fun _ => Phase.noConfusion
  | mini => exact fun _ _ => rfl
  | iterate limit s x hl hx =>
    intro limit' hp
    obtain ⟨hin, hev, -⟩ := retired_event limit x
    rw [hev]
    exact hin limit' hp
  | drain s =>
    intro limit hp
    unfold drained at hp
    split_ifs at hp
  | interrupt p s id set =>
    have hev : (s.withCore (s.toCore.interrupt id set)).wpEvent = s.wpEvent := by
      obtain ⟨v, he⟩ := s.toCore.interrupt_eq id set
      rw [he]
      rfl
    intro limit hp
    rw [hev]
    exact h.inner limit hp

theorem run_unhit {env : Env σ} {size : Nat} (h : system.Run (.init env size) m) : Unhit m :=
  h.invariant (P := Unhit) (fun _ _ _ hp _ hn => act_unhit hn hp) (unhit_init env size)

/-- A load or store leaves the event of its request, also if a C++ exception is thrown. -/
theorem memInsn_wpEvent {e : MemExec} {ci : Instruction} {c : Core σ}
    (hm : m.memInsn .run = some (e, ci, c)) (hn : m.next = some m') :
    ∃ req, c.requestOf e ci = some req ∧ m'.cpu.wpEvent = (c.checkWatchpoints req).wpEvent := by
  obtain ⟨-, hexec, hmem⟩ := memInsn_eq_some hm
  obtain ⟨f, hf, he, rfl⟩ := Or1k.memInsn_eq_some hmem
  obtain ⟨limit, x, hx, rfl⟩ | ⟨x, hx, rfl⟩ := iteration_cases hexec hn
  · obtain ⟨⟨insn, g⟩, hg, hexe⟩ := Outcome.bind_eq_ok.1 hx
    cases hf.symm.trans hg
    obtain ⟨n, hmemx, -⟩ := execute_mem he hexe
    obtain ⟨req, hreq, hev⟩ := executeMem_wpEvent.1 n hmemx
    refine ⟨req, hreq, Eq.trans ?_ hev⟩
    exact (retired_event limit x).2.1
  · rcases fetchExecute_throw hx with hg | ⟨ci', g, e', c, hg, -, he', hmem, rfl⟩
    · cases hf.symm.trans hg
    · cases hf.symm.trans hg
      cases he.symm.trans he'
      exact executeMem_wpEvent.2 hmem

/-- In every state that is reached, an aligned load or store raises the event as it should exactly if
a watchpoint that it meets ends below the last byte, and so does the access, or it meets none. -/
theorem watch_event_iff {env : Env σ} {size : Nat} {e : MemExec} {ci : Instruction} {c : Core σ}
    {base : U32} (h : system.Run (.init env size) m) (hm : m.memInsn .run = some (e, ci, c))
    (hn : m.next = some m') (ha : c.deref ci ci.src1 = .ok base)
    (hal : isAligned (base + ci.imm) e.size = true)
    (hv : ∀ wp ∈ c.watchpointsFor e, wp.Valid) :
    EventRight e (base + ci.imm) c m'.cpu.wpEvent ↔ Decidedly e (base + ci.imm) c := by
  have hu := run_unhit h
  obtain ⟨-, hexec, hmem⟩ := memInsn_eq_some hm
  obtain ⟨f, hf, he, hc⟩ := Or1k.memInsn_eq_some hmem
  have hhit : m.cpu.wpEvent.hit = false := by
    unfold executes at hexec
    split at hexec
    · exact hu.inner _ ‹_›
    · cases hexec
  have hfetch : c.wpEvent = m.cpu.wpEvent ∧ c.dreq = m.cpu.dreq := by
    have hfi := FetchedInsn.of_fetch hf
    rw [hc]
    exact ⟨congrArg (·.wpEvent) hfi.eq, congrArg (·.dreq) hfi.eq⟩
  obtain ⟨req, hreq, hev⟩ := memInsn_wpEvent hm hn
  rw [hev]
  unfold requestOf at hreq
  rw [ha] at hreq
  split at hreq
  · rename_i a v hab _
    cases hab
    cases hreq
    have hkind : (c.dreq.imem, c.dreq.debug) = (false, false) := by
      rw [hfetch.2]
      exact hu.kind
    obtain ⟨hi, hd⟩ := Prod.mk.inj hkind
    exact eventRight_iff hv hal hd hi rfl rfl rfl (by rw [hfetch.1, hhit])
  · cases hreq

end Machine

namespace Machine

open Or1kiss.Core

attribute [local instance] HostLib.plain

/-- `l.lwz r3,0x200(r0)` at the reset vector. -/
def watchedLoad : Machine Memory := Memory.boot [(0x100, 0x84600200#32)]

/-- The load under a watchpoint for reads, evaluated up to the step that executes it. -/
theorem exists_watchedLoad (wp : Watchpoint) (p : Machine Memory → Bool)
    (h : (system.runsIf (fun _ _ => true) [.insertWatchpoint false wp, .call 1#32, .run]
        watchedLoad).any (fun m => match m.memInsn .run, m.next, m.cpu.beginCycle.fetchExecute with
      | some (e, ci, c), some m', .ok _ => decide (e = .lw ∧ ci.imm = 0x200#32 ∧
          c.watchpointsR = [wp]) && (c.deref ci ci.src1).value? == some 0#32 && p m'
      | _, _, _ => false) = true) :
    ∃ m m' ci c, system.Run watchedLoad m ∧ m.memInsn .run = some (.lw, ci, c) ∧ m.next = some m' ∧
      c.deref ci ci.src1 = .ok 0#32 ∧ ci.imm = 0x200#32 ∧ c.watchpointsFor .lw = [wp] ∧
      p m' = true := by
  obtain ⟨m, m', e, ci, c, x, hr, hm, hn, -, hp⟩ := exists_memInsn watchedLoad _ _ h
  rw [Bool.and_eq_true, Bool.and_eq_true, decide_eq_true_iff, beq_iff_eq] at hp
  obtain ⟨⟨⟨rfl, himm, hw⟩, hd⟩, hp⟩ := hp
  exact ⟨m, m', ci, c, hr, hm, hn, Outcome.value?_eq_some.1 hd, himm, hw, hp⟩

/-- A watchpoint that ends with the last byte is not seen. -/
theorem watch_event_iff_fails : ∃ m m' ci c, system.Run watchedLoad m ∧
    m.memInsn .run = some (.lw, ci, c) ∧ m.next = some m' ∧
      c.watchpointsFor .lw = [⟨0x200#32, 0xfffffe00#32⟩] ∧
      ¬EventRight .lw 0x200#32 c m'.cpu.wpEvent := by
  obtain ⟨m, m', ci, c, hr, hm, hn, hd, himm, hw, hp⟩ := exists_watchedLoad
    ⟨0x200#32, 0xfffffe00#32⟩ (fun m' => !m'.cpu.wpEvent.hit) (by decide +kernel)
  refine ⟨m, m', ci, c, hr, hm, hn, hw, fun h => ?_⟩
  have hmeets : ∃ wp ∈ c.watchpointsFor .lw, wp.Meets 0x200#32 4 := by
    rw [hw]
    exact ⟨_, List.mem_singleton_self _, 0x200, by decide⟩
  rw [h.hit.2 hmeets] at hp
  cases hp

/-- A watchpoint on the word is. -/
theorem watch_event_iff_word : ∃ m m' ci c, system.Run watchedLoad m ∧
    m.memInsn .run = some (.lw, ci, c) ∧ m.next = some m' ∧ m'.cpu.wpEvent.hit = true ∧
      EventRight .lw (0#32 + ci.imm) c m'.cpu.wpEvent := by
  obtain ⟨m, m', ci, c, hr, hm, hn, hd, himm, hw, hp⟩ := exists_watchedLoad
    ⟨0x200#32, 4#32⟩ (fun m' => m'.cpu.wpEvent.hit) (by decide +kernel)
  have hal : isAligned (0#32 + ci.imm) (MemExec.size .lw) = true := by
    rw [himm]
    rfl
  have hv : ∀ wp ∈ c.watchpointsFor .lw, wp.Valid := by
    rw [hw]
    intro wp hwp
    rw [List.mem_singleton.1 hwp]
    constructor <;> decide
  refine ⟨m, m', ci, c, hr, hm, hn, hp, (watch_event_iff hr hm hn hd hal hv).2 fun _ => ?_⟩
  rw [himm, hw]
  exact ⟨by decide, _, List.mem_singleton_self _, ⟨0x200, by decide⟩, by decide⟩

end Machine

end Or1kiss
