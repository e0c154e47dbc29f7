import Or1kiss.Lib.Delayed
import Or1kiss.Quantum
import Or1kiss.Resume
import Or1kiss.UserMode

/-!
# Preemption

A program in user mode can neither stop the timer nor put off its exception: while the timer is
armed and the tick exception enabled, as many instructions start as there are cycles to the match,
and before one more the CPU has entered a handler.
-/

namespace Or1kiss

open Host Runs Bits

variable {σ : Type}

namespace Core

theorem entered_mode {c : Core σ} {t : ExType} (ht : t.isAsync = false) (addr : U32) :
    HandlerMode (c.entered t addr).status := by
  unfold entered
  rw [if_neg (ne_true_of_eq_false ht)]
  exact exceptionStatus_mode c

end Core

namespace Or1k

variable {s f x : Or1k σ} {ci : Instruction}

section Execute

variable [EnvImpl σ] [HostLib]

/-! ## An instruction of user mode -/

/-- User mode goes on as it was: the status differs in the flags, and the CPU does not fall asleep. -/
structure Unprivileged (s x : Or1k σ) : Prop where
  status : x.status &&& ~~~openFlags = s.status &&& ~~~openFlags
  awake : test s.pmr PMR.DME = false → test x.pmr PMR.DME = false

omit [EnvImpl σ] [HostLib] in
theorem Unprivileged.of_eq (hs : x.status = s.status) (hp : x.pmr = s.pmr) : Unprivileged s x :=
  ⟨by rw [hs], fun h => by rw [hp]; exact h⟩

/-- An instruction of user mode enters a handler, or user mode goes on; the second also when
`l.rfe`, let to read EPCR, finds an address there that is not aligned. -/
theorem executed_unprivileged (h : Executed ci f x) (hu : f.isSupervisor = false) :
    HandlerMode x.status ∨ Unprivileged f x := by
  cases h with
  | plain c limit e he hp hr =>
    rcases hr.outcomes.control with hc | ⟨-, hh⟩
    · have hcover : ∀ v : U32, v &&& ~~~openFlags = (v &&& ~~~resultFlags) &&& ~~~openFlags := fun v => by
        rw [BitVec.and_assoc, show ~~~resultFlags &&& ~~~openFlags = ~~~openFlags by decide]
      refine .inr ⟨?_, fun h => ?_⟩
      · show c.status &&& ~~~openFlags = f.status &&& ~~~openFlags
        rw [hcover, hc.status, ← hcover]
      · show test c.pmr PMR.DME = false
        rw [hc.pmr]
        exact h
    · exact .inl hh.mode
  | untaken => exact .inr (.of_eq rfl rfl)
  | taken e target r c he hj ht hs hr =>
    obtain ⟨-, rfl⟩ | ⟨-, -, rfl⟩ := Core.scheduleJump_cases hs
    · exact .inr (.of_eq rfl rfl)
    · exact .inl (Core.entered_mode (t := .insnAlignment) rfl target)
  | mtspr a b he ha hb =>
    rw [sprWritten_user hu]
    exact .inr (.of_eq rfl rfl)
  | nop x he hn =>
    obtain ⟨rfl, -⟩ | ⟨rfl, -⟩ | ⟨c, rfl, ⟨_, _, _, _, rfl⟩, -⟩ := nop_ok hn <;>
      exact .inr (.of_eq rfl rfl)
  | rfe x he hx =>
    obtain ⟨c, hc, rfl⟩ := rfe_ok hx
    obtain ⟨-, rfl⟩ | ⟨-, -, rfl⟩ := Core.scheduleJump_cases hc
    · have hr : (f.withCore (f.setJump f.rfeTarget (f.instructions + 0))).rfeRestored =
          (f.withCore (f.setJump f.rfeTarget (f.instructions + 0))).requestBreak :=
        if_neg (by rw [Bool.not_eq_true]; exact hu)
      rw [hr]
      exact .inr (.of_eq rfl rfl)
    · -- the handler's status, and then the saved one again
      let c : Core σ := (f.setJump f.rfeTarget (f.instructions + 0)).entered .insnAlignment f.rfeTarget
      have hm : HandlerMode c.status := Core.entered_mode rfl _
      obtain ⟨hsuper, hreads⟩ := Machine.supervises (f := f.withCore c) hm
      have hr : (f.withCore c).rfeRestored =
          { (f.withCore c).requestBreak with status := f.status } := by
        unfold rfeRestored rfeStatus
        rw [if_pos hsuper, if_pos hreads]
        rfl
      show HandlerMode (f.withCore c).rfeRestored.status ∨ Unprivileged f (f.withCore c).rfeRestored
      rw [hr]
      refine .inr ⟨rfl, fun _ => ?_⟩
      show test c.pmr PMR.DME = false
      exact test_and_not_self _ _

omit [EnvImpl σ] [HostLib] in
theorem Unprivileged.trans (h : Unprivileged s f) (h' : Unprivileged f x) : Unprivileged s x :=
  ⟨h'.status.trans h.status, fun ha => h'.awake (h.awake ha)⟩

omit [HostLib] in
theorem permitted_of_mtspr {reg val : U32} (h : s.mtspr = some (reg, val, f)) :
    f.writeDenied reg false = false := by
  unfold mtspr at h
  split at h
  · split at h
    · split at h
      · cases h
      · rename_i hw
        cases h
        exact eq_false_of_ne_true hw
    · cases h
  · cases h

omit [EnvImpl σ] [HostLib] in
theorem user_of_fetched (h : FetchedInsn s f) (hu : s.isSupervisor = false) :
    f.isSupervisor = false := by
  unfold Core.isSupervisor at hu ⊢
  rw [congrArg (·.status) h.eq]
  exact hu

/-- A permitted `l.mtspr` of user mode has no effect. -/
theorem mtspr_idle {reg val : U32} (h : s.mtspr = some (reg, val, f)) (hu : s.isSupervisor = false) :
    FetchedInsn s f ∧ s.fetchExecute = .ok f.requestBreak := by
  obtain ⟨hf, hx⟩ := mtspr_executed h
  have hs : f.sprWritten reg val false = f.requestBreak := sprWritten_user (user_of_fetched hf hu)
  unfold sprWritten at hs
  rw [permitted_of_mtspr h, if_neg Bool.false_ne_true] at hs
  exact ⟨hf, hs ▸ hx⟩

theorem fetchExecute_unprivileged (h : s.fetchExecute = .ok x) (hu : s.isSupervisor = false) :
    HandlerMode x.status ∨ Unprivileged s x := by
  obtain ⟨ci, f, -, hf, hx⟩ | ⟨-, b, c, hfb, ⟨t, addr, ht, -, rfl⟩, rfl⟩ := fetchExecute_ok h
  · have hs : Unprivileged s f := .of_eq (congrArg (·.status) hf.eq) (congrArg (·.pmr) hf.eq)
    exact (executed_unprivileged hx (user_of_fetched hf hu)).imp_right hs.trans
  · exact .inl (Core.entered_mode ht addr)

/-- User mode does not touch the timer, and its instructions take their cycles. -/
theorem fetchExecute_user (h : s.fetchExecute = .ok x) (hu : s.isSupervisor = false) :
    x.tick = s.tick ∧ x.tickUpdate = s.tickUpdate ∧
      (x.stopRequested = false → s.cycles ≤ x.cycles) := by
  cases hm : s.mtspr with
  | some w =>
    obtain ⟨reg, val, f⟩ := w
    obtain ⟨hf, hx⟩ := mtspr_idle hm hu
    cases hx.symm.trans h
    exact ⟨congrArg (·.tick) hf.eq, congrArg (·.tickUpdate) hf.eq,
      fun _ => Nat.le_of_eq (congrArg (·.cycles) hf.eq).symm⟩
  | none =>
    obtain ⟨ht, hk, -⟩ := fetchExecute_timed h hm
    refine ⟨ht, hk, fun hs => (fetchExecute_paced h hs fun reg val f hw => ?_).cycles⟩
    cases hm.symm.trans hw

end Execute

/-- The cycle of the next match. -/
def deadline (s : Or1k σ) : Nat := s.tickUpdate + s.tick.nextTick

theorem miniLimit_le_tick (h : s.tick.enabled = true) : s.miniLimit ≤ s.cycles + s.tick.nextTick := by
  unfold miniLimit
  dsimp only
  rw [if_pos h]
  exact Nat.min_le_right _ _

/-- The end of a mini-quantum enters a handler, or brings the timer up to date. -/
theorem endMini_handled : HandlerMode s.timerUpdated.externalChecked.status ∨
    (s.synced.alarmed = false ∧ s.timerUpdated.externalChecked = s.synced) := by
  cases ha : s.synced.alarmed with
  | false => exact .inr ⟨rfl, ended_eq.trans (sampled_of_quiet ha)⟩
  | true =>
    left
    rcases endMini_cases (s := s) with hi | ⟨e, he⟩
    · -- what still alarms has not been sampled
      have hs : Steady s s.ended := ended_eq ▸ timerUpdated_steady.trans externalChecked_steady
      have hst : s.ended.status = s.synced.status := (ended_eq ▸ hi).status
      have htick : s.ended.tick = s.synced.tick := sampled_clocked.tick
      have hpr : s.ended.picSr = s.synced.picSr := hs.picSr
      have hmr : s.ended.picMr = s.synced.picMr := hs.picMr
      have hq : s.ended.alarmed = false := sampled_quiet
      unfold alarmed Core.isTickIrqEnabled Core.isInterruptPending Core.isExtIrqEnabled at hq ha
      rw [htick, hst, hpr, hmr, ha] at hq
      cases hq
    · exact he.mode

/-- The timer up to date, before its match. -/
theorem synced_deadline (ha : s.tick.armed = true) (hb : s.tick.current < s.tick.limit)
    (ht : s.isTickIrqEnabled = true) (hu : s.tickUpdate ≤ s.cycles) (hq : s.synced.alarmed = false) :
    s.synced.tick.armed = true ∧ s.synced.tick.current < s.synced.tick.limit ∧
      s.synced.deadline = s.deadline := by
  have ha' := ha
  unfold Tick.armed at ha'
  rw [Bool.and_eq_true, Bool.and_eq_true] at ha'
  obtain ⟨⟨hc, hi⟩, -⟩ := ha'
  have hm : ¬s.tick.Matched s.lag := by
    rw [Tick.matched_iff_crosses hc (.inl hb)]
    intro hx
    have hen : s.synced.tick.enabled = true :=
      (s.tick.update_enabled s.lag).trans (Tick.enabled_of_counting hc)
    have hp : s.synced.tick.irqPending = true := by
      show (s.tick.update s.lag).irqPending = true
      rw [Tick.update_irqPending hc hi, hx, Bool.or_true]
    have hte : s.synced.isTickIrqEnabled = true := ht
    unfold alarmed at hq
    rw [hen, hp, hte] at hq
    cases hq
  have htick : s.synced.tick = s.tick.later s.lag := Tick.update_of_not_matched hm
  have hnext : s.tick.nextTick = s.tick.limit - s.tick.current := if_pos hb
  have hpos : 0 < s.tick.limit := Nat.zero_lt_of_lt hb
  have hlag : s.lag < s.tick.limit - s.tick.current := by
    rw [← hnext]
    by_contra hle
    exact hm (Tick.matched_iff.2 ⟨hc, hpos, Nat.le_of_not_lt hle⟩)
  have hlt := s.tick.limit_lt
  have hcur : s.synced.tick.current = s.tick.current + s.lag := by
    rw [htick, Tick.later_current hc, Nat.mod_eq_of_lt (by omega)]
  have hlim : s.synced.tick.limit = s.tick.limit := by
    rw [htick, Tick.later_limit]
  have hbelow : s.synced.tick.current < s.synced.tick.limit := by
    rw [hcur, hlim]
    omega
  refine ⟨?_, hbelow, ?_⟩
  · rw [← ha, htick]
    unfold Tick.armed Tick.irqEnabled
    rw [Tick.later_counting, Tick.later_ttmr, Tick.later_limit]
  · have hnext' : s.synced.tick.nextTick = s.synced.tick.limit - s.synced.tick.current := if_pos hbelow
    show s.cycles + s.synced.tick.nextTick = s.tickUpdate + s.tick.nextTick
    rw [hnext', hnext, hcur, hlim]
    unfold lag at hlag ⊢
    omega

end Or1k

namespace Machine

open Or1k

variable {m m' m₀ : Machine σ} {a : Action σ}

/-! ## A step -/

/-- The timer is up to date between the mini-quanta, and none goes on behind the match. -/
def Timekept (m : Machine σ) : Prop :=
  match m.phase with
  | .idle _ | .outer => m.cpu.tickUpdate = m.cpu.cycles
  | .inner limit => m.cpu.tickUpdate ≤ m.cpu.cycles ∧ limit ≤ m.cpu.deadline
  | .drain => m.cpu.tickUpdate ≤ m.cpu.cycles

/-- A program in user mode behind an armed timer, before the match. -/
structure Ticking (m : Machine σ) : Prop where
  user : m.cpu.isSupervisor = false
  awake : test m.cpu.pmr PMR.DME = false
  enabled : m.cpu.isTickIrqEnabled = true
  armed : m.cpu.tick.armed = true
  below : m.cpu.tick.current < m.cpu.tick.limit
  kept : Timekept m

/-- `n` cycles nearer to the same match. -/
structure Ticked (m m' : Machine σ) (n : Nat) : Prop where
  ticking : Ticking m'
  deadline : m'.cpu.deadline = m.cpu.deadline
  cycles : m.cpu.cycles + n ≤ m'.cpu.cycles

theorem Ticking.goOn {n : Nat} (h : Ticking m) (hu : Unprivileged m.cpu m'.cpu)
    (ht : m'.cpu.tick = m.cpu.tick) (htu : m'.cpu.tickUpdate = m.cpu.tickUpdate)
    (hc : m.cpu.cycles + n ≤ m'.cpu.cycles) (hk : Timekept m') : Ticked m m' n where
  ticking := {
    user := (test_congr (k := ~~~openFlags) (by decide) hu.status).trans h.user
    awake := hu.awake h.awake
    enabled := (test_congr (k := ~~~openFlags) (by decide) hu.status).trans h.enabled
    armed := by rw [ht]; exact h.armed
    below := by rw [ht]; exact h.below
    kept := hk }
  deadline := by
    unfold Or1k.deadline
    rw [ht, htu]
  cycles := hc

section Run

variable [EnvImpl σ] [HostLib]

omit [EnvImpl σ] [HostLib] in
/-- What comes behind an iteration: the timer lags, and the limit stays in front of the match. -/
theorem retired_timekept {limit : Nat} {s x : Or1k σ} (hk : Timekept ⟨.inner limit, s⟩)
    (ht : x.tick = s.tick) (htu : x.tickUpdate = s.tickUpdate) (hc : s.cycles ≤ x.cycles)
    (hx : (retired limit x).phase ≠ .idle (some .exit)) : Timekept (retired limit x) := by
  have hkept : s.tickUpdate ≤ s.cycles ∧ limit ≤ s.deadline := hk
  obtain ⟨hrt, hru⟩ := retired_tick limit x
  have hrc : (retired limit x).cpu.cycles = x.cycles :=
    retired_frame (fun s : Or1k σ => s.cycles) limit x fun _ _ _ _ => rfl
  have hord : (retired limit x).cpu.tickUpdate ≤ (retired limit x).cpu.cycles := by
    rw [hru, hrc, htu]
    omega
  unfold Timekept
  cases hp : (retired limit x).phase with
  | inner l =>
    refine ⟨hord, ?_⟩
    have hl := (retired_inner hp).2
    unfold Or1k.deadline at hkept ⊢
    rw [hrt, hru, ht, htu]
    omega
  | drain => exact hord
  | _ =>
    have ha : x.retire.after ≠ .exit := fun ha => by
      unfold retired iterated at hx
      rw [ha] at hx
      exact hx rfl
    unfold retired iterated at hp
    dsimp only at hp
    split at hp <;> first | exact (ha ‹_›).elim | cases hp

/-- An instruction of user mode leads into a handler, or a cycle nearer to the match. -/
theorem retired_ticked {limit : Nat} {s x : Or1k σ} (hfe : s.beginCycle.fetchExecute = .ok x)
    (hx : (retired limit x).phase ≠ .idle (some .exit)) (h : Ticking ⟨.inner limit, s⟩) :
    HandlerMode (retired limit x).cpu.status ∨ Ticked ⟨.inner limit, s⟩ (retired limit x) 1 := by
  rcases fetchExecute_unprivileged hfe h.user with hm | hu
  · left
    rw [retired_cpu, retired_status, handlerMode_or_fo]
    exact hm
  · right
    obtain ⟨htick, htu, hcyc⟩ := fetchExecute_user hfe h.user
    have hs : x.stopRequested = false := by
      cases hs : x.stopRequested with
      | false => rfl
      | true => exact (hx (retired_stopped hs)).elim
    have hpace : s.cycles + 1 ≤ x.cycles := hcyc hs
    obtain ⟨hrt, hru⟩ := retired_tick limit x
    have hrun : Unprivileged s (retired limit x).cpu := by
      have hr := confined_redirect (x := x)
      rw [retired_cpu]
      refine ⟨hr.status.trans hu.status, fun ha => ?_⟩
      rw [hr.pmr]
      exact hu.awake ha
    refine h.goOn hrun (hrt.trans htick) (hru.trans htu) ?_
      (retired_timekept h.kept htick htu (Nat.le_of_succ_le hpace) hx)
    rw [retired_frame (fun s : Or1k σ => s.cycles) limit x fun _ _ _ _ => rfl]
    exact hpace

/-- A step leads into a handler, or user mode goes on towards the match. -/
theorem act_ticked (hn : m.act a = some m') (hk : a.writesRegister = false)
    (ht : m'.phase ≠ .idle none) (hx : m'.phase ≠ .idle (some .exit)) (h : Ticking m) :
    HandlerMode m'.cpu.status ∨ Ticked m m' (if iterates ⟨m, a, m'⟩ then 1 else 0) := by
  have hle : ∀ n : Nat, n + 0 ≤ n := fun n => Nat.le_refl n
  cases act_transition hn with
  | begin r s n =>
    let b : Or1k σ := { s with limit := s.cycles + n.toNat }
    rcases Or1k.externalChecked_cases (s := b) with he | ha
    · have hb : began n s = b := (congrArg Or1k.dozed he).trans (Or1k.dozed_awake h.awake)
      rw [hb]
      exact .inr (h.goOn (.of_eq rfl rfl) rfl rfl (hle _) h.kept)
    · have hb : began n s = b.externalChecked := Or1k.dozed_awake ha.awake
      rw [hb]
      exact .inl ha.mode
  | mini s hlt =>
    have hk : s.tickUpdate = s.cycles := h.kept
    have hen : s.tick.enabled = true := by
      have ha := h.armed
      unfold Tick.armed at ha
      rw [Bool.and_eq_true, Bool.and_eq_true] at ha
      exact Tick.enabled_of_counting ha.1.1
    refine .inr (h.goOn (.of_eq rfl rfl) rfl rfl (hle _) ⟨Nat.le_of_eq hk, ?_⟩)
    have hl : s.beginMini.miniLimit ≤ s.cycles + s.tick.nextTick := miniLimit_le_tick hen
    show s.beginMini.miniLimit ≤ s.tickUpdate + s.tick.nextTick
    rw [hk]
    exact hl
  | finish s hlt => exact .inr (h.goOn (.of_eq rfl rfl) rfl rfl (hle _) h.kept)
  | iterate limit s x hlt hfe =>
    have hi : iterates (⟨⟨.inner limit, s⟩, .run, retired limit x⟩ : Move (Machine σ) (Action σ)) =
        true := decide_eq_true hlt
    rw [hi, if_pos rfl]
    exact retired_ticked hfe hx h
  | throw => exact (ht rfl).elim
  | leave limit s hlt =>
    have hi : iterates (⟨⟨.inner limit, s⟩, .run, ⟨.drain, s⟩⟩ : Move (Machine σ) (Action σ)) =
        false := decide_eq_false hlt
    rw [hi]
    exact .inr (h.goOn (.of_eq rfl rfl) rfl rfl (hle _) (And.left h.kept))
  | drain s =>
    rcases endMini_handled (s := s) with hm | ⟨hq, he⟩
    · left
      rw [drained_cpu]
      exact hm
    · obtain ⟨ha, hb, hd⟩ := synced_deadline h.armed h.below h.enabled h.kept hq
      have hcpu : (drained s.timerUpdated.externalChecked).cpu = s.synced := (drained_cpu _).trans he
      refine .inr ⟨⟨?_, ?_, ?_, ?_, ?_, ?_⟩, ?_, ?_⟩
      · rw [hcpu]; exact h.user
      · rw [hcpu]; exact h.awake
      · rw [hcpu]; exact h.enabled
      · rw [hcpu]; exact ha
      · rw [hcpu]; exact hb
      · unfold Timekept
        rw [hcpu]
        unfold drained
        split_ifs <;> rfl
      · rw [hcpu]; exact hd
      · rw [hcpu]; exact hle _
  | interrupt p s id set =>
    obtain ⟨v, he⟩ := s.toCore.interrupt_eq id set
    rw [he]
    exact .inr (h.goOn (.of_eq rfl rfl) rfl rfl (hle _) h.kept)
  | outside r s s' a ha h' =>
    have hi : iterates (⟨⟨.idle r, s⟩, a, ⟨.idle r, s'⟩⟩ : Move (Machine σ) (Action σ)) =
        false := by
      cases a <;> rfl
    rw [hi]
    cases outside_ok h' with
    | writeSpr | writeGpr => cases hk
    | world | setUp => exact .inr (h.goOn (.of_eq rfl rfl) rfl rfl (hle _) h.kept)

/-- A program in user mode is preempted: of any run in which more instructions start than there are
cycles to the match of the armed timer, a step leads from user mode into a handler. -/
theorem user_preempted {l : List (Move (Machine σ) (Action σ))} (h : system.Path m₀ l m)
    (h₀ : Ticking m₀) (hl : ∀ st ∈ l, st.act.writesRegister = false ∧ st.post.phase ≠ .idle none ∧
      st.post.phase ≠ .idle (some .exit))
    (hc : m₀.cpu.deadline - m₀.cpu.cycles < l.countP iterates) :
    ∃ st ∈ l, st.pre.cpu.isSupervisor = false ∧ HandlerMode st.post.cpu.status := by
  by_contra hno
  suffices hall : Ticked m₀ m (l.countP iterates) ∧
      l.countP iterates ≤ m₀.cpu.deadline - m₀.cpu.cycles from Nat.not_lt_of_le hall.2 hc
  clear hc
  induction h with
  | refl => exact ⟨⟨h₀, rfl, Nat.le_refl _⟩, Nat.zero_le _⟩
  | @tail l t u a _ hn ih =>
    have hlast : (⟨t, a, u⟩ : Move (Machine σ) (Action σ)) ∈ l ++ [⟨t, a, u⟩] :=
      List.mem_append_right _ (List.mem_singleton_self _)
    obtain ⟨hk, hthrow, hexit⟩ := hl _ hlast
    obtain ⟨ht, hb⟩ := ih (fun st hm => hl st (List.mem_append_left _ hm)) fun ⟨st, hm, hs⟩ =>
      hno ⟨st, List.mem_append_left _ hm, hs⟩
    rcases act_ticked hn hk hthrow hexit ht.ticking with hm | hs
    · exact (hno ⟨_, hlast, ht.ticking.user, hm⟩).elim
    · rw [List.countP_append, List.countP_singleton]
      have hcyc := ht.cycles
      have hcyc' := hs.cycles
      refine ⟨⟨hs.ticking, hs.deadline.trans ht.deadline, by omega⟩, ?_⟩
      split
      · -- the instruction starts before the match
        rename_i hi
        have hlt : t.cpu.cycles < m₀.cpu.deadline := by
          rw [← ht.deadline]
          have hx : t.executes = true := (Bool.and_eq_true_iff.1 hi).2
          have hkept := ht.ticking.kept
          unfold executes at hx
          unfold Timekept at hkept
          split at hx
          · rename_i limit hp
            rw [hp] at hkept
            exact Nat.lt_of_lt_of_le (of_decide_eq_true hx) hkept.2
          · cases hx
        omega
      · omega

end Run

attribute [local instance] HostLib.plain

/-- A program in user mode that jumps to its own address, with three cycles to the match. -/
theorem user_preempted_loop : ∃ (m m' : Machine Memory) (l : List (Move (Machine Memory) (Action Memory))),
    system.Path m l m' ∧ m.cpu.deadline - m.cpu.cycles = 3 ∧ l.countP iterates = 4 ∧
      ∃ st ∈ l, st.pre.cpu.isSupervisor = false ∧ HandlerMode st.post.cpu.status := by
  let b : Machine Memory := Memory.boot [(0x104, 0x15000000#32)]
  let m : Machine Memory := { b with
    cpu := { b.cpu.withCore { b.cpu.toCore with status := SR.FO ||| SR.TEE } with
      tick := { b.cpu.tick with ttmr := 0x60000003#32 } } }
  obtain ⟨l, m', hl, hn, hk, -⟩ := System.exists_path system iterates
    (fun m a => !a.writesRegister && (m.act a).all fun m' =>
      m'.phase != .idle none && m'.phase != .idle (some .exit)) m
    [.call 20, .run, .run, .run, .run, .run, .run, .run, .run] 4 (fun _ => true) (by decide +kernel)
  have hw : ∀ st ∈ l, st.act.writesRegister = false ∧ st.post.phase ≠ .idle none ∧
      st.post.phase ≠ .idle (some .exit) := fun st hm => by
    have hx := hk st hm
    have ha : st.pre.act st.act = some st.post := 
      hl.forall (R := fun st => st.pre.act st.act = some st.post) (fun _ _ _ h => h) st hm
    rw [ha, Option.all_some, Bool.and_eq_true, Bool.and_eq_true, Bool.not_eq_true', bne_iff_ne,
      bne_iff_ne] at hx
    exact hx
  have hd : m.cpu.deadline - m.cpu.cycles = 3 := by decide +kernel
  have ht : Ticking m := ⟨by decide +kernel, by decide +kernel, by decide +kernel, by decide +kernel,
    by decide +kernel, rfl⟩
  exact ⟨m, m', l, hl, hd, hn, user_preempted hl ht hw (by rw [hd, hn]; decide)⟩

end Machine

end Or1kiss
