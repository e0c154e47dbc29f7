import Or1kiss.Halted
import Or1kiss.Reservation

/-!
# Stopping at a watchpoint

An access that touches a watchpoint ends the mini-quantum, and `advance` returns STEP_WATCHPOINT
unless the program counter is at a breakpoint by then. `gdb::step` has no case for that result.
-/

namespace Or1kiss

open Host Bits Runs

variable {σ : Type}

/-! ## The watchpoint event -/

namespace Core

variable {c c' : Core σ} {ci : Instruction} {req : Request}

theorem entered_wpEvent (t : ExType) (addr : U32) : (c.entered t addr).wpEvent = c.wpEvent := by
  unfold entered
  split <;> rfl

theorem exception_wpEvent {t : ExType} {addr : U32} (h : c.exception t addr = .ok c') :
    c'.wpEvent = c.wpEvent := by
  obtain ⟨-, rfl⟩ | ⟨-, -, rfl⟩ := exception_ok h
  · rfl
  · exact entered_wpEvent t addr

theorem scheduleJump_wpEvent {target : U32} {delay : Nat}
    (h : c.scheduleJump target delay = .ok c') : c'.wpEvent = c.wpEvent := by
  obtain ⟨-, rfl⟩ | ⟨-, -, rfl⟩ := scheduleJump_cases h
  · rfl
  · exact entered_wpEvent _ _

theorem assign_wpEvent {op : Operand} {v : U32} (h : c.assign op v = .ok c') :
    c'.wpEvent = c.wpEvent := by
  obtain ⟨i, -, rfl⟩ := assign_ok h
  rfl

theorem checkWatchpoints_hit :
    (c.checkWatchpoints req).wpEvent.hit = (c.wpEvent.hit || c.hitsWatchpoint req) := by
  unfold checkWatchpoints
  cases c.hitsWatchpoint req with
  | true => exact (Bool.or_true _).symm
  | false => exact (Bool.or_false _).symm

/-- The request of a load or store at address `a`. -/
def watchRequest (c : Core σ) (e : MemExec) (a : U32) : Request :=
  { c.dreq with read := e.isLoad, addr := a, size := e.size }

/-- Executing the instruction accesses a watchpoint. -/
def watches (c : Core σ) (ci : Instruction) : Bool :=
  match ci.exec, c.deref ci ci.src1 with
  | some (.mem e), .ok a => c.hitsWatchpoint (c.watchRequest e (a + ci.imm))
  | _, _ => false

theorem watches_of_not_mem (h : ∀ e, ci.exec ≠ some (.mem e)) : c.watches ci = false := by
  unfold watches
  split
  · exact (h _ ‹_›).elim
  · rfl

section Effects

variable [EnvImpl σ]

theorem Effects.wpEvent {ts : List ExType} (h : Effects false c ts c') : c'.wpEvent = c.wpEvent := by
  induction h with
  | refl => rfl
  | tail _ hs ih =>
    cases hs with
    | regs => exact ih
    | data hm | translate hm => cases hm
    | raise t addr aesr => exact (entered_wpEvent t addr).trans ih

omit [EnvImpl σ] in
theorem abort_wpEvent {t : ExType} {r : Access σ} (h : c.abort t req = .ok r) :
    r.core.wpEvent = c.wpEvent := by
  obtain ⟨c1, h1, rfl⟩ := Outcome.lift_eq_ok.1 h
  exact exception_wpEvent h1

omit [EnvImpl σ] in
theorem complete_wpEvent : (c.complete req).core.wpEvent = c.wpEvent := by
  unfold complete
  split <;> rfl

theorem send_wpEvent {r : Access σ} (h : c.send req = .ok r) : r.core.wpEvent = c.wpEvent := by
  simp only [send] at h
  split at h
  · have ha := abort_wpEvent h
    exact ha
  · split at h
    · cases h
    · cases h
      exact complete_wpEvent (c := clearFlag _ SR.F)
  · cases h
    refine complete_wpEvent.trans ?_
    split <;> rfl

theorem send_throw_wpEvent {t : Core σ × Request} (h : c.send req = .throw t) :
    t.1.wpEvent = c.wpEvent := by
  simp only [send] at h
  split at h
  · exact (Outcome.lift_ne_throw h).elim
  · split at h
    · cases h
      rfl
    · cases h
  · cases h

theorem translateData_event (c : Core σ) (req : Request) :
    (c.translateData req).2.2.wpEvent = c.wpEvent := by
  unfold translateData
  split <;> rfl

/-- The watchpoints are looked at first, and the event stays. -/
theorem transact_wpEvent {r : Access σ} (h : c.transact req = .ok r) :
    r.core.wpEvent = (c.checkWatchpoints (c.dataRequest req)).wpEvent := by
  unfold transact at h
  dsimp only at h
  split at h
  · exact abort_wpEvent h
  · unfold translateSend at h
    have ht := translateData_event (c.checkWatchpoints (c.dataRequest req)) (c.dataRequest req)
    split at h <;> rename_i he <;> rw [he] at ht
    · exact (abort_wpEvent h).trans ht
    · exact (abort_wpEvent h).trans ht
    · exact (send_wpEvent h).trans ht

theorem transact_throw_wpEvent {t : Core σ × Request} (h : c.transact req = .throw t) :
    t.1.wpEvent = (c.checkWatchpoints (c.dataRequest req)).wpEvent := by
  unfold transact at h
  dsimp only at h
  split at h
  · exact (Outcome.lift_ne_throw h).elim
  · unfold translateSend at h
    have ht := translateData_event (c.checkWatchpoints (c.dataRequest req)) (c.dataRequest req)
    split at h <;> rename_i he <;> rw [he] at ht
    · exact (Outcome.lift_ne_throw h).elim
    · exact (Outcome.lift_ne_throw h).elim
    · exact (send_throw_wpEvent h).trans ht

/-- The event after a load or store, also if a C++ exception is thrown. -/
theorem executeMem_wpEvent {e : MemExec} :
    (∀ n, c.executeMem e ci = .ok (n, c') → ∃ req, c.requestOf e ci = some req ∧
      c'.wpEvent = (c.checkWatchpoints req).wpEvent) ∧
    (c.executeMem e ci = .throw c' → ∃ req, c.requestOf e ci = some req ∧
      c'.wpEvent = (c.checkWatchpoints req).wpEvent) := by
  rw [executeMem_access]
  refine ⟨fun n h => ?_, fun h => ?_⟩
  · obtain ⟨i, a, v, ha, hv, -, he⟩ := accessMemory_sends (by rw [h]; simp)
    obtain ⟨r, hr, hc⟩ := Outcome.lift_eq_ok.1 (he.symm.trans h)
    obtain ⟨-, rfl⟩ := Prod.mk.inj hc
    refine ⟨_, by rw [requestOf, ha, hv], Eq.trans ?_ (transact_wpEvent hr)⟩
    split <;> rfl
  · obtain ⟨i, a, v, ha, hv, -, he⟩ := accessMemory_sends (by rw [h]; simp)
    obtain ⟨t, ht, rfl⟩ := Outcome.lift_eq_throw.1 (he.symm.trans h)
    exact ⟨_, by rw [requestOf, ha, hv], transact_throw_wpEvent ht⟩

theorem executeMem_hit {e : MemExec} {n : Nat} (he : ci.exec = some (.mem e))
    (h : c.executeMem e ci = .ok (n, c')) : c'.wpEvent.hit = (c.wpEvent.hit || c.watches ci) := by
  obtain ⟨req, hreq, hev⟩ := executeMem_wpEvent.1 n h
  unfold requestOf at hreq
  split at hreq
  · rename_i a v ha hv
    cases hreq
    have hw : c.watches ci = c.hitsWatchpoint (c.watchRequest e (a + ci.imm)) := by
      unfold watches
      rw [he, ha]
    rw [hev, checkWatchpoints_hit, hw]
    rfl
  · cases hreq

theorem execute_wpEvent [HostLib] {e : CoreExec} (he : ci.exec = some (.core e))
    (h : c.execute e ci = .ok c') : c'.wpEvent = c.wpEvent := by
  by_cases hj : e.isJump = true
  · obtain ⟨-, rfl⟩ | ⟨target, r, -, -, hs⟩ := execute_jump hj h
    · rfl
    · have hc := scheduleJump_wpEvent hs
      exact hc
  · obtain ⟨ts, hts, -⟩ := execute_raised (m := false) he (eq_false_of_ne_true hj) h
    exact hts.wpEvent

end Effects

end Core

namespace Or1k

variable {s f x : Or1k σ} {ci : Instruction} {reg val : U32}

variable [EnvImpl σ]

theorem regWritten_wpEvent : (s.regWritten reg val).wpEvent = s.wpEvent := by
  unfold regWritten
  cases hr : SpReg.ofNum reg with
  | none =>
    cases SprFile.ofNum reg.toNat with
    | none => rfl
    | some f => cases f <;> rfl
  | some r =>
    cases r with
    | pmr => exact dozed_steady.wpEvent
    | picsr =>
      simp only [Core.writeReg]
      split <;> rfl
    | _ => rfl

theorem sprWritten_wpEvent {debug : Bool} : (s.sprWritten reg val debug).wpEvent = s.wpEvent := by
  unfold sprWritten
  split
  · rfl
  · have h : (s.requestBreak.regWritten reg val).wpEvent = s.requestBreak.wpEvent :=
      regWritten_wpEvent
    exact h

/-- The instruction at the program counter accesses a watchpoint. -/
def watched (s : Or1k σ) : Bool :=
  match s.fetch with
  | .ok (some ci, f) => f.toCore.watches ci
  | _ => false

variable [HostLib]

/-- What an instruction that was fetched does to the event. -/
theorem execute_hit (h : s.execute ci = .ok x) :
    x.wpEvent.hit = (s.wpEvent.hit || s.toCore.watches ci) := by
  have hsame : (∀ e, ci.exec ≠ some (.mem e)) → x.wpEvent = s.wpEvent →
      x.wpEvent.hit = (s.wpEvent.hit || s.toCore.watches ci) := by
    intro hm hx
    rw [Core.watches_of_not_mem hm, Bool.or_false, hx]
  have hexec := h
  simp only [execute] at h
  split at h
  · cases h
  · rename_i e he
    obtain ⟨c, hc, rfl⟩ := onCore_eq_ok.1 h
    exact hsame (fun _ hm => by cases he.symm.trans hm) (Core.execute_wpEvent he hc)
  · rename_i e he
    obtain ⟨⟨stall, s1⟩, h1, h⟩ := Outcome.bind_eq_ok.1 h
    obtain ⟨_, c, hc, h2⟩ := liftCore_eq_ok.1 h1
    cases h2
    cases h
    exact Core.executeMem_hit he hc
  · rename_i he
    obtain ⟨c, hc, rfl⟩ := onCore_eq_ok.1 h
    obtain ⟨a, -, ha⟩ := Outcome.bind_eq_ok.1 hc
    exact hsame (fun _ hm => by cases he.symm.trans hm) (Core.assign_wpEvent ha)
  · rename_i he
    obtain ⟨b, -, h⟩ := Outcome.bind_eq_ok.1 h
    obtain ⟨a, -, h⟩ := Outcome.bind_eq_ok.1 h
    rw [setSpr_eq] at h
    cases h
    exact hsame (fun _ hm => by cases he.symm.trans hm) sprWritten_wpEvent
  · rename_i he
    refine hsame (fun _ hm => by cases he.symm.trans hm) ?_
    obtain ⟨rfl, -⟩ | ⟨rfl, -⟩ | ⟨c, rfl, ⟨g, t, a, b, rfl⟩, -⟩ := nop_ok h <;> rfl
  · rename_i he
    refine hsame (fun _ hm => by cases he.symm.trans hm) ?_
    obtain ⟨c, hc, rfl⟩ := rfe_ok h
    refine Eq.trans ?_ (Core.scheduleJump_wpEvent hc)
    unfold rfeRestored
    split <;> rfl

/-- An instruction sets the event if and only if it accesses a watchpoint. -/
theorem fetchExecute_hit (h : s.fetchExecute = .ok x) :
    x.wpEvent.hit = (s.wpEvent.hit || s.watched) := by
  obtain ⟨⟨insn, f⟩, hf, hx⟩ := Outcome.bind_eq_ok.1 h
  obtain ⟨⟨ci, hci⟩, hfi⟩ | ⟨hn, b, c, hfb, ⟨t, addr, -, -, rfl⟩, hc⟩ := fetch_ok hf
  · dsimp only at hci hfi
    subst hci
    have hw : s.watched = f.toCore.watches ci := by
      unfold watched
      rw [hf]
    have hx : f.execute ci = .ok x := hx
    have he := execute_hit hx
    obtain ⟨_, _, _, ⟨_, _, _, _, _, _, -, rfl⟩, rfl⟩ := hfi
    rw [hw]
    exact he
  · dsimp only at hn hc
    subst hn hc
    cases hx
    have hw : s.watched = false := by
      unfold watched
      rw [hf]
    obtain ⟨_, _, _, _, _, _, -, rfl⟩ := hfb
    rw [hw, Bool.or_false]
    exact congrArg WatchpointEvent.hit (Core.entered_wpEvent t addr)

end Or1k

/-! ## Calls of the simulator -/

namespace Machine

open Or1k

variable [EnvImpl σ] {m m' : Machine σ} {a : Action σ} {s x : Or1k σ}

/-- Whether the last instruction of the call accesses a watchpoint. -/
def watchedAfter (g : Bool) (st : Move (Machine σ) (Action σ)) : Bool :=
  if iterates st then st.pre.cpu.beginCycle.watched else g

/-- A mini-quantum ends behind an access to a watchpoint, and not at a breakpoint. -/
def stopsAtWatchpoint (q : Machine σ × Bool) (a : Action σ) : Bool :=
  a.isRun && q.1.phase == .drain && q.2 && !q.1.cpu.timerUpdated.externalChecked.breakpointHit

variable [HostLib]

def watchedSystem : System (Machine σ × Bool) (Action σ) := system.watch watchedAfter

/-- The event is that of the last instruction, which has ended the inner loop. -/
structure Noticed (q : Machine σ × Bool) : Prop where
  outer : q.1.phase = .outer → q.2 = false
  inner : ∀ limit, q.1.phase = .inner limit → q.2 = false ∧ q.1.cpu.wpEvent.hit = false
  drain : q.1.phase = .drain → q.1.cpu.wpEvent.hit = q.2

omit [EnvImpl σ] [HostLib] in
theorem noticed_idle {r : Option StepResult} {g : Bool} : Noticed (⟨.idle r, s⟩, g) :=
  ⟨Phase.noConfusion, fun _ => Phase.noConfusion, Phase.noConfusion⟩

omit [EnvImpl σ] [HostLib] in
/-- How the inner loop goes on says whether the event is set. -/
theorem retired_event (limit : Nat) (x : Or1k σ) :
    (∀ limit', (retired limit x).phase = .inner limit' → x.wpEvent.hit = false) ∧
      (retired limit x).cpu.wpEvent = x.wpEvent ∧
      ((retired limit x).phase = .drain ∨ (∃ limit', (retired limit x).phase = .inner limit') ∨
        (retired limit x).phase = .idle (some .exit)) := by
  refine ⟨fun limit' hp => ?_, ?_, ?_⟩
  · unfold retired iterated after at hp
    dsimp only at hp
    cases hh : x.wpEvent.hit with
    | false => rfl
    | true =>
      have hh : x.retire.wpEvent.hit = true := hh
      rw [if_pos hh] at hp
      split_ifs at hp
  · rw [retired_cpu]
    unfold redirect
    split <;> rfl
  · unfold retired iterated
    cases x.retire.after with
    | next => exact .inr (.inl ⟨_, rfl⟩)
    | exit => exact .inr (.inr rfl)
    | leave => exact .inl rfl

omit [EnvImpl σ] [HostLib] in
/-- A mini-quantum that ended at a watchpoint ends the call, unless a breakpoint does. -/
theorem drained_noticed {g : Bool} (h : s.wpEvent.hit = g) : Noticed (drained s, g) ∧
    ((drained s).phase = .idle (some .watchpoint) ↔ (g && !s.breakpointHit) = true) := by
  unfold drained
  subst h
  cases hb : s.breakpointHit with
  | true => exact ⟨noticed_idle, iff_of_false (fun hp => by cases hp) (by simp)⟩
  | false =>
    cases hw : s.wpEvent.hit with
    | true => exact ⟨noticed_idle, iff_of_true rfl rfl⟩
    | false =>
      exact ⟨⟨fun _ => rfl, fun _ => Phase.noConfusion, Phase.noConfusion⟩,
        iff_of_false Phase.noConfusion Bool.false_ne_true⟩

/-- One step of a call. -/
theorem step_noticed {q q' : Machine σ × Bool} (hn : watchedSystem.next q a = some q')
    (ha : a.inside = true) (h : Noticed q) : Noticed q' ∧
      (q'.1.phase = .idle (some .watchpoint) ↔
        q.1.phase = .idle (some .watchpoint) ∨ stopsAtWatchpoint q a = true) := by
  obtain ⟨m, g⟩ := q
  obtain ⟨m', hm, rfl⟩ := System.watch_next hn
  cases act_transition hm with
  | begin r s n => cases ha
  | mini s hlt =>
    have hg : g = false := h.outer rfl
    exact ⟨⟨Phase.noConfusion, fun _ _ => ⟨hg, rfl⟩, Phase.noConfusion⟩,
      iff_of_false Phase.noConfusion (by rintro (hp | hp) <;> cases hp)⟩
  | finish s hlt =>
    exact ⟨noticed_idle, iff_of_false (fun hp => by cases hp) (by rintro (hp | hp) <;> cases hp)⟩
  | iterate limit s x hlt hx =>
    have hex : (⟨.inner limit, s⟩ : Machine σ).executes = true := decide_eq_true hlt
    have hg' : watchedAfter g ⟨⟨.inner limit, s⟩, .run, retired limit x⟩ = s.beginCycle.watched :=
      if_pos hex
    have hhit : x.wpEvent.hit = s.beginCycle.watched := by
      have hs : s.beginCycle.wpEvent.hit = false := (h.inner limit rfl).2
      rw [fetchExecute_hit hx, hs, Bool.false_or]
    obtain ⟨hin, hev, hph⟩ := retired_event limit x
    rw [hg', ← hhit]
    refine ⟨⟨fun hp => ?_, fun limit' hp => ⟨hin limit' hp, ?_⟩, fun _ => ?_⟩, iff_of_false ?_ ?_⟩
    · rcases hph with h | ⟨_, h⟩ | h <;> cases h.symm.trans hp
    · rw [hev]
      exact hin limit' hp
    · rw [hev]
    · intro hp
      rcases hph with h | ⟨_, h⟩ | h <;> cases h.symm.trans hp
    · rintro (hp | hp) <;> cases hp
  | throw limit s x hlt hx =>
    exact ⟨noticed_idle, iff_of_false (fun hp => by cases hp) (by rintro (hp | hp) <;> cases hp)⟩
  | leave limit s hlt =>
    have hex : iterates ⟨⟨.inner limit, s⟩, .run, ⟨.drain, s⟩⟩ = false := decide_eq_false hlt
    have hg' : watchedAfter g ⟨⟨.inner limit, s⟩, .run, ⟨.drain, s⟩⟩ = g := by
      unfold watchedAfter
      rw [hex, if_neg Bool.false_ne_true]
    obtain ⟨hg, hs⟩ := h.inner limit rfl
    rw [hg']
    exact ⟨⟨Phase.noConfusion, fun _ => Phase.noConfusion, fun _ => hs.trans hg.symm⟩,
      iff_of_false Phase.noConfusion (by rintro (hp | hp) <;> cases hp)⟩
  | drain s =>
    have hev : s.timerUpdated.externalChecked.wpEvent.hit = g := by
      rw [externalChecked_steady.wpEvent, timerUpdated_steady.wpEvent]
      exact h.drain rfl
    have hstops : stopsAtWatchpoint (⟨.drain, s⟩, g) (.run : Action σ) =
        (g && !s.timerUpdated.externalChecked.breakpointHit) := by
      unfold stopsAtWatchpoint
      rfl
    rw [hstops]
    obtain ⟨hno, hiff⟩ := drained_noticed hev
    exact ⟨hno, hiff.trans ⟨.inr, fun h => h.resolve_left Phase.noConfusion⟩⟩
  | interrupt p s id set =>
    have hev : (s.withCore (s.toCore.interrupt id set)).wpEvent = s.wpEvent := by
      obtain ⟨v, he⟩ := s.toCore.interrupt_eq id set
      rw [he]
      rfl
    refine ⟨⟨h.outer, fun limit hp => ?_, fun hp => ?_⟩, ?_⟩
    · rw [hev]
      exact h.inner limit hp
    · rw [hev]
      exact h.drain hp
    · exact ⟨.inl, fun hp => hp.resolve_right fun h => by cases h⟩
  | outside r s s' a hout hs => cases hout.symm.trans (Action.isOutside_of_inside ha)

/-- A call stops at a watchpoint if and only if one of its mini-quanta does. -/
theorem runs_watchpoint {actions : List (Action σ)} {q : Machine σ × Bool} (hq : Noticed q)
    (h : system.runsIf (fun _ a => a.inside) actions q.1 = some m') :
    m'.phase = .idle (some .watchpoint) ↔ q.1.phase = .idle (some .watchpoint) ∨
      watchedSystem.admits (fun q a => !stopsAtWatchpoint q a) actions q = false := by
  induction actions generalizing q with
  | nil =>
    cases h
    exact ⟨.inl, fun h => h.resolve_right Bool.noConfusion⟩
  | cons a actions ih =>
    rw [System.runsIf] at h
    split at h
    · rename_i ha
      obtain ⟨m, hm, h⟩ := Option.bind_eq_some_iff.1 h
      have hn := System.next_watch watchedAfter (p := q) hm
      obtain ⟨hq', hiff⟩ := step_noticed hn ha hq
      have hadm : watchedSystem.admits (fun q a => !stopsAtWatchpoint q a) (a :: actions) q =
          (!stopsAtWatchpoint q a &&
            watchedSystem.admits (fun q a => !stopsAtWatchpoint q a) actions
            (m, watchedAfter q.2 ⟨q.1, a, m⟩)) := by
        rw [System.admits]
        have hn : watchedSystem.next q a = _ := hn
        rw [hn]
        rfl
      rw [ih hq' h, hiff, hadm, Bool.and_eq_false_iff, Bool.not_eq_false', or_assoc]
    · cases h

end Machine

/-- No mini-quantum of the call ends at a watchpoint. -/
def Or1k.avoidsWatchpoints [EnvImpl σ] [HostLib] (s : Or1k σ) (n : U32) (actions : List (Action σ)) :
    Bool :=
  Machine.watchedSystem.admits (fun q a => !Machine.stopsAtWatchpoint q a) actions
    (⟨.outer, Machine.began n s⟩, false)

theorem Or1k.step_watchpoint_iff [EnvImpl σ] [HostLib] {s s' : Or1k σ} {n : U32}
    {actions : List (Action σ)} {res : StepResult} (h : s.step n actions = some (res, s')) :
    res = .watchpoint ↔ s.avoidsWatchpoints n actions = false := by
  obtain ⟨m, hm, h⟩ := Option.bind_eq_some_iff.1 h
  obtain ⟨m', hm', h⟩ := Option.bind_eq_some_iff.1 h
  have hm : Machine.ofOutcome (s.beginQuantum n) _ = some m := hm
  rw [beginQuantum_eq] at hm
  cases hm
  have hstart : Machine.Noticed ((⟨.outer, Machine.began n s⟩ : Machine σ), false) :=
    ⟨fun _ => rfl, fun _ => Phase.noConfusion, Phase.noConfusion⟩
  have hiff := Machine.runs_watchpoint hstart hm'
  have hres : m'.phase = .idle (some res) := by
    obtain ⟨p, x⟩ := m'
    cases p with
    | idle r =>
      cases r with
      | none => cases h
      | some r =>
        cases h
        rfl
    | outer | inner _ | drain => cases h
  rw [hres] at hiff
  have hleft : Phase.idle (some res) = .idle (some .watchpoint) ↔ res = .watchpoint :=
    ⟨fun h => by cases h; rfl, fun h => by rw [h]⟩
  rw [← hleft, hiff]
  exact ⟨fun h => h.resolve_left Phase.noConfusion, .inr⟩

/-! ## Sessions -/

namespace Gdb

variable {g : Gdb σ} {mode : GdbMode} {res : StepResult}

/-- The reply to a stop. -/
def stopReply : List U8 := (Packet.ofFormat (ascii "S05")).bytes

/-- A stop that `gdb::step` is told of is handled while the client is there. -/
theorem endStep_stop (hm : mode ≠ .killed) (ho : g.rsp.isOpen = true) :
    ∃ g', g.endStep mode .breakpoint = some (.ok (.ok, g')) ∧ g'.mode = .halted ∧
      g'.rsp.output = g.rsp.output ++ stopReply := by
  refine ⟨({ g with mode := .halted } : Gdb σ).withRsp
    { g.rsp with output := g.rsp.output ++ stopReply }, ?_, rfl, rfl⟩
  unfold endStep send Rsp.sendFormat Rsp.send
  rw [if_neg hm]
  dsimp only
  rw [if_pos ho]
  rfl

theorem endStep_reported {g' : Gdb σ} (h : g.endStep mode .breakpoint = some (.ok (.ok, g'))) :
    mode ≠ .killed ∧ g.rsp.isOpen = true := by
  unfold endStep at h
  split at h
  · cases h
  · rename_i hm
    refine ⟨hm, ?_⟩
    cases ho : g.rsp.isOpen with
    | true => rfl
    | false =>
      unfold send Rsp.sendFormat Rsp.send at h
      dsimp only at h
      rw [ho] at h
      cases h

theorem endStep_eq_none : g.endStep mode res = none ↔ mode ≠ .killed ∧ res = .watchpoint := by
  unfold endStep
  split
  · exact iff_of_false (fun h => by cases h) fun h => h.1 ‹_›
  · rename_i hm
    cases res with
    | watchpoint => exact iff_of_true rfl ⟨hm, rfl⟩
    | ok =>
      dsimp only
      split <;> exact iff_of_false (fun h => by cases h) (by rintro ⟨-, h⟩; cases h)
    | _ => exact iff_of_false (fun h => by cases h) (by rintro ⟨-, h⟩; cases h)

end Gdb

namespace Session

variable [EnvImpl σ] [HostLib] {s t : Session σ} {e : Event σ}

/-- The session of a client that may send any packet. -/
def nextAny (s : Session σ) : Event σ → Option (Session σ)
  | .listen => s.stub.listenRound.value?.map fun g => { s with stub := g }
  | e => s.next e

def anySystem : System (Session σ) (Event σ) where
  next := nextAny

/-- `gdb::step` has a case for the result of the simulator, and a stop halts the program and is
reported once. -/
structure Handled (s : Session σ) : Prop where
  asserts : ∀ mode res, s.sim = .ran mode res → s.stub.endStep mode res ≠ none
  halts : ∀ mode res, s.sim = .ran mode res → res = .breakpoint ∨ res = .watchpoint →
    ∃ g, s.stub.endStep mode res = some (.ok (.ok, g)) ∧ g.mode = .halted ∧
      g.rsp.output = s.stub.rsp.output ++ Gdb.stopReply

/-- A breakpoint is reported to a client that has not ended the session. -/
def attended (s : Session σ) : Bool :=
  match s.sim with
  | .ran mode .breakpoint => mode != .killed && s.stub.rsp.isOpen
  | _ => true

/-- A call of the simulator does not stop at a watchpoint. -/
def avoids (s : Session σ) (e : Event σ) : Bool :=
  match s.sim, e with
  | .read mode, .run cycles actions =>
    s.stub.cpu.avoidsWatchpoints (Gdb.quantum mode cycles) actions
  | _, _ => true

omit [EnvImpl σ] [HostLib] in
theorem handled_iff :
    Handled s ↔ (∀ mode, s.sim ≠ .ran mode .watchpoint) ∧ s.attended = true := by
  have hatt : ∀ mode, s.sim = .ran mode .breakpoint →
      (s.attended = true ↔ mode ≠ .killed ∧ s.stub.rsp.isOpen = true) := by
    intro mode hs
    unfold attended
    rw [hs]
    simp
  constructor
  · intro h
    refine ⟨fun mode hs => ?_, ?_⟩
    · obtain ⟨g, hg, -⟩ := h.halts mode _ hs (.inr rfl)
      refine h.asserts mode _ hs (Gdb.endStep_eq_none.2 ⟨fun hm => ?_, rfl⟩)
      subst hm
      cases hg
    · by_cases hb : ∃ mode, s.sim = .ran mode .breakpoint
      · obtain ⟨mode, hs⟩ := hb
        obtain ⟨g, hg, -⟩ := h.halts mode _ hs (.inl rfl)
        exact (hatt mode hs).2 (Gdb.endStep_reported hg)
      · unfold attended
        split
        · exact (hb ⟨_, ‹_›⟩).elim
        · rfl
  · rintro ⟨hw, ha⟩
    refine ⟨fun mode res hs hn => ?_, fun mode res hs hr => ?_⟩
    · obtain ⟨-, rfl⟩ := Gdb.endStep_eq_none.1 hn
      exact hw mode hs
    · rcases hr with rfl | rfl
      · obtain ⟨hm, ho⟩ := (hatt mode hs).1 ha
        exact Gdb.endStep_stop hm ho
      · exact (hw mode hs).elim

theorem avoids_of_not_run (h : ∀ cycles actions, e ≠ .run cycles actions) : s.avoids e = true := by
  unfold avoids
  split
  · exact (h _ _ rfl).elim
  · rfl

/-- The simulator has returned STEP_WATCHPOINT if its call did not avoid the watchpoints. -/
theorem nextAny_sim (h : s.nextAny e = some t) (hs : ∀ mode, s.sim ≠ .ran mode .watchpoint) :
    (∀ mode, t.sim ≠ .ran mode .watchpoint) ↔ s.avoids e = true := by
  cases e with
  | client bytes =>
    cases h
    exact iff_of_true hs (avoids_of_not_run fun _ _ he => by cases he)
  | listen =>
    obtain ⟨g, -, rfl⟩ := Option.map_eq_some_iff.1 h
    exact iff_of_true hs (avoids_of_not_run fun _ _ he => by cases he)
  | read =>
    have h : s.next .read = some t := h
    unfold next at h
    dsimp only at h
    split at h
    · cases h
      exact iff_of_true (fun _ => Simulation.noConfusion)
        (avoids_of_not_run fun _ _ he => by cases he)
    · cases h
  | run cycles actions =>
    have h : s.next (.run cycles actions) = some t := h
    unfold next at h
    dsimp only at h
    split at h
    · rename_i mode hr
      obtain ⟨⟨res, cpu⟩, hstep, rfl⟩ := Option.map_eq_some_iff.1 h
      have hiff := Or1k.step_watchpoint_iff hstep
      have hav : s.avoids (.run cycles actions) =
          s.stub.cpu.avoidsWatchpoints (Gdb.quantum mode cycles) actions := by
        unfold avoids
        rw [hr]
      rw [hav]
      constructor
      · intro hw
        refine eq_true_of_ne_false fun hf => hw mode ?_
        rw [← hiff.2 hf]
      · intro ha mode' hw
        have hres : res = .watchpoint := by
          cases hw
          rfl
        cases ha.symm.trans (hiff.1 hres)
    · cases h
  | finish =>
    have h : s.next .finish = some t := h
    unfold next at h
    dsimp only at h
    split at h
    · obtain ⟨x, -, h⟩ := Option.bind_eq_some_iff.1 h
      obtain ⟨⟨r, g⟩, -, h⟩ := Option.bind_eq_some_iff.1 h
      cases h
      refine iff_of_true (fun mode => ?_) (avoids_of_not_run fun _ _ he => by cases he)
      dsimp only
      split <;> exact Simulation.noConfusion
    · cases h

/-- In every run of the two threads `gdb::step` handles every result, if and only if no call of the
simulator stops at a watchpoint and every breakpoint is reached while the client is there. -/
theorem stops_handled {cpu : Or1k σ} {elf : Option Elf} {rsp : Rsp} {t : Session σ}
    {l : List (Move (Session σ) (Event σ))}
    (h : anySystem.Path { stub := .init cpu elf rsp, sim := .ready } l t) :
    (∀ st ∈ l, Handled st.post) ↔
      ∀ st ∈ l, st.pre.avoids st.act = true ∧ st.post.attended = true := by
  refine h.forall_iff (P := fun s => ∀ mode, s.sim ≠ .ran mode .watchpoint)
    (C := fun st => st.pre.avoids st.act = true ∧ st.post.attended = true) (R := fun st => Handled st.post)
    (fun s e t hn hc hs => ?_) (fun s e t hn hc hs hr => ?_) (fun mode => Simulation.noConfusion)
  · have hw := (nextAny_sim hn hs).2 hc.1
    exact ⟨hw, handled_iff.2 ⟨hw, hc.2⟩⟩
  · obtain ⟨hw, ha⟩ := handled_iff.1 hr
    exact hc ⟨(nextAny_sim hn hs).1 hw, ha⟩

end Session

namespace Session

attribute [local instance] HostLib.plain

/-- A load from address zero at the reset vector, under a debugger. -/
def loading : Session Memory :=
  { stub := .init (Memory.boot [(0x100, 0x84600000#32)]).cpu none
      { isOpen := true, input := [], output := [] }, sim := .ready }

/-- The client sends a packet, and it is handled. -/
def packet (text : String) : List (Event Memory) := [.client (Packet.frame (ascii text)), .listen]

/-- The program is stopped by a watchpoint for reads of the word at address zero. -/
theorem stops_handled_fails : ∃ l t, anySystem.Path loading l t ∧
    t.sim = .ran .running .watchpoint ∧ t.stub.endStep .running .watchpoint = none ∧
      ¬∀ st ∈ l, Handled st.post := by
  obtain ⟨t, hr, ht⟩ := anySystem.exists_run loading
    (packet "Z3,0,4" ++ packet "c" ++ [.read, .run 10#32 [.run, .run, .run]])
    (fun t => decide (t.sim = .ran .running .watchpoint)) (by decide +kernel)
  have hsim := of_decide_eq_true ht
  obtain ⟨l, hl⟩ := hr.path
  refine ⟨l, t, hl, hsim, rfl, fun hh => ?_⟩
  rcases hl.last with rfl | ⟨m, hm, rfl⟩
  · cases hsim
  · exact (hh m hm).asserts _ _ hsim rfl

/-- A watchpoint on another word, and a breakpoint behind the load. -/
theorem stops_handled_breakpoint : ∃ l t, anySystem.Path loading l t ∧
    t.sim = .ran .running .breakpoint ∧ ∀ st ∈ l, Handled st.post := by
  obtain ⟨t, hr, ht⟩ := anySystem.exists_steps
    (fun s e => s.avoids e && (s.nextAny e).all (·.attended)) loading
    (packet "Z3,8,4" ++ packet "Z0,104,4" ++ packet "c" ++
      [.read, .run 10#32 [.run, .run, .run, .run]])
    (fun t => decide (t.sim = .ran .running .breakpoint)) (by decide +kernel)
  obtain ⟨l, hl, hok⟩ := hr.path_ok
  have hnext := hl.forall (R := fun st => st.pre.nextAny st.act = some st.post) fun _ _ _ h => h
  refine ⟨l, t, hl, of_decide_eq_true ht, (stops_handled hl).2 fun st hst => ?_⟩
  have ho := hok st hst
  rw [hnext st hst, Bool.and_eq_true] at ho
  exact ho

end Session

end Or1kiss
