import Or1kiss.Account
import Or1kiss.RegPackets

/-!
# Stop replies

The two threads of a debugging session: the listener, which handles what the client sends, and the
simulation, which reads the mode, runs the simulator, and then updates the mode and replies. Each
of these is one step. What the client makes of the replies is a record beside the session. `View`
is the part of both that decides which replies are sent.
-/

namespace Or1kiss

open Host Bits Runs

variable {σ : Type}

/-! ## A call of the simulator -/

namespace Or1k

variable [EnvImpl σ] [HostLib] {s s' : Or1k σ}

/-- `or1k::step(cycles)`, with the actions that take place until it returns. -/
def step (s : Or1k σ) (cycles : U32) (actions : List (Action σ)) : Option (StepResult × Or1k σ) := do
  let m ← Machine.act { phase := .idle none, cpu := s } (.call cycles)
  let m ← Machine.system.runsIf (fun _ a => a.inside) actions m
  match m.phase with
  | .idle (some res) => some (res, m.cpu)
  | _ => none

omit [HostLib] in
/-- Sleeping leaves a quantum that has ended. -/
theorem dozed_ended (h : s.limit ≤ s.cycles) : s.dozed.limit ≤ s.dozed.cycles := by
  unfold dozed
  split
  · exact h
  · dsimp only
    split
    · exact Nat.add_le_add_right h _
    · show (tickChecked _).limit ≤ (tickChecked _).cycles
      rw [tickChecked_limit, tickChecked_cycles]
      exact Nat.le_trans h (Nat.le_add_right _ _)

omit [HostLib] in
/-- A quantum of no cycles has ended before it begins. -/
theorem beginQuantum_zero (h : s.beginQuantum 0#32 = .ok s') : s'.limit ≤ s'.cycles := by
  rw [beginQuantum_eq] at h
  cases h
  apply dozed_ended
  rw [externalChecked_limit, Machine.externalChecked_cycles]
  exact Nat.le_refl _

end Or1k

/-- The machine is at the head of the outer loop behind its limit, or has left it. -/
def Machine.Ended (m : Machine σ) : Prop :=
  match m.phase with
  | .outer => m.cpu.limit ≤ m.cpu.cycles
  | .idle r => ∀ res, r = some res → res = .ok
  | _ => False

section Step

variable [EnvImpl σ] [HostLib]

theorem Machine.Ended.act {m m' : Machine σ} {a : Action σ} (h : m.Ended) (ha : a.inside = true)
    (hn : m.act a = some m') : m'.Ended := by
  obtain ⟨phase, s⟩ := m
  cases a with
  | run =>
    cases phase with
    | outer =>
      have hn : (if s.cycles < s.limit then _ else _) = some m' := hn
      rw [if_neg (Nat.not_lt.2 h)] at hn
      cases hn
      exact fun _ hr => (Option.some.inj hr).symm
    | idle r => cases hn
    | inner limit => exact h.elim
    | drain => exact h.elim
  | interrupt id set =>
    have hc : (s.toCore.interrupt id set).cycles = s.cycles := by
      obtain ⟨v, he⟩ := s.toCore.interrupt_eq id set
      rw [he]
    cases hn
    cases phase with
    | outer =>
      show s.limit ≤ (s.toCore.interrupt id set).cycles
      rw [hc]
      exact h
    | _ => exact h
  | _ => cases ha

/-- A call for no cycles runs nothing. -/
theorem Or1k.step_zero {s s' : Or1k σ} {actions : List (Action σ)} {res : StepResult}
    (h : s.step 0#32 actions = some (res, s')) : res = .ok := by
  obtain ⟨m, hm, h⟩ := Option.bind_eq_some_iff.1 h
  obtain ⟨m', hm', h⟩ := Option.bind_eq_some_iff.1 h
  have hended : m.Ended := by
    have hm : Machine.ofOutcome (s.beginQuantum 0#32) _ = some m := hm
    cases hq : s.beginQuantum 0#32 with
    | ok x =>
      rw [hq] at hm
      cases hm
      exact beginQuantum_zero hq
    | throw x =>
      rw [hq] at hm
      cases hm
      exact fun _ hr => nomatch hr
    | fault f =>
      rw [hq] at hm
      cases hm
  have hended' : m'.Ended :=
    (System.steps_of_runsIf hm').invariant (fun _ _ _ hs ha hn => hs.act ha hn) hended
  obtain ⟨phase, x⟩ := m'
  cases phase with
  | idle r =>
    cases r with
    | none => cases h
    | some r =>
      cases h
      exact hended' _ rfl
  | outer => cases h
  | inner limit => cases h
  | drain => cases h

end Step

/-! ## The session -/

/-- Where the loop of `gdb::run` is: at its head, or in `gdb::step` with the mode it has read and
then with the result of the simulator. -/
inductive Simulation where
  | ready
  | read (mode : GdbMode)
  | ran (mode : GdbMode) (res : StepResult)
  | exited
  deriving DecidableEq, Repr

/-- The mode that `gdb::step` has read. -/
def Simulation.snapshot : Simulation → Option GdbMode
  | .read mode => some mode
  | .ran mode _ => some mode
  | _ => none

namespace Gdb

variable [EnvImpl σ]

/-- One round of the loop of `listen`; the loop of `process_commands` ends while stepping. -/
def listenRound (g : Gdb σ) : Outcome (Gdb σ) (Gdb σ) :=
  match g.mode with
  | .running => g.checkSignals
  | .halted => g.processCommand
  | _ => .ok g

/-- The listener gets an `s` or a `c` packet, or while the program runs a character that does not
end the session. -/
def hears (g : Gdb σ) : Bool :=
  match g.mode with
  | .running => g.rsp.input.headD 0#8 != 0#8
  | .halted =>
    match g.rsp.recv with
    | .ok (command, r) =>
      r.isOpen && (command.headD 0#8 == chr 's' || command.headD 0#8 == chr 'c')
    | _ => false
  | .stepping => true
  | .killed => false

end Gdb

structure Session (σ : Type) where
  stub : Gdb σ
  sim : Simulation

inductive Session.Event (σ : Type) where
  /-- The client sends bytes. -/
  | client (bytes : List U8)
  | listen
  /-- `gdb_mode mode = m_mode` -/
  | read
  /-- `m_iss.step(cycles)` -/
  | run (cycles : U32) (actions : List (Action σ))
  /-- The `switch` of `gdb::step` on the result. -/
  | finish

namespace Session

variable [EnvImpl σ] [HostLib]

def receive (s : Session σ) (bytes : List U8) : Session σ :=
  { s with stub := s.stub.withRsp { s.stub.rsp with input := s.stub.rsp.input ++ bytes } }

def next (s : Session σ) : Event σ → Option (Session σ)
  | .client bytes => some (s.receive bytes)
  | .listen =>
    if s.stub.hears then s.stub.listenRound.value?.map fun g => { s with stub := g } else none
  | .read =>
    match s.sim with
    | .ready => some { s with sim := .read s.stub.mode }
    | _ => none
  | .run cycles actions =>
    match s.sim with
    | .read mode => (s.stub.cpu.step (Gdb.quantum mode cycles) actions).map fun r =>
      { stub := s.stub.withCpu r.2, sim := .ran mode r.1 }
    | _ => none
  | .finish =>
    match s.sim with
    | .ran mode res => do
      let (r, g) ← (← s.stub.endStep mode res).value?
      -- `gdb::run` goes on as long as the result is STEP_OK
      some { stub := g, sim := if r = .ok then .ready else .exited }
    | _ => none

def system : System (Session σ) (Event σ) where
  next := next

end Session

/-! ## What the client has got -/

/-- What the client has got since it last resumed the program: the number of stop replies, and
whether one of them was an `S` packet. -/
structure Replies where
  stops : Nat
  said : Bool
  deriving DecidableEq, Repr

namespace Replies

variable (m : Move (Session σ) (Session.Event σ))

/-- The step sends a packet whose text begins with `c`. -/
def sends (c : Char) : Bool :=
  (m.post.stub.rsp.output.drop m.pre.stub.rsp.output.length).take 2 == [chr '$', chr c]

/-- The step handles a command, which resumes the program. -/
def resumes : Bool :=
  match m.act with
  | .listen => m.pre.stub.mode == .halted
  | _ => false

def after (r : Replies) : Replies :=
  let r := if resumes m then { stops := 0, said := false } else r
  if sends m 'S' then { stops := r.stops + 1, said := true }
  else if sends m 'W' then { r with stops := r.stops + 1 }
  else r

end Replies

namespace Session

variable [EnvImpl σ] [HostLib]

/-- A session with the record of the replies. -/
def recorded : System (Session σ × Replies) (Event σ) := system.watch fun r m => r.after m

/-- A stub whose simulation is about to begin. -/
def start (g : Gdb σ) : Session σ × Replies := ({ stub := g, sim := .ready }, { stops := 0, said := false })

/-- At most one stop reply, and the program is halted behind an `S` packet. -/
structure Answered (p : Session σ × Replies) : Prop where
  once : p.2.stops ≤ 1
  halted : p.2.said = true → p.1.stub.mode = .halted

/-- An interrupt request is answered behind the `W` packet, or the simulation replies that the
program has stopped while it is halted. -/
def disturbs (s : Session σ) : Event σ → Bool
  | .listen => s.sim == .exited && s.stub.mode == .running && s.stub.rsp.input.headD 0#8 == 0x03#8
  | .finish =>
    match s.sim with
    | .ran _ res => (res == .breakpoint || res == .exit) && s.stub.mode == .halted
    | _ => false
  | _ => false

end Session

/-! ## Which replies are sent -/

/-- What decides which stop replies are sent, and the record of them. -/
structure View where
  mode : GdbMode
  sim : Simulation
  stops : Nat
  said : Bool

def Session.view (p : Session σ × Replies) : View :=
  { mode := p.1.stub.mode, sim := p.1.sim, stops := p.2.stops, said := p.2.said }

namespace View

/-- The steps of a session; the flag says that a step disturbs it. -/
inductive Step : View → Bool → View → Prop where
  | idle (v : View) : Step v false v
  | resume {v : View} {mode : GdbMode} (h : v.mode = .halted)
      (hm : mode = .stepping ∨ mode = .running) :
      Step v false { v with mode := mode, stops := 0, said := false }
  | interrupt {v : View} (h : v.mode = .running) :
      Step v (v.sim == .exited) { v with mode := .halted, stops := v.stops + 1, said := true }
  | read {v : View} (h : v.sim = .ready) : Step v false { v with sim := .read v.mode }
  | run {v : View} {mode : GdbMode} {res : StepResult} (h : v.sim = .read mode)
      (hr : mode = .halted → res = .ok) : Step v false { v with sim := .ran mode res }
  | proceed {v : View} {mode : GdbMode} (h : v.sim = .ran mode .ok) (hm : mode ≠ .stepping) :
      Step v false { v with sim := .ready }
  | stepped {v : View} (h : v.sim = .ran .stepping .ok) :
      Step v false { v with mode := .halted, sim := .ready, stops := v.stops + 1, said := true }
  | breakpoint {v : View} {mode : GdbMode} (h : v.sim = .ran mode .breakpoint) :
      Step v (v.mode == .halted)
        { v with mode := .halted, sim := .ready, stops := v.stops + 1, said := true }
  | exit {v : View} {mode : GdbMode} (h : v.sim = .ran mode .exit) :
      Step v (v.mode == .halted) { v with sim := .exited, stops := v.stops + 1 }

/-- The client does not end the session. -/
structure Alive (v : View) : Prop where
  mode : v.mode ≠ .killed
  snapshot : v.sim.snapshot ≠ some .killed

/-- An undisturbed session. -/
structure Sound (v : View) : Prop where
  /-- Nothing has been sent as long as the program is not halted. -/
  silent : v.mode ≠ .halted → v.sim ≠ .exited → v.stops = 0
  exited : v.sim = .exited → v.mode ≠ .halted ∧ v.stops = 1
  /-- An interrupt request has been answered since the mode was read. -/
  stale : ∀ mode, v.sim.snapshot = some mode → mode ≠ .halted → v.mode = .halted → v.stops = 1
  stepping : v.sim.snapshot = some .stepping → v.mode = .stepping
  halted : ∀ res, v.sim = .ran .halted res → res = .ok
  once : v.stops ≤ 1

variable {v w : View} {d : Bool}

theorem Step.alive (h : Step v d w) (hv : Alive v) : Alive w := by
  obtain ⟨hm, hs⟩ := hv
  cases h with
  | idle => exact ⟨hm, hs⟩
  | resume h hr =>
    refine ⟨?_, hs⟩
    rcases hr with rfl | rfl
    · exact GdbMode.noConfusion
    · exact GdbMode.noConfusion
  | interrupt h => exact ⟨GdbMode.noConfusion, hs⟩
  | read h => exact ⟨hm, fun hk => hm (Option.some.inj hk)⟩
  | run h hr =>
    rw [h] at hs
    exact ⟨hm, hs⟩
  | proceed h hr => exact ⟨hm, fun he => by cases he⟩
  | stepped h => exact ⟨GdbMode.noConfusion, fun he => by cases he⟩
  | breakpoint h => exact ⟨GdbMode.noConfusion, fun he => by cases he⟩
  | exit h => exact ⟨hm, fun he => by cases he⟩

/-- Behind an `S` packet the program is halted, whatever happens. -/
theorem Step.said (h : Step v d w) (hs : v.said = true → v.mode = .halted) :
    w.said = true → w.mode = .halted := by
  cases h with
  | resume h hm => nofun
  | interrupt h => exact fun _ => rfl
  | stepped h => exact fun _ => rfl
  | breakpoint h => exact fun _ => rfl
  | _ => exact hs

theorem Sound.of_ready (h : v.sim = .ready) (hs : v.mode ≠ .halted → v.stops = 0)
    (ho : v.stops ≤ 1) : Sound v where
  silent := fun hm _ => hs hm
  exited := fun he => Simulation.noConfusion (h.symm.trans he)
  stale := fun _ he => by rw [h] at he; cases he
  stepping := fun he => by rw [h] at he; cases he
  halted := fun _ he => Simulation.noConfusion (h.symm.trans he)
  once := ho

/-- The program is not halted when the simulator returns from more than no cycles, unless the
client has interrupted it. -/
theorem Sound.stops_of_halted {mode : GdbMode} {res : StepResult} (hv : Sound v)
    (h : v.sim = .ran mode res) (hr : res ≠ .ok) (hm : v.mode = .halted) : v.stops = 1 := by
  refine hv.stale mode (by rw [h]; rfl) (fun he => ?_) hm
  subst he
  exact hr (hv.halted res h)

theorem Sound.stops_of_ran {mode : GdbMode} {res : StepResult} (hv : Sound v)
    (h : v.sim = .ran mode res) (hm : v.mode ≠ .halted) : v.stops = 0 :=
  hv.silent hm (by rw [h]; nofun)

theorem Step.sound (h : Step v d w) (hd : d = false) (hv : Sound v) : Sound w := by
  cases h with
  | idle => exact hv
  | @resume mode h hm =>
    have hne : mode ≠ .halted := by rcases hm with rfl | rfl <;> exact GdbMode.noConfusion
    exact {
      silent := fun _ _ => rfl
      exited := fun he => ((hv.exited he).1 h).elim
      stale := fun _ _ _ he => (hne he).elim
      stepping := fun hs => GdbMode.noConfusion (h.symm.trans (hv.stepping hs))
      halted := hv.halted
      once := Nat.zero_le 1 }
  | interrupt h =>
    have hs : v.stops = 0 := hv.silent (by rw [h]; exact GdbMode.noConfusion) (by simpa using hd)
    exact {
      silent := fun hm => (hm rfl).elim
      exited := fun he => (by simpa using hd : v.sim ≠ .exited) he |>.elim
      stale := fun _ _ _ _ => congrArg (· + 1) hs
      stepping := fun he => GdbMode.noConfusion (h.symm.trans (hv.stepping he))
      halted := hv.halted
      once := Nat.le_of_eq (congrArg (· + 1) hs) }
  | read h =>
    exact {
      silent := fun hm _ => hv.silent hm (by rw [h]; exact Simulation.noConfusion)
      exited := Simulation.noConfusion
      stale := fun mode he hne hm => (hne ((Option.some.inj he).symm.trans hm)).elim
      stepping := fun he => Option.some.inj he
      halted := fun _ he => Simulation.noConfusion he
      once := hv.once }
  | @run mode res h hr =>
    have hs : v.sim.snapshot = some mode := by rw [h]; rfl
    exact {
      silent := fun hm _ => hv.silent hm (by rw [h]; exact Simulation.noConfusion)
      exited := Simulation.noConfusion
      stale := fun mode' he => hv.stale mode' (hs.trans he)
      stepping := fun he => hv.stepping (hs.trans he)
      halted := fun res' he => by
        cases he
        exact hr rfl
      once := hv.once }
  | proceed h hm =>
    exact .of_ready rfl (fun hm => hv.stops_of_ran h hm) hv.once
  | stepped h =>
    have hm : v.mode = .stepping := hv.stepping (by rw [h]; rfl)
    have hs := hv.stops_of_ran h (by rw [hm]; exact GdbMode.noConfusion)
    exact .of_ready rfl (fun he => (he rfl).elim) (Nat.le_of_eq (congrArg (· + 1) hs))
  | breakpoint h =>
    have hs := hv.stops_of_ran h (by simpa using hd)
    exact .of_ready rfl (fun he => (he rfl).elim) (Nat.le_of_eq (congrArg (· + 1) hs))
  | exit h =>
    have hm : v.mode ≠ .halted := by simpa using hd
    have hs := hv.stops_of_ran h hm
    exact {
      silent := fun _ he => (he rfl).elim
      exited := fun _ => ⟨hm, congrArg (· + 1) hs⟩
      stale := fun _ he => by cases he
      stepping := fun he => by cases he
      halted := fun _ => Simulation.noConfusion
      once := Nat.le_of_eq (congrArg (· + 1) hs) }

/-- The reply that disturbs a session is the second one. -/
theorem Step.disturbed (h : Step v d w) (hd : d = true) (hv : Sound v) : w.stops = 2 := by
  cases h with
  | interrupt h => exact congrArg (· + 1) (hv.exited (by simpa using hd)).2
  | breakpoint h =>
    exact congrArg (· + 1) (hv.stops_of_halted h StepResult.noConfusion (by simpa using hd))
  | exit h => exact congrArg (· + 1) (hv.stops_of_halted h StepResult.noConfusion (by simpa using hd))
  | _ => cases hd

end View

namespace Gdb

variable {g g' : Gdb σ}

theorem send_sent {text : List U8} (h : g.send text = .ok g') : g'.mode = g.mode ∧
    g'.rsp.output = g.rsp.output ++ (Packet.ofFormat text).bytes := by
  obtain ⟨r, hr, rfl⟩ := Outcome.lift_eq_ok.1 h
  unfold Rsp.sendFormat Rsp.send at hr
  split at hr
  · cases hr
    exact ⟨rfl, rfl⟩
  · cases hr

/-- An interrupt request halts the program and is answered; other characters are passed over. -/
theorem checkSignals_cases (hc : g.rsp.input.headD 0#8 ≠ 0#8) (h : g.checkSignals = .ok g') :
    (g.rsp.input.headD 0#8 = 0x03#8 ∧ g'.mode = .halted ∧
      g'.rsp.output = g.rsp.output ++ (Packet.ofFormat (ascii "S02")).bytes) ∨
    (g.rsp.input.headD 0#8 ≠ 0x03#8 ∧ g'.mode = g.mode ∧ g'.rsp.output = g.rsp.output) := by
  obtain ⟨⟨c, r⟩, hr, h⟩ := Outcome.bind_eq_ok.1 h
  obtain ⟨x, hx, he⟩ := Outcome.lift_eq_ok.1 hr
  cases he
  unfold Rsp.recvChar at hx
  split at hx
  · cases hi : g.rsp.input with
    | nil => exact (hc (by rw [hi]; rfl)).elim
    | cons d input =>
      rw [hi] at hx hc
      cases hx
      dsimp only [List.headD_cons] at hc h ⊢
      rw [if_neg hc] at h
      split at h
      · rename_i h3
        obtain ⟨hm, ho⟩ := send_sent h
        exact .inl ⟨h3, hm, ho⟩
      · rename_i h3
        cases h
        exact .inr ⟨h3, rfl, rfl⟩
  · cases hx

end Gdb

namespace Rsp

variable {r r' : Rsp} {command : List U8}

theorem recvChar_output {c : U8} (h : r.recvChar = .ok (c, r')) : r'.output = r.output := by
  unfold recvChar at h
  split at h
  · split at h <;> cases h <;> rfl
  · cases h

/-- A packet is answered with one character. -/
theorem recvChecksum_output {sum : U8} {packet : List U8}
    (h : r.recvChecksum sum packet = .ok (command, r')) : ∃ b, r'.output = r.output ++ [b] := by
  obtain ⟨⟨c, x⟩, hx, h⟩ := Outcome.bind_eq_ok.1 h
  obtain ⟨⟨d, y⟩, hy, h⟩ := Outcome.bind_eq_ok.1 h
  obtain ⟨z, hz, h⟩ := Outcome.bind_eq_ok.1 h
  cases h
  unfold sendChar at hz
  split at hz
  · cases hz
    exact ⟨_, by rw [recvChar_output hy, recvChar_output hx]⟩
  · cases hz

theorem recvLoop_output {sum : U8} {packet input : List U8}
    (h : r.recvLoop sum packet input = .ok (command, r')) (ho : r'.isOpen = true) :
    ∃ b, r'.output = r.output ++ [b] := by
  induction input generalizing sum packet with
  | nil =>
    unfold recvLoop at h
    split at h
    · cases h
      cases ho
    · cases h
  | cons c input ih =>
    unfold recvLoop at h
    split at h
    · split at h
      · exact ih h
      · split at h
        · have hb := recvChecksum_output h
          exact hb
        · exact ih h
    · cases h

end Rsp

namespace Gdb

variable {g g' : Gdb σ} [EnvImpl σ]

/-- An `s` or a `c` packet is acknowledged, and the program goes on. -/
theorem processCommand_resumes {command : List U8} {r : Rsp} (hr : g.rsp.recv = .ok (command, r))
    (ho : r.isOpen = true) (hc : command.headD 0#8 = chr 's' ∨ command.headD 0#8 = chr 'c')
    (h : g.processCommand = .ok g') : (g'.mode = .stepping ∨ g'.mode = .running) ∧
      ∃ b, g'.rsp.output = g.rsp.output ++ [b] := by
  have hb : ∃ b, r.output = g.rsp.output ++ [b] := by
    unfold Rsp.recv at hr
    split at hr
    · exact Rsp.recvLoop_output hr ho
    · cases hr
  unfold processCommand at h
  rw [hr, Outcome.lift_ok, Outcome.ok_bind] at h
  dsimp only [id] at h
  rw [ho] at h
  change execute _ command = _ at h
  unfold execute at h
  rcases hc with hc | hc
  · rw [hc] at h
    cases h
    exact ⟨.inl rfl, hb⟩
  · rw [hc] at h
    cases h
    exact ⟨.inr rfl, hb⟩

end Gdb

/-! ## Sessions -/

namespace Replies

variable {m : Move (Session σ) (Session.Event σ)} {r : Replies}

theorem sends_eq {bytes : List U8}
    (h : m.post.stub.rsp.output = m.pre.stub.rsp.output ++ bytes) (c : Char) :
    sends m c = (bytes.take 2 == [chr '$', chr c]) := by
  unfold sends
  rw [h, List.drop_left]

theorem sends_packet {c : U8} {text : List U8} (h : m.post.stub.rsp.output =
      m.pre.stub.rsp.output ++ (Packet.ofFormat (c :: text)).bytes) (d : Char) :
    sends m d = (c == chr d) := by
  rw [sends_eq h, Packet.ofFormat_bytes]
  simp

theorem after_silent (hr : resumes m = false)
    (h : m.post.stub.rsp.output = m.pre.stub.rsp.output) : r.after m = r := by
  have ho : m.post.stub.rsp.output = m.pre.stub.rsp.output ++ [] := by rw [h, List.append_nil]
  have hs : ∀ c, sends m c = false := sends_eq ho
  unfold after
  rw [hr, hs, hs]
  rfl

theorem after_resume {b : U8} (hr : resumes m = true)
    (h : m.post.stub.rsp.output = m.pre.stub.rsp.output ++ [b]) :
    r.after m = { stops := 0, said := false } := by
  have hs : ∀ c, sends m c = false := fun c => by rw [sends_eq h]; simp
  unfold after
  rw [hr, hs, hs]
  rfl

theorem after_stop {text : List U8} (hr : resumes m = false) (h : m.post.stub.rsp.output =
    m.pre.stub.rsp.output ++ (Packet.ofFormat (chr 'S' :: text)).bytes) :
    r.after m = { stops := r.stops + 1, said := true } := by
  unfold after
  rw [hr, sends_packet h]
  rfl

theorem after_exit {text : List U8} (hr : resumes m = false) (h : m.post.stub.rsp.output =
    m.pre.stub.rsp.output ++ (Packet.ofFormat (chr 'W' :: text)).bytes) :
    r.after m = { r with stops := r.stops + 1 } := by
  unfold after
  rw [hr, sends_packet h, sends_packet h]
  rfl

end Replies

namespace Session

variable [EnvImpl σ] [HostLib] {s t : Session σ} {r : Replies} {e : Event σ}

theorem listen_step (ha : s.stub.mode ≠ .killed) (h : s.next .listen = some t) :
    (view (s, r)).Step (s.disturbs .listen) (view (t, r.after ⟨s, .listen, t⟩)) := by
  unfold next at h
  dsimp only at h
  split at h
  · rename_i hh
    obtain ⟨g, hg, rfl⟩ := Option.map_eq_some_iff.1 h
    have hg := Outcome.value?_eq_some.1 hg
    unfold Gdb.hears at hh
    unfold Gdb.listenRound at hg
    cases hm : s.stub.mode with
    | running =>
      rw [hm] at hh hg
      have hres : ∀ t, Replies.resumes ⟨s, .listen, t⟩ = false := fun t => by
        show (s.stub.mode == .halted) = false
        rw [hm]
        rfl
      rcases Gdb.checkSignals_cases (by simpa using hh) hg with ⟨h3, hmode, hout⟩ | ⟨h3, hmode, hout⟩
      · have hd : s.disturbs .listen = (s.sim == .exited) := by
          unfold disturbs
          dsimp only
          rw [hm, h3, beq_self_eq_true, beq_self_eq_true, Bool.and_true, Bool.and_true]
        rw [hd, Replies.after_stop (hres _) hout]
        show View.Step _ _ { mode := g.mode, sim := s.sim, stops := r.stops + 1, said := true }
        rw [hmode]
        exact .interrupt hm
      · have hd : s.disturbs .listen = false := by
          unfold disturbs
          dsimp only
          rw [beq_false_of_ne h3, Bool.and_false]
        rw [hd, Replies.after_silent (hres _) hout]
        show View.Step _ _ { mode := g.mode, sim := s.sim, stops := r.stops, said := r.said }
        rw [hmode]
        exact .idle _
    | halted =>
      rw [hm] at hh hg
      have hd : s.disturbs .listen = false := by simp [disturbs, hm]
      dsimp only at hh
      split at hh
      · rename_i command x hr
        rw [Bool.and_eq_true, Bool.or_eq_true, beq_iff_eq, beq_iff_eq] at hh
        obtain ⟨hmode, b, hb⟩ := Gdb.processCommand_resumes hr hh.1 hh.2 hg
        rw [hd, Replies.after_resume (by unfold Replies.resumes; rw [hm]; rfl) hb]
        exact .resume hm hmode
      · cases hh
    | stepping =>
      rw [hm] at hg
      cases hg
      have hd : s.disturbs .listen = false := by simp [disturbs, hm]
      rw [hd, Replies.after_silent (by unfold Replies.resumes; rw [hm]; rfl) rfl]
      exact .idle _
    | killed => exact (ha hm).elim
  · cases h

theorem finish_step (ha : s.sim.snapshot ≠ some .killed) (h : s.next .finish = some t) :
    (view (s, r)).Step (s.disturbs .finish) (view (t, r.after ⟨s, .finish, t⟩)) := by
  unfold next at h
  dsimp only at h
  split at h
  · rename_i mode res hs
    obtain ⟨x, hx, h⟩ := Option.bind_eq_some_iff.1 h
    obtain ⟨⟨res', g⟩, hg, h⟩ := Option.bind_eq_some_iff.1 h
    have hg := Outcome.value?_eq_some.1 hg
    subst hg
    unfold Gdb.endStep at hx
    rw [if_neg (fun hk => ha (by rw [hs, hk]; rfl))] at hx
    cases h
    cases res with
    | exit =>
      obtain ⟨g', hg', he⟩ := Outcome.lift_eq_ok.1 (Option.some.inj hx)
      cases he
      obtain ⟨hm, ho⟩ := Gdb.send_sent hg'
      have hd : s.disturbs .finish = (s.stub.mode == .halted) := by simp [disturbs, hs]
      rw [hd, Replies.after_exit rfl ho]
      show View.Step _ _ { mode := g.mode, sim := .exited, stops := r.stops + 1, said := r.said }
      rw [hm]
      exact .exit hs
    | breakpoint =>
      obtain ⟨g', hg', he⟩ := Outcome.lift_eq_ok.1 (Option.some.inj hx)
      cases he
      obtain ⟨hm, ho⟩ := Gdb.send_sent hg'
      have hd : s.disturbs .finish = (s.stub.mode == .halted) := by simp [disturbs, hs]
      rw [hd, Replies.after_stop rfl ho]
      show View.Step _ _ { mode := g.mode, sim := .ready, stops := r.stops + 1, said := true }
      rw [hm]
      exact .breakpoint hs
    | ok =>
      have hd : s.disturbs .finish = false := by simp [disturbs, hs]
      rw [hd]
      dsimp only at hx
      split at hx
      · rename_i hstep
        subst hstep
        obtain ⟨g', hg', he⟩ := Outcome.lift_eq_ok.1 (Option.some.inj hx)
        cases he
        obtain ⟨hm, ho⟩ := Gdb.send_sent hg'
        rw [Replies.after_stop rfl ho]
        show View.Step _ _ { mode := g.mode, sim := .ready, stops := r.stops + 1, said := true }
        rw [hm]
        exact .stepped hs
      · rename_i hstep
        cases hx
        rw [Replies.after_silent rfl rfl]
        exact .proceed hs hstep
    | watchpoint => cases hx
  · cases h

theorem step_view (hv : (view (s, r)).Alive) (h : s.next e = some t) :
    (view (s, r)).Step (s.disturbs e) (view (t, r.after ⟨s, e, t⟩)) := by
  cases e with
  | client bytes =>
    cases h
    rw [Replies.after_silent rfl rfl]
    exact .idle _
  | listen => exact listen_step hv.mode h
  | read =>
    unfold next at h
    dsimp only at h
    split at h
    · rename_i hs
      cases h
      rw [Replies.after_silent rfl rfl]
      exact .read hs
    · cases h
  | run cycles actions =>
    unfold next at h
    dsimp only at h
    split at h
    · rename_i mode hs
      obtain ⟨⟨res, cpu⟩, hr, rfl⟩ := Option.map_eq_some_iff.1 h
      rw [Replies.after_silent rfl rfl]
      refine .run hs fun hm => ?_
      subst hm
      exact Or1k.step_zero hr
    · cases h
  | finish => exact finish_step hv.snapshot h

/-- What every step of a session keeps while nothing disturbs it. -/
structure Kept (p : Session σ × Replies) : Prop where
  alive : (view p).Alive
  sound : (view p).Sound
  said : p.2.said = true → p.1.stub.mode = .halted

omit [EnvImpl σ] [HostLib] in
theorem start_kept (cpu : Or1k σ) (elf : Option Elf) (rsp : Rsp) : Kept (start (.init cpu elf rsp)) where
  alive := ⟨GdbMode.noConfusion, fun he => by cases he⟩
  sound := .of_ready rfl (fun _ => rfl) (Nat.zero_le 1)
  said := Bool.noConfusion

/-- Behind an `S` packet the program is halted in every run, disturbed or not. -/
theorem halted_of_said {cpu : Or1k σ} {elf : Option Elf} {rsp : Rsp} {p : Session σ × Replies}
    (h : recorded.Run (start (.init cpu elf rsp)) p) : p.2.said = true → p.1.stub.mode = .halted := by
  have hstart := start_kept cpu elf rsp
  refine (h.invariant
    (P := fun p => (view p).Alive ∧ (p.2.said = true → p.1.stub.mode = .halted))
    (fun p e q hp _ hn => ?_) ⟨hstart.alive, hstart.said⟩).2
  obtain ⟨t, ht, rfl⟩ := System.watch_next hn
  have hstep := step_view hp.1 ht
  exact ⟨hstep.alive hp.1, hstep.said hp.2⟩

/-- In every run of the two threads, each program that was resumed is reported at most once, and is
halted behind an `S` packet, as long as nothing disturbs the session and no longer. -/
theorem one_stop_reply {cpu : Or1k σ} {elf : Option Elf} {rsp : Rsp} {p : Session σ × Replies}
    {l : List (Move (Session σ × Replies) (Event σ))}
    (h : recorded.Path (start (.init cpu elf rsp)) l p) :
    (∀ m ∈ l, Answered m.post) ↔ ∀ m ∈ l, m.pre.1.disturbs m.act = false := by
  refine h.forall_iff (P := Kept) (C := fun m => m.pre.1.disturbs m.act = false)
    (R := fun m => Answered m.post) (fun p e q hn hd hk => ?_) (fun p e q hn hd hk hr => ?_)
    (start_kept cpu elf rsp)
  · obtain ⟨t, ht, rfl⟩ := System.watch_next hn
    have hstep := step_view hk.alive ht
    have hsound := hstep.sound hd hk.sound
    have hsaid := hstep.said hk.said
    exact ⟨⟨hstep.alive hk.alive, hsound, hsaid⟩, ⟨hsound.once, hsaid⟩⟩
  · obtain ⟨t, ht, rfl⟩ := System.watch_next hn
    have h2 := (step_view hk.alive ht).disturbed (by simpa using hd) hk.sound
    exact absurd hr.once (by rw [show Replies.stops _ = 2 from h2]; decide)

end Session

namespace Session

attribute [local instance] HostLib.plain

/-- A simulator at the reset vector with a breakpoint at the second instruction. -/
def paused : Session Memory × Replies :=
  start (.init ((Memory.boot [(0x100, 0x15000000#32)]).cpu.insertBreakpoint 0x104#32) none
    { isOpen := true, input := [], output := [] })

/-- A call that runs one instruction. -/
def oneInsn : Event Memory := .run 10#32 [.run, .run, .run, .run]

/-- The client interrupts the program while the simulator runs into the breakpoint. -/
theorem one_stop_reply_fails : ∃ l p, recorded.Path paused l p ∧ ¬∀ m ∈ l, Answered m.post := by
  obtain ⟨p, hr, hp⟩ := recorded.exists_run paused
    [.client (Packet.frame (ascii "c")), .listen, .read, .client [0x03#8], oneInsn, .listen, .finish]
    (fun p => decide (p.2.stops = 2)) (by decide +kernel)
  obtain ⟨l, hl⟩ := hr.path
  refine ⟨l, p, hl, fun ha => ?_⟩
  have h2 := of_decide_eq_true hp
  rcases hl.last with rfl | ⟨m, hm, rfl⟩
  · cases h2
  · exact absurd (ha m hm).once (by rw [h2]; decide)

/-- Without the interrupt. -/
theorem one_stop_reply_breakpoint : ∃ l p, recorded.Path paused l p ∧ p.2.stops = 1 ∧
    ∀ m ∈ l, Answered m.post := by
  obtain ⟨p, hr, hp⟩ := recorded.exists_steps (fun p e => !p.1.disturbs e) paused
    [.client (Packet.frame (ascii "c")), .listen, .read, oneInsn, .finish]
    (fun p => decide (p.2.stops = 1)) (by decide +kernel)
  obtain ⟨l, hl, hok⟩ := hr.path_ok
  exact ⟨l, p, hl, of_decide_eq_true hp, (one_stop_reply hl).2 fun m hm => by simpa using hok m hm⟩

end Session

end Or1kiss
