import Or1kiss.Handlers
import Or1kiss.MemPackets
import Or1kiss.Retransmission

/-!
# The command loop

`process_commands` reads and handles packets as long as the program is halted. Handlers run under a
`try`; the reads, the answer to an exception and the detachment behind the end of the connection do
not. A round is over without an exception if and only if a packet arrives.
-/

namespace Or1kiss

open Host Runs

variable {σ : Type}

namespace Gdb

section Loop

variable [EnvImpl σ] {g g' : Gdb σ}

/-- The rounds of `process_commands`. -/
def commandLoop : Nat → Gdb σ → Outcome (Gdb σ) (Gdb σ)
  | 0, g => .ok g
  | fuel + 1, g =>
    if g.mode = .halted then do commandLoop fuel (← g.processCommand)
    else .ok g

/-- Every round but the last takes bytes from the connection. -/
def processCommands (g : Gdb σ) : Outcome (Gdb σ) (Gdb σ) := commandLoop (g.rsp.input.length + 1) g

/-- One round after the other, while the program is halted. -/
def rounds : System (Gdb σ) Unit where
  next g _ := if g.mode = .halted then g.processCommand.value? else none

/-- No exception leaves the loop, and behind a lost connection the stub is detached and the program
runs. -/
structure Contained (g : Gdb σ) : Prop where
  caught : ∀ g', g.processCommands ≠ .throw g'
  lost : ∀ g', g.processCommands = .ok g' → g'.rsp.isOpen = false →
    g'.detached = true ∧ g'.mode = .running

/-- A packet that the loop waits for arrives before the connection closes. -/
def Supplied (g : Gdb σ) : Prop := g.mode = .halted → (firstFrame [] g.rsp.input).isSome = true

/-! ## One round -/

/-- A handler leaves the connection open, and the input to the reads. -/
def SameInput (g x : Gdb σ) : Prop := x.rsp.isOpen = g.rsp.isOpen ∧ x.rsp.input = g.rsp.input

omit [EnvImpl σ] in
theorem sameInput_invariant (g : Gdb σ) : Invariant (SameInput g) :=
  ⟨fun _ h => h, fun _ h => h, fun h => h, fun _ h => h, fun h => h⟩

/-- Every packet is answered on an open connection, exceptions of handlers included. -/
theorem execute_answers (ho : g.rsp.isOpen = true) (command : List U8) :
    Outcome.Ends (fun _ => False) (SameInput g) (g.execute command) := by
  have hsend : ∀ {x : Gdb σ} (text : List U8), SameInput g x →
      Outcome.Ends (fun _ => False) (SameInput g) (x.send text) := fun text hx => by
    rw [send_eq (hx.1.trans ho) text]
    exact .ok hx
  unfold execute
  cases hf : (handlers (σ := σ)).find? (fun h => chr h.1 == command.headD 0#8) with
  | none => exact hsend [] ⟨rfl, rfl⟩
  | some h =>
    have hends := (sameInput_invariant g).handled (fun _ h => h) (List.mem_of_find?_eq_some hf)
      ⟨rfl, rfl⟩ (command ++ [0#8])
    dsimp only
    generalize h.2 g (command ++ [0#8]) = x at hends ⊢
    cases hends with
    | ok hx => exact .ok hx
    | throw hx => exact hsend _ hx
    | fault e => exact .fault e

omit [EnvImpl σ] in
theorem rest_lt {s : List U8} {f : Frame} (h : firstFrame [] s = some f) :
    f.rest.length < s.length := by
  obtain ⟨pre, hs, -⟩ := firstFrame_closes (fun _ hc => (List.not_mem_nil hc).elim) h
  rw [hs, List.length_append, List.length_append]
  show _ < pre.length + 3 + _
  omega

/-- A round with a packet takes it from the input and throws nothing. -/
theorem processCommand_frame {f : Frame} (ho : g.rsp.isOpen = true)
    (hf : firstFrame [] g.rsp.input = some f) :
    Outcome.Ends (fun _ => False) (fun x => x.rsp.isOpen = true ∧ x.rsp.input = f.rest)
      g.processCommand := by
  have hr := Rsp.recv_frame ho hf
  generalize g.rsp.output ++ [if f.Right then chr '+' else chr '-'] = out at hr
  have hx : g.processCommand = (g.withRsp { g.rsp with input := f.rest, output := out }).execute
      (f.payload ++ [0#8]) := by
    unfold processCommand
    rw [hr, Outcome.lift_ok, Outcome.ok_bind]
    dsimp only [id]
    rw [ho]
    rfl
  have hopen : (g.withRsp { g.rsp with input := f.rest, output := out }).rsp.isOpen = true := ho
  rw [hx]
  exact (execute_answers hopen _).mono (fun _ h => h) fun x h => ⟨h.1.trans ho, h.2⟩

omit [EnvImpl σ] in
/-- Reading from a socket runs into no undefined behaviour. -/
theorem recvLoop_avoids {r : Rsp} {sum : U8} {packet s : List U8} {e : Fault} :
    (r.recvLoop sum packet s).Avoids e := by
  have hchar : ∀ r : Rsp, r.recvChar.Avoids e := fun r => by
    unfold Rsp.recvChar
    split
    · split <;> exact Outcome.avoids_ok _
    · exact Outcome.avoids_throw _
  induction s generalizing sum packet with
  | nil =>
    rw [Rsp.recvLoop]
    split
    · exact Outcome.avoids_ok _
    · exact Outcome.avoids_throw _
  | cons c s ih =>
    rw [Rsp.recvLoop]
    split
    · split
      · exact ih
      · split
        · refine (hchar _).bind fun a _ => (hchar _).bind fun b _ => ?_
          refine Outcome.Avoids.bind ?_ fun _ _ => Outcome.avoids_ok _
          unfold Rsp.sendChar
          split
          · exact Outcome.avoids_ok _
          · exact Outcome.avoids_throw _
        · exact ih
    · exact Outcome.avoids_throw _

omit [EnvImpl σ] in
/-- A closed connection cannot be answered. -/
theorem handleDetach_closed (hc : g.rsp.isOpen = false) : g.handleDetach [] =
    .throw { g with tlb := fun _ => 0#32, mode := .running, detached := true } := by
  unfold handleDetach send Rsp.sendFormat Rsp.send
  dsimp only
  rw [hc, if_neg Bool.false_ne_true]
  rfl

/-- A round without one throws: the buffer is full, a digit is missing, or the detachment is
answered on a closed connection. -/
theorem processCommand_starved (ho : g.rsp.isOpen = true) (hf : firstFrame [] g.rsp.input = none) :
    ∃ g', g.processCommand = .throw g' := by
  have hrecv : g.rsp.recv = g.rsp.recvLoop 0#8 [] g.rsp.input := by
    unfold Rsp.recv
    rw [if_pos ho]
  unfold processCommand
  cases hr : g.rsp.recv with
  | throw r => exact ⟨_, rfl⟩
  | fault e => exact (recvLoop_avoids (e := e) (hrecv ▸ hr)).elim
  | ok x =>
    obtain ⟨command, r⟩ := x
    rw [hrecv] at hr
    cases hopen : r.isOpen with
    | true =>
      obtain ⟨f, hf'⟩ := Rsp.firstFrame_of_recvLoop hr hopen
      rw [hf] at hf'
      cases hf'
    | false =>
      rw [Outcome.lift_ok, Outcome.ok_bind]
      dsimp only [id]
      rw [hopen]
      exact ⟨_, handleDetach_closed hopen⟩

/-! ## The loop -/

/-- The round behind which the loop goes on. -/
theorem rounds_next (hm : g.mode = .halted) (hp : g.processCommand = .ok g') :
    rounds.next g () = some g' := by
  show (if g.mode = .halted then g.processCommand.value? else none) = some g'
  rw [if_pos hm, hp]
  rfl

theorem of_rounds_next {u : Unit} (hn : rounds.next g u = some g') :
    g.mode = .halted ∧ g.processCommand = .ok g' := by
  have hn : (if g.mode = .halted then g.processCommand.value? else none) = some g' := hn
  split at hn
  · rename_i hm
    exact ⟨hm, Outcome.value?_eq_some.1 hn⟩
  · cases hn

/-- A round that is over has taken a packet. -/
theorem input_lt (ho : g.rsp.isOpen = true) (hp : g.processCommand = .ok g') :
    g'.rsp.isOpen = true ∧ g'.rsp.input.length < g.rsp.input.length := by
  cases hf : firstFrame [] g.rsp.input with
  | none =>
    obtain ⟨x, hx⟩ := processCommand_starved ho hf
    rw [hp] at hx
    cases hx
  | some f =>
    have hends := processCommand_frame ho hf
    rw [hp] at hends
    cases hends with
    | ok h => exact ⟨h.1, by rw [h.2]; exact rest_lt hf⟩

/-- As long as packets arrive, nothing is thrown and the connection stays open. -/
theorem commandLoop_supplied (hs : ∀ g₁, rounds.Run g g₁ → Supplied g₁) (ho : g.rsp.isOpen = true)
    (fuel : Nat) :
    Outcome.Ends (fun _ => False) (fun x : Gdb σ => x.rsp.isOpen = true) (commandLoop fuel g) := by
  induction fuel generalizing g with
  | zero => exact .ok ho
  | succ fuel ih =>
    rw [commandLoop]
    split
    · rename_i hm
      obtain ⟨f, hf⟩ := Option.isSome_iff_exists.1 (hs g (.refl g) hm)
      have hends := processCommand_frame ho hf
      cases hp : g.processCommand with
      | throw g₁ =>
        rw [hp] at hends
        cases hends with
        | throw h => exact h.elim
      | fault e => exact .fault e
      | ok g₁ => exact ih (fun g₂ h₂ => hs g₂ (.head trivial (rounds_next hm hp) h₂)) (input_lt ho hp).1
    · exact .ok ho

/-- Once no packet arrives, the loop throws. -/
theorem commandLoop_starved {g₁ : Gdb σ} (h : rounds.Run g g₁) (hs : ¬Supplied g₁)
    (ho : g.rsp.isOpen = true) {fuel : Nat} (hfuel : g.rsp.input.length < fuel) :
    ∃ g', commandLoop fuel g = .throw g' := by
  induction h using Relation.ReflTransGen.head_induction_on generalizing fuel with
  | refl =>
    obtain ⟨hm, hf⟩ := Classical.not_imp.1 hs
    obtain ⟨g', hg'⟩ := processCommand_starved ho (Option.not_isSome_iff_eq_none.1 hf)
    cases fuel with
    | zero => exact absurd hfuel (Nat.not_lt_zero _)
    | succ fuel =>
      refine ⟨g', ?_⟩
      rw [commandLoop, if_pos hm, hg', Outcome.throw_bind]
  | @head g g₂ hstep _ ih =>
    obtain ⟨_, -, hn⟩ := hstep
    obtain ⟨hm, hp⟩ := of_rounds_next hn
    obtain ⟨ho₂, hlt⟩ := input_lt ho hp
    cases fuel with
    | zero => exact absurd hfuel (Nat.not_lt_zero _)
    | succ fuel =>
      rw [commandLoop, if_pos hm, hp, Outcome.ok_bind]
      exact ih ho₂ (by omega)

/-- The rounds are enough: the loop is left because the program is no longer halted. -/
theorem commandLoop_ends (ho : g.rsp.isOpen = true) {fuel : Nat} (hfuel : g.rsp.input.length < fuel)
    (h : commandLoop fuel g = .ok g') : g'.mode ≠ .halted := by
  induction fuel generalizing g with
  | zero => exact absurd hfuel (Nat.not_lt_zero _)
  | succ fuel ih =>
    rw [commandLoop] at h
    split at h
    · obtain ⟨g₁, hp, h⟩ := Outcome.bind_eq_ok.1 h
      obtain ⟨ho₁, hlt⟩ := input_lt ho hp
      exact ih ho₁ (by omega) h
    · rename_i hm
      cases h
      exact hm

/-- No exception leaves `process_commands` if and only if a packet arrives whenever the loop waits
for one. -/
theorem contained_iff (ho : g.rsp.isOpen = true) :
    Contained g ↔ ∀ g₁, rounds.Run g g₁ → Supplied g₁ := by
  constructor
  · intro h g₁ hr
    by_contra hs
    obtain ⟨g', hg'⟩ := commandLoop_starved hr hs ho (Nat.lt_succ_self _)
    exact h.caught g' hg'
  · intro hs
    have hends := commandLoop_supplied hs ho (g.rsp.input.length + 1)
    constructor
    · intro g' hg'
      have hends : Outcome.Ends _ _ g.processCommands := hends
      rw [hg'] at hends
      cases hends with
      | throw h => exact h
    · intro g' hg' hc
      have hends : Outcome.Ends _ _ g.processCommands := hends
      rw [hg'] at hends
      cases hends with
      | ok ho' => cases hc.symm.trans ho'

/-- A run of the rounds, checked. -/
def supplies : Nat → Gdb σ → Bool
  | 0, _ => false
  | n + 1, g =>
    if g.mode = .halted then
      (firstFrame [] g.rsp.input).isSome && g.processCommand.value?.all (supplies n)
    else true

theorem supplied_of_supplies {n : Nat} (h : supplies n g = true) {g₁ : Gdb σ}
    (hr : rounds.Run g g₁) : Supplied g₁ := by
  induction hr using Relation.ReflTransGen.head_induction_on generalizing n with
  | refl =>
    intro hm
    cases n with
    | zero => cases h
    | succ n =>
      rw [supplies, if_pos hm, Bool.and_eq_true] at h
      exact h.1
  | @head g g₂ hstep _ ih =>
    obtain ⟨_, -, hn⟩ := hstep
    obtain ⟨hm, hp⟩ := of_rounds_next hn
    cases n with
    | zero => cases h
    | succ n =>
      rw [supplies, if_pos hm, Bool.and_eq_true, hp] at h
      exact ih h.2

end Loop

section Plain

attribute [local instance] HostLib.plain

/-- A stub whose client sends some bytes and closes the connection. -/
def hangingUp (bytes : List U8) : Gdb Memory :=
  .init (connected []).cpu none { isOpen := true, input := bytes, output := [] }

/-- The client closes the connection at once. -/
theorem contained_fails : ∃ g g' : Gdb Memory, g.rsp.isOpen = true ∧ g.mode = .halted ∧
    g.processCommands = .throw g' ∧ ¬Contained g := by
  have hstarved : ¬Supplied (hangingUp []) := fun h => by cases h rfl
  obtain ⟨g', hg'⟩ := commandLoop_starved (.refl (hangingUp [])) hstarved rfl (Nat.lt_succ_self _)
  exact ⟨hangingUp [], g', rfl, rfl, hg', fun h => h.caught g' hg'⟩

/-- The client reads a register, goes on, and closes the connection. -/
theorem contained_continue : Contained (hangingUp (ascii "$p3#a3$c#63")) := by
  have hs : supplies 3 (hangingUp (ascii "$p3#a3$c#63")) = true := by decide +kernel
  exact (contained_iff rfl).2 fun g₁ hr => supplied_of_supplies hs hr

end Plain

end Gdb

end Or1kiss
