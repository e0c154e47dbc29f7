import Or1kiss.PageCache

/-!
# Breakpoints and watchpoints of the client

A client knows five kinds of objects, the simulator three lists. `Point` is an object as a packet
names it; `note` keeps the objects that are installed beside the debugger, and `Shows` relates them
to the lists. A removal takes away what overlaps its range, so the relation is kept as long as an
object is removed that no other touches.
-/

namespace Or1kiss

open Host Runs Bits

variable {σ : Type}

/-! ## Objects -/

/-- The types of `Z` and `z` packets. -/
inductive PointKind where
  | software
  | hardware
  | write
  | read
  | access
  deriving DecidableEq, Repr

namespace PointKind

def ofType (type : U32) : Option PointKind :=
  if type = 0#32 then some .software
  else if type = 1#32 then some .hardware
  else if type = 2#32 then some .write
  else if type = 3#32 then some .read
  else if type = 4#32 then some .access
  else none

def breaks : PointKind → Bool
  | .software | .hardware => true
  | _ => false

/-- The kind watches writes, or reads. -/
def watches (kind : PointKind) (write : Bool) : Bool :=
  match kind with
  | .software | .hardware => false
  | .write => write
  | .read => !write
  | .access => true

theorem breaks_of_watches {kind : PointKind} {write : Bool} (h : kind.watches write = true) :
    kind.breaks = false := by
  cases kind with
  | software | hardware => exact Bool.noConfusion h
  | write | read | access => rfl

end PointKind

structure Point where
  kind : PointKind
  addr : U32
  length : U32
  deriving DecidableEq, Repr

namespace Point

def range (p : Point) : Watchpoint := { addr := p.addr, size := p.length }

/-- The byte is one of `length` bytes from `addr` on. -/
def contains (p : Point) (a : U32) : Prop :=
  p.addr.toNat ≤ a.toNat ∧ a.toNat < p.addr.toNat + p.length.toNat

instance (p : Point) (a : U32) : Decidable (p.contains a) := inferInstanceAs (Decidable (_ ∧ _))

/-- The range ends before the end of the address space. -/
def fits (p : Point) : Bool := decide (p.addr.toNat + p.length.toNat < 2 ^ 32)

/-- What an insertion does to the lists. -/
def insert (p : Point) (s : Or1k σ) : Or1k σ :=
  match p.kind with
  | .software | .hardware => s.insertBreakpoint p.addr
  | .write => s.insertWatchpoint true p.range
  | .read => s.insertWatchpoint false p.range
  | .access => (s.insertWatchpoint true p.range).insertWatchpoint false p.range

/-- What a removal does to the lists. -/
def remove (p : Point) (s : Or1k σ) : Or1k σ :=
  match p.kind with
  | .software | .hardware => s.removeBreakpoint p.addr
  | .write => s.removeWatchpoint true p.range
  | .read => s.removeWatchpoint false p.range
  | .access => (s.removeWatchpoint true p.range).removeWatchpoint false p.range

/-- Both are breakpoints of one address, or watch accesses of one kind in ranges that overlap. -/
def meets (p q : Point) : Bool :=
  (p.kind.breaks && q.kind.breaks && q.addr == p.addr) ||
    ((p.kind.watches true && q.kind.watches true || p.kind.watches false && q.kind.watches false) &&
      q.range.overlaps p.addr p.length)

end Point

/-! ## The lists -/

namespace Or1k

def watchpoints (s : Or1k σ) (write : Bool) : List Watchpoint :=
  if write then s.watchpointsW else s.watchpointsR

/-- An access of the program to one byte hits a watchpoint. -/
def covered (s : Or1k σ) (write : Bool) (a : U32) : Bool :=
  s.toCore.hitsWatchpoint
    { Request.init s.env.hostEndian with read := !write, addr := a, data := [], size := 1 }

end Or1k

namespace Point

open Or1k

variable {p q : Point} {s : Or1k σ} {a : U32} {wp : Watchpoint} {write : Bool}

theorem mem_insertBreakpoint {b : U32} :
    a ∈ (s.insertBreakpoint b).breakpoints ↔ a = b ∨ a ∈ s.breakpoints := by
  unfold insertBreakpoint
  split
  · rename_i hb
    have hb : b ∈ s.breakpoints := by simpa using hb
    exact ⟨.inr, fun h => h.elim (fun he => he ▸ hb) id⟩
  · simp [or_comm]

theorem mem_removeBreakpoint {b : U32} :
    a ∈ (s.removeBreakpoint b).breakpoints ↔ a ∈ s.breakpoints ∧ a ≠ b := by
  unfold removeBreakpoint
  simp

theorem mem_insertWatchpoint {w : Bool} {v : Watchpoint} :
    wp ∈ (s.insertWatchpoint w v).watchpoints write ↔
      (w = write ∧ wp = v) ∨ wp ∈ s.watchpoints write := by
  unfold insertWatchpoint watchpoints
  cases w <;> cases write <;> simp [or_comm]

theorem mem_removeWatchpoint {w : Bool} {v : Watchpoint} :
    wp ∈ (s.removeWatchpoint w v).watchpoints write ↔
      wp ∈ s.watchpoints write ∧ (w = write → wp.overlaps v.addr v.size = false) := by
  unfold removeWatchpoint watchpoints
  cases w <;> cases write <;> simp

theorem insert_breakpoints : a ∈ (p.insert s).breakpoints ↔
    (p.kind.breaks = true ∧ p.addr = a) ∨ a ∈ s.breakpoints := by
  unfold insert
  cases p.kind with
  | software | hardware =>
    dsimp only
    rw [mem_insertBreakpoint]
    simp [PointKind.breaks, eq_comm]
  | write | read | access => simp [insertWatchpoint, PointKind.breaks]

theorem remove_breakpoints : a ∈ (p.remove s).breakpoints ↔
    a ∈ s.breakpoints ∧ ¬(p.kind.breaks = true ∧ p.addr = a) := by
  unfold remove
  cases p.kind with
  | software | hardware =>
    dsimp only
    rw [mem_removeBreakpoint]
    simp [PointKind.breaks, eq_comm]
  | write | read | access => simp [removeWatchpoint, PointKind.breaks]

theorem insert_watchpoints : wp ∈ (p.insert s).watchpoints write ↔
    (p.kind.watches write = true ∧ p.range = wp) ∨ wp ∈ s.watchpoints write := by
  unfold insert
  cases hk : p.kind with
  | software | hardware =>
    have he : (s.insertBreakpoint p.addr).watchpoints write = s.watchpoints write := by
      unfold insertBreakpoint
      split <;> rfl
    dsimp only
    rw [he]
    simp [PointKind.watches]
  | write | read | access =>
    dsimp only
    simp only [mem_insertWatchpoint]
    cases write <;> simp [PointKind.watches, eq_comm]

theorem remove_watchpoints : wp ∈ (p.remove s).watchpoints write ↔
    wp ∈ s.watchpoints write ∧
      (p.kind.watches write = true → wp.overlaps p.addr p.length = false) := by
  unfold remove
  cases hk : p.kind with
  | software | hardware =>
    have he : (s.removeBreakpoint p.addr).watchpoints write = s.watchpoints write := rfl
    dsimp only
    rw [he]
    simp [PointKind.watches]
  | write | read | access =>
    dsimp only
    simp only [mem_removeWatchpoint]
    cases write <;> simp [PointKind.watches, range]

/-- A range overlaps itself unless it is empty. -/
theorem overlaps_self (hf : p.fits = true) (hl : p.length ≠ 0#32) :
    p.range.overlaps p.addr p.length = true := by
  have hf := of_decide_eq_true hf
  unfold Watchpoint.overlaps range
  simp only [Bool.and_eq_true, decide_eq_true_iff]
  constructor <;> bv_omega

theorem overlaps_byte (hf : p.fits = true) : p.range.overlaps a 1#32 = true ↔ p.contains a := by
  have hf := of_decide_eq_true hf
  unfold Watchpoint.overlaps range contains
  rw [Bool.and_eq_true, decide_eq_true_iff, decide_eq_true_iff]
  constructor
  · rintro ⟨h1, h2⟩
    constructor <;> bv_omega
  · rintro ⟨h1, h2⟩
    constructor <;> bv_omega

end Point

/-! ## What a client has installed -/

/-- The object that a command inserts, or removes. -/
def asked (c : Char) (command : List U8) : Option Point := do
  let (type, addr, length) ← Gdb.scanPoint c (cstr (command ++ [0#8]))
  let kind ← PointKind.ofType type
  some { kind := kind, addr := addr, length := length }

/-- The objects behind a command: the same object is removed however often it has been inserted. -/
def note (points : List Point) (command : List U8) : List Point :=
  match asked 'Z' command, asked 'z' command with
  | some p, _ => p :: points
  | none, some p => points.filter fun q => decide (q ≠ p)
  | none, none => points

/-- The lists hold what is installed; an empty range is in none or in one. -/
structure Shows (s : Or1k σ) (points : List Point) : Prop where
  fits : ∀ p ∈ points, p.kind.breaks = false → p.fits = true
  breakpoint : ∀ a, a ∈ s.breakpoints ↔ ∃ p ∈ points, p.kind.breaks = true ∧ p.addr = a
  watchpoint : ∀ write wp, wp.size ≠ 0#32 →
    (wp ∈ s.watchpoints write ↔ ∃ p ∈ points, p.kind.watches write = true ∧ p.range = wp)

namespace Shows

open Point

variable {s : Or1k σ} {points : List Point} {p : Point}

theorem insert (h : Shows s points) (hp : p.kind.breaks = false → p.fits = true) :
    Shows (p.insert s) (p :: points) where
  fits := fun q hq => (List.mem_cons.1 hq).elim (fun he => he ▸ hp) (h.fits q)
  breakpoint := fun a => by
    rw [insert_breakpoints, h.breakpoint a]
    simp only [List.mem_cons, exists_eq_or_imp]
  watchpoint := fun write wp hwp => by
    rw [insert_watchpoints, h.watchpoint write wp hwp]
    simp only [List.mem_cons, exists_eq_or_imp]

/-- Nothing else is lost where the object meets no other. -/
theorem remove (h : Shows s points) (hp : ∀ q ∈ points, p.meets q = true → q = p) :
    Shows (p.remove s) (points.filter fun q => decide (q ≠ p)) where
  fits := fun q hq => h.fits q (List.mem_filter.1 hq).1
  breakpoint := fun a => by
    rw [remove_breakpoints, h.breakpoint a]
    constructor
    · rintro ⟨⟨q, hq, hb, ha⟩, hn⟩
      refine ⟨q, List.mem_filter.2 ⟨hq, decide_eq_true fun he => hn ?_⟩, hb, ha⟩
      exact he ▸ ⟨hb, ha⟩
    · rintro ⟨q, hq, hb, ha⟩
      obtain ⟨hq, hne⟩ := List.mem_filter.1 hq
      refine ⟨⟨q, hq, hb, ha⟩, fun ⟨hpb, hpa⟩ => of_decide_eq_true hne (hp q hq ?_)⟩
      simp [meets, hb, hpb, ha, hpa]
  watchpoint := fun write wp hwp => by
    rw [remove_watchpoints, h.watchpoint write wp hwp]
    constructor
    · rintro ⟨⟨q, hq, hw, hr⟩, hn⟩
      refine ⟨q, List.mem_filter.2 ⟨hq, decide_eq_true fun he => ?_⟩, hw, hr⟩
      subst he
      have hself := overlaps_self (h.fits q hq (PointKind.breaks_of_watches hw)) (by
        rw [← hr] at hwp
        exact hwp)
      rw [hr, hn hw] at hself
      cases hself
    · rintro ⟨q, hq, hw, hr⟩
      obtain ⟨hq, hne⟩ := List.mem_filter.1 hq
      refine ⟨⟨q, hq, hw, hr⟩, fun hpw => eq_false_of_ne_true fun ho => ?_⟩
      refine of_decide_eq_true hne (hp q hq ?_)
      rw [← hr] at ho
      unfold meets
      cases write <;> simp [hw, hpw, ho]

/-- The bytes at which an access stops. -/
theorem covered_iff (h : Shows s points) (write : Bool) (a : U32) :
    s.covered write a = true ↔ ∃ p ∈ points, p.kind.watches write = true ∧ p.contains a := by
  have hany : s.covered write a = (s.watchpoints write).any (·.overlaps a 1#32) := by
    cases write <;> rfl
  rw [hany, List.any_eq_true]
  constructor
  · rintro ⟨wp, hwp, ho⟩
    have hne : wp.size ≠ 0#32 := fun h0 => by
      unfold Watchpoint.overlaps at ho
      rw [h0] at ho
      simp only [Bool.and_eq_true, decide_eq_true_iff] at ho
      bv_omega
    obtain ⟨p, hp, hw, rfl⟩ := (h.watchpoint write wp hne).1 hwp
    exact ⟨p, hp, hw, (overlaps_byte (h.fits p hp (PointKind.breaks_of_watches hw))).1 ho⟩
  · rintro ⟨p, hp, hw, hc⟩
    have hne : p.range.size ≠ 0#32 := fun h0 => by
      have hl : p.length = 0#32 := h0
      unfold contains at hc
      rw [hl] at hc
      exact absurd hc.2 (by simp; exact hc.1)
    exact ⟨p.range, (h.watchpoint write _ hne).2 ⟨p, hp, hw, rfl⟩,
      (overlaps_byte (h.fits p hp (PointKind.breaks_of_watches hw))).2 hc⟩

end Shows

/-! ## Packets -/

namespace Gdb

section Handlers

variable {P : Gdb σ → Prop} {g : Gdb σ} {command : List U8}

/-- The cases of a handler are those of `PointKind`. -/
theorem cases_ofType {α : Type} (type : U32) (f : PointKind → α) (z : α)
    (hf : f .software = f .hardware) :
    (if type = 0#32 ∨ type = 1#32 then f .software else if type = 2#32 then f .write
      else if type = 3#32 then f .read else if type = 4#32 then f .access else z) =
      (PointKind.ofType type).elim z f := by
  unfold PointKind.ofType
  by_cases h0 : type = 0#32
  · rw [if_pos (.inl h0), if_pos h0]
    rfl
  · by_cases h1 : type = 1#32
    · rw [if_pos (.inr h1), if_neg h0, if_pos h1]
      exact hf
    · rw [if_neg (fun h => h.elim h0 h1), if_neg h0, if_neg h1]
      split
      · rfl
      · split
        · rfl
        · split <;> rfl

/-- The handler of `Z` inserts the object; without one it throws. -/
theorem handleBreakpointSet_asked (g : Gdb σ) (command : List U8) :
    g.handleBreakpointSet (command ++ [0#8]) = (asked 'Z' command).elim (.throw g)
      fun p => (g.withCpu (p.insert g.cpu)).send (ascii "OK") := by
  unfold handleBreakpointSet asked
  cases scanPoint 'Z' (cstr (command ++ [0#8])) with
  | none => rfl
  | some x =>
    obtain ⟨type, addr, length⟩ := x
    refine (cases_ofType type
      (fun kind => (g.withCpu (Point.insert ⟨kind, addr, length⟩ g.cpu)).send (ascii "OK"))
      (.throw g) rfl).trans ?_
    cases hk : PointKind.ofType type <;> simp [hk]

/-- The handler of `z` removes it. -/
theorem handleBreakpointDelete_asked (g : Gdb σ) (command : List U8) :
    g.handleBreakpointDelete (command ++ [0#8]) = (asked 'z' command).elim (.throw g)
      fun p => (g.withCpu (p.remove g.cpu)).send (ascii "OK") := by
  unfold handleBreakpointDelete asked
  cases scanPoint 'z' (cstr (command ++ [0#8])) with
  | none => rfl
  | some x =>
    obtain ⟨type, addr, length⟩ := x
    refine (cases_ofType type
      (fun kind => (g.withCpu (Point.remove ⟨kind, addr, length⟩ g.cpu)).send (ascii "OK"))
      (.throw g) rfl).trans ?_
    cases hk : PointKind.ofType type <;> simp [hk]

theorem asked_other {c d : Char} (h : command.headD 0#8 = chr d) (hd : chr d ≠ 0#8)
    (hne : chr d ≠ chr c) : asked c command = none := by
  cases command with
  | nil => exact absurd h.symm hd
  | cons e rest =>
    have he : e = chr d := h
    subst he
    have hs : cstr (chr d :: rest ++ [0#8]) = chr d :: cstr (rest ++ [0#8]) :=
      List.takeWhile_cons_of_pos (bne_iff_ne.2 hd)
    unfold asked scanPoint
    rw [hs]
    simp only [scanChar, if_neg hne, Option.bind_eq_bind, Option.bind_none]

end Handlers

/-! ## Runs -/

section Run

variable [EnvImpl σ] {g g' : Gdb σ} {points : List Point} {command : List U8}

/-- The stub that handles one packet after the other. -/
def packets : System (Gdb σ) (List U8) where
  next g command := (g.execute command).value?

/-- A `Z` packet whose range ends before the end of the address space, or a `z` packet for an object
that no other installed object meets. -/
structure Undisturbed (points : List Point) (command : List U8) : Prop where
  packet : command.headD 0#8 = chr 'Z' ∨ command.headD 0#8 = chr 'z'
  fits : ∀ p, asked 'Z' command = some p → p.kind.breaks = false → p.fits = true
  alone : ∀ p, asked 'z' command = some p → ∀ q ∈ points, p.meets q = true → q = p

def undisturbed (points : List Point) (command : List U8) : Bool :=
  (command.headD 0#8 == chr 'Z' || command.headD 0#8 == chr 'z') &&
    (asked 'Z' command).all (fun p => p.kind.breaks || p.fits) &&
      (asked 'z' command).all fun p => points.all fun q => !p.meets q || q == p

theorem Undisturbed.of_undisturbed (h : undisturbed points command = true) :
    Undisturbed points command := by
  simp only [undisturbed, Bool.and_eq_true, Bool.or_eq_true, beq_iff_eq, Option.all_eq_true,
    List.all_eq_true, Bool.not_eq_true'] at h
  obtain ⟨⟨hpacket, hfits⟩, halone⟩ := h
  refine ⟨hpacket, fun p hp hb => (hfits p hp).resolve_left ?_, fun p hp q hq hm => ?_⟩
  · rw [hb]
    exact Bool.false_ne_true
  · refine (halone p hp q hq).resolve_left ?_
    rw [hm]
    exact Bool.noConfusion

/-- A packet does to the lists what it does to the objects. -/
theorem execute_shows (h : Shows g.cpu points) (hc : Undisturbed points command)
    (hg : g.execute command = .ok g') : Shows g'.cpu (note points command) := by
  suffices hends : Outcome.Ends (fun x : Gdb σ => Shows x.cpu (note points command))
      (fun x => Shows x.cpu (note points command)) (g.execute command) by
    rw [hg] at hends
    cases hends with
    | ok hx => exact hx
  rcases hc.packet with hz | hz
  · have hother : asked 'z' command = none := asked_other hz (by decide) (by decide)
    refine execute_handled (h := ('Z', handleBreakpointSet)) (fun x text hx => send_ends (fun r => hx) text)
      (by rw [hz]; rfl) ?_
    unfold note
    dsimp only
    rw [handleBreakpointSet_asked, hother]
    cases hp : asked 'Z' command with
    | none => exact .throw h
    | some p => exact send_ends (fun r => h.insert (hc.fits p hp)) _
  · have hother : asked 'Z' command = none := asked_other hz (by decide) (by decide)
    refine execute_handled (h := ('z', handleBreakpointDelete)) (fun x text hx => send_ends (fun r => hx) text)
      (by rw [hz]; rfl) ?_
    unfold note
    dsimp only
    rw [handleBreakpointDelete_asked, hother]
    cases hp : asked 'z' command with
    | none => exact .throw h
    | some p => exact send_ends (fun r => h.remove (hc.alone p hp)) _

/-- After any number of undisturbed packets an address is a breakpoint, and a byte is covered, if
and only if an object that is installed says so. -/
theorem points_shown (hb : g.cpu.breakpoints = []) (hw : ∀ write, g.cpu.watchpoints write = [])
    (h : (packets.watch fun points m => note points m.act).Steps (fun x command => Undisturbed x.2 command)
      (g, []) (g', points)) :
    (∀ a, a ∈ g'.cpu.breakpoints ↔ ∃ p ∈ points, p.kind.breaks = true ∧ p.addr = a) ∧
      ∀ write a, g'.cpu.covered write a = true ↔
        ∃ p ∈ points, p.kind.watches write = true ∧ p.contains a := by
  have h0 : Shows g.cpu [] := by
    refine ⟨fun p hp => (List.not_mem_nil hp).elim, fun a => ?_, fun write wp _ => ?_⟩
    · rw [hb]
      simp
    · rw [hw]
      simp
  have hshow : Shows g'.cpu points := by
    refine h.invariant (P := fun x => Shows x.1.cpu x.2) (fun x command y hx hok hn => ?_) h0
    obtain ⟨g'', hg, rfl⟩ := System.watch_next hn
    exact execute_shows hx hok (Outcome.value?_eq_some.1 hg)
  exact ⟨hshow.breakpoint, hshow.covered_iff⟩

end Run

section Plain

attribute [local instance] HostLib.plain

def pointPackets (packets : List String) : List (List U8) := packets.map fun text => ascii text ++ [0#8]

/-- Two watchpoints for writes share two bytes; without the first one, the second one is gone. -/
theorem points_shown_fails : ∃ (g g' : Gdb Memory) (points : List Point),
    g.cpu.breakpoints = [] ∧ (∀ write, g.cpu.watchpoints write = []) ∧
    (packets.watch fun points m => note points m.act).Steps
      (fun _ command => (asked 'Z' command).isSome = true ∨ (asked 'z' command).isSome = true)
      (g, []) (g', points) ∧
    (∃ p ∈ points, p.kind.watches true = true ∧ p.contains 5#32) ∧
    g'.cpu.covered true 5#32 = false := by
  obtain ⟨⟨g', points⟩, hrun, hne⟩ := (packets.watch fun points m => note points m.act).exists_steps
    (fun _ command => (asked 'Z' command).isSome || (asked 'z' command).isSome)
    (connected [], []) (pointPackets ["Z2,0,4", "Z2,2,4", "z2,0,4"])
    (fun x => decide ((∃ p ∈ x.2, p.kind.watches true = true ∧ p.contains 5#32) ∧
      x.1.cpu.covered true 5#32 = false)) (by decide +kernel)
  exact ⟨connected [], g', points, rfl, fun write => by cases write <;> rfl,
    hrun.mono fun _ _ h => by simpa using h, of_decide_eq_true hne⟩

/-- Watchpoints that share nothing are inserted and removed. -/
theorem points_shown_apart : ∃ (g' : Gdb Memory) (points : List Point),
    points = [{ kind := .access, addr := 0#32, length := 4#32 }] ∧
    (∀ a, a ∈ g'.cpu.breakpoints ↔ ∃ p ∈ points, p.kind.breaks = true ∧ p.addr = a) ∧
      ∀ write a, g'.cpu.covered write a = true ↔
        ∃ p ∈ points, p.kind.watches write = true ∧ p.contains a := by
  obtain ⟨⟨g', points⟩, hrun, hpoints⟩ := (packets.watch fun points m => note points m.act).exists_steps
    (fun x command => undisturbed x.2 command) (connected [], [])
    (pointPackets ["Z1,100,4", "Z4,0,4", "Z2,4,4", "z1,100,4", "z2,4,4"])
    (fun x => decide (x.2 = [{ kind := .access, addr := 0#32, length := 4#32 }])) (by decide +kernel)
  exact ⟨g', points, of_decide_eq_true hpoints, points_shown (g := connected []) rfl
    (fun write => by cases write <;> rfl) (hrun.mono fun _ _ h => .of_undisturbed h)⟩

end Plain

end Gdb

end Or1kiss
