import Mathlib.Logic.Basic

/-!
# Delayed jumps

Control on a machine with one delay slot: a taken jump lets the instruction behind it pass
and then continues at its target. `Event` is what one step means for control, `Event.slot` the
jump it leaves in its delay slot, and `Event.Law` what it owes to the program counter.
-/

namespace DelaySlot

variable {w : Nat}

inductive Event (w : Nat) where
  /-- An instruction that is no jump. -/
  | plain
  /-- A taken jump. -/
  | jump (target : BitVec w)
  /-- Control goes where neither a jump nor the sequence of instructions takes it. -/
  | elsewhere
  /-- No instruction. -/
  | idle
  deriving DecidableEq

namespace Event

/-- The target of the jump whose delay slot comes next. -/
def slot (e : Event w) (due : Option (BitVec w)) : Option (BitVec w) :=
  match e with
  | .plain | .elsewhere => none
  | .jump target => some target
  | .idle => due

/-- Where the next instruction is, `k` being the size of one. Nothing is said about a jump in a
delay slot. -/
def Law (k : BitVec w) (e : Event w) (due : Option (BitVec w)) (pc pc' : BitVec w) : Prop :=
  match e with
  | .plain => pc' = due.getD (pc + k)
  | .jump _ => due = none → pc' = pc + k
  | .elsewhere => True
  | .idle => pc' = pc

variable {k pc pc' target : BitVec w} {due : Option (BitVec w)}

/-- A plain instruction obeys the law if control goes to the pending target exactly if one is
due, or to the same place anyway. -/
theorem law_plain_iff {taken : Bool} (ht : ∀ t, due = some t → target = t)
    (hp : pc' = if taken then target else pc + k) :
    Law k .plain due pc pc' ↔ ¬(target ≠ pc + k ∧ taken ≠ due.isSome) := by
  rw [hp]
  cases due with
  | none => cases taken <;> simp [Law]
  | some t =>
    have := ht t rfl
    subst this
    cases taken <;> simp [Law, eq_comm]

end Event

end DelaySlot
