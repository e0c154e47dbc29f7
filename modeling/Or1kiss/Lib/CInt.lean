import Mathlib.Algebra.Ring.Int.Defs
import Or1kiss.Lib.Outcome

/-!
# Integer operations of C++

Operations on machine words that C++ does not define for all operands: signed sums, differences,
products and quotients whose value the type does not have, divisions by zero, shifts by a negative
amount or by the width and more, and shifts to the left that push a signed value out of the
unsigned type of its width. `Checked` computations keep a record of the operations that they
perform, up to the fault that ends them; `Defined` says of a computation that C++ defines all of
them.
-/

namespace CInt

open Host Outcome

/-- An operation and its operands. -/
inductive Op where
  | add {w : Nat} (a b : BitVec w)
  | sub {w : Nat} (a b : BitVec w)
  | mul {w : Nat} (a b : BitVec w)
  | div {w : Nat} (a b : BitVec w)
  /-- An unsigned division. -/
  | udiv {w : Nat} (b : BitVec w)
  /-- A shift of an unsigned value, or to the right. -/
  | shift (w : Nat) (n : Int)
  /-- A signed value to the left. -/
  | shl {w : Nat} (a : BitVec w) (n : Int)

/-- C++ defines the operation on these operands. -/
def Op.Defined : Op → Prop
  | .add a b => a.saddOverflow b = false
  | .sub a b => a.ssubOverflow b = false
  | .mul a b => a.smulOverflow b = false
  | .div (w := w) a b => b ≠ 0#w ∧ a.sdivOverflow b = false
  | .udiv (w := w) b => b ≠ 0#w
  | .shift w n => 0 ≤ n ∧ n < w
  | .shl (w := w) a n => 0 ≤ n ∧ n < w ∧ 0 ≤ a.toInt ∧ a.toInt * 2 ^ n.toNat < 2 ^ w

variable {S α β : Type} {w : Nat}

/-- A computation and the operations that it performs. -/
structure Checked (S α : Type) where
  ops : List Op
  out : Outcome S α

namespace Checked

def bind (x : Checked S α) (f : α → Checked S β) : Checked S β :=
  match x.out with
  | .ok a => { ops := x.ops ++ (f a).ops, out := (f a).out }
  | .throw s => { ops := x.ops, out := .throw s }
  | .fault e => { ops := x.ops, out := .fault e }

instance : Monad (Checked S) where
  pure a := { ops := [], out := .ok a }
  bind := bind

/-- A computation without such operations. -/
def lift (x : Outcome S α) : Checked S α := { ops := [], out := x }

/-- An operation with its value. -/
def perform (o : Op) (v : α) : Checked S α := { ops := [o], out := .ok v }

/-- C++ defines all operations. -/
def Defined (x : Checked S α) : Prop := ∀ o ∈ x.ops, o.Defined

@[simp] theorem out_bind (x : Checked S α) (f : α → Checked S β) :
    (x >>= f).out = x.out >>= fun a => (f a).out := by
  obtain ⟨l, o⟩ := x
  cases o <;> rfl

@[simp] theorem out_lift (x : Outcome S α) : (lift x).out = x := rfl
@[simp] theorem out_perform (o : Op) (v : α) : (perform o v : Checked S α).out = .ok v := rfl
@[simp] theorem out_pure (a : α) : (pure a : Checked S α).out = .ok a := rfl

theorem defined_lift (x : Outcome S α) : (lift x).Defined := fun _ h => (List.not_mem_nil h).elim

theorem defined_pure (a : α) : (pure a : Checked S α).Defined := defined_lift (.ok a)

theorem defined_perform {o : Op} {v : α} : (perform o v : Checked S α).Defined ↔ o.Defined :=
  List.forall_mem_singleton (p := Op.Defined)

/-- A sequence whose first part succeeds. -/
theorem defined_bind {x : Checked S α} {f : α → Checked S β} {a : α} (h : x.out = .ok a) :
    (x >>= f).Defined ↔ x.Defined ∧ (f a).Defined := by
  obtain ⟨l, o⟩ := x
  cases h
  exact List.forall_mem_append

/-- A sequence is defined if its parts are. -/
theorem Defined.bind {x : Checked S α} {f : α → Checked S β} (h : x.Defined)
    (hf : ∀ a, x.out = .ok a → (f a).Defined) : (x >>= f).Defined := by
  obtain ⟨l, o⟩ := x
  cases o with
  | ok a => exact (defined_bind rfl).2 ⟨h, hf a rfl⟩
  | throw s => exact h
  | fault e => exact h

theorem Defined.left {x : Checked S α} {f : α → Checked S β} (h : (x >>= f).Defined) :
    x.Defined := by
  obtain ⟨l, o⟩ := x
  cases o with
  | ok a => exact ((defined_bind rfl).1 h).1
  | throw s => exact h
  | fault e => exact h

/-- A first part without such operations. -/
theorem defined_lift_bind {x : Outcome S α} {f : α → Checked S β} {a : α} (h : x = .ok a) :
    (lift x >>= f).Defined ↔ (f a).Defined :=
  (defined_bind h).trans (and_iff_right (defined_lift x))

/-- A first part that performs one. -/
theorem defined_perform_bind {o : Op} {v : α} {f : α → Checked S β} :
    (perform o v >>= f).Defined ↔ o.Defined ∧ (f v).Defined :=
  (defined_bind rfl).trans (and_congr_left' defined_perform)

end Checked

/-! ## Operators -/

open Checked

def add (a b : BitVec w) : Checked S (BitVec w) := perform (.add a b) (a + b)
def sub (a b : BitVec w) : Checked S (BitVec w) := perform (.sub a b) (a - b)
def mul (a b : BitVec w) : Checked S (BitVec w) := perform (.mul a b) (a * b)

/-- A signed quotient; without one the host traps. -/
def div (a b : BitVec w) : Checked S (BitVec w) :=
  { ops := [.div a b]
    out := if b = 0#w ∨ a.sdivOverflow b then .fault .intTrap else .ok (a.sdiv b) }

/-- An unsigned quotient; without one the host traps. -/
def udiv (a b : BitVec w) : Checked S (BitVec w) :=
  { ops := [.udiv b], out := if b = 0#w then .fault .intTrap else .ok (a / b) }

/-- A signed value to the left. -/
def shl (a : BitVec w) (n : Nat) : Checked S (BitVec w) := perform (.shl a n) (a <<< n)

/-- An unsigned value to the left. -/
def ushl (a : BitVec w) (n : Nat) : Checked S (BitVec w) := perform (.shift w n) (a <<< n)

/-- An unsigned value to the right. -/
def ushr (a : BitVec w) (n : Nat) : Checked S (BitVec w) := perform (.shift w n) (a >>> n)

/-- A signed value to the right. -/
def sshr (a : BitVec w) (n : Nat) : Checked S (BitVec w) := perform (.shift w n) (a.sshiftRight n)

theorem defined_shift {n : Nat} : (Op.shift w n).Defined ↔ n < w :=
  (and_iff_right (Int.natCast_nonneg n)).trans Int.ofNat_lt

end CInt
