import Mathlib.Logic.Relation

/-!
# Outcomes of a host computation

A function of a C++ program on a state of type `S` ends in a value, in a thrown
exception (the state is what unwinding leaves behind), or in a fault of the host:
undefined behaviour, after which nothing is known. `Outcome S` is the monad of such
results; `bind_eq_ok` takes a successful computation apart.
-/

namespace Host

/-- Why the host has no next state. -/
inductive Fault where
  | stackOverflow
  | badPointer
  | badIndex
  | intTrap
  deriving DecidableEq, Repr

inductive Outcome (S α : Type) where
  | ok (a : α)
  | throw (s : S)
  | fault (f : Fault)

namespace Outcome

variable {S T α β γ : Type}

def bind (x : Outcome S α) (f : α → Outcome S β) : Outcome S β :=
  match x with
  | .ok a => f a
  | .throw s => .throw s
  | .fault e => .fault e

instance : Monad (Outcome S) where
  pure := .ok
  bind := bind

/-- Push a result into a larger state: `g` places values, `k` places thrown states. -/
def lift (k : S → T) (g : α → β) : Outcome S α → Outcome T β
  | .ok a => .ok (g a)
  | .throw s => .throw (k s)
  | .fault e => .fault e

/-- The value, if there is one. -/
def value? : Outcome S α → Option α
  | .ok a => some a
  | _ => none

/-- A computation that throws nothing, inside one that may. -/
def widen (x : Outcome Empty α) : Outcome S α := x.lift Empty.elim id

@[simp] theorem pure_eq (a : α) : (pure a : Outcome S α) = .ok a := rfl
@[simp] theorem ok_bind (a : α) (f : α → Outcome S β) : (Outcome.ok a >>= f) = f a := rfl
@[simp] theorem throw_bind (s : S) (f : α → Outcome S β) : (Outcome.throw s >>= f) = .throw s := rfl
@[simp] theorem fault_bind (e : Fault) (f : α → Outcome S β) :
    (Outcome.fault e >>= f) = .fault e := rfl

/-- A successful sequence is two successful computations. -/
theorem bind_eq_ok {x : Outcome S α} {f : α → Outcome S β} {b : β} :
    (x >>= f) = .ok b ↔ ∃ a, x = .ok a ∧ f a = .ok b := by
  cases x <;> simp

/-- A sequence throws in its first part, or in its second after the first succeeded. -/
theorem bind_eq_throw {x : Outcome S α} {f : α → Outcome S β} {s : S} :
    (x >>= f) = .throw s ↔ x = .throw s ∨ ∃ a, x = .ok a ∧ f a = .throw s := by
  cases x <;> simp

@[simp] theorem lift_ok (k : S → T) (g : α → β) (a : α) : (Outcome.ok a).lift k g = .ok (g a) := rfl
@[simp] theorem lift_throw (k : S → T) (g : α → β) (s : S) :
    (Outcome.throw s : Outcome S α).lift k g = .throw (k s) := rfl
@[simp] theorem lift_fault (k : S → T) (g : α → β) (e : Fault) :
    (Outcome.fault e : Outcome S α).lift k g = .fault e := rfl

theorem lift_eq_ok {k : S → T} {g : α → β} {x : Outcome S α} {b : β} :
    x.lift k g = .ok b ↔ ∃ a, x = .ok a ∧ g a = b := by
  cases x <;> simp

theorem widen_eq_ok {x : Outcome Empty α} {a : α} :
    (x.widen : Outcome S α) = .ok a ↔ x = .ok a := by
  rw [widen, lift_eq_ok]; simp

theorem value?_eq_some {x : Outcome S α} {a : α} : x.value? = some a ↔ x = .ok a := by
  cases x <;> simp [value?]

theorem lift_ne_throw {k : Empty → T} {g : α → β} {x : Outcome Empty α} {t : T} :
    x.lift k g ≠ .throw t := by
  cases x with
  | ok a => simp
  | throw e => exact e.elim
  | fault f => simp

theorem lift_eq_throw {k : S → T} {g : α → β} {x : Outcome S α} {t : T} :
    x.lift k g = .throw t ↔ ∃ s, x = .throw s ∧ k s = t := by
  cases x <;> simp

/-! ## Absence of a fault -/

/-- The computation does not end in the fault `e`. -/
def Avoids (e : Fault) (x : Outcome S α) : Prop := x ≠ .fault e

variable {e : Fault}

theorem avoids_ok (a : α) : (Outcome.ok a : Outcome S α).Avoids e := nofun

theorem avoids_throw (s : S) : (Outcome.throw s : Outcome S α).Avoids e := nofun

theorem avoids_fault {f : Fault} (h : f ≠ e) : (Outcome.fault f : Outcome S α).Avoids e :=
  fun he => h (by cases he; rfl)

/-- A sequence avoids a fault if its parts do. -/
theorem Avoids.bind {x : Outcome S α} {f : α → Outcome S β} (h : x.Avoids e)
    (hf : ∀ a, x = .ok a → (f a).Avoids e) : (x >>= f).Avoids e := by
  cases x with
  | ok a => exact hf a rfl
  | throw s => exact avoids_throw s
  | fault g => exact avoids_fault fun hg => h (by rw [hg])

theorem Avoids.lift {x : Outcome S α} {k : S → T} {g : α → β} (h : x.Avoids e) :
    (x.lift k g).Avoids e := by
  cases x with
  | ok a => exact avoids_ok _
  | throw s => exact avoids_throw _
  | fault f => exact avoids_fault fun hf => h (by rw [hf])

/-! ## Where a computation ends -/

/-- The value is as in `Q`, or the state that is thrown as in `P`. -/
inductive Ends (P : S → Prop) (Q : α → Prop) : Outcome S α → Prop where
  | ok {a : α} (h : Q a) : Ends P Q (.ok a)
  | throw {s : S} (h : P s) : Ends P Q (.throw s)
  | fault (f : Fault) : Ends P Q (.fault f)

section Ends

variable {P P₁ : S → Prop} {P' : T → Prop} {Q Q₁ : α → Prop} {R : β → Prop}

theorem Ends.mono {x : Outcome S α} (h : Ends P Q x) (hp : ∀ s, P s → P₁ s) (hq : ∀ a, Q a → Q₁ a) :
    Ends P₁ Q₁ x := by
  cases h with
  | ok h => exact .ok (hq _ h)
  | throw h => exact .throw (hp _ h)
  | fault e => exact .fault e

theorem Ends.bind {x : Outcome S α} {f : α → Outcome S β} (h : Ends P Q x)
    (hf : ∀ a, Q a → Ends P R (f a)) : Ends P R (x >>= f) := by
  cases h with
  | ok h => exact hf _ h
  | throw h => exact .throw h
  | fault e => exact .fault e

theorem Ends.lift {x : Outcome S α} {k : S → T} {g : α → β} (h : Ends P Q x)
    (hk : ∀ s, P s → P' (k s)) (hg : ∀ a, Q a → R (g a)) : Ends P' R (x.lift k g) := by
  cases h with
  | ok h => exact .ok (hg _ h)
  | throw h => exact .throw (hk _ h)
  | fault e => exact .fault e

/-- Every outcome ends somewhere. -/
theorem ends_trivial (x : Outcome S α) : Ends (fun _ => True) (fun _ => True) x := by
  cases x with
  | ok a => exact .ok trivial
  | throw s => exact .throw trivial
  | fault f => exact .fault f

theorem ends_of {x : Outcome S α} (hq : ∀ a, x = .ok a → Q a) (hp : ∀ s, x = .throw s → P s) :
    Ends P Q x := by
  cases x with
  | ok a => exact .ok (hq a rfl)
  | throw s => exact .throw (hp s rfl)
  | fault f => exact .fault f

theorem Ends.of_ok {x : Outcome S α} {a : α} (h : Ends P Q x) (hx : x = .ok a) : Q a := by
  subst hx
  cases h with
  | ok h => exact h

theorem Ends.of_throw {x : Outcome S α} {s : S} (h : Ends P Q x) (hx : x = .throw s) : P s := by
  subst hx
  cases h with
  | throw h => exact h

end Ends

/-! ## Related outcomes -/

/-- Outcomes of one kind: related values, related thrown states, or the same fault. -/
inductive Both (Q : S → T → Prop) (R : α → β → Prop) : Outcome S α → Outcome T β → Prop where
  | ok {a : α} {b : β} (h : R a b) : Both Q R (.ok a) (.ok b)
  | throw {s : S} {t : T} (h : Q s t) : Both Q R (.throw s) (.throw t)
  | fault (f : Fault) : Both Q R (.fault f) (.fault f)

section Both

variable {S' T' γ' : Type} {Q : S → T → Prop} {R : α → β → Prop} {R' : γ → γ' → Prop}

theorem Both.bind {x : Outcome S α} {y : Outcome T β} {f : α → Outcome S γ} {g : β → Outcome T γ'}
    (h : Both Q R x y) (hf : ∀ a b, R a b → Both Q R' (f a) (g b)) :
    Both Q R' (x >>= f) (y >>= g) := by
  cases h with
  | ok h => exact hf _ _ h
  | throw h => exact .throw h
  | fault e => exact .fault e

theorem Both.mono {Q' : S → T → Prop} {R₁ : α → β → Prop} {x : Outcome S α} {y : Outcome T β}
    (h : Both Q R x y) (hq : ∀ s t, Q s t → Q' s t) (hr : ∀ a b, R a b → R₁ a b) :
    Both Q' R₁ x y := by
  cases h with
  | ok h => exact .ok (hr _ _ h)
  | throw h => exact .throw (hq _ _ h)
  | fault e => exact .fault e

/-- Both sides begin with the same computation. -/
theorem Both.bind_same {Q : S → S → Prop} (hQ : ∀ s, Q s s) (x : Outcome S α)
    {f : α → Outcome S γ} {g : α → Outcome S γ'} (hf : ∀ a, Both Q R' (f a) (g a)) :
    Both Q R' (x >>= f) (x >>= g) := by
  cases x with
  | ok a => exact hf a
  | throw s => exact .throw (hQ s)
  | fault e => exact .fault e

theorem Both.lift {Q' : S' → T' → Prop} {x : Outcome S α} {y : Outcome T β} {k : S → S'}
    {l : T → T'} {f : α → γ} {g : β → γ'} (h : Both Q R x y) (hk : ∀ s t, Q s t → Q' (k s) (l t))
    (hf : ∀ a b, R a b → R' (f a) (g b)) : Both Q' R' (x.lift k f) (y.lift l g) := by
  cases h with
  | ok h => exact .ok (hf _ _ h)
  | throw h => exact .throw (hk _ _ h)
  | fault e => exact .fault e

end Both

end Outcome

end Host
