import Or1kiss.Lib.Runs

/-!
# Machines with a delay slot

The instruction level of a machine with one delay slot, over any data: an instruction leaves new
data and may name a target, which becomes the program counter one instruction later. `Step` is one
instruction, `StepN` counts them. `Path.follows_steps` is the simulation argument for an
implementation that takes many steps of its own for each instruction.
-/

namespace DelaySlot

variable {w : Nat} {D : Type}

/-- Where the next instruction is, the jump that comes after it, and the data. -/
structure Config (w : Nat) (D : Type) where
  pc : BitVec w
  due : Option (BitVec w)
  data : D

namespace Config

/-- The configuration behind an instruction of size `k` that leaves `d` and jumps to `target`. A
jump in a delay slot has no meaning. -/
def after (k : BitVec w) (c : Config w D) (d : D) (target : Option (BitVec w)) :
    Option (Config w D) :=
  if c.due.isSome && target.isSome then none
  else some { pc := c.due.getD (c.pc + k), due := target, data := d }

theorem after_eq_some {k : BitVec w} {c c' : Config w D} {d : D} {target : Option (BitVec w)} :
    c.after k d target = some c' ↔ (c.due = none ∨ target = none) ∧
      c' = { pc := c.due.getD (c.pc + k), due := target, data := d } := by
  unfold after
  cases c.due <;> cases target <;> simp [eq_comm]

end Config

/-- Exactly `n` steps. -/
inductive StepN {T : Type} (step : T → T → Prop) : Nat → T → T → Prop where
  | refl (a : T) : StepN step 0 a a
  | tail {n : Nat} {a b c : T} (h : StepN step n a b) (hs : step b c) : StepN step (n + 1) a c

variable {T : Type} {step : T → T → Prop} {a b c : T} {n : Nat}

theorem stepN_zero_iff : StepN step 0 a b ↔ b = a :=
  ⟨fun h => by cases h; rfl, fun h => by rw [h]; exact .refl a⟩

theorem stepN_succ_iff : StepN step (n + 1) a c ↔ ∃ b, StepN step n a b ∧ step b c :=
  ⟨fun h => by cases h with | tail h hs => exact ⟨_, h, hs⟩, fun ⟨_, h, hs⟩ => .tail h hs⟩

theorem StepN.single (h : step a b) : StepN step 1 a b := .tail (.refl a) h

end DelaySlot

namespace Runs.System

open DelaySlot

variable {S A T : Type} {M : System S A} {R : S → T → Prop} {C : Move S A → Prop}
  {p : Move S A → Bool} {step : T → T → Prop} {s t : S} {l : List (Move S A)} {g g' : T}

/-- A run follows the steps of a machine of its own: one for each of the run's steps of a kind, and
none for the others. -/
theorem Path.follows_steps (hs : ∀ s a t g, M.next s a = some t → C ⟨s, a, t⟩ → R s g →
      if p ⟨s, a, t⟩ then ∀ g', step g g' → R t g' else R t g)
    (h : M.Path s l t) (hc : ∀ m ∈ l, C m) (h0 : R s g) (hg : StepN step (l.countP p) g g') :
    R t g' := by
  induction h generalizing g' with
  | refl =>
    rw [List.countP_nil, stepN_zero_iff] at hg
    exact hg ▸ h0
  | @tail l t u a _ hn ih =>
    have ih := fun g' => @ih g' fun m hm => hc m (List.mem_append_left _ hm)
    have hlast := hc _ (List.mem_append_right _ (List.mem_singleton_self _))
    rw [List.countP_append, List.countP_singleton] at hg
    cases hp : p ⟨t, a, u⟩ with
    | false =>
      rw [hp, if_neg Bool.false_ne_true, Nat.add_zero] at hg
      have hr := hs t a u g' hn hlast (ih g' hg)
      rwa [hp, if_neg Bool.false_ne_true] at hr
    | true =>
      rw [hp, if_pos rfl, stepN_succ_iff] at hg
      obtain ⟨b, hb, hstep⟩ := hg
      have hr := hs t a u b hn hlast (ih b hb)
      rw [hp, if_pos rfl] at hr
      exact hr g' hstep

/-- The steps of one kind are counted on the way. -/
theorem Steps.path_countP {ok : S × Nat → A → Prop} {q : S × Nat} {x : S} {n : Nat}
    (h : (M.watch fun n m => n + (p m).toNat).Steps ok (x, n) q) :
    ∃ l, M.Path x l q.1 ∧ q.2 = n + l.countP p ∧ ∀ m ∈ l, ∃ n, ok (m.pre, n) m.act := by
  induction h with
  | refl => exact ⟨[], .refl, rfl, fun m hm => (List.not_mem_nil hm).elim⟩
  | @tail b c _ hst ih =>
    obtain ⟨l, hl, hn, hok⟩ := ih
    obtain ⟨a, ha, hnext⟩ := hst
    obtain ⟨u, hu, rfl⟩ := watch_next hnext
    refine ⟨_, hl.tail hu, ?_, fun m hm => ?_⟩
    · rw [List.countP_append, List.countP_singleton, ← Nat.add_assoc, ← hn]
      cases p ⟨b.1, a, u⟩ <;> rfl
    · rcases List.mem_append.1 hm with hm | hm
      · exact hok m hm
      · rw [List.mem_singleton.1 hm]
        exact ⟨b.2, ha⟩

/-- An evaluated run whose steps of one kind have been counted. -/
theorem exists_path (M : System S A) (p : Move S A → Bool) (ok : S → A → Bool) (s : S) (as : List A)
    (n : Nat) (r : S → Bool) (h : ((M.watch fun n m => n + (p m).toNat).runsIf
      (fun q a => ok q.1 a) as (s, 0)).any (fun q => r q.1 && q.2 == n) = true) :
    ∃ l t, M.Path s l t ∧ l.countP p = n ∧ (∀ m ∈ l, ok m.pre m.act = true) ∧ r t = true := by
  obtain ⟨q, hq, hr⟩ := exists_steps _ _ _ _ _ h
  obtain ⟨l, hl, hn, hok⟩ := hq.path_countP
  rw [Bool.and_eq_true, beq_iff_eq] at hr
  refine ⟨l, q.1, hl, ?_, fun m hm => (hok m hm).choose_spec, hr.1⟩
  rw [← hr.2, hn, Nat.zero_add]

end Runs.System
