import Mathlib.Logic.Function.Iterate
import Mathlib.Logic.Relation

/-!
# Runs of a deterministic system

A system takes one action at a time; an action that is not possible has no next state.
`Steps ok` relates the ends of runs whose every step satisfies `ok`, and
`Steps.invariant` is the induction over such runs. `runsIf` evaluates a run for a list of
actions.
-/

namespace Runs

open Relation

structure System (S A : Type) where
  next : S → A → Option S

variable {S A : Type}

namespace System

variable (M : System S A)

/-- One step by an action that `ok` admits. -/
def Step (ok : S → A → Prop) (s t : S) : Prop := ∃ a, ok s a ∧ M.next s a = some t

/-- A run of admitted steps. -/
def Steps (ok : S → A → Prop) : S → S → Prop := ReflTransGen (M.Step ok)

/-- A run without restriction. -/
abbrev Run : S → S → Prop := M.Steps fun _ _ => True

/-- Take the actions of a list as long as they are admitted. -/
def runsIf (ok : S → A → Bool) : List A → S → Option S
  | [], s => some s
  | a :: as, s => if ok s a then (M.next s a).bind (runsIf ok as) else none

variable {M} {ok : S → A → Prop} {P : S → Prop} {s t u : S} {a : A}

theorem Steps.refl (s : S) : M.Steps ok s s := ReflTransGen.refl

theorem Steps.trans (h : M.Steps ok s t) (h' : M.Steps ok t u) : M.Steps ok s u :=
  ReflTransGen.trans h h'

theorem Steps.tail (h : M.Steps ok s t) (ha : ok t a) (hn : M.next t a = some u) :
    M.Steps ok s u := ReflTransGen.tail h ⟨a, ha, hn⟩

theorem Steps.head (ha : ok s a) (hn : M.next s a = some t) (h : M.Steps ok t u) :
    M.Steps ok s u := ReflTransGen.head ⟨a, ha, hn⟩ h

theorem Steps.mono {ok' : S → A → Prop} (h : M.Steps ok s t) (hk : ∀ s a, ok s a → ok' s a) :
    M.Steps ok' s t :=
  ReflTransGen.mono (fun _ _ ⟨a, ha, hn⟩ => ⟨a, hk _ _ ha, hn⟩) _ _ h

/-- What one admitted step preserves, a run preserves. -/
theorem Steps.invariant (hs : ∀ s a t, P s → ok s a → M.next s a = some t → P t)
    (h : M.Steps ok s t) (h0 : P s) : P t := by
  induction h with
  | refl => exact h0
  | tail _ hst ih =>
    obtain ⟨a, ha, hn⟩ := hst
    exact hs _ a _ ih ha hn

/-- An evaluated run is a run. -/
theorem steps_of_runsIf {s t : S} {okb : S → A → Bool} {as : List A} (h : M.runsIf okb as s = some t) :
    M.Steps (fun s a => okb s a = true) s t := by
  induction as generalizing s with
  | nil =>
    cases h
    exact .refl t
  | cons a as ih =>
    rw [runsIf] at h
    split at h
    · rename_i ha
      obtain ⟨u, hu, h⟩ := Option.bind_eq_some_iff.1 h
      exact .head ha hu (ih h)
    · cases h

/-- An admitted run evaluated up to a test of its last state. -/
theorem exists_steps (M : System S A) (okb : S → A → Bool) (s : S) (as : List A) (p : S → Bool)
    (h : (M.runsIf okb as s).any p = true) :
    ∃ t, M.Steps (fun s a => okb s a = true) s t ∧ p t = true := by
  obtain ⟨t, ht, hp⟩ := (Option.any_eq_true _ _).1 h
  exact ⟨t, steps_of_runsIf ht, hp⟩

/-- A run evaluated up to a test of its last state. -/
theorem exists_run (M : System S A) (s : S) (as : List A) (p : S → Bool)
    (h : (M.runsIf (fun _ _ => true) as s).any p = true) : ∃ t, M.Run s t ∧ p t = true := by
  obtain ⟨t, ht, hp⟩ := M.exists_steps _ s as p h
  exact ⟨t, ht.mono fun _ _ _ => trivial, hp⟩

end System

/-! ## Runs with their steps -/

/-- One step of a run. -/
structure Move (S A : Type) where
  pre : S
  act : A
  post : S

/-- The step of a system under watch. -/
def Move.base {G : Type} (m : Move (S × G) A) : Move S A := ⟨m.pre.1, m.act, m.post.1⟩

namespace System

/-- A run that remembers its steps. -/
inductive Path (M : System S A) (s : S) : List (Move S A) → S → Prop where
  | refl : Path M s [] s
  | tail {l : List (Move S A)} {t u : S} {a : A} (h : Path M s l t) (hn : M.next t a = some u) :
      Path M s (l ++ [⟨t, a, u⟩]) u

variable {M : System S A} {s t : S} {l : List (Move S A)}

/-- What holds of every step holds of the steps of a run. -/
theorem Path.forall {R : Move S A → Prop} (hR : ∀ s a t, M.next s a = some t → R ⟨s, a, t⟩)
    (h : M.Path s l t) : ∀ m ∈ l, R m := by
  induction h with
  | refl => exact fun m hm => (List.not_mem_nil hm).elim
  | tail _ hn ih =>
    intro m hm
    rcases List.mem_append.1 hm with hm | hm
    · exact ih m hm
    · rw [List.mem_singleton.1 hm]
      exact hR _ _ _ hn

/-- An invariant along a run whose steps satisfy `C`, and what follows from it for each step. -/
theorem Path.forall_of {P : S → Prop} {C R : Move S A → Prop}
    (hs : ∀ s a t, M.next s a = some t → C ⟨s, a, t⟩ → P s → P t ∧ R ⟨s, a, t⟩)
    (h : M.Path s l t) (hc : ∀ m ∈ l, C m) (h0 : P s) : P t ∧ ∀ m ∈ l, R m := by
  induction h with
  | refl => exact ⟨h0, fun m hm => (List.not_mem_nil hm).elim⟩
  | @tail l t u a _ hn ih =>
    obtain ⟨hp, hr⟩ := ih fun m hm => hc m (List.mem_append_left _ hm)
    obtain ⟨hp', hr'⟩ := hs t a u hn (hc _ (List.mem_append_right _ (List.mem_singleton_self _))) hp
    refine ⟨hp', fun m hm => ?_⟩
    rcases List.mem_append.1 hm with hm | hm
    · exact hr m hm
    · rw [List.mem_singleton.1 hm]
      exact hr'

/-- Steps that satisfy `C` keep `P` and satisfy `R`; the first step that does not satisfy `C` does
not satisfy `R`. -/
theorem Path.forall_iff {P : S → Prop} {C R : Move S A → Prop}
    (hs : ∀ s a t, M.next s a = some t → C ⟨s, a, t⟩ → P s → P t ∧ R ⟨s, a, t⟩)
    (hf : ∀ s a t, M.next s a = some t → ¬ C ⟨s, a, t⟩ → P s → ¬ R ⟨s, a, t⟩)
    (h : M.Path s l t) (h0 : P s) : (∀ m ∈ l, R m) ↔ ∀ m ∈ l, C m := by
  constructor
  · intro hr
    induction h with
    | refl => exact fun m hm => (List.not_mem_nil hm).elim
    | @tail l t u a h hn ih =>
      have hc := ih fun m hm => hr m (List.mem_append_left _ hm)
      have hp := (h.forall_of hs hc h0).1
      intro m hm
      rcases List.mem_append.1 hm with hm | hm
      · exact hc m hm
      · rw [List.mem_singleton.1 hm]
        exact Classical.byContradiction fun hcm =>
          hf t a u hn hcm hp (hr _ (List.mem_append_right _ (List.mem_singleton_self _)))
  · exact fun hc => (h.forall_of hs hc h0).2

/-- The last state of a run is where it began or where one of its steps ended. -/
theorem Path.last (h : M.Path s l t) : t = s ∨ ∃ m ∈ l, m.post = t := by
  cases h with
  | refl => exact .inl rfl
  | tail _ hn => exact .inr ⟨_, List.mem_append_right _ (List.mem_singleton_self _), rfl⟩

/-- What no step of a run changes, the run does not change. -/
theorem Path.const {T : Type} {f : S → T} (h : M.Path s l t) (hl : ∀ m ∈ l, f m.post = f m.pre) :
    f t = f s := by
  induction h with
  | refl => rfl
  | @tail l t u a _ hn ih =>
    have hlast := hl ⟨t, a, u⟩ (List.mem_append_right _ (List.mem_singleton_self _))
    exact hlast.trans (ih fun m hm => hl m (List.mem_append_left _ hm))

/-- A run makes no more steps of a kind than a measure has room for that each of them uses up. -/
theorem Path.count_le {f : S → Nat} {p : Move S A → Bool} (h : M.Path s l t)
    (hl : ∀ m ∈ l, f m.post + (if p m then 1 else 0) ≤ f m.pre) : f t + l.countP p ≤ f s := by
  induction h with
  | refl => exact Nat.le_refl _
  | @tail l t u a _ hn ih =>
    have hlast := hl ⟨t, a, u⟩ (List.mem_append_right _ (List.mem_singleton_self _))
    have hrest := ih fun m hm => hl m (List.mem_append_left _ hm)
    rw [List.countP_append, List.countP_singleton]
    dsimp only at hlast
    omega

/-- It makes as many as the measure has lost where each of them takes one from it. -/
theorem Path.count_eq {f : S → Nat} {p : Move S A → Bool} (h : M.Path s l t)
    (hl : ∀ m ∈ l, f m.post + (if p m then 1 else 0) = f m.pre) : f t + l.countP p = f s := by
  induction h with
  | refl => rfl
  | @tail l t u a _ hn ih =>
    have hlast := hl ⟨t, a, u⟩ (List.mem_append_right _ (List.mem_singleton_self _))
    have hrest := ih fun m hm => hl m (List.mem_append_left _ hm)
    rw [List.countP_append, List.countP_singleton]
    dsimp only at hlast
    omega

/-- What one step keeps between the states and a record of the steps, a run keeps. -/
theorem Path.record {T : Type} {R : S → T → Prop} {f : T → Move S A → T}
    (hs : ∀ s a t g, M.next s a = some t → R s g → R t (f g ⟨s, a, t⟩)) (h : M.Path s l t) {g : T}
    (h0 : R s g) : R t (l.foldl f g) := by
  induction h with
  | refl => exact h0
  | tail _ hn ih =>
    rw [List.foldl_append]
    exact hs _ _ _ _ hn ih

/-- A run follows a state of its own that is taken on by its steps of one kind. -/
theorem Path.follows {T : Type} {R : S → T → Prop} {C : Move S A → Prop} {p : Move S A → Bool}
    {f : T → T} (hs : ∀ s a t g, M.next s a = some t → C ⟨s, a, t⟩ → R s g →
      R t (if p ⟨s, a, t⟩ then f g else g)) (h : M.Path s l t) (hc : ∀ m ∈ l, C m) {g : T}
    (h0 : R s g) : R t (f^[l.countP p] g) := by
  induction h with
  | refl => exact h0
  | @tail l t u a _ hn ih =>
    have hr := ih fun m hm => hc m (List.mem_append_left _ hm)
    have hr := hs t a u _ hn (hc _ (List.mem_append_right _ (List.mem_singleton_self _))) hr
    rw [List.countP_append, List.countP_singleton, Nat.add_comm, Function.iterate_add_apply]
    split at hr
    · rwa [if_pos ‹_›]
    · rwa [if_neg ‹_›]

theorem Steps.run {ok : S → A → Prop} (h : M.Steps ok s t) : M.Run s t := h.mono fun _ _ _ => trivial

/-- The steps of a run are admitted. -/
theorem Steps.path_ok {ok : S → A → Prop} (h : M.Steps ok s t) :
    ∃ l, M.Path s l t ∧ ∀ m ∈ l, ok m.pre m.act := by
  induction h with
  | refl => exact ⟨[], .refl, fun m hm => (List.not_mem_nil hm).elim⟩
  | tail _ hst ih =>
    obtain ⟨l, hl, hok⟩ := ih
    obtain ⟨a, ha, hn⟩ := hst
    refine ⟨_, hl.tail hn, fun m hm => ?_⟩
    rcases List.mem_append.1 hm with hm | hm
    · exact hok m hm
    · rw [List.mem_singleton.1 hm]
      exact ha

theorem Steps.path {ok : S → A → Prop} (h : M.Steps ok s t) : ∃ l, M.Path s l t :=
  let ⟨l, hl, _⟩ := h.path_ok
  ⟨l, hl⟩

/-- A run and one more step, as a run with its steps. -/
theorem Steps.path_tail {ok : S → A → Prop} {u : S} {a : A} (h : M.Steps ok s t)
    (hn : M.next t a = some u) : ∃ l, M.Path s l u ∧ ⟨t, a, u⟩ ∈ l := by
  obtain ⟨l, hl⟩ := h.path
  exact ⟨_, hl.tail hn, List.mem_append_right _ (List.mem_singleton_self _)⟩

/-! ## Watched systems -/

/-- The system with a value that `f` updates at every step. -/
def watch {G : Type} (M : System S A) (f : G → Move S A → G) : System (S × G) A where
  next p a := (M.next p.1 a).map fun t => (t, f p.2 ⟨p.1, a, t⟩)

theorem watch_next {G : Type} {f : G → Move S A → G} {p q : S × G} {a : A}
    (h : (M.watch f).next p a = some q) :
    ∃ t, M.next p.1 a = some t ∧ q = (t, f p.2 ⟨p.1, a, t⟩) := by
  obtain ⟨t, ht, he⟩ := Option.map_eq_some_iff.1 h
  exact ⟨t, ht, he.symm⟩

theorem next_watch {G : Type} (f : G → Move S A → G) {p : S × G} {a : A} {t : S}
    (h : M.next p.1 a = some t) : (M.watch f).next p a = some (t, f p.2 ⟨p.1, a, t⟩) := by
  show (M.next p.1 a).map _ = _
  rw [h]
  rfl

/-! ## Runs side by side -/

section Run

variable {T : Type}

/-- The state behind the actions of a list. -/
def run (M : System S A) : List A → S → Option S
  | [], s => some s
  | a :: as, s => (M.next s a).bind (M.run as)

/-- Every action of a list is admitted where it is taken. -/
def admits (M : System S A) (ok : S → A → Bool) : List A → S → Bool
  | [], _ => true
  | a :: as, s => ok s a && (M.next s a).all (M.admits ok as)

/-- Two systems whose admitted steps keep a relation keep it over admitted runs, and come to a
stop together. -/
theorem run_related {M : System S A} {N : System T A} {R : S → T → Prop} {ok : S → A → Bool}
    (hs : ∀ s t a, R s t → ok s a = true → Option.Rel R (M.next s a) (N.next t a)) {as : List A}
    {s : S} {t : T} (hc : M.admits ok as s = true) (h : R s t) :
    Option.Rel R (M.run as s) (N.run as t) := by
  induction as generalizing s t with
  | nil => exact .some h
  | cons a as ih =>
    rw [admits, Bool.and_eq_true] at hc
    obtain ⟨ha, hc⟩ := hc
    have hrel := hs s t a h ha
    rw [run, run]
    cases hm : M.next s a with
    | none =>
      rw [hm] at hrel
      cases hn : N.next t a with
      | none => exact .none
      | some y => rw [hn] at hrel; cases hrel
    | some x =>
      rw [hm] at hrel hc
      cases hn : N.next t a with
      | none => rw [hn] at hrel; cases hrel
      | some y =>
        rw [hn] at hrel
        cases hrel with
        | some hxy => exact ih hc hxy

/-- A watched run is a run. -/
theorem run_watch {G : Type} (f : G → Move S A → G) (as : List A) (p : S × G) :
    ((M.watch f).run as p).map Prod.fst = M.run as p.1 := by
  induction as generalizing p with
  | nil => rfl
  | cons a as ih =>
    show (((M.next p.1 a).map fun t => (t, f p.2 ⟨p.1, a, t⟩)).bind ((M.watch f).run as)).map
      Prod.fst = (M.next p.1 a).bind (M.run as)
    cases M.next p.1 a with
    | none => rfl
    | some t => exact ih (t, f p.2 ⟨p.1, a, t⟩)

end Run

end System

end Runs
