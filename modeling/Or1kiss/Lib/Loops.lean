import Mathlib.Data.List.Basic

/-!
# Loops over a list

A loop that overwrites its result at every match returns the last match (`foldl_last`). What one
step of a loop settles, whatever came before, holds at the end if the other steps keep it
(`foldl_settles`).
-/

namespace Loops

variable {α β γ : Type*}

theorem foldr_first (p : α → Bool) (f : α → γ) (init : γ) (l : List α) :
    l.foldr (fun a m => if p a then f a else m) init = (l.find? p).elim init f := by
  induction l with
  | nil => rfl
  | cons a l ih =>
    rw [List.foldr_cons, List.find?_cons]
    cases p a with
    | true => rfl
    | false => exact ih

theorem foldl_last (p : α → Bool) (f : α → γ) (init : γ) (l : List α) :
    l.foldl (fun m a => if p a then f a else m) init = (l.reverse.find? p).elim init f := by
  rw [← foldr_first, List.foldr_reverse]

/-- `K` is what every step keeps. -/
theorem foldl_settles {f : β → α → β} {K P : β → Prop} {l : List α} {b : β}
    (hk : ∀ a ∈ l, ∀ b, K b → K (f b a)) (keep : ∀ a ∈ l, ∀ b, K b → P b → P (f b a))
    (hb : K b) (h : P b ∨ ∃ a ∈ l, ∀ b, K b → P (f b a)) : P (l.foldl f b) := by
  induction l generalizing b with
  | nil =>
    obtain h | ⟨a, ha, -⟩ := h
    · exact h
    · exact (List.not_mem_nil ha).elim
  | cons a l ih =>
    rw [List.forall_mem_cons] at hk keep
    refine ih hk.2 keep.2 (hk.1 b hb) ?_
    obtain h | ⟨a', ha, h⟩ := h
    · exact .inl (keep.1 b hb h)
    · obtain rfl | ha := List.mem_cons.1 ha
      · exact .inl (h b hb)
      · exact .inr ⟨a', ha, h⟩

end Loops
