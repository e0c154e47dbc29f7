import Mathlib.Algebra.Order.BigOperators.Group.List
import Mathlib.Algebra.Order.Group.Nat
import Mathlib.Data.List.Perm.Subperm

/-!
# Pieces that cover others

Pieces that do not overlap, one for each element of a list, and other pieces that cover them. If
none of these is longer, each has the length of its counterpart (`length_eq`), and together they
cover nothing else (`subset`).
-/

namespace Tiles

variable {α β : Type*} {l : List α} {f g : α → List β}

/-- No piece is left that is shorter than what it stands for. -/
theorem length_eq (hn : (l.flatMap f).Nodup) (hs : l.flatMap f ⊆ l.flatMap g)
    (hle : ∀ a ∈ l, (g a).length ≤ (f a).length) : ∀ a ∈ l, (g a).length = (f a).length := by
  intro a ha
  by_contra hne
  have hlen : (l.flatMap f).length ≤ (l.flatMap g).length :=
    (List.subperm_of_subset hn hs).length_le
  have hlt : (l.flatMap g).length < (l.flatMap f).length := by
    rw [List.length_flatMap, List.length_flatMap]
    exact List.sum_lt_sum _ _ hle ⟨a, ha, Nat.lt_of_le_of_ne (hle a ha) hne⟩
  omega

/-- The pieces cover nothing but what they have to. -/
theorem subset (hn : (l.flatMap f).Nodup) (hs : l.flatMap f ⊆ l.flatMap g)
    (hle : ∀ a ∈ l, (g a).length ≤ (f a).length) : l.flatMap g ⊆ l.flatMap f := by
  have hlen : (l.flatMap g).length ≤ (l.flatMap f).length := by
    rw [List.length_flatMap, List.length_flatMap]
    exact List.sum_le_sum hle
  exact ((List.subperm_of_subset hn hs).perm_of_length_le hlen).symm.subset

end Tiles
