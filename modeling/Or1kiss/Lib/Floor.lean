import Mathlib.Data.List.TakeWhile
import Mathlib.Data.Prod.Lex

/-!
# The floor of a value, found by a scan

The floor of `a` in a list is an element with the greatest value that is not above `a`. A scan
that stops at the first element above `a` and returns the one before it finds the floor in a list
sorted by the values. `floor_iff_leads` says when it does in a list sorted by another key, by any
sort that is free to order equal keys.
-/

namespace Floor

variable {α β γ : Type*} [LinearOrder β] [LinearOrder γ]
variable {val : α → β} {key : α → γ} {p : α → Bool} {a : β} {l l' : List α} {r : Option α}

/-- The last element in front of the first one above `a`. -/
def lastUpTo (val : α → β) (a : β) (l : List α) : Option α :=
  (l.takeWhile fun x => decide (val x ≤ a)).getLast?

/-- `r` is a floor of `a` in `l`. -/
structure IsFloor (val : α → β) (l : List α) (a : β) (r : Option α) : Prop where
  greatest : ∀ x, r = some x → x ∈ l ∧ val x ≤ a ∧ ∀ y ∈ l, val y ≤ a → val y ≤ val x
  none_iff : r = none ↔ ∀ y ∈ l, a < val y

/-- `l'` is `l` sorted by the key. -/
structure Sorts (key : α → γ) (l l' : List α) : Prop where
  perm : l'.Perm l
  sorted : l'.Pairwise fun x y => key x ≤ key y

/-- Wherever there is a floor, the key leads the scan to it: no element above `a` comes before
it, and one below it comes before it as well, or behind an element above `a`. -/
def Leads (val : α → β) (key : α → γ) (l : List α) (a : β) : Prop :=
  ∀ w ∈ l, val w ≤ a → (∀ y ∈ l, val y ≤ a → val y ≤ val w) →
    (∀ f ∈ l, a < val f → key w < key f) ∧
    ∀ u ∈ l, val u < val w → key u < key w ∨ ∃ f ∈ l, a < val f ∧ key f < key u

theorem Sorts.filter (h : Sorts key l l') (p : α → Bool) :
    Sorts key (l.filter p) (l'.filter p) :=
  ⟨h.perm.filter p, h.sorted.filter p⟩

/-! ## The two parts of the list -/

section

variable {q : α → Bool} {R : α → α → Prop} {x y : α}

theorem mem_takeWhile_or_dropWhile (h : x ∈ l) :
    x ∈ l.takeWhile q ∨ x ∈ l.dropWhile q := by
  rw [← List.takeWhile_append_dropWhile (p := q) (l := l)] at h
  exact List.mem_append.1 h

theorem rel_of_mem_takeWhile (hl : l.Pairwise R) (hx : x ∈ l.takeWhile q)
    (hy : y ∈ l.dropWhile q) : R x y := by
  rw [← List.takeWhile_append_dropWhile (p := q) (l := l), List.pairwise_append] at hl
  exact hl.2.2 x hx y hy

/-- An element that the scan does not reach is behind one that stops it. -/
theorem exists_stop (hl : l.Pairwise R) (hy : y ∈ l.dropWhile q) (hq : q y = true) :
    ∃ f ∈ l, q f = false ∧ R f y := by
  have hs : (l.dropWhile q).Pairwise R := hl.sublist (List.dropWhile_sublist q)
  cases hd : l.dropWhile q with
  | nil =>
    rw [hd] at hy
    exact (List.not_mem_nil hy).elim
  | cons f rest =>
    have hne : l.dropWhile q ≠ [] := by
      rw [hd]
      exact List.cons_ne_nil f rest
    have hf : q f = false := by
      have := List.head_dropWhile_not q hne
      simpa only [hd, List.head_cons] using this
    rw [hd] at hs hy
    have hmem : f ∈ l := (List.dropWhile_sublist q).subset (hd ▸ List.mem_cons_self)
    rcases List.mem_cons.1 hy with rfl | hy
    · exact nomatch hf.symm.trans hq
    · exact ⟨f, hmem, hf, List.rel_of_pairwise_cons hs hy⟩

theorem rel_getLast (hl : l.Pairwise R) (hx : l.getLast? = some x) (hy : y ∈ l) :
    y = x ∨ R y x := by
  obtain ⟨init, rfl⟩ := List.getLast?_eq_some_iff.1 hx
  rcases List.mem_append.1 hy with hy | hy
  · exact .inr ((List.pairwise_append.1 hl).2.2 y hy x (List.mem_singleton_self x))
  · exact .inl (List.mem_singleton.1 hy)

end

/-! ## The scan -/

theorem exists_greatest (h : ∃ y ∈ l, val y ≤ a) :
    ∃ w ∈ l, val w ≤ a ∧ ∀ y ∈ l, val y ≤ a → val y ≤ val w := by
  induction l with
  | nil =>
    obtain ⟨y, hy, -⟩ := h
    exact (List.not_mem_nil hy).elim
  | cons b l ih =>
    by_cases hl : ∃ y ∈ l, val y ≤ a
    · obtain ⟨w, hw, hwa, hmax⟩ := ih hl
      by_cases hb : val b ≤ a ∧ val w ≤ val b
      · refine ⟨b, List.mem_cons_self, hb.1, List.forall_mem_cons.2 ⟨fun _ => le_rfl, ?_⟩⟩
        exact fun y hy hya => (hmax y hy hya).trans hb.2
      · refine ⟨w, List.mem_cons_of_mem b hw, hwa, List.forall_mem_cons.2 ⟨fun hba => ?_, hmax⟩⟩
        exact (not_le.1 fun hwb => hb ⟨hba, hwb⟩).le
    · have hb : val b ≤ a := by
        obtain ⟨y, hy, hya⟩ := h
        rcases List.mem_cons.1 hy with rfl | hy
        · exact hya
        · exact (hl ⟨y, hy, hya⟩).elim
      refine ⟨b, List.mem_cons_self, hb, List.forall_mem_cons.2 ⟨fun _ => le_rfl, ?_⟩⟩
      exact fun y hy hya => (hl ⟨y, hy, hya⟩).elim

theorem mem_of_lastUpTo {x : α} (h : lastUpTo val a l = some x) :
    x ∈ l.takeWhile fun x => decide (val x ≤ a) :=
  List.mem_of_getLast? h

theorem mem_takeWhile_le {x : α} (h : x ∈ l.takeWhile fun x => decide (val x ≤ a)) :
    x ∈ l ∧ val x ≤ a := by
  have hd := List.mem_takeWhile_imp h
  exact ⟨(List.takeWhile_sublist _).subset h, of_decide_eq_true hd⟩

/-- With nothing up to `a`, the scan stops at once. -/
theorem lastUpTo_of_above (h : ∀ y ∈ l, a < val y) : lastUpTo val a l = none := by
  unfold lastUpTo
  rw [List.getLast?_eq_none_iff, List.eq_nil_iff_forall_not_mem]
  intro x hx
  obtain ⟨hmem, hle⟩ := mem_takeWhile_le hx
  exact (h x hmem).not_ge hle

/-- The scan of a list that is led finds the floor. -/
theorem isFloor_lastUpTo (hl : l.Pairwise fun x y => key x ≤ key y) (h : Leads val key l a) :
    IsFloor val l a (lastUpTo val a l) := by
  by_cases he : ∃ y ∈ l, val y ≤ a
  case neg =>
    have habove : ∀ y ∈ l, a < val y := fun y hy => not_le.1 fun hle => he ⟨y, hy, hle⟩
    have hnone := lastUpTo_of_above habove
    exact ⟨fun x hx => (nomatch hnone.symm.trans hx), fun _ => habove, fun _ => hnone⟩
  obtain ⟨w, hw, hwa, hmax⟩ := exists_greatest he
  obtain ⟨hup, hdown⟩ := h w hw hwa hmax
  -- nothing above `a` stops the scan in front of the floor
  have hreach : w ∈ l.takeWhile fun x => decide (val x ≤ a) := by
    refine (mem_takeWhile_or_dropWhile hw).resolve_right fun hd => ?_
    obtain ⟨f, hf, hfa, hle⟩ := exists_stop hl hd (decide_eq_true hwa)
    exact hle.not_gt (hup f hf (not_le.1 (of_decide_eq_false hfa)))
  have hsome : ∀ x, lastUpTo val a l = some x → val w ≤ val x := by
    intro x hx
    by_contra hlt
    obtain ⟨hmem, hxa⟩ := mem_takeWhile_le (mem_of_lastUpTo hx)
    have hpre := hl.sublist (List.takeWhile_sublist fun x => decide (val x ≤ a))
    rcases hdown x hmem (not_le.1 hlt) with hk | ⟨f, hf, hfa, hk⟩
    · rcases rel_getLast hpre hx hreach with rfl | hle
      · exact hlt le_rfl
      · exact hle.not_gt hk
    · have hfd := (mem_takeWhile_or_dropWhile hf).resolve_left fun ht =>
        (mem_takeWhile_le ht).2.not_gt hfa
      exact (rel_of_mem_takeWhile hl (mem_of_lastUpTo hx) hfd).not_gt hk
  constructor
  · intro x hx
    obtain ⟨hmem, hxa⟩ := mem_takeWhile_le (mem_of_lastUpTo hx)
    exact ⟨hmem, hxa, fun y hy hya => (hmax y hy hya).trans (hsome x hx)⟩
  · constructor
    · intro hn
      unfold lastUpTo at hn
      rw [List.getLast?_eq_none_iff] at hn
      rw [hn] at hreach
      exact (List.not_mem_nil hreach).elim
    · exact fun habove => ((habove w hw).not_ge hwa).elim

/-! ## Every sort -/

/-- A sort may order equal keys by any rank. -/
theorem exists_sorts (key : α → γ) (rank : α → Nat) (l : List α) :
    ∃ l', Sorts key l l' ∧
      l'.Pairwise fun x y => key x < key y ∨ key x = key y ∧ rank x ≤ rank y := by
  let le (x y : α) : Bool := decide (toLex (key x, rank x) ≤ toLex (key y, rank y))
  have hlex : ∀ x y, le x y = true ↔ key x < key y ∨ key x = key y ∧ rank x ≤ rank y :=
    fun x y => decide_eq_true_iff.trans Prod.Lex.toLex_le_toLex
  have hp : (l.mergeSort le).Pairwise fun x y => le x y = true := by
    apply List.pairwise_mergeSort
    · exact fun x y z hxy hyz => decide_eq_true
        ((of_decide_eq_true hxy).trans (of_decide_eq_true hyz))
    · intro x y
      rw [Bool.or_eq_true]
      exact (le_total _ _).imp decide_eq_true decide_eq_true
  refine ⟨l.mergeSort le, ⟨List.mergeSort_perm l le, hp.imp fun h => ?_⟩, hp.imp (hlex _ _).1⟩
  exact ((hlex _ _).1 h).elim (·.le) (·.1.le)

/-- A floor that is found is as great as the greatest, and its key is that one's. -/
theorem IsFloor.greatest_of {w : α} (h : IsFloor val l a r) (hw : w ∈ l) (hwa : val w ≤ a)
    (hmax : ∀ y ∈ l, val y ≤ a → val y ≤ val w) : ∃ x, r = some x ∧ val x = val w := by
  cases hr : r with
  | none => exact ((h.none_iff.1 hr w hw).not_ge hwa).elim
  | some x =>
    obtain ⟨hx, hxa, hg⟩ := h.greatest x hr
    exact ⟨x, rfl, le_antisymm (hmax x hx hxa) (hg w hw hwa)⟩

/-- Where the key does not lead the scan, some sort makes it miss the floor. -/
theorem leads_of_floor (hkey : ∀ x ∈ l, ∀ y ∈ l, val x = val y → key x = key y)
    (h : ∀ l', Sorts key l l' →
      IsFloor val (l'.filter p) a (lastUpTo val a (l'.filter p))) :
    Leads val key (l.filter p) a := by
  intro w hw hwa hmax
  -- what the scan of a sorted list returns, and which elements are met before it
  have hfound : ∀ rank : α → Nat, ∃ l', l'.Perm (l.filter p) ∧
      (l'.Pairwise fun x y => key x < key y ∨ key x = key y ∧ rank x ≤ rank y) ∧
      ∃ x, lastUpTo val a l' = some x ∧ val x = val w ∧ key x = key w := by
    intro rank
    obtain ⟨l', hs, hp⟩ := exists_sorts key rank l
    have hperm := (hs.filter p).perm
    obtain ⟨x, hx, hxw⟩ := (h l' hs).greatest_of (hperm.mem_iff.2 hw) hwa fun y hy =>
      hmax y (hperm.mem_iff.1 hy)
    have hxl := hperm.mem_iff.1 (mem_takeWhile_le (mem_of_lastUpTo hx)).1
    exact ⟨l'.filter p, hperm, hp.filter p, x, hx, hxw,
      hkey x (List.mem_filter.1 hxl).1 w (List.mem_filter.1 hw).1 hxw⟩
  constructor
  · intro f hf hfa
    obtain ⟨l', hperm, hp, x, hx, -, hkw⟩ := hfound fun y => if val y ≤ a then 1 else 0
    have hfd := (mem_takeWhile_or_dropWhile (hperm.mem_iff.2 hf)).resolve_left fun ht =>
      (mem_takeWhile_le ht).2.not_gt hfa
    rw [← hkw]
    refine (rel_of_mem_takeWhile hp (mem_of_lastUpTo hx) hfd).resolve_right ?_
    rintro ⟨-, hr⟩
    dsimp only at hr
    rw [if_pos (mem_takeWhile_le (mem_of_lastUpTo hx)).2, if_neg hfa.not_ge] at hr
    exact absurd hr (by decide)
  · intro u hu huw
    by_contra hno
    rw [not_or] at hno
    obtain ⟨hwu, hfu⟩ := hno
    obtain ⟨l', hperm, hp, x, hx, hxw, hkw⟩ :=
      hfound fun y => if a < val y then 2 else if val y = val w then 0 else 1
    have hua : val u ≤ a := huw.le.trans hwa
    have hru : ¬a < val u ∧ val u ≠ val w := ⟨hua.not_gt, huw.ne⟩
    have hut : u ∈ l'.takeWhile fun x => decide (val x ≤ a) := by
      refine (mem_takeWhile_or_dropWhile (hperm.mem_iff.2 hu)).resolve_right fun hd => ?_
      obtain ⟨f, hf, hfa, hlex⟩ := exists_stop hp hd (decide_eq_true hua)
      have hfa' : a < val f := not_le.1 (of_decide_eq_false hfa)
      rcases hlex with hk | ⟨-, hr⟩
      · exact hfu ⟨f, hperm.mem_iff.1 hf, hfa', hk⟩
      · dsimp only at hr
        rw [if_pos hfa', if_neg hru.1, if_neg hru.2] at hr
        exact absurd hr (by decide)
    have hpre := hp.sublist (List.takeWhile_sublist fun x => decide (val x ≤ a))
    rcases rel_getLast hpre hx hut with rfl | hk | ⟨-, hr⟩
    · exact huw.ne hxw
    · exact hwu (hkw ▸ hk)
    · dsimp only at hr
      rw [if_neg hru.1, if_neg hru.2, if_neg (hxw ▸ hwa.not_gt), if_pos hxw] at hr
      exact absurd hr (by decide)

theorem Leads.perm (h : Leads val key l a) (hp : l'.Perm l) : Leads val key l' a := by
  intro w hw hwa hmax
  obtain ⟨hup, hdown⟩ := h w (hp.mem_iff.1 hw) hwa fun y hy => hmax y (hp.mem_iff.2 hy)
  refine ⟨fun f hf => hup f (hp.mem_iff.1 hf), fun u hu huw => ?_⟩
  refine (hdown u (hp.mem_iff.1 hu) huw).imp_right fun ⟨f, hf, hfa⟩ => ?_
  exact ⟨f, hp.mem_iff.2 hf, hfa⟩

/-- Only the values and the keys count. -/
theorem leads_map_iff {δ : Type*} {f : δ → α} {l : List δ} :
    Leads val key (l.map f) a ↔ Leads (fun x => val (f x)) (fun x => key (f x)) l a := by
  unfold Leads
  simp only [List.mem_map, exists_exists_and_eq_and, forall_exists_index, and_imp,
    forall_apply_eq_imp_iff₂]

/-- The scan of the selected elements finds the floor in every sorted list exactly if the key
leads it there. -/
theorem floor_iff_leads (hkey : ∀ x ∈ l, ∀ y ∈ l, val x = val y → key x = key y) :
    (∀ l', Sorts key l l' → IsFloor val (l'.filter p) a (lastUpTo val a (l'.filter p))) ↔
      Leads val key (l.filter p) a := by
  refine ⟨leads_of_floor hkey, fun h l' hs => ?_⟩
  have hf := hs.filter p
  exact isFloor_lastUpTo hf.sorted (h.perm hf.perm)

end Floor
