import Or1kiss.Lib.Limbs
import Or1kiss.Effect
import Or1kiss.Operands

/-!
# Additions limb by limb

`l.add` on the lowest limbs of two numbers and `l.addc` on those above add the numbers if the
carry gets from each pair to the next. Both executors read the carry off the result. For `l.add`
it is the carry; `l.addc` does not see it if its second operand is `0xffffffff` and a carry comes
in.
-/

namespace Or1kiss

open Host Bits Outcome

variable {σ : Type}

namespace Core

variable {c d e : Core σ} {ci : Instruction} {b : Second} {ae flag : U32}

def carry (c : Core σ) : Bool := test c.status SR.CY

/-- Additions raise no range exception. -/
def RangeOff (c : Core σ) : Prop :=
  c.rangeEnabled AE.CYADDE = false ∧ c.rangeEnabled AE.OVADDE = false

theorem rangeEnabled_setFlag (hf : flag &&& SR.OVE = 0#32) :
    (c.setFlag flag).rangeEnabled ae = c.rangeEnabled ae := by
  refine rangeEnabled_congr ?_ rfl
  exact or_and_of_disjoint hf

theorem RangeOff.congr (h : c.RangeOff) (hs : d.status &&& SR.OVE = c.status &&& SR.OVE)
    (ha : d.aecr = c.aecr) : d.RangeOff := by
  unfold RangeOff
  rw [rangeEnabled_congr hs ha, rangeEnabled_congr hs ha]
  exact h

theorem rangeException_off (h : c.rangeEnabled ae = false) : c.rangeException ae = .ok c := by
  unfold rangeException
  rw [show (test c.status SR.OVE && test c.aecr ae) = false from h]
  rfl

/-- Without an exception an overflow sets its flag. -/
theorem overflow_off (hf : flag &&& SR.OVE = 0#32) (h : c.rangeEnabled ae = false) (o : Bool) :
    c.overflow o flag ae = .ok (if o then c.setFlag flag else c) := by
  unfold overflow
  cases o with
  | false => rfl
  | true => exact rangeException_off ((rangeEnabled_setFlag hf).trans h)

/-! ## The carry of an executor -/

/-- What both executors leave, given the carry that they see. -/
structure Added (c : Core σ) (i : Fin 32) (r : U32) (cy : Bool) (d : Core σ) : Prop where
  gpr : d.gpr = Function.update c.gpr i r
  carry : d.carry = cy
  status : d.status &&& SR.OVE = c.status &&& SR.OVE
  aecr : d.aecr = c.aecr

/-- The flags of an addition whose result has been written. -/
def flagged (c : Core σ) (i : Fin 32) (r : U32) (cy ov : Bool) : Core σ :=
  let c := ((c.setGpr i r).clearFlag SR.CY).clearFlag SR.OV
  let c := if cy then c.setFlag SR.CY else c
  if ov then c.setFlag SR.OV else c

theorem added_flagged (i : Fin 32) (r : U32) (cy ov : Bool) :
    c.Added i r cy (c.flagged i r cy ov) := by
  have hoff : ∀ v : U32, test (v &&& ~~~SR.CY &&& ~~~SR.OV) SR.CY = false := fun v => by
    rw [test_congr (k := SR.CY) (by decide) (and_not_and_of_disjoint (by decide))]
    exact test_and_not_self v SR.CY
  have hcy : ∀ v : U32, test (v ||| SR.OV) SR.CY = test v SR.CY := fun v =>
    test_congr (k := SR.CY) (by decide) (or_and_of_disjoint (by decide))
  have hove : ∀ v : U32, (v &&& ~~~SR.CY &&& ~~~SR.OV) &&& SR.OVE = v &&& SR.OVE := fun v => by
    rw [and_not_and_of_disjoint (by decide), and_not_and_of_disjoint (by decide)]
  have hset : ∀ v f : U32, f &&& SR.OVE = 0#32 → (v ||| f) &&& SR.OVE = v &&& SR.OVE :=
    fun v f hf => or_and_of_disjoint hf
  cases cy <;> cases ov
  · exact ⟨rfl, hoff _, hove _, rfl⟩
  · exact ⟨rfl, (hcy _).trans (hoff _), (hset _ _ (by decide)).trans (hove _), rfl⟩
  · exact ⟨rfl, test_or_self (by decide), (hset _ _ (by decide)).trans (hove _), rfl⟩
  · exact ⟨rfl, (hcy _).trans (test_or_self (by decide)),
      (hset _ _ (by decide)).trans ((hset _ _ (by decide)).trans (hove _)), rfl⟩

/-- The overflow behind the carry. -/
theorem flagged_eq (h : c.RangeOff) (i : Fin 32) (r : U32) (cy ov : Bool) :
    (if cy then (((c.setGpr i r).clearFlag SR.CY).clearFlag SR.OV).setFlag SR.CY
      else ((c.setGpr i r).clearFlag SR.CY).clearFlag SR.OV).overflow ov SR.OV AE.OVADDE =
      .ok (c.flagged i r cy ov) := by
  have hclear : (((c.setGpr i r).clearFlag SR.CY).clearFlag SR.OV).RangeOff := by
    refine h.congr ?_ rfl
    exact (and_not_and_of_disjoint (by decide)).trans (and_not_and_of_disjoint (by decide))
  cases cy with
  | false => exact overflow_off (by decide) hclear.2 ov
  | true => exact overflow_off (by decide) ((rangeEnabled_setFlag (by decide)).trans hclear.2) ov

theorem carryOverflow_off (h : c.RangeOff) (i : Fin 32) (r : U32) (cy ov : Bool) :
    (c.setGpr i r).carryOverflow cy ov = .ok (c.flagged i r cy ov) := by
  have hclear : (((c.setGpr i r).clearFlag SR.CY).clearFlag SR.OV).RangeOff := by
    refine h.congr ?_ rfl
    exact (and_not_and_of_disjoint (by decide)).trans (and_not_and_of_disjoint (by decide))
  unfold carryOverflow
  dsimp only
  rw [overflow_off (by decide) hclear.1, ok_bind]
  exact flagged_eq h i r cy ov

theorem add_eq (hb : ci.Binds .add b) (hd : ci.dest = fieldD ci.insn) (h : c.RangeOff) :
    c.executeOrbis32Add ci = .ok (c.flagged (rD ci.insn)
      (c.gpr (rA ci.insn) + b.value c ci.insn)
      (decide (c.gpr (rA ci.insn) + b.value c ci.insn < c.gpr (rA ci.insn)))
      (addOverflows (c.gpr (rA ci.insn)) (b.value c ci.insn)
        (c.gpr (rA ci.insn) + b.value c ci.insn))) := by
  unfold executeOrbis32Add
  rw [deref_first hb, ok_bind, deref_second hb, ok_bind]
  dsimp only
  rw [assign_dest hd, ok_bind, ← flagged_eq h]
  simp only [decide_eq_true_eq]

theorem addc_eq (hb : ci.Binds .addc b) (hd : ci.dest = fieldD ci.insn) (h : c.RangeOff) :
    c.executeOrbis32Addc ci = .ok (c.flagged (rD ci.insn)
      (c.addcResult (c.gpr (rA ci.insn)) (b.value c ci.insn))
      (decide (c.addcResult (c.gpr (rA ci.insn)) (b.value c ci.insn) < c.gpr (rA ci.insn)))
      (addOverflows (c.gpr (rA ci.insn)) (b.value c ci.insn)
        (c.addcResult (c.gpr (rA ci.insn)) (b.value c ci.insn)))) := by
  unfold executeOrbis32Addc
  rw [deref_first hb, ok_bind, deref_second hb, ok_bind]
  dsimp only
  rw [assign_dest hd, ok_bind]
  exact carryOverflow_off h _ _ _ _

end Core

/-! ## Chains -/

/-- The addition an opcode stands for. -/
def Opcode.addition : Opcode → Option (CoreExec × Second)
  | .orbis32Add => some (.add, .rB)
  | .orbis32Addi => some (.add, .imm fieldI)
  | .orbis32Addc => some (.addc, .rB)
  | .orbis32Addic => some (.addc, .imm fieldI)
  | _ => none

namespace Carry

open Or1kiss.Core Limbs

variable {c d e : Core σ} {ci : Instruction} {op : CoreExec} {b : Second}

theorem binds (hf : ci.Full) (ho : (decode ci.insn).addition = some (op, b)) :
    ci.Binds op b ∧ ci.dest = fieldD ci.insn := by
  obtain ⟨-, handler, hh, -⟩ := id hf
  generalize hd : decode ci.insn = code at ho hh
  cases code <;> cases ho
  · exact hf.regReg (by rw [hd]; rfl)
  · exact hf.regReg (by rw [hd]; rfl)
  · exact hf.regImm (by rw [hd]; rfl)
  · exact hf.regImm (by rw [hd]; rfl)

/-- The carry that comes into an addition. -/
def carryIn (c : Core σ) (op : CoreExec) : Nat := if op = .addc ∧ c.carry then 1 else 0

def sumOf (c : Core σ) (op : CoreExec) (x y : U32) : U32 :=
  if op = .addc then c.addcResult x y else x + y

theorem sumOf_toNat (x y : U32) :
    (sumOf c op x y).toNat = (x.toNat + y.toNat + carryIn c op) % 2 ^ 32 := by
  unfold sumOf carryIn addcResult Core.carry
  by_cases hop : op = .addc
  · rw [if_pos hop]
    cases test c.status SR.CY with
    | false =>
      rw [if_neg Bool.false_ne_true, if_neg fun h => Bool.false_ne_true h.2]
      exact BitVec.toNat_add x y
    | true =>
      rw [if_pos rfl, if_pos ⟨hop, rfl⟩, BitVec.toNat_add, BitVec.toNat_add]
      exact Nat.mod_add_mod ..
  · rw [if_neg hop, if_neg fun h => hop h.1]
    exact BitVec.toNat_add x y

theorem execute_eq [HostLib] (hf : ci.Full) (ho : (decode ci.insn).addition = some (op, b))
    (hr : c.RangeOff) {x y : U32} (hx : c.gpr (rA ci.insn) = x) (hy : b.value c ci.insn = y) :
    c.execute op ci = .ok (c.flagged (rD ci.insn) (sumOf c op x y)
      (decide (sumOf c op x y < x)) (addOverflows x y (sumOf c op x y))) := by
  obtain ⟨hb, hd⟩ := binds hf ho
  have hop : op = .add ∨ op = .addc := by
    generalize decode ci.insn = code at ho
    cases code <;> cases ho
    · exact .inl rfl
    · exact .inr rfl
    · exact .inl rfl
    · exact .inr rfl
  subst hx hy
  rcases hop with rfl | rfl
  · exact add_eq hb hd hr
  · exact addc_eq hb hd hr

section Chains

variable [HostLib]

/-- An instruction adds a pair of limbs: they are its operands, and the result is in `rD`. -/
inductive Adds (op : CoreExec) (c : Core σ) (p : U32 × U32) (r : U32) (d : Core σ) : Prop where
  | intro (ci : Instruction) (b : Second) (hf : ci.Full)
      (ho : (decode ci.insn).addition = some (op, b)) (ha : c.gpr (rA ci.insn) = p.1)
      (hb : b.value c ci.insn = p.2) (hr : c.RangeOff) (h : c.execute op ci = .ok d)
      (hd : d.gpr (rD ci.insn) = r)

/-- Further limbs are added by `l.addc`, one after the other; between two of them anything may
happen that leaves the carry alone. -/
inductive AddsAbove : Core σ → List (U32 × U32) → List U32 → Core σ → Prop where
  | nil (c : Core σ) : AddsAbove c [] [] c
  | cons {c b d e : Core σ} {p : U32 × U32} {r : U32} {l : List (U32 × U32)} {rs : List U32}
      (hc : b.carry = c.carry) (h : Adds .addc b p r d) (ht : AddsAbove d l rs e) :
      AddsAbove c (p :: l) (r :: rs) e

/-- Two numbers are added: the lowest limbs by `l.add`, the others by `l.addc`. -/
inductive AddsNumbers : Core σ → List (U32 × U32) → List U32 → Core σ → Prop where
  | intro {c d e : Core σ} {p : U32 × U32} {r : U32} {l : List (U32 × U32)} {rs : List U32}
      (h : Adds .add c p r d) (ht : AddsAbove d l rs e) : AddsNumbers c (p :: l) (r :: rs) e

def value (l : List U32) : Nat := Nat.ofDigits (2 ^ 32) (l.map BitVec.toNat)

/-- The pairs as numbers. -/
def pairs (l : List (U32 × U32)) : List (Nat × Nat) := l.map fun p => (p.1.toNat, p.2.toNat)

omit [HostLib] in
theorem pairs_cons (p : U32 × U32) (l : List (U32 × U32)) :
    pairs (p :: l) = (p.1.toNat, p.2.toNat) :: pairs l := rfl

omit [HostLib] in
theorem bounded_pairs (l : List (U32 × U32)) : Bounded (2 ^ 32) (pairs l) := by
  intro q hq
  obtain ⟨p, -, rfl⟩ := List.mem_map.1 hq
  exact ⟨p.1.isLt, p.2.isLt⟩

/-- What an addition leaves is the sum with the carry that comes in, and the carry that is seen. -/
theorem Adds.seen {p : U32 × U32} {r : U32} (h : Adds op c p r d) :
    r.toNat = (p.1.toNat + p.2.toNat + carryIn c op) % 2 ^ 32 ∧
      d.carry.toNat = Limbs.seen (2 ^ 32) p.1.toNat p.2.toNat (carryIn c op) := by
  obtain ⟨ci, b, hf, ho, ha, hb, hr, h, hd⟩ := h
  rw [execute_eq hf ho hr ha hb] at h
  cases h
  have hadd := added_flagged (c := c) (rD ci.insn) (sumOf c op p.1 p.2)
    (decide (sumOf c op p.1 p.2 < p.1)) (addOverflows p.1 p.2 (sumOf c op p.1 p.2))
  rw [hadd.gpr, Function.update_self] at hd
  subst hd
  refine ⟨sumOf_toNat _ _, ?_⟩
  have hlt : sumOf c op p.1 p.2 < p.1 ↔
      (p.1.toNat + p.2.toNat + carryIn c op) % 2 ^ 32 < p.1.toNat := by
    rw [BitVec.lt_def, sumOf_toNat]
  rw [hadd.carry, decide_eq_decide.2 hlt]
  unfold Limbs.seen
  split
  · rename_i h
    rw [decide_eq_true h]
    rfl
  · rename_i h
    rw [decide_eq_false h]
    rfl

/-- An instruction that adds two limbs does so in every state without range exceptions. -/
theorem adds_of_full (hf : ci.Full) (ho : (decode ci.insn).addition = some (op, b))
    (hr : c.RangeOff) : ∃ d, Adds op c (c.gpr (rA ci.insn), b.value c ci.insn)
      (sumOf c op (c.gpr (rA ci.insn)) (b.value c ci.insn)) d ∧ d.RangeOff ∧
      d.gpr = Function.update c.gpr (rD ci.insn)
        (sumOf c op (c.gpr (rA ci.insn)) (b.value c ci.insn)) := by
  have he := execute_eq (c := c) hf ho hr rfl rfl
  have hadd := added_flagged (c := c) (rD ci.insn)
    (sumOf c op (c.gpr (rA ci.insn)) (b.value c ci.insn))
    (decide (sumOf c op (c.gpr (rA ci.insn)) (b.value c ci.insn) < c.gpr (rA ci.insn)))
    (addOverflows (c.gpr (rA ci.insn)) (b.value c ci.insn)
      (sumOf c op (c.gpr (rA ci.insn)) (b.value c ci.insn)))
  refine ⟨_, ⟨ci, b, hf, ho, rfl, rfl, hr, he, ?_⟩, hr.congr hadd.status hadd.aecr, hadd.gpr⟩
  rw [hadd.gpr, Function.update_self]

omit [HostLib] in
theorem carryIn_addc : carryIn c .addc = c.carry.toNat := by
  unfold carryIn
  cases c.carry <;> rfl

omit [HostLib] in
theorem carryIn_add : carryIn c .add = 0 := if_neg fun h => CoreExec.noConfusion h.1

/-- The limbs above the lowest are those of `sums`, from the carry that the chain begins with. -/
theorem AddsAbove.sums {l : List (U32 × U32)} {rs : List U32} (h : AddsAbove c l rs e) :
    Limbs.sums (2 ^ 32) c.carry.toNat (pairs l) = (rs.map BitVec.toNat, e.carry.toNat) := by
  induction h with
  | nil c => rfl
  | cons hc h ht ih =>
    obtain ⟨hr, hs⟩ := h.seen
    rw [carryIn_addc, hc] at hr hs
    rw [hs] at ih
    rw [pairs_cons, sums_cons, ih, List.map_cons, hr]

theorem AddsNumbers.sums {l : List (U32 × U32)} {rs : List U32} (h : AddsNumbers c l rs e) :
    Limbs.sums (2 ^ 32) 0 (pairs l) = (rs.map BitVec.toNat, e.carry.toNat) := by
  obtain ⟨h, ht⟩ := h
  obtain ⟨hr, hs⟩ := h.seen
  rw [carryIn_add] at hr hs
  have ih := ht.sums
  rw [hs] at ih
  rw [pairs_cons, sums_cons, ih, List.map_cons, hr]

omit [HostLib] in
theorem total_pairs (l : List (U32 × U32)) :
    total (2 ^ 32) (pairs l) = value (l.map Prod.fst) + value (l.map Prod.snd) := by
  unfold total pairs value
  rw [List.map_map, List.map_map, List.map_map, List.map_map]
  rfl

omit [HostLib] in
theorem value_lt (l : List U32) : value l < 2 ^ (32 * l.length) := by
  have h := Nat.ofDigits_lt_base_pow_length (b := 2 ^ 32) (by decide) (l := l.map BitVec.toNat) ?_
  · rwa [List.length_map, ← Nat.pow_mul] at h
  · intro x hx
    obtain ⟨v, -, rfl⟩ := List.mem_map.1 hx
    exact v.isLt

omit [HostLib] in
/-- Pairs whose second limb is the largest one, among words and among numbers. -/
theorem forall_pairs_iff (l : List (U32 × U32)) :
    (∀ i q, (pairs l)[i]? = some q → q.2 = 2 ^ 32 - 1 →
      total (2 ^ 32) ((pairs l).take i) < (2 ^ 32) ^ i) ↔
    ∀ i a, l[i]? = some (a, 0xffffffff#32) →
      value ((l.take i).map Prod.fst) + value ((l.take i).map Prod.snd) < 2 ^ (32 * i) := by
  have hlow : ∀ i, (total (2 ^ 32) ((pairs l).take i) < (2 ^ 32) ^ i ↔
      value ((l.take i).map Prod.fst) + value ((l.take i).map Prod.snd) < 2 ^ (32 * i)) := by
    intro i
    have ht : (pairs l).take i = pairs (l.take i) := List.map_take.symm
    rw [ht, total_pairs, Nat.pow_mul]
  constructor
  · intro h i a hi
    refine (hlow i).1 (h i (a.toNat, 2 ^ 32 - 1) ?_ rfl)
    unfold pairs
    rw [List.getElem?_map, hi]
    rfl
  · intro h i q hi hq
    unfold pairs at hi
    rw [List.getElem?_map, Option.map_eq_some_iff] at hi
    obtain ⟨⟨a, b⟩, hi, rfl⟩ := hi
    have hb : b = 0xffffffff#32 := BitVec.eq_of_toNat_eq hq
    exact (hlow i).2 (h i a (hb ▸ hi))

/-- The chain leaves the sum of the two numbers and its carry if and only if, wherever a limb of
the second number is `0xffffffff`, the limbs below have no carry. -/
theorem limbs_added_iff {l : List (U32 × U32)} {rs : List U32} (h : AddsNumbers c l rs e) :
    (value rs = (value (l.map Prod.fst) + value (l.map Prod.snd)) % 2 ^ (32 * l.length) ∧
      e.carry = decide (2 ^ (32 * l.length) ≤ value (l.map Prod.fst) + value (l.map Prod.snd))) ↔
    ∀ i a, l[i]? = some (a, 0xffffffff#32) →
      value ((l.take i).map Prod.fst) + value ((l.take i).map Prod.snd) < 2 ^ (32 * i) := by
  have hb := bounded_pairs l
  have hlen : (pairs l).length = l.length := List.length_map ..
  have hex := sums_exact_iff (by decide) hb (Nat.zero_le 1)
  rw [h.sums, lost_eq_zero_iff hb (Nat.zero_le 1), total_pairs, hlen, ← Nat.pow_mul] at hex
  have hx := value_lt (l.map Prod.fst)
  have hy := value_lt (l.map Prod.snd)
  rw [List.length_map] at hx hy
  rw [← forall_pairs_iff]
  refine Iff.trans (and_congr Iff.rfl ?_) hex
  generalize value (l.map Prod.fst) = x at hx ⊢
  generalize value (l.map Prod.snd) = y at hy ⊢
  generalize 2 ^ (32 * l.length) = n at hx hy ⊢
  have hcy : ∀ v : Bool, (v = false ↔ v.toNat = 0) ∧ (v = true ↔ v.toNat = 1) := by decide
  rcases Nat.lt_or_ge (x + y) n with hlt | hge
  · rw [decide_eq_false (by omega), Nat.add_zero, Nat.div_eq_of_lt hlt]
    exact (hcy e.carry).1
  · have hq : (x + y) / n = 1 := by
      rw [Nat.div_eq_sub_div (by omega) hge, Nat.div_eq_of_lt (by omega)]
    rw [decide_eq_true hge, Nat.add_zero, hq]
    exact (hcy e.carry).2

end Chains

section

attribute [local instance] HostLib.plain

/-- `l.add r3,r4,r5` -/
abbrev low : Instruction := decodeOrbis32Add 0xe0642800#32 (.blank 0x100#32 0xe0642800#32)

/-- `l.addc r3,r4,r5` -/
abbrev high : Instruction := decodeOrbis32Addc 0xe0642801#32 (.blank 0x104#32 0xe0642801#32)

theorem decode_low : decode low.insn = .orbis32Add := by decide

theorem decode_high : decode high.insn = .orbis32Addc := by decide

theorem full_low : low.Full := Instruction.full_handler (congrArg decodeTable decode_low) _

theorem full_high : high.Full := Instruction.full_handler (congrArg decodeTable decode_high) _

/-- Two limbs in `r4` and `r5`. -/
abbrev withLimbs (c : Core Memory) (a b : U32) : Core Memory := (c.setGpr 4 a).setGpr 5 b

theorem withLimbs_first (c : Core Memory) (a b : U32) : (withLimbs c a b).gpr 4 = a := by
  show Function.update (Function.update c.gpr 4 a) 5 b 4 = a
  rw [Function.update_of_ne (by decide), Function.update_self]

theorem withLimbs_second (c : Core Memory) (a b : U32) : (withLimbs c a b).gpr 5 = b := by
  show Function.update (Function.update c.gpr 4 a) 5 b 5 = b
  rw [Function.update_self]

/-- The instruction adds the limbs that are put in its registers. -/
theorem adds_withLimbs (hf : ci.Full) (ho : (decode ci.insn).addition = some (op, .rB))
    (ha : rA ci.insn = 4) (hb : rB ci.insn = 5) {c : Core Memory} (hr : c.RangeOff) (a b : U32) :
    ∃ r d, Adds op (withLimbs c a b) (a, b) r d ∧ d.RangeOff := by
  obtain ⟨d, hd, hdr, -⟩ := adds_of_full (c := withLimbs c a b) hf ho hr
  have h2 : Second.rB.value (withLimbs c a b) ci.insn = b :=
    (congrArg (withLimbs c a b).gpr hb).trans (withLimbs_second c a b)
  rw [ha, withLimbs_first, h2] at hd
  exact ⟨_, d, hd, hdr⟩

/-- Two numbers of two limbs. -/
theorem exists_adds (a b a' b' : U32) :
    ∃ c rs e, AddsNumbers (σ := Memory) c [(a, b), (a', b')] rs e := by
  have hr : (Memory.boot []).cpu.toCore.RangeOff := ⟨by decide, by decide⟩
  obtain ⟨r, d, hd, hdr⟩ := adds_withLimbs full_low (congrArg Opcode.addition decode_low)
    (by decide) (by decide) hr a b
  obtain ⟨r', e, he, -⟩ := adds_withLimbs full_high (congrArg Opcode.addition decode_high)
    (by decide) (by decide) hdr a' b'
  exact ⟨_, _, e, .intro hd (.cons (b := withLimbs d a' b') rfl he (.nil e))⟩

theorem limbs_added_iff_small : ∃ (rs : List U32) (e : Core Memory),
    value rs = (value [3#32, 4#32] + value [5#32, 6#32]) % 2 ^ (32 * 2) ∧ e.carry = false := by
  obtain ⟨c, rs, e, h⟩ := exists_adds 3#32 5#32 4#32 6#32
  have hno : ∀ p ∈ [(3#32, 5#32), (4#32, 6#32)], p.2 ≠ 0xffffffff#32 := by
    intro p hp
    rw [List.mem_cons, List.mem_singleton] at hp
    rcases hp with rfl | rfl <;> decide
  obtain ⟨hv, hc⟩ := (limbs_added_iff h).2 fun i a hi => (hno _ (List.mem_of_getElem? hi) rfl).elim
  exact ⟨rs, e, hv, hc.trans (by decide)⟩

/-- The carry of `0x00000000ffffffff + 0xffffffff00000001` is lost. -/
theorem limbs_added_iff_fails : ∃ (c e : Core Memory) (rs : List U32),
    AddsNumbers c [(0xffffffff#32, 1#32), (0#32, 0xffffffff#32)] rs e ∧ e.carry = false ∧
      value [0xffffffff#32, 0#32] + value [1#32, 0xffffffff#32] = 2 ^ (32 * 2) := by
  obtain ⟨c, rs, e, h⟩ := exists_adds 0xffffffff#32 1#32 0#32 0xffffffff#32
  refine ⟨c, e, rs, h, ?_, by decide⟩
  have hc := congrArg Prod.snd h.sums
  rw [show (Limbs.sums (2 ^ 32) 0 (pairs [(0xffffffff#32, 1#32), (0#32, 0xffffffff#32)])).2 = 0
    from by decide] at hc
  have hz : ∀ v : Bool, 0 = v.toNat → v = false := by decide
  exact hz e.carry hc

end

end Carry

end Or1kiss
