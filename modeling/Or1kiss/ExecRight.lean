import Or1kiss.Refill

/-!
# The right to execute

The table walk or-s the execute bits into the entry of an executable page. They are the bits by
which data pages are read and written in user mode, and the raw entry keeps these: a page that is
not executable is fetched from all the same if it has the bit that the fetch asks for.
-/

namespace Or1kiss

open Bits

namespace Mmu

variable {σ : Type} [EnvImpl σ] {m : Mmu} {env : Env σ} {req : Request} {pte2 : U32} {cycles : Nat}

/-- A fetch that the table walk resolves by `pte2` goes through for an executable page only, and so
do the fetches from that page that hit on the entry it leaves in the TLB. -/
structure ExecutesOnly (m : Mmu) (env : Env σ) (req : Request) (pte2 : U32) : Prop where
  okay : (m.translate env req).1 = .okay → test pte2 MMUPTE.EXEC = true
  fault : test pte2 MMUPTE.EXEC = false → (m.translate env req).1 = .pageFault
  cached : (m.translate env req).1 = .okay → ∀ (env' : Env σ) (req' : Request),
    req'.debug = false → req'.imem = true → pageAlign req'.addr = pageAlign req.addr →
      ((m.translate env req).2.1.translate env' req').1 = .okay → test pte2 MMUPTE.EXEC = true

/-- What a walk decides: the rights of the entry, with those of an executable page. -/
theorem translate_walked (hd : req.debug = false) (hw : m.hitWay req.addr = none)
    (hc : test m.cfg MMUCFG.HTR = true) (hwalk : (m.walk env req).1 = some (pte2, cycles)) :
    (m.translate env req).1 =
      if test (refillTrans pte2 req) (accessMask req) then .okay else .pageFault := by
  have ha : Alike m (m.age (m.setOf req.addr)) := alike_age (m.setOf_lt req.addr)
  have hn : (m.age (m.setOf req.addr)).hitWay req.addr = none := (ha.hitWay rfl).trans hw
  have hcfg : test (m.age (m.setOf req.addr)).cfg MMUCFG.HTR = true := by
    rw [ha.cfg]
    exact hc
  have hwa : ((m.age (m.setOf req.addr)).walk env req).1 = some (pte2, cycles) := by
    rw [walk_alike ha]
    exact hwalk
  unfold translate
  rw [hd, if_neg Bool.false_ne_true]
  dsimp only
  rw [hn]
  dsimp only
  rw [hcfg, if_neg (show ¬(!true && !false) = true from Bool.false_ne_true)]
  generalize (m.age (m.setOf req.addr)).walk env req = r at hwa ⊢
  obtain ⟨x, e⟩ := r
  dsimp only at hwa
  subst hwa
  show ((m.age (m.setOf req.addr)).refill pte2 cycles req).1 = _
  unfold refill
  dsimp only
  have ht : (if (req.imem && test pte2 MMUPTE.EXEC) = true then
      pte2 ||| MMUPTE.CC ||| (MMU.SXE ||| MMU.UXE) else pte2 ||| MMUPTE.CC) =
      refillTrans pte2 req := rfl
  rw [ht, hd]
  cases test (refillTrans pte2 req) (accessMask req) <;> rfl

theorem accessMask_fetch (hd : req.debug = false) (hi : req.imem = true) :
    accessMask req = if req.super then MMU.SXE else MMU.UXE := by
  unfold accessMask
  rw [hd, hi, if_neg Bool.false_ne_true, if_pos rfl]

/-- The rights by which a fetch is let through. -/
theorem test_refillTrans (hd : req.debug = false) (hi : req.imem = true) :
    test (refillTrans pte2 req) (accessMask req) =
      (test pte2 MMUPTE.EXEC || test pte2 (accessMask req)) := by
  have hmask : accessMask req &&& (MMUPTE.CC : U32) = 0#32 ∧
      test (MMU.SXE ||| MMU.UXE) (accessMask req) = true := by
    rw [accessMask_fetch hd hi]
    split <;> decide
  have hcc : test (pte2 ||| MMUPTE.CC) (accessMask req) = test pte2 (accessMask req) := by
    unfold test
    rw [or_and_of_disjoint (by rw [BitVec.and_comm]; exact hmask.1)]
  unfold refillTrans
  dsimp only
  rw [hi, Bool.true_and]
  cases test pte2 MMUPTE.EXEC with
  | true =>
    rw [if_pos rfl, test_or, hmask.2, Bool.or_true, Bool.true_or]
  | false =>
    rw [if_neg Bool.false_ne_true, hcc, Bool.false_or]

/-- A fetch that the table walk resolves is kept from a page that is not executable if and only if
the entry of the page lacks the bit that the fetch asks for. -/
theorem fetch_executes_iff (hd : req.debug = false) (hi : req.imem = true)
    (hw : m.hitWay req.addr = none) (hc : test m.cfg MMUCFG.HTR = true)
    (hwalk : (m.walk env req).1 = some (pte2, cycles)) :
    ExecutesOnly m env req pte2 ↔
      test pte2 MMUPTE.EXEC = true ∨ test pte2 (accessMask req) = false := by
  have ht := translate_walked hd hw hc hwalk
  rw [test_refillTrans hd hi] at ht
  constructor
  · intro h
    cases hx : test pte2 MMUPTE.EXEC with
    | true => exact .inl rfl
    | false =>
      right
      have hf := h.fault hx
      rw [ht, hx, Bool.false_or] at hf
      by_contra hp
      rw [if_pos (eq_true_of_ne_false hp)] at hf
      cases hf
  · intro h
    cases hx : test pte2 MMUPTE.EXEC with
    | true => exact ⟨fun _ => hx, fun hf => (nomatch hx.symm.trans hf), fun _ _ _ _ _ _ _ => hx⟩
    | false =>
      have hp := h.resolve_left (by rw [hx]; exact Bool.false_ne_true)
      rw [hx, hp, Bool.false_or, if_neg Bool.false_ne_true] at ht
      have hne : (m.translate env req).1 ≠ .okay := by
        rw [ht]
        decide
      exact ⟨fun ho => (hne ho).elim, fun _ => ht, fun ho => (hne ho).elim⟩

/-! ## A page of data -/

/-- The page table of `tableEnv` with `pte2` for the first page. -/
def pteEnv (pte2 : U32) : Env Memory :=
  Memory.env 0x8000 (Memory.image [(0x2000, 0x4000#32), (0x4000, pte2)])

/-- A fetch of the supervisor. -/
def tableFetch : Request :=
  { Request.init .little with read := true, imem := true, super := true, size := 4 }

/-- A page that user mode may read and that is not executable. -/
theorem fetch_executes_fails : ∃ (m : Mmu) (env : Env Memory) (req : Request) (pte2 : U32)
    (cycles : Nat), req.debug = false ∧ req.imem = true ∧ m.hitWay req.addr = none ∧
      test m.cfg MMUCFG.HTR = true ∧ (m.walk env req).1 = some (pte2, cycles) ∧
        ¬ExecutesOnly m env req pte2 := by
  refine ⟨tableMmu, pteEnv 0x140#32, tableFetch, 0x140#32, 4, rfl, rfl, by decide +kernel,
    by decide, by decide +kernel, fun h => ?_⟩
  have ho : (tableMmu.translate (pteEnv 0x140#32) tableFetch).1 = .okay := by decide +kernel
  exact absurd (h.okay ho) (by decide)

/-- A page that the supervisor may read and that is not executable. -/
theorem fetch_executes_supervisor : ExecutesOnly tableMmu (pteEnv 0x100#32) tableFetch 0x100#32 :=
  have hwalk : (tableMmu.walk (pteEnv 0x100#32) tableFetch).1 = some (0x100#32, 4) := by
    decide +kernel
  (fetch_executes_iff rfl rfl (by decide +kernel) (by decide) hwalk).2 (.inr (by decide))

end Mmu

end Or1kiss
