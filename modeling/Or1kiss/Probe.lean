import Or1kiss.Port
import Or1kiss.Refill

/-!
# Translations of a debugger

A debug request is translated without a trace in the MMU, and finds what the access of the guest
would find: the hit is the same one, and where the guest walks the page table the debugger walks
it too, by reads that the port answers alike (`EnvImpl.Candid`).
-/

namespace Or1kiss

open Bits

/-- A port that answers a debugger's data reads as it answers those of the guest. -/
def EnvImpl.Candid (σ : Type) [EnvImpl σ] : Prop := ∀ (req : Request) (w : World σ) (n : Nat),
  req.read = true → req.imem = false → (EnvImpl.transact req w).resp = .success →
    (EnvImpl.transact { req with debug := true, cycles := n } w).resp = .success ∧
      (EnvImpl.transact { req with debug := true, cycles := n } w).data =
        (EnvImpl.transact req w).data ∧
      (EnvImpl.transact { req with debug := true, cycles := n } w).world =
        (EnvImpl.transact req w).world

/-- A request of the guest and the one a debugger would make in its place. -/
def Request.Probed (req req' : Request) : Prop := ∃ n, req' = { req with debug := true, cycles := n }

variable {σ : Type} [EnvImpl σ]

namespace Env

variable {e : Env σ} {req req' : Request}

/-- A successful read is successful for a debugger, with the same data and the same effect. -/
def AnsweredAlike (x y : Response × Request × Env σ) : Prop :=
  x.1 = .success → y.1 = .success ∧ Request.Probed x.2.1 y.2.1 ∧ y.2.2 = x.2.2

theorem access_probed (hc : EnvImpl.Candid σ) (h : req.Probed req') (hr : req.read = true)
    (hi : req.imem = false) : AnsweredAlike (e.access req) (e.access req') := by
  obtain ⟨n, rfl⟩ := h
  have hp : ∀ q : Request, q.imem = false → e.directMemoryPtr q =
      (e.getDataPtr q.addr, { q with cycles := q.cycles + e.dataCycles }) := fun q hq => by
    unfold directMemoryPtr
    rw [hq, if_neg Bool.false_ne_true]
  unfold access
  rw [hp req hi, hp { req with debug := true, cycles := n } hi]
  dsimp only
  cases e.getDataPtr req.addr with
  | some ptr =>
    dsimp only
    split
    · unfold exclusiveAccess
      dsimp only
      rw [hr, if_pos rfl, if_pos rfl]
      exact fun _ => ⟨rfl, ⟨_, rfl⟩, rfl⟩
    · rw [hr]
      exact fun _ => ⟨rfl, ⟨_, rfl⟩, rfl⟩
  | none =>
    dsimp only
    intro hs
    obtain ⟨hresp, hdata, hworld⟩ := hc { req with cycles := req.cycles + e.dataCycles, endian := e.endian }
      e.world (n + e.dataCycles) hr hi hs
    exact ⟨hresp, ⟨_, by rw [hdata]⟩, by rw [hworld]⟩

theorem convertAndTransact_probed (hc : EnvImpl.Candid σ) (h : req.Probed req')
    (hr : req.read = true) (hi : req.imem = false) :
    AnsweredAlike (e.convertAndTransact req) (e.convertAndTransact req') := by
  by_cases hs : req.size > 1 ∧ req.endian ≠ e.endian
  · have hs' : req'.size > 1 ∧ req'.endian ≠ e.endian := by
      obtain ⟨n, rfl⟩ := h
      exact hs
    have hp : (e.swapped req).Probed (e.swapped req') := by
      obtain ⟨n, rfl⟩ := h
      exact ⟨n, rfl⟩
    rw [convertAndTransact_swapped hs, convertAndTransact_swapped hs']
    intro hok
    obtain ⟨hresp, ⟨k, hk⟩, henv⟩ := access_probed hc hp hr hi hok
    obtain ⟨n, rfl⟩ := h
    refine ⟨hresp, ⟨k, ?_⟩, henv⟩
    dsimp only
    rw [hk]
  · have hs' : ¬(req'.size > 1 ∧ req'.endian ≠ e.endian) := by
      obtain ⟨n, rfl⟩ := h
      exact hs
    rw [convertAndTransact_direct hs, convertAndTransact_direct hs']
    exact access_probed hc h hr hi

end Env

namespace Mmu

variable {m : Mmu} {env : Env σ} {req req' : Request}

theorem readPte_probed (env : Env σ) (hc : EnvImpl.Candid σ) (h : req.Probed req') (hr : req.read = true)
    (hi : req.imem = false) (addr : U32) (hok : (readPte env req addr).1 = .success) :
    (readPte env req' addr).1 = .success ∧
      (readPte env req' addr).2.1 = (readPte env req addr).2.1 ∧
      (readPte env req addr).2.2.1.Probed (readPte env req' addr).2.2.1 ∧
      (readPte env req' addr).2.2.2 = (readPte env req addr).2.2.2 := by
  have hp : Request.Probed { req with addr := addr, data := env.garbage 4, size := 4 }
      { req' with addr := addr, data := env.garbage 4, size := 4 } := by
    obtain ⟨n, rfl⟩ := h
    exact ⟨n, rfl⟩
  obtain ⟨n, rfl⟩ := h
  obtain ⟨hresp, ⟨k, hk⟩, henv⟩ := Env.convertAndTransact_probed hc hp hr hi hok
  refine ⟨hresp, ?_, ⟨k, hk⟩, henv⟩
  show ofBytes (Env.convertAndTransact env _).2.2.hostEndian (Env.convertAndTransact env _).2.1.data = _
  rw [hk, henv]
  rfl

/-- The request of a table read stays a data read. -/
theorem readPte_fields (env : Env σ) (req : Request) (addr : U32) :
    (readPte env req addr).2.2.1.imem = req.imem ∧
      (readPte env req addr).2.2.1.read = req.read := by
  obtain ⟨d, n, ha⟩ : Request.Answers { req with addr := addr, data := env.garbage 4, size := 4 }
    (readPte env req addr).2.2.1 := Env.convertAndTransact_answers ..
  rw [ha]
  exact ⟨rfl, rfl⟩

theorem walk_probed (hc : EnvImpl.Candid σ) (h : req.Probed req') {pte2 : U32} {cycles : Nat}
    (hw : (m.walk env req).1 = some (pte2, cycles)) :
    ∃ n, (m.walk env req').1 = some (pte2, n) := by
  have hq : (walkRequest env req).Probed (walkRequest env req') := by
    obtain ⟨n, rfl⟩ := h
    exact ⟨0, rfl⟩
  have haddr : req'.addr = req.addr := by
    obtain ⟨n, rfl⟩ := h
    rfl
  have h1 := readPte_probed env hc hq rfl rfl
    ((m.ctrl &&& MMUCR.PGD) + (bits32 req.addr 31 24 <<< 2))
  have hf := readPte_fields env (walkRequest env req)
    ((m.ctrl &&& MMUCR.PGD) + (bits32 req.addr 31 24 <<< 2))
  unfold walk at hw ⊢
  rw [haddr]
  dsimp only at hw ⊢
  split at hw
  · cases hw
  · rename_i hdir
    rw [if_neg hdir]
    split at hw <;> rename_i he1
    · rename_i pte1 r1 env1
      rw [he1] at h1 hf
      obtain ⟨hs1, hv1, hr1, henv1⟩ := h1 rfl
      generalize readPte env (walkRequest env req')
        ((m.ctrl &&& MMUCR.PGD) + (bits32 req.addr 31 24 <<< 2)) = x at hs1 hv1 hr1 henv1 ⊢
      obtain ⟨resp, v, r, e⟩ := x
      dsimp only at hs1 hv1 hr1 henv1 hf
      subst hs1 hv1 henv1
      dsimp only
      split at hw
      · cases hw
      · rename_i hz
        rw [if_neg hz]
        have h2 := readPte_probed e hc hr1 hf.2 hf.1
          (pageAlign v + (bits32 req.addr 23 13 <<< 2))
        split at hw <;> rename_i he2
        · rename_i pte r2 env2
          rw [he2] at h2
          obtain ⟨hs2, hv2, -, -⟩ := h2 rfl
          generalize readPte e r (pageAlign v + (bits32 req.addr 23 13 <<< 2)) = y at hs2 hv2 ⊢
          obtain ⟨resp, v2, r2', e2⟩ := y
          dsimp only at hs2 hv2
          subst hs2 hv2
          dsimp only
          split at hw
          · cases hw
          · rename_i hz2
            rw [if_neg hz2]
            cases hw
            exact ⟨_, rfl⟩
        · cases hw
    · cases hw

omit [EnvImpl σ] in
/-- Rights and records of accesses are not part of the page. -/
theorem pageAlign_refillTrans (pte2 : U32) (req : Request) :
    pageAlign (refillTrans pte2 req) = pageAlign pte2 := by
  unfold refillTrans
  dsimp only
  split
  · rw [pageAlign_accessed _ _ (by decide), pageAlign_accessed _ _ (by decide)]
  · exact pageAlign_accessed _ _ (by decide)

/-- A translation of the guest that succeeds, taken apart: the hit or the entry of the table. -/
theorem translate_okay (hd : req.debug = false) (ho : (m.translate env req).1 = .okay) :
    (∃ way, m.hitWay req.addr = some way ∧ (m.translate env req).2.2.2.addr =
      pageAlign (m.transReg way (m.setOf req.addr)) ||| pageOffset req.addr) ∨
    (m.hitWay req.addr = none ∧ ∃ pte2 cycles, (m.walk env req).1 = some (pte2, cycles) ∧
      (m.translate env req).2.2.2.addr = pageAlign pte2 ||| pageOffset req.addr) := by
  have ht := translate_translated m env hd
  generalize m.translate env req = r at ht ho
  cases ht with
  | refused res m' env' hr => exact (hr ho).elim
  | hit way m' req' hw hp hx ha => exact .inl ⟨way, hw, hx⟩
  | refill pte2 way m' env' req' hw hp hx hr =>
    obtain ⟨cycles, hwalk⟩ := hr.walked
    refine .inr ⟨hw, pte2, cycles, hwalk, ?_⟩
    rw [hx, pageAlign_refillTrans]

/-- What a debugger finds on a hit. -/
theorem translate_debug_hit {way : Nat} (hd : req.debug = true) (hw : m.hitWay req.addr = some way) :
    m.translate env req =
      (.okay, m, env, resolve req (m.transReg way (m.setOf req.addr))) := by
  unfold translate
  rw [hd, if_pos rfl]
  dsimp only
  rw [hw]
  dsimp only
  unfold hit
  dsimp only
  rw [if_pos hd]

/-- What a debugger finds in the page table. -/
theorem translate_debug_walk {pte2 : U32} {cycles : Nat} (hd : req.debug = true)
    (hw : m.hitWay req.addr = none) (hwalk : (m.walk env req).1 = some (pte2, cycles)) :
    (m.translate env req).1 = .okay ∧
      (m.translate env req).2.2.2.addr = pageAlign pte2 ||| pageOffset req.addr := by
  unfold translate
  rw [hd, if_pos rfl]
  dsimp only
  rw [hw]
  dsimp only
  rw [Bool.not_true, Bool.and_false, if_neg Bool.false_ne_true]
  generalize m.walk env req = x at hwalk ⊢
  obtain ⟨w, e⟩ := x
  dsimp only at hwalk
  subst hwalk
  dsimp only
  have ht : (if (req.imem && test pte2 MMUPTE.EXEC) = true then
      pte2 ||| MMUPTE.CC ||| (MMU.SXE ||| MMU.UXE) else pte2 ||| MMUPTE.CC) =
      refillTrans pte2 req := rfl
  unfold refill
  dsimp only
  rw [hd, Bool.not_true, Bool.and_false, if_neg Bool.false_ne_true, if_pos rfl, ht]
  refine ⟨rfl, ?_⟩
  dsimp only
  rw [← pageAlign_transMask, accessed_transMask, pageAlign_transMask, pageAlign_refillTrans]

theorem translate_debug_cycles (hd : req.debug = true) :
    (m.translate env req).2.2.2.cycles = req.cycles := by
  unfold translate
  rw [hd, if_pos rfl]
  dsimp only
  split
  · unfold hit
    dsimp only
    rw [if_pos hd]
    rfl
  · split
    · rfl
    · split
      · rfl
      · unfold refill
        dsimp only
        rw [hd, Bool.not_true, Bool.and_false, if_neg Bool.false_ne_true, if_pos rfl]

/-- A debug request leaves the MMU and its own cycles alone, and where the guest would find an
address the debugger finds it too. -/
theorem debug_translates (hc : EnvImpl.Candid σ) (m : Mmu) (env : Env σ) (hd : req.debug = true) :
    (m.translate env req).2.1 = m ∧ (m.translate env req).2.2.2.cycles = req.cycles ∧
      ((m.translate env { req with debug := false }).1 = .okay →
        (m.translate env req).1 = .okay ∧ (m.translate env req).2.2.2.addr =
          (m.translate env { req with debug := false }).2.2.2.addr) := by
  refine ⟨translate_debug hd, translate_debug_cycles hd, fun ho => ?_⟩
  obtain ⟨way, hw, ha⟩ | ⟨hw, pte2, cycles, hwalk, ha⟩ := translate_okay rfl ho
  · rw [ha, translate_debug_hit hd hw]
    exact ⟨rfl, rfl⟩
  · have hp : Request.Probed { req with debug := false } req := ⟨req.cycles, by rw [← hd]⟩
    obtain ⟨n, hn⟩ := walk_probed hc hp hwalk
    rw [ha]
    exact translate_debug_walk hd hw hn

end Mmu

/-- The simulator's memory answers a debugger alike. -/
theorem Memory.candid : EnvImpl.Candid Memory := by
  intro req w n hr hi h
  change (Memory.transact req w).resp = .success at h
  show (Memory.transact { req with debug := true, cycles := n } w).resp = .success ∧
    (Memory.transact { req with debug := true, cycles := n } w).data = (Memory.transact req w).data ∧
    (Memory.transact { req with debug := true, cycles := n } w).world = (Memory.transact req w).world
  unfold Memory.transact at h ⊢
  dsimp only
  by_cases hs : w.dev.size < (req.addr + BitVec.ofNat 32 req.size).toNat
  · rw [if_pos hs] at h
    cases h
  · rw [if_neg hs, if_neg hs, hr]
    exact ⟨rfl, rfl, rfl⟩

/-- A load that walks the page table, and the debug request in its place. -/
theorem Mmu.debug_translates_walk :
    (Mmu.tableMmu.translate Mmu.tableEnv { Mmu.tableLoad false with debug := true }).1 = .okay :=
  have hd : ({ Mmu.tableLoad false with debug := true } : Request).debug = true := rfl
  ((Mmu.debug_translates Memory.candid Mmu.tableMmu Mmu.tableEnv hd).2.2 (by decide +kernel)).1

end Or1kiss
