import Or1kiss.Memory
import Or1kiss.Tlb
import Or1kiss.Transition

/-!
# The same-page shortcut of `fetch`

`m_virt_ipg` and `m_phys_ipg` answer for the instruction MMU while fetches stay on one page.
Nothing invalidates them. `coverAfter` follows what they were filled with: `some super` means
that a translation in this mode filled them, and that no write has touched that translation
since. Under this cover the shortcut answers as the MMU does (`agrees_of_covered`).
-/

namespace Or1kiss

open Host Bits Runs

variable {σ : Type}

/-! ## Writes that leave a translation alone -/

namespace Mmu

variable {m : Mmu} {addr mask phys : U32}

theorem maps_setCr {val : U32} (h : m.Maps addr mask phys)
    (hv : (test val MMUCR.DTF || test val MMUCR.ITF) = false) :
    (m.setCr val).Maps addr mask phys := by
  unfold setCr
  rw [hv, Bool.and_false, if_neg Bool.false_ne_true]
  exact h

/-- Invalidating the entry of another page. -/
theorem maps_flushTlbEntry {ea : U32} (h : m.Maps addr mask phys)
    (hm : mask &&& transMask = mask) (hne : pageAlign ea ≠ pageAlign addr) :
    (m.flushTlbEntry ea).Maps addr mask phys := by
  have hs := m.setOf_lt ea
  unfold flushTlbEntry
  dsimp only
  generalize m.setOf ea = set at hs ⊢
  generalize List.range m.numWays = ways
  induction ways generalizing m with
  | nil => exact h
  | cons way ways ih =>
    rw [List.foldl_cons]
    apply ih
    split
    · rename_i hp
      have hp : pageAlign (m.matchReg way set) ≠ pageAlign addr := by
        rw [← pageAlign_eq_iff.1 hp, pageAlign_idem]
        exact hne
      refine h.of_matching hm rfl (fun way' => ?_) (fun way' => ?_)
      · have hs' := m.setOf_lt addr
        have hset : (m.write (tlbMR way set) (m.matchReg way set &&& ~~~MMUM.V)).setOf addr =
            m.setOf addr := rfl
        unfold matching
        rw [hset, matchReg_write_match]
        split
        · rename_i heq
          obtain ⟨rfl, hse⟩ := tlbMR_inj hs hs' heq
          rw [hse, test_and_not_self, Bool.false_and]
          have hf : pageCompare (pageAlign addr) (m.matchReg way' set) = false := by
            rw [Bool.eq_false_iff]
            intro hc
            rw [pageAlign_eq_iff, pageAlign_idem] at hc
            exact hp hc.symm
          rw [hf, Bool.and_false]
        · rfl
      · unfold entry
        rw [transReg_write_match hs (m.setOf_lt addr)]
    · exact h

/-- Writing a register of another set. -/
theorem maps_setTlb {reg val : U32} (h : m.Maps addr mask phys)
    (hm : mask &&& transMask = mask) (hne : (reg &&& 0x7f#32).toNat ≠ m.setOf addr) :
    (m.setTlb reg val).Maps addr mask phys := by
  have hs := m.setOf_lt addr
  have hlow : (reg &&& 0x7f#32).toNat = reg.toNat % 128 := by
    rw [BitVec.toNat_and]
    exact Nat.and_two_pow_sub_one_eq_mod reg.toNat 7
  rw [hlow] at hne
  have hmr : ∀ way, tlbMR way (m.setOf addr) ≠ reg.toNat := fun way he => by
    unfold tlbMR at he
    omega
  have htr : ∀ way, tlbTR way (m.setOf addr) ≠ reg.toNat := fun way he => by
    unfold tlbTR tlbMR at he
    omega
  have hmatch : ∀ way, (m.write reg.toNat val).matchReg way (m.setOf addr) =
      m.matchReg way (m.setOf addr) := fun way => Function.update_of_ne (hmr way) _ _
  have htrans : ∀ way, (m.write reg.toNat val).transReg way (m.setOf addr) =
      m.transReg way (m.setOf addr) := fun way => Function.update_of_ne (htr way) _ _
  unfold setTlb
  dsimp only
  split
  · exact h
  · refine h.of_matching hm rfl (fun way => ?_) (fun way => ?_)
    · unfold matching
      rw [show (m.write reg.toNat val).setOf addr = m.setOf addr from rfl, hmatch]
    · unfold entry
      rw [htrans]

end Mmu

/-! ## The address step -/

namespace Core

variable {c c' : Core σ} {g : Option Bool}

/-- The right that a fetch needs. -/
def fetchMask (super : Bool) : U32 := if super then MMU.SXE else MMU.UXE

theorem fetchMask_transMask (super : Bool) : fetchMask super &&& transMask = fetchMask super := by
  cases super <;> decide

/-- What the shortcut holds, the ITLB holds. -/
structure Covered (g : Option Bool) (c : Core σ) : Prop where
  debug : c.ireq.debug = false
  imem : c.ireq.imem = true
  maps : ∀ super, g = some super → c.immu.Maps c.virtIpg (fetchMask super) c.physIpg

theorem Covered.of_itlb (h : Covered g c) (hi : c'.itlb = c.itlb) : Covered g c' := by
  obtain ⟨h1, h2, h3, h4, h5⟩ := by simpa only [itlb, Prod.mk.injEq] using hi
  refine ⟨h4.trans h.debug, h5.trans h.imem, fun super hs => ?_⟩
  rw [h1, h2, h3]
  exact h.maps super hs

theorem Covered.none (h : Covered g c) : Covered none c := ⟨h.debug, h.imem, nofun⟩

theorem accessMask_fetchRequest (hd : c.ireq.debug = false) (hm : c.ireq.imem = true) :
    accessMask c.fetchRequest = fetchMask c.isSupervisor := by
  unfold accessMask
  rw [show c.fetchRequest.debug = false from hd, show c.fetchRequest.imem = true from hm]
  rfl

variable [EnvImpl σ]

/-- The address step of `fetch` does what the instruction MMU says. -/
def AgreesWithMmu (c : Core σ) : Prop :=
  match c.translateFetch with
  | (.okay, t) => ∃ c', c.fetchAddress = .ok (true, c') ∧ c'.ireq.addr = t.ireq.addr
  | (.tlbMiss, t) => c.fetchAddress = t.refuse .insnTlbMiss
  | (.pageFault, t) => c.fetchAddress = t.refuse .insnPageFault

/-- Under cover, the shortcut is what the MMU would answer. -/
theorem agrees_of_covered (h : Covered g c) (ha : c.isImmuActive = true)
    (hs : c.samePage = true → g = some c.isSupervisor) : AgreesWithMmu c := by
  by_cases hp : c.samePage = true
  · have hmap := (h.maps _ (hs hp)).page (pageAlign_eq_iff.1 hp)
    rw [← accessMask_fetchRequest h.debug h.imem] at hmap
    obtain ⟨ho, hx⟩ := Mmu.translate_of_maps c.env
      (show c.immu.Maps c.fetchRequest.addr (accessMask c.fetchRequest) c.physIpg from hmap)
      (show c.fetchRequest.debug = false from h.debug)
    have ht : c.translateFetch.1 = .okay := ho
    have hx : c.translateFetch.2.ireq.addr = c.physIpg ||| pageOffset c.nextPc := hx
    have hfetch : c.fetchAddress = .ok (true, { c with ireq :=
        { c.fetchRequest with addr := c.physIpg ||| pageOffset c.nextPc } }) := by
      unfold fetchAddress
      rw [if_pos ha, if_pos hp]
    unfold AgreesWithMmu
    split <;> rename_i he <;> rw [he] at ht hx
    · exact ⟨_, hfetch, hx.symm⟩
    · cases ht
    · cases ht
  · unfold AgreesWithMmu fetchAddress
    rw [if_pos ha, if_neg hp]
    generalize c.translateFetch = tf
    obtain ⟨res, t⟩ := tf
    cases res with
    | okay => exact ⟨_, rfl, rfl⟩
    | tlbMiss => rfl
    | pageFault => rfl

/-- A shortcut that answers where the MMU would refuse. -/
theorem not_agrees_of_samePage (ha : c.isImmuActive = true) (hs : c.samePage = true)
    (hr : c.translateFetch.1 ≠ .okay) : ¬AgreesWithMmu c := by
  have hfetch : c.fetchAddress = .ok (true, { c with ireq :=
      { c.fetchRequest with addr := c.physIpg ||| pageOffset c.nextPc } }) := by
    unfold fetchAddress
    rw [if_pos ha, if_pos hs]
  intro h
  unfold AgreesWithMmu at h
  split at h <;> rename_i t he
  · rw [he] at hr
    exact hr rfl
  all_goals
    rw [hfetch] at h
    obtain ⟨hf, -⟩ := refuse_ok (c := t) rfl h.symm
    cases hf

/-- The address step fills the shortcut. -/
def fills (c : Core σ) : Bool :=
  c.isImmuActive && !c.samePage && (c.immu.translate c.env c.fetchRequest).1 == .okay

/-- What covers the shortcut after a fetch. -/
def fetchCover (g : Option Bool) (c : Core σ) : Option Bool :=
  if c.fills then some c.isSupervisor else g

theorem covered_fetch (h : Covered g c) (ha : Addressed c c') : Covered (fetchCover g c) c' := by
  cases ha with
  | kept hs hi =>
    have hf : c.fills = false := by
      unfold fills
      cases hact : c.isImmuActive with
      | true => rw [hs hact]; rfl
      | false => rfl
    rw [fetchCover, hf]
    exact h.of_itlb hi
  | refused hact hs hr hi =>
    have hf : c.fills = false := by
      unfold fills
      rw [beq_false_of_ne hr, Bool.and_false]
    have hal : Mmu.Alike c.immu (c.immu.translate c.env c.fetchRequest).2.1 := by
      have ht := Mmu.translate_translated c.immu c.env
        (show c.fetchRequest.debug = false from h.debug)
      generalize c.immu.translate c.env c.fetchRequest = r at ht hr
      cases ht with
      | refused res m' env' hr' ha hw => exact ha
      | hit | refill => exact (hr rfl).elim
    obtain ⟨h1, h2, h3, h4, h5⟩ := by simpa only [itlb, Prod.mk.injEq] using hi
    rw [fetchCover, hf]
    refine ⟨h4.trans h.debug, h5.trans h.imem, fun super hg => ?_⟩
    rw [h1, h2, h3]
    exact (h.maps super hg).alike (fetchMask_transMask super) hal
  | filled hact hs hr hi =>
    have hf : c.fills = true := by
      unfold fills
      rw [hact, hs, hr]
      rfl
    obtain ⟨h1, h2, h3, h4, h5⟩ := by simpa only [itlb, Prod.mk.injEq] using hi
    rw [fetchCover, if_pos hf]
    refine ⟨h4.trans h.debug, h5.trans h.imem, fun super hg => ?_⟩
    cases hg
    rw [h1, h2, h3, ← accessMask_fetchRequest h.debug h.imem]
    exact (Mmu.maps_of_translate (show c.fetchRequest.debug = false from h.debug) hr).page
      (pageAlign_idem _).symm

end Core

/-! ## Register writes -/

namespace Core

variable {c c' : Core σ} {g : Option Bool}

theorem Kept.itlb (h : Kept c c') : c'.itlb = c.itlb := by
  unfold Core.itlb
  rw [h.immu, h.virtIpg, h.physIpg, h.ireq]

/-- Writes of the register file that reach the set of the shortcut's page. -/
def fileTouches (c : Core σ) (f : SprFile) (off : U32) : Bool :=
  match f with
  | .itlb => (off &&& 0x7f#32).toNat == c.immu.setOf c.virtIpg
  | _ => false

/-- Writes of the named registers that reach the translation of the shortcut's page. -/
def regTouches (c : Core σ) (r : SpReg) (val : U32) : Bool :=
  match r with
  | .immucr => test val MMUCR.DTF || test val MMUCR.ITF
  | .itlbeir => pageAlign val == pageAlign c.virtIpg
  | _ => false

theorem covered_writeFile {f : SprFile} {off val : U32} (h : Covered g c)
    (ht : c.fileTouches f off = false) : Covered g (c.writeFile f off val) := by
  cases f with
  | itlb =>
    refine ⟨h.debug, h.imem, fun super hs => ?_⟩
    have hne : (off &&& 0x7f#32).toNat ≠ c.immu.setOf c.virtIpg := by
      unfold fileTouches at ht
      exact ne_of_beq_false ht
    exact Mmu.maps_setTlb (h.maps super hs) (fetchMask_transMask super) hne
  | gpr | datb | dtlb | iatb => exact h.of_itlb rfl

theorem covered_writeReg {r : SpReg} (val : U32) (h : Covered g c)
    (ht : c.regTouches r val = false) : Covered g (c.writeReg r val) := by
  cases r with
  | immucr =>
    refine ⟨h.debug, h.imem, fun super hs => ?_⟩
    exact Mmu.maps_setCr (h.maps super hs) ht
  | itlbeir =>
    refine ⟨h.debug, h.imem, fun super hs => ?_⟩
    have hne : pageAlign val ≠ pageAlign c.virtIpg := by
      unfold regTouches at ht
      exact ne_of_beq_false ht
    exact Mmu.maps_flushTlbEntry (h.maps super hs) (fetchMask_transMask super) hne
  | picsr =>
    unfold writeReg
    dsimp only
    split <;> exact h.of_itlb rfl
  | _ => exact h.of_itlb rfl

end Core

namespace Or1k

variable {s x f : Or1k σ} {ci : Instruction} {g : Option Bool}

/-- A register write may change the translation that the shortcut holds. -/
def touches (s : Or1k σ) (reg val : U32) : Bool :=
  match SpReg.ofNum reg with
  | some r => s.toCore.regTouches r val
  | none =>
    match SprFile.ofNum reg.toNat with
    | some f => s.toCore.fileTouches f (f.offset reg)
    | none => false

/-- `l.mtspr` is such a write, and its mode permits it. -/
def mtsprTouches (f : Or1k σ) (ci : Instruction) : Bool :=
  match ci.exec, f.toCore.deref ci ci.dest, f.toCore.deref ci ci.src1 with
  | some .mtspr, .ok a, .ok b => !f.writeDenied (a ||| ci.imm) false && f.touches (a ||| ci.imm) b
  | _, _, _ => false

theorem Steady.itlb (h : Steady s x) : x.toCore.itlb = s.toCore.itlb := by
  unfold Core.itlb
  rw [h.immu, h.virtIpg, h.physIpg, h.ireq]

variable [EnvImpl σ]

theorem covered_regWritten {reg val : U32} (h : Core.Covered g s.toCore)
    (ht : s.touches reg val = false) : Core.Covered g (s.regWritten reg val).toCore := by
  unfold touches at ht
  unfold regWritten
  cases hr : SpReg.ofNum reg with
  | none =>
    rw [hr] at ht
    dsimp only at ht ⊢
    cases hf : SprFile.ofNum reg.toNat with
    | none => exact h
    | some f =>
      rw [hf] at ht
      exact Core.covered_writeFile h ht
  | some r =>
    rw [hr] at ht
    have hw := Core.covered_writeReg val h ht
    cases r with
    | icbir | ttmr | ttcr => exact h
    | pmr => exact hw.of_itlb dozed_steady.itlb
    | _ => exact hw

theorem sprWritten_ireq (reg val : U32) (debug : Bool) :
    (s.sprWritten reg val debug).ireq = s.ireq := by
  obtain ⟨-, he⟩ | hw := sprWritten_cases (s := s) reg val debug
  · rw [he]
    exact dozed_steady.ireq
  · exact hw.ireq

/-- A write covers no more than before, and nothing where it touches. -/
theorem covered_sprWritten {reg val : U32} (h : Core.Covered g s.toCore) (debug : Bool) :
    Core.Covered (if !s.writeDenied reg debug && s.touches reg val then none else g)
      (s.sprWritten reg val debug).toCore := by
  by_cases ht : (!s.writeDenied reg debug && s.touches reg val) = true
  · rw [if_pos ht]
    have hi := sprWritten_ireq (s := s) reg val debug
    exact ⟨by rw [hi]; exact h.debug, by rw [hi]; exact h.imem, nofun⟩
  · rw [if_neg ht]
    have hb : Core.Covered g s.requestBreak.toCore := h.of_itlb rfl
    unfold sprWritten
    split
    · exact hb
    · rename_i hd
      apply covered_regWritten hb
      have hd : s.writeDenied reg debug = false := by simpa using hd
      rw [hd] at ht
      have ht : s.touches reg val = false := by simpa using ht
      exact ht

variable [HostLib]

/-- Only `l.mtspr` reaches the instruction MMU. -/
theorem executed_itlb (hx : Executed ci f x) (hm : ci.exec ≠ some .mtspr) :
    x.toCore.itlb = f.toCore.itlb := by
  cases hx with
  | plain c limit e he hp hr =>
    obtain ⟨ts, hs, -⟩ := hr
    exact hs.kept.itlb
  | untaken e he hj ht => rfl
  | taken e target r c he hj ht hs hr =>
    have hk := (Core.scheduleJump_outcomes hs).1
    exact hk.itlb
  | mtspr a b he ha hb => exact (hm he).elim
  | nop x he hn =>
    obtain ⟨rfl, -⟩ | ⟨rfl, -⟩ | ⟨c, rfl, hb, -⟩ := nop_ok hn
    · rfl
    · rfl
    · exact hb.kept.itlb
  | rfe x he hx =>
    obtain ⟨c, hc, rfl⟩ := rfe_ok hx
    have hr : (f.withCore c).rfeRestored.toCore.itlb = c.itlb := by
      unfold rfeRestored
      split <;> rfl
    rw [hr]
    obtain ⟨-, rfl⟩ | ⟨-, -, rfl⟩ := Core.scheduleJump_cases hc
    · rfl
    · exact Core.itlb_entered _ _

theorem covered_executed (h : Core.Covered g f.toCore) (hx : Executed ci f x) :
    Core.Covered (if f.mtsprTouches ci then none else g) x.toCore := by
  by_cases hm : ci.exec = some .mtspr
  · obtain ⟨a, b, ha, hb, rfl⟩ := hx.of_mtspr hm
    unfold mtsprTouches
    rw [hm, ha, hb]
    exact covered_sprWritten h false
  · have hc : f.mtsprTouches ci = false := by
      unfold mtsprTouches
      split
      · exact (hm ‹_›).elim
      · rfl
    rw [hc]
    exact h.of_itlb (executed_itlb hx hm)

end Or1k

namespace Machine

open Or1k

variable [EnvImpl σ] [HostLib]

/-- What covers the shortcut after an instruction. -/
def instructionCover (g : Option Bool) (s : Or1k σ) : Option Bool :=
  match s.fetch with
  | .ok (some ci, f) => if f.mtsprTouches ci then none else Core.fetchCover g s.toCore
  | _ => Core.fetchCover g s.toCore

/-- What covers the shortcut after a step. -/
def coverAfter (g : Option Bool) (st : Move (Machine σ) (Action σ)) : Option Bool :=
  match st.act with
  | .run => if st.pre.executes then instructionCover g st.pre.cpu.beginCycle else g
  | .writeSpr reg val => if st.pre.cpu.touches reg val then none else g
  | _ => g

/-- The simulator with what covers its shortcut. -/
abbrev covering : System (Machine σ × Option Bool) (Action σ) := system.watch coverAfter

theorem covered_fetchExecute {s x : Or1k σ} {g : Option Bool} (h : Core.Covered g s.toCore)
    (hx : s.fetchExecute = .ok x) : Core.Covered (instructionCover g s) x.toCore := by
  unfold instructionCover
  obtain ⟨ci, f, hf, -, he⟩ | ⟨hf, -⟩ := fetchExecute_ok hx
  · rw [hf]
    exact covered_executed (Core.covered_fetch h (fetch_addressed hf)) he
  · rw [hf]
    exact Core.covered_fetch h (fetch_addressed hf)

theorem covered_fetchExecute_throw {s x : Or1k σ} {g : Option Bool}
    (h : Core.Covered g s.toCore) (hx : s.fetchExecute = .throw x) :
    Core.Covered (instructionCover g s) x.toCore := by
  unfold instructionCover
  rcases fetchExecute_throw hx with hx | ⟨ci, f, e, c, hf, -, he, hm, rfl⟩
  · rw [hx]
    exact Core.covered_fetch h (fetch_throw_addressed hx)
  · have hc := Core.covered_fetch h (fetch_addressed hf)
    have ht : f.mtsprTouches ci = false := by
      unfold mtsprTouches
      rw [he]
    rw [hf]
    dsimp only
    rw [ht]
    exact hc.of_itlb (Core.executeMem_throw_effects hm).kept.itlb

omit [HostLib] in
theorem outside_itlb {s s' : Or1k σ} {a : Action σ} (h : outside s a = .ok s')
    (hw : ∀ reg val, a ≠ .writeSpr reg val) : s'.toCore.itlb = s.toCore.itlb := by
  cases outside_ok h with
  | writeSpr reg val => exact (hw reg val rfl).elim
  | writeGpr | world | setUp => rfl

/-- Every step keeps the shortcut covered. -/
theorem step_covered {q q' : Machine σ × Option Bool} {a : Action σ}
    (hn : covering.next q a = some q') (h : Core.Covered q.2 q.1.cpu.toCore) :
    Core.Covered q'.2 q'.1.cpu.toCore := by
  obtain ⟨m, g⟩ := q
  obtain ⟨m', hm, rfl⟩ := System.watch_next hn
  dsimp only at hm h ⊢
  unfold coverAfter
  cases act_transition hm with
  | begin r s n => exact h.of_itlb (began_steady (n := n)).itlb
  | mini s hl => exact h.of_itlb rfl
  | finish s hl => exact h
  | iterate limit s x hl hx =>
    have he : (⟨.inner limit, s⟩ : Machine σ).executes = true := decide_eq_true hl
    rw [retired_cpu]
    dsimp only
    rw [he, if_pos rfl]
    have hc : Core.Covered g s.beginCycle.toCore := h.of_itlb rfl
    exact (covered_fetchExecute hc hx).of_itlb (redirect_frame (·.itlb) x fun _ _ _ _ => rfl)
  | throw limit s x hl hx =>
    have he : (⟨.inner limit, s⟩ : Machine σ).executes = true := decide_eq_true hl
    dsimp only
    rw [he, if_pos rfl]
    have hc : Core.Covered g s.beginCycle.toCore := h.of_itlb rfl
    exact covered_fetchExecute_throw hc hx
  | leave limit s hl =>
    have he : (⟨.inner limit, s⟩ : Machine σ).executes = false := decide_eq_false hl
    dsimp only
    rw [he]
    exact h
  | drain s =>
    rw [drained_cpu]
    exact h.of_itlb (timerUpdated_steady.trans externalChecked_steady).itlb
  | interrupt p s id set =>
    refine h.of_itlb ?_
    show (s.toCore.interrupt id set).itlb = s.toCore.itlb
    obtain ⟨v, he⟩ := s.toCore.interrupt_eq id set
    rw [he]
    rfl
  | outside r s s' a ha ho =>
    cases a with
    | call | run | interrupt => cases ha
    | writeSpr reg val =>
      have ho : s.setSpr reg val true = .ok s' := ho
      rw [setSpr_eq] at ho
      cases ho
      exact covered_sprWritten h true
    | _ => exact h.of_itlb (outside_itlb ho nofun)

/-- In every run from reset, `fetch` addresses as the instruction MMU would, at any program
counter off the page of the shortcut, and on it while the shortcut is covered for this mode. -/
theorem shortcut_agrees {env : Env σ} {size : Nat} {m : Machine σ} {g : Option Bool}
    (h : covering.Run (init env size, none) (m, g)) (pc : U32)
    (ha : m.cpu.isImmuActive = true)
    (hs : pageCompare m.cpu.virtIpg pc = true → g = some m.cpu.isSupervisor) :
    Core.AgreesWithMmu ({ m.cpu.beginCycle.toCore with nextPc := pc }) := by
  have h0 : Core.Covered none (init env size).cpu.toCore := ⟨rfl, rfl, nofun⟩
  have hc : Core.Covered g m.cpu.toCore :=
    h.invariant (P := fun q => Core.Covered q.2 q.1.cpu.toCore)
      (fun q a q' hq _ hn => step_covered hn hq) h0
  have hc : Core.Covered g ({ m.cpu.beginCycle.toCore with nextPc := pc }) := hc.of_itlb rfl
  exact Core.agrees_of_covered hc ha hs

end Machine

namespace Machine

open Or1k

attribute [local instance] HostLib.plain

/-- Turn the instruction MMU on with a page table for the first page, then take the page table
away and flush. -/
def flushProgram : List (Nat × U32) :=
  [(0x100, 0x9c602000#32), (0x104, 0xc0401800#32), (0x108, 0x9c800041#32), (0x10c, 0xc0002011#32),
   (0x110, 0x9ca00001#32), (0x114, 0xc0402800#32), (0x118, 0x15000000#32), (0x2000, 0x4000#32),
   (0x4000, 0x7c0#32)]

/-- After the flush the MMU would miss, and `fetch` goes on. -/
theorem shortcut_agrees_fails : ∃ m : Machine Memory, system.Run (Memory.boot flushProgram) m ∧
    m.executes = true ∧ m.cpu.isImmuActive = true ∧
      ¬Core.AgreesWithMmu m.cpu.beginCycle.toCore := by
  obtain ⟨m, hr, hm⟩ := System.exists_run system (Memory.boot flushProgram)
    (.call 1000#32 :: List.replicate 13 .run)
    (fun m => m.executes && m.cpu.isImmuActive && m.cpu.beginCycle.toCore.samePage &&
      m.cpu.beginCycle.toCore.translateFetch.1 == .tlbMiss)
    (by decide +kernel)
  simp only [Bool.and_eq_true, beq_iff_eq] at hm
  obtain ⟨⟨⟨hx, ha⟩, hs⟩, ht⟩ := hm
  refine ⟨m, hr, hx, ha, Core.not_agrees_of_samePage ha hs ?_⟩
  rw [ht]
  nofun

/-- Before the flush the shortcut is covered, and answers as the MMU would. -/
theorem shortcut_agrees_warm : ∃ (m : Machine Memory) (g : Option Bool),
    covering.Run (Memory.boot flushProgram, none) (m, g) ∧ m.cpu.isImmuActive = true ∧
      m.cpu.samePage = true ∧
      Core.AgreesWithMmu ({ m.cpu.beginCycle.toCore with nextPc := m.cpu.nextPc }) := by
  obtain ⟨⟨m, g⟩, hr, hm⟩ := System.exists_run covering (Memory.boot flushProgram, none)
    (.call 1000#32 :: List.replicate 10 .run)
    (fun q => q.1.cpu.isImmuActive && q.1.cpu.samePage && q.2 == some q.1.cpu.isSupervisor)
    (by decide +kernel)
  simp only [Bool.and_eq_true, beq_iff_eq] at hm
  obtain ⟨⟨ha, hs⟩, hg⟩ := hm
  exact ⟨m, g, hr, ha, hs, shortcut_agrees hr m.cpu.nextPc ha fun _ => hg⟩

end Machine

end Or1kiss
