import Or1kiss.Account
import Or1kiss.Memory
import Or1kiss.Tlb

/-!
# The map of the special purpose registers

Three switches say what a special purpose register is: the table of access rights
(`spr_get_access`), the reader (`get_spr`) and the writer (`set_spr`). A register that the
table lists as readable and writable for a supervisor should hold what is written to it, and
leave the others alone. The writer has no case for DMMUPR and IMMUPR.
-/

namespace Or1kiss

open Host Bits Runs

variable {σ : Type}

/-- The table lists the register as readable and writable for a supervisor only, and it is not one
of the unimplemented ATB, DCCR and ICCR registers. -/
structure Listed (reg : U32) : Prop where
  access : sprGetAccess reg = .superReadWrite
  dccr : reg ≠ SpReg.dccr.num
  iccr : reg ≠ SpReg.iccr.num
  datb : SprFile.ofNum reg.toNat ≠ some .datb
  iatb : SprFile.ofNum reg.toNat ≠ some .iatb

/-- A register that the writer has a case for: what becomes of a value is not always the value. -/
def SpReg.stores : SpReg → Bool
  | .evbar | .aecr | .aesr | .npc | .sr | .ppc | .fpcsr | .epcr | .eear | .esr | .dmmucr | .immucr
  | .maclo | .machi | .pmr | .picmr | .picsr | .ttmr | .ttcr => true
  | _ => false

/-- The two registers of protection that are listed, and never written. -/
def SpReg.protects : SpReg → Bool
  | .dmmupr | .immupr => true
  | _ => false

def SprFile.stores : SprFile → Bool
  | .gpr | .dtlb | .itlb => true
  | .datb | .iatb => false

theorem SprFile.ofNum_toInt {reg : U32} {f : SprFile} (h : SprFile.ofNum reg.toInt = some f) :
    SprFile.ofNum reg.toNat = some f := by
  have hi : reg.toInt = reg.toNat ∨ reg.toInt < 0 := by
    rw [BitVec.toInt_eq_toNat_cond]
    have := reg.isLt
    split <;> omega
  rcases hi with hi | hi
  · rwa [hi] at h
  · have hf := List.find?_some h
    simp only [Bool.and_eq_true, decide_eq_true_eq] at hf
    have : (0 : Int) ≤ f.range.1 := Int.natCast_nonneg _
    omega

/-- A listed register has a name, or lies in a file. -/
theorem Listed.cases {reg : U32} (h : Listed reg) :
    (∃ w, reg = SpReg.num w ∧ (w.stores = true ∨ w.protects = true)) ∨
      (SpReg.ofNum reg = none ∧ ∃ f, SprFile.ofNum reg.toNat = some f ∧ f.stores = true) := by
  have ha := h.access
  unfold sprGetAccess at ha
  cases hw : SpReg.ofNum reg with
  | some w =>
    rw [hw] at ha
    dsimp only at ha
    have hreg := Or1k.SpReg.num_of_ofNum hw
    refine .inl ⟨w, hreg, ?_⟩
    cases w with
    | dccr => exact (h.dccr hreg).elim
    | iccr => exact (h.iccr hreg).elim
    | _ => first | exact .inl rfl | exact .inr rfl | cases ha
  | none =>
    rw [hw] at ha
    dsimp only at ha
    cases hf : SprFile.ofNum reg.toInt with
    | none =>
      rw [hf] at ha
      cases ha
    | some f =>
      have hf' := SprFile.ofNum_toInt hf
      refine .inr ⟨rfl, f, hf', ?_⟩
      cases f with
      | datb => exact (h.datb hf').elim
      | iatb => exact (h.iatb hf').elim
      | _ => rfl

namespace Mmu

variable {m : Mmu} {reg r val : U32}

/-- Way and set of a register of the TLB exist. -/
def hasEntry (m : Mmu) (reg : U32) : Bool :=
  decide ((reg >>> 8).toNat < m.numWays) && decide ((reg &&& 0x7f#32).toNat < m.numSets)

theorem getTlb_eq (m : Mmu) (reg : U32) :
    m.getTlb reg = if m.hasEntry reg then m.tlb reg.toNat else 0#32 := by
  unfold getTlb hasEntry
  simp only [ge_iff_le, Bool.and_eq_true, decide_eq_true_eq]
  split_ifs <;> first | rfl | omega

theorem setTlb_eq (m : Mmu) (reg val : U32) :
    m.setTlb reg val = if m.hasEntry reg then m.write reg.toNat val else m := by
  unfold setTlb hasEntry
  simp only [ge_iff_le, Bool.and_eq_true, decide_eq_true_eq]
  split_ifs <;> first | rfl | omega

theorem setTlb_regs (m : Mmu) (reg val : U32) : (m.setTlb reg val).cfg = m.cfg ∧
    (m.setTlb reg val).ctrl = m.ctrl ∧ (m.setTlb reg val).prot = m.prot := by
  rw [setTlb_eq]
  split <;> exact ⟨rfl, rfl, rfl⟩

theorem hasEntry_congr {m' : Mmu} (h : m'.cfg = m.cfg) : m'.hasEntry reg = m.hasEntry reg := by
  unfold hasEntry numWays numSets
  rw [h]

theorem getTlb_setTlb (h : m.hasEntry reg = true) : (m.setTlb reg val).getTlb reg = val := by
  rw [getTlb_eq, hasEntry_congr (setTlb_regs m reg val).1, h, if_pos rfl, setTlb_eq, h, if_pos rfl]
  exact Function.update_self ..

theorem getTlb_setTlb_of_ne (h : r ≠ reg) : (m.setTlb reg val).getTlb r = m.getTlb r := by
  rw [getTlb_eq, getTlb_eq, hasEntry_congr (setTlb_regs m reg val).1, setTlb_eq]
  have hne : r.toNat ≠ reg.toNat := fun he => h (BitVec.eq_of_toNat_eq he)
  split
  · split
    · exact Function.update_of_ne hne ..
    · rfl
  · rfl

theorem setCr_regs (m : Mmu) (val : U32) : (m.setCr val).cfg = m.cfg ∧ (m.setCr val).prot = m.prot := by
  unfold setCr
  dsimp only
  split <;> exact ⟨rfl, rfl⟩

theorem flushTlbEntry_cfg (m : Mmu) (ea : U32) : (m.flushTlbEntry ea).cfg = m.cfg := by
  unfold flushTlbEntry
  dsimp only
  generalize m.setOf ea = set
  generalize List.range m.numWays = ways
  induction ways generalizing m with
  | nil => rfl
  | cons way ways ih =>
    rw [List.foldl_cons, ih]
    split <;> rfl

theorem translate_cfg [EnvImpl σ] (m : Mmu) (env : Env σ) (req : Request) :
    (m.translate env req).2.1.cfg = m.cfg := by
  rcases m.translate_entries env req with ha | ⟨pte2, way, hr⟩
  · exact ha.cfg
  · exact hr.cfg

/-- Without the flush bit the TLB stays. -/
theorem getTlb_setCr (h : test val MMUCR.DTF = false) : (m.setCr val).getTlb r = m.getTlb r := by
  rw [getTlb_eq, getTlb_eq, hasEntry_congr (setCr_regs m val).1]
  unfold setCr
  rw [h, Bool.or_false, Bool.and_false]
  rfl

end Mmu

namespace Core

variable {c : Core σ} {w r : SpReg} {f g : SprFile} {off off' val : U32}

/-- The value of a register of the core after a write to it. -/
def settledReg (c : Core σ) (val : U32) : SpReg → U32
  | .picmr => val ||| picNmi
  | .picsr => if c.picLevel then c.picSr else c.picSr &&& ~~~val
  | .dmmucr | .immucr => val &&& ~~~(MMUCR.DTF ||| MMUCR.ITF)
  | _ => val

/-- A write to a named register leaves the other named registers alone. -/
theorem readReg_writeReg_of_ne (hw : w.stores = true) (h : r ≠ w) :
    (c.writeReg w val).readReg r = c.readReg r := by
  have hcr := fun m : Mmu => m.setCr_regs val
  cases w with
  | dmmucr =>
    cases r with
    | dmmucr => exact (h rfl).elim
    | dmmucfgr => exact (hcr c.dmmu).1
    | dmmupr => exact (hcr c.dmmu).2
    | _ => rfl
  | immucr =>
    cases r with
    | immucr => exact (h rfl).elim
    | immucfgr => exact (hcr c.immu).1
    | immupr => exact (hcr c.immu).2
    | _ => rfl
  | picsr =>
    unfold writeReg
    dsimp only
    split
    · cases r <;> first | rfl | exact (h rfl).elim
    · rfl
  | evbar | aecr | aesr | npc | sr | ppc | fpcsr | epcr | eear | esr | maclo | machi | pmr | picmr =>
    cases r <;> first | rfl | exact (h rfl).elim
  | ttmr | ttcr => rfl
  | _ => cases hw

theorem readReg_writeReg (hw : w.stores = true) (hm : w ≠ .ttmr) (hc : w ≠ .ttcr) :
    (c.writeReg w val).readReg w = c.settledReg val w := by
  cases w with
  | picsr =>
    unfold writeReg settledReg
    dsimp only
    cases c.picLevel <;> rfl
  | ttmr => exact (hm rfl).elim
  | ttcr => exact (hc rfl).elim
  | _ => first | rfl | cases hw

/-- Only a write to a control register reaches a file, and only to flush. -/
theorem readFile_writeReg (hw : w.stores = true)
    (hd : w = .dmmucr → f = .dtlb → test val MMUCR.DTF = false)
    (hi : w = .immucr → f = .itlb → test val MMUCR.ITF = false) :
    (c.writeReg w val).readFile f off = c.readFile f off := by
  cases w with
  | dmmucr =>
    cases f with
    | dtlb => exact Mmu.getTlb_setCr (hd rfl rfl)
    | _ => rfl
  | immucr =>
    cases f with
    | itlb => exact Mmu.getTlb_setCr (hi rfl rfl)
    | _ => rfl
  | picsr =>
    unfold writeReg
    dsimp only
    split <;> cases f <;> rfl
  | evbar | aecr | aesr | npc | sr | ppc | fpcsr | epcr | eear | esr | maclo | machi | pmr | picmr |
    ttmr | ttcr => cases f <;> rfl
  | _ => cases hw

theorem readReg_writeFile : (c.writeFile f off val).readReg r = c.readReg r := by
  have ht := fun m : Mmu => m.setTlb_regs off val
  cases f with
  | gpr | datb | iatb => cases r <;> rfl
  | dtlb =>
    cases r with
    | dmmucfgr => exact (ht c.dmmu).1
    | dmmucr => exact (ht c.dmmu).2.1
    | dmmupr => exact (ht c.dmmu).2.2
    | _ => rfl
  | itlb =>
    cases r with
    | immucfgr => exact (ht c.immu).1
    | immucr => exact (ht c.immu).2.1
    | immupr => exact (ht c.immu).2.2
    | _ => rfl

theorem readFile_writeFile_of_ne (h : g = f → off' ≠ off) :
    (c.writeFile f off val).readFile g off' = c.readFile g off' := by
  cases f with
  | gpr =>
    cases g with
    | gpr =>
      have hne : off'.toNat ≠ off.toNat := fun he => h rfl (BitVec.eq_of_toNat_eq he)
      exact Function.update_of_ne hne ..
    | _ => rfl
  | datb | iatb => cases g <;> rfl
  | dtlb =>
    cases g with
    | dtlb => exact Mmu.getTlb_setTlb_of_ne (h rfl)
    | _ => rfl
  | itlb =>
    cases g with
    | itlb => exact Mmu.getTlb_setTlb_of_ne (h rfl)
    | _ => rfl

end Core

namespace Or1k

variable {s : Or1k σ} {reg r val : U32} {w d : Bool}

/-- A write of a control register flushes the TLB that `r` lies in. -/
def Flushes (reg val r : U32) : Prop := test val MMUCR.DTF = true ∧
  ((reg = SpReg.dmmucr.num ∧ SprFile.ofNum r.toNat = some .dtlb) ∨
    (reg = SpReg.immucr.num ∧ SprFile.ofNum r.toNat = some .itlb))

/-- What a register should hold after a write. -/
def settled (s : Or1k σ) (reg val : U32) : U32 :=
  match SpReg.ofNum reg with
  | some r => s.toCore.settledReg val r
  | none => val

/-- A read that is not denied is that of a debugger. -/
theorem getSpr_eq (s : Or1k σ) (reg : U32) (d : Bool) :
    s.getSpr reg d = if s.readDenied reg d then 0#32 else s.getSpr reg true := rfl

variable [EnvImpl σ]

theorem regWritten_stores {n : SpReg} (hw : n.stores = true) (hm : n ≠ .ttmr) (hc : n ≠ .ttcr)
    (hp : n = .pmr → test val PMR.DME = false) :
    s.regWritten n.num val = s.withCore (s.toCore.writeReg n val) := by
  cases n with
  | pmr =>
    rw [regWritten_pmr]
    exact dozed_awake (hp rfl)
  | ttmr => exact (hm rfl).elim
  | ttcr => exact (hc rfl).elim
  | icbir => cases hw
  | _ =>
    unfold regWritten
    rw [SpReg.ofNum_num]

theorem regWritten_protects {n : SpReg} (hw : n.protects = true) : s.regWritten n.num val = s := by
  unfold regWritten
  rw [SpReg.ofNum_num]
  cases n with
  | dmmupr | immupr => rfl
  | _ => cases hw

theorem regWritten_file {f : SprFile} (hn : SpReg.ofNum reg = none)
    (hf : SprFile.ofNum reg.toNat = some f) :
    s.regWritten reg val = s.withCore (s.toCore.writeFile f (f.offset reg) val) := by
  unfold regWritten
  rw [hn]
  dsimp only
  rw [hf]

omit [EnvImpl σ] in
/-- A read of a changed core, register by register. -/
theorem getSpr_withCore {c : Core σ}
    (hr : ∀ n, r = SpReg.num n → c.readReg n = s.toCore.readReg n)
    (hf : ∀ f, SprFile.ofNum r.toNat = some f →
      c.readFile f (f.offset r) = s.toCore.readFile f (f.offset r)) :
    (s.withCore c).getSpr r true = s.getSpr r true := by
  have hd : ∀ x : Or1k σ, x.readDenied r true = false := fun _ => rfl
  unfold getSpr
  rw [hd, hd, if_neg Bool.false_ne_true, if_neg Bool.false_ne_true]
  cases hn : SpReg.ofNum r with
  | some n =>
    have hreg := SpReg.num_of_ofNum hn
    cases n with
    | ttmr | ttcr => rfl
    | _ => exact hr _ hreg
  | none =>
    dsimp only
    cases hg : SprFile.ofNum r.toNat with
    | none => rfl
    | some f => exact hf f hg

omit [EnvImpl σ] in
theorem getSpr_num {n : SpReg} (hm : n ≠ .ttmr) (hc : n ≠ .ttcr) :
    s.getSpr n.num true = s.toCore.readReg n := by
  have hd : s.readDenied n.num true = false := rfl
  unfold getSpr
  rw [hd, if_neg Bool.false_ne_true, SpReg.ofNum_num]
  cases n with
  | ttmr => exact (hm rfl).elim
  | ttcr => exact (hc rfl).elim
  | _ => rfl

omit [EnvImpl σ] in
theorem getSpr_file {f : SprFile} (hn : SpReg.ofNum reg = none)
    (hf : SprFile.ofNum reg.toNat = some f) :
    s.getSpr reg true = s.toCore.readFile f (f.offset reg) := by
  have hd : s.readDenied reg true = false := rfl
  unfold getSpr
  rw [hd, if_neg Bool.false_ne_true, hn]
  dsimp only
  rw [hf]

omit [EnvImpl σ] in
theorem offset_ne {f : SprFile} (h : r ≠ reg) : f.offset r ≠ f.offset reg := by
  unfold SprFile.offset
  intro he
  have hadd := congrArg (· + BitVec.ofNat 32 f.range.1) he
  rw [BitVec.sub_add_cancel, BitVec.sub_add_cancel] at hadd
  exact h hadd

/-- A write leaves the other registers alone, unless it flushes them. -/
theorem getSpr_regWritten_of_ne (hl : Listed reg) (hp : reg = SpReg.pmr.num → test val PMR.DME = false)
    (h : r ≠ reg) (hf : ¬Flushes reg val r) : (s.regWritten reg val).getSpr r true = s.getSpr r true := by
  rcases hl.cases with ⟨w, rfl, hw | hw⟩ | ⟨hn, f, hfile, hs⟩
  · by_cases ht : w = .ttmr ∨ w = .ttcr
    · have hset : ∃ t : Tick, s.regWritten w.num val = { s with tick := t } ∧
          (w ≠ .ttmr → t.ttmr = s.tick.ttmr) ∧ (w ≠ .ttcr → t.ttcr = s.tick.ttcr) := by
        rcases ht with rfl | rfl
        · refine ⟨_, regWritten_ttmr, fun hn => (hn rfl).elim, fun _ => ?_⟩
          rw [Tick.setTtmr_eq]
        · refine ⟨_, regWritten_ttcr, fun _ => ?_, fun hn => (hn rfl).elim⟩
          rw [Tick.setTtcr_eq]
      obtain ⟨t, he, hm, hc⟩ := hset
      have hd : ∀ x : Or1k σ, x.readDenied r true = false := fun _ => rfl
      rw [he]
      unfold getSpr
      rw [hd, hd, if_neg Bool.false_ne_true, if_neg Bool.false_ne_true]
      cases hn : SpReg.ofNum r with
      | none => rfl
      | some n =>
        have hne : n ≠ w := by
          rintro rfl
          exact h (SpReg.num_of_ofNum hn)
        cases n with
        | ttmr => exact hm hne.symm
        | ttcr => exact hc hne.symm
        | _ => rfl
    · have hm : w ≠ .ttmr := fun he => ht (.inl he)
      have hc : w ≠ .ttcr := fun he => ht (.inr he)
      rw [regWritten_stores hw hm hc fun he => hp (congrArg SpReg.num he)]
      refine getSpr_withCore (fun n hr => ?_) fun f hfile => ?_
      · refine Core.readReg_writeReg_of_ne hw ?_
        rintro rfl
        exact h hr
      · refine Core.readFile_writeReg hw ?_ ?_
        · rintro rfl rfl
          exact Bool.eq_false_iff.2 fun hv => hf ⟨hv, .inl ⟨rfl, hfile⟩⟩
        · rintro rfl rfl
          exact Bool.eq_false_iff.2 fun hv => hf ⟨hv, .inr ⟨rfl, hfile⟩⟩
  · rw [regWritten_protects hw]
  · rw [regWritten_file hn hfile]
    refine getSpr_withCore (fun n _ => Core.readReg_writeFile) fun g hg => ?_
    refine Core.readFile_writeFile_of_ne ?_
    rintro rfl
    exact offset_ne h

/-- The MMUs as the constructor of the CPU configures them. -/
structure Configured (c : Core σ) : Prop where
  dmmu : c.dmmu.cfg = MMUCFG.cpu
  immu : c.immu.cfg = MMUCFG.cpu

omit [EnvImpl σ] in
theorem range_of_ofNum {f : SprFile} (h : SprFile.ofNum reg.toNat = some f) :
    f.range.1 ≤ reg.toNat ∧ reg.toNat < f.range.2 := by
  have hf := List.find?_some h
  simp only [Bool.and_eq_true, decide_eq_true_eq] at hf
  omega

omit [EnvImpl σ] in
/-- Every register in the range of a TLB has its entry. -/
theorem hasEntry_of_configured {m : Mmu} (hm : m.cfg = MMUCFG.cpu) {off : U32}
    (h : off.toNat < 0x400) : m.hasEntry off = true := by
  have hw : m.numWays = 4 := by
    unfold Mmu.numWays
    rw [hm]
    decide
  have hs : m.numSets = 128 := by
    unfold Mmu.numSets
    rw [hm]
    decide
  have h1 : (off >>> 8).toNat < 4 := by
    rw [BitVec.toNat_ushiftRight, Nat.shiftRight_eq_div_pow]
    omega
  have h2 : (off &&& 0x7f#32).toNat < 128 := by
    rw [BitVec.toNat_and]
    exact Nat.and_lt_two_pow _ (n := 7) (by decide)
  unfold Mmu.hasEntry
  rw [hw, hs, decide_eq_true h1, decide_eq_true h2]
  rfl

omit [EnvImpl σ] in
theorem offset_lt {f : SprFile} (h : SprFile.ofNum reg.toNat = some f) :
    (f.offset reg).toNat < f.range.2 - f.range.1 := by
  obtain ⟨h1, h2⟩ := range_of_ofNum h
  have hr : (BitVec.ofNat 32 f.range.1).toNat = f.range.1 := by cases f <;> rfl
  unfold SprFile.offset
  rw [BitVec.toNat_sub_of_le (by rw [BitVec.le_def, hr]; exact h1), hr]
  omega

/-- What a register holds after a write to it. -/
theorem getSpr_regWritten (hc : Configured s.toCore) (hl : Listed reg)
    (hp : reg = SpReg.pmr.num → test val PMR.DME = false)
    (hn : ∀ n, reg = SpReg.num n → n.protects = false) :
    (s.regWritten reg val).getSpr reg true = s.settled reg val := by
  unfold settled
  rcases hl.cases with ⟨w, rfl, hw | hw⟩ | ⟨hno, f, hfile, hs⟩
  · rw [SpReg.ofNum_num]
    dsimp only
    by_cases hm : w = .ttmr
    · subst hm
      rw [regWritten_ttmr, Tick.setTtmr_eq]
      rfl
    · by_cases ht : w = .ttcr
      · subst ht
        rw [regWritten_ttcr, Tick.setTtcr_eq]
        rfl
      · rw [regWritten_stores hw hm ht fun he => hp (congrArg SpReg.num he), getSpr_num hm ht]
        exact Core.readReg_writeReg hw hm ht
  · cases hw.symm.trans (hn w rfl)
  · have hlt := offset_lt hfile
    rw [hno, regWritten_file hno hfile, getSpr_file hno hfile]
    cases f with
    | gpr => exact Function.update_self ..
    | dtlb => exact Mmu.getTlb_setTlb (hasEntry_of_configured hc.dmmu hlt)
    | itlb => exact Mmu.getTlb_setTlb (hasEntry_of_configured hc.immu hlt)
    | datb | iatb => cases hs

/-- `get_spr` returns what `set_spr` wrote, and no other register reads differently but by a
flush. -/
def RoundTrip (s : Or1k σ) (reg val : U32) (w d : Bool) : Prop :=
  ∃ s', s.setSpr reg val w = .ok s' ∧ s'.getSpr reg d = s.settled reg val ∧
    ∀ r, r ≠ reg → ¬Flushes reg val r → s'.getSpr r d = s.getSpr r d

/-- The register is not one of protection, or holds the value already; and a write of SR leaves the
reader its rights. -/
structure Sound (s : Or1k σ) (reg val : U32) (d : Bool) : Prop where
  protects : ∀ n, reg = SpReg.num n → n.protects = true → val = s.toCore.readReg n
  rights : reg = SpReg.sr.num → d = true ∨ test val SR.SM = true ∨ test val SR.SUMRA = true

/-- The mode that decides on reads, after a write. -/
theorem readsSuper_regWritten (hp : reg = SpReg.pmr.num → test val PMR.DME = false) :
    (s.regWritten reg val).readsSuper =
      if reg = SpReg.sr.num then test val SR.SM || test val SR.SUMRA else s.readsSuper := by
  by_cases hsr : reg = SpReg.sr.num
  · rw [if_pos hsr, hsr, regWritten_stores rfl SpReg.noConfusion SpReg.noConfusion
      fun h => SpReg.noConfusion h]
    rfl
  · rw [if_neg hsr]
    have hst : (s.regWritten reg val).status = s.status := by
      by_cases hpm : reg = SpReg.pmr.num
      · have hdme := hp hpm
        subst hpm
        rw [regWritten_stores rfl SpReg.noConfusion SpReg.noConfusion fun _ => hdme]
        rfl
      · exact (regWritten_write hpm val).status hsr
    show (test (s.regWritten reg val).status SR.SM || test (s.regWritten reg val).status SR.SUMRA) = _
    rw [hst]
    rfl

theorem setSpr_listed (hs : s.isSupervisor = true) (hl : Listed reg) :
    s.setSpr reg val w = .ok (s.requestBreak.regWritten reg val) := by
  have hw : s.writeDenied reg w = false := by
    unfold writeDenied sprCheckAccess
    rw [hs, hl.access]
    cases w <;> rfl
  rw [setSpr_eq]
  unfold sprWritten
  rw [hw, if_neg Bool.false_ne_true]

/-- For every register that the table lists, every supervisor state and every value, a write and
a read agree and the other registers stay, if and only if the register is not DMMUPR or IMMUPR, or
holds the value already, and the reader is still allowed to read. -/
theorem round_trip_iff (hs : s.isSupervisor = true) (hc : Configured s.toCore) (hl : Listed reg)
    (hp : reg = SpReg.pmr.num → test val PMR.DME = false) :
    RoundTrip s reg val w d ↔ Sound s reg val d := by
  have hset : s.setSpr reg val w = .ok (s.requestBreak.regWritten reg val) := setSpr_listed hs hl
  have hsuper : s.readsSuper = true := by
    unfold readsSuper
    rw [hs, Bool.true_or]
  have hmode := readsSuper_regWritten (s := s.requestBreak) hp
  have hread : s.readDenied reg d = false := by
    unfold readDenied sprCheckAccess
    rw [hsuper, hl.access]
    cases d <;> rfl
  by_cases hr : reg = SpReg.sr.num → d = true ∨ test val SR.SM = true ∨ test val SR.SUMRA = true
  · -- the reader keeps its rights
    have hden : ∀ r, (s.requestBreak.regWritten reg val).readDenied r d = s.readDenied r d := by
      intro r
      have hk : d = true ∨ (s.requestBreak.regWritten reg val).readsSuper = true := by
        rw [hmode]
        by_cases hsr : reg = SpReg.sr.num
        · rw [if_pos hsr, Bool.or_eq_true]
          exact hr hsr
        · rw [if_neg hsr]
          exact .inr hsuper
      unfold readDenied
      rcases hk with hk | hk
      · rw [hk]
        rfl
      · rw [hk, hsuper]
    have hframe : ∀ r, r ≠ reg → ¬Flushes reg val r →
        (s.requestBreak.regWritten reg val).getSpr r d = s.getSpr r d := by
      intro r hne hf
      rw [getSpr_eq _ r d, hden, getSpr_regWritten_of_ne hl hp hne hf]
      rfl
    have hval : (s.requestBreak.regWritten reg val).getSpr reg d =
        (s.requestBreak.regWritten reg val).getSpr reg true := by
      rw [getSpr_eq _ reg d, hden, hread, if_neg Bool.false_ne_true]
    by_cases hpr : ∀ n, reg = SpReg.num n → n.protects = false
    · have hsound : ∀ n, reg = SpReg.num n → n.protects = true → val = s.toCore.readReg n := by
        intro n hn hx
        cases hx.symm.trans (hpr n hn)
      refine iff_of_true ⟨_, hset, ?_, hframe⟩ ⟨hsound, hr⟩
      exact hval.trans (getSpr_regWritten (s := s.requestBreak) ⟨hc.dmmu, hc.immu⟩ hl hp hpr)
    · obtain ⟨n, hn⟩ := not_forall.1 hpr
      obtain ⟨rfl, hn⟩ := Classical.not_imp.1 hn
      have hn : n.protects = true := by simpa using hn
      have hm : n ≠ .ttmr ∧ n ≠ .ttcr := by
        constructor <;>
        · rintro rfl
          cases hn
      have hheld : (s.requestBreak.regWritten n.num val).getSpr n.num d = s.toCore.readReg n := by
        rw [hval, regWritten_protects hn, getSpr_num hm.1 hm.2]
        rfl
      have hwant : s.settled n.num val = val := by
        unfold settled
        rw [SpReg.ofNum_num]
        cases n with
        | dmmupr | immupr => rfl
        | _ => cases hn
      constructor
      · rintro ⟨s', hs', hv, -⟩
        cases hset.symm.trans hs'
        refine ⟨fun k hk _ => ?_, hr⟩
        have hkn : k = n := by
          have := congrArg SpReg.ofNum hk
          rw [SpReg.ofNum_num, SpReg.ofNum_num] at this
          exact (Option.some.inj this).symm
        rw [hkn, ← hheld, hv, hwant]
      · rintro ⟨hx, -⟩
        refine ⟨_, hset, ?_, hframe⟩
        rw [hheld, hwant, hx n rfl hn]
  · -- the write of SR ends supervisor mode, and VR is no longer read
    obtain ⟨rfl, hr'⟩ := Classical.not_imp.1 hr
    simp only [not_or, Bool.not_eq_true] at hr'
    obtain ⟨hd, hsm, hsumra⟩ := hr'
    refine iff_of_false ?_ fun h => hr h.rights
    rintro ⟨s', hs', -, hf⟩
    cases hset.symm.trans hs'
    have hvr := hf SpReg.vr.num (by decide) (by
      rintro ⟨-, ⟨h, -⟩ | ⟨h, -⟩⟩ <;> exact absurd h (by decide))
    have hafter : (s.requestBreak.regWritten SpReg.sr.num val).getSpr SpReg.vr.num d = 0#32 := by
      rw [if_pos rfl, hsm, hsumra] at hmode
      rw [getSpr_eq, hd]
      unfold readDenied
      rw [hmode]
      rfl
    have hbefore : s.getSpr SpReg.vr.num d = Config.version := by
      rw [getSpr_eq, hd]
      unfold readDenied
      rw [hsuper]
      rfl
    rw [hafter, hbefore] at hvr
    exact absurd hvr (by decide)

end Or1k

/-! ## DMMUPR and TTCR -/

namespace Or1k

theorem listed_dmmupr : Listed SpReg.dmmupr.num := by constructor <;> decide

/-- What a supervisor writes to DMMUPR is lost. -/
theorem round_trip_iff_fails : ∃ s : Or1k Memory, s.isSupervisor = true ∧ Configured s.toCore ∧
    Listed SpReg.dmmupr.num ∧ ∀ w d, ¬RoundTrip s SpReg.dmmupr.num 1#32 w d := by
  refine ⟨(Memory.boot []).cpu, by decide, ⟨rfl, rfl⟩, listed_dmmupr, ?_⟩
  rintro w d ⟨s', hs, hv, -⟩
  rw [setSpr_listed (by decide) listed_dmmupr, regWritten_protects rfl] at hs
  cases hs
  revert hv
  cases d <;> decide

/-- TTCR in the state after reset. -/
theorem round_trip_ttcr : RoundTrip (Memory.boot []).cpu SpReg.ttcr.num 5#32 false false := by
  have hpr : ∀ n, SpReg.ttcr.num = SpReg.num n → n.protects = false := by
    intro n hn
    cases n <;> first | rfl | exact absurd hn (by decide)
  refine (round_trip_iff (by decide) ⟨rfl, rfl⟩ (by constructor <;> decide) (by decide)).2
    ⟨fun n hn hx => ?_, by decide⟩
  cases hx.symm.trans (hpr n hn)

end Or1k

/-! ## The configuration in every run -/

namespace Core

variable {c b x : Core σ} {ci : Instruction}

def mmuCfg (c : Core σ) : U32 × U32 := (c.dmmu.cfg, c.immu.cfg)

theorem entered_mmuCfg (t : ExType) (addr : U32) : (c.entered t addr).mmuCfg = c.mmuCfg := by
  unfold entered
  dsimp only
  split <;> rfl

theorem scheduleJump_mmuCfg {target : U32} {delay : Nat} (h : c.scheduleJump target delay = .ok x) :
    x.mmuCfg = c.mmuCfg := by
  obtain ⟨-, rfl⟩ | ⟨-, -, rfl⟩ := scheduleJump_cases h
  · rfl
  · exact entered_mmuCfg _ _

theorem writeReg_mmuCfg (r : SpReg) (val : U32) : (c.writeReg r val).mmuCfg = c.mmuCfg := by
  cases r with
  | dmmucr => exact congrArg (·, c.immu.cfg) (c.dmmu.setCr_regs val).1
  | immucr => exact congrArg (c.dmmu.cfg, ·) (c.immu.setCr_regs val).1
  | dtlbeir => exact congrArg (·, c.immu.cfg) (Mmu.flushTlbEntry_cfg c.dmmu val)
  | itlbeir => exact congrArg (c.dmmu.cfg, ·) (Mmu.flushTlbEntry_cfg c.immu val)
  | picsr =>
    unfold writeReg
    dsimp only
    split <;> rfl
  | _ => rfl

theorem writeFile_mmuCfg (f : SprFile) (off val : U32) :
    (c.writeFile f off val).mmuCfg = c.mmuCfg := by
  cases f with
  | dtlb => exact congrArg (·, c.immu.cfg) (c.dmmu.setTlb_regs off val).1
  | itlb => exact congrArg (c.dmmu.cfg, ·) (c.immu.setTlb_regs off val).1
  | _ => rfl

variable [EnvImpl σ]

theorem Effects.mmuCfg {m : Bool} {ts : List ExType} (h : Effects m c ts x) : x.mmuCfg = c.mmuCfg := by
  induction h with
  | refl => rfl
  | @tail _ _ b _ _ h ih =>
    rw [← ih]
    cases h with
    | regs r s ha h => rfl
    | data hm env dreq wp stall => rfl
    | translate hm req => exact congrArg (·, b.immu.cfg) (Mmu.translate_cfg ..)
    | raise t addr aesr ht he => exact entered_mmuCfg t addr

theorem Addressed.immuCfg (h : Addressed c x) : x.immu.cfg = c.immu.cfg := by
  cases h with
  | kept hs h => exact congrArg (·.1.cfg) h
  | refused ha hs hr h | filled ha hs hr h =>
    exact (congrArg (·.1.cfg) h).trans (Mmu.translate_cfg ..)

end Core

namespace Or1k

variable {s f x : Or1k σ} {ci : Instruction} [EnvImpl σ]

omit [EnvImpl σ] in
theorem Steady.mmuCfg (h : Steady s x) : x.mmuCfg = s.mmuCfg := by
  unfold Core.mmuCfg
  rw [h.dmmu, h.immu]

theorem sprWritten_mmuCfg (reg val : U32) (w : Bool) : (s.sprWritten reg val w).mmuCfg = s.mmuCfg := by
  unfold sprWritten
  split
  · rfl
  · unfold regWritten
    cases SpReg.ofNum reg with
    | none =>
      cases SprFile.ofNum reg.toNat with
      | none => rfl
      | some f => exact Core.writeFile_mmuCfg f _ val
    | some r =>
      cases r with
      | icbir | ttmr | ttcr => rfl
      | pmr => exact dozed_steady.mmuCfg
      | _ => exact Core.writeReg_mmuCfg _ val

theorem fetched_mmuCfg (hf : FetchedInsn s f) (ha : Core.Addressed s.toCore f.toCore) :
    f.mmuCfg = s.mmuCfg := by
  have hi := ha.immuCfg
  obtain ⟨_, _, _, ⟨_, _, _, _, _, _, -, rfl⟩, rfl⟩ := hf
  exact congrArg (s.dmmu.cfg, ·) hi

variable [HostLib]

theorem execute_mmuCfg (h : f.execute ci = .ok x) : x.mmuCfg = f.mmuCfg := by
  cases execute_ok h with
  | plain c limit e he hp hr =>
    obtain ⟨ts, hts, -⟩ := hr
    exact hts.mmuCfg
  | untaken => rfl
  | taken e target r c he hj ht hs hr =>
    have hc : ({ f.toCore with toRegs := r } : Core σ).mmuCfg = f.mmuCfg := rfl
    exact (Core.scheduleJump_mmuCfg hs).trans hc
  | mtspr a b he ha hb => exact sprWritten_mmuCfg _ _ _
  | nop x he hx =>
    obtain ⟨rfl, -⟩ | ⟨rfl, -⟩ | ⟨c, rfl, ⟨g, t, a, b, rfl⟩, -⟩ := nop_ok hx <;> rfl
  | rfe x he hx =>
    obtain ⟨c, hc, rfl⟩ := rfe_ok hx
    have hm : c.mmuCfg = f.mmuCfg := Core.scheduleJump_mmuCfg hc
    have hr : (f.withCore c).rfeRestored.mmuCfg = c.mmuCfg := by
      unfold rfeRestored
      split <;> rfl
    exact hr.trans hm

theorem fetchExecute_mmuCfg (h : s.fetchExecute = .ok x) : x.mmuCfg = s.mmuCfg := by
  obtain ⟨ci, f, hf, hfi, -⟩ | ⟨hf, b, c, hfb, ⟨t, addr, -, -, rfl⟩, rfl⟩ := fetchExecute_ok h
  · have hx : f.execute ci = .ok x := (fetchExecute_of_fetch hf).symm.trans h
    exact (execute_mmuCfg hx).trans (fetched_mmuCfg hfi (fetch_addressed hf))
  · have hi := (fetch_addressed hf).immuCfg
    have hd : b.dmmu.cfg = s.dmmu.cfg := congrArg (·.dmmu.cfg) hfb.eq
    exact Prod.ext ((congrArg Prod.fst (Core.entered_mmuCfg t addr)).trans hd) hi

theorem fetchExecute_throw_mmuCfg (h : s.fetchExecute = .throw x) : x.mmuCfg = s.mmuCfg := by
  rcases fetchExecute_throw h with hf | ⟨ci, f, e, c, hf, hfi, -, hm, rfl⟩
  · exact fetched_mmuCfg (fetch_throw hf) (fetch_throw_addressed hf)
  · have hc := Core.executeMem_throw_effects hm
    exact (Core.Effects.mmuCfg hc).trans (fetched_mmuCfg hfi (fetch_addressed hf))

end Or1k

namespace Machine

open Or1k

variable [EnvImpl σ] {m m' : Machine σ} {a : Action σ}

theorem outside_mmuCfg {s s' : Or1k σ} (h : outside s a = .ok s') : s'.mmuCfg = s.mmuCfg := by
  cases outside_ok h with
  | writeSpr reg val => exact sprWritten_mmuCfg reg val true
  | writeGpr | world | setUp => rfl

variable [HostLib]

theorem act_mmuCfg (hn : m.act a = some m') : m'.cpu.mmuCfg = m.cpu.mmuCfg := by
  cases act_transition hn with
  | begin r s n => exact began_steady.mmuCfg
  | mini | finish | leave => rfl
  | iterate limit s x hl hfe =>
    have hb : s.beginCycle.mmuCfg = s.mmuCfg := rfl
    rw [retired_frame (·.mmuCfg) limit x fun _ _ _ _ => rfl]
    exact (fetchExecute_mmuCfg hfe).trans hb
  | throw limit s x hl hfe =>
    have hb : s.beginCycle.mmuCfg = s.mmuCfg := rfl
    exact (fetchExecute_throw_mmuCfg hfe).trans hb
  | drain s =>
    rw [drained_cpu]
    exact (timerUpdated_steady.trans externalChecked_steady).mmuCfg
  | interrupt p s id set =>
    show (s.toCore.interrupt id set).mmuCfg = _
    obtain ⟨v, he⟩ := s.toCore.interrupt_eq id set
    rw [he]
    rfl
  | outside r s s' a ha h => exact outside_mmuCfg h

/-- The MMUs of a CPU stay as its constructor configures them. -/
theorem run_configured {env : Env σ} {size : Nat} (h : system.Run (init env size) m) :
    Configured m.cpu.toCore := by
  refine h.invariant (P := fun m => Configured m.cpu.toCore) (fun m a m' hc _ hn => ?_) ⟨rfl, rfl⟩
  have hm := act_mmuCfg hn
  exact ⟨(congrArg Prod.fst hm).trans hc.dmmu, (congrArg Prod.snd hm).trans hc.immu⟩

end Machine

end Or1kiss
