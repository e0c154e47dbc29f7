import Or1kiss.Handlers
import Or1kiss.Lib.Runs
import Or1kiss.MemPackets
import Or1kiss.Probe

/-!
# The page cache of the debugger

`to_phys` keeps a frame for every page it has translated and forgets them when the CPU goes on.
Between these points the cache is invisible as long as no packet changes the translation of a page
that is in it, and the translation moves whole pages: that of the MMUs does, that of the sections of
an ELF file need not.
-/

namespace Or1kiss

open Host Bits

/-! ## Translations of a page -/

theorem pageAlign_eq_shift (a : U32) : pageAlign a = pageNumber a <<< 13 := by
  have hmask : ∀ i < 32, pageMask.getLsbD i = decide (i < 13) := by decide
  unfold pageAlign pageNumber
  apply BitVec.eq_of_getLsbD_eq
  intro i hi
  rw [BitVec.getLsbD_and, BitVec.getLsbD_not, hmask i hi, BitVec.getLsbD_shiftLeft,
    BitVec.getLsbD_ushiftRight]
  by_cases h : i < 13
  · simp [h]
  · have hadd : 13 + (i - 13) = i := by omega
    simp [h, hi, hadd]

theorem pageAlign_congr {a b : U32} (h : pageNumber a = pageNumber b) : pageAlign a = pageAlign b := by
  rw [pageAlign_eq_shift, pageAlign_eq_shift, h]

/-- The indices of a table walk are those of the page. -/
theorem bits32_congr {a b : U32} (h : pageNumber a = pageNumber b) :
    bits32 a 31 24 = bits32 b 31 24 ∧ bits32 a 23 13 = bits32 b 23 13 := by
  have hn := congrArg BitVec.toNat h
  rw [Gdb.toNat_pageNumber, Gdb.toNat_pageNumber] at hn
  have ha := a.isLt
  have hb := b.isLt
  unfold bits32
  constructor
  · apply BitVec.eq_of_toNat_eq
    simp only [BitVec.toNat_ushiftRight, BitVec.toNat_shiftLeft, Nat.shiftRight_eq_div_pow,
      Nat.shiftLeft_eq]
    omega
  · apply BitVec.eq_of_toNat_eq
    simp only [BitVec.toNat_ushiftRight, BitVec.toNat_shiftLeft, Nat.shiftRight_eq_div_pow,
      Nat.shiftLeft_eq]
    omega

namespace Mmu

variable {σ : Type} [EnvImpl σ] {m : Mmu} {env : Env σ} {req : Request}

/-- The frame that a debugger finds for the page of a request. -/
def frameOf (m : Mmu) (env : Env σ) (req : Request) : Option U32 :=
  match m.hitWay req.addr with
  | some way => some (pageAlign (m.transReg way (m.setOf req.addr)))
  | none => (m.walk env req).1.map fun x => pageAlign x.1

theorem walk_congr {addr : U32} (h : pageNumber addr = pageNumber req.addr) :
    m.walk env { req with addr := addr } = m.walk env req := by
  obtain ⟨h1, h2⟩ := bits32_congr h
  unfold walk
  dsimp only
  rw [h1, h2]
  rfl

theorem frameOf_congr {addr : U32} (h : pageNumber addr = pageNumber req.addr) :
    m.frameOf env { req with addr := addr } = m.frameOf env req := by
  have hp := pageAlign_congr h
  unfold frameOf
  dsimp only
  rw [(Alike.refl m).hitWay hp.symm, setOf_congr hp, walk_congr h]

theorem translate_frame (hd : req.debug = true) {frame : U32} (h : m.frameOf env req = some frame) :
    (m.translate env req).1 = .okay ∧
      (m.translate env req).2.2.2.addr = frame ||| pageOffset req.addr := by
  unfold frameOf at h
  split at h
  · rename_i way hw
    cases h
    rw [translate_debug_hit hd hw]
    exact ⟨rfl, rfl⟩
  · rename_i hw
    obtain ⟨⟨pte2, cycles⟩, hwalk, rfl⟩ := Option.map_eq_some_iff.1 h
    exact translate_debug_walk hd hw hwalk

theorem translate_no_frame (hd : req.debug = true) (h : m.frameOf env req = none) :
    (m.translate env req).1 ≠ .okay ∧ (m.translate env req).2.2.2 = req := by
  unfold frameOf at h
  split at h
  · cases h
  · rename_i hw
    have hwalk := Option.map_eq_none_iff.1 h
    unfold translate
    rw [hd, if_pos rfl]
    dsimp only
    rw [hw]
    dsimp only
    rw [Bool.not_true, Bool.and_false, if_neg Bool.false_ne_true]
    generalize m.walk env req = x at hwalk ⊢
    obtain ⟨w, e⟩ := x
    dsimp only at hwalk
    subst hwalk
    exact ⟨nofun, rfl⟩

theorem frameOf_aligned {frame : U32} (h : m.frameOf env req = some frame) :
    pageAlign frame = frame := by
  unfold frameOf at h
  split at h
  · cases h
    exact pageAlign_idem _
  · obtain ⟨x, -, rfl⟩ := Option.map_eq_some_iff.1 h
    exact pageAlign_idem _

end Mmu

namespace Gdb

variable {g g' : Gdb Memory}

/-- The frame that the MMUs give the page of an address. -/
def frameOf (g : Gdb Memory) (addr : U32) : Option U32 :=
  let req := g.dataRequest true addr
  match if g.cpu.isDmmuActive then g.cpu.dmmu.frameOf g.cpu.env req else none with
  | some frame => some frame
  | none => if g.cpu.isImmuActive then g.cpu.immu.frameOf g.cpu.env req else none

theorem frameOf_congr {a b : U32} (h : pageNumber a = pageNumber b) : g.frameOf a = g.frameOf b := by
  have hm : ∀ m : Mmu, m.frameOf g.cpu.env (g.dataRequest true a) =
      m.frameOf g.cpu.env (g.dataRequest true b) := fun m =>
    @Mmu.frameOf_congr _ _ m g.cpu.env (g.dataRequest true b) a h
  unfold frameOf
  dsimp only
  rw [hm, hm]

theorem frameOf_aligned {addr frame : U32} (h : g.frameOf addr = some frame) :
    pageAlign frame = frame := by
  unfold frameOf at h
  dsimp only at h
  split at h
  · rename_i f hf
    cases h
    split at hf
    · exact Mmu.frameOf_aligned hf
    · cases hf
  · split at h
    · exact Mmu.frameOf_aligned h
    · cases h

/-- With an active MMU an address is translated to its place in the frame. -/
theorem translate_on (h : ¬(g.cpu.isDmmuActive = false ∧ g.cpu.isImmuActive = false)) (addr : U32) :
    (g.translate addr).1 = (g.frameOf addr).map (· ||| pageOffset addr) := by
  have hq : (g.dataRequest true addr).Peeks := ⟨rfl, rfl, rfl⟩
  have hoff : ¬(!g.cpu.isDmmuActive && !g.cpu.isImmuActive) = true := by
    simpa using h
  -- the instruction MMU, when the data MMU has left the request as it was
  have himmu : ∀ x : MmuResult × Gdb Memory × Request, x.1 ≠ .okay → x.2.1 = g →
      x.2.2 = g.dataRequest true addr → (afterDmmu x).1 =
        (if g.cpu.isImmuActive then g.cpu.immu.frameOf g.cpu.env (g.dataRequest true addr)
          else none).map (· ||| pageOffset addr) := by
    rintro ⟨res, g', req⟩ hr hg hreq
    dsimp only at hr hg hreq
    subst hg hreq
    unfold afterDmmu tryImmu
    dsimp only
    rw [if_neg hr]
    split
    · cases hf : g'.cpu.immu.frameOf g'.cpu.env (g'.dataRequest true addr) with
      | some frame =>
        obtain ⟨ho, ha⟩ := Mmu.translate_frame hq.debug hf
        have ho' : (g'.translateImmu (g'.dataRequest true addr)).1 = .okay := ho
        rw [if_pos ho']
        exact congrArg some ha
      | none =>
        obtain ⟨ho, -⟩ := Mmu.translate_no_frame hq.debug hf
        have ho' : (g'.translateImmu (g'.dataRequest true addr)).1 ≠ .okay := ho
        rw [if_neg ho']
        rfl
    · rw [if_neg (by nofun)]
      rfl
  rw [translate_eq, if_neg hoff]
  unfold frameOf tryDmmu
  dsimp only
  split
  · cases hf : g.cpu.dmmu.frameOf g.cpu.env (g.dataRequest true addr) with
    | some frame =>
      obtain ⟨ho, ha⟩ := Mmu.translate_frame hq.debug hf
      have ho' : (g.translateDmmu (g.dataRequest true addr)).1 = .okay := ho
      unfold afterDmmu
      rw [if_pos ho']
      exact congrArg some ha
    | none =>
      obtain ⟨ho, hr⟩ := Mmu.translate_no_frame hq.debug hf
      exact himmu _ ho (translateDmmu_snd hq) hr
  · exact himmu _ nofun rfl rfl

/-- The sections of the ELF file move whole pages. -/
def KeepsPages (g : Gdb Memory) : Prop := ∀ a b, pageNumber a = pageNumber b →
  g.elfPhys b = mkAddr (pageNumber (g.elfPhys a)) (pageOffset b)

/-- Without an ELF file every address stays. -/
theorem keepsPages_of_none (he : g.elf = none) : g.KeepsPages := by
  intro a b h
  unfold elfPhys
  rw [he]
  show b = mkAddr (pageNumber a) (pageOffset b)
  unfold mkAddr
  rw [h, ← pageAlign_eq_shift]
  unfold pageAlign pageOffset
  ext i hi
  simp only [BitVec.getElem_or, BitVec.getElem_and, BitVec.getElem_not]
  cases pageMask[i] <;> simp

/-- Two addresses of a page are translated to two addresses of a frame. -/
theorem translate_page (hk : g.cpu.isDmmuActive = false → g.cpu.isImmuActive = false → g.KeepsPages)
    {a b p : U32} (hab : pageNumber a = pageNumber b) (h : (g.translate a).1 = some p) :
    (g.translate b).1 = some (mkAddr (pageNumber p) (pageOffset b)) := by
  by_cases hoff : g.cpu.isDmmuActive = false ∧ g.cpu.isImmuActive = false
  · rw [translate_off hoff.1 hoff.2] at h ⊢
    cases h
    exact congrArg some (hk hoff.1 hoff.2 a b hab)
  · rw [translate_on hoff] at h ⊢
    rw [frameOf_congr hab.symm]
    obtain ⟨frame, hf, rfl⟩ := Option.map_eq_some_iff.1 h
    have hframe := frameOf_aligned hf
    rw [hf]
    show some (frame ||| pageOffset b) = _
    unfold mkAddr
    rw [← pageAlign_eq_shift, ← hframe, pageAlign_or_offset]

/-! ## Coherence -/

/-- The address that a translation ends with. -/
def found {S : Type} : Outcome S (U32 × S) → Option U32
  | .ok x => some x.1
  | _ => none

/-- What the cache holds is what the translation yields. -/
def Coherent (g : Gdb Memory) : Prop := ∀ a, g.tlb (pageNumber a) ≠ 0#32 →
  (g.translate a).1 = some (mkAddr (g.tlb (pageNumber a)) (pageOffset a))

theorem Coherent.found_eq (h : Coherent g) (a : U32) : found (g.toPhys a) = (g.translate a).1 := by
  unfold toPhys
  dsimp only
  split
  · rename_i hp
    exact (h a hp).symm
  · generalize g.translate a = x
    obtain ⟨x, g'⟩ := x
    cases x <;> rfl

/-- A page of a range. -/
def InRange (addr : U32) (n : Nat) (page : U32) : Prop :=
  ∃ i < n, pageNumber (addr + BitVec.ofNat 32 i) = page

/-- With other memory the pages of the cache and of a range are translated as before. -/
def Steady (g : Gdb Memory) (addr : U32) (n : Nat) (mem : Nat → U8) : Prop :=
  ∀ a, g.tlb (pageNumber a) ≠ 0#32 ∨ InRange addr n (pageNumber a) →
    ((g.holding mem g.tlb).translate a).1 = (g.translate a).1

/-- The cache holds translations of these pages. -/
def Filled (g : Gdb Memory) (addr : U32) (n : Nat) (tlb : U32 → U32) : Prop :=
  ∀ a, tlb (pageNumber a) ≠ 0#32 →
    (g.tlb (pageNumber a) ≠ 0#32 ∨ InRange addr n (pageNumber a)) ∧
    (g.translate a).1 = some (mkAddr (tlb (pageNumber a)) (pageOffset a))

section Ranges

variable {addr : U32} {n : Nat} {mem : Nat → U8} {tlb : U32 → U32}

theorem Coherent.filled (h : Coherent g) (addr : U32) (n : Nat) : Filled g addr n g.tlb :=
  fun a ha => ⟨.inl ha, h a ha⟩

theorem steady_self (g : Gdb Memory) (addr : U32) (n : Nat) :
    Steady g addr n g.cpu.env.world.mem := fun _ _ => rfl

theorem translate_holding (g : Gdb Memory) (mem : Nat → U8) (tlb : U32 → U32) (a : U32) :
    (g.holding mem tlb).translate a = (((g.holding mem g.tlb).translate a).1, g.holding mem tlb) := by
  refine Prod.ext ?_ (translate_snd _ _)
  rw [translate_congr (g := g.holding mem g.tlb) (x := g.holding mem tlb) rfl rfl]

theorem Filled.coherent (h : Filled g addr n tlb) (hs : Steady g addr n mem) :
    Coherent (g.holding mem tlb) := by
  intro a ha
  obtain ⟨hp, ht⟩ := h a ha
  rw [translate_holding]
  exact (hs a hp).trans ht

/-- A lookup finds what the translation yields, and what it adds to the cache is right for the whole
page. -/
theorem Filled.toPhys (h : Filled g addr n tlb) (hs : Steady g addr n mem)
    (hk : g.cpu.isDmmuActive = false → g.cpu.isImmuActive = false → g.KeepsPages) {i : Nat}
    (hi : i < n) : Outcome.Ends (· = g.holding mem tlb)
      (fun x => (g.translate (addr + BitVec.ofNat 32 i)).1 = some x.1 ∧
        ∃ tlb', x.2 = g.holding mem tlb' ∧ Filled g addr n tlb')
      ((g.holding mem tlb).toPhys (addr + BitVec.ofNat 32 i)) := by
  have hst := hs (addr + BitVec.ofNat 32 i) (.inr ⟨i, hi, rfl⟩)
  unfold Gdb.toPhys
  dsimp only
  split
  · rename_i hp
    exact .ok ⟨(h _ hp).2, tlb, rfl, h⟩
  · rw [translate_holding, hst]
    cases ht : (g.translate (addr + BitVec.ofNat 32 i)).1 with
    | none => exact .throw rfl
    | some p =>
      refine .ok ⟨rfl, _, rfl, fun a ha => ?_⟩
      rw [Function.update_apply] at ha ⊢
      split at ha
      · rename_i he
        rw [if_pos he]
        exact ⟨.inr ⟨i, hi, he.symm⟩, translate_page hk he.symm ht⟩
      · rename_i he
        rw [if_neg he]
        exact h a ha

end Ranges

/-! ## The loops -/

theorem memRead_ends (g : Gdb Memory) (phys : U32) (n : Nat) :
    Outcome.Ends (· = g) (fun x => x.2 = g) (g.memRead phys n) := by
  have hp := Memory.convertAndTransact_peeks (e := g.cpu.env) (show Request.Peeks {
    g.dataRequest true phys with endian := .big, data := g.cpu.env.garbage n, size := n }
    from ⟨rfl, rfl, rfl⟩)
  unfold memRead
  dsimp only
  rw [hp]
  split
  · exact .ok rfl
  · exact .throw rfl

/-- The request of a write of `k` bytes. -/
def poke (g : Gdb Memory) (phys : U32) (k : Nat) : Request :=
  { g.dataRequest false phys with endian := .big, size := k }

/-- The stub after a write of `k` bytes. -/
def Poked (g : Gdb Memory) (phys : U32) (k : Nat) (g' : Gdb Memory) : Prop :=
  ∃ mem, g' = g.holding mem g.tlb ∧
    ∀ b, ¬Memory.Touches g.cpu.env (g.poke phys k) b → mem b = g.cpu.env.world.mem b

theorem memWrite_ends (g : Gdb Memory) (phys : U32) (bytes : List U8) :
    Outcome.Ends (Poked g phys bytes.length) (Poked g phys bytes.length) (g.memWrite phys bytes) := by
  have hreq : ∃ req : Request, req = { g.dataRequest false phys with
    endian := .big, data := bytes, size := bytes.length } := ⟨_, rfl⟩
  obtain ⟨req, hreq⟩ := hreq
  have hx : req.excl = false := by
    rw [hreq]
    rfl
  have hdebug : req.debug = true := by
    rw [hreq]
    rfl
  have hd := Memory.convertAndTransact_debug (e := g.cpu.env) hx hdebug
  have hp : Poked g phys bytes.length (g.withEnv (g.cpu.env.convertAndTransact req).2.2) := by
    refine ⟨(g.cpu.env.convertAndTransact req).2.2.world.mem, ?_, fun b hb => ?_⟩
    · rw [hd]
      rfl
    · refine Memory.convertAndTransact_frame fun ht => hb ?_
      rw [hreq] at ht
      exact ht
  unfold memWrite
  dsimp only
  rw [← hreq]
  split
  · exact .ok hp
  · exact .throw hp

section Loops

variable {addr : U32} {n : Nat} {mem : Nat → U8}

/-- The loop of `m` fills the cache with translations. -/
theorem readLoop_ends (hs : Steady g addr n mem)
    (hk : g.cpu.isDmmuActive = false → g.cpu.isImmuActive = false → g.KeepsPages) (fuel : Nat) :
    ∀ (i l : Nat) (tlb : U32 → U32) (text : List U8), i + l = n → Filled g addr n tlb →
      Outcome.Ends (fun g' => ∃ tlb', g' = g.holding mem tlb' ∧ Filled g addr n tlb')
        (fun x => ∃ tlb', x.2 = g.holding mem tlb' ∧ Filled g addr n tlb')
        (readLoop fuel (addr + BitVec.ofNat 32 i) l (g.holding mem tlb) text) := by
  induction fuel with
  | zero => exact fun i l tlb text _ h => .ok ⟨tlb, rfl, h⟩
  | succ fuel ih =>
    intro i l tlb text hil h
    rw [readLoop]
    split
    · rename_i hl
      refine ((h.toPhys hs hk (i := i) (by omega)).mono (fun _ he => ⟨tlb, he, h⟩)
        fun _ hx => hx).bind ?_
      rintro ⟨p, g₁⟩ ⟨-, tlb₁, rfl, h₁⟩
      dsimp only
      obtain ⟨-, hle, -⟩ := chunk_spec p hl
      refine ((memRead_ends _ p (chunk p l)).mono (fun _ he => ⟨tlb₁, he, h₁⟩) fun _ hx => hx).bind ?_
      rintro ⟨buffer, g₂⟩ rfl
      dsimp only
      rw [BitVec.add_assoc, ← BitVec.ofNat_add]
      exact ih _ _ tlb₁ _ (by omega) h₁
    · exact .ok ⟨tlb, rfl, h⟩

/-- A byte that a write to the range may touch. -/
def Written (g : Gdb Memory) (addr : U32) (n b : Nat) : Prop := ∃ i k p, i + k ≤ n ∧
  (g.translate (addr + BitVec.ofNat 32 i)).1 = some p ∧ Memory.Touches g.cpu.env (g.poke p k) b

/-- No byte of the range takes part in a translation of the cache or of the range. -/
def Unread (g : Gdb Memory) (addr : U32) (n : Nat) : Prop :=
  ∀ mem, (∀ b, ¬Written g addr n b → mem b = g.cpu.env.world.mem b) → Steady g addr n mem

/-- The stub in the loop of `M` and `X`. -/
def Loading (g : Gdb Memory) (addr : U32) (n : Nat) (g' : Gdb Memory) : Prop :=
  ∃ mem tlb, g' = g.holding mem tlb ∧ Filled g addr n tlb ∧
    ∀ b, ¬Written g addr n b → mem b = g.cpu.env.world.mem b

theorem writeLoop_ends {convert : Nat → List U8 → Option (List U8 × List U8)} (hc : Splits convert)
    (hu : Unread g addr n)
    (hk : g.cpu.isDmmuActive = false → g.cpu.isImmuActive = false → g.KeepsPages) (fuel : Nat) :
    ∀ (i l : Nat) (data : List U8) (g' : Gdb Memory), i + l = n → Loading g addr n g' →
      Outcome.Ends (Loading g addr n) (Loading g addr n)
        (writeLoop convert fuel (addr + BitVec.ofNat 32 i) l data g') := by
  induction fuel with
  | zero => exact fun i l data g' _ h => .ok h
  | succ fuel ih =>
    rintro i l data g' hil ⟨mem, tlb, rfl, h, hb⟩
    rw [writeLoop]
    split
    · rename_i hl
      refine ((h.toPhys (hu mem hb) hk (i := i) (by omega)).mono
        (fun _ he => ⟨mem, tlb, he, h, hb⟩) fun _ hx => hx).bind ?_
      rintro ⟨p, g₁⟩ ⟨hp, tlb₁, rfl, h₁⟩
      dsimp only
      obtain ⟨-, hle, -⟩ := chunk_spec p hl
      cases hcv : convert (chunk p l) data with
      | none => exact .fault _
      | some x =>
        obtain ⟨buffer, rest⟩ := x
        have hlen : buffer.length = chunk p l := hc.length _ _ _ hcv
        have hpoked : ∀ g₂, Poked (g.holding mem tlb₁) p buffer.length g₂ → Loading g addr n g₂ := by
          rintro g₂ ⟨mem₂, rfl, hmem⟩
          refine ⟨mem₂, tlb₁, rfl, h₁, fun b hne => ?_⟩
          refine (hmem b fun ht => hne ⟨i, chunk p l, p, by omega, hp, ?_⟩).trans (hb b hne)
          rw [← hlen]
          exact ht
        refine ((memWrite_ends _ p buffer).mono hpoked hpoked).bind fun g₂ hg₂ => ?_
        rw [BitVec.add_assoc, ← BitVec.ofNat_add]
        exact ih _ _ rest g₂ (by omega) hg₂
    · exact .ok ⟨mem, tlb, rfl, h, hb⟩

theorem Loading.coherent (h : Loading g addr n g') (hu : Unread g addr n) : Coherent g' := by
  obtain ⟨mem, tlb, rfl, hf, hb⟩ := h
  exact hf.coherent (hu mem hb)

end Loops

/-! ## Register writes -/

end Gdb

namespace Or1k

/-- What a translation looks at. -/
def mapping (s : Or1k Memory) : Bool × Bool × Mmu × Mmu × Env Memory :=
  (s.isDmmuActive, s.isImmuActive, s.dmmu, s.immu, s.env)

/-- A value of SR with the enables of the MMUs as they are. -/
def keepsEnables (s : Or1k Memory) (val : U32) : Bool :=
  test val SR.DME == s.isDmmuActive && test val SR.IME == s.isImmuActive

/-- The write neither changes an enable nor reaches an MMU, and does not make the CPU doze. -/
def spares (s : Or1k Memory) (reg val : U32) : Bool :=
  match SpReg.ofNum reg with
  | some .sr => s.keepsEnables val
  | some .pmr => !test val PMR.DME
  | some .dmmucr | some .dtlbeir | some .immucr | some .itlbeir => false
  | some _ => true
  | none =>
    match SprFile.ofNum reg.toNat with
    | some .dtlb | some .itlb => false
    | _ => true

variable {s t : Or1k Memory} {reg val : U32}

theorem keepsEnables_congr (h : t.mapping = s.mapping) : t.keepsEnables val = s.keepsEnables val := by
  have hd : t.isDmmuActive = s.isDmmuActive := congrArg Prod.fst h
  have hi : t.isImmuActive = s.isImmuActive := congrArg (·.2.1) h
  unfold keepsEnables
  rw [hd, hi]

theorem mapping_status (h : s.keepsEnables val = true) :
    ({ s with status := val } : Or1k Memory).mapping = s.mapping := by
  obtain ⟨hd, hi⟩ := Bool.and_eq_true_iff.1 h
  have hd : ({ s with status := val } : Or1k Memory).isDmmuActive = s.isDmmuActive := beq_iff_eq.1 hd
  have hi : ({ s with status := val } : Or1k Memory).isImmuActive = s.isImmuActive := beq_iff_eq.1 hi
  unfold mapping
  rw [hd, hi]

/-- A write that spares the mapping. -/
theorem mapping_sprWritten (h : s.spares reg val = true) :
    (s.sprWritten reg val true).mapping = s.mapping := by
  have hperm : s.writeDenied reg true = false := rfl
  unfold sprWritten regWritten
  rw [hperm, if_neg Bool.false_ne_true]
  unfold spares at h
  cases hr : SpReg.ofNum reg with
  | some r =>
    rw [hr] at h
    cases r with
    | sr => exact mapping_status (s := s.requestBreak) h
    | pmr =>
      have ha : test (s.requestBreak.withCore (s.requestBreak.toCore.writeReg .pmr val)).pmr PMR.DME =
          false := Bool.not_eq_eq_eq_not.1 h
      dsimp only
      rw [dozed_awake ha]
      rfl
    | picsr =>
      dsimp only
      unfold Core.writeReg
      dsimp only
      split <;> rfl
    | dmmucr | dtlbeir | immucr | itlbeir => cases h
    | _ => rfl
  | none =>
    rw [hr] at h
    dsimp only at h ⊢
    cases hf : SprFile.ofNum reg.toNat with
    | none => rfl
    | some f =>
      rw [hf] at h
      cases f with
      | dtlb | itlb => cases h
      | _ => rfl

end Or1k

namespace Gdb

variable {g g' : Gdb Memory}

/-- The register writes of a packet spare the mapping. -/
def spared (s : Or1k Memory) (command : List U8) : Bool :=
  let c := command.headD 0#8
  let text := command ++ [0#8]
  if c = chr 'P' then (regWriteArgs text).all fun (reg, val) => reg != 34#32 || s.keepsEnables val
  else if c = chr 'G' then s.keepsEnables (digitsAt (text.drop 1) 34)
  else if c = chr 'q' then (sprWriteArgs text).all fun (reg, val) => s.spares reg val
  else true

/-- Of the registers of the debugger only SR takes part in the mapping. -/
theorem mapping_written {s : Or1k Memory} {reg : Fin 35} {val : U32}
    (h : reg = 34 → s.keepsEnables val = true) : (written s reg val).mapping = s.mapping := by
  unfold written
  split
  · rfl
  · split
    · rfl
    · split
      · rfl
      · exact Or1k.mapping_status (s := s.requestBreak) (h (Fin.ext (by omega)))

theorem mapping_registersWritten {s : Or1k Memory} {command : List U8} (h : spared s command = true) :
    (registersWritten s command).mapping = s.mapping := by
  have hfold : ∀ (str : List U8) (rs : List (Fin 35)) (t : Or1k Memory), t.mapping = s.mapping →
      s.keepsEnables (digitsAt str 34) = true →
        (rs.foldl (fun s reg => written s reg (digitsAt str reg)) t).mapping = s.mapping := by
    intro str rs
    induction rs with
    | nil => exact fun t ht _ => ht
    | cons reg rs ih =>
      intro t ht hk
      refine ih _ (Eq.trans (mapping_written fun he => ?_) ht) hk
      rw [he, Or1k.keepsEnables_congr ht]
      exact hk
  unfold registersWritten
  unfold spared at h
  dsimp only at h ⊢
  split at h
  · rename_i hp
    rw [if_pos hp]
    cases ha : regWriteArgs (command ++ [0#8]) with
    | none => rfl
    | some args =>
      obtain ⟨reg, val⟩ := args
      rw [ha, Option.all_some] at h
      dsimp only at h ⊢
      split
      · refine mapping_written fun he => ?_
        have hreg : reg = 34#32 := BitVec.eq_of_toNat_eq (show reg.toNat = 34 from congrArg Fin.val he)
        rw [hreg, bne_self_eq_false, Bool.false_or] at h
        exact h
      · rfl
  · rename_i hp
    rw [if_neg hp]
    split at h
    · rename_i hG
      rw [if_pos hG]
      exact hfold _ _ s rfl h
    · rename_i hG
      rw [if_neg hG]
      split at h
      · rename_i hq
        rw [if_pos hq]
        cases ha : sprWriteArgs (command ++ [0#8]) with
        | none => rfl
        | some args =>
          rw [ha, Option.all_some] at h
          exact Or1k.mapping_sprWritten h
      · rename_i hq
        rw [if_neg hq]

/-- A translation looks at the mapping and the ELF file only. -/
theorem translate_mapping (hm : g'.cpu.mapping = g.cpu.mapping) (he : g'.elf = g.elf) (a : U32) :
    (g'.translate a).1 = (g.translate a).1 := by
  have hd : g'.cpu.isDmmuActive = g.cpu.isDmmuActive := congrArg Prod.fst hm
  have hi : g'.cpu.isImmuActive = g.cpu.isImmuActive := congrArg (·.2.1) hm
  by_cases hoff : g.cpu.isDmmuActive = false ∧ g.cpu.isImmuActive = false
  · rw [translate_off hoff.1 hoff.2, translate_off (hd.trans hoff.1) (hi.trans hoff.2)]
    unfold elfPhys
    rw [he]
  · have hdm : g'.cpu.dmmu = g.cpu.dmmu := congrArg (·.2.2.1) hm
    have him : g'.cpu.immu = g.cpu.immu := congrArg (·.2.2.2.1) hm
    have henv : g'.cpu.env = g.cpu.env := congrArg (·.2.2.2.2) hm
    rw [translate_on hoff, translate_on (by rwa [hd, hi])]
    unfold frameOf dataRequest
    rw [hd, hi, hdm, him, henv]

/-! ## Packets -/

theorem Coherent.congr (h : Coherent g) (hc : g'.cpu = g.cpu) (he : g'.elf = g.elf)
    (ht : g'.tlb = g.tlb) : Coherent g' := by
  intro a ha
  rw [ht] at ha ⊢
  rw [translate_congr hc he]
  exact h a ha

theorem handleMemRead_ends (h : Coherent g)
    (hk : g.cpu.isDmmuActive = false → g.cpu.isImmuActive = false → g.KeepsPages)
    (command : List U8) : Outcome.Ends Coherent Coherent (g.handleMemRead command) := by
  unfold handleMemRead
  split
  · rename_i addr length rest hscan
    have hl := readLoop_ends (steady_self g addr length.toNat) hk length.toNat 0 length.toNat g.tlb []
      (Nat.zero_add _) (h.filled addr length.toNat)
    rw [BitVec.add_zero] at hl
    refine Outcome.Ends.bind (hl.mono ?_ fun _ hx => hx) ?_
    · rintro s ⟨tlb, rfl, hf⟩
      exact hf.coherent (steady_self g addr length.toNat)
    · rintro ⟨text, g₁⟩ ⟨tlb, rfl, hf⟩
      have hc := hf.coherent (steady_self g addr length.toNat)
      exact sendString_ends (g := g.holding _ tlb) (P := Coherent) (fun r => hc.congr rfl rfl rfl) text
  · exact .throw h

theorem load_ends {convert : Nat → List U8 → Option (List U8 × List U8)} (hc : Splits convert)
    {addr : U32} {n : Nat} (h : Coherent g) (hu : Unread g addr n)
    (hk : g.cpu.isDmmuActive = false → g.cpu.isImmuActive = false → g.KeepsPages) (data : List U8) :
    Outcome.Ends Coherent Coherent (do (← writeLoop convert n addr n data g).send (ascii "OK")) := by
  have hl := writeLoop_ends hc hu hk n 0 n data g (Nat.zero_add _)
    ⟨g.cpu.env.world.mem, g.tlb, rfl, h.filled addr n, fun _ _ => rfl⟩
  rw [BitVec.add_zero] at hl
  refine Outcome.Ends.bind (hl.mono (fun _ hx => hx.coherent hu) fun _ hx => hx) fun g₁ hg₁ => ?_
  exact send_ends (P := Coherent) (fun r => (hg₁.coherent hu).congr rfl rfl rfl) _

theorem handleMemWrite_ends (h : Coherent g)
    (hk : g.cpu.isDmmuActive = false → g.cpu.isImmuActive = false → g.KeepsPages)
    {command : List U8} (hu : ∀ addr length rest,
      scanRange 'M' (cstr command) = some (addr, length, rest) → g.Unread addr length.toNat) :
    Outcome.Ends Coherent Coherent (g.handleMemWrite command) := by
  unfold handleMemWrite
  split
  · rename_i addr length rest hscan
    split
    · exact .throw h
    · split
      · exact load_ends splits_hexPairs h (hu addr length rest hscan) hk _
      · exact .throw h
  · exact .throw h

theorem handleMemWriteBin_ends (h : Coherent g)
    (hk : g.cpu.isDmmuActive = false → g.cpu.isImmuActive = false → g.KeepsPages)
    {command : List U8} (hu : ∀ addr length rest,
      scanRange 'X' (cstr command) = some (addr, length, rest) → g.Unread addr length.toNat) :
    Outcome.Ends Coherent Coherent (g.handleMemWriteBin command) := by
  unfold handleMemWriteBin
  split
  · rename_i addr length rest hscan
    split
    · exact .throw h
    · split
      · exact send_ends (P := Coherent) (fun r => h.congr rfl rfl rfl) _
      · split
        · exact load_ends splits_unescaped h (hu addr length rest hscan) hk _
        · exact .throw h
  · exact .throw h

/-- The cache is as it was, or empty. -/
def Keeps (g g' : Gdb Memory) : Prop := g'.tlb = g.tlb ∨ g'.tlb = fun _ => 0#32

/-- The stub translates as `s` does, and the cache is as it was, or empty. -/
structure Maps (g : Gdb Memory) (s : Or1k Memory) (x : Gdb Memory) : Prop where
  cache : Keeps g x
  mapping : x.cpu.mapping = s.mapping
  elf : x.elf = g.elf

theorem maps_pointInvariant (g : Gdb Memory) (s : Or1k Memory) : PointInvariant (Maps g s) where
  points _ _ _ h := ⟨h.cache, h.mapping, h.elf⟩
  sent _ h := ⟨h.cache, h.mapping, h.elf⟩
  cleared h := ⟨.inr rfl, h.mapping, h.elf⟩
  mode _ h := ⟨h.cache, h.mapping, h.elf⟩
  detached h := ⟨h.cache, h.mapping, h.elf⟩

/-! ## Runs -/

/-- The stub that handles one packet after the other. -/
def debugger : Runs.System (Gdb Memory) (List U8) where
  next g command :=
    match g.execute command with
    | .ok g' => some g'
    | _ => none

/-- A packet that leaves what the cache holds. -/
structure Harmless (g : Gdb Memory) (command : List U8) : Prop where
  halted : g.mode = .halted
  /-- A range is looked up with an MMU, or in sections that move whole pages. -/
  paged : ∀ c ∈ ['m', 'M', 'X'], command.headD 0#8 = chr c →
    g.cpu.isDmmuActive = false → g.cpu.isImmuActive = false → g.KeepsPages
  /-- What is written takes no part in a translation. -/
  unread : ∀ c ∈ ['M', 'X'], ∀ addr length rest,
    scanRange c (cstr (command ++ [0#8])) = some (addr, length, rest) → g.Unread addr length.toNat
  /-- The registers that it writes translate the pages of the cache as before. -/
  kept : (∀ c ∈ ['m', 'M', 'X'], command.headD 0#8 ≠ chr c) → ∀ a, g.tlb (pageNumber a) ≠ 0#32 →
    ((g.withCpu (registersWritten g.cpu command)).translate a).1 = (g.translate a).1

/-- The cache is empty, or the register writes spare the mapping: that is enough to keep it. -/
theorem kept_of_spared {command : List U8}
    (h : (∀ p, g.tlb p = 0#32) ∨ spared g.cpu command = true) (a : U32)
    (ha : g.tlb (pageNumber a) ≠ 0#32) :
    ((g.withCpu (registersWritten g.cpu command)).translate a).1 = (g.translate a).1 := by
  rcases h with h | h
  · exact (ha (h _)).elim
  · have hm : (g.withCpu (registersWritten g.cpu command)).cpu.mapping = g.cpu.mapping :=
      mapping_registersWritten h
    exact translate_mapping hm rfl a

/-- Where both MMUs are off and there is no ELF file, memory takes no part in a translation. -/
theorem Harmless.of_off {command : List U8} (hm : g.mode = .halted) (hd : g.cpu.isDmmuActive = false)
    (hi : g.cpu.isImmuActive = false) (he : g.elf = none)
    (hs : (∀ p, g.tlb p = 0#32) ∨ spared g.cpu command = true) : Harmless g command where
  halted := hm
  paged _ _ _ _ _ := keepsPages_of_none he
  unread _ _ addr length _ _ mem _ a _ := by
    rw [translate_off hd hi, translate_off (g := g.holding mem g.tlb) hd hi]
    rfl
  kept _ := kept_of_spared hs

theorem Coherent.of_keeps (h : Coherent g) (hk : Keeps g g')
    (ht : ∀ a, g.tlb (pageNumber a) ≠ 0#32 → (g'.translate a).1 = (g.translate a).1) :
    Coherent g' := by
  intro a ha
  rcases hk with hk | hk
  · rw [hk] at ha ⊢
    exact (ht a ha).trans (h a ha)
  · exact absurd (congrFun hk (pageNumber a)) ha

/-- A packet keeps the cache coherent. -/
theorem Coherent.execute (h : Coherent g) {command : List U8} (hc : Harmless g command)
    (hg : g.execute command = .ok g') : Coherent g' := by
  by_cases hm : ∃ c ∈ ['m', 'M', 'X'], command.headD 0#8 = chr c
  · have hends : Outcome.Ends Coherent Coherent (g.execute command) := by
      obtain ⟨c, hcm, hhead⟩ := hm
      have hk := hc.paged c hcm hhead
      refine execute_ends
        (fun x text hx => send_ends (fun r => hx.congr rfl rfl rfl) text) h fun hd hmem hchr => ?_
      rcases memory_handler hmem hcm (hchr.trans hhead) with he | he | he
      · rw [he]
        exact handleMemRead_ends h hk _
      · rw [he]
        exact handleMemWrite_ends h hk (hc.unread 'M' (by simp))
      · rw [he]
        exact handleMemWriteBin_ends h hk (hc.unread 'X' (by simp))
    rw [hg] at hends
    cases hends with
    | ok hx => exact hx
  · have hne : ∀ c ∈ ['m', 'M', 'X'], command.headD 0#8 ≠ chr c := fun c hcm he => hm ⟨c, hcm, he⟩
    have hends := execute_registers (g := g) (maps_pointInvariant g (registersWritten g.cpu command))
      hne ⟨.inl rfl, rfl, rfl⟩
    rw [hg] at hends
    cases hends with
    | ok hx =>
      refine h.of_keeps hx.cache fun a ha => Eq.trans ?_ (hc.kept hne a ha)
      exact translate_mapping (g := g.withCpu (registersWritten g.cpu command)) hx.mapping hx.elf a

/-- The page cache is invisible in every state of a run of harmless packets. -/
theorem page_cache_invisible (h0 : g.tlb = fun _ => 0#32) (h : debugger.Steps Harmless g g') (a : U32) :
    found (g'.toPhys a) = (g'.translate a).1 := by
  have hg : Coherent g := fun a ha => absurd (congrFun h0 (pageNumber a)) ha
  have hc : Coherent g' := by
    refine h.invariant (fun s command t hs hok hn => ?_) hg
    unfold debugger at hn
    dsimp only at hn
    split at hn
    · rename_i t' ht
      cases hn
      exact hs.execute hok ht
    · cases hn
  exact hc.found_eq a

/-- A read of page 1 and a write to SR that switches on the data MMU: the page is still found. -/
theorem page_cache_invisible_fails : ∃ g g' : Gdb Memory, (g.tlb = fun _ => 0#32) ∧
    debugger.Steps (fun g _ => g.mode = .halted) g g' ∧
    found (g'.toPhys 0x2000#32) ≠ (g'.translate 0x2000#32).1 := by
  obtain ⟨g', hrun, hne⟩ := debugger.exists_steps (fun g _ => decide (g.mode = .halted))
    (connected []) [ascii "m2000,4" ++ [0#8], ascii "P22=8021" ++ [0#8]]
    (fun g' => decide (found (g'.toPhys 0x2000#32) ≠ (g'.translate 0x2000#32).1)) (by decide +kernel)
  exact ⟨connected [], g', rfl, hrun.mono fun g _ hm => of_decide_eq_true hm, of_decide_eq_true hne⟩

/-- A read that fills the cache, a write to the page, and a write to SR that keeps the MMUs off. -/
theorem page_cache_invisible_packets : ∃ g', debugger.Steps Harmless (connected []) g' ∧
    g'.tlb 1#32 ≠ 0#32 ∧ g'.cpu.env.world.mem 0x2000 ≠ 0#8 ∧ g'.cpu.status = 0x8c01#32 ∧
      found (g'.toPhys 0x2000#32) = (g'.translate 0x2000#32).1 := by
  obtain ⟨g', hrun, hp⟩ := debugger.exists_steps
    (fun g command => decide (g.mode = .halted) && !g.cpu.isDmmuActive && !g.cpu.isImmuActive &&
      g.elf.isNone && spared g.cpu command)
    (connected []) [ascii "m2000,4" ++ [0#8], ascii "M2000,4:12345678" ++ [0#8],
      ascii "P22=8c01" ++ [0#8]]
    (fun g' => decide (g'.tlb 1#32 ≠ 0#32 ∧ g'.cpu.env.world.mem 0x2000 ≠ 0#8 ∧
      g'.cpu.status = 0x8c01#32)) (by decide +kernel)
  have hok : debugger.Steps Harmless (connected []) g' := hrun.mono fun g command hg => by
    simp only [Bool.and_eq_true, Bool.not_eq_true', Option.isNone_iff_eq_none] at hg
    obtain ⟨⟨⟨⟨hm, hd⟩, hi⟩, he⟩, hs⟩ := hg
    exact .of_off (of_decide_eq_true hm) hd hi he (.inr hs)
  obtain ⟨h1, h2, h3⟩ := of_decide_eq_true hp
  exact ⟨g', hok, h1, h2, h3, page_cache_invisible rfl hok 0x2000#32⟩

end Gdb

end Or1kiss
