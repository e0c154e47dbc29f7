import Or1kiss.Frame

/-!
# What a fetch does

`fetch` finds an instruction, having written the fetch members of the core and the decode
cache, or raises a synchronous exception from such a state.
-/

namespace Or1kiss

open Host Bits

variable {σ : Type} {s s' : Or1k σ} {ci : Instruction}

namespace Core

/-- The members that fetching an instruction writes. -/
def Fetched (c c' : Core σ) : Prop :=
  ∃ immu env ireq insn v p, c.env.Served env ∧
    c' = { c with immu := immu, env := env, ireq := ireq, insn := insn, virtIpg := v, physIpg := p }

variable {c b c' : Core σ}

theorem Fetched.refl (c : Core σ) : Fetched c c :=
  ⟨c.immu, c.env, c.ireq, c.insn, c.virtIpg, c.physIpg, .refl c.env, rfl⟩

theorem Fetched.trans (h : Fetched c b) (h' : Fetched b c') : Fetched c c' := by
  obtain ⟨_, _, _, _, _, _, hs, rfl⟩ := h
  obtain ⟨immu, env, ireq, insn, v, p, hs', rfl⟩ := h'
  exact ⟨immu, env, ireq, insn, v, p, hs.trans hs', rfl⟩

/-- Fetching leaves every other member. -/
theorem Fetched.eq (h : Fetched c c') :
    c' = { c with immu := c'.immu, env := c'.env, ireq := c'.ireq, insn := c'.insn,
                  virtIpg := c'.virtIpg, physIpg := c'.physIpg } := by
  obtain ⟨_, _, _, _, _, _, -, rfl⟩ := h
  rfl

theorem Fetched.evba (h : Fetched c c') : c'.evba = c.evba := congrArg (·.evba) h.eq

/-- An exception of `fetch`, entered from `b`. -/
def Refused (b c' : Core σ) : Prop :=
  ∃ t addr, t.isAsync = false ∧ isAligned b.evba 4 = true ∧ c' = b.entered t addr

theorem exception_refused {t : ExType} {addr : U32} (ht : t.isAsync = false)
    (h : c.exception t addr = .ok c') : Refused c c' := by
  obtain ⟨hm, -⟩ | ⟨-, ha, rfl⟩ := exception_ok h
  · rw [masked_of_sync c ht] at hm; cases hm
  · exact ⟨t, addr, ht, ha.resolve_left (by simp [ht]), rfl⟩

theorem refuse_ok {t : ExType} {r : Bool × Core σ} (ht : t.isAsync = false)
    (h : c.refuse t = .ok r) : r.1 = false ∧ Refused c r.2 := by
  obtain ⟨c1, h1, rfl⟩ := Outcome.lift_eq_ok.1 h
  exact ⟨rfl, exception_refused ht h1⟩

theorem refuse_ne_throw {t : ExType} : c.refuse t ≠ .throw c' := Outcome.lift_ne_throw

variable [EnvImpl σ]

theorem fetched_translateFetch : Fetched c c.translateFetch.2 :=
  ⟨_, _, _, c.insn, c.virtIpg, c.physIpg, Mmu.translate_served .., rfl⟩

/-- The address step finds an address, or raises an exception. -/
theorem fetchAddress_ok {r : Bool × Core σ} (h : c.fetchAddress = .ok r) :
    (r.1 = true ∧ Fetched c r.2) ∨ (r.1 = false ∧ ∃ b, Fetched c b ∧ Refused b r.2) := by
  simp only [fetchAddress] at h
  split at h
  · split at h
    · cases h
      exact .inl ⟨rfl, c.immu, c.env, _, c.insn, c.virtIpg, c.physIpg, .refl _, rfl⟩
    · have ht := fetched_translateFetch (c := c)
      split at h <;> rename_i he <;> rw [he] at ht
      · exact .inr ⟨(refuse_ok rfl h).1, _, ht, (refuse_ok rfl h).2⟩
      · exact .inr ⟨(refuse_ok rfl h).1, _, ht, (refuse_ok rfl h).2⟩
      · cases h
        exact .inl ⟨rfl, ht.trans ⟨_, _, _, _, _, _, .refl _, rfl⟩⟩
  · cases h
    exact .inl ⟨rfl, c.immu, c.env, _, c.insn, c.virtIpg, c.physIpg, .refl _, rfl⟩

theorem fetchAddress_ne_throw : c.fetchAddress ≠ .throw c' := by
  intro h
  simp only [fetchAddress] at h
  split at h
  · split at h
    · cases h
    · split at h
      · exact refuse_ne_throw h
      · exact refuse_ne_throw h
      · cases h
  · cases h

theorem fetched_readInsn : Fetched c c.readInsn.2 :=
  ⟨c.immu, _, _, _, c.virtIpg, c.physIpg, Env.convertAndTransact_served _, rfl⟩

theorem fetchWord_ok {r : Bool × Core σ} (h : c.fetchWord = .ok r) :
    (r.1 = true ∧ Fetched c r.2) ∨ (r.1 = false ∧ ∃ b, Fetched c b ∧ Refused b r.2) := by
  simp only [fetchWord] at h
  split at h
  · cases h
    exact .inl ⟨rfl, c.immu, c.env, c.ireq, _, c.virtIpg, c.physIpg, .refl _, rfl⟩
  · have ht := fetched_readInsn (c := c)
    split at h <;> rename_i he <;> rw [he] at ht
    · exact .inr ⟨(refuse_ok rfl h).1, _, ht, (refuse_ok rfl h).2⟩
    · cases h
    · cases h; exact .inl ⟨rfl, ht⟩

theorem fetchWord_throw (h : c.fetchWord = .throw c') : Fetched c c' := by
  simp only [fetchWord] at h
  split at h
  · cases h
  · have ht := fetched_readInsn (c := c)
    split at h <;> rename_i he <;> rw [he] at ht
    · exact (refuse_ne_throw h).elim
    · cases h; exact ht
    · cases h

end Core

namespace Or1k

theorem liftCore_eq_ok {α : Type} {x : Outcome (Core σ) (α × Core σ)} {r : α × Or1k σ} :
    s.liftCore x = .ok r ↔ ∃ a c, x = .ok (a, c) ∧ r = (a, s.withCore c) := by
  rw [liftCore, Outcome.lift_eq_ok]
  exact ⟨fun ⟨⟨a, c⟩, h, he⟩ => ⟨a, c, h, he.symm⟩, fun ⟨a, c, h, he⟩ => ⟨(a, c), h, he.symm⟩⟩

theorem liftCore_eq_throw {α : Type} {x : Outcome (Core σ) (α × Core σ)} :
    s.liftCore x = .throw s' ↔ ∃ c, x = .throw c ∧ s' = s.withCore c := by
  rw [liftCore, Outcome.lift_eq_throw]
  exact ⟨fun ⟨c, h, he⟩ => ⟨c, h, he.symm⟩, fun ⟨c, h, he⟩ => ⟨c, h, he.symm⟩⟩

theorem onCore_eq_ok {x : Outcome Empty (Core σ)} :
    s.onCore x = .ok s' ↔ ∃ c, x = .ok c ∧ s' = s.withCore c := by
  rw [onCore, Outcome.lift_eq_ok]
  exact ⟨fun ⟨c, h, he⟩ => ⟨c, h, he.symm⟩, fun ⟨c, h, he⟩ => ⟨c, h, he.symm⟩⟩

theorem onCore_ne_throw {x : Outcome Empty (Core σ)} : s.onCore x ≠ .throw s' :=
  Outcome.lift_ne_throw

/-- `fetch` with an instruction: the fetch members, the cache and the compile counter. -/
def FetchedInsn (s s' : Or1k σ) : Prop :=
  ∃ c dc n, Core.Fetched s.toCore c ∧
    s' = { s with toCore := c, decodeCache := dc, compiles := n }

/-- `fetch` with an exception. -/
def FetchRefused (s s' : Or1k σ) : Prop :=
  ∃ b c, Core.Fetched s.toCore b ∧ Core.Refused b c ∧ s' = s.withCore c

theorem FetchedInsn.eq (h : FetchedInsn s s') :
    s' = { s with immu := s'.immu, env := s'.env, ireq := s'.ireq, insn := s'.insn,
                  virtIpg := s'.virtIpg, physIpg := s'.physIpg, decodeCache := s'.decodeCache,
                  compiles := s'.compiles } := by
  obtain ⟨_, _, _, ⟨_, _, _, _, _, _, -, rfl⟩, rfl⟩ := h
  rfl

theorem compile_ok {r : Option Instruction × Or1k σ} (h : s.compile = .ok r) :
    (r.1 = none ∧ ∃ c, Core.Refused s.toCore c ∧ r.2 = s.withCore c) ∨
      ∃ ci dc n, r.1 = some ci ∧ r.2 = { s with decodeCache := dc, compiles := n } := by
  simp only [compile] at h
  split at h
  · obtain ⟨s1, h1, h⟩ := Outcome.bind_eq_ok.1 h
    obtain ⟨c, hc, rfl⟩ := onCore_eq_ok.1 h1
    cases h
    exact .inl ⟨rfl, c, Core.exception_refused rfl hc, rfl⟩
  · split at h
    · cases h
    · cases h; exact .inr ⟨_, _, _, rfl, rfl⟩

theorem compile_throw (h : s.compile = .throw s') :
    ∃ dc, s' = { s with decodeCache := dc } := by
  simp only [compile] at h
  split at h
  · rcases Outcome.bind_eq_throw.1 h with h | ⟨s1, -, h⟩
    · exact (onCore_ne_throw h).elim
    · cases h
  · split at h
    · cases h; exact ⟨_, rfl⟩
    · cases h

variable [EnvImpl σ]

theorem fetch_ok {r : Option Instruction × Or1k σ} (h : s.fetch = .ok r) :
    ((∃ ci, r.1 = some ci) ∧ FetchedInsn s r.2) ∨ (r.1 = none ∧ FetchRefused s r.2) := by
  obtain ⟨⟨found, s1⟩, h1, h⟩ := Outcome.bind_eq_ok.1 h
  obtain ⟨_, c1, hc1, he⟩ := liftCore_eq_ok.1 h1
  obtain ⟨rfl, rfl⟩ := Prod.mk.inj he
  dsimp only at h
  obtain ⟨hf, hc⟩ | ⟨hf, b, hb, hc⟩ := Core.fetchAddress_ok hc1 <;> dsimp only at hf hc <;>
    subst hf
  · rw [if_neg (by simp)] at h
    split at h
    · cases h
      exact .inl ⟨⟨_, rfl⟩, _, s.decodeCache, s.compiles,
        hc.trans ⟨_, _, _, _, _, _, .refl _, rfl⟩, rfl⟩
    · obtain ⟨⟨read, s2⟩, h2, h⟩ := Outcome.bind_eq_ok.1 h
      obtain ⟨_, c2, hc2, he⟩ := liftCore_eq_ok.1 h2
      obtain ⟨rfl, rfl⟩ := Prod.mk.inj he
      dsimp only at h
      obtain ⟨hf, hd⟩ | ⟨hf, b, hb, hd⟩ := Core.fetchWord_ok hc2 <;> dsimp only at hf hd <;>
        subst hf
      · rw [if_neg (by simp)] at h
        obtain ⟨hn, c3, hr, he⟩ | ⟨ci, dc, n, hs, he⟩ := compile_ok h
        · exact .inr ⟨hn, c2, c3, hc.trans hd, hr, he⟩
        · exact .inl ⟨⟨ci, hs⟩, c2, dc, n, hc.trans hd, he⟩
      · rw [if_pos (by simp)] at h
        cases h
        exact .inr ⟨rfl, b, c2, hc.trans hb, hd, rfl⟩
  · rw [if_pos (by simp)] at h
    cases h
    exact .inr ⟨rfl, b, c1, hb, hc, rfl⟩

theorem FetchedInsn.of_fetch {ci : Instruction} (h : s.fetch = .ok (some ci, s')) :
    FetchedInsn s s' := by
  obtain ⟨-, hfi⟩ | ⟨hno, -⟩ := fetch_ok h
  · exact hfi
  · cases hno

theorem fetch_throw (h : s.fetch = .throw s') : FetchedInsn s s' := by
  rcases Outcome.bind_eq_throw.1 h with h | ⟨⟨found, s1⟩, h1, h⟩
  · obtain ⟨c, hc, -⟩ := liftCore_eq_throw.1 h
    exact (Core.fetchAddress_ne_throw hc).elim
  · obtain ⟨_, c1, hc1, he⟩ := liftCore_eq_ok.1 h1
    obtain ⟨rfl, rfl⟩ := Prod.mk.inj he
    dsimp only at h
    obtain ⟨hf, hc⟩ | ⟨hf, b, hb, hc⟩ := Core.fetchAddress_ok hc1 <;> dsimp only at hf hc <;>
      subst hf
    · rw [if_neg (by simp)] at h
      split at h
      · cases h
      · rcases Outcome.bind_eq_throw.1 h with h | ⟨⟨read, s2⟩, h2, h⟩
        · obtain ⟨c2, hc2, rfl⟩ := liftCore_eq_throw.1 h
          exact ⟨c2, s.decodeCache, s.compiles, hc.trans (Core.fetchWord_throw hc2), rfl⟩
        · obtain ⟨_, c2, hc2, he⟩ := liftCore_eq_ok.1 h2
          obtain ⟨rfl, rfl⟩ := Prod.mk.inj he
          dsimp only at h
          obtain ⟨hf, hd⟩ | ⟨hf, b, hb, hd⟩ := Core.fetchWord_ok hc2 <;> dsimp only at hf hd <;>
            subst hf
          · rw [if_neg (by simp)] at h
            obtain ⟨dc, rfl⟩ := compile_throw h
            exact ⟨c2, dc, s.compiles, hc.trans hd, rfl⟩
          · rw [if_pos (by simp)] at h; cases h
    · rw [if_pos (by simp)] at h; cases h

/-- What the address step establishes and the other steps keep holds behind a fetch. -/
theorem fetch_ends {P : Core σ → Prop} (ha : Outcome.Ends P (fun r => P r.2) s.toCore.fetchAddress)
    (hw : ∀ c, P c → Outcome.Ends P (fun r => P r.2) c.fetchWord)
    (he : ∀ c x : Core σ, P c → Core.Refused c x → P x)
    (hi : ∀ (c : Core σ) (w : U32), P c → P { c with insn := w }) :
    Outcome.Ends (fun x => P x.toCore) (fun r => P r.2.toCore) s.fetch := by
  have hcore : ∀ {x : Outcome (Core σ) (Bool × Core σ)} (y : Or1k σ),
      Outcome.Ends P (fun r => P r.2) x →
      Outcome.Ends (fun x => P x.toCore) (fun r => P r.2.toCore) (y.liftCore x) :=
    fun y h => h.lift (fun _ h => h) fun _ h => h
  refine (hcore s ha).bind fun a h => ?_
  dsimp only
  split
  · exact .ok h
  · split
    · exact .ok (hi _ _ h)
    · refine (hcore a.2 (hw _ h)).bind fun b h => ?_
      split
      · exact .ok h
      · refine Outcome.ends_of (fun r hr => ?_) fun x hx => ?_
        · obtain ⟨-, c, hc, hr⟩ | ⟨ci, dc, n, -, hr⟩ := compile_ok hr <;> rw [hr]
          · exact he _ _ h hc
          · exact h
        · obtain ⟨dc, rfl⟩ := compile_throw hx
          exact h

end Or1k

/-! ## The instruction MMU and its shortcut -/

namespace Core

variable {c b c' : Core σ}

/-- The ITLB, the page of the last fetch with its physical page, and what the fetch request
asks for. -/
def itlb (c : Core σ) : Mmu × U32 × U32 × Bool × Bool :=
  (c.immu, c.virtIpg, c.physIpg, c.ireq.debug, c.ireq.imem)

theorem itlb_entered (t : ExType) (addr : U32) : (c.entered t addr).itlb = c.itlb := by
  unfold entered
  dsimp only
  split <;> rfl

theorem Refused.itlb (h : Refused b c') : c'.itlb = b.itlb := by
  obtain ⟨t, addr, -, -, rfl⟩ := h
  exact itlb_entered t addr

variable [EnvImpl σ]

/-- What a fetch does to the instruction MMU and to the shortcut in front of it. -/
inductive Addressed (c c' : Core σ) : Prop where
  | kept (hs : c.isImmuActive = true → c.samePage = true) (h : c'.itlb = c.itlb)
  | refused (ha : c.isImmuActive = true) (hs : c.samePage = false)
      (hr : (c.immu.translate c.env c.fetchRequest).1 ≠ .okay)
      (h : c'.itlb = ((c.immu.translate c.env c.fetchRequest).2.1, c.virtIpg, c.physIpg,
        c.ireq.debug, c.ireq.imem))
  | filled (ha : c.isImmuActive = true) (hs : c.samePage = false)
      (hr : (c.immu.translate c.env c.fetchRequest).1 = .okay)
      (h : c'.itlb = ((c.immu.translate c.env c.fetchRequest).2.1, pageAlign c.nextPc,
        pageAlign (c.immu.translate c.env c.fetchRequest).2.2.2.addr, c.ireq.debug,
        c.ireq.imem))

theorem Addressed.of_itlb (h : Addressed c b) (hb : c'.itlb = b.itlb) : Addressed c c' := by
  cases h with
  | kept hs h => exact .kept hs (hb.trans h)
  | refused ha hs hr h => exact .refused ha hs hr (hb.trans h)
  | filled ha hs hr h => exact .filled ha hs hr (hb.trans h)

theorem fetchAddress_addressed {r : Bool × Core σ} (h : c.fetchAddress = .ok r) :
    Addressed c r.2 := by
  unfold fetchAddress at h
  by_cases ha : c.isImmuActive = true
  · rw [if_pos ha] at h
    by_cases hs : c.samePage = true
    · rw [if_pos hs] at h
      cases h
      exact .kept (fun _ => hs) rfl
    · rw [if_neg hs] at h
      have hs : c.samePage = false := by simpa using hs
      have ht : c.translateFetch.1 = (c.immu.translate c.env c.fetchRequest).1 := rfl
      have hq := Mmu.translate_request c.immu c.env c.fetchRequest
      have hd : c.translateFetch.2.ireq.debug = c.ireq.debug := hq.1
      have hm : c.translateFetch.2.ireq.imem = c.ireq.imem := hq.2
      have hi : c.translateFetch.2.itlb = ((c.immu.translate c.env c.fetchRequest).2.1, c.virtIpg,
          c.physIpg, c.ireq.debug, c.ireq.imem) := by
        unfold itlb
        rw [hd, hm]
        rfl
      have hp : c.translateFetch.2.ireq.addr =
        (c.immu.translate c.env c.fetchRequest).2.2.2.addr := rfl
      have hv : c.translateFetch.2.immu = (c.immu.translate c.env c.fetchRequest).2.1 := rfl
      split at h <;> rename_i he <;> rw [he] at ht hd hm hi hp hv <;>
        dsimp only at ht hd hm hi hp hv
      · refine .refused ha hs (by rw [← ht]; nofun) ?_
        rw [(refuse_ok rfl h).2.itlb, hi]
      · refine .refused ha hs (by rw [← ht]; nofun) ?_
        rw [(refuse_ok rfl h).2.itlb, hi]
      · cases h
        refine .filled ha hs ht.symm ?_
        rw [← hp, ← hv, ← hd, ← hm]
        have hn : ∀ d : Core σ, c.translateFetch = (.okay, d) → d.nextPc = c.nextPc := by
          intro d hd
          exact congrArg (fun x : MmuResult × Core σ => x.2.nextPc) hd.symm
        rw [← hn _ he]
        rfl
  · rw [if_neg ha] at h
    cases h
    exact .kept (fun h => (ha h).elim) rfl

theorem readInsn_itlb : c.readInsn.2.itlb = c.itlb := by
  have hq := Env.convertAndTransact_request (e := c.env)
    { c.ireq with data := bytesOf c.env.hostEndian c.insn }
  have hd : c.readInsn.2.ireq.debug = c.ireq.debug := hq.1
  have hm : c.readInsn.2.ireq.imem = c.ireq.imem := hq.2
  unfold itlb
  rw [hd, hm]
  rfl

theorem fetchWord_itlb {r : Bool × Core σ} (h : c.fetchWord = .ok r) : r.2.itlb = c.itlb := by
  unfold fetchWord at h
  split at h
  · cases h
    rfl
  · have hr := readInsn_itlb (c := c)
    split at h <;> rename_i he <;> rw [he] at hr
    · rw [(refuse_ok rfl h).2.itlb, hr]
    · cases h
    · cases h
      exact hr

theorem fetchWord_throw_itlb (h : c.fetchWord = .throw c') : c'.itlb = c.itlb := by
  unfold fetchWord at h
  split at h
  · cases h
  · have hr := readInsn_itlb (c := c)
    split at h <;> rename_i he <;> rw [he] at hr
    · exact (refuse_ne_throw h).elim
    · cases h
      exact hr
    · cases h

end Core

namespace Or1k

variable [EnvImpl σ]

theorem addressed_ends : Outcome.Ends (fun x => Core.Addressed s.toCore x.toCore)
    (fun r => Core.Addressed s.toCore r.2.toCore) s.fetch := by
  refine fetch_ends ?_ (fun c h => ?_) (fun c x h hr => h.of_itlb hr.itlb) fun c w h => h.of_itlb rfl
  · exact Outcome.ends_of (fun r hr => Core.fetchAddress_addressed hr)
      fun x hx => (Core.fetchAddress_ne_throw hx).elim
  · exact Outcome.ends_of (fun r hr => h.of_itlb (Core.fetchWord_itlb hr))
      fun x hx => h.of_itlb (Core.fetchWord_throw_itlb hx)

theorem fetch_addressed {r : Option Instruction × Or1k σ} (h : s.fetch = .ok r) :
    Core.Addressed s.toCore r.2.toCore := addressed_ends.of_ok h

theorem fetch_throw_addressed (h : s.fetch = .throw s') : Core.Addressed s.toCore s'.toCore :=
  addressed_ends.of_throw h

end Or1k

end Or1kiss
