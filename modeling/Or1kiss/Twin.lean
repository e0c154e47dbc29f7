import Or1kiss.Apart
import Or1kiss.Beside
import Or1kiss.DecodeCache
import Or1kiss.Port

/-!
# Two simulators, one without a decode cache

`Twin` relates a simulator to the same one with the cache switched off. What they execute they
execute alike (`execute_twin`), and they fetch alike if a hit is a slot that is up to date
(`fetch_twin`); so the two take every step of a machine together (`act_twin`).
-/

namespace Or1kiss

open Host Bits Outcome Runs

variable {σ : Type}

/-! ## Twins -/

namespace Or1k

/-- `t` is `s` with the decode cache switched off. -/
def Twin (s t : Or1k σ) : Prop := ∃ dc k n, dc.size = 0 ∧
  t = { s with decodeCache := dc, compiles := k, ireq := { s.ireq with cycles := n } }

abbrev Agree (x y : Outcome (Or1k σ) (Or1k σ)) : Prop := Both Twin Twin x y

variable {s t : Or1k σ} {ci : Instruction}

theorem Twin.apart (h : Twin s t) : Core.Apart s.toCore t.toCore := by
  obtain ⟨dc, k, n, h0, rfl⟩ := h
  exact ⟨n, rfl⟩

theorem withCore_twin (h : Twin s t) {c d : Core σ} (hc : Core.Apart c d) :
    Twin (s.withCore c) (t.withCore d) := by
  obtain ⟨dc, k, n, h0, rfl⟩ := h
  obtain ⟨m, rfl⟩ := hc
  exact ⟨dc, k, m, h0, rfl⟩

/-- What twins differ in. -/
def TwinRest (p q : Rest σ) : Prop := q.env = p.env ∧ q.decodeCache.size = 0 ∧
  ∃ n, q.ireq = { p.ireq with cycles := n }

theorem twin_iff : Twin s t ↔ Beside TwinRest s t := by
  constructor
  · rintro ⟨dc, k, n, h0, rfl⟩
    exact ⟨⟨s.env, { s.ireq with cycles := n }, dc, k⟩, ⟨rfl, h0, n, rfl⟩, rfl⟩
  · rintro ⟨⟨env, ireq, dc, k⟩, ⟨he, h0, n, hq⟩, rfl⟩
    dsimp only at he h0 hq
    subst he hq
    exact ⟨dc, k, n, h0, rfl⟩

theorem agree_of_both {x y : Outcome (Or1k σ) (Or1k σ)}
    (h : Both (Beside TwinRest) (Beside TwinRest) x y) : Agree x y :=
  h.mono (fun _ _ => twin_iff.2) fun _ _ => twin_iff.2

theorem invalidateBlock_size (d : DecodeCache) (addr : U32) (n : Nat) :
    (d.invalidateBlock addr n).size = d.size := by
  have hone : ∀ (d : DecodeCache) (a : U32), (d.invalidate a).size = d.size := by
    intro d a
    unfold DecodeCache.invalidate
    split <;> rfl
  unfold DecodeCache.invalidateBlock
  generalize List.range ((n + 3) / 4) = l
  induction l generalizing d with
  | nil => rfl
  | cons i l ih => exact (ih _).trans (hone d _)

variable [EnvImpl σ]

theorem bystander_twin : Bystander (@TwinRest σ) where
  host h := by rw [h.1]
  direct h a := by rw [h.1]
  sleep h n := by
    rw [h.1]
    exact ⟨rfl, rfl, h.2⟩
  invalidate h a n := ⟨h.1, (invalidateBlock_size ..).trans h.2.1, h.2.2⟩
  reset h := h

theorem exception_twin (h : Twin s t) (e : ExType) (addr : U32) :
    Agree (s.exception e addr) (t.exception e addr) :=
  agree_of_both (exception_beside bystander_twin (twin_iff.1 h) e addr)

theorem mem_twin (h : Twin s t) (e : MemExec) : Agree (s.executeMem e ci) (t.executeMem e ci) := by
  refine Both.bind (R := fun a b => b.1 = a.1 ∧ Twin a.2 b.2) ?_ fun x y hxy => ?_
  · exact (Core.executeMem_apart h.apart e).lift (fun _ _ hc => withCore_twin h hc)
      fun _ _ hc => ⟨hc.1, withCore_twin h hc.2⟩
  · obtain ⟨stall, a⟩ := x
    obtain ⟨stall', b⟩ := y
    obtain ⟨hs, dc, k, n, h0, hb⟩ := hxy
    dsimp only at hs hb
    subst hs hb
    exact .ok ⟨dc, k, n, h0, rfl⟩

/-- Executing does not look at the decode cache. -/
theorem execute_twin [HostLib] (h : Twin s t) : Agree (s.execute ci) (t.execute ci) :=
  agree_of_both <| execute_beside bystander_twin (twin_iff.1 h) fun e _ =>
    (mem_twin h e).mono (fun _ _ => twin_iff.1) fun _ _ => twin_iff.1

end Or1k

/-! ## The words behind the cache -/

/-- A slot is tagged with the address. -/
def DecodeCache.caches (d : DecodeCache) (a : U32) : Bool := (d.lookup a).addr == a

/-- A port that supplies an instruction word does nothing else. -/
def EnvImpl.Supplies (σ : Type) [EnvImpl σ] : Prop := ∀ (req : Request) (w : World σ),
  req.imem = true → req.read = true → (EnvImpl.transact req w).resp = .success →
    (EnvImpl.transact req w).world = w

variable [EnvImpl σ]

theorem Env.convertAndTransact_supplies {e : Env σ} {req : Request} (hp : EnvImpl.Supplies σ)
    (hi : req.imem = true) (hr : req.read = true) (hn : e.getInsnPtr req.addr = none)
    (h : (e.convertAndTransact req).1 = .success) : (e.convertAndTransact req).2.2 = e := by
  have ha : ∀ d, (e.access { req with data := d }).1 = .success →
      (e.access { req with data := d }).2.2 = e := by
    intro d h
    have hm : e.directMemoryPtr { req with data := d } =
        (none, { req with data := d, cycles := req.cycles + e.insnCycles }) := by
      unfold directMemoryPtr
      rw [if_pos hi]
      exact congrArg (fun p => (p, _)) hn
    unfold access at h ⊢
    rw [hm] at h ⊢
    dsimp only at h ⊢
    have hw := hp _ _ (by exact hi) (by exact hr) h
    rw [hw]
  by_cases hs : req.size > 1 ∧ req.endian ≠ e.endian
  · rw [convertAndTransact_swapped hs] at h ⊢
    exact ha _ h
  · rw [convertAndTransact_direct hs] at h ⊢
    exact ha req.data h

namespace Core

variable {c : Core σ}

/-- The word that a fetch from `a` reads. -/
def supplied (c : Core σ) (a : U32) : Option U32 :=
  match ({ c with ireq := { c.ireq with addr := a } } : Core σ).fetchWord with
  | .ok (true, x) => some x.insn
  | _ => none

/-- The request of a fetch, between fetches and before the word is read. -/
structure Asks (req : Request) : Prop where
  imem : req.imem = true
  read : req.read = true
  data : req.data = []

theorem readInsn_supplied (hp : EnvImpl.Supplies σ) (ha : Asks c.ireq) (hn : c.env.getInsnPtr c.ireq.addr = none)
    (h : c.readInsn.1 = .success) : ∃ n, c.readInsn.2 =
      { c with insn := c.readInsn.2.insn, ireq := { c.ireq with cycles := n } } := by
  let req : Request := { c.ireq with data := bytesOf c.env.hostEndian c.insn }
  have hi : req.imem = true := ha.imem
  have hr : req.read = true := ha.read
  obtain ⟨d, n, hans⟩ := Env.convertAndTransact_answers c.env req
  have he := Env.convertAndTransact_supplies hp hi hr hn h
  refine ⟨n, ?_⟩
  have hx : c.readInsn.2 = { c with
      env := (c.env.convertAndTransact req).2.2, insn := c.readInsn.2.insn,
      ireq := { (c.env.convertAndTransact req).2.1 with data := [] } } := rfl
  rw [hx, hans, he]
  dsimp only [req]
  rw [← ha.data]

/-- Reading the word again leaves it in `m_insn`, and nothing else but a charge. -/
theorem fetchWord_supplied (hp : EnvImpl.Supplies σ) (ha : Asks c.ireq) {w : U32} (h : c.supplied c.ireq.addr = some w) :
    ∃ n, c.fetchWord = .ok (true, { c with insn := w, ireq := { c.ireq with cycles := n } }) := by
  change (match c.fetchWord with | .ok (true, x) => some x.insn | _ => none) = some w at h
  unfold fetchWord at h ⊢
  cases hn : c.env.getInsnPtr c.ireq.addr with
  | some p =>
    rw [hn] at h
    cases h
    exact ⟨c.ireq.cycles, rfl⟩
  | none =>
    rw [hn] at h
    have hs := readInsn_supplied hp ha hn
    generalize c.readInsn = r at h hs ⊢
    obtain ⟨resp, x⟩ := r
    cases resp with
    | success =>
      obtain ⟨n, hx⟩ := hs rfl
      cases h
      exact ⟨n, congrArg (fun x => Outcome.ok (true, x)) hx⟩
    | failed => cases h
    | error =>
      exfalso
      dsimp only at h
      split at h
      · rename_i y hy
        exact nomatch (refuse_ok (t := .insnBusError) rfl hy).1
      · cases h

theorem fetchAddress_asks {b : Bool} {x : Core σ} (h : c.fetchAddress = .ok (b, x))
    (ha : Asks c.ireq) : Asks x.ireq := by
  have hrefuse : ∀ {y : Core σ} {t : ExType}, Asks y.ireq → y.refuse t = .ok (b, x) →
      Asks x.ireq := by
    intro y t hy h
    obtain ⟨z, hz, he⟩ := Outcome.lift_eq_ok.1 h
    cases he
    obtain ⟨-, rfl⟩ | ⟨-, -, rfl⟩ := exception_ok hz
    · exact hy
    · unfold entered
      dsimp only
      split <;> exact hy
  have ht := Mmu.translate_fields c.immu c.env c.fetchRequest
  have ht' : Asks c.translateFetch.2.ireq := ⟨ht.imem.trans ha.imem, ht.read.trans ha.read, ht.data.trans ha.data⟩
  unfold fetchAddress at h
  split at h
  · split at h
    · cases h
      exact ⟨ha.imem, ha.read, ha.data⟩
    · split at h <;> rename_i he <;> rw [he] at ht'
      · exact hrefuse ht' h
      · exact hrefuse ht' h
      · cases h
        exact ht'
  · cases h
    exact ⟨ha.imem, ha.read, ha.data⟩

/-- The address step forgets what the last fetch was charged. -/
theorem fetchAddress_apart {d : Core σ} (h : Apart c d) : d.fetchAddress = c.fetchAddress := by
  obtain ⟨n, rfl⟩ := h
  rfl

end Core

namespace Or1k

variable {s t f x : Or1k σ} {ci : Instruction}

/-! ## Fetch -/

theorem compile_twin (h : Twin s t) :
    Both Twin (fun a b => b.1 = a.1 ∧ Twin a.2 b.2) s.compile t.compile := by
  have hx := exception_twin h .illegalInsn s.ireq.addr
  obtain ⟨dc, k, n, h0, rfl⟩ := h
  unfold compile
  dsimp only
  split
  · exact hx.bind fun a b hab => .ok ⟨rfl, hab⟩
  · split
    · exact .throw ⟨dc.store s.ireq.addr _, k, n, h0, rfl⟩
    · exact .ok ⟨rfl, dc.store s.ireq.addr _, k + 1, n, h0, rfl⟩

omit [EnvImpl σ] in
/-- Compiling the word of a full slot gives the slot again. -/
theorem compile_full (hf : ci.Full) (hw : s.insn = ci.insn) (ha : s.ireq.addr = ci.addr) :
    s.compile = .ok (some ci, { s with
      decodeCache := s.decodeCache.store ci.addr ci, compiles := s.compiles + 1 }) := by
  obtain ⟨-, handler, hh, hci⟩ := hf
  have hl : ¬(decode ci.insn = .invalidOpcode ∨ decode ci.insn = .orbis32Cust1) := by
    rintro (hd | hd) <;> rw [hd] at hh <;> cases hh
  unfold compile
  dsimp only
  rw [hw, ha, if_neg hl, hh]
  dsimp only
  rw [← hci]

theorem fetch_twin (hp : EnvImpl.Supplies σ) (h : Twin s t) (ha : Core.Asks s.ireq)
    (hf : ∀ c, s.Looks c → s.Tagged c.ireq.addr →
      c.supplied c.ireq.addr = some (s.decodeCache.lookup c.ireq.addr).insn ∧
        (s.decodeCache.lookup c.ireq.addr).Full) :
    Both Twin (fun a b => b.1 = a.1 ∧ Twin a.2 b.2) s.fetch t.fetch := by
  have hoff : ∀ {c : Core σ}, (t.withCore c).decodeCache.isOff = true := by
    obtain ⟨dc, k, n, h0, rfl⟩ := h
    exact beq_iff_eq.2 h0
  unfold fetch
  rw [Core.fetchAddress_apart h.apart]
  cases hc : s.toCore.fetchAddress with
  | fault e => exact .fault e
  | throw c => exact .throw (withCore_twin h (.refl c))
  | ok r =>
    obtain ⟨found, c⟩ := r
    have hask := Core.fetchAddress_asks hc ha
    have hs := withCore_twin h (.refl c)
    show Both _ _ (if !found then _ else _) (if !found then _ else _)
    cases found with
    | false => exact .ok ⟨rfl, hs⟩
    | true =>
      rw [if_neg (show ¬(!true) = true from nofun), if_neg (show ¬(!true) = true from nofun)]
      dsimp only
      rw [hoff, if_neg (show ¬(_ ∧ true = false) from fun h => nomatch h.2)]
      split
      · rename_i ht
        -- the cached machine hits, the other one reads and decodes the word again
        obtain ⟨hw, hfull⟩ := hf c hc ht
        obtain ⟨n, hn⟩ := Core.fetchWord_supplied hp hask hw
        have htag : (s.decodeCache.lookup c.ireq.addr).addr = c.ireq.addr := ht.1
        show Both _ _ (Outcome.ok (some (s.decodeCache.lookup c.ireq.addr), s.withCore
          { c with insn := (s.decodeCache.lookup c.ireq.addr).insn })) _
        generalize s.decodeCache.lookup c.ireq.addr = ci at hfull hn htag ⊢
        have hd : Core.Apart { c with insn := ci.insn }
          { c with insn := ci.insn, ireq := { c.ireq with cycles := n } } := ⟨n, rfl⟩
        obtain ⟨dc, k, m, h0, hx⟩ := withCore_twin h hd
        show Both _ _ _ (((t.withCore c).liftCore c.fetchWord) >>= _)
        rw [hn]
        show Both _ _ _ ((t.withCore { c with
          insn := ci.insn, ireq := { c.ireq with cycles := n } }).compile)
        rw [compile_full hfull rfl htag.symm, hx]
        exact .ok ⟨rfl, dc.store ci.addr ci, k + 1, m, h0, rfl⟩
      · show Both _ _ (((s.withCore c).liftCore c.fetchWord) >>= _)
          (((t.withCore c).liftCore c.fetchWord) >>= _)
        cases hw : c.fetchWord with
        | fault e => exact .fault e
        | throw d => exact .throw (withCore_twin h (.refl d))
        | ok r =>
          obtain ⟨read, d⟩ := r
          show Both _ _ (if !read then _ else _) (if !read then _ else _)
          cases read with
          | false => exact .ok ⟨rfl, withCore_twin h (.refl d)⟩
          | true => exact compile_twin (withCore_twin h (.refl d))

/-- Every hit of this fetch is a slot that is up to date. -/
def UpToDate (s : Or1k σ) : Prop := ∀ c, s.Looks c → s.Tagged c.ireq.addr →
  c.supplied c.ireq.addr = some (s.decodeCache.lookup c.ireq.addr).insn ∧
    (s.decodeCache.lookup c.ireq.addr).Full

variable [HostLib]

theorem fetchExecute_twin (hp : EnvImpl.Supplies σ) (h : Twin s t) (ha : Core.Asks s.ireq)
    (hf : s.UpToDate) : Agree s.fetchExecute t.fetchExecute := by
  refine (fetch_twin hp h ha hf).bind fun x y hxy => ?_
  obtain ⟨i, a⟩ := x
  obtain ⟨j, b⟩ := y
  obtain ⟨hij, hab⟩ := hxy
  dsimp only at hij hab
  subst hij
  cases j with
  | none => exact .ok hab
  | some ci => exact execute_twin hab

end Or1k

namespace Machine

open Or1k

variable [HostLib] {m t : Machine σ} {a : Action σ}

/-- Both are at the same point of `advance`. -/
def Twin (m t : Machine σ) : Prop := t.phase = m.phase ∧ Or1k.Twin m.cpu t.cpu

/-- The two take every step together. -/
theorem act_twin (hp : EnvImpl.Supplies σ) (h : Twin m t) (ha : Core.Asks m.cpu.ireq)
    (hf : a = .run → m.executes = true → m.cpu.beginCycle.UpToDate) :
    Option.Rel Twin (m.act a) (t.act a) := by
  have hb : ∀ {s u : Or1k σ}, Or1k.Twin s u → Or1k.Twin s.beginCycle u.beginCycle := by
    rintro s u ⟨dc, k, n, h0, rfl⟩
    exact ⟨dc, k, n, h0, rfl⟩
  have hw : ∀ {s u : Or1k σ}, Or1k.Twin s u → ∀ w : World σ, Or1k.Twin
      { s with env := { s.env with world := w } } { u with env := { u.env with world := w } } := by
    rintro s u ⟨dc, k, n, h0, rfl⟩ w
    exact ⟨dc, k, n, h0, rfl⟩
  have hx := act_beside (a := a) bystander_twin ⟨h.1, twin_iff.1 h.2⟩
    (fun hr hx => (fetchExecute_twin hp (hb h.2) ha (hf hr hx)).mono (fun _ _ => twin_iff.1)
      fun _ _ => twin_iff.1) fun w _ => twin_iff.1 (hw h.2 w)
  generalize m.act a = x at hx ⊢
  generalize t.act a = y at hx ⊢
  cases hx with
  | none => exact .none
  | some hx => exact .some ⟨hx.1, twin_iff.2 hx.2⟩

end Machine

end Or1kiss
