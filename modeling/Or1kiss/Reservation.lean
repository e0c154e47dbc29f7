import Or1kiss.Aborted
import Or1kiss.Monitor

/-!
# Load-linked and store-conditional

`l.lwa` and `l.swa` are emulated by a compare and swap: the port remembers the address and the
word of the last exclusive read, and an exclusive store succeeds if address and word are still
the same. Nothing else ends a reservation, neither a store to the word nor a successful `l.swa`.
`reserving` follows the reservation along a run; the table walk of an exclusive access is itself
an exclusive read and loses it.
-/

namespace Or1kiss

open Host Bits Runs

variable {σ : Type}

/-- What is known of the monitor. -/
inductive Reservation where
  /-- There was no `l.lwa`. -/
  | vacant
  /-- The physical address of the last `l.lwa`, and the word it loaded. -/
  | held (addr : U32) (word : List U8)
  /-- A table walk has overwritten it. -/
  | lost
  deriving DecidableEq

/-- The monitor of the constructor `env`. -/
structure Env.Fresh (e : Env σ) : Prop where
  addr : e.exclAddr = 0xffffffff#32
  data : e.exclData.length = 4

/-- A word swapped into a buffer of four bytes. -/
theorem memcpyswp_word {tmp bs : List U8} (ht : tmp.length = 4) (hb : bs.length = 4) :
    memcpyswp tmp bs 4 = bs.reverse := by
  unfold memcpyswp
  rw [if_pos (by decide), List.take_of_length_le (by omega), List.drop_of_length_le (by omega),
    List.append_nil]

namespace Env

/-- The four bytes at a physical address; nothing where the direct pointer does not reach. -/
def wordAt (e : Env σ) (addr : U32) : List U8 :=
  match e.getDataPtr addr with
  | some p => readBytes e.world.mem p 4
  | none => []

/-- The bytes of a register in the endianness of the port. -/
def stored (e : Env σ) (v : U32) : List U8 :=
  if e.hostEndian = e.endian then bytesOf e.hostEndian v else (bytesOf e.hostEndian v).reverse

theorem Served.hostEndian {e t : Env σ} (h : Served e t) : t.hostEndian = e.hostEndian := by
  obtain ⟨_, _, _, rfl⟩ := h
  rfl

theorem Served.getDataPtr {e t : Env σ} (h : Served e t) (a : U32) :
    t.getDataPtr a = e.getDataPtr a := by
  obtain ⟨_, _, _, rfl⟩ := h
  rfl

theorem Served.stored {e t : Env σ} (h : Served e t) (v : U32) : t.stored v = e.stored v := by
  obtain ⟨_, _, _, rfl⟩ := h
  rfl

theorem length_readBytes (mem : Nat → U8) (p n : Nat) : (readBytes mem p n).length = n := by
  unfold readBytes
  rw [List.length_map, List.length_range]

variable [EnvImpl σ] {e : Env σ} {req : Request} {p : Nat}

theorem access_exclusive (hm : req.imem = false) (hx : req.excl = true)
    (hp : e.getDataPtr req.addr = some p) :
    ∃ n, e.access req = e.exclusiveAccess p { req with cycles := n } := by
  have hd : e.directMemoryPtr req = (some p, { req with cycles := req.cycles + e.dataCycles }) := by
    unfold directMemoryPtr
    rw [hm, if_neg Bool.false_ne_true, hp]
  unfold access
  rw [hd]
  dsimp only
  rw [if_pos hx]
  exact ⟨_, rfl⟩

/-- The remembered word stays a word. -/
theorem access_length (hs : req.size = 4) (hl : e.exclData.length = 4) :
    (e.access req).2.2.exclData.length = 4 := by
  obtain ⟨d, n, hd⟩ := directMemoryPtr_answers e req
  unfold access
  split <;> rename_i h <;> rw [h] at hd <;> dsimp only at hd <;> subst hd
  · dsimp only
    split
    · unfold exclusiveAccess
      split
      · show (readBytes _ _ req.size ++ e.exclData.drop req.size).length = 4
        rw [List.length_append, length_readBytes, List.length_drop, hs, hl]
      · split
        · exact hl
        · split <;> exact hl
    · split <;> exact hl
  · exact hl

theorem convertAndTransact_length (hs : req.size = 4) (hl : e.exclData.length = 4) :
    (e.convertAndTransact req).2.2.exclData.length = 4 := by
  by_cases h : req.size > 1 ∧ req.endian ≠ e.endian
  · rw [convertAndTransact_swapped h]
    exact access_length hs hl
  · rw [convertAndTransact_direct h]
    exact access_length hs hl

/-- An exclusive access through the direct pointer is a call of `exclusive_access`. -/
theorem convertAndTransact_exclusive {v : U32} (hm : req.imem = false) (hx : req.excl = true)
    (hp : e.getDataPtr req.addr = some p) (hs : req.size = 4) (he : req.endian = e.hostEndian)
    (hd : req.data = bytesOf e.hostEndian v) :
    ∃ q : Request, q.read = req.read ∧ q.addr = req.addr ∧ q.size = 4 ∧ q.data = e.stored v ∧
      (e.convertAndTransact req).1 = (e.exclusiveAccess p q).1 ∧
        (e.convertAndTransact req).2.2 = (e.exclusiveAccess p q).2.2 := by
  have hl := length_bytesOf e.hostEndian v
  by_cases hc : req.size > 1 ∧ req.endian ≠ e.endian
  · obtain ⟨n, hn⟩ := access_exclusive (show (e.swapped req).imem = false from hm) hx hp
    rw [convertAndTransact_swapped hc, hn]
    refine ⟨{ e.swapped req with cycles := n }, rfl, rfl, hs, ?_, rfl, rfl⟩
    have hne : ¬e.hostEndian = e.endian := he ▸ hc.2
    have hb : ¬req.size > 8 := by omega
    show memcpyswp (if req.size > 8 then _ else _) req.data req.size = _
    unfold stored
    rw [if_neg hb, if_neg hne, hd, hs]
    exact memcpyswp_word List.length_replicate hl
  · obtain ⟨n, hn⟩ := access_exclusive hm hx hp
    rw [convertAndTransact_direct hc, hn]
    refine ⟨{ req with cycles := n }, rfl, rfl, hs, ?_, rfl, rfl⟩
    have heq : e.hostEndian = e.endian := by
      by_contra hne
      exact hc ⟨by omega, he ▸ hne⟩
    show req.data = _
    unfold stored
    rw [if_pos heq, hd]

end Env

/-- An exclusive store leaves the monitor as it is. -/
theorem Env.exclusiveAccess_monitor (t : Env σ) (p : Nat) (q : Request) (hr : q.read = false) :
    (t.exclusiveAccess p q).2.2.monitor = t.monitor := by
  unfold exclusiveAccess
  rw [hr, if_neg Bool.false_ne_true]
  split
  · rfl
  · split <;> rfl

namespace Mmu

variable [EnvImpl σ] {m : Mmu} {env : Env σ} {req : Request}

/-- A TLB hit does not use the port. -/
theorem translate_hit_env (hd : req.debug = false)
    (hh : ((m.age (m.setOf req.addr)).hitWay req.addr).isSome = true) :
    (m.translate env req).2.2.1 = env := by
  obtain ⟨way, hw⟩ := Option.isSome_iff_exists.1 hh
  unfold translate
  dsimp only
  rw [hd, if_neg Bool.false_ne_true, hw]

theorem walk_length (m : Mmu) (env : Env σ) (req : Request) (hl : env.exclData.length = 4) :
    (m.walk env req).2.exclData.length = 4 := by
  have hpte : ∀ (env : Env σ) (req : Request) (addr : U32), env.exclData.length = 4 →
      (readPte env req addr).2.2.2.exclData.length = 4 :=
    fun env req addr hl => Env.convertAndTransact_length rfl hl
  have h1 := hpte env (walkRequest env req) ((m.ctrl &&& MMUCR.PGD) + (bits32 req.addr 31 24 <<< 2)) hl
  unfold walk
  dsimp only
  split
  · exact hl
  · split <;> rename_i he1 <;> rw [he1] at h1
    · rename_i pte1 r1 env1
      split
      · exact h1
      · have h2 := hpte env1 r1 (pageAlign pte1 + (bits32 req.addr 23 13 <<< 2)) h1
        split <;> rename_i he2 <;> rw [he2] at h2
        · split <;> exact h2
        · exact h2
    · exact h1

theorem translate_length (m : Mmu) (env : Env σ) (req : Request) (hl : env.exclData.length = 4) :
    (m.translate env req).2.2.1.exclData.length = 4 := by
  unfold translate
  dsimp only
  generalize (if req.debug = true then m else m.age (m.setOf req.addr)) = m'
  split
  · exact hl
  · split
    · exact hl
    · have h := walk_length m' env req hl
      split <;> rename_i he <;> rw [he] at h <;> exact h

omit [EnvImpl σ] in
theorem pageAlign_and_three (trans addr : U32) :
    (pageAlign trans ||| pageOffset addr) &&& 3#32 = addr &&& 3#32 := by
  have h1 : pageAlign trans &&& 3#32 = 0#32 := by
    unfold pageAlign
    rw [BitVec.and_assoc]
    have : ~~~pageMask &&& 3#32 = 0#32 := by decide
    rw [this, BitVec.and_zero]
  have h2 : pageOffset addr &&& 3#32 = addr &&& 3#32 := by
    unfold pageOffset
    rw [BitVec.and_assoc]
    have : pageMask &&& 3#32 = 3#32 := by decide
    rw [this]
  rw [BitVec.or_comm, or_and_of_disjoint h1, h2]

omit [EnvImpl σ] in
theorem hit_low (way : Nat) (h : (m.hit way req).1 = .okay) :
    (m.hit way req).2.2.addr &&& 3#32 = req.addr &&& 3#32 := by
  revert h
  unfold hit
  dsimp only
  split
  · exact fun _ => pageAlign_and_three _ _
  · split
    · intro h
      cases h
    · exact fun _ => pageAlign_and_three _ _

omit [EnvImpl σ] in
theorem refill_low (pte2 : U32) (cycles : Nat) (h : (m.refill pte2 cycles req).1 = .okay) :
    (m.refill pte2 cycles req).2.2.addr &&& 3#32 = req.addr &&& 3#32 := by
  revert h
  unfold refill
  dsimp only
  generalize (if (req.imem && test pte2 MMUPTE.EXEC) = true then
    pte2 ||| MMUPTE.CC ||| (MMU.SXE ||| MMU.UXE) else pte2 ||| MMUPTE.CC) = t
  split
  · intro h
    cases h
  · intro h
    cases req.debug <;> exact pageAlign_and_three _ _

/-- Translation keeps the offset in the page. -/
theorem translate_low (h : (m.translate env req).1 = .okay) :
    (m.translate env req).2.2.2.addr &&& 3#32 = req.addr &&& 3#32 := by
  revert h
  unfold translate
  dsimp only
  generalize (if req.debug = true then m else m.age (m.setOf req.addr)) = m'
  split
  · exact hit_low _
  · split
    · intro h
      cases h
    · split
      · intro h
        cases h
      · exact refill_low _ _

end Mmu

/-! ## One access -/

namespace Core

/-- The request misses the TLB, and the page tables are read. -/
def missesTlb (req : Request) (c : Core σ) : Bool :=
  !misaligned req && c.isDmmuActive && ((c.dmmu.age (c.dmmu.setOf req.addr)).hitWay req.addr).isNone

/-- The load or store makes a table walk. -/
def walks (e : MemExec) (ci : Instruction) (c : Core σ) : Bool :=
  match c.requestOf e ci with
  | some req => c.missesTlb req
  | none => false

variable [EnvImpl σ]

/-- The physical address of a request that passes alignment and translation. -/
def resolved (req : Request) (c : Core σ) : Option U32 :=
  if misaligned req then none
  else
    match c.translateData req with
    | (.okay, r, _) => some r.addr
    | _ => none

/-- The physical address of a load or store. -/
def physical (e : MemExec) (ci : Instruction) (c : Core σ) : Option U32 :=
  (c.requestOf e ci).bind fun req => c.resolved req

/-- The access is served through the direct data pointer, if it is served at all. -/
def direct (e : MemExec) (ci : Instruction) (c : Core σ) : Bool :=
  match c.physical e ci with
  | some a => (c.env.getDataPtr a).isSome
  | none => true

variable {c x : Core σ} {e : MemExec} {ci : Instruction} {req : Request}

theorem translateData_wpEvent (w : WatchpointEvent) (req : Request) :
    ({ c with wpEvent := w } : Core σ).translateData req = ((c.translateData req).1,
      (c.translateData req).2.1, { (c.translateData req).2.2 with wpEvent := w }) := by
  unfold translateData
  by_cases ha : c.isDmmuActive = true
  · rw [if_pos ha, if_pos (show isDmmuActive { c with wpEvent := w } = true from ha)]
  · rw [if_neg ha, if_neg (show ¬isDmmuActive { c with wpEvent := w } = true from ha)]

/-- What translation does to the core. -/
theorem translateData_core (c : Core σ) (req : Request) : ∃ d t, c.env.Served t ∧
    (c.translateData req).2.2 = { c with dmmu := d, env := t } := by
  unfold translateData
  split
  · exact ⟨_, _, Mmu.translate_served .., rfl⟩
  · exact ⟨c.dmmu, c.env, .refl _, rfl⟩

theorem translateData_mem (hp : EnvImpl.Honest σ) (c : Core σ) (req : Request) :
    (c.translateData req).2.2.env.world.mem = c.env.world.mem := by
  unfold translateData
  split
  · exact Mmu.translate_mem _ _ _ hp
  · rfl

theorem translateData_hit (hd : req.debug = false) (ha : misaligned req = false)
    (hw : c.missesTlb req = false) : (c.translateData req).2.2.env = c.env := by
  unfold missesTlb at hw
  rw [ha, Bool.not_false, Bool.true_and] at hw
  unfold translateData
  split
  · rename_i ha
    rw [ha, Bool.true_and, Option.isNone_eq_false_iff] at hw
    exact Mmu.translate_hit_env hd hw
  · rfl

theorem translateData_length (c : Core σ) (req : Request) (hl : c.env.exclData.length = 4) :
    (c.translateData req).2.2.env.exclData.length = 4 := by
  unfold translateData
  split
  · exact Mmu.translate_length _ _ _ hl
  · exact hl

theorem translateData_low (c : Core σ) (req : Request) (h : (c.translateData req).1 = .okay) :
    (c.translateData req).2.1.addr &&& 3#32 = req.addr &&& 3#32 := by
  revert h
  unfold translateData
  split
  · exact Mmu.translate_low
  · exact fun _ => rfl

/-- The exclusive access through the direct pointer, on the port that translation left. -/
structure Excluded (read : Bool) (a v : U32) (t : Env σ) (c x : Core σ) : Prop where
  taken : x.taken = c.taken
  aligned : a &&& 3#32 = 0#32
  access : ∃ p q, c.env.getDataPtr a = some p ∧ q.read = read ∧ q.addr = a ∧ q.size = 4 ∧
    q.data = c.env.stored v ∧ x.env = (t.exclusiveAccess p q).2.2 ∧
      (test x.status SR.F = true ↔ (t.exclusiveAccess p q).1 = .success)

omit [EnvImpl σ] in
theorem complete_core (req : Request) (c : Core σ) : ∃ n, (c.complete req).core = { c with cycles := n } ∧
    (c.complete req).req = req := by
  unfold complete
  split
  · exact ⟨c.cycles, rfl, rfl⟩
  · exact ⟨_, rfl, rfl⟩

theorem send_excluded {p : Nat} {v : U32} {r : Access σ} (hm : req.imem = false)
    (hx : req.excl = true) (hp : c.env.getDataPtr req.addr = some p) (hs : req.size = 4)
    (he : req.endian = c.env.hostEndian) (hd : req.data = bytesOf c.env.hostEndian v)
    (ha : req.addr &&& 3#32 = 0#32) (h : c.send req = .ok r) :
    Excluded req.read req.addr v c.env c r.core ∧ r.core.ireq = c.ireq ∧ r.req.kind = req.kind := by
  obtain ⟨q, hqr, hqa, hqs, hqd, h1, h2⟩ := Env.convertAndTransact_exclusive hm hx hp hs he hd
  obtain ⟨d, n, hans⟩ := Env.convertAndTransact_answers c.env req
  unfold send at h
  generalize c.env.convertAndTransact req = w at h h1 h2 hans
  obtain ⟨resp, w, env⟩ := w
  dsimp only at h h1 h2 hans
  subst h1 h2
  have hwx : w.excl = true := by
    rw [hans]
    exact hx
  have hwk : w.kind = req.kind := by
    rw [hans]
    rfl
  cases hresp : (c.env.exclusiveAccess p q).1 with
  | error => exact (Env.exclusiveAccess_ne_error p hresp).elim
  | failed =>
    rw [hresp] at h
    dsimp only at h
    rw [hwx] at h
    cases h
    obtain ⟨k, hk, hr⟩ := complete_core w
      (({ c with env := (c.env.exclusiveAccess p q).2.2 } : Core σ).clearFlag SR.F)
    rw [hk, hr]
    refine ⟨⟨rfl, ha, p, q, hp, hqr, hqa, hqs, hqd, rfl, ?_⟩, rfl, hwk⟩
    rw [hresp]
    have hclear : test (c.status &&& ~~~SR.F) SR.F = false := test_and_not_self _ _
    exact iff_of_false (fun hf => Bool.false_ne_true (hclear.symm.trans hf)) nofun
  | success =>
    rw [hresp] at h
    dsimp only at h
    rw [hwx, if_pos rfl] at h
    cases h
    obtain ⟨k, hk, hr⟩ := complete_core w
      (({ c with env := (c.env.exclusiveAccess p q).2.2 } : Core σ).setFlag SR.F)
    rw [hk, hr]
    refine ⟨⟨rfl, ha, p, q, hp, hqr, hqa, hqs, hqd, rfl, ?_⟩, rfl, hwk⟩
    rw [hresp]
    exact iff_of_true (test_or_self (v := c.status) (by decide)) rfl

/-- An exclusive request: an exception on the port that translation left, or the access. -/
structure Tried (req : Request) (v : U32) (t : Env σ) (c x : Core σ) : Prop where
  served : c.env.Served t
  mem : t.world.mem = c.env.world.mem
  length : c.env.exclData.length = 4 → t.exclData.length = 4
  hit : c.missesTlb req = false → t = c.env
  excl : x.ireq.excl = c.ireq.excl
  tried : (x.taken ≠ c.taken ∧ x.env = t) ∨
    ∃ a, c.resolved req = some a ∧ Excluded req.read a v t c x

omit [EnvImpl σ] in
/-- An exception of an access that translation has seen. -/
theorem abort_tried {t : ExType} {r : Access σ} {w : WatchpointEvent} {d : Mmu} {e' : Env σ}
    {req' : Request} (h : abort t req' { c with wpEvent := w, dmmu := d, env := e' } = .ok r)
    (ht : t.isAsync = false) : r.core.taken ≠ c.taken ∧ r.core.env = e' ∧
      r.core.ireq.excl = c.ireq.excl ∧ r.req = req' := by
  obtain ⟨x, hx, rfl⟩ := Outcome.lift_eq_ok.1 h
  obtain ⟨hm', -⟩ | ⟨-, -, rfl⟩ := exception_ok hx
  · rw [masked_of_sync _ ht] at hm'
    cases hm'
  · obtain ⟨-, -, htk, -, henv⟩ := entered_fields ht req'.addr
      { c with wpEvent := w, dmmu := d, env := e' }
    have hmon := congrArg Prod.fst (entered_monitor (c := { c with wpEvent := w, dmmu := d, env := e' })
      t req'.addr)
    refine ⟨fun he => ?_, henv, hmon, rfl⟩
    exact List.cons_ne_self _ _ (htk.symm.trans he)

theorem transact_tried {v : U32} {r : Access σ} (hp : EnvImpl.Honest σ)
    (hk : req.kind = (c.env.hostEndian, false, false)) (hx : req.excl = true) (hs : req.size = 4)
    (hd : req.data = bytesOf c.env.hostEndian v)
    (hdir : ∀ a, c.resolved (c.dataRequest req) = some a → (c.env.getDataPtr a).isSome = true)
    (h : c.transact req = .ok r) :
    r.req.kind = req.kind ∧ ∃ t, Tried (c.dataRequest req) v t c r.core := by
  obtain ⟨w, hw⟩ := c.checkWatchpoints_eq (c.dataRequest req)
  have hdebug : req.debug = false := congrArg (·.2.2) hk
  have himem : req.imem = false := congrArg (·.2.1) hk
  have hend : req.endian = c.env.hostEndian := congrArg (·.1) hk
  unfold transact at h
  dsimp only at h
  rw [hw] at h
  split at h
  · obtain ⟨ht, he, hix, hr⟩ := abort_tried (c := c) h rfl
    refine ⟨by rw [hr]; rfl, c.env, .refl _, rfl, id, fun _ => rfl, hix, .inl ⟨ht, he⟩⟩
  · rename_i hal
    have hal := Bool.eq_false_iff.2 hal
    have haddr : req.addr &&& 3#32 = 0#32 := by
      have ha : (c.dataRequest req).isAligned = true := by
        simpa [misaligned, dataRequest, hdebug] using hal
      unfold Request.isAligned isAligned at ha
      rw [show (c.dataRequest req).size = 4 from hs] at ha
      exact beq_iff_eq.1 ha
    obtain ⟨d, t, hserved, hcore⟩ := translateData_core c (c.dataRequest req)
    have hmem := translateData_mem hp c (c.dataRequest req)
    have hhit := translateData_hit (c := c) (show (c.dataRequest req).debug = false from hdebug) hal
    have hlen := translateData_length c (c.dataRequest req)
    have hf := translateData_fields c (c.dataRequest req)
    have hlow := translateData_low c (c.dataRequest req)
    have hres : c.resolved (c.dataRequest req) = match c.translateData (c.dataRequest req) with
        | (.okay, r, _) => some r.addr
        | _ => none := by
      unfold resolved
      rw [hal, if_neg Bool.false_ne_true]
    rw [translateSend_eq, translateData_wpEvent] at h
    rw [hres] at hdir
    generalize c.translateData (c.dataRequest req) = q at h hcore hmem hhit hlen hf hlow hres hdir
    obtain ⟨res, q, b⟩ := q
    dsimp only at h hcore hmem hhit hlen hf hlow hres hdir
    subst hcore
    cases res with
    | tlbMiss | pageFault =>
      obtain ⟨ht, he, hix, hr⟩ := abort_tried h rfl
      exact ⟨by rw [hr]; exact hf.kind, t, hserved, hmem, hlen, hhit, hix, .inl ⟨ht, he⟩⟩
    | okay =>
      obtain ⟨p, hptr⟩ := Option.isSome_iff_exists.1 (hdir q.addr rfl)
      have hgp := hserved.getDataPtr
      have hhost := hserved.hostEndian
      have hsend : send q { c with wpEvent := w, dmmu := d, env := t } = .ok r := h
      obtain ⟨hex, hix, hr⟩ := send_excluded (v := v) (hf.imem.trans himem) (hf.excl.trans hx)
        ((hgp _).trans hptr) (hf.size.trans hs) (hf.endian.trans (hend.trans hhost.symm))
        (hf.data.trans (hd.trans (by rw [hhost]))) ((hlow rfl).trans haddr) hsend
      refine ⟨hr.trans hf.kind, t, hserved, hmem, hlen, hhit, congrArg Request.excl hix, .inr
        ⟨q.addr, hres, hex.taken, hex.aligned, ?_⟩⟩
      obtain ⟨p', q', hp', hqr, hqa, hqs, hqd, henv, hflag⟩ := hex.access
      exact ⟨p', q', (hgp _).symm.trans hp', hqr.trans hf.read, hqa, hqs,
        hqd.trans (hserved.stored v), henv, hflag⟩

theorem Tried.congr {v : U32} {t : Env σ} {y : Core σ} (h : Tried req v t c x)
    (htk : y.taken = x.taken) (henv : y.env = x.env) (hi : y.ireq = x.ireq)
    (hst : y.status = x.status) : Tried req v t c y where
  served := h.served
  mem := h.mem
  length := h.length
  hit := h.hit
  excl := by rw [hi, h.excl]
  tried := by
    rcases h.tried with ⟨ht, he⟩ | ⟨a, ha, hx⟩
    · exact .inl ⟨by rwa [htk], henv.trans he⟩
    · obtain ⟨p, q, hp, hqr, hqa, hqs, hqd, he, hf⟩ := hx.access
      exact .inr ⟨a, ha, htk.trans hx.taken, hx.aligned, p, q, hp, hqr, hqa, hqs, hqd,
        henv.trans he, by rwa [hst]⟩

/-- An `l.lwa` or `l.swa`. -/
theorem executeMem_tried {n : Nat} (hp : EnvImpl.Honest σ)
    (hk : c.dreq.kind = (c.env.hostEndian, false, false)) (hx : e.isExclusive = true)
    (hd : c.direct e ci = true) (h : c.executeMem e ci = .ok (n, x)) :
    x.dreq.kind = c.dreq.kind ∧ ∃ req v t, c.requestOf e ci = some req ∧ req.read = e.isLoad ∧
      c.deref ci (e.buffer ci) = .ok v ∧ Tried req v t c x := by
  rw [executeMem_access] at h
  obtain ⟨i, a, v, ha, hv, -, he⟩ := accessMemory_sends (by rw [h]; simp)
  obtain ⟨r, hr, hc⟩ := Outcome.lift_eq_ok.1 (he.symm.trans h)
  obtain ⟨rfl, rfl⟩ := Prod.mk.inj hc
  have hsize : e.size = 4 := by
    cases e <;> first | rfl | cases hx
  let m := memRequest e.isLoad e.isExclusive e.size a v ci c
  have hreq : c.requestOf e ci = some (c.dataRequest m) := by
    unfold requestOf
    rw [ha, hv]
  have hdata : m.data = bytesOf c.env.hostEndian v := by
    show (bytesOf c.env.hostEndian v).take e.size = _
    rw [hsize, List.take_of_length_le (Nat.le_of_eq (length_bytesOf _ _))]
  have hdir : ∀ b, c.resolved (c.dataRequest m) = some b → (c.env.getDataPtr b).isSome = true := by
    intro b hb
    unfold direct physical at hd
    rw [hreq, Option.bind_some, hb] at hd
    exact hd
  have hmk : m.kind = (c.env.hostEndian, false, false) := hk
  obtain ⟨hkind, t, ht⟩ := transact_tried (v := v) hp hmk hx hsize hdata hdir hr
  have hdk : r.req.kind = c.dreq.kind := hkind
  split
  · exact ⟨hdk, _, v, t, hreq, rfl, hv, ht.congr rfl rfl rfl rfl⟩
  · exact ⟨hdk, _, v, t, hreq, rfl, hv, ht.congr rfl rfl rfl rfl⟩

end Core

/-! ## Runs -/

namespace Reservation

/-- The monitor as far as it is known. -/
def Holds (e : Env σ) : Reservation → Prop
  | .vacant => e.exclAddr = 0xffffffff#32
  | .held addr word => e.exclAddr = addr ∧ e.exclData = word
  | .lost => True

variable [EnvImpl σ]

/-- The reservation after a load or store. -/
def after (g : Reservation) (e : MemExec) (ci : Instruction) (c : Core σ) (done : Bool) : Reservation :=
  match e with
  | .lwa =>
    if done then
      match c.physical .lwa ci with
      | some a => .held a (c.env.wordAt a)
      | none => .lost
    else if c.walks .lwa ci then .lost
    else g
  | .swa => if c.walks .swa ci then .lost else g
  | _ => g

theorem after_of_not_exclusive {g : Reservation} {e : MemExec} {ci : Instruction} {c : Core σ}
    {done : Bool} (h : e.isExclusive = false) : g.after e ci c done = g := by
  cases e <;> first | rfl | cases h

end Reservation

/-- What the reservation says of the core, with what its accesses depend on. -/
structure Reserved (g : Reservation) (c : Core σ) : Prop where
  excl : c.ireq.excl = false
  kind : c.dreq.kind = (c.env.hostEndian, false, false)
  length : c.env.exclData.length = 4
  holds : g.Holds c.env

theorem Reserved.congr {g : Reservation} {c c' : Core σ} (h : Reserved g c)
    (hm : c'.monitor = c.monitor) : Reserved g c' := by
  obtain ⟨h1, h2⟩ := Prod.mk.inj hm
  obtain ⟨h2, h3⟩ := Prod.mk.inj h2
  obtain ⟨h3, h4⟩ := Prod.mk.inj h3
  obtain ⟨h4, h5⟩ := Prod.mk.inj h4
  obtain ⟨h5, -⟩ := Prod.mk.inj h5
  refine ⟨h1.trans h.excl, ?_, h4 ▸ h.length, ?_⟩
  · rw [h2, h5]
    exact h.kind
  · have hh := h.holds
    cases g with
    | vacant => exact h3.trans hh
    | held a w => exact ⟨h3.trans hh.1, h4.trans hh.2⟩
    | lost => trivial

section Access

variable [EnvImpl σ] {c x : Core σ} {g : Reservation} {e : MemExec} {ci : Instruction} {n : Nat}

/-- An `l.lwa` or `l.swa` keeps the account of the monitor. -/
theorem Reserved.access (hp : EnvImpl.Honest σ) (h : Reserved g c) (hx : e.isExclusive = true)
    (hd : c.direct e ci = true) (hex : c.executeMem e ci = .ok (n, x)) :
    Reserved (g.after e ci c (decide (x.taken = c.taken))) x := by
  obtain ⟨hkind, req, v, t, hreq, hread, -, ht⟩ := Core.executeMem_tried hp h.kind hx hd hex
  have hwalk : c.walks e ci = c.missesTlb req := by
    unfold Core.walks
    rw [hreq]
  have hhost : t.hostEndian = c.env.hostEndian := ht.served.hostEndian
  -- what is known of the monitor after translation
  have hheld : (if c.walks e ci then Reservation.lost else g).Holds t := by
    rw [hwalk]
    cases hw : c.missesTlb req with
    | true => trivial
    | false =>
      rw [ht.hit hw]
      exact h.holds
  have hlen := ht.length h.length
  have hxc : x.ireq.excl = false := ht.excl.trans h.excl
  rcases ht.tried with ⟨htk, henv⟩ | ⟨a, ha, hacc⟩
  · have hafter : g.after e ci c (decide (x.taken = c.taken)) =
        if c.walks e ci then .lost else g := by
      rw [decide_eq_false htk]
      cases e <;> first | rfl | cases hx
    rw [hafter]
    exact ⟨hxc, by rw [hkind, h.kind, henv, hhost], henv ▸ hlen, henv ▸ hheld⟩
  · obtain ⟨p, q, hptr, hqr, hqa, hqs, -, henv, -⟩ := hacc.access
    have hphys : c.physical e ci = some a := by
      unfold Core.physical
      rw [hreq]
      exact ha
    have hserved : t.Served x.env := henv ▸ Env.exclusiveAccess_served p q
    have hk : x.dreq.kind = (x.env.hostEndian, false, false) := by
      rw [hkind, h.kind, hserved.hostEndian, hhost]
    have hqr := hqr.trans hread
    cases e with
    | lwa =>
      let word := readBytes c.env.world.mem p 4
      have hxe : x.env = { t with exclAddr := a, exclData := word ++ t.exclData.drop 4 } := by
        have hr : q.read = true := hqr
        rw [henv]
        unfold Env.exclusiveAccess
        rw [if_pos hr]
        dsimp only
        rw [hqa, hqs, ht.mem]
      have hdata : x.env.exclData = word := by
        rw [hxe]
        show word ++ t.exclData.drop 4 = _
        rw [List.drop_of_length_le (Nat.le_of_eq hlen), List.append_nil]
      have hafter : g.after .lwa ci c (decide (x.taken = c.taken)) = .held a (c.env.wordAt a) := by
        unfold Reservation.after
        rw [decide_eq_true hacc.taken, if_pos rfl, hphys]
      have hword : c.env.wordAt a = word := by
        unfold Env.wordAt
        rw [hptr]
      rw [hafter, hword]
      refine ⟨hxc, hk, ?_, ?_, hdata⟩
      · rw [hdata]
        exact Env.length_readBytes _ _ _
      · rw [hxe]
    | swa =>
      have hmon : x.env.monitor = t.monitor := henv ▸ t.exclusiveAccess_monitor p q (hqr.trans rfl)
      obtain ⟨hma, hmd⟩ := Prod.mk.inj hmon
      obtain ⟨hmd, -⟩ := Prod.mk.inj hmd
      refine ⟨hxc, hk, hmd ▸ hlen, ?_⟩
      show (if c.walks .swa ci then Reservation.lost else g).Holds x.env
      generalize (if c.walks .swa ci then Reservation.lost else g) = g' at hheld
      cases g' with
      | vacant => exact hma.trans hheld
      | held a w => exact ⟨hma.trans hheld.1, hmd.trans hheld.2⟩
      | lost => trivial
    | _ => cases hx

end Access

namespace Or1k

variable [EnvImpl σ] {s f : Or1k σ} {e : MemExec} {ci : Instruction} {c : Core σ}

theorem memInsn_eq_some (h : s.memInsn = some (e, ci, c)) :
    ∃ f, s.fetch = .ok (some ci, f) ∧ ci.exec = some (.mem e) ∧ c = f.toCore := by
  unfold memInsn at h
  split at h
  · rename_i ci' f hf
    split at h
    · rename_i e' he
      cases h
      exact ⟨f, hf, he, rfl⟩
    · cases h
  · cases h

end Or1k

namespace Machine

open Or1k

variable [EnvImpl σ] [HostLib] {m m' : Machine σ} {a : Action σ} {g : Reservation}

/-- The reservation after a step. -/
def reservedAfter (g : Reservation) (st : Move (Machine σ) (Action σ)) : Reservation :=
  match st.pre.memInsn st.act with
  | some (e, ci, c) => g.after e ci c (decide (st.post.cpu.taken = st.pre.cpu.taken))
  | none => g

/-- The simulator with its reservation. -/
abbrev reserving : System (Machine σ × Reservation) (Action σ) := system.watch reservedAfter

/-- An `l.lwa` or `l.swa` is served through the direct data pointer. -/
def directly (m : Machine σ) (a : Action σ) : Bool :=
  match m.memInsn a with
  | some (e, ci, c) => !e.isExclusive || c.direct e ci
  | none => true

omit [HostLib] in
theorem memInsn_eq_some {e : MemExec} {ci : Instruction} {c : Core σ}
    (h : m.memInsn a = some (e, ci, c)) :
    a = .run ∧ m.executes = true ∧ m.cpu.beginCycle.memInsn = some (e, ci, c) := by
  cases a with
  | run =>
    unfold memInsn at h
    dsimp only at h
    split at h
    · exact ⟨rfl, ‹_›, h⟩
    · cases h
  | _ => cases h

theorem step_reserved (hp : EnvImpl.Honest σ) {q q' : Machine σ × Reservation}
    (hn : reserving.next q a = some q') (hd : directly q.1 a = true)
    (h : Reserved q.2 q.1.cpu.toCore) : Reserved q'.2 q'.1.cpu.toCore := by
  obtain ⟨m, g⟩ := q
  obtain ⟨m', hm, rfl⟩ := System.watch_next hn
  dsimp only at hm hd h ⊢
  cases hmi : m.memInsn a with
  | none =>
    have hg : reservedAfter g ⟨m, a, m'⟩ = g := by
      unfold reservedAfter
      dsimp only
      rw [hmi]
    rw [hg]
    exact h.congr (act_monitor h.excl hm fun e ci c hc => nomatch hmi.symm.trans hc)
  | some w =>
    obtain ⟨e, ci, c⟩ := w
    have hg : reservedAfter g ⟨m, a, m'⟩ = g.after e ci c (decide (m'.cpu.taken = m.cpu.taken)) := by
      unfold reservedAfter
      dsimp only
      rw [hmi]
    rw [hg]
    cases hx : e.isExclusive with
    | false =>
      rw [Reservation.after_of_not_exclusive hx]
      refine h.congr (act_monitor h.excl hm fun e' ci' c' hc => ?_)
      cases hmi.symm.trans hc
      exact hx
    | true =>
      obtain ⟨rfl, hrun, hi⟩ := memInsn_eq_some hmi
      obtain ⟨f, hf, he, rfl⟩ := Or1k.memInsn_eq_some hi
      have hdir : f.toCore.direct e ci = true := by
        unfold directly at hd
        rw [hmi] at hd
        simpa [hx] using hd
      have hb : m.cpu.beginCycle.toCore.monitor = m.cpu.toCore.monitor := rfl
      have hfm : f.toCore.monitor = m.cpu.toCore.monitor :=
        (fetch_monitor (s := m.cpu.beginCycle) h.excl hf).trans hb
      have htk : f.taken = m.cpu.taken := (FetchedInsn.of_fetch hf).sameCounters.taken
      rcases iteration_cases hrun hm with ⟨limit, x, hfe, rfl⟩ | ⟨x, hfe, rfl⟩
      · have hex : f.execute ci = .ok x := (fetchExecute_of_fetch hf).symm.trans hfe
        obtain ⟨n, hxc, -⟩ := execute_mem he hex
        have hr := (h.congr hfm).access hp hx hdir hxc
        have htx : (retired limit x).cpu.taken = x.taken :=
          retired_frame (·.taken) limit x fun _ _ _ _ => rfl
        have hmon : (retired limit x).cpu.toCore.monitor = x.toCore.monitor :=
          retired_frame (·.toCore.monitor) limit x fun _ _ _ _ => rfl
        rw [htx, ← htk]
        exact hr.congr hmon
      · rw [fetchExecute_of_fetch hf] at hfe
        exact nomatch ((execute_throw_monitor hfe).1 e he).symm.trans hx

theorem run_reserved (hp : EnvImpl.Honest σ) {env : Env σ} (hf : env.Fresh) {size : Nat}
    {q : Machine σ × Reservation}
    (h : reserving.Steps (fun q a => directly q.1 a = true) (init env size, .vacant) q) :
    Reserved q.2 q.1.cpu.toCore := by
  have h0 : Reserved .vacant (init env size).cpu.toCore := ⟨rfl, rfl, hf.data, hf.addr⟩
  exact h.invariant (P := fun q => Reserved q.2 q.1.cpu.toCore)
    (fun _ _ _ hq ha hn => step_reserved hp hn ha hq) h0

/-- An `l.swa` that reports success has written its register to the word it reserved, which is
still as `l.lwa` found it, unless a table walk interfered; one that fails has written nothing. -/
theorem reservation_sound (hp : EnvImpl.Honest σ) {env : Env σ} (hf : env.Fresh) {size : Nat}
    (h : reserving.Steps (fun q a => directly q.1 a = true) (init env size, .vacant) (m, g))
    {f x : Or1k σ} {ci : Instruction} (hfe : m.cpu.beginCycle.fetch = .ok (some ci, f))
    (he : ci.exec = some (.mem .swa)) (hd : f.toCore.direct .swa ci = true)
    (hx : f.execute ci = .ok x) (ht : x.taken = f.taken) :
    ∃ a p v, f.toCore.physical .swa ci = some a ∧ f.env.getDataPtr a = some p ∧
      f.toCore.deref ci ci.src2 = .ok v ∧
        (test x.status SR.F = true →
          x.env.world.mem = writeBytes f.env.world.mem p (f.env.stored v) ∧
            (g ≠ .lost → f.toCore.walks .swa ci = false → g = .held a (f.env.wordAt a))) ∧
        (test x.status SR.F = false → x.env.world.mem = f.env.world.mem) := by
  have hres := run_reserved hp hf h
  have hb : m.cpu.beginCycle.toCore.monitor = m.cpu.toCore.monitor := rfl
  have hfr : Reserved g f.toCore :=
    hres.congr ((fetch_monitor (s := m.cpu.beginCycle) hres.excl hfe).trans hb)
  obtain ⟨n, hxc, -⟩ := execute_mem he hx
  obtain ⟨-, req, v, t, hreq, hread, hv, htry⟩ := Core.executeMem_tried hp hfr.kind rfl hd hxc
  rcases htry.tried with ⟨htk, -⟩ | ⟨a, ha, hacc⟩
  · exact (htk ht).elim
  · obtain ⟨p, q, hptr, hqr, hqa, -, hqd, henv, hflag⟩ := hacc.access
    have hqr : q.read = false := hqr.trans hread
    have hphys : f.toCore.physical .swa ci = some a := by
      unfold Core.physical
      rw [hreq]
      exact ha
    have hwalk : f.toCore.walks .swa ci = f.toCore.missesTlb req := by
      unfold Core.walks
      rw [hreq]
    have hdata : q.data.take 4 = f.env.stored v := by
      rw [hqd, List.take_of_length_le]
      unfold Env.stored
      split
      · exact Nat.le_of_eq (length_bytesOf _ _)
      · rw [List.length_reverse]
        exact Nat.le_of_eq (length_bytesOf _ _)
    have hmem : t.world.mem = f.env.world.mem := htry.mem
    have hword : f.env.wordAt a = readBytes f.env.world.mem p 4 := by
      unfold Env.wordAt
      rw [hptr]
    refine ⟨a, p, v, hphys, hptr, hv, ?_⟩
    unfold Env.exclusiveAccess at henv hflag
    rw [if_neg (by rw [hqr]; exact Bool.false_ne_true), hqa] at henv hflag
    by_cases hma : a ≠ t.exclAddr
    · rw [if_pos hma] at henv hflag
      exact ⟨fun hs => (nomatch hflag.1 hs), fun _ => by rw [henv, hmem]⟩
    · by_cases hmd : readBytes t.world.mem p 4 ≠ t.exclData
      · rw [if_neg hma, if_pos hmd] at henv hflag
        exact ⟨fun hs => (nomatch hflag.1 hs), fun _ => by rw [henv, hmem]⟩
      · rw [if_neg hma, if_neg hmd] at henv hflag
        have hsucc := hflag.2 rfl
        refine ⟨fun _ => ⟨?_, fun hg hw => ?_⟩, fun hs => nomatch hsucc.symm.trans hs⟩
        · rw [henv, ← hdata, ← hmem]
        · have hte := htry.hit (hwalk ▸ hw)
          have hholds := hfr.holds
          have hma := not_not.1 hma
          have hmd := not_not.1 hmd
          rw [hte] at hma hmd
          cases g with
          | vacant =>
            -- no word lies at the address the constructor puts in the monitor
            have hal := hacc.aligned
            rw [hma, show f.env.exclAddr = _ from hholds] at hal
            exact absurd hal (by decide)
          | held b w =>
            obtain ⟨hb, hw⟩ := hholds
            rw [hword, hmd, hma, hb, hw]
          | lost => exact (hg rfl).elim

/-- What a load or store at the program counter is, and the physical address it accesses. -/
def accesses (m : Machine σ) : Option (MemExec × U32) :=
  match m.memInsn .run with
  | some (e, ci, c) => (c.physical e ci).map fun a => (e, a)
  | none => none

end Machine

namespace Machine

attribute [local instance] HostLib.plain

/-- The word is stored again between `l.lwa` and `l.swa`. -/
theorem reservation_fails : ∃ m₀ m₁ m₂ m₃ : Machine Memory,
    system.Run (Memory.boot [(0x100, 0x6c600200#32), (0x104, 0xd4001a00#32),
      (0x108, 0xcc002200#32), (0x200, 0x12345678#32)]) m₀ ∧
    m₀.next = some m₁ ∧ m₁.next = some m₂ ∧ m₂.next = some m₃ ∧
    m₀.accesses = some (.lwa, 0x200#32) ∧ m₁.accesses = some (.sw, 0x200#32) ∧
    m₂.accesses = some (.swa, 0x200#32) ∧ m₃.cpu.taken = m₂.cpu.taken ∧
    test m₃.cpu.status SR.F = true := by
  obtain ⟨m₀, hr, hm⟩ := System.exists_run system (Memory.boot [(0x100, 0x6c600200#32),
      (0x104, 0xd4001a00#32), (0x108, 0xcc002200#32), (0x200, 0x12345678#32)])
    [.call 10#32, .run]
    (fun m₀ : Machine Memory => m₀.next.any fun m₁ => m₁.next.any fun m₂ => m₂.next.any fun m₃ =>
      decide (m₀.accesses = some (.lwa, 0x200#32) ∧ m₁.accesses = some (.sw, 0x200#32) ∧
        m₂.accesses = some (.swa, 0x200#32) ∧ m₃.cpu.taken = m₂.cpu.taken ∧
        test m₃.cpu.status SR.F = true))
    (by decide +kernel)
  obtain ⟨m₁, h₁, hm⟩ := (Option.any_eq_true _ _).1 hm
  obtain ⟨m₂, h₂, hm⟩ := (Option.any_eq_true _ _).1 hm
  obtain ⟨m₃, h₃, hm⟩ := (Option.any_eq_true _ _).1 hm
  exact ⟨m₀, m₁, m₂, m₃, hr, h₁, h₂, h₃, of_decide_eq_true hm⟩

/-- `l.lwa` and `l.swa` with nothing in between. -/
theorem reservation_sound_swa : ∃ (m : Machine Memory) (f x : Or1k Memory) (ci : Instruction),
    m.cpu.beginCycle.fetch = .ok (some ci, f) ∧ f.execute ci = .ok x ∧ ∃ a p v,
      f.toCore.physical .swa ci = some a ∧ f.env.getDataPtr a = some p ∧
        f.toCore.deref ci ci.src2 = .ok v ∧
          x.env.world.mem = writeBytes f.env.world.mem p (f.env.stored v) := by
  obtain ⟨⟨m, g⟩, hr, hq⟩ := System.exists_steps reserving (fun q a => directly q.1 a)
    (Memory.boot [(0x100, 0x6c600200#32), (0x104, 0xcc002200#32)], .vacant) [.call 10#32, .run, .run]
    (fun q => q.1.cpu.beginCycle.fetch.value?.any fun r => r.1.any fun ci =>
      decide (ci.exec = some (.mem .swa) ∧ r.2.toCore.direct .swa ci = true) &&
        (r.2.execute ci).value?.any fun x =>
          decide (x.taken = r.2.taken ∧ test x.status SR.F = true))
    (by decide +kernel)
  obtain ⟨⟨i, f⟩, hf, hq⟩ := (Option.any_eq_true _ _).1 hq
  obtain ⟨ci, hi, hq⟩ := (Option.any_eq_true _ _).1 hq
  rw [Bool.and_eq_true, decide_eq_true_eq] at hq
  obtain ⟨⟨he, hd⟩, hq⟩ := hq
  obtain ⟨x, hx, hq⟩ := (Option.any_eq_true _ _).1 hq
  obtain ⟨ht, hflag⟩ := of_decide_eq_true hq
  have hi : i = some ci := hi
  subst hi
  have hf := Outcome.value?_eq_some.1 hf
  have hx := Outcome.value?_eq_some.1 hx
  obtain ⟨a, p, v, ha, hp, hv, hs, -⟩ :=
    reservation_sound Memory.honest ⟨rfl, rfl⟩ hr hf he hd hx ht
  exact ⟨m, f, x, ci, hf, hx, a, p, v, ha, hp, hv, (hs hflag).1⟩

end Machine

end Or1kiss
