import Or1kiss.Beside
import Or1kiss.Shortcut
import Or1kiss.Unseen

/-!
# Confidentiality

In user mode, behind both MMUs, a program cannot tell what memory holds outside of the frames that
the TLBs and the page tables let user mode use, of these page tables, and of the page of the last
fetch (`user_blind`): whatever is put there, the CPU goes through the same states, cycle by cycle.
-/

namespace Or1kiss

open Host Bits Outcome Runs

variable {v : Window} {hid : Nat → U8} {o : Env Memory} {ho : o.dataPtr = some 0 ∧ o.dataStart = 0#32}

namespace Or1k

open Or1kiss.Core

/-! ## The simulator on the same port with other contents -/

/-- The same simulator over another memory. -/
def withMem (mem : Nat → U8) (s : Or1k Memory) : Or1k Memory := s.withCore (s.toCore.withMem mem)

/-- Ports that differ in memory only, and there in nothing that is seen. -/
def PeerRest (v : Window) (hid : Nat → U8) (p q : Rest Memory) : Prop :=
  ∃ mem, q = { p with env := Memory.withMem p.env mem } ∧
    (∀ b, v.Sees b → mem b = p.env.world.mem b) ∧ ∀ b, ¬InFrames v.frames b → mem b = hid b

/-- Simulators whose cores are peers, and that are the same otherwise. -/
abbrev Peers (v : Window) (hid : Nat → U8) (s t : Or1k Memory) : Prop := Or1k.Beside (PeerRest v hid) s t

variable {s t f x : Or1k Memory} {ci : Instruction}

theorem bystander_peers : Bystander (PeerRest v hid) where
  host := by
    rintro p q ⟨mem, rfl, hs, hk⟩
    rfl
  direct := by
    rintro p q ⟨mem, rfl, hs, hk⟩ a
    rfl
  sleep := by
    rintro p q ⟨mem, rfl, hs, hk⟩ n
    exact ⟨rfl, mem, rfl, hs, hk⟩
  invalidate := by
    rintro p q ⟨mem, rfl, hs, hk⟩ a n
    exact ⟨mem, rfl, hs, hk⟩
  reset := by
    rintro p q ⟨mem, rfl, hs, hk⟩
    exact ⟨mem, rfl, hs, hk⟩

theorem Beside.peers (h : Peers v hid s t) : Core.Peers v hid s.toCore t.toCore := by
  obtain ⟨_, ⟨mem, rfl, hs, hk⟩, rfl⟩ := h
  exact ⟨mem, rfl, hs, hk⟩

theorem withCore_peers (h : Peers v hid s t) {c d : Core Memory} (hc : Core.Peers v hid c d) :
    Peers v hid (s.withCore c) (t.withCore d) := by
  obtain ⟨_, ⟨mem, rfl, -, -⟩, rfl⟩ := h
  obtain ⟨mem', rfl, hs, hk⟩ := hc
  exact ⟨_, ⟨mem', rfl, hs, hk⟩, rfl⟩

theorem mem_peers (h : Peers v hid s t) (hc : Held (Mmu.veil v o ho) s.toCore) (hg : Screened s.toCore)
    (e : MemExec) : Both (Peers v hid) (Peers v hid) (s.executeMem e ci) (t.executeMem e ci) := by
  refine Both.bind (R := fun a b => b.1 = a.1 ∧ Peers v hid a.2 b.2) ?_ fun x y hxy => ?_
  · exact (executeMem_peers h.peers hc hg).lift (fun _ _ hc => withCore_peers h hc)
      fun _ _ hc => ⟨hc.1, withCore_peers h hc.2⟩
  · obtain ⟨stall, a⟩ := x
    obtain ⟨stall', b⟩ := y
    obtain ⟨hs, r, hr, hb⟩ := hxy
    dsimp only at hs hb
    subst hs hb
    exact .ok ⟨r, hr, rfl⟩

theorem compile_peers (h : Peers v hid s t) :
    Both (Peers v hid) (fun a b => b.1 = a.1 ∧ Peers v hid a.2 b.2) s.compile t.compile := by
  have hx := exception_beside bystander_peers h .illegalInsn s.ireq.addr
  have he : t.insn = s.insn ∧ t.ireq = s.ireq := by
    obtain ⟨_, ⟨mem, rfl, -, -⟩, rfl⟩ := h
    exact ⟨rfl, rfl⟩
  unfold compile
  rw [he.1, he.2]
  dsimp only
  split
  · exact hx.bind fun a b hab => .ok ⟨rfl, hab⟩
  · obtain ⟨_, ⟨mem, rfl, hs, hk⟩, rfl⟩ := h
    split
    · exact .throw ⟨_, ⟨mem, rfl, hs, hk⟩, rfl⟩
    · exact .ok ⟨rfl, _, ⟨mem, rfl, hs, hk⟩, rfl⟩

theorem fetch_peers (h : Peers v hid s t) (hv : Veiled v o ho s.toCore) :
    Both (Peers v hid) (fun a b => b.1 = a.1 ∧ Peers v hid a.2 b.2) s.fetch t.fetch := by
  have ha := fetchAddress_peers h.peers hv
  have hseen := fun x hx i => fetchAddress_seen (x := x) (i := i) hv hx
  have hkind := fun r hr => fetchAddress_fetchKind (r := r) (c := s.toCore) hr
  have hheld := hv.held.fetchAddress hv.fetching.read
  unfold fetch
  generalize s.toCore.fetchAddress = y at ha hseen hkind hheld
  generalize t.toCore.fetchAddress = z at ha
  cases ha with
  | fault e => exact .fault e
  | throw hc => exact .throw (withCore_peers h hc)
  | @ok r r' hrr =>
    obtain ⟨found, c⟩ := r
    obtain ⟨found', d⟩ := r'
    obtain ⟨hf, hcd⟩ := hrr
    dsimp only at hf hcd
    subst hf
    have hst := withCore_peers h hcd
    have hheld := hheld.of_ok rfl
    show Both _ _ (if !found' then _ else _) (if !found' then _ else _)
    cases found' with
    | false => exact .ok ⟨rfl, hst⟩
    | true =>
      have hseen := hseen c rfl
      have hfc : Fetching c := hv.fetching.of_kind (hkind _ rfl) (by
        rw [hheld.1.hostEndian, hv.held.hostEndian])
      have hpc : c.env.insnPtr = some 0 ∧ c.env.insnStart = 0#32 := by
        rw [hheld.1.insnPtr.1, hheld.1.insnPtr.2]
        exact hv.pointer
      have hsame : t.decodeCache = s.decodeCache ∧ d.ireq = c.ireq := by
        obtain ⟨_, ⟨mem, rfl, -, -⟩, rfl⟩ := h
        obtain ⟨mem', rfl, -, -⟩ := hcd
        exact ⟨rfl, rfl⟩
      rw [if_neg (show ¬(!true) = true from nofun), if_neg (show ¬(!true) = true from nofun)]
      dsimp only
      rw [show (t.withCore d).decodeCache = s.decodeCache from hsame.1,
        show (t.withCore d).ireq = c.ireq from hsame.2,
        show (s.withCore c).decodeCache = s.decodeCache from rfl,
        show (s.withCore c).ireq = c.ireq from rfl]
      split
      · refine .ok ⟨rfl, ?_⟩
        obtain ⟨_, ⟨mem, rfl, -, -⟩, rfl⟩ := h
        obtain ⟨mem', rfl, hs, hk⟩ := hcd
        exact ⟨_, ⟨mem', rfl, hs, hk⟩, rfl⟩
      · have hw := fetchWord_peers hcd hfc hpc hseen
        show Both _ _ ((s.withCore c).liftCore c.fetchWord >>= _) ((t.withCore d).liftCore d.fetchWord >>= _)
        generalize c.fetchWord = y at hw
        generalize d.fetchWord = z at hw
        cases hw with
        | fault e => exact .fault e
        | throw hc => exact .throw (withCore_peers h hc)
        | @ok r r' hrr =>
          obtain ⟨read, a⟩ := r
          obtain ⟨read', b⟩ := r'
          obtain ⟨hf, hab⟩ := hrr
          dsimp only at hf hab
          subst hf
          show Both _ _ (if !read' then _ else _) (if !read' then _ else _)
          cases read' with
          | false => exact .ok ⟨rfl, withCore_peers h hab⟩
          | true => exact compile_peers (withCore_peers h hab)

variable [HostLib]

theorem fetchExecute_peers (h : Peers v hid s t) (hv : Veiled v o ho s.toCore) :
    Both (Peers v hid) (Peers v hid) s.fetchExecute t.fetchExecute := by
  have hf := fetch_peers h hv
  have hheld := fetch_held hv.held hv.fetching.read
  have hinsn : ∀ ci f, s.fetch = .ok (some ci, f) → FetchedInsn s f := fun _ _ => .of_fetch
  unfold fetchExecute
  generalize s.fetch = y at hf hheld hinsn
  generalize t.fetch = z at hf
  cases hf with
  | fault e => exact .fault e
  | throw hc => exact .throw hc
  | @ok r r' hrr =>
    obtain ⟨i, a⟩ := r
    obtain ⟨j, b⟩ := r'
    obtain ⟨hij, hab⟩ := hrr
    dsimp only at hij hab
    subst hij
    cases j with
    | none => exact .ok hab
    | some ci =>
      have hh := hheld.of_ok rfl
      have hg := (hinsn ci a rfl).screened hv.screened
      exact execute_beside bystander_peers hab fun e _ => mem_peers hab hh hg e

/-! ## The veil stays -/

/-- What user mode executes leaves such addresses, or an exception. -/
theorem Executed.stepping (hx : Executed ci f x) (hu : f.isSupervisor = false) (h : Stepping f.toCore) :
    x.taken ≠ f.taken ∨ Stepping x.toCore := by
  cases hx with
  | plain c limit e he hp hr =>
    have ho := hr.outcomes
    rcases ho.control with hc | ⟨ht, -⟩
    · exact .inr (h.of_eq ho.nextPc hc.jumpTarget)
    · exact .inl ht
  | untaken e he hj ht => exact .inr h
  | taken e target r c he hj ht hs hr =>
    obtain ⟨hk, hjump | ⟨ht, -⟩⟩ := scheduleJump_outcomes hs
    · refine .inr ⟨?_, ?_⟩
      · show isAligned c.nextPc 4 = true
        rw [hk.nextPc]
        exact h.nextPc
      · show isAligned c.jumpTarget 4 = true
        rw [hjump.jumpTarget]
        exact hjump.aligned
    · exact .inl ht
  | mtspr a b he ha hb =>
    rw [sprWritten_user hu]
    exact .inr (h.of_eq rfl rfl)
  | nop x he hn =>
    right
    obtain ⟨rfl, -⟩ | ⟨rfl, -⟩ | ⟨c, rfl, hb, -⟩ := nop_ok hn
    · exact h.of_eq rfl rfl
    · exact h.of_eq rfl rfl
    · exact h.of_eq hb.kept.nextPc hb.calm.jumpTarget
  | rfe x he hx =>
    obtain ⟨c, hc, rfl⟩ := rfe_ok hx
    have hr : (f.withCore c).rfeRestored.nextPc = c.nextPc ∧
        (f.withCore c).rfeRestored.jumpTarget = c.jumpTarget ∧
          (f.withCore c).rfeRestored.taken = c.taken := by
      unfold rfeRestored
      split <;> exact ⟨rfl, rfl, rfl⟩
    obtain ⟨ha, rfl⟩ | ⟨-, -, rfl⟩ := scheduleJump_cases hc
    · refine .inr ⟨?_, ?_⟩
      · rw [hr.1]
        exact h.nextPc
      · rw [hr.2.1]
        exact ha
    · left
      rw [hr.2.2, entered_taken]
      exact List.cons_ne_self _ _

omit [HostLib] in
theorem FetchedInsn.stepping (hf : FetchedInsn s f) (h : Stepping s.toCore) : Stepping f.toCore :=
  h.of_eq (congrArg (·.nextPc) hf.eq) (congrArg (·.jumpTarget) hf.eq)

omit [HostLib] in
theorem redirect_stepping (h : Stepping x.toCore) : Stepping x.retire.redirect.toCore := by
  have hn : isAligned (x.nextPc + 4#32) 4 = true := by
    rw [Machine.isAligned_add_four]
    exact h.nextPc
  unfold Or1k.redirect
  split
  · exact ⟨h.jumpTarget, h.jumpTarget⟩
  · exact ⟨hn, h.jumpTarget⟩

theorem fetchExecute_stepping (hx : s.fetchExecute = .ok x) (hg : Screened s.toCore)
    (h : Stepping s.toCore) : x.taken ≠ s.taken ∨ Stepping x.toCore := by
  obtain ⟨ci, f, -, hfi, he⟩ | ⟨-, hr⟩ := fetchExecute_ok hx
  · have ht : f.taken = s.taken := congrArg (·.taken) hfi.eq
    rw [← ht]
    exact he.stepping (hfi.screened hg).user (hfi.stepping h)
  · obtain ⟨b, c, hb, ⟨t, addr, -, -, rfl⟩, rfl⟩ := hr
    left
    have hbt : b.taken = s.taken := congrArg (·.taken) hb.eq
    show (b.entered t addr).taken ≠ s.taken
    rw [entered_taken, hbt]
    exact List.cons_ne_self _ _

theorem fetchExecute_throw_stepping (hx : s.fetchExecute = .throw x) (h : Stepping s.toCore) :
    Stepping x.toCore := by
  rcases fetchExecute_throw hx with hf | ⟨ci, f, e, c, -, hfi, -, hm, rfl⟩
  · exact (fetch_throw hf).stepping h
  · have he := executeMem_throw_effects hm
    exact (hfi.stepping h).of_eq he.kept.nextPc (he.calm rfl).jumpTarget

/-! ### What is shown -/

omit [HostLib] in
theorem veiled_beginCycle (h : Veiled v o ho s.toCore) : Veiled v o ho s.beginCycle.toCore :=
  ⟨h.overseen.of_itlb rfl, ⟨h.screened.dmmu, h.screened.user, h.screened.imem, h.screened.debug⟩,
    h.fetching.of_kind rfl rfl, h.held.of_eq rfl rfl, h.active, h.stepping.of_eq rfl rfl, h.pointer⟩

theorem executed_overseen (hx : Executed ci f x) (hu : f.isSupervisor = false)
    (h : Overseen v o f.toCore) : Overseen v o x.toCore := by
  by_cases hm : ci.exec = some .mtspr
  · obtain ⟨a, b, -, -, rfl⟩ := hx.of_mtspr hm
    rw [sprWritten_user hu]
    exact h.of_itlb rfl
  · exact h.of_itlb (executed_itlb hx hm)

theorem fetchExecute_overseen (hv : Veiled v o ho s.toCore) :
    Ends (fun x => Overseen v o x.toCore) (fun x => Overseen v o x.toCore) s.fetchExecute := by
  have hf : ∀ {f : Or1k Memory}, Addressed s.toCore f.toCore → Overseen v o f.toCore := fun ha =>
    hv.overseen.addressed hv.held hv.fetching.imem hv.screened.user ha
  refine ends_of (fun x hx => ?_) fun x hx => ?_
  · obtain ⟨ci, f, hfe, hfi, he⟩ | ⟨hfe, -⟩ := fetchExecute_ok hx
    · exact executed_overseen he (hfi.screened hv.screened).user (hf (fetch_addressed hfe))
    · exact hf (fetch_addressed hfe)
  · rcases fetchExecute_throw hx with hft | ⟨ci, f, e, c, hfe, hfi, -, hm, rfl⟩
    · exact hf (fetch_throw_addressed hft)
    · exact (hf (fetch_addressed hfe)).of_itlb (executeMem_throw_effects hm).kept.itlb

end Or1k

namespace Machine

open Or1k Or1kiss.Core

/-- The same machine over another memory. -/
def withMem (mem : Nat → U8) (m : Machine Memory) : Machine Memory := { m with cpu := m.cpu.withMem mem }

/-- The machine that differs in memory only, and there in nothing that is seen, and that has kept
what it had outside of the frames. -/
def Unseen (v : Window) (hid : Nat → U8) (m t : Machine Memory) : Prop :=
  ∃ mem, t = m.withMem mem ∧ (∀ b, v.Sees b → mem b = m.cpu.env.world.mem b) ∧
    ∀ b, ¬InFrames v.frames b → mem b = hid b

/-- `advance` goes on, or something happens that leaves registers and memory alone, as long as no
exception has been entered. -/
def undistracted (taken : List ExType) (m : Machine Memory) (a : Action Memory) : Bool :=
  a.keepsOff && decide (m.cpu.taken = taken)

variable [HostLib] {m t m₀ m' : Machine Memory} {a : Action Memory}

omit [HostLib] in
theorem unseen_iff : Unseen v hid m t ↔ Beside (PeerRest v hid) m t := by
  constructor
  · rintro ⟨mem, rfl, hs, hk⟩
    exact ⟨rfl, _, ⟨mem, rfl, hs, hk⟩, rfl⟩
  · rintro ⟨hp, _, ⟨mem, rfl, hs, hk⟩, he⟩
    obtain ⟨q, u⟩ := t
    dsimp only at hp he
    subst hp he
    exact ⟨mem, rfl, hs, hk⟩

theorem act_overseen (hn : m.act a = some m') (hk : a.keepsOff = true) (hv : Veiled v o ho m.cpu.toCore) :
    Overseen v o m'.cpu.toCore := by
  cases act_transition hn with
  | begin r s n => exact hv.overseen.of_itlb (began_steady (n := n)).itlb
  | mini | finish | leave => exact hv.overseen.of_itlb rfl
  | iterate limit s x hl hx =>
    rw [retired_cpu]
    exact ((fetchExecute_overseen (veiled_beginCycle hv)).of_ok hx).of_itlb
      (redirect_frame (·.itlb) x fun _ _ _ _ => rfl)
  | throw limit s x hl hx => exact (fetchExecute_overseen (veiled_beginCycle hv)).of_throw hx
  | drain s =>
    rw [drained_cpu]
    exact hv.overseen.of_itlb (timerUpdated_steady.trans externalChecked_steady).itlb
  | interrupt p s id set =>
    refine hv.overseen.of_itlb ?_
    show (s.toCore.interrupt id set).itlb = s.toCore.itlb
    obtain ⟨v, he⟩ := s.toCore.interrupt_eq id set
    rw [he]
    rfl
  | outside r s s' a ha h =>
    refine hv.overseen.of_itlb (outside_itlb h ?_)
    rintro reg val rfl
    cases hk

theorem act_stepping (hn : m.act a = some m') (hk : a.keepsOff = true) (hg : Screened m.cpu.toCore)
    (ht : m'.cpu.taken = m.cpu.taken) (h : Stepping m.cpu.toCore) : Stepping m'.cpu.toCore := by
  have hwait : ∀ {s x : Or1k Memory}, Ignored s x ∨ (∃ e, Accepted e s x) → x.taken = s.taken →
      Stepping s.toCore → Stepping x.toCore := by
    rintro s x (hi | ⟨e, ha⟩) ht h
    · exact h.of_eq hi.nextPc hi.jumpTarget
    · exact (List.cons_ne_self _ _ (ha.taken.symm.trans ht)).elim
  cases act_transition hn with
  | begin r s n => exact hwait began_cases ht h
  | mini | finish | leave => exact h.of_eq rfl rfl
  | iterate limit s x hl hx =>
    rw [retired_cpu] at ht ⊢
    have htx : x.retire.redirect.taken = x.taken := redirect_frame (·.taken) x fun _ _ _ _ => rfl
    rcases fetchExecute_stepping hx ⟨hg.dmmu, hg.user, hg.imem, hg.debug⟩ (h.of_eq rfl rfl) with hne | hx
    · exact (hne (htx.symm.trans ht)).elim
    · exact redirect_stepping hx
  | throw limit s x hl hx => exact fetchExecute_throw_stepping hx (h.of_eq rfl rfl)
  | drain s =>
    rw [drained_cpu] at ht ⊢
    exact hwait endMini_cases ht h
  | interrupt p s id set =>
    show Stepping (s.toCore.interrupt id set)
    obtain ⟨v, he⟩ := s.toCore.interrupt_eq id set
    rw [he]
    exact h.of_eq rfl rfl
  | outside r s s' a ha h' =>
    cases outside_ok h' with
    | writeSpr | writeGpr | world => cases hk
    | setUp => exact h.of_eq rfl rfl

/-- One step behind both MMUs. -/
theorem act_veiled (hn : m.act a = some m') (hk : a.keepsOff = true) (hv : Veiled v o ho m.cpu.toCore)
    (ht : m'.cpu.taken = m.cpu.taken) : Veiled v o ho m'.cpu.toCore := by
  obtain ⟨hh, hb⟩ := act_enclosed hk hn hv.held hv.screened hv.fetching.read
  refine ⟨act_overseen hn hk hv, (hb ht).screened hv.screened (act_attached hn).kind,
    hv.fetching.of_kind (act_fetchKind hn) ?_, hh, ?_, act_stepping hn hk hv.screened ht hv.stepping,
    hv.pointer⟩
  · rw [hh.hostEndian, hv.held.hostEndian]
  · rw [← hv.active]
    exact test_congr (k := ~~~openFlags) (by decide) (hb ht).status

/-- The two take every step together. -/
theorem act_unseen (hk : a.keepsOff = true) (hv : Veiled v o ho m.cpu.toCore) (h : Unseen v hid m t) :
    Option.Rel (Unseen v hid) (m.act a) (t.act a) := by
  have hb := unseen_iff.1 h
  have hbegin : ∀ {s u : Or1k Memory}, Peers v hid s u → Peers v hid s.beginCycle u.beginCycle := by
    rintro s u ⟨_, ⟨mem, rfl, hs, hk⟩, rfl⟩
    exact ⟨_, ⟨mem, rfl, hs, hk⟩, rfl⟩
  have hx := act_beside (a := a) bystander_peers hb
    (fun _ _ => fetchExecute_peers (hbegin hb.2) (veiled_beginCycle hv)) fun w hw => by
      subst hw
      cases hk
  generalize m.act a = x at hx ⊢
  generalize t.act a = y at hx ⊢
  cases hx with
  | none => exact .none
  | some hx => exact .some (unseen_iff.2 hx)

/-- Fetching is no debug access. -/
theorem run_quiet {size n : Nat} {image : Nat → U8}
    (h : system.Run (init (Memory.env size image) n) m) : m.cpu.ireq.debug = false := by
  have hc : Covered none m.cpu.toCore :=
    h.invariant (P := fun m => Covered none m.cpu.toCore)
      (fun m a m' hc _ hn => (step_covered (q := (m, none)) (System.next_watch coverAfter hn) hc).none)
      ⟨rfl, rfl, nofun⟩
  exact hc.debug

/-- In every run, from a state in user mode with both MMUs on, with an aligned next PC and jump
target, and as long as no exception is entered: over any other memory that is the same in the frames
that the TLBs and the page tables let user mode use, in these page tables, and in the page of the
last fetch, which the shortcut goes on reading, the same actions take the simulator through the same
states, and what is outside stays as it is. -/
theorem user_blind {size n : Nat} {image mem : Nat → U8}
    (h₀ : system.Run (init (Memory.env size image) n) m₀) (hu : m₀.cpu.isSupervisor = false)
    (hd : m₀.cpu.isDmmuActive = true) (hi : m₀.cpu.isImmuActive = true)
    (hs : Stepping m₀.cpu.toCore) (hdt : m₀.cpu.dmmu.Shows v false m₀.cpu.env)
    (hit : m₀.cpu.immu.Shows v true m₀.cpu.env) (hp : PageSeen v m₀.cpu.toCore)
    (hm : ∀ b, v.Sees b → mem b = m₀.cpu.env.world.mem b) {as : List (Action Memory)}
    (hc : system.admits (undistracted m₀.cpu.taken) as m₀ = true) :
    Option.Rel (Unseen v mem) (system.run as m₀) (system.run as (m₀.withMem mem)) := by
  obtain ⟨hdir, hki, hkd⟩ := run_attached h₀
  have hptr : m₀.cpu.env.insnPtr = some 0 ∧ m₀.cpu.env.insnStart = 0#32 := by
    obtain ⟨w, a, d, he⟩ := (run_served h₀).env
    exact ⟨congrArg Env.insnPtr he, congrArg Env.insnStart he⟩
  have hv₀ : Veiled v m₀.cpu.env hdir m₀.cpu.toCore :=
    ⟨⟨hit, hp, run_quiet h₀⟩, ⟨hd, hu, hki, hkd⟩, run_fetching h₀, ⟨hdt, .refl _, .refl _ _⟩, hi, hs, hptr⟩
  let R : Machine Memory → Machine Memory → Prop := fun m t =>
    Unseen v mem m t ∧ (m.cpu.taken = m₀.cpu.taken → Veiled v m₀.cpu.env hdir m.cpu.toCore)
  have hstep : ∀ m t a, R m t → undistracted m₀.cpu.taken m a = true →
      Option.Rel R (m.act a) (t.act a) := by
    rintro m t a ⟨hmt, hv⟩ ha
    obtain ⟨hk, ht⟩ := Bool.and_eq_true_iff.1 ha
    have hv := hv (of_decide_eq_true ht)
    have hrel := act_unseen hk hv hmt
    have hnext : ∀ m', m.act a = some m' → m'.cpu.taken = m₀.cpu.taken →
        Veiled v m₀.cpu.env hdir m'.cpu.toCore := fun m' hn ht' =>
      act_veiled hn hk hv (ht'.trans (of_decide_eq_true ht).symm)
    generalize m.act a = x at hrel hnext ⊢
    generalize t.act a = y at hrel ⊢
    cases hrel with
    | none => exact .none
    | some h => exact .some ⟨h, hnext _ rfl⟩
  have hrun := System.run_related (M := system) (N := system) hstep hc
    ⟨⟨mem, rfl, hm, fun _ _ => rfl⟩, fun _ => hv₀⟩
  generalize system.run as m₀ = x at hrun ⊢
  generalize system.run as (m₀.withMem mem) = y at hrun ⊢
  cases hrun with
  | none => exact .none
  | some h => exact .some h.1

end Machine

namespace Machine

open Or1k Or1kiss.Core

attribute [local instance] HostLib.plain

/-- Page 0 is the frame at 0x4000 for loads and stores of user mode and the frame at 0 for its
fetches. Behind both MMUs, user mode loads and stores a word. -/
def copyProgram : List (Nat × U32) :=
  [(0x100, 0x9c600001#32), (0x104, 0xc0201a00#32), (0x108, 0xc0401a00#32), (0x10c, 0x9c8040c0#32),
   (0x110, 0xc0202280#32), (0x114, 0x9cc00080#32), (0x118, 0xc0403280#32), (0x11c, 0x9ca00060#32),
   (0x120, 0xc0002811#32), (0x124, 0x15000000#32), (0x128, 0x84e00010#32), (0x12c, 0xd4001814#32)]

/-- The frames of `copyProgram`; it has no page tables. -/
def copyWindow : Window := ⟨(· ∈ [0#32, 0x4000#32]), fun _ => False⟩

/-- Without page tables it is the entries that show something to user mode. -/
theorem shows_opensOnly {e : Env Memory} {m : Mmu} {imem : Bool} {frames : List U32} {tables : Nat → Prop}
    (h : opensOnly (userRights imem) frames m = true) (hp : m.ctrl &&& MMUCR.PGD = 0#32) :
    m.Shows ⟨(· ∈ frames), tables⟩ imem e where
  entries va way hw hm hu := frame_of_opensOnly h hw hm hu
  tables e' _ _ req _ := by
    refine ⟨fun a ha => ?_, fun pte2 n hw _ => ?_⟩
    · unfold Mmu.walkAddrs at ha
      dsimp only at ha
      rw [if_pos hp] at ha
      cases ha
    · unfold Mmu.walk at hw
      dsimp only at hw
      rw [if_pos hp] at hw
      cases hw

/-- The load and the store of `copyProgram`, with something else in the frame at 0x6000. -/
theorem user_blind_copy : ∃ (m₀ m t : Machine Memory) (mem : Nat → U8),
    system.Run (Memory.boot copyProgram) m₀ ∧ mem 0x6000 ≠ m₀.cpu.env.world.mem 0x6000 ∧
      system.run [.run, .run] m₀ = some m ∧ system.run [.run, .run] (m₀.withMem mem) = some t ∧
        m.cpu.env.world.mem 0x4017 ≠ m₀.cpu.env.world.mem 0x4017 ∧ Unseen copyWindow mem m t := by
  obtain ⟨m₀, hr, hm⟩ := System.exists_run system (Memory.boot copyProgram)
    (.call 1000#32 :: List.replicate 21 .run)
    (fun m => !m.cpu.isSupervisor && m.cpu.isDmmuActive && m.cpu.isImmuActive &&
      isAligned m.cpu.nextPc 4 && isAligned m.cpu.jumpTarget 4 &&
      opensOnly (userRights false) [0#32, 0x4000#32] m.cpu.dmmu && m.cpu.dmmu.ctrl &&& MMUCR.PGD == 0#32 &&
      opensOnly (userRights true) [0#32, 0x4000#32] m.cpu.immu && m.cpu.immu.ctrl &&& MMUCR.PGD == 0#32 &&
      m.cpu.physIpg == 0#32 && system.admits (undistracted m.cpu.taken) [.run, .run] m &&
      (system.run [.run, .run] m).any fun m' =>
        m'.cpu.env.world.mem 0x4017 != m.cpu.env.world.mem 0x4017)
    (by decide +kernel)
  simp only [Bool.and_eq_true, Bool.not_eq_true', beq_iff_eq] at hm
  obtain ⟨⟨⟨⟨⟨⟨⟨⟨⟨⟨⟨hu, hd⟩, hi⟩, hn⟩, hj⟩, hdt⟩, hdp⟩, hit⟩, hip⟩, hpage⟩, hc⟩, hm⟩ := hm
  obtain ⟨m, hrun, hm⟩ := (Option.any_eq_true _ _).1 hm
  let mem : Nat → U8 := Function.update m₀.cpu.env.world.mem 0x6000 (m₀.cpu.env.world.mem 0x6000 + 1#8)
  have hmem : ∀ b, copyWindow.Sees b → mem b = m₀.cpu.env.world.mem b := by
    rintro b (⟨a, ha, rfl⟩ | hf)
    · refine Function.update_of_ne ?_ _ _
      intro h
      have ha6 : a = 0x6000#32 := BitVec.eq_of_toNat_eq h
      subst ha6
      exact absurd (show pageAlign 0x6000#32 ∈ [0#32, 0x4000#32] from ha) (by decide)
    · exact hf.elim
  have hseen : PageSeen copyWindow m₀.cpu.toCore := fun pc hal _ i hi => by
    rw [hpage]
    refine sees_word ?_ ?_ hi
    · rw [show (0#32 : U32) = pageAlign 0#32 by decide, pageAlign_or_offset]
      exact List.mem_cons_self
    · rw [show (0#32 : U32) = pageAlign 0#32 by decide, isAligned_congr (Mmu.pageAlign_and_three _ _)]
      exact hal
  have hrel := user_blind hr hu hd hi ⟨hn, hj⟩ (shows_opensOnly hdt hdp) (shows_opensOnly hit hip) hseen
    hmem hc
  rw [hrun] at hrel
  cases ht : system.run [.run, .run] (m₀.withMem mem) with
  | none =>
    rw [ht] at hrel
    cases hrel
  | some t =>
    rw [ht] at hrel
    cases hrel with
    | some h =>
      refine ⟨m₀, m, t, mem, hr, ?_, hrun, ht, bne_iff_ne.1 hm, h⟩
      rw [show mem 0x6000 = m₀.cpu.env.world.mem 0x6000 + 1#8 from Function.update_self ..]
      bv_omega

end Machine

end Or1kiss
