import Or1kiss.Aside
import Or1kiss.Enclosure

/-!
# What user mode sees of memory

A `Window` is the part of memory that user mode can tell: the frames that the TLBs and the page
tables let it use, and these page tables (`Mmu.Shows`). Cores whose memories are the same in the
window (`Peers`) translate, load, store and fetch alike, behind both MMUs.
-/

namespace Or1kiss

open Host Bits Outcome Runs

variable {e e' : Env Memory} {m m' : Mmu} {req : Request} {mem : Nat → U8}

namespace Memory

/-! ## A port with other contents -/

theorem exclusiveAccess_withMem {ptr : Nat}
    (h : req.read = true → readBytes mem ptr req.size = readBytes e.world.mem ptr req.size)
    (hw : req.read = false → req.addr = e.exclAddr → readBytes mem ptr 4 = readBytes e.world.mem ptr 4) :
    withMem ((withMem e mem).exclusiveAccess ptr req).2.2 (e.exclusiveAccess ptr req).2.2.world.mem =
      (e.exclusiveAccess ptr req).2.2 := by
  unfold Env.exclusiveAccess withMem
  dsimp only
  cases hr : req.read with
  | true =>
    rw [h hr]
    rfl
  | false =>
    rw [if_neg Bool.false_ne_true, if_neg Bool.false_ne_true]
    by_cases ha : req.addr = e.exclAddr
    · rw [if_neg (not_not.2 ha), if_neg (not_not.2 ha), hw hr ha]
      split <;> rfl
    · rw [if_pos ha, if_pos ha]

/-- Where the bytes that are touched are the same, what is served differs in memory only. -/
theorem access_withMem (h : ∀ b, Touches e req b → mem b = e.world.mem b) :
    withMem ((withMem e mem).access req).2.2 (e.access req).2.2.world.mem = (e.access req).2.2 := by
  obtain ⟨n, hn⟩ := directMemoryPtr_snd e req
  have hd : (withMem e mem).directMemoryPtr req = e.directMemoryPtr req := rfl
  unfold Touches at h
  unfold Env.access
  rw [hd]
  generalize e.directMemoryPtr req = d at hn h
  obtain ⟨ptr, r⟩ := d
  dsimp only at hn h ⊢
  subst hn
  cases ptr with
  | some ptr =>
    dsimp only at h ⊢
    cases hx : req.excl with
    | true =>
      rw [if_pos rfl, if_pos rfl]
      refine exclusiveAccess_withMem (fun hr => readBytes_congr fun b hb hb' => h b ?_)
        fun hr ha => readBytes_congr fun b hb hb' => h b ?_
      · rw [if_neg (by rw [show req.read = true from hr]; simp)]
        exact ⟨hb, hb'⟩
      · rw [if_pos ⟨hx, hr⟩]
        exact ⟨ha, hb, hb'⟩
    | false =>
      rw [if_neg Bool.false_ne_true, if_neg Bool.false_ne_true]
      cases req.read <;> rfl
  | none =>
    dsimp only
    unfold withMem
    dsimp only
    congr 1
    show World.mk _ _ = (transact _ e.world).world
    have hdev : ∀ w : World Memory, ∀ q : Request,
        (transact q { w with mem := mem }).world.dev = (transact q w).world.dev := fun w q => by
      unfold transact
      dsimp only
      split
      · rfl
      · split <;> rfl
    exact congrArg (World.mk _) (hdev e.world _)

theorem convertAndTransact_withMem (h : ∀ b, Touches e req b → mem b = e.world.mem b) :
    ∃ mem', (withMem e mem).convertAndTransact req =
        ((e.convertAndTransact req).1, (e.convertAndTransact req).2.1,
          withMem (e.convertAndTransact req).2.2 mem') ∧
      (∀ b, mem b = e.world.mem b → mem' b = (e.convertAndTransact req).2.2.world.mem b) ∧
      ∀ b, ¬Touches e req b → mem' b = mem b := by
  have ha := convertAndTransact_congr h
  have hframe : ∀ b, ¬Touches e req b →
      ((withMem e mem).convertAndTransact req).2.2.world.mem b = mem b := fun b hb =>
    convertAndTransact_frame (e := withMem e mem) hb
  have henv : withMem ((withMem e mem).convertAndTransact req).2.2
      (e.convertAndTransact req).2.2.world.mem = (e.convertAndTransact req).2.2 := by
    by_cases hc : req.size > 1 ∧ req.endian ≠ e.endian
    · rw [Env.convertAndTransact_swapped hc, Env.convertAndTransact_swapped (e := withMem e mem) hc]
      exact access_withMem fun b ht => h b (touches_swapped.1 ht)
    · rw [Env.convertAndTransact_direct hc, Env.convertAndTransact_direct (e := withMem e mem) hc]
      exact access_withMem h
  refine ⟨((withMem e mem).convertAndTransact req).2.2.world.mem, ?_, fun b hb => ?_, hframe⟩
  · rw [← henv, ← ha.resp, ← ha.req]
    rfl
  · by_cases ht : Touches e req b
    · exact ha.mem b ht
    · rw [hframe b ht, convertAndTransact_frame ht, hb]

/-- Reading leaves both memories. -/
theorem read_withMem (hr : req.read = true) (h : ∀ b, Touches e req b → mem b = e.world.mem b) :
    (withMem e mem).convertAndTransact req =
      ((e.convertAndTransact req).1, (e.convertAndTransact req).2.1,
        withMem (e.convertAndTransact req).2.2 mem) := by
  obtain ⟨mem', he, -, -⟩ := convertAndTransact_withMem h
  have hm := Env.convertAndTransact_read_mem (e := withMem e mem) honest hr
  rw [he] at hm ⊢
  rw [show mem' = mem from hm]

end Memory

/-! ## Page table walks -/

namespace Mmu

/-- The addresses of the entries that a walk reads. -/
def walkAddrs (m : Mmu) (e : Env Memory) (req : Request) : List U32 :=
  let first := (m.ctrl &&& MMUCR.PGD) + (bits32 req.addr 31 24 <<< 2)
  if m.ctrl &&& MMUCR.PGD = 0#32 then []
  else
    match readPte e (walkRequest e req) first with
    | (.success, pte1, _, _) =>
      if pte1 = 0#32 then [first] else [first, pageAlign pte1 + (bits32 req.addr 23 13 <<< 2)]
    | _ => [first]

variable (hd : e.dataPtr = some 0 ∧ e.dataStart = 0#32)

include hd

theorem readPte_withMem {a : U32} (hr : req.read = true) (hi : req.imem = false)
    (hm : ∀ i < 4, mem (a.toNat + i) = e.world.mem (a.toNat + i)) :
    readPte (Memory.withMem e mem) req a = ((readPte e req a).1, (readPte e req a).2.1,
      (readPte e req a).2.2.1, Memory.withMem (readPte e req a).2.2.2 mem) := by
  let q : Request := { req with addr := a, data := e.garbage 4, size := 4 }
  have hx : (Memory.withMem e mem).convertAndTransact q = ((e.convertAndTransact q).1,
      (e.convertAndTransact q).2.1, Memory.withMem (e.convertAndTransact q).2.2 mem) :=
    Memory.read_withMem hr fun b hb => by
      have htouch := @Memory.touches_bounds e e q b (.refl e) hd hi (fun _ => rfl)
      obtain ⟨h1, h2⟩ := htouch hb
      have h1 : a.toNat ≤ b := h1
      have h2 : b < a.toNat + 4 := h2
      have hb := hm (b - a.toNat) (by omega)
      rwa [Nat.add_sub_cancel' h1] at hb
  show (((Memory.withMem e mem).convertAndTransact q).1,
    ofBytes ((Memory.withMem e mem).convertAndTransact q).2.2.hostEndian
      ((Memory.withMem e mem).convertAndTransact q).2.1.data,
    ((Memory.withMem e mem).convertAndTransact q).2.1,
    ((Memory.withMem e mem).convertAndTransact q).2.2) = _
  rw [hx]
  rfl

/-- A walk depends on the entries that it reads. -/
theorem walk_withMem (hm : ∀ a ∈ m.walkAddrs e req, ∀ i < 4,
    mem (a.toNat + i) = e.world.mem (a.toNat + i)) :
    m.walk (Memory.withMem e mem) req = ((m.walk e req).1, Memory.withMem (m.walk e req).2 mem) := by
  unfold walkAddrs at hm
  unfold walk
  dsimp only at hm ⊢
  generalize (m.ctrl &&& MMUCR.PGD) + (bits32 req.addr 31 24 <<< 2) = first at hm ⊢
  have hread := readPte_read e (walkRequest e req) first
  have himem : (readPte e (walkRequest e req) first).2.2.1.imem = false :=
    (Env.convertAndTransact_request _).2
  have hlater : Later e (readPte e (walkRequest e req) first).2.2.2 := Memory.convertAndTransact_later
  have hmem := readPte_mem e Memory.honest (show (walkRequest e req).read = true from rfl) first
  split
  · rfl
  · rename_i hz
    rw [if_neg hz] at hm
    have hfirst : ∀ i < 4, mem (first.toNat + i) = e.world.mem (first.toNat + i) := by
      refine hm first ?_
      split
      · split <;> exact List.mem_cons_self
      · exact List.mem_cons_self
    rw [show walkRequest (Memory.withMem e mem) req = walkRequest e req from rfl,
      readPte_withMem hd rfl rfl hfirst]
    generalize readPte e (walkRequest e req) first = r at hm hread himem hlater hmem
    obtain ⟨resp, pte1, q, e1⟩ := r
    dsimp only at hm hread himem hlater hmem ⊢
    cases resp with
    | success =>
      dsimp only at hm ⊢
      by_cases hz1 : pte1 = 0#32
      · rw [if_pos hz1, if_pos hz1]
      · rw [if_neg hz1] at hm
        rw [if_neg hz1, if_neg hz1]
        have hd1 : e1.dataPtr = some 0 ∧ e1.dataStart = 0#32 := by
          obtain ⟨w, a, d, rfl⟩ := hlater.served
          exact hd
        rw [readPte_withMem hd1 (hread.trans rfl) himem fun i hi => by
          rw [hmem]
          exact hm _ (List.mem_cons_of_mem _ List.mem_cons_self) i hi]
        generalize readPte e1 q (pageAlign pte1 + (bits32 req.addr 23 13 <<< 2)) = r
        obtain ⟨resp, pte2, q2, e2⟩ := r
        cases resp with
        | success =>
          dsimp only
          split <;> rfl
        | failed | error => rfl
    | failed | error => rfl

theorem translate_withMem (hm : ∀ a ∈ m.walkAddrs e req, ∀ i < 4,
    mem (a.toNat + i) = e.world.mem (a.toNat + i)) :
    m.translate (Memory.withMem e mem) req = ((m.translate e req).1, (m.translate e req).2.1,
      Memory.withMem (m.translate e req).2.2.1 mem, (m.translate e req).2.2.2) := by
  unfold translate
  dsimp only
  have hage : walkAddrs (if req.debug then m else m.age (m.setOf req.addr)) e req = m.walkAddrs e req := by
    unfold walkAddrs
    split
    · rfl
    · rw [(alike_age (m := m) (m.setOf_lt req.addr)).ctrl]
  rw [← hage] at hm
  generalize (if req.debug then m else m.age (m.setOf req.addr)) = m' at hm ⊢
  rw [walk_withMem hd hm]
  split
  · rfl
  · split
    · rfl
    · generalize m'.walk e req = w
      obtain ⟨_ | ⟨pte2, cycles⟩, env⟩ := w <;> rfl

end Mmu

/-! ## What user mode sees -/

/-- The frames that user mode may use, and the bytes of the page tables. -/
structure Window where
  frames : U32 → Prop
  tables : Nat → Prop

/-- A byte that user mode can tell. -/
def Window.Sees (v : Window) (b : Nat) : Prop := InFrames v.frames b ∨ v.tables b

/-- The rights that user mode uses. -/
def userRights (imem : Bool) : U32 := if imem then MMU.UXE else MMU.URE ||| MMU.UWE

namespace Mmu

/-- An MMU lets user mode use what it sees only: by the entries of the TLB, and by the page tables,
whatever is written to the frames. -/
structure Shows (v : Window) (imem : Bool) (e : Env Memory) (m : Mmu) : Prop where
  entries : ∀ va way, way < m.numWays → m.matching va way = true →
    test (m.transReg way (m.setOf va)) (userRights imem) = true →
      v.frames (pageAlign (m.transReg way (m.setOf va)))
  tables : ∀ e', Later e e' → KeepsOutside v.frames e e' → ∀ req : Request, req.imem = imem →
    (∀ a ∈ m.walkAddrs e' req, ∀ i < 4, v.Sees (a.toNat + i)) ∧
    ∀ pte2 n, (m.walk e' req).1 = some (pte2, n) →
      test (refillTrans pte2 req) (userRights imem) = true → v.frames (pageAlign pte2)

variable {v : Window} {imem : Bool}

theorem Shows.alike (h : Shows v imem e m) (ha : Alike m m') : Shows v imem e m' where
  entries va way hw hm hu := by
    rw [ha.numWays] at hw
    rw [ha.matching] at hm
    rw [test_congr (k := transMask) (by unfold userRights; split <;> decide) ha.transReg] at hu
    rw [← pageAlign_transMask, ha.transReg, pageAlign_transMask]
    exact h.entries va way hw hm hu
  tables e' hs hk req hi := by
    rw [walk_alike ha, show m'.walkAddrs e' req = m.walkAddrs e' req by unfold walkAddrs; rw [ha.ctrl]]
    exact h.tables e' hs hk req hi

theorem Shows.refilled {pte2 : U32} {way : Nat} (h : Shows v imem e m) (hs : Later e e')
    (hk : KeepsOutside v.frames e e') (hi : req.imem = imem) (hr : Refilled m e' req pte2 way m') :
    Shows v imem e m' where
  entries va way' hw' hm hu := by
    have hways : m'.numWays = m.numWays := by
      unfold numWays
      rw [hr.cfg]
    rw [hways] at hw'
    have hmask : userRights imem &&& transMask = userRights imem := by
      unfold userRights
      split <;> decide
    rcases hr.matching hm with ⟨hold, ht⟩ | ⟨-, ht⟩
    · rw [test_congr (k := transMask) hmask ht] at hu
      rw [← pageAlign_transMask, ht, pageAlign_transMask]
      exact h.entries va way' hw' hold hu
    · obtain ⟨n, hn⟩ := hr.walked
      rw [test_congr (k := transMask) hmask ht] at hu
      rw [← pageAlign_transMask, ht, pageAlign_transMask, pageAlign_refillTrans]
      exact (h.tables e' hs hk req hi).2 pte2 n hn hu
  tables e'' hs hk req' hi' := by
    have hw : m'.walk e'' req' = m.walk e'' req' := by
      unfold walk
      rw [hr.ctrl]
    rw [hw, show m'.walkAddrs e'' req' = m.walkAddrs e'' req' by unfold walkAddrs; rw [hr.ctrl]]
    exact h.tables e'' hs hk req' hi'

theorem Shows.translate (h : Shows v imem e m) (hs : Later e e') (hk : KeepsOutside v.frames e e')
    (hi : req.imem = imem) : Shows v imem e (m.translate e' req).2.1 := by
  rcases m.translate_entries e' req with ha | ⟨pte2, way, hr⟩
  · exact h.alike ha
  · exact h.refilled hs hk hi hr

/-- An access of user mode goes to one of the frames. -/
theorem Shows.frame (h : Shows v imem e m) (hs : Later e e') (hk : KeepsOutside v.frames e e')
    (hd : req.debug = false) (hi : req.imem = imem) (hu : req.super = false)
    (ho : (m.translate e' req).1 = .okay) :
    v.frames (pageAlign (m.translate e' req).2.2.2.addr) := by
  have hmask : ∀ t, test t (accessMask req) = true → test t (userRights imem) = true := fun t => by
    refine test_mono ?_
    unfold accessMask userRights
    rw [hd, hi, hu]
    cases imem <;> cases req.read <;> decide
  have ht : Translated m e' req (m.translate e' req) := m.translate_translated e' hd
  generalize m.translate e' req = r at ht ho
  cases ht with
  | refused res m' env' hr => exact (hr ho).elim
  | hit way m' req' hw hp hx ha =>
    show v.frames (pageAlign req'.addr)
    rw [hx, pageAlign_or_offset]
    have hlt := List.mem_range.1 (List.mem_of_find?_eq_some hw)
    exact h.entries _ way hlt (List.find?_some hw) (hmask _ hp)
  | refill pte2 way m' env' req' hw hp hx hr =>
    show v.frames (pageAlign req'.addr)
    obtain ⟨n, hn⟩ := hr.walked
    rw [hx, pageAlign_or_offset, pageAlign_refillTrans]
    exact (h.tables e' hs hk req hi).2 pte2 n hn (hmask _ hp)

/-- The frames of the data MMU are a fence. -/
def veil (v : Window) (e : Env Memory) (hd : e.dataPtr = some 0 ∧ e.dataStart = 0#32) : Fence where
  frames := v.frames
  port := e
  holds := Shows v false e
  direct := hd
  translate _ _ _ h hs hk hi := h.translate hs hk hi
  store _ _ _ h hs hk hd hi _ hu ho := h.frame hs hk hd hi hu ho

end Mmu

/-! ## The CPU on the same port with other contents -/

namespace Core

variable {v : Window} {hid : Nat → U8} {c d x : Core Memory} {ci : Instruction}

/-- The same core over another memory. -/
def withMem (mem : Nat → U8) (c : Core Memory) : Core Memory := { c with env := Memory.withMem c.env mem }

/-- Two cores that differ in memory only, and there in nothing that is seen; what is not in the
frames is as it was in the second one. -/
def Peers (v : Window) (hid : Nat → U8) (c d : Core Memory) : Prop :=
  ∃ mem, d = c.withMem mem ∧ (∀ b, v.Sees b → mem b = c.env.world.mem b) ∧
    ∀ b, ¬InFrames v.frames b → mem b = hid b

/-- The memory is put aside. -/
theorem peers_of_beside {f : Core Memory → Outcome Empty (Core Memory)}
    (hf : ∀ {o n : Env Memory × Request} {c d : Core Memory}, n.1.hostEndian = o.1.hostEndian →
      Aside o n c d → Beside o n (f c) (f d)) (h : Peers v hid c d) :
    Both (fun _ _ => True) (Peers v hid) (f c) (f d) := by
  obtain ⟨mem, rfl, hs, hk⟩ := h
  have hb := hf (o := (c.env, c.ireq)) (n := (Memory.withMem c.env mem, c.ireq)) (c := c)
    (d := c.withMem mem) rfl ⟨rfl, rfl, rfl⟩
  refine hb.mono (fun _ _ _ => trivial) fun x y hxy => ⟨mem, ?_, fun b hb => ?_, hk⟩
  · rw [hxy.eq]
    obtain ⟨he, hq, -⟩ := hxy
    unfold aside withMem
    rw [he, ← hq]
  · rw [hxy.env]
    exact hs b hb

theorem exception_peers (h : Peers v hid c d) (t : ExType) (addr : U32) :
    Both (fun _ _ => True) (Peers v hid) (c.exception t addr) (d.exception t addr) :=
  peers_of_beside (fun _ h => exception_aside h t addr) h

/-! ### Data accesses -/

/-- What two accesses return. -/
structure PeerAccess (v : Window) (hid : Nat → U8) (r s : Access Memory) : Prop where
  done : s.done = r.done
  stall : s.stall = r.stall
  req : s.req = r.req
  core : Peers v hid r.core s.core

/-- Two accesses end alike, and so do their requests when they throw. -/
abbrev PeerAccesses (v : Window) (hid : Nat → U8) (x y : Outcome (Core Memory × Request) (Access Memory)) :
    Prop :=
  Both (fun s t => Peers v hid s.1 t.1 ∧ t.2 = s.2) (PeerAccess v hid) x y

theorem abort_peers (h : Peers v hid c d) (t : ExType) (req : Request) :
    PeerAccesses v hid (c.abort t req) (d.abort t req) :=
  (exception_peers h t req.addr).lift (fun s => s.elim) fun _ _ h => ⟨rfl, rfl, rfl, h⟩

theorem complete_peers (h : Peers v hid c d) (req : Request) :
    PeerAccess v hid (c.complete req) (d.complete req) := by
  obtain ⟨mem, rfl, hs, hk⟩ := h
  unfold complete
  split <;> exact ⟨rfl, rfl, rfl, mem, rfl, hs, hk⟩

/-- What user mode may send: to the frames, and within one page. -/
structure Shown (W : U32 → Prop) (req : Request) : Prop where
  frame : W (pageAlign req.addr)
  imem : req.imem = false
  size : req.size = 1 ∨ req.size = 2 ∨ req.size = 4
  excl : req.excl = true → req.size = 4
  aligned : isAligned req.addr req.size = true

/-- The bytes of such a request are in the frames. -/
theorem Shown.touches {W : U32 → Prop} {b : Nat} (h : Shown W req)
    (hd : e.dataPtr = some 0 ∧ e.dataStart = 0#32) (ht : Memory.Touches e req b) : InFrames W b := by
  obtain ⟨h1, h2⟩ := Memory.touches_bounds (.refl e) hd h.imem h.excl ht
  obtain ⟨hto, hpage⟩ := page_of_access h.size h.aligned h1 h2
  exact ⟨_, by rw [hpage]; exact h.frame, hto⟩

theorem send_peers (h : Peers v hid c d) (hd : c.env.dataPtr = some 0 ∧ c.env.dataStart = 0#32)
    (hw : Shown v.frames req) : PeerAccesses v hid (c.send req) (d.send req) := by
  obtain ⟨mem, rfl, hs, hk⟩ := h
  obtain ⟨mem', hx, hsame, hframe⟩ := Memory.convertAndTransact_withMem fun b hb =>
    hs b (.inl (hw.touches hd hb))
  have hs' := fun b hb => hsame b (hs b hb)
  have hk' := fun b hb => (hframe b fun ht => hb (hw.touches hd ht)).trans (hk b hb)
  unfold send
  rw [show (c.withMem mem).env.convertAndTransact req =
    (Memory.withMem c.env mem).convertAndTransact req from rfl, hx]
  generalize c.env.convertAndTransact req = r at hs'
  obtain ⟨resp, q, e'⟩ := r
  dsimp only at hs' ⊢
  cases resp with
  | error => exact abort_peers ⟨mem', rfl, hs', hk'⟩ _ _
  | failed =>
    dsimp only
    split
    · exact .throw ⟨⟨mem', rfl, hs', hk'⟩, rfl⟩
    · exact .ok (complete_peers ⟨mem', rfl, hs', hk'⟩ _)
  | success =>
    refine .ok (complete_peers ?_ _)
    cases q.excl <;> exact ⟨mem', rfl, hs', hk'⟩

variable {o : Env Memory} {ho : o.dataPtr = some 0 ∧ o.dataStart = 0#32}

theorem Held.hostEndian {F : Fence} (h : Held F c) : c.env.hostEndian = F.port.hostEndian := by
  obtain ⟨w, a, d, he⟩ := h.env.served
  rw [he]

theorem Held.insnPtr {F : Fence} (h : Held F c) :
    c.env.insnPtr = F.port.insnPtr ∧ c.env.insnStart = F.port.insnStart := by
  obtain ⟨w, a, d, he⟩ := h.env.served
  rw [he]
  exact ⟨rfl, rfl⟩

theorem Held.direct {F : Fence} (h : Held F c) : c.env.dataPtr = some 0 ∧ c.env.dataStart = 0#32 := by
  obtain ⟨w, a, d, he⟩ := h.env.served
  rw [he]
  exact F.direct

theorem translateData_peers {q : Request} (h : Peers v hid c d) (hc : Held (Mmu.veil v o ho) c)
    (hi : q.imem = false) : (d.translateData q).1 = (c.translateData q).1 ∧
      (d.translateData q).2.1 = (c.translateData q).2.1 ∧
      Peers v hid (c.translateData q).2.2 (d.translateData q).2.2 := by
  obtain ⟨mem, rfl, hs, hk⟩ := h
  have hx : c.dmmu.translate (Memory.withMem c.env mem) q = ((c.dmmu.translate c.env q).1,
      (c.dmmu.translate c.env q).2.1, Memory.withMem (c.dmmu.translate c.env q).2.2.1 mem,
      (c.dmmu.translate c.env q).2.2.2) := Mmu.translate_withMem hc.direct fun a ha i hi' =>
    hs _ ((hc.mmu.tables c.env hc.env hc.outside q hi).1 a ha i hi')
  have hm := Mmu.translate_mem c.dmmu c.env q Memory.honest
  unfold translateData
  rw [show (c.withMem mem).isDmmuActive = c.isDmmuActive from rfl]
  split
  · rw [show (c.withMem mem).dmmu.translate (c.withMem mem).env q =
      c.dmmu.translate (Memory.withMem c.env mem) q from rfl, hx]
    refine ⟨rfl, rfl, mem, rfl, fun b hb => ?_, hk⟩
    exact (hs b hb).trans (congrFun hm b).symm
  · exact ⟨rfl, rfl, mem, rfl, hs, hk⟩

/-- Translation shows what user mode may send to. -/
theorem Held.shown {q : Request} (h : Held (Mmu.veil v o ho) c) (ha : c.isDmmuActive = true) (hi : q.imem = false)
    (hd : q.debug = false) (hu : q.super = false)
    (hn : q.size = 1 ∨ q.size = 2 ∨ q.size = 4) (hx : q.excl = true → q.size = 4)
    (hal : isAligned q.addr q.size = true) (hok : (c.translateData q).1 = .okay) :
    Shown v.frames (c.translateData q).2.1 := by
  have hf := translateData_fields c q
  have hlow := translateData_low c q hok
  refine ⟨?_, hf.imem.trans hi, ?_, ?_, ?_⟩
  · unfold Core.translateData at hok ⊢
    rw [if_pos ha] at hok ⊢
    exact h.mmu.frame h.env h.outside hd hi hu hok
  · rw [hf.size]
    exact hn
  · rw [hf.excl, hf.size]
    exact hx
  · rw [hf.size, isAligned_congr hlow]
    exact hal

theorem transact_peers {q : Request} (h : Peers v hid c d) (hc : Held (Mmu.veil v o ho) c) (hg : Screened c)
    (hi : q.imem = false) (hd : q.debug = false)
    (hn : q.size = 1 ∨ q.size = 2 ∨ q.size = 4) (hx : q.excl = true → q.size = 4) :
    PeerAccesses v hid (c.transact q) (d.transact q) := by
  obtain ⟨w, hw⟩ := c.checkWatchpoints_eq (c.dataRequest q)
  have hq : d.dataRequest q = c.dataRequest q := by
    obtain ⟨mem, rfl, -⟩ := h
    rfl
  have hp : Peers v hid (c.checkWatchpoints (c.dataRequest q)) (d.checkWatchpoints (c.dataRequest q)) := by
    obtain ⟨mem, rfl, hs, hk⟩ := h
    unfold checkWatchpoints
    rw [show hitsWatchpoint (c.dataRequest q) (c.withMem mem) = hitsWatchpoint (c.dataRequest q) c from rfl]
    split <;> exact ⟨mem, rfl, hs, hk⟩
  have hc' : Held (Mmu.veil v o ho) (c.checkWatchpoints (c.dataRequest q)) := by
    rw [hw]
    exact hc.of_eq rfl rfl
  have ha : (c.checkWatchpoints (c.dataRequest q)).isDmmuActive = true := by
    rw [hw]
    exact hg.dmmu
  unfold transact
  rw [hq]
  dsimp only
  split
  · exact abort_peers hp _ _
  · rename_i hal
    have hal : isAligned q.addr q.size = true := by
      unfold misaligned at hal
      rw [show (c.dataRequest q).debug = false from hd, Bool.not_false, Bool.and_true,
        Bool.not_eq_true, Bool.not_eq_false'] at hal
      exact hal
    obtain ⟨h1, h2, h3⟩ := translateData_peers hp hc' (q := c.dataRequest q) hi
    have hsh := hc'.shown (q := c.dataRequest q) ha hi hd hg.user hn hx hal
    have ht : Held (Mmu.veil v o ho)
        ((c.checkWatchpoints (c.dataRequest q)).translateData (c.dataRequest q)).2.2 :=
      hc'.translateData hi
    rw [translateSend_eq, translateSend_eq]
    generalize (c.checkWatchpoints (c.dataRequest q)).translateData (c.dataRequest q) = r at *
    generalize (d.checkWatchpoints (c.dataRequest q)).translateData (c.dataRequest q) = r' at *
    obtain ⟨res, p, b⟩ := r
    obtain ⟨res', p', b'⟩ := r'
    dsimp only at h1 h2 h3 ht hsh
    subst h1 h2
    cases res' with
    | tlbMiss | pageFault => exact abort_peers h3 _ _
    | okay => exact send_peers h3 ht.direct (hsh rfl)

theorem writeBack_peers (h : Peers v hid c d) (i : Fin 32) (req : Request) :
    Peers v hid (c.writeBack i req) (d.writeBack i req) := by
  obtain ⟨mem, rfl, hs, hk⟩ := h
  exact ⟨mem, rfl, hs, hk⟩

theorem accessMemory_peers (h : Peers v hid c d) (hc : Held (Mmu.veil v o ho) c) (hg : Screened c)
    {read excl : Bool} {size : Nat} {post : U32 → U32} {buf : Operand}
    (hn : size = 1 ∨ size = 2 ∨ size = 4) (hx : excl = true → size = 4) :
    Both (Peers v hid) (fun a b => b.1 = a.1 ∧ Peers v hid a.2 b.2)
      (c.accessMemory read excl size post buf ci) (d.accessMemory read excl size post buf ci) := by
  have hreads : ∀ (op : Operand) {f g : U32 → Outcome (Core Memory) (Nat × Core Memory)},
      (∀ a, Both (Peers v hid) (fun a b => b.1 = a.1 ∧ Peers v hid a.2 b.2) (f a) (g a)) →
      Both (Peers v hid) (fun a b => b.1 = a.1 ∧ Peers v hid a.2 b.2)
        ((c.deref ci op).widen >>= f) ((d.deref ci op).widen >>= g) := by
    intro op f g hfg
    have hd : d.deref ci op = c.deref ci op := by
      obtain ⟨mem, rfl, -⟩ := h
      rfl
    rw [hd]
    cases c.deref ci op with
    | ok a => exact hfg a
    | throw e => exact e.elim
    | fault e => exact .fault e
  unfold accessMemory
  refine hreads ci.src1 fun a => hreads buf fun w => ?_
  split
  · split
    · rename_i i hi
      have hq : d.dreq = c.dreq ∧ d.env.hostEndian = c.env.hostEndian := by
        obtain ⟨mem, rfl, -⟩ := h
        exact ⟨rfl, rfl⟩
      rw [hq.1, hq.2]
      have ht := transact_peers (q := { c.dreq with
        read := read, excl := excl, addr := a + ci.imm, size := size
        data := (bytesOf c.env.hostEndian w).take size }) h hc hg hg.imem hg.debug hn hx
      refine ht.lift (fun s t hst => ?_) fun x y hxy => ?_
      · rw [hst.2]
        exact writeBack_peers hst.1 _ _
      · rw [hxy.done, hxy.stall, hxy.req]
        refine ⟨rfl, ?_⟩
        have hwb := writeBack_peers hxy.core ⟨i, hi⟩ x.req
        obtain ⟨mem, hwb, hs, hk⟩ := hwb
        rw [hwb]
        dsimp only
        split <;> exact ⟨mem, rfl, hs, hk⟩
    · exact .fault _
  · exact .fault _

/-- A load or store of user mode. -/
theorem executeMem_peers {x : MemExec} (h : Peers v hid c d) (hc : Held (Mmu.veil v o ho) c)
    (hg : Screened c) : Both (Peers v hid) (fun a b => b.1 = a.1 ∧ Peers v hid a.2 b.2)
      (c.executeMem x ci) (d.executeMem x ci) := by
  rw [executeMem_access, executeMem_access]
  exact accessMemory_peers h hc hg x.size_cases (by cases x <;> decide)

/-! ### Fetching -/

/-- The page of the last fetch shows what user mode sees. -/
def PageSeen (v : Window) (c : Core Memory) : Prop := ∀ pc, isAligned pc 4 = true →
  pageCompare c.virtIpg pc = true → ∀ i < 4, v.Sees ((c.physIpg ||| pageOffset pc).toNat + i)

/-- What the instruction MMU and the page of the last fetch show of memory is seen. -/
structure Overseen (v : Window) (o : Env Memory) (c : Core Memory) : Prop where
  insn : c.immu.Shows v true o
  page : PageSeen v c
  debug : c.ireq.debug = false

theorem Overseen.of_itlb (h : Overseen v o c) (hi : x.itlb = c.itlb) : Overseen v o x := by
  obtain ⟨h1, h2, h3, h4, -⟩ := by simpa only [itlb, Prod.mk.injEq] using hi
  refine ⟨?_, ?_, h4.trans h.debug⟩
  · rw [h1]
    exact h.insn
  · unfold PageSeen
    rw [h2, h3]
    exact h.page

/-- The next instruction and the target of a pending jump are at addresses of words. -/
structure Stepping (c : Core Memory) : Prop where
  nextPc : isAligned c.nextPc 4 = true
  jumpTarget : isAligned c.jumpTarget 4 = true

theorem Stepping.of_eq (h : Stepping c) (hn : x.nextPc = c.nextPc) (hj : x.jumpTarget = c.jumpTarget) :
    Stepping x := by
  refine ⟨?_, ?_⟩
  · rw [hn]
    exact h.nextPc
  · rw [hj]
    exact h.jumpTarget

/-- A CPU in user mode whose MMUs show what user mode sees only. -/
structure Veiled (v : Window) (o : Env Memory) (ho : o.dataPtr = some 0 ∧ o.dataStart = 0#32)
    (c : Core Memory) : Prop where
  overseen : Overseen v o c
  screened : Screened c
  fetching : Fetching c
  held : Held (Mmu.veil v o ho) c
  active : c.isImmuActive = true
  stepping : Stepping c
  pointer : o.insnPtr = some 0 ∧ o.insnStart = 0#32

/-- The bytes of a word in a frame. -/
theorem sees_word {a : U32} (hf : v.frames (pageAlign a)) (ha : isAligned a 4 = true) {i : Nat}
    (hi : i < 4) : v.Sees (a.toNat + i) := by
  obtain ⟨hto, hpage⟩ := page_of_access (.inr (.inr rfl)) ha (Nat.le_add_right a.toNat i)
    (Nat.add_lt_add_left hi a.toNat)
  exact .inl ⟨_, by rw [hpage]; exact hf, hto⟩

theorem refuse_peers (h : Peers v hid c d) (t : ExType) :
    Both (Peers v hid) (fun r s => s.1 = r.1 ∧ Peers v hid r.2 s.2) (c.refuse t) (d.refuse t) := by
  have ha : d.ireq.addr = c.ireq.addr := by
    obtain ⟨mem, rfl, -⟩ := h
    rfl
  unfold refuse
  rw [ha]
  exact (exception_peers h t c.ireq.addr).lift (fun e => e.elim) fun _ _ h => ⟨rfl, h⟩

theorem translateFetch_peers (h : Peers v hid c d) (hc : Veiled v o ho c) :
    d.translateFetch.1 = c.translateFetch.1 ∧ Peers v hid c.translateFetch.2 d.translateFetch.2 := by
  obtain ⟨mem, rfl, hs, hk⟩ := h
  have hx : c.immu.translate (Memory.withMem c.env mem) c.fetchRequest =
      ((c.immu.translate c.env c.fetchRequest).1, (c.immu.translate c.env c.fetchRequest).2.1,
        Memory.withMem (c.immu.translate c.env c.fetchRequest).2.2.1 mem,
        (c.immu.translate c.env c.fetchRequest).2.2.2) :=
    Mmu.translate_withMem hc.held.direct fun a ha i hi => hs _ ((hc.overseen.insn.tables c.env hc.held.env
      hc.held.outside c.fetchRequest hc.fetching.imem).1 a ha i hi)
  have hm := Mmu.translate_mem c.immu c.env c.fetchRequest Memory.honest
  unfold translateFetch
  rw [show (c.withMem mem).immu.translate (c.withMem mem).env (c.withMem mem).fetchRequest =
    c.immu.translate (Memory.withMem c.env mem) c.fetchRequest from rfl, hx]
  exact ⟨rfl, mem, rfl, fun b hb => (hs b hb).trans (congrFun hm b).symm, hk⟩

theorem fetchAddress_peers (h : Peers v hid c d) (hc : Veiled v o ho c) :
    Both (Peers v hid) (fun r s => s.1 = r.1 ∧ Peers v hid r.2 s.2) c.fetchAddress d.fetchAddress := by
  obtain ⟨h1, h2⟩ := translateFetch_peers h hc
  have hd : d.isImmuActive = c.isImmuActive ∧ d.samePage = c.samePage ∧ d.nextPc = c.nextPc := by
    obtain ⟨mem, rfl, -⟩ := h
    exact ⟨rfl, rfl, rfl⟩
  unfold fetchAddress
  rw [hd.1, hd.2.1, hd.2.2]
  split
  · split
    · obtain ⟨mem, rfl, hs, hk⟩ := h
      exact .ok ⟨rfl, mem, rfl, hs, hk⟩
    · generalize c.translateFetch = r at h1 h2
      generalize d.translateFetch = r' at h1 h2
      obtain ⟨res, x⟩ := r
      obtain ⟨res', y⟩ := r'
      dsimp only at h1 h2
      subst h1
      cases res' with
      | tlbMiss | pageFault => exact refuse_peers h2 _
      | okay =>
        obtain ⟨mem, rfl, hs, hk⟩ := h2
        exact .ok ⟨rfl, mem, rfl, hs, hk⟩
  · obtain ⟨mem, rfl, hs, hk⟩ := h
    exact .ok ⟨rfl, mem, rfl, hs, hk⟩

/-- The word at the address that is found is seen. -/
theorem fetchAddress_seen (hc : Veiled v o ho c) (hx : c.fetchAddress = .ok (true, x)) {i : Nat}
    (hi : i < 4) : v.Sees (x.ireq.addr.toNat + i) := by
  unfold fetchAddress at hx
  rw [if_pos hc.active] at hx
  split at hx
  · rename_i hs
    cases hx
    exact hc.overseen.page c.nextPc hc.stepping.nextPc hs i hi
  · have hres : c.translateFetch.1 = (c.immu.translate c.env c.fetchRequest).1 := rfl
    have haddr : c.translateFetch.2.ireq.addr = (c.immu.translate c.env c.fetchRequest).2.2.2.addr := rfl
    split at hx <;> rename_i he <;> rw [he] at hres haddr
    · exact nomatch (refuse_ok rfl hx).1
    · exact nomatch (refuse_ok rfl hx).1
    · cases hx
      have hq : c.fetchRequest.debug = false ∧ c.fetchRequest.imem = true ∧ c.fetchRequest.super = false :=
        ⟨hc.overseen.debug, hc.fetching.imem, hc.screened.user⟩
      have hf := hc.overseen.insn.frame hc.held.env hc.held.outside hq.1 hq.2.1 hq.2.2 hres.symm
      rw [← haddr] at hf
      refine sees_word hf ?_ hi
      rw [haddr, isAligned_congr (Mmu.translate_low hres.symm)]
      exact hc.stepping.nextPc

/-- A fetch fills the page with one of the frames. -/
theorem Overseen.addressed (h : Overseen v o c) (hh : Held (Mmu.veil v o ho) c)
    (hi : c.ireq.imem = true) (hu : c.isSupervisor = false) (ha : Addressed c x) : Overseen v o x := by
  have hq : c.fetchRequest.debug = false ∧ c.fetchRequest.imem = true ∧ c.fetchRequest.super = false :=
    ⟨h.debug, hi, hu⟩
  have htr := h.insn.translate hh.env hh.outside hq.2.1
  cases ha with
  | kept hs hx => exact h.of_itlb hx
  | refused hact hs hr hx =>
    obtain ⟨h1, h2, h3, h4, -⟩ := by simpa only [itlb, Prod.mk.injEq] using hx
    refine ⟨?_, ?_, h4.trans h.debug⟩
    · rw [h1]
      exact htr
    · unfold PageSeen
      rw [h2, h3]
      exact h.page
  | filled hact hs hr hx =>
    obtain ⟨h1, h2, h3, h4, -⟩ := by simpa only [itlb, Prod.mk.injEq] using hx
    refine ⟨?_, ?_, h4.trans h.debug⟩
    · rw [h1]
      exact htr
    · unfold PageSeen
      rw [h2, h3]
      intro pc hal _ i hi'
      have hf := h.insn.frame hh.env hh.outside hq.1 hq.2.1 hq.2.2 hr
      refine sees_word ?_ ?_ hi'
      · rw [pageAlign_or_offset]
        exact hf
      · rw [isAligned_congr (Mmu.pageAlign_and_three _ _)]
        exact hal

theorem Fetching.of_kind (h : Fetching c) (hk : x.fetchKind = c.fetchKind)
    (he : x.env.hostEndian = c.env.hostEndian) : Fetching x := by
  obtain ⟨h1, h2, h3, h4, h5⟩ := by simpa only [fetchKind, Prod.mk.injEq] using hk
  exact ⟨h1.trans h.read, h2.trans h.imem, h3.trans h.excl, h4.trans h.size,
    (h5.trans h.endian).trans he.symm⟩

/-- The bytes of the word that the insn pointer, or the port, supplies. -/
theorem insn_bounds {b : Nat} (hp : e.insnPtr = some 0 ∧ e.insnStart = 0#32) (hi : req.imem = true)
    (hx : req.excl = false) (ht : Memory.Touches e req b) :
    req.addr.toNat ≤ b ∧ b < req.addr.toNat + req.size := by
  have hptr : (e.directMemoryPtr req).1 = some req.addr.toNat ∨ (e.directMemoryPtr req).1 = none := by
    unfold Env.directMemoryPtr Env.getInsnPtr
    rw [hi, if_pos rfl, hp.1, hp.2]
    dsimp only
    split
    · exact .inr rfl
    · exact .inl (by simp)
  unfold Memory.Touches at ht
  rcases hptr with hptr | hptr <;> rw [hptr] at ht <;> dsimp only at ht
  · rwa [if_neg (by rw [hx]; simp)] at ht
  · exact ht.2

/-- What `readInsn` makes of a reply. -/
def received (c : Core Memory) (r : Response × Request × Env Memory) : Response × Core Memory :=
  let e := c.env.hostEndian
  let insn := ofBytes e (overlay (bytesOf e c.insn) r.2.1.data r.2.1.size)
  (r.1, { c with env := r.2.2, insn := insn, ireq := { r.2.1 with data := [] } })

theorem fetchWord_peers (h : Peers v hid c d) (hf : Fetching c)
    (hp : c.env.insnPtr = some 0 ∧ c.env.insnStart = 0#32)
    (hw : ∀ i < 4, v.Sees (c.ireq.addr.toNat + i)) :
    Both (Peers v hid) (fun r s => s.1 = r.1 ∧ Peers v hid r.2 s.2) c.fetchWord d.fetchWord := by
  obtain ⟨mem, rfl, hs, hk⟩ := h
  have hsame : ∀ b, c.ireq.addr.toNat ≤ b → b < c.ireq.addr.toNat + 4 →
      mem b = c.env.world.mem b := fun b h1 h2 => by
    have hb := hs _ (hw (b - c.ireq.addr.toNat) (by omega))
    rwa [Nat.add_sub_cancel' h1] at hb
  let req : Request := { c.ireq with data := bytesOf c.env.hostEndian c.insn }
  have hx : (c.withMem mem).readInsn = (c.readInsn.1, c.readInsn.2.withMem mem) := by
    have hr : (Memory.withMem c.env mem).convertAndTransact req = ((c.env.convertAndTransact req).1,
        (c.env.convertAndTransact req).2.1, Memory.withMem (c.env.convertAndTransact req).2.2 mem) :=
      Memory.read_withMem hf.read fun b hb => by
        have hi : req.imem = true := hf.imem
        obtain ⟨h1, h2⟩ := insn_bounds hp hi hf.excl hb
        rw [show req.size = 4 from hf.size] at h2
        exact hsame b h1 h2
    show c.received ((Memory.withMem c.env mem).convertAndTransact req) = _
    rw [hr]
    rfl
  have hm : c.readInsn.2.env.world.mem = c.env.world.mem :=
    Env.convertAndTransact_read_mem Memory.honest (show req.read = true from hf.read)
  unfold fetchWord
  rw [show (c.withMem mem).env.getInsnPtr (c.withMem mem).ireq.addr = c.env.getInsnPtr c.ireq.addr from rfl]
  cases hn : c.env.getInsnPtr c.ireq.addr with
  | some p =>
    have hpa : p = c.ireq.addr.toNat := by
      unfold Env.getInsnPtr at hn
      rw [hp.1, hp.2] at hn
      dsimp only at hn
      split at hn
      · cases hn
      · simpa using (Option.some.inj hn).symm
    subst hpa
    have hword : readBytes mem c.ireq.addr.toNat 4 = readBytes c.env.world.mem c.ireq.addr.toNat 4 :=
      readBytes_congr fun b h1 h2 => hsame b h1 h2
    refine .ok ⟨rfl, mem, ?_, hs, hk⟩
    dsimp only
    rw [show (c.withMem mem).env.world.mem = mem from rfl, hword]
    rfl
  | none =>
    dsimp only
    rw [hx]
    have hs' : ∀ b, v.Sees b → mem b = c.readInsn.2.env.world.mem b := fun b hb =>
      (hs b hb).trans (congrFun hm b).symm
    generalize c.readInsn = r at hs'
    obtain ⟨resp, x⟩ := r
    cases resp with
    | error => exact refuse_peers ⟨mem, rfl, hs', hk⟩ _
    | failed => exact .throw ⟨mem, rfl, hs', hk⟩
    | success => exact .ok ⟨rfl, mem, rfl, hs', hk⟩

end Core

end Or1kiss
