import Or1kiss.Meaning
import Or1kiss.Cost
import Or1kiss.Reservation
import Or1kiss.Transfer

/-!
# Loads and stores and the instruction set

On the simulator's memory and without translation, an aligned access within memory is served by the
direct pointer: `l.lwz` and its kin read the bytes that the instruction set says, most significant
byte first, and `l.sw` and its kin write them (`load_acts`, `store_acts`).
-/

namespace Or1kiss

open Host Bits Outcome Isa

/-! ## Bytes -/

theorem wordLE_append_setWidth (xs ys : List U8) {n : Nat} (h : n ≤ 8 * xs.length) :
    (wordLE (xs ++ ys)).setWidth n = (wordLE xs).setWidth n := by
  induction xs generalizing n with
  | nil =>
    have hn : n = 0 := by simpa using h
    subst hn
    exact Subsingleton.elim _ _
  | cons x xs ih =>
    rw [List.cons_append, wordLE_cons, wordLE_cons]
    ext i hi
    have hb : i - 8 < n - 8 ∨ i < 8 := by omega
    simp only [BitVec.getElem_setWidth, BitVec.getLsbD_or, BitVec.getLsbD_shiftLeft,
      BitVec.getLsbD_setWidth]
    by_cases hi8 : i < 8
    · simp [hi8]
    · have hlen : n - 8 ≤ 8 * xs.length := by
        rw [List.length_cons] at h
        omega
      have hbit := congrArg (·.getLsbD (i - 8)) (ih hlen)
      simp only [BitVec.getLsbD_setWidth, decide_eq_true (show i - 8 < n - 8 by omega),
        Bool.true_and] at hbit
      rw [hbit]

/-- What is extended from the bytes of a number does not depend on the bytes above them. -/
theorem extend_wordLE_append (signed : Bool) {xs ys : List U8} (hn : 0 < xs.length) :
    extend signed (8 * xs.length - 1) (wordLE (xs ++ ys)) =
      extend signed (8 * xs.length - 1) (wordLE xs) := by
  unfold extend
  rw [wordLE_append_setWidth xs ys (by omega)]

/-- The bytes of a word that a store of `n` bytes sends, most significant byte first. -/
theorem reverse_take_bytesOf (n : Nat) (x : U32) :
    ((bytesOf .little x).take n).reverse = (bytesOf .big x).drop (4 - n) := by
  have hb : bytesOf .big x = (bytesOf .little x).reverse := rfl
  rw [hb, List.reverse_take, length_bytesOf]

namespace Memory

/-! ## The port -/

variable {room : Nat} {e : Env Memory} {req : Request}

/-- The port of `memory.h` on the host that the simulator is built for, with `room` bytes. -/
structure Ported (room : Nat) (e : Env Memory) : Prop where
  size : OfSize room e
  pos : 0 < room
  le : room ≤ 2 ^ 32
  endian : e.endian = .big
  host : e.hostEndian = .little

theorem lastDirect_toNat (hp : 0 < room) (hl : room ≤ 2 ^ 32) :
    (lastDirect room).toNat = room - 1 := by
  unfold lastDirect
  rw [BitVec.toNat_sub, BitVec.toNat_ofNat]
  show (2 ^ 32 - 1 % 2 ^ 32 + room % 2 ^ 32) % 2 ^ 32 = room - 1
  rcases Nat.lt_or_eq_of_le hl with h | h
  · rw [Nat.mod_eq_of_lt h]
    omega
  · rw [h]
    decide

theorem Ported.pointer (h : Ported room e) {addr : U32} {n : Nat} (hn : 0 < n)
    (hi : addr.toNat + n ≤ room) : e.getDataPtr addr = some addr.toNat := by
  rw [h.size.getDataPtr, if_pos]
  rw [BitVec.le_def, lastDirect_toNat h.pos h.le]
  omega

theorem Ported.insnPointer (h : Ported room e) {addr : U32} {n : Nat} (hn : 0 < n)
    (hi : addr.toNat + n ≤ room) : e.getInsnPtr addr = some addr.toNat := by
  rw [h.size.getInsnPtr, if_pos]
  rw [BitVec.le_def, lastDirect_toNat h.pos h.le]
  omega

/-- A data request of one, two or four bytes in memory, in the byte order of the host. -/
structure Plain (room : Nat) (req : Request) : Prop where
  imem : req.imem = false
  excl : req.excl = false
  endian : req.endian = .little
  size : req.size = 1 ∨ req.size = 2 ∨ req.size = 4
  room : req.addr.toNat + req.size ≤ room
  data : req.data.length = req.size

theorem Plain.pos (h : Plain room req) : 0 < req.size := by
  rcases h.size with h | h | h <;> omega

theorem Plain.size_cases (h : Plain room req) :
    req.size = 1 ∨ req.size = 2 ∨ req.size = 4 ∨ req.size = 8 := by
  rcases h.size with h | h | h
  · exact .inl h
  · exact .inr (.inl h)
  · exact .inr (.inr (.inl h))

theorem Plain.direct (h : Plain room req) (he : Ported room e) (d : List U8) :
    ∃ n, e.directMemoryPtr { req with data := d } =
      (some req.addr.toNat, { req with data := d, cycles := n }) := by
  unfold Env.directMemoryPtr
  dsimp only
  rw [h.imem, if_neg Bool.false_ne_true, he.pointer h.pos h.room]
  exact ⟨_, rfl⟩

/-- The byte order on the way to memory: reversed, also for a single byte. -/
theorem Plain.reversed (h : Plain room req) (tmp : List U8) (ht : tmp.length = req.size) :
    memcpyswp tmp req.data req.size = req.data.reverse := by
  unfold memcpyswp
  rw [if_pos h.size_cases, List.take_of_length_le (Nat.le_of_eq h.data),
    List.drop_of_length_le (Nat.le_of_eq ht), List.append_nil]

theorem Plain.read (h : Plain room req) (he : Ported room e) (hr : req.read = true) :
    ∃ n, e.convertAndTransact req = (.success, { req with
      data := (readBytes e.world.mem req.addr.toNat req.size).reverse, cycles := n }, e) := by
  have hlen : (readBytes e.world.mem req.addr.toNat req.size).length = req.size := by
    simp [readBytes]
  have hacc : ∀ d, ∃ n, e.access { req with data := d } = (.success, { req with
      data := readBytes e.world.mem req.addr.toNat req.size, cycles := n }, e) := by
    intro d
    obtain ⟨n, hn⟩ := h.direct he d
    unfold Env.access
    rw [hn]
    dsimp only
    rw [h.excl, hr]
    exact ⟨_, rfl⟩
  by_cases hc : req.size > 1 ∧ req.endian ≠ e.endian
  · rw [Env.convertAndTransact_swapped hc]
    obtain ⟨n, hn⟩ := hacc (e.swapped req).data
    have hsw : e.swapped req = { req with data := (e.swapped req).data } := rfl
    rw [hsw, hn]
    refine ⟨n, ?_⟩
    dsimp only
    unfold memcpyswp
    rw [if_pos h.size_cases, List.take_of_length_le (Nat.le_of_eq hlen),
      List.drop_of_length_le (Nat.le_of_eq h.data), List.append_nil]
  · have h1 : req.size = 1 := by
      have hne : req.endian ≠ e.endian := by
        rw [h.endian, he.endian]
        decide
      rcases h.size with h | h | h
      · exact h
      · exact (hc ⟨by omega, hne⟩).elim
      · exact (hc ⟨by omega, hne⟩).elim
    rw [Env.convertAndTransact_direct hc]
    obtain ⟨n, hn⟩ := hacc req.data
    refine ⟨n, ?_⟩
    rw [show ({ req with data := req.data } : Request) = req from rfl] at hn
    rw [hn, h1]
    rfl

theorem Plain.write (h : Plain room req) (he : Ported room e) (hr : req.read = false) :
    ∃ n, e.convertAndTransact req = (.success, { req with cycles := n },
      withMem e (writeBytes e.world.mem req.addr.toNat req.data.reverse)) := by
  have hacc : ∀ d, d.length = req.size → ∃ n, e.access { req with data := d } =
      (.success, { req with data := d, cycles := n },
        withMem e (writeBytes e.world.mem req.addr.toNat d)) := by
    intro d hl
    obtain ⟨n, hn⟩ := h.direct he d
    unfold Env.access
    rw [hn]
    dsimp only
    rw [h.excl, hr, List.take_of_length_le (Nat.le_of_eq hl)]
    exact ⟨_, rfl⟩
  by_cases hc : req.size > 1 ∧ req.endian ≠ e.endian
  · have h8 : ¬8 < req.size := by rcases h.size with h | h | h <;> omega
    have hsw : e.swapped req = { req with data := req.data.reverse } := by
      unfold Env.swapped
      dsimp only
      rw [if_neg h8, h.reversed _ (List.length_replicate ..)]
    have hrl : req.data.reverse.length = req.size := by rw [List.length_reverse, h.data]
    obtain ⟨n, hn⟩ := hacc req.data.reverse hrl
    rw [Env.convertAndTransact_swapped hc, hsw, hn]
    refine ⟨n, ?_⟩
    dsimp only
    have hback : memcpyswp req.data req.data.reverse req.size = req.data := by
      unfold memcpyswp
      rw [if_pos h.size_cases, List.take_of_length_le (Nat.le_of_eq hrl),
        List.drop_of_length_le (Nat.le_of_eq h.data), List.append_nil, List.reverse_reverse]
    rw [hback]
  · have h1 : req.size = 1 := by
      have hne : req.endian ≠ e.endian := by rw [h.endian, he.endian]; nofun
      rcases h.size with h | h | h
      · exact h
      · exact (hc ⟨by omega, hne⟩).elim
      · exact (hc ⟨by omega, hne⟩).elim
    have hrev : req.data.reverse = req.data := by
      have hl := h.data
      rw [h1] at hl
      obtain ⟨a, ha⟩ := List.length_eq_one_iff.1 hl
      rw [ha]
      rfl
    rw [Env.convertAndTransact_direct hc, hrev]
    exact hacc req.data h.data

end Memory

namespace Core

open Memory

variable {room : Nat} {c : Core Memory} {v : Data} {ci : Instruction} {ops : Operands}
  {t : Option U32}

/-! ## Accesses -/

/-- What a load or store needs of the state: the port, the kind of the data request, and no
translation. -/
structure Direct (room : Nat) (c : Core Memory) : Prop where
  port : Ported room c.env
  imem : c.dreq.imem = false
  endian : c.dreq.endian = .little
  dmmu : c.isDmmuActive = false

theorem isAligned_of_mod {addr : U32} {n : Nat} (hn : n = 1 ∨ n = 2 ∨ n = 4)
    (h : addr.toNat % n = 0) : isAligned addr n = true := by
  unfold isAligned
  rw [beq_iff_eq, ← BitVec.toNat_inj, BitVec.toNat_and]
  rcases hn with rfl | rfl | rfl
  · exact Nat.and_zero _
  · exact (Nat.and_two_pow_sub_one_eq_mod addr.toNat 1).trans h
  · exact (Nat.and_two_pow_sub_one_eq_mod addr.toNat 2).trans h

/-- An aligned access within memory gets its reply from the port. -/
theorem transact_direct {req : Request} (h : c.Direct room) (hq : Plain room (c.dataRequest req))
    (ha : isAligned req.addr req.size = true) {r : Request} {e : Env Memory}
    (hr : c.env.convertAndTransact (c.dataRequest req) = (.success, r, e)) :
    ∃ w n, c.transact req = .ok
      { done := true, stall := n, req := r,
        core := { c with wpEvent := w, env := e, cycles := c.cycles + n } } := by
  obtain ⟨w, hw⟩ := transact_untranslated req h.dmmu
  have hal : misaligned (c.dataRequest req) = false := by
    unfold misaligned
    rw [show (c.dataRequest req).isAligned = true from ha]
    rfl
  have hx : r.excl = false := by
    obtain ⟨d, n, hd⟩ := Env.convertAndTransact_answers c.env (c.dataRequest req)
    rw [hr] at hd
    rw [show r = _ from hd]
    exact hq.excl
  refine ⟨w, if r.debug then 0 else r.cycles, ?_⟩
  rw [hw, hal, if_neg Bool.false_ne_true]
  unfold send
  rw [show ({ c with wpEvent := w } : Core Memory).env = c.env from rfl, hr]
  dsimp only
  rw [hx, if_neg Bool.false_ne_true]
  unfold complete
  split <;> rfl

theorem Direct.of_rest {d : Core Memory} (h : c.Direct room) (hr : d.rest = c.rest) :
    d.Direct room := by
  have hs : d.status &&& switches = c.status &&& switches := congrArg (fun x => x.2.1) hr
  have hport : d.port = c.port := congrArg (fun x => x.2.2.1) hr
  have hsize := h.port.size
  refine ⟨⟨⟨?_, ?_, ?_, ?_, ?_, ?_, ?_⟩, h.port.pos, h.port.le, ?_, ?_⟩, ?_, ?_, ?_⟩
  · exact (congrArg (·.dataPtr) hport).trans hsize.dataPtr
  · exact (congrArg (·.dataStart) hport).trans hsize.dataStart
  · exact (congrArg (·.dataEnd) hport).trans hsize.dataEnd
  · exact (congrArg (·.insnPtr) hport).trans hsize.insnPtr
  · exact (congrArg (·.insnStart) hport).trans hsize.insnStart
  · exact (congrArg (·.insnEnd) hport).trans hsize.insnEnd
  · exact (congrArg (·.world.dev.size) hport).trans hsize.size
  · exact (congrArg (·.endian) hport).trans h.port.endian
  · exact (congrArg (·.hostEndian) hport).trans h.port.host
  · exact (congrArg (fun x => x.2.2.2.1) hr).trans h.imem
  · exact (congrArg (fun x => x.2.2.2.2.2.1) hr).trans h.endian
  · exact (test_congr (k := switches) (by decide) hs).trans h.dmmu

/-- The request of an access to `n` bytes. -/
theorem plain_memRequest {n : Nat} {addr a x : U32} (h : c.Direct room) (hn : n = 1 ∨ n = 2 ∨ n = 4)
    (ha : a + ci.imm = addr) (hi : inRoom room n addr = true) (read : Bool) :
    Plain room (c.dataRequest (memRequest read false n a x ci c)) ∧
      isAligned (memRequest read false n a x ci c).addr n = true := by
  have hi := of_decide_eq_true hi
  refine ⟨⟨h.imem, rfl, h.endian, hn, ?_, ?_⟩, ?_⟩
  · show (a + ci.imm).toNat + n ≤ room
    rw [ha]
    exact hi.2
  · show ((bytesOf c.env.hostEndian x).take n).length = n
    rw [List.length_take, length_bytesOf]
    omega
  · show isAligned (a + ci.imm) n = true
    rw [ha]
    exact isAligned_of_mod hn hi.1

theorem overlay_prefix (old : List U8) {bs : List U8} {n : Nat} (h : bs.length = n) :
    overlay old bs n = bs ++ old.drop n := by
  unfold overlay
  dsimp only
  rw [h, Nat.min_self, List.take_of_length_le (Nat.le_of_eq h)]

theorem IsReg.exists {op : Operand} (h : op.IsReg) : ∃ i : Fin 32, op = .reg i := by
  cases op with
  | reg i => exact ⟨⟨i, h⟩, rfl⟩
  | null | imm => exact h.elim

theorem view_setGpr_writeBack (i : Fin 32) (req : Request) (y : U32) :
    ((c.writeBack i req).setGpr i y).view = { c.view with gpr := Function.update c.gpr i y } := by
  have hg : ((c.writeBack i req).setGpr i y).gpr = Function.update c.gpr i y :=
    Function.update_idem ..
  unfold view
  rw [hg]
  rfl

theorem writeBack_gpr_self (i : Fin 32) (req : Request) : (c.writeBack i req).gpr i =
    ofBytes c.env.hostEndian (overlay (bytesOf c.env.hostEndian (c.gpr i)) req.data req.size) :=
  Function.update_self ..

section

variable (hci : ci.operands = ops) (h1 : ops.src1.Valid)

include hci h1

/-- An access of a register sends its request. -/
theorem accessMemory_reg {read : Bool} {n : Nat} {post : U32 → U32} {buf : Operand} {i : Fin 32}
    (hb : buf = .reg i) : accessMemory read false n post buf ci c =
      (c.transact (memRequest read false n (c.view.read ops ops.src1) (c.gpr i) ci c)).lift
        (fun t => t.1.writeBack i t.2) fun r =>
          let c := r.core.writeBack i r.req
          (r.stall, if r.done && read then c.setGpr i (post (c.gpr i)) else c) := by
  have hv : c.deref ci (.reg i) = .ok (c.gpr i) := dif_pos i.isLt
  unfold accessMemory
  rw [first_read hci h1, hb, hv]
  simp only [Outcome.widen, Outcome.lift_ok, id_eq, Outcome.ok_bind]
  rw [dif_pos i.isLt]
  rfl

variable (h : c.Direct room)

include h

/-- A load fetches the bytes of a number into the lower bytes of a register, and extends it. -/
theorem load_acts {n : Nat} {signed : Bool} {post : U32 → U32} (hn : n = 1 ∨ n = 2 ∨ n = 4)
    (hp : ∀ x, post x = extend signed (8 * n - 1) x) (hd : ops.dest.IsReg)
    (ha : Kind.act (.load n signed) room c.nextPc ops c.view = some (v, t)) :
    ∃ k d, accessMemory true false n post ci.dest ci c = .ok (k, d) ∧ c.Acts d v t := by
  dsimp only [Kind.act] at ha
  split at ha
  · rename_i hi
    cases ha
    have himm : ci.imm = ops.imm := congrArg Operands.imm hci
    obtain ⟨i, hreg⟩ := IsReg.exists hd
    obtain ⟨hq, hal⟩ := plain_memRequest (x := c.gpr i) h hn (congrArg (_ + ·) himm) hi true
    obtain ⟨m, hm⟩ := hq.read h.port rfl
    obtain ⟨w, k, hk⟩ := transact_direct h hq hal hm
    have hdest : ci.dest = .reg i := (congrArg Operands.dest hci).trans hreg
    rw [accessMemory_reg hci h1 hdest, hk]
    refine ⟨k, _, rfl, .same ?_ rfl⟩
    have hlen : (readBytes c.env.world.mem (c.view.read ops ops.src1 + ci.imm).toNat
        n).reverse.length = n := by
      rw [List.length_reverse, Env.length_readBytes]
    -- the bytes of the old word above those of the number
    have hword : ∀ old : List U8, post (wordLE (overlay old (readBytes c.env.world.mem
        (c.view.read ops ops.src1 + ci.imm).toNat n).reverse n)) =
        extend signed (8 * n - 1) (c.view.loaded (c.view.read ops ops.src1 + ops.imm) n) := by
      intro old
      have hext := @extend_wordLE_append signed _ (old.drop n) (Nat.lt_of_lt_of_eq
        (by omega : 0 < n) hlen.symm)
      rw [hlen] at hext
      rw [hp, overlay_prefix old hlen, hext, himm]
      rfl
    refine (view_setGpr_writeBack _ _ _).trans ?_
    rw [writeBack_gpr_self]
    dsimp only
    rw [h.port.host]
    refine Eq.trans (congrArg (fun y => ({ c.view with gpr := Function.update c.gpr i y } : Data))
      (hword _)) ?_
    rw [hreg]
    unfold Data.write
    dsimp only
    rw [show Fin.ofNat 32 i.val = i from Fin.ext (Nat.mod_eq_of_lt i.isLt)]
    rfl
  · cases ha

/-- A store sends the lower bytes of a register, which keeps its value. -/
theorem store_acts {n : Nat} (hn : n = 1 ∨ n = 2 ∨ n = 4) (h2 : ops.src2.IsReg)
    (ha : Kind.act (.store n) room c.nextPc ops c.view = some (v, t)) :
    ∃ k d, accessMemory false false n id ci.src2 ci c = .ok (k, d) ∧ c.Acts d v t := by
  dsimp only [Kind.act] at ha
  split at ha
  · rename_i hi
    cases ha
    have himm : ci.imm = ops.imm := congrArg Operands.imm hci
    obtain ⟨i, hreg⟩ := IsReg.exists h2
    have hsrc : ci.src2 = .reg i := (congrArg Operands.src2 hci).trans hreg
    obtain ⟨hq, hal⟩ := plain_memRequest (x := c.gpr i) h hn (congrArg (_ + ·) himm) hi false
    obtain ⟨m, hm⟩ := hq.write h.port rfl
    obtain ⟨w, k, hk⟩ := transact_direct h hq hal hm
    rw [accessMemory_reg hci h1 hsrc, hk]
    refine ⟨k, _, rfl, .same ?_ rfl⟩
    have hread : c.view.read ops (.reg i) = c.gpr i :=
      congrArg c.gpr (Fin.ext (Nat.mod_eq_of_lt i.isLt))
    have hsame : ∀ x : Core Memory, x.env.hostEndian = .little → x.gpr = c.gpr → ∀ q : Request,
        q.data = (bytesOf .little (c.gpr i)).take n → q.size = n → (x.writeBack i q).gpr = c.gpr := by
      intro x he hx q hd hs
      have hw : ofBytes .little (overlay (bytesOf .little (c.gpr i))
          ((bytesOf .little (c.gpr i)).take n) n) = c.gpr i := by
        rw [overlay_take, ofBytes_bytesOf]
      unfold writeBack setGpr
      dsimp only
      rw [he, hx, hd, hs, hw, Function.update_eq_self]
    have hbytes : ((bytesOf c.env.hostEndian (c.gpr i)).take n).reverse =
        (bytesOf .big (c.gpr i)).drop (4 - n) := by
      rw [h.port.host]
      exact reverse_take_bytesOf n (c.gpr i)
    have hdata : (bytesOf c.env.hostEndian (c.gpr i)).take n = (bytesOf .little (c.gpr i)).take n := by
      rw [h.port.host]
    have hmem : writeBytes c.env.world.mem (c.view.read ops ops.src1 + ci.imm).toNat
        ((bytesOf c.env.hostEndian (c.gpr i)).take n).reverse =
        (c.view.stored (c.view.read ops ops.src1 + ops.imm) n (c.gpr i)).mem := by
      rw [hbytes, himm]
      rfl
    have hview : ∀ g mem, g = c.gpr →
        mem = (c.view.stored (c.view.read ops ops.src1 + ops.imm) n (c.gpr i)).mem →
        ({ c.view with gpr := g, mem := mem } : Data) =
          c.view.stored (c.view.read ops ops.src1 + ops.imm) n (c.gpr i) := by
      rintro _ _ rfl rfl
      rfl
    rw [hreg, hread]
    exact hview _ _ (hsame _ h.port.host rfl _ hdata rfl) hmem
  · cases ha

end

/-- A load or store does what its kind says. -/
theorem mem_acts {op : Opcode} {k : Kind} {fmt : Format} {f : Fields} {e : MemExec}
    (hk : op.kind = some k) (hf : op.format = some fmt) (he : op.executor = some (.mem e))
    (hci : ci.operands = fmt.operands f) (h : c.Direct room)
    (ha : k.act room c.nextPc (fmt.operands f) c.view = some (v, t)) :
    ∃ n d, c.executeMem e ci = .ok (n, d) ∧ c.Acts d v t := by
  have reg := Operand.isReg_ofField
  have val := fun r => (reg r).valid
  have word : ∀ s x, id x = extend s (8 * 4 - 1) x := fun s x => (extend_word s x).symm
  have half : ∀ x, signExtend32 x 15 = extend true (8 * 2 - 1) x := fun x =>
    (extend_true (n := 15) (by decide) x).symm
  have halfZ : ∀ x : U32, x &&& 0xffff#32 = extend false (8 * 2 - 1) x := fun x =>
    (extend_false_15 x).symm
  have byte : ∀ x, signExtend32 x 7 = extend true (8 * 1 - 1) x := fun x =>
    (extend_true (n := 7) (by decide) x).symm
  have byteZ : ∀ x : U32, x &&& 0xff#32 = extend false (8 * 1 - 1) x := fun x =>
    (extend_false_7 x).symm
  cases op <;> cases he <;> cases hk <;> cases hf
  case orbis32Lwz | orbis32Lws =>
    have hl := load_acts hci (val _) h (.inr (.inr rfl)) (word _) (reg _) ha
    exact hl
  case orbis32Lhz =>
    have hl := load_acts hci (val _) h (.inr (.inl rfl)) halfZ (reg _) ha
    exact hl
  case orbis32Lhs =>
    have hl := load_acts hci (val _) h (.inr (.inl rfl)) half (reg _) ha
    exact hl
  case orbis32Lbz =>
    have hl := load_acts hci (val _) h (.inl rfl) byteZ (reg _) ha
    exact hl
  case orbis32Lbs =>
    have hl := load_acts hci (val _) h (.inl rfl) byte (reg _) ha
    exact hl
  case orbis32Sw => exact store_acts hci (val _) h (.inr (.inr rfl)) (reg _) ha
  case orbis32Sh => exact store_acts hci (val _) h (.inr (.inl rfl)) (reg _) ha
  case orbis32Sb => exact store_acts hci (val _) h (.inl rfl) (reg _) ha

end Core

end Or1kiss
