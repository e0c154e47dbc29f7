import Mathlib.Data.List.GetD
import Or1kiss.DirectPath

/-!
# Transfers of any size

The debugger and the ELF loader hand buffers of any size to `convert_and_transact`. A swap
reaches only `swapReach` of them: 1, 2, 4 and 8 bytes as a whole, the full words of anything
else. `Stores` is what a port promises about a range of memory; under it a write, a read and
a write in pieces of a word are described by the bytes that the port is handed (`handed`).
-/

namespace Or1kiss

open Host Bits

variable {σ : Type}

/-! ## Swapping -/

/-- How many bytes of a buffer `memcpyswp` copies. -/
def swapReach (size : Nat) : Nat :=
  if size = 1 ∨ size = 2 ∨ size = 4 ∨ size = 8 then size else 4 * (size / 4)

theorem swapReach_le (size : Nat) : swapReach size ≤ size := by
  unfold swapReach
  split <;> omega

theorem swapReach_eq_iff (size : Nat) : swapReach size = size ↔ size ≤ 2 ∨ size % 4 = 0 := by
  unfold swapReach
  split <;> omega

theorem swapWords_eq (n : Nat) (dst src : List U8) :
    swapWords n dst src = swapWords n [] src ++ dst.drop (4 * n) := by
  induction n generalizing dst src with
  | zero => rfl
  | succ n ih =>
    show (src.take 4).reverse ++ swapWords n (dst.drop 4) (src.drop 4) =
      (src.take 4).reverse ++ swapWords n ([].drop 4) (src.drop 4) ++ dst.drop (4 * (n + 1))
    rw [ih (dst.drop 4), List.drop_nil, List.drop_drop, List.append_assoc]
    congr 3
    omega

theorem length_swapWords {n : Nat} {src : List U8} (h : 4 * n ≤ src.length) :
    (swapWords n [] src).length = 4 * n := by
  induction n generalizing src with
  | zero => rfl
  | succ n ih =>
    have hd : 4 * n ≤ (src.drop 4).length := by
      rw [List.length_drop]
      omega
    show ((src.take 4).reverse ++ swapWords n ([].drop 4) (src.drop 4)).length = _
    rw [List.drop_nil, List.length_append, ih hd, List.length_reverse, List.length_take]
    omega

/-- Words swapped twice. -/
theorem swapWords_swapWords {n : Nat} {tmp src : List U8} (h : 4 * n ≤ src.length) :
    swapWords n [] (swapWords n tmp src) = src.take (4 * n) := by
  induction n generalizing tmp src with
  | zero => rfl
  | succ n ih =>
    have hd : 4 * n ≤ (src.drop 4).length := by
      rw [List.length_drop]
      omega
    have h4 : (src.take 4).reverse.length = 4 := by
      rw [List.length_reverse, List.length_take]
      omega
    show (((src.take 4).reverse ++ swapWords n (tmp.drop 4) (src.drop 4)).take 4).reverse ++
      swapWords n ([].drop 4)
        (((src.take 4).reverse ++ swapWords n (tmp.drop 4) (src.drop 4)).drop 4) = _
    rw [List.take_left' h4, List.drop_left' h4, List.reverse_reverse, List.drop_nil, ih hd,
      show 4 * (n + 1) = 4 + 4 * n by omega, List.take_add]

theorem length_memcpyswp {dst src : List U8} {n : Nat} (hd : dst.length = n) (hs : src.length = n) :
    (memcpyswp dst src n).length = n := by
  unfold memcpyswp
  split
  · rw [List.length_append, List.length_reverse, List.length_take, List.length_drop]
    omega
  · rw [swapWords_eq, List.length_append, length_swapWords (by omega), List.length_drop]
    omega

/-- Swapped into a buffer and back into another, whose bytes out of reach stay. -/
theorem memcpyswp_back {org tmp src : List U8} {n : Nat} (hs : src.length = n) :
    memcpyswp org (memcpyswp tmp src n) n = src.take (swapReach n) ++ org.drop (swapReach n) := by
  unfold swapReach
  by_cases h : n = 1 ∨ n = 2 ∨ n = 4 ∨ n = 8
  · have hr : (src.take n).reverse.length = n := by
      rw [List.length_reverse, List.length_take]
      omega
    unfold memcpyswp
    rw [if_pos h, if_pos h, if_pos h, List.take_left' hr, List.reverse_reverse]
  · unfold memcpyswp
    rw [if_neg h, if_neg h, if_neg h, swapWords_eq, swapWords_swapWords (by omega)]

theorem memcpyswp_words {tmp src : List U8} {n : Nat} (hn : n % 4 = 0) (h8 : n ≠ 8)
    (ht : tmp.length = n) (hs : src.length = n) : memcpyswp tmp src n = swapWords (n / 4) [] src := by
  have hd : tmp.drop n = [] := List.drop_of_length_le (by omega)
  unfold memcpyswp
  split
  · have h4 : n = 4 := by omega
    subst h4
    rw [hd]
    rfl
  · rw [swapWords_eq, show 4 * (n / 4) = n by omega, hd, List.append_nil]

theorem readBytes_writeBytes_self (mem : Nat → U8) (p : Nat) (bs : List U8) :
    readBytes (writeBytes mem p bs) p bs.length = bs := by
  refine List.ext_getElem (Env.length_readBytes _ _ _) fun i hi hi' => ?_
  simp only [readBytes, List.getElem_map, List.getElem_range]
  unfold writeBytes
  rw [if_pos ⟨by omega, by omega⟩, List.getD_eq_getElem _ _ (by omega)]
  congr 1
  omega

/-- Two writes side by side are one. -/
theorem writeBytes_writeBytes (mem : Nat → U8) (p : Nat) (xs ys : List U8) (i : Nat) :
    writeBytes (writeBytes mem p xs) (p + xs.length) ys i = writeBytes mem p (xs ++ ys) i := by
  unfold writeBytes
  rw [List.length_append]
  by_cases hy : p + xs.length ≤ i ∧ i < p + xs.length + ys.length
  · rw [if_pos hy, if_pos (by omega), List.getD_append_right _ _ _ _ (by omega)]
    congr 1
    omega
  · rw [if_neg hy]
    by_cases hx : p ≤ i ∧ i < p + xs.length
    · rw [if_pos hx, if_pos (by omega), List.getD_append _ _ _ _ (by omega)]
    · rw [if_neg hx, if_neg (by omega)]

/-- No buffer is its own complement from a byte on. -/
theorem take_append_not_ne {bs : List U8} {r : Nat} (h : r < bs.length) :
    bs.take r ++ (bs.map (~~~ ·)).drop r ≠ bs := by
  intro he
  have hr : r < (bs.map (~~~ ·)).length := by rwa [List.length_map]
  have hd : (bs.map (~~~ ·)).drop r = bs.drop r :=
    List.append_cancel_left (he.trans (List.take_append_drop r bs).symm)
  rw [List.drop_eq_getElem_cons h, List.drop_eq_getElem_cons hr, List.getElem_map] at hd
  have hbit := congrArg (·.getLsbD 0) (List.cons.inj hd).1
  simp at hbit

/-! ## Ports that store -/

/-- A request for `req.size` bytes of a range of `n`, from its offset `k` on. -/
structure Request.Within (req : Request) (imem : Bool) (addr : U32) (n k : Nat) : Prop where
  imem : req.imem = imem
  excl : req.excl = false
  addr : req.addr = addr + BitVec.ofNat 32 k
  fits : k + req.size ≤ n

theorem Request.Within.swapped {e : Env σ} {req : Request} {imem : Bool} {addr : U32} {n k : Nat}
    (hr : req.Within imem addr n k) : (e.swapped req).Within imem addr n k :=
  ⟨hr.imem, hr.excl, hr.addr, hr.fits⟩

namespace Env

/-- The port stores bytes in a range: what `transact` writes is there to be read, and a direct
pointer designates the same bytes. -/
structure Stores [EnvImpl σ] (e : Env σ) (byteAt : World σ → Nat → U8) (imem : Bool) (addr : U32)
    (n : Nat) : Prop where
  write : ∀ (req : Request) (w : World σ) (k : Nat), req.Within imem addr n k → req.read = false →
    req.endian = e.endian → req.data.length = req.size → (EnvImpl.transact req w).resp = .success →
    (EnvImpl.transact req w).data = req.data ∧
      ∀ i < n, byteAt (EnvImpl.transact req w).world i = writeBytes (byteAt w) k req.data i
  read : ∀ (req : Request) (w : World σ) (k : Nat), req.Within imem addr n k → req.read = true →
    req.endian = e.endian → req.data.length = req.size → (EnvImpl.transact req w).resp = .success →
    (EnvImpl.transact req w).data = readBytes (byteAt w) k req.size ∧
      ∀ i < n, byteAt (EnvImpl.transact req w).world i = byteAt w i
  pointer : ∀ (req : Request) (k p : Nat), req.Within imem addr n k →
    (e.directMemoryPtr req).1 = some p → ∀ w : World σ,
    readBytes w.mem p req.size = readBytes (byteAt w) k req.size ∧
      ∀ bs : List U8, bs.length = req.size → ∀ i < n,
        byteAt { w with mem := writeBytes w.mem p bs } i = writeBytes (byteAt w) k bs i

/-- The bytes that the port is handed for the request. -/
def handed (e : Env σ) (req : Request) : List U8 :=
  if req.size > 1 ∧ req.endian ≠ e.endian then (e.swapped req).data else req.data

/-- Fresh host memory has the length that was asked for. -/
def Allocates (e : Env σ) : Prop := ∀ n, (e.garbage n).length = n

variable {e t : Env σ} {byteAt : World σ → Nat → U8} {imem : Bool} {addr : U32} {n k : Nat}
  {req : Request}

theorem Served.endian (h : Served e t) : t.endian = e.endian := by
  obtain ⟨_, _, _, rfl⟩ := h
  rfl

theorem Served.handed (h : Served e t) (req : Request) : t.handed req = e.handed req := by
  obtain ⟨_, _, _, rfl⟩ := h
  rfl

theorem Served.allocates (h : Served e t) (ha : e.Allocates) : t.Allocates := by
  obtain ⟨_, _, _, rfl⟩ := h
  exact ha

theorem Allocates.length_buffer (ha : e.Allocates) (n : Nat) :
    (if n > 8 then e.garbage n else List.replicate n 0#8).length = n := by
  split
  · exact ha n
  · exact List.length_replicate

theorem length_handed (ha : e.Allocates) (hl : req.data.length = req.size) :
    (e.handed req).length = req.size := by
  unfold handed
  split
  · exact length_memcpyswp (ha.length_buffer req.size) hl
  · exact hl

variable [EnvImpl σ]

theorem Served.stores (h : Served e t) (hs : e.Stores byteAt imem addr n) :
    t.Stores byteAt imem addr n := by
  obtain ⟨_, _, _, rfl⟩ := h
  exact ⟨hs.write, hs.read, hs.pointer⟩

/-- The direct pointer always answers. -/
theorem convertAndTransact_pointer {p : Nat} (hx : req.excl = false)
    (hp : (e.directMemoryPtr req).1 = some p) : (e.convertAndTransact req).1 = .success := by
  by_cases h : req.size > 1 ∧ req.endian ≠ e.endian
  · rw [convertAndTransact_swapped h]
    have hps : (e.directMemoryPtr (e.swapped req)).1 = some p :=
      (directMemoryPtr_withData e req _).trans hp
    have hxs : (e.swapped req).excl = false := hx
    exact (access_copies hxs hps).1
  · rw [convertAndTransact_direct h]
    exact (access_copies hx hp).1

/-- Without a direct pointer the access is a call of `transact`. -/
theorem access_transact (hp : (e.directMemoryPtr req).1 = none) : ∃ c,
    let r := EnvImpl.transact { req with cycles := c, endian := e.endian } e.world
    e.access req = (r.resp, { req with data := r.data, cycles := r.cycles },
      { e with world := r.world }) := by
  obtain ⟨d, c, hans⟩ := directMemoryPtr_answers e req
  have hdata := directMemoryPtr_data e req
  refine ⟨c, ?_⟩
  unfold access
  generalize e.directMemoryPtr req = q at hp hans hdata
  obtain ⟨o, q⟩ := q
  dsimp only at hp hans hdata
  subst hp hans
  dsimp only at hdata
  subst hdata
  rfl

theorem access_write (hs : e.Stores byteAt imem addr n) (hr : req.Within imem addr n k)
    (hw : req.read = false) (hl : req.data.length = req.size) (ok : (e.access req).1 = .success) :
    (e.access req).2.1.data = req.data ∧
      ∀ i < n, byteAt (e.access req).2.2.world i = writeBytes (byteAt e.world) k req.data i := by
  cases hp : (e.directMemoryPtr req).1 with
  | some p =>
    obtain ⟨-, hd, hm⟩ := access_copies hr.excl hp
    rw [hw, if_neg Bool.false_ne_true] at hd hm
    rw [List.take_of_length_le (Nat.le_of_eq hl)] at hm
    refine ⟨hd, ?_⟩
    rw [hm]
    exact (hs.pointer req k p hr hp e.world).2 req.data hl
  | none =>
    obtain ⟨c, hc⟩ := access_transact hp
    rw [hc] at ok ⊢
    exact hs.write _ e.world k ⟨hr.imem, hr.excl, hr.addr, hr.fits⟩ hw rfl hl ok

theorem access_read (hs : e.Stores byteAt imem addr n) (hr : req.Within imem addr n k)
    (hw : req.read = true) (hl : req.data.length = req.size) (ok : (e.access req).1 = .success) :
    (e.access req).2.1.data = readBytes (byteAt e.world) k req.size := by
  cases hp : (e.directMemoryPtr req).1 with
  | some p =>
    obtain ⟨-, hd, -⟩ := access_copies hr.excl hp
    rw [hd, if_pos hw]
    exact (hs.pointer req k p hr hp e.world).1
  | none =>
    obtain ⟨c, hc⟩ := access_transact hp
    rw [hc] at ok ⊢
    exact (hs.read { req with cycles := c, endian := e.endian } e.world k
      ⟨hr.imem, hr.excl, hr.addr, hr.fits⟩ hw rfl hl ok).1

/-- A write stores the bytes that the port is handed and leaves the caller's buffer alone. -/
theorem convertAndTransact_write (hs : e.Stores byteAt imem addr n) (ha : e.Allocates)
    (hr : req.Within imem addr n k) (hw : req.read = false) (hl : req.data.length = req.size)
    (ok : (e.convertAndTransact req).1 = .success) :
    (e.convertAndTransact req).2.1.data = req.data ∧
      ∀ i < n, byteAt (e.convertAndTransact req).2.2.world i =
        writeBytes (byteAt e.world) k (e.handed req) i := by
  have hlen := length_handed ha hl
  unfold handed at hlen ⊢
  by_cases h : req.size > 1 ∧ req.endian ≠ e.endian
  · rw [if_pos h] at hlen ⊢
    rw [convertAndTransact_swapped h] at ok ⊢
    obtain ⟨hd, hb⟩ := access_write hs hr.swapped hw hlen ok
    refine ⟨?_, hb⟩
    show memcpyswp req.data (e.access (e.swapped req)).2.1.data req.size = req.data
    rw [hd]
    exact (memcpyswp_back hl).trans (List.take_append_drop _ _)
  · rw [if_neg h] at hlen ⊢
    rw [convertAndTransact_direct h] at ok ⊢
    exact access_write hs hr hw hl ok

/-- A read of the whole range. -/
theorem convertAndTransact_read (hs : e.Stores byteAt imem addr n) (ha : e.Allocates)
    (hr : req.Within imem addr n k) (hw : req.read = true) (hl : req.data.length = req.size)
    (ok : (e.convertAndTransact req).1 = .success) :
    (e.convertAndTransact req).2.1.data =
      if req.size > 1 ∧ req.endian ≠ e.endian then
        memcpyswp req.data (readBytes (byteAt e.world) k req.size) req.size
      else readBytes (byteAt e.world) k req.size := by
  by_cases h : req.size > 1 ∧ req.endian ≠ e.endian
  · rw [if_pos h]
    rw [convertAndTransact_swapped h] at ok ⊢
    have hlen : (e.swapped req).data.length = req.size := by
      have hh := length_handed ha hl
      unfold handed at hh
      rwa [if_pos h] at hh
    exact congrArg (memcpyswp req.data · req.size) (access_read hs hr.swapped hw hlen ok)
  · rw [if_neg h]
    rw [convertAndTransact_direct h] at ok ⊢
    exact access_read hs hr hw hl ok

end Env

namespace Memory

variable {size n : Nat} {addr : U32} {e : Env Memory} {req : Request}

theorem Within.toNat_addr {imem : Bool} {k : Nat} (hn : addr.toNat + n ≤ 2 ^ 32)
    (hr : req.Within imem addr n k) (h0 : req.size ≠ 0) : req.addr.toNat = addr.toNat + k := by
  have hf := hr.fits
  rw [hr.addr, BitVec.toNat_add, BitVec.toNat_ofNat]
  omega

theorem readBytes_shift (mem : Nat → U8) (p k n : Nat) :
    readBytes mem (p + k) n = readBytes (fun i => mem (p + i)) k n := by
  unfold readBytes
  apply List.map_congr_left
  intro i _
  rw [Nat.add_assoc]

theorem writeBytes_shift (mem : Nat → U8) (p k i : Nat) (bs : List U8) :
    writeBytes mem (p + k) bs (p + i) = writeBytes (fun i => mem (p + i)) k bs i := by
  unfold writeBytes
  rw [show p + i - (p + k) = i - k by omega]
  refine if_congr ?_ rfl rfl
  omega

theorem Within.readBytes {imem : Bool} {k : Nat} (hn : addr.toNat + n ≤ 2 ^ 32)
    (hr : req.Within imem addr n k) (mem : Nat → U8) : Or1kiss.readBytes mem req.addr.toNat req.size =
      Or1kiss.readBytes (fun i => mem (addr.toNat + i)) k req.size := by
  by_cases h0 : req.size = 0
  · rw [h0]
    rfl
  · rw [Within.toNat_addr hn hr h0]
    exact readBytes_shift _ _ _ _

theorem Within.writeBytes {imem : Bool} {k : Nat} (hn : addr.toNat + n ≤ 2 ^ 32)
    (hr : req.Within imem addr n k) (mem : Nat → U8) {bs : List U8} (hl : bs.length = req.size)
    (i : Nat) : Or1kiss.writeBytes mem req.addr.toNat bs (addr.toNat + i) =
      Or1kiss.writeBytes (fun i => mem (addr.toNat + i)) k bs i := by
  by_cases h0 : req.size = 0
  · rw [writeBytes_of_not_mem (by omega), writeBytes_of_not_mem (by omega)]
  · rw [Within.toNat_addr hn hr h0]
    exact writeBytes_shift _ _ _ _ _

/-- The simulator's memory stores the bytes of every range that does not wrap. -/
theorem stores (h : OfSize size e) (imem : Bool) (hn : addr.toNat + n ≤ 2 ^ 32) :
    e.Stores (fun w i => w.mem (addr.toNat + i)) imem addr n := by
  constructor
  · intro req w k hr hw _ hl ok
    simp only [EnvImpl.transact, transact, hw] at ok ⊢
    split at ok
    · cases ok
    · rename_i hs
      rw [if_neg hs, if_neg Bool.false_ne_true]
      refine ⟨rfl, fun i _ => ?_⟩
      rw [List.take_of_length_le (Nat.le_of_eq hl)]
      exact Within.writeBytes hn hr w.mem hl i
  · intro req w k hr hw _ _ ok
    simp only [EnvImpl.transact, transact, hw] at ok ⊢
    split at ok
    · cases ok
    · rename_i hs
      rw [if_neg hs]
      exact ⟨Within.readBytes hn hr w.mem, fun i _ => rfl⟩
  · intro req k p hr hp w
    rw [h.directMemoryPtr] at hp
    split at hp
    · cases hp
      exact ⟨Within.readBytes hn hr w.mem, fun bs hl i _ => Within.writeBytes hn hr w.mem hl i⟩
    · cases hp

end Memory

/-! ## Writes in pieces of a word -/

namespace Request

/-- `q` reads the bytes that `req` is for, into a buffer of its own. -/
structure ReadBy (req q : Request) : Prop where
  read : q.read = true
  excl : q.excl = false
  imem : q.imem = req.imem
  addr : q.addr = req.addr
  size : q.size = req.size
  endian : q.endian = req.endian
  length : q.data.length = req.size

/-- The first word of a buffer, or all of a shorter one. -/
def firstPiece (req : Request) : Request :=
  { req with data := req.data.take 4, size := min req.size 4 }

def otherPieces (req : Request) : Request :=
  { req with addr := req.addr + BitVec.ofNat 32 (min req.size 4), data := req.data.drop 4,
             size := req.size - 4 }

variable {req : Request} {imem : Bool} {addr : U32} {n k : Nat}

theorem length_firstPiece (hl : req.data.length = req.size) :
    req.firstPiece.data.length = req.firstPiece.size := by
  show (req.data.take 4).length = min req.size 4
  rw [List.length_take, hl, Nat.min_comm]

theorem length_otherPieces (hl : req.data.length = req.size) :
    req.otherPieces.data.length = req.otherPieces.size := by
  show (req.data.drop 4).length = req.size - 4
  rw [List.length_drop, hl]

theorem Within.firstPiece (hr : req.Within imem addr n k) :
    req.firstPiece.Within imem addr n k := by
  refine ⟨hr.imem, hr.excl, hr.addr, ?_⟩
  have hf := hr.fits
  show k + min req.size 4 ≤ n
  omega

theorem Within.otherPieces (hr : req.Within imem addr n k) :
    req.otherPieces.Within imem addr n (k + min req.size 4) := by
  refine ⟨hr.imem, hr.excl, ?_, ?_⟩
  · show req.addr + BitVec.ofNat 32 (min req.size 4) = _
    rw [hr.addr, BitVec.ofNat_add, BitVec.add_assoc]
  · have hf := hr.fits
    show k + min req.size 4 + (req.size - 4) ≤ n
    omega

theorem firstPiece_eq_self (hl : req.data.length = req.size) (h4 : req.size ≤ 4) :
    req.firstPiece = req := by
  unfold Request.firstPiece
  rw [List.take_of_length_le (by omega), Nat.min_eq_left h4]

end Request

namespace Env

/-- The bytes that the port is handed over the pieces. -/
def handedPieces (e : Env σ) : Nat → Request → List U8
  | 0, _ => []
  | pieces + 1, req => e.handed req.firstPiece ++ e.handedPieces pieces req.otherPieces

variable {e t : Env σ} {byteAt : World σ → Nat → U8} {imem : Bool} {addr : U32} {n k pieces : Nat}
  {req q : Request}

theorem Served.handedPieces (h : Served e t) (pieces : Nat) (req : Request) :
    t.handedPieces pieces req = e.handedPieces pieces req := by
  obtain ⟨_, _, _, rfl⟩ := h
  induction pieces generalizing req with
  | zero => rfl
  | succ pieces ih => exact congrArg (_ ++ ·) (ih req.otherPieces)

theorem length_handedPieces (ha : e.Allocates) (hl : req.data.length = req.size)
    (hp : req.size ≤ 4 * pieces) : (e.handedPieces pieces req).length = req.size := by
  induction pieces generalizing req with
  | zero =>
    show 0 = req.size
    omega
  | succ pieces ih =>
    have hrest : req.otherPieces.size ≤ 4 * pieces := by
      show req.size - 4 ≤ 4 * pieces
      omega
    show (e.handed req.firstPiece ++ e.handedPieces pieces req.otherPieces).length = req.size
    rw [List.length_append, length_handed ha (Request.length_firstPiece hl),
      ih (Request.length_otherPieces hl) hrest]
    show min req.size 4 + (req.size - 4) = req.size
    omega

/-- Without a conversion the pieces are the buffer. -/
theorem handedPieces_same (he : req.endian = e.endian) (hl : req.data.length = req.size)
    (hp : req.size ≤ 4 * pieces) : e.handedPieces pieces req = req.data := by
  induction pieces generalizing req with
  | zero =>
    show [] = req.data
    exact (List.length_eq_zero_iff.1 (by omega)).symm
  | succ pieces ih =>
    have hrest : req.otherPieces.size ≤ 4 * pieces := by
      show req.size - 4 ≤ 4 * pieces
      omega
    have hfirst : e.handed req.firstPiece = req.data.take 4 := if_neg fun h => h.2 he
    show e.handed req.firstPiece ++ e.handedPieces pieces req.otherPieces = req.data
    have he' : req.otherPieces.endian = e.endian := he
    rw [hfirst, ih he' (Request.length_otherPieces hl) hrest]
    exact List.take_append_drop 4 req.data

/-- With a conversion the pieces are the words, each reversed. -/
theorem handedPieces_swapped (he : req.endian ≠ e.endian) (hl : req.data.length = req.size)
    (hp : req.size = 4 * pieces) : e.handedPieces pieces req = swapWords pieces [] req.data := by
  induction pieces generalizing req with
  | zero => rfl
  | succ pieces ih =>
    have hrest : req.otherPieces.size = 4 * pieces := by
      show req.size - 4 = 4 * pieces
      omega
    have hsize : req.firstPiece.size = 4 := by
      show min req.size 4 = 4
      omega
    have hfirst : e.handed req.firstPiece = (req.data.take 4).reverse := by
      unfold handed swapped
      rw [if_pos ⟨by omega, he⟩, hsize]
      exact memcpyswp_word List.length_replicate ((Request.length_firstPiece hl).trans hsize)
    show e.handed req.firstPiece ++ e.handedPieces pieces req.otherPieces =
      (req.data.take 4).reverse ++ swapWords pieces ([].drop 4) (req.data.drop 4)
    have he' : req.otherPieces.endian ≠ e.endian := he
    rw [hfirst, ih he' (Request.length_otherPieces hl) hrest, List.drop_nil]
    rfl

/-- Eight bytes are reversed as a whole, any other number of words word by word. -/
theorem handed_eq_handedPieces_iff (ha : e.Allocates) (hl : req.data.length = req.size)
    (he : req.endian ≠ e.endian) (hn : req.size % 4 = 0) :
    e.handed req = e.handedPieces (req.size / 4) req ↔
      (req.size = 8 → req.data.take 4 = req.data.drop 4) := by
  rw [handedPieces_swapped he hl (by omega)]
  by_cases h0 : req.size = 0
  · have hd : req.data = [] := List.length_eq_zero_iff.1 (hl.trans h0)
    have hh : e.handed req = req.data := if_neg fun h => by omega
    rw [hh, hd, h0]
    exact iff_of_true rfl nofun
  have hh : e.handed req = (e.swapped req).data := if_pos ⟨by omega, he⟩
  rw [hh]
  unfold swapped
  dsimp only
  by_cases h8 : req.size = 8
  · have ht : (req.data.take 4).length = (req.data.drop 4).length := by
      rw [List.length_take, List.length_drop]
      omega
    have hwhole : memcpyswp (List.replicate 8 0#8) req.data 8 =
        (req.data.drop 4).reverse ++ (req.data.take 4).reverse := by
      rw [← List.reverse_append, List.take_append_drop]
      unfold memcpyswp
      rw [if_pos (by decide), List.take_of_length_le (by omega)]
      exact List.append_nil _
    have hwords : swapWords 2 [] req.data =
        (req.data.take 4).reverse ++ (req.data.drop 4).reverse := by
      have h4 : (req.data.drop 4).take 4 = req.data.drop 4 := by
        refine List.take_of_length_le ?_
        rw [List.length_drop]
        omega
      show (req.data.take 4).reverse ++ (((req.data.drop 4).take 4).reverse ++ []) = _
      rw [h4, List.append_nil]
    rw [h8, if_neg (by decide), hwhole, hwords]
    constructor
    · intro h _
      have hj := List.append_inj_left h (by rw [List.length_reverse, List.length_reverse, ht])
      exact (List.reverse_inj.1 hj).symm
    · intro h
      rw [h rfl]
  · rw [memcpyswp_words hn h8 (ha.length_buffer req.size) hl]
    exact iff_of_true rfl fun h => (h8 h).elim

/-- One piece is the whole of a short buffer. -/
theorem handedPieces_short (ha : e.Allocates) (hl : req.data.length = req.size)
    (h2 : req.size ≤ 2) : e.handed req = e.handedPieces ((req.size + 3) / 4) req := by
  by_cases h0 : req.size = 0
  · have hh : (e.handed req).length = 0 := (length_handed ha hl).trans h0
    rw [h0]
    exact List.length_eq_zero_iff.1 hh
  · rw [show (req.size + 3) / 4 = 1 by omega]
    show e.handed req = e.handed req.firstPiece ++ []
    rw [Request.firstPiece_eq_self hl (by omega), List.append_nil]

theorem directMemoryPtr_readBy (hq : req.ReadBy q) (h : Served e t) :
    (t.directMemoryPtr q).1 = (e.directMemoryPtr req).1 := by
  obtain ⟨_, _, _, rfl⟩ := h
  unfold directMemoryPtr
  rw [hq.imem, hq.addr]
  split <;> rfl

/-- The bytes that a write of the whole range leaves. -/
theorem readBytes_of_write (ha : e.Allocates) (hl : req.data.length = req.size)
    (h : ∀ i < req.size, byteAt t.world i = writeBytes (byteAt e.world) 0 (e.handed req) i) :
    readBytes (byteAt t.world) 0 req.size = e.handed req := by
  have hlen := length_handed ha hl
  calc readBytes (byteAt t.world) 0 req.size
      = readBytes (writeBytes (byteAt e.world) 0 (e.handed req)) 0 req.size :=
        readBytes_congr fun b _ hb => h b (by omega)
    _ = e.handed req := by
        rw [← hlen]
        exact readBytes_writeBytes_self _ _ _

variable [EnvImpl σ]

/-- Write `pieces` words of a buffer, one after the other; nothing unless all of them succeed. -/
def writePieces (e : Env σ) : Nat → Request → Option (Env σ)
  | 0, _ => some e
  | pieces + 1, req =>
    match e.convertAndTransact req.firstPiece with
    | (.success, _, e) => e.writePieces pieces req.otherPieces
    | _ => none

/-- What the pieces store, one piece at a time. -/
theorem writePieces_stores (hs : e.Stores byteAt imem addr n) (ha : e.Allocates)
    (hr : req.Within imem addr n k) (hw : req.read = false) (hl : req.data.length = req.size)
    (h : e.writePieces pieces req = some t) :
    ∀ i < n, byteAt t.world i = writeBytes (byteAt e.world) k (e.handedPieces pieces req) i := by
  induction pieces generalizing e k req with
  | zero =>
    cases h
    intro i _
    exact (writeBytes_of_not_mem (by simp [handedPieces])).symm
  | succ pieces ih =>
    unfold writePieces at h
    split at h
    · rename_i r e₁ hc
      have hl₁ := Request.length_firstPiece hl
      have hserved : Served e e₁ := by
        have hsv : Served e _ := convertAndTransact_served req.firstPiece
        rwa [hc] at hsv
      obtain ⟨-, hfirst⟩ := convertAndTransact_write hs ha hr.firstPiece hw hl₁ (by rw [hc])
      rw [hc] at hfirst
      have hlen : (e.handed req.firstPiece).length = min req.size 4 := length_handed ha hl₁
      have hrest := ih (hserved.stores hs) (hserved.allocates ha) hr.otherPieces hw
        (Request.length_otherPieces hl) h
      intro i hi
      rw [hrest i hi, writeBytes_congr (hfirst i hi), hserved.handedPieces, ← hlen,
        writeBytes_writeBytes]
      rfl
    · cases h

/-! ## The transfer of a buffer -/

/-- Where a direct pointer serves the write, the reads are answered. -/
theorem reads_answered {p : Nat} (hp : (e.directMemoryPtr req).1 = some p) (hq : req.ReadBy q) :
    ((e.convertAndTransact req).2.2.convertAndTransact q).1 = .success :=
  convertAndTransact_pointer hq.excl
    ((directMemoryPtr_readBy hq (convertAndTransact_served req)).trans hp)

/-- The bytes out of reach of the swap keep what was in the buffer before the read. -/
theorem read_back (hs : e.Stores byteAt imem addr req.size) (ha : e.Allocates)
    (hr : req.Within imem addr req.size 0) (hw : req.read = false)
    (hl : req.data.length = req.size) (ok : (e.convertAndTransact req).1 = .success)
    (hq : req.ReadBy q)
    (okq : ((e.convertAndTransact req).2.2.convertAndTransact q).1 = .success) :
    ((e.convertAndTransact req).2.2.convertAndTransact q).2.1.data =
      if req.size > 1 ∧ req.endian ≠ e.endian then
        req.data.take (swapReach req.size) ++ q.data.drop (swapReach req.size)
      else req.data := by
  have hserved : Served e _ := convertAndTransact_served req
  have hb := readBytes_of_write ha hl (convertAndTransact_write hs ha hr hw hl ok).2
  have hq0 : q.Within imem addr req.size 0 :=
    ⟨hq.imem.trans hr.imem, hq.excl, hq.addr.trans hr.addr, by rw [hq.size]; exact hr.fits⟩
  rw [convertAndTransact_read (hserved.stores hs) (hserved.allocates ha) hq0 hq.read
    (hq.length.trans hq.size.symm) okq, hserved.endian, hq.endian, hq.size, hb]
  unfold handed
  by_cases h : req.size > 1 ∧ req.endian ≠ e.endian
  · rw [if_pos h, if_pos h, if_pos h]
    exact memcpyswp_back hl
  · rw [if_neg h, if_neg h, if_neg h]

theorem stores_alike_iff (hs : e.Stores byteAt imem addr req.size) (ha : e.Allocates)
    (hr : req.Within imem addr req.size 0) (hw : req.read = false)
    (hl : req.data.length = req.size) (ok : (e.convertAndTransact req).1 = .success)
    (hp : req.size ≤ 4 * pieces) (ht : e.writePieces pieces req = some t) :
    (∀ i < req.size, byteAt (e.convertAndTransact req).2.2.world i = byteAt t.world i) ↔
      e.handed req = e.handedPieces pieces req := by
  have hone := (convertAndTransact_write hs ha hr hw hl ok).2
  have hmany := writePieces_stores hs ha hr hw hl ht
  constructor
  · intro h
    have hlen := length_handedPieces ha hl hp
    calc e.handed req
        = readBytes (byteAt (e.convertAndTransact req).2.2.world) 0 req.size :=
          (readBytes_of_write ha hl hone).symm
      _ = readBytes (writeBytes (byteAt e.world) 0 (e.handedPieces pieces req)) 0 req.size :=
          readBytes_congr fun b _ hb => (h b (by omega)).trans (hmany b (by omega))
      _ = e.handedPieces pieces req := by
          rw [← hlen]
          exact readBytes_writeBytes_self _ _ _
  · intro h i hi
    rw [hone i hi, hmany i hi, h]

/-- What the debugger expects of a write: the bytes can be read back into any buffer, its own
buffer stays, and a write in pieces (which leaves `t`) stores the same. -/
structure Transfers (e : Env σ) (byteAt : World σ → Nat → U8) (req : Request) (t : Env σ) :
    Prop where
  readBack : ∀ q, req.ReadBy q →
    ((e.convertAndTransact req).2.2.convertAndTransact q).2.1.data = req.data
  kept : (e.convertAndTransact req).2.1.data = req.data
  pieces : ∀ i < req.size,
    byteAt (e.convertAndTransact req).2.2.world i = byteAt t.world i

/-- A transfer works if nothing is to be converted, or if the swap reaches the whole buffer and
does not take two words for one. -/
theorem transfers_iff (hs : e.Stores byteAt req.imem req.addr req.size) (ha : e.Allocates)
    (hx : req.excl = false) (hw : req.read = false) (hl : req.data.length = req.size)
    (ok : (e.convertAndTransact req).1 = .success)
    (okq : ∀ q, req.ReadBy q →
      ((e.convertAndTransact req).2.2.convertAndTransact q).1 = .success)
    (ht : e.writePieces ((req.size + 3) / 4) req = some t) :
    e.Transfers byteAt req t ↔ req.endian = e.endian ∨ req.size ≤ 2 ∨
      (req.size % 4 = 0 ∧ (req.size = 8 → req.data.take 4 = req.data.drop 4)) := by
  have hr : req.Within req.imem req.addr req.size 0 :=
    ⟨rfl, hx, (BitVec.add_zero req.addr).symm, by omega⟩
  have hback := fun q hq => read_back (q := q) hs ha hr hw hl ok hq (okq q hq)
  have hkept := (convertAndTransact_write hs ha hr hw hl ok).1
  have halike := stores_alike_iff hs ha hr hw hl ok (by omega) ht
  by_cases he : req.endian = e.endian
  · refine iff_of_true ⟨fun q hq => ?_, hkept, halike.2 ?_⟩ (.inl he)
    · rw [hback q hq, if_neg fun h => h.2 he]
    · rw [handedPieces_same he hl (by omega)]
      exact if_neg fun h => h.2 he
  by_cases hreach : swapReach req.size = req.size
  · have hread : ∀ q, req.ReadBy q →
        ((e.convertAndTransact req).2.2.convertAndTransact q).2.1.data = req.data := by
      intro q hq
      rw [hback q hq, hreach, List.take_of_length_le (by omega),
        List.drop_of_length_le (Nat.le_of_eq hq.length), List.append_nil, ite_self]
    have hpieces : e.Transfers byteAt req t ↔
        e.handed req = e.handedPieces ((req.size + 3) / 4) req :=
      ⟨fun h => halike.1 h.pieces, fun h => ⟨hread, hkept, halike.2 h⟩⟩
    rw [hpieces]
    by_cases h2 : req.size ≤ 2
    · exact iff_of_true (handedPieces_short ha hl h2) (.inr (.inl h2))
    · have hn : req.size % 4 = 0 := ((swapReach_eq_iff req.size).1 hreach).resolve_left h2
      rw [show (req.size + 3) / 4 = req.size / 4 by omega, handed_eq_handedPieces_iff ha hl he hn]
      constructor
      · exact fun h => .inr (.inr ⟨hn, h⟩)
      · rintro (h | h | h)
        · exact (he h).elim
        · exact (h2 h).elim
        · exact h.2
  · have hno : ¬(req.size ≤ 2 ∨ req.size % 4 = 0) := fun h => hreach ((swapReach_eq_iff _).2 h)
    refine iff_of_false (fun h => ?_) ?_
    rotate_left
    · rintro (h | h | h)
      · exact he h
      · exact hno (.inl h)
      · exact hno (.inr h.1)
    -- a buffer that differs from the written bytes everywhere
    have hq : req.ReadBy { req with read := true, data := req.data.map (~~~ ·) } :=
      ⟨rfl, hx, rfl, rfl, rfl, rfl, by rw [List.length_map, hl]⟩
    have hr := (hback _ hq).symm.trans (h.readBack _ hq)
    have h1 : req.size > 1 := by omega
    rw [if_pos ⟨h1, he⟩] at hr
    have hlt : swapReach req.size < req.data.length := by
      rw [hl]
      exact Nat.lt_of_le_of_ne (swapReach_le _) hreach
    exact take_append_not_ne hlt hr

/-- A little-endian port over the simulator's memory. -/
def littlePort : Env Memory := { Memory.env 0x8000 (fun _ => 0#8) with endian := .little }

/-- A write of the debugger to its data memory. -/
def debugWrite (bytes : List U8) : Request :=
  { Request.init .little with
    debug := true, endian := .big, addr := 0x100#32, data := bytes, size := bytes.length }

/-- Three words. -/
theorem transfers_iff_words : ∃ t,
    littlePort.writePieces 3 (debugWrite [1, 2, 3, 4, 5, 6, 7, 8, 9, 10, 11, 12]) = some t ∧
      littlePort.Transfers (fun w i => w.mem (0x100 + i))
        (debugWrite [1, 2, 3, 4, 5, 6, 7, 8, 9, 10, 11, 12]) t := by
  have hport : Memory.OfSize 0x8000 littlePort := by constructor <;> rfl
  have hrange : (0x100#32).toNat + 12 ≤ 2 ^ 32 := by decide
  have hfresh : littlePort.Allocates := fun n => List.length_replicate
  have hptr : (littlePort.directMemoryPtr
      (debugWrite [1, 2, 3, 4, 5, 6, 7, 8, 9, 10, 11, 12])).1 = some 0x100 := rfl
  have hpieces : (littlePort.writePieces 3
      (debugWrite [1, 2, 3, 4, 5, 6, 7, 8, 9, 10, 11, 12])).isSome := by decide
  obtain ⟨t, ht⟩ := Option.isSome_iff_exists.1 hpieces
  exact ⟨t, ht, (transfers_iff (Memory.stores hport false hrange) hfresh rfl rfl rfl
    (convertAndTransact_pointer rfl hptr) (fun q hq => reads_answered hptr hq) ht).2
      (.inr (.inr ⟨rfl, nofun⟩))⟩

/-- The last two of six bytes stay behind: a read leaves what the buffer held. -/
theorem transfers_iff_fails :
    (littlePort.convertAndTransact (debugWrite [1, 2, 3, 4, 5, 6])).1 = .success ∧
      ¬∃ t, littlePort.Transfers (fun w i => w.mem (0x100 + i))
        (debugWrite [1, 2, 3, 4, 5, 6]) t := by
  refine ⟨rfl, fun ⟨t, h⟩ => ?_⟩
  have hq : Request.ReadBy (debugWrite [1, 2, 3, 4, 5, 6])
      { debugWrite [0, 0, 0, 0, 0, 0] with read := true } := by constructor <;> rfl
  exact absurd (h.readBack _ hq) (by decide)

end Env

end Or1kiss
