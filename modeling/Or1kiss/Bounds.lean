import Or1kiss.Memory

/-!
# The bounds of the simulator's memory

`Touches` are the bytes of host memory that a request reads or writes: what it reads decides
the outcome (`convertAndTransact_congr`) and what it does not touch stays
(`convertAndTransact_frame`). Two range checks guard them, one on the first byte of a request
and one on its end, which is computed in 32 bits.
-/

namespace Or1kiss

/-! ## Bytes -/

theorem readBytes_congr {mem mem' : Nat → U8} {ptr n : Nat}
    (h : ∀ b, ptr ≤ b → b < ptr + n → mem' b = mem b) :
    readBytes mem' ptr n = readBytes mem ptr n := by
  unfold readBytes
  apply List.map_congr_left
  intro i hi
  have hi := List.mem_range.1 hi
  exact h (ptr + i) (Nat.le_add_right ptr i) (by omega)

theorem writeBytes_of_not_mem {mem : Nat → U8} {ptr b : Nat} {bs : List U8}
    (h : ¬(ptr ≤ b ∧ b < ptr + bs.length)) : writeBytes mem ptr bs b = mem b := by
  unfold writeBytes
  rw [if_neg h]

theorem writeBytes_congr {mem mem' : Nat → U8} {ptr b : Nat} {bs : List U8} (h : mem' b = mem b) :
    writeBytes mem' ptr bs b = writeBytes mem ptr bs b := by
  unfold writeBytes
  rw [h]

namespace Memory

variable {size : Nat} {e : Env Memory} {req : Request} {b : Nat}

/-- The port of a memory of `size` bytes, whatever it holds. -/
structure OfSize (size : Nat) (e : Env Memory) : Prop where
  dataPtr : e.dataPtr = some 0
  dataStart : e.dataStart = 0#32
  dataEnd : e.dataEnd = BitVec.ofNat 32 size - 1#32
  insnPtr : e.insnPtr = some 0
  insnStart : e.insnStart = 0#32
  insnEnd : e.insnEnd = BitVec.ofNat 32 size - 1#32
  size : e.world.dev.size = size

theorem ofSize_env (size : Nat) (image : Nat → U8) : OfSize size (env size image) := by
  constructor <;> rfl

/-- The last address that the direct pointers serve. -/
def lastDirect (size : Nat) : U32 := BitVec.ofNat 32 size - 1#32

theorem out_of_direct {addr : U32} :
    (addr < 0#32 ∨ addr > BitVec.ofNat 32 size - 1#32) ↔ ¬addr ≤ lastDirect size := by
  constructor
  · rintro (h | h)
    · exact (BitVec.not_lt_zero h).elim
    · exact BitVec.not_le.2 h
  · exact fun h => .inr (BitVec.not_le.1 h)

theorem OfSize.getDataPtr (h : OfSize size e) (addr : U32) : e.getDataPtr addr =
    if addr ≤ lastDirect size then some addr.toNat else none := by
  unfold Env.getDataPtr
  rw [h.dataPtr, h.dataStart, h.dataEnd]
  dsimp only
  rw [if_congr out_of_direct rfl rfl, ite_not]
  simp

theorem OfSize.getInsnPtr (h : OfSize size e) (addr : U32) : e.getInsnPtr addr =
    if addr ≤ lastDirect size then some addr.toNat else none := by
  unfold Env.getInsnPtr
  rw [h.insnPtr, h.insnStart, h.insnEnd]
  dsimp only
  rw [if_congr out_of_direct rfl rfl, ite_not]
  simp

/-- The request is served by a direct pointer. -/
theorem OfSize.directMemoryPtr (h : OfSize size e) (req : Request) :
    (e.directMemoryPtr req).1 =
      if req.addr ≤ lastDirect size then some req.addr.toNat else none := by
  unfold Env.directMemoryPtr
  split
  · exact h.getInsnPtr req.addr
  · exact h.getDataPtr req.addr

/-! ## What a request touches -/

/-- The byte `b` is read or written for the request. -/
def Touches (e : Env Memory) (req : Request) (b : Nat) : Prop :=
  match (e.directMemoryPtr req).1 with
  | some ptr =>
    if req.excl = true ∧ req.read = false then req.addr = e.exclAddr ∧ ptr ≤ b ∧ b < ptr + 4
    else ptr ≤ b ∧ b < ptr + req.size
  | none => (req.addr + BitVec.ofNat 32 req.size).toNat ≤ e.world.dev.size ∧
      req.addr.toNat ≤ b ∧ b < req.addr.toNat + req.size

theorem directMemoryPtr_snd (e : Env Memory) (req : Request) :
    ∃ n, (e.directMemoryPtr req).2 = { req with cycles := n } := by
  unfold Env.directMemoryPtr
  split
  · exact ⟨_, rfl⟩
  · exact ⟨_, rfl⟩

/-- Bytes that are not touched are not written. -/
theorem access_frame (h : ¬Touches e req b) : (e.access req).2.2.world.mem b = e.world.mem b := by
  obtain ⟨n, hn⟩ := directMemoryPtr_snd e req
  unfold Touches at h
  unfold Env.access
  generalize e.directMemoryPtr req = d at hn h
  obtain ⟨ptr, r⟩ := d
  dsimp only at hn h
  subst hn
  cases ptr with
  | some ptr =>
    dsimp only at h ⊢
    by_cases hx : req.excl = true
    · rw [if_pos hx]
      unfold Env.exclusiveAccess
      cases hr : req.read with
      | true => rfl
      | false =>
        rw [if_pos ⟨hx, hr⟩] at h
        rw [if_neg Bool.false_ne_true]
        split
        · rfl
        · split
          · rfl
          · rename_i ha hd
            apply writeBytes_of_not_mem
            have ha : req.addr = e.exclAddr := not_not.1 ha
            have hl := List.length_take_le 4 req.data
            exact fun hb => h ⟨ha, hb.1, Nat.lt_of_lt_of_le hb.2 (Nat.add_le_add_left hl ptr)⟩
    · rw [if_neg hx]
      rw [if_neg fun hc => hx hc.1] at h
      split
      · rfl
      · apply writeBytes_of_not_mem
        have hl := List.length_take_le req.size req.data
        exact fun hb => h ⟨hb.1, Nat.lt_of_lt_of_le hb.2 (Nat.add_le_add_left hl ptr)⟩
  | none =>
    dsimp only at h ⊢
    show (transact _ e.world).world.mem b = _
    unfold transact
    dsimp only
    split
    · rfl
    · rename_i hs
      split
      · rfl
      · apply writeBytes_of_not_mem
        have hl := List.length_take_le req.size req.data
        exact fun hb => h ⟨Nat.le_of_not_lt hs, hb.1,
          Nat.lt_of_lt_of_le hb.2 (Nat.add_le_add_left hl _)⟩

/-- The same port over other contents. -/
def withMem (e : Env Memory) (mem : Nat → U8) : Env Memory :=
  { e with world := { e.world with mem := mem } }

/-- Two accesses end alike, as far as the bytes in `T` go. -/
structure EndsAlike (T : Nat → Prop) (x y : Response × Request × Env Memory) : Prop where
  resp : y.1 = x.1
  req : y.2.1 = x.2.1
  mem : ∀ b, T b → y.2.2.world.mem b = x.2.2.world.mem b

theorem exclusiveAccess_congr {mem : Nat → U8} {ptr : Nat} {T : Nat → Prop}
    (hr : req.read = true → ∀ b, ptr ≤ b → b < ptr + req.size → mem b = e.world.mem b)
    (hw : req.read = false → req.addr = e.exclAddr → ∀ b, ptr ≤ b → b < ptr + 4 →
      mem b = e.world.mem b)
    (hm : ∀ b, T b → mem b = e.world.mem b) :
    EndsAlike T (e.exclusiveAccess ptr req) ((withMem e mem).exclusiveAccess ptr req) := by
  unfold Env.exclusiveAccess withMem
  cases hread : req.read with
  | true =>
    have hb := readBytes_congr (hr hread)
    rw [if_pos rfl, if_pos rfl]
    dsimp only
    rw [hb]
    exact ⟨rfl, rfl, hm⟩
  | false =>
    rw [if_neg Bool.false_ne_true, if_neg Bool.false_ne_true]
    by_cases ha : req.addr = e.exclAddr
    · have hb := readBytes_congr (hw hread ha)
      rw [if_neg (not_not.2 ha), if_neg (not_not.2 ha)]
      dsimp only
      rw [hb]
      split
      · exact ⟨rfl, rfl, hm⟩
      · exact ⟨rfl, rfl, fun b hb => writeBytes_congr (hm b hb)⟩
    · rw [if_pos ha, if_pos ha]
      exact ⟨rfl, rfl, hm⟩

theorem transact_congr (req : Request) (mem : Nat → U8) (w : World Memory)
    (h : (req.addr + BitVec.ofNat 32 req.size).toNat ≤ w.dev.size → ∀ b, req.addr.toNat ≤ b →
      b < req.addr.toNat + req.size → mem b = w.mem b) :
    (transact req { w with mem := mem }).resp = (transact req w).resp ∧
      (transact req { w with mem := mem }).data = (transact req w).data ∧
      (transact req { w with mem := mem }).cycles = (transact req w).cycles ∧
      ∀ b, mem b = w.mem b →
        (transact req { w with mem := mem }).world.mem b = (transact req w).world.mem b := by
  unfold transact
  dsimp only
  split
  · exact ⟨rfl, rfl, rfl, fun b hb => hb⟩
  · rename_i hs
    have hb := readBytes_congr (h (Nat.le_of_not_lt hs))
    cases req.read with
    | true =>
      rw [if_pos rfl, if_pos rfl]
      exact ⟨rfl, hb, rfl, fun b hb => hb⟩
    | false =>
      rw [if_neg Bool.false_ne_true, if_neg Bool.false_ne_true]
      exact ⟨rfl, rfl, rfl, fun b hb => writeBytes_congr hb⟩

/-- Bytes that are not touched do not matter. -/
theorem access_congr {mem : Nat → U8} (h : ∀ b, Touches e req b → mem b = e.world.mem b) :
    EndsAlike (Touches e req) (e.access req) ((withMem e mem).access req) := by
  obtain ⟨n, hn⟩ := directMemoryPtr_snd e req
  have hd : (withMem e mem).directMemoryPtr req = e.directMemoryPtr req := rfl
  have ht : ∀ b, Touches e req b ↔ (match (e.directMemoryPtr req).1 with
    | some ptr =>
      if req.excl = true ∧ req.read = false then req.addr = e.exclAddr ∧ ptr ≤ b ∧ b < ptr + 4
      else ptr ≤ b ∧ b < ptr + req.size
    | none => (req.addr + BitVec.ofNat 32 req.size).toNat ≤ e.world.dev.size ∧
        req.addr.toNat ≤ b ∧ b < req.addr.toNat + req.size) := fun b => Iff.rfl
  unfold Env.access
  rw [hd]
  generalize e.directMemoryPtr req = d at hn ht
  obtain ⟨ptr, r⟩ := d
  dsimp only at hn ht ⊢
  subst hn
  cases ptr with
  | some ptr =>
    dsimp only at ht ⊢
    cases hx : req.excl with
    | true =>
      rw [if_pos rfl, if_pos rfl]
      apply exclusiveAccess_congr _ _ h
      · intro hr b hb hb'
        have hr : req.read = true := hr
        exact h b ((ht b).2 (by rw [if_neg (by rw [hr]; simp)]; exact ⟨hb, hb'⟩))
      · intro hr ha b hb hb'
        have hr : req.read = false := hr
        exact h b ((ht b).2 (by rw [if_pos ⟨hx, hr⟩]; exact ⟨ha, hb, hb'⟩))
    | false =>
      have hread : ∀ b, ptr ≤ b → b < ptr + req.size → mem b = e.world.mem b := fun b hb hb' =>
        h b ((ht b).2 (by rw [if_neg (by rw [hx]; simp)]; exact ⟨hb, hb'⟩))
      rw [if_neg Bool.false_ne_true, if_neg Bool.false_ne_true]
      cases hr : req.read with
      | true =>
        rw [if_pos rfl, if_pos rfl]
        have hb := readBytes_congr hread
        refine ⟨rfl, ?_, h⟩
        show ({ req with read := true, excl := false, cycles := n + e.dataCycles,
                         data := readBytes mem ptr req.size } : Request) = _
        rw [hb]
      | false =>
        rw [if_neg Bool.false_ne_true, if_neg Bool.false_ne_true]
        exact ⟨rfl, rfl, fun b hb => writeBytes_congr (h b hb)⟩
  | none =>
    dsimp only at ht ⊢
    have hc := transact_congr { req with cycles := n, endian := e.endian } mem e.world
      fun hs b hb hb' => h b ((ht b).2 ⟨hs, hb, hb'⟩)
    obtain ⟨h1, h2, h3, h4⟩ := hc
    have hreq : ∀ {d d' : List U8} {c c' : Nat}, d = d' → c = c' →
        ({ req with cycles := c, data := d } : Request) = { req with cycles := c', data := d' } := by
      rintro d _ c _ rfl rfl
      rfl
    exact ⟨h1, hreq h2 h3, fun b hb => h4 b (h b hb)⟩

theorem directMemoryPtr_swapped : (e.directMemoryPtr (e.swapped req)).1 =
    (e.directMemoryPtr req).1 := by
  unfold Env.directMemoryPtr Env.swapped
  dsimp only
  split <;> rfl

theorem touches_swapped : Touches e (e.swapped req) b ↔ Touches e req b := by
  unfold Touches
  rw [directMemoryPtr_swapped]
  rfl

/-- Converting the bytes of a request touches no memory. -/
theorem convertAndTransact_frame (h : ¬Touches e req b) :
    (e.convertAndTransact req).2.2.world.mem b = e.world.mem b := by
  by_cases hc : req.size > 1 ∧ req.endian ≠ e.endian
  · rw [Env.convertAndTransact_swapped hc]
    exact access_frame fun ht => h (touches_swapped.1 ht)
  · rw [Env.convertAndTransact_direct hc]
    exact access_frame h

theorem convertAndTransact_congr {mem : Nat → U8}
    (h : ∀ b, Touches e req b → mem b = e.world.mem b) :
    EndsAlike (Touches e req) (e.convertAndTransact req)
      ((withMem e mem).convertAndTransact req) := by
  by_cases hc : req.size > 1 ∧ req.endian ≠ e.endian
  · have hc' : req.size > 1 ∧ req.endian ≠ (withMem e mem).endian := hc
    rw [Env.convertAndTransact_swapped hc, Env.convertAndTransact_swapped hc']
    have ha := access_congr fun b (ht : Touches e (e.swapped req) b) => h b (touches_swapped.1 ht)
    refine ⟨ha.resp, ?_, fun b hb => ha.mem b (touches_swapped.2 hb)⟩
    have hr : ((withMem e mem).access ((withMem e mem).swapped req)).2.1 =
        (e.access (e.swapped req)).2.1 := ha.req
    dsimp only
    rw [hr]
  · have hc' : ¬(req.size > 1 ∧ req.endian ≠ (withMem e mem).endian) := hc
    rw [Env.convertAndTransact_direct hc, Env.convertAndTransact_direct hc']
    exact access_congr h

/-! ## The range checks -/

/-- Every byte of the request lies in memory. -/
def Inside (size : Nat) (req : Request) : Prop := ∀ i < req.size, req.addr.toNat + i < size

/-- The request touches memory only, and is refused unless it lies inside. -/
def Safe (size : Nat) (e : Env Memory) (req : Request) : Prop :=
  (∀ b, Touches e req b → b < size) ∧
    (¬Inside size req → (e.convertAndTransact req).1 = .error)

/-- The checks catch the request: it starts at a direct address and lies inside, or it starts
above them and its end, computed in 32 bits, lies outside. -/
def Caught (size : Nat) (e : Env Memory) (req : Request) : Prop :=
  if req.addr ≤ lastDirect size then
    Inside size req ∧ (req.excl = true → req.read = false → req.addr = e.exclAddr →
      req.addr.toNat + 4 ≤ size)
  else Inside size req ∨ size < (req.addr + BitVec.ofNat 32 req.size).toNat

/-- A direct pointer always serves the access. -/
theorem access_direct_ne_error {ptr : Nat} (h : (e.directMemoryPtr req).1 = some ptr) :
    (e.access req).1 ≠ .error := by
  unfold Env.access
  generalize e.directMemoryPtr req = d at h
  obtain ⟨p, r⟩ := d
  dsimp only at h
  subst h
  dsimp only
  split
  · unfold Env.exclusiveAccess
    split
    · nofun
    · split
      · nofun
      · split <;> nofun
  · split <;> nofun

theorem access_none_resp (h : OfSize size e) (hd : (e.directMemoryPtr req).1 = none)
    (hs : size < (req.addr + BitVec.ofNat 32 req.size).toNat) : (e.access req).1 = .error := by
  obtain ⟨n, hn⟩ := directMemoryPtr_snd e req
  unfold Env.access
  generalize e.directMemoryPtr req = d at hn hd
  obtain ⟨p, r⟩ := d
  dsimp only at hn hd
  subst hn
  subst hd
  show (transact _ e.world).resp = _
  unfold transact
  rw [if_pos (by rw [h.size]; exact hs)]

theorem convertAndTransact_resp_swapped (P : Response → Prop) (h : P (e.access req).1)
    (h' : P (e.access (e.swapped req)).1) : P (e.convertAndTransact req).1 := by
  by_cases hc : req.size > 1 ∧ req.endian ≠ e.endian
  · rw [Env.convertAndTransact_swapped hc]
    exact h'
  · rw [Env.convertAndTransact_direct hc]
    exact h

/-- A request to the simulator's memory is safe exactly if the range checks catch it. -/
theorem safe_iff_caught (h : OfSize size e) (req : Request) :
    Safe size e req ↔ Caught size e req := by
  have hd := h.directMemoryPtr req
  unfold Caught
  by_cases ha : req.addr ≤ lastDirect size
  · rw [if_pos ha] at hd
    rw [if_pos ha]
    have hne : (e.convertAndTransact req).1 ≠ .error :=
      convertAndTransact_resp_swapped (· ≠ .error) (access_direct_ne_error hd)
        (access_direct_ne_error (directMemoryPtr_swapped.trans hd))
    have ht : ∀ b, Touches e req b ↔ if req.excl = true ∧ req.read = false then
        req.addr = e.exclAddr ∧ req.addr.toNat ≤ b ∧ b < req.addr.toNat + 4
        else req.addr.toNat ≤ b ∧ b < req.addr.toNat + req.size := by
      intro b
      unfold Touches
      rw [hd]
    constructor
    · rintro ⟨hb, hr⟩
      have hin : Inside size req := by
        by_contra hn
        exact hne (hr hn)
      refine ⟨hin, fun hx hw hadd => ?_⟩
      have hlt := hb (req.addr.toNat + 3) ((ht _).2 (by
        rw [if_pos ⟨hx, hw⟩]
        exact ⟨hadd, by omega, by omega⟩))
      omega
    · rintro ⟨hin, hx⟩
      refine ⟨fun b hb => ?_, fun hn => (hn hin).elim⟩
      have hb := (ht b).1 hb
      split at hb
      · rename_i hc
        have := hx hc.1 hc.2 hb.1
        omega
      · have := hin (b - req.addr.toNat) (by omega)
        omega
  · rw [if_neg ha] at hd
    rw [if_neg ha]
    have ht : ∀ b, Touches e req b ↔ (req.addr + BitVec.ofNat 32 req.size).toNat ≤ size ∧
        req.addr.toNat ≤ b ∧ b < req.addr.toNat + req.size := by
      intro b
      unfold Touches
      rw [hd, ← h.size]
    constructor
    · rintro ⟨hb, -⟩
      by_contra hn
      rw [not_or] at hn
      obtain ⟨hin, hsum⟩ := hn
      apply hin
      intro i hi
      exact hb (req.addr.toNat + i) ((ht _).2 ⟨by omega, by omega, by omega⟩)
    · intro hc
      rcases hc with hin | hsum
      · refine ⟨fun b hb => ?_, fun hn => (hn hin).elim⟩
        have hb := (ht b).1 hb
        have := hin (b - req.addr.toNat) (by omega)
        omega
      · refine ⟨fun b hb => ?_, fun _ => ?_⟩
        · have hb := ((ht b).1 hb).1
          omega
        · exact convertAndTransact_resp_swapped (· = .error) (access_none_resp h hd hsum)
            (access_none_resp h (directMemoryPtr_swapped.trans hd) hsum)

/-- A read of a word at the last two bytes of memory runs over the end. -/
theorem safe_iff_caught_fails : ∃ req : Request, req.debug = true ∧
    ¬Safe 16 (env 16 fun _ => 0#8) req := by
  refine ⟨{ Request.init .little with read := true, debug := true, addr := 14#32, size := 4 }, rfl,
    fun h => ?_⟩
  have hb := h.1 16 (show 14 ≤ 16 ∧ 16 < 14 + 4 by decide)
  exact absurd hb (by decide)

/-- A read of the last word is safe. -/
theorem safe_iff_caught_last : Safe 16 (env 16 fun _ => 0#8)
    { Request.init .little with read := true, addr := 12#32, size := 4 } := by
  refine (safe_iff_caught (ofSize_env 16 _) _).2 ?_
  unfold Caught
  rw [if_pos (by decide)]
  refine ⟨fun i hi => ?_, nofun⟩
  have hi : i < 4 := hi
  show 12 + i < 16
  omega

end Memory

end Or1kiss
