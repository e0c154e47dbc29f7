import Or1kiss.Access

/-!
# What the port leaves alone

A reply changes the data and the cycles of a request. What a port promises about memory is
`Honest`: an access that fails changes nothing, and a read changes no memory. Then a failed
access gives back the bytes it was sent (`convertAndTransact_error`), and a translation leaves
memory alone (`translate_mem`).
-/

namespace Or1kiss

open Host Bits

variable {σ : Type}

/-! ## Bytes -/

theorem shift_or_low (v : U32) : ((v >>> 8) <<< 8) ||| (v.setWidth 8).setWidth 32 = v := by
  ext i hi
  simp only [BitVec.getElem_or, BitVec.getElem_shiftLeft, BitVec.getElem_setWidth,
    BitVec.getLsbD_setWidth]
  by_cases h : i < 8
  · simp [h, BitVec.getLsbD_eq_getElem hi]
  · have hs : 8 + (i - 8) = i := by omega
    simp [h, hs, BitVec.getLsbD_eq_getElem hi]

theorem wordLE_bytes (v : U32) :
    wordLE [v.setWidth 8, (v >>> 8).setWidth 8, (v >>> 16).setWidth 8, (v >>> 24).setWidth 8] = v := by
  have h3 : ((v >>> 24).setWidth 8).setWidth 32 = (v >>> 16) >>> 8 := by
    apply BitVec.eq_of_toNat_eq
    simp only [BitVec.toNat_setWidth, BitVec.toNat_ushiftRight, Nat.shiftRight_eq_div_pow]
    have hv := v.isLt
    omega
  have h2 : (v >>> 16) = (v >>> 8) >>> 8 := BitVec.shiftRight_add v 8 8
  simp only [wordLE, List.foldr_cons, List.foldr_nil, BitVec.zero_shiftLeft, BitVec.zero_or]
  rw [h3, shift_or_low, h2, shift_or_low, shift_or_low]

/-- The bytes of a word, read back. -/
theorem ofBytes_bytesOf (e : Endian) (v : U32) : ofBytes e (bytesOf e v) = v := by
  cases e with
  | little => exact wordLE_bytes v
  | big | unknown =>
    unfold ofBytes bytesOf
    simp only [List.reverse_reverse]
    exact wordLE_bytes v

theorem length_bytesOf (e : Endian) (v : U32) : (bytesOf e v).length = 4 := by
  cases e <;> rfl

theorem low_of_shift_or (acc : U32) (b : U8) : ((acc <<< 8) ||| b.setWidth 32).setWidth 8 = b := by
  ext i hi
  simp

theorem high_of_shift_or {acc : U32} (b : U8) (h : acc >>> 24 = 0#32) :
    ((acc <<< 8) ||| b.setWidth 32) >>> 8 = acc := by
  ext i hi
  have hb : b.getLsbD (8 + i) = false := BitVec.getLsbD_of_ge _ _ (by omega)
  simp only [BitVec.getElem_ushiftRight, BitVec.getLsbD_or, BitVec.getLsbD_shiftLeft,
    BitVec.getLsbD_setWidth, hb]
  by_cases hlt : 8 + i < 32
  · have hs : 8 + i - 8 = i := by omega
    simp [hlt, hs, BitVec.getLsbD_eq_getElem hi]
  · have hz := congrArg (·.getLsbD (i - 24)) h
    have hi' : 24 + (i - 24) = i := by omega
    simp only [BitVec.getLsbD_ushiftRight, hi'] at hz
    rw [BitVec.getLsbD_eq_getElem hi] at hz
    simp [hlt, hz]

theorem wordLE_cons (b : U8) (bs : List U8) :
    wordLE (b :: bs) = (wordLE bs <<< 8) ||| b.setWidth 32 := rfl

/-- A word of fewer than four bytes, below a byte more. -/
theorem wordLE_shift (b : U8) {bs : List U8} (h : wordLE bs >>> 24 = 0#32) :
    wordLE (b :: bs) >>> 8 = wordLE bs := high_of_shift_or b h

/-- The bytes of a word put together from four. -/
theorem bytesOf_wordLE (a b c d : U8) : bytesOf .little (wordLE [a, b, c, d]) = [a, b, c, d] := by
  have hd : wordLE [d] >>> 8 = 0#32 := wordLE_shift d rfl
  have hc : wordLE [c, d] >>> 8 = wordLE [d] := by
    refine wordLE_shift c ?_
    rw [show (24 : Nat) = 8 + 16 from rfl, BitVec.shiftRight_add, hd]
    rfl
  have hb : wordLE [b, c, d] >>> 8 = wordLE [c, d] := by
    refine wordLE_shift b ?_
    rw [show (24 : Nat) = 8 + (8 + 8) from rfl, BitVec.shiftRight_add, BitVec.shiftRight_add, hc, hd]
    rfl
  have ha : wordLE [a, b, c, d] >>> 8 = wordLE [b, c, d] := by
    refine wordLE_shift a ?_
    rw [show (24 : Nat) = 8 + (8 + 8) from rfl, BitVec.shiftRight_add, BitVec.shiftRight_add, hb,
      hc, hd]
  have h16 : wordLE [a, b, c, d] >>> 16 = wordLE [c, d] := by
    rw [show (16 : Nat) = 8 + 8 from rfl, BitVec.shiftRight_add, ha, hb]
  have h24 : wordLE [a, b, c, d] >>> 24 = wordLE [d] := by
    rw [show (24 : Nat) = 16 + 8 from rfl, BitVec.shiftRight_add, h16, hc]
  unfold bytesOf
  dsimp only
  rw [ha, h16, h24, wordLE_cons a, wordLE_cons b, wordLE_cons c, wordLE_cons d, low_of_shift_or,
    low_of_shift_or, low_of_shift_or, low_of_shift_or]

theorem bytesOf_ofBytes (e : Endian) {bs : List U8} (h : bs.length = 4) :
    bytesOf e (ofBytes e bs) = bs := by
  have hle : ∀ {xs : List U8}, xs.length = 4 → bytesOf .little (wordLE xs) = xs := by
    intro xs hx
    rcases xs with _ | ⟨a, _ | ⟨b, _ | ⟨c, _ | ⟨d, _ | ⟨e, xs⟩⟩⟩⟩⟩
    · cases hx
    · cases hx
    · cases hx
    · cases hx
    · exact bytesOf_wordLE a b c d
    · cases hx
  cases e with
  | little => exact hle h
  | big | unknown =>
    show (bytesOf .little (wordLE bs.reverse)).reverse = bs
    rw [hle (by rw [List.length_reverse, h]), List.reverse_reverse]

/-- A byte swap reads the bytes of a word backwards. -/
theorem byteSwap_ofBytes (e : Endian) {bs : List U8} (h : bs.length = 4) :
    byteSwap (ofBytes e bs) = ofBytes e bs.reverse := by
  have hr : bs.reverse.length = 4 := by rw [List.length_reverse, h]
  have hle : ∀ {xs : List U8}, xs.length = 4 → byteSwap (wordLE xs) = wordLE xs.reverse := by
    intro xs hx
    show wordLE (bytesOf .little (wordLE xs)).reverse = _
    rw [show bytesOf .little (wordLE xs) = xs from bytesOf_ofBytes .little hx]
  cases e with
  | little => exact hle h
  | big | unknown => exact hle hr

/-- Bytes swapped into a buffer of their length, and back. -/
theorem memcpyswp_memcpyswp {tmp bs : List U8} {n : Nat} (hn : n = 1 ∨ n = 2 ∨ n = 4 ∨ n = 8)
    (ht : tmp.length = n) (hb : bs.length = n) : memcpyswp bs (memcpyswp tmp bs n) n = bs := by
  have ht0 : tmp.drop n = [] := List.drop_of_length_le (by omega)
  have hb0 : bs.drop n = [] := List.drop_of_length_le (by omega)
  have hb1 : bs.take n = bs := List.take_of_length_le (by omega)
  have hr : bs.reverse.take n = bs.reverse := List.take_of_length_le (by rw [List.length_reverse]; omega)
  unfold memcpyswp
  rw [if_pos hn, if_pos hn, ht0, hb0, hb1, List.append_nil, List.append_nil, hr, List.reverse_reverse]

/-! ## Replies -/

/-- A reply to the request: its data and its cycles may differ. -/
def Request.Answers (req r : Request) : Prop := ∃ d n, r = { req with data := d, cycles := n }

theorem Request.Answers.trans {req r q : Request} (h : req.Answers r) (h' : r.Answers q) :
    req.Answers q := by
  obtain ⟨d, n, rfl⟩ := h
  obtain ⟨d', n', rfl⟩ := h'
  exact ⟨d', n', rfl⟩

/-- A port whose failed accesses change nothing and whose reads leave memory alone. -/
structure EnvImpl.Honest (σ : Type) [EnvImpl σ] : Prop where
  error : ∀ (req : Request) (w : World σ), (EnvImpl.transact req w).resp = .error →
    (EnvImpl.transact req w).data = req.data ∧ (EnvImpl.transact req w).world.mem = w.mem
  read : ∀ (req : Request) (w : World σ), req.read = true →
    (EnvImpl.transact req w).world.mem = w.mem

namespace Env

variable {e : Env σ} {req : Request}

theorem directMemoryPtr_answers (e : Env σ) (req : Request) : req.Answers (e.directMemoryPtr req).2 := by
  unfold directMemoryPtr
  split <;> exact ⟨req.data, _, rfl⟩

theorem directMemoryPtr_data (e : Env σ) (req : Request) : (e.directMemoryPtr req).2.data = req.data := by
  unfold directMemoryPtr
  split <;> rfl

theorem exclusiveAccess_answers (ptr : Nat) : req.Answers (e.exclusiveAccess ptr req).2.1 := by
  unfold exclusiveAccess
  split
  · exact ⟨_, req.cycles, rfl⟩
  · split
    · exact ⟨req.data, req.cycles, rfl⟩
    · split <;> exact ⟨req.data, req.cycles, rfl⟩

theorem exclusiveAccess_read_mem (ptr : Nat) (hr : req.read = true) :
    (e.exclusiveAccess ptr req).2.2.world = e.world := by
  unfold exclusiveAccess
  rw [if_pos hr]

theorem exclusiveAccess_ne_error (ptr : Nat) : (e.exclusiveAccess ptr req).1 ≠ .error := by
  unfold exclusiveAccess
  split
  · nofun
  · split
    · nofun
    · split <;> nofun

variable [EnvImpl σ]

theorem access_answers (e : Env σ) (req : Request) : req.Answers (e.access req).2.1 := by
  have hd := directMemoryPtr_answers e req
  unfold access
  split <;> rename_i h <;> rw [h] at hd
  · dsimp only
    obtain ⟨d, n, rfl⟩ := hd
    split
    · exact .trans ⟨d, _, rfl⟩ (exclusiveAccess_answers _)
    · split
      · exact ⟨_, _, rfl⟩
      · exact ⟨_, _, rfl⟩
  · obtain ⟨d, n, rfl⟩ := hd
    exact ⟨_, _, rfl⟩

theorem convertAndTransact_answers (e : Env σ) (req : Request) :
    req.Answers (e.convertAndTransact req).2.1 := by
  by_cases h : req.size > 1 ∧ req.endian ≠ e.endian
  · rw [convertAndTransact_swapped h]
    obtain ⟨d, n, hd⟩ := access_answers e (e.swapped req)
    dsimp only
    rw [hd]
    exact ⟨_, n, rfl⟩
  · rw [convertAndTransact_direct h]
    exact access_answers e req

/-- A read leaves memory alone. -/
theorem access_read_mem (hp : EnvImpl.Honest σ) (hr : req.read = true) :
    (e.access req).2.2.world.mem = e.world.mem := by
  have hd := directMemoryPtr_answers e req
  unfold access
  split <;> rename_i h <;> rw [h] at hd <;> obtain ⟨d, n, rfl⟩ := hd
  · dsimp only
    split
    · exact congrArg World.mem (exclusiveAccess_read_mem _ hr)
    · rfl
  · exact hp.read _ _ hr

theorem convertAndTransact_read_mem (hp : EnvImpl.Honest σ) (hr : req.read = true) :
    (e.convertAndTransact req).2.2.world.mem = e.world.mem := by
  by_cases h : req.size > 1 ∧ req.endian ≠ e.endian
  · rw [convertAndTransact_swapped h]
    exact access_read_mem hp hr
  · rw [convertAndTransact_direct h]
    exact access_read_mem hp hr

/-- A failed access changes neither the data nor memory; the direct pointer never fails. -/
theorem access_error (hp : EnvImpl.Honest σ) (h : (e.access req).1 = .error) :
    (e.access req).2.1.data = req.data ∧ (e.access req).2.2.world.mem = e.world.mem := by
  have hd := directMemoryPtr_data e req
  revert h
  unfold access
  split <;> rename_i hm <;> rw [hm] at hd
  · dsimp only
    split
    · intro h
      exact (exclusiveAccess_ne_error _ h).elim
    · split <;> nofun
  · intro h
    have he := hp.error _ _ h
    exact ⟨he.1.trans hd, he.2⟩

/-- The swap on the way out undoes the one on the way in. -/
theorem convertAndTransact_error (hp : EnvImpl.Honest σ)
    (hs : req.size = 1 ∨ req.size = 2 ∨ req.size = 4 ∨ req.size = 8)
    (hl : req.data.length = req.size) (h : (e.convertAndTransact req).1 = .error) :
    (e.convertAndTransact req).2.1.data = req.data ∧
      (e.convertAndTransact req).2.2.world.mem = e.world.mem := by
  by_cases hc : req.size > 1 ∧ req.endian ≠ e.endian
  · rw [convertAndTransact_swapped hc] at h ⊢
    obtain ⟨hd, hm⟩ := access_error hp h
    refine ⟨?_, hm⟩
    have h8 : ¬ req.size > 8 := by omega
    dsimp only
    rw [hd]
    unfold swapped
    dsimp only
    rw [if_neg h8]
    exact memcpyswp_memcpyswp hs List.length_replicate hl
  · rw [convertAndTransact_direct hc] at h ⊢
    exact access_error hp h

end Env

/-! ## Translation -/

namespace Mmu

variable {m : Mmu} {env : Env σ} {req : Request}

/-- What translation does to a request: the address, the cycles and the page attributes. -/
structure Translates (req r : Request) : Prop where
  data : r.data = req.data
  size : r.size = req.size
  endian : r.endian = req.endian
  read : r.read = req.read
  excl : r.excl = req.excl
  imem : r.imem = req.imem
  debug : r.debug = req.debug

theorem hit_translates (way : Nat) : Translates req (m.hit way req).2.2 := by
  unfold hit
  dsimp only
  split
  · constructor <;> rfl
  · split <;> constructor <;> rfl

theorem refill_translates (pte2 : U32) (cycles : Nat) :
    Translates req (m.refill pte2 cycles req).2.2 := by
  unfold refill
  dsimp only
  generalize (if (req.imem && test pte2 MMUPTE.EXEC) = true then
    pte2 ||| MMUPTE.CC ||| (MMU.SXE ||| MMU.UXE) else pte2 ||| MMUPTE.CC) = t
  split
  · constructor <;> rfl
  · cases hd : req.debug <;> constructor <;> first | rfl | exact hd.symm

variable [EnvImpl σ]

theorem translate_fields (m : Mmu) (env : Env σ) (req : Request) :
    Translates req (m.translate env req).2.2.2 := by
  unfold translate
  dsimp only
  generalize (if req.debug = true then m else m.age (m.setOf req.addr)) = m'
  split
  · exact hit_translates _
  · split
    · constructor <;> rfl
    · split
      · constructor <;> rfl
      · exact refill_translates _ _

theorem readPte_mem (env : Env σ) (hp : EnvImpl.Honest σ) (hr : req.read = true) (addr : U32) :
    (readPte env req addr).2.2.2.world.mem = env.world.mem :=
  Env.convertAndTransact_read_mem hp hr

theorem readPte_read (env : Env σ) (req : Request) (addr : U32) :
    (readPte env req addr).2.2.1.read = req.read := by
  obtain ⟨d, n, h⟩ : Request.Answers { req with addr := addr, data := env.garbage 4, size := 4 }
    (readPte env req addr).2.2.1 := Env.convertAndTransact_answers ..
  rw [h]

theorem walk_mem (m : Mmu) (env : Env σ) (req : Request) (hp : EnvImpl.Honest σ) :
    (m.walk env req).2.world.mem = env.world.mem := by
  have hw : (walkRequest env req).read = true := rfl
  have h1 := readPte_mem env hp hw ((m.ctrl &&& MMUCR.PGD) + (bits32 req.addr 31 24 <<< 2))
  have hr := readPte_read env (walkRequest env req)
    ((m.ctrl &&& MMUCR.PGD) + (bits32 req.addr 31 24 <<< 2))
  unfold walk
  dsimp only
  split
  · rfl
  · split <;> rename_i he1 <;> rw [he1] at h1 hr
    · rename_i pte1 r1 env1
      split
      · exact h1
      · have h2 := readPte_mem env1 hp hr (pageAlign pte1 + (bits32 req.addr 23 13 <<< 2))
        split <;> rename_i he2 <;> rw [he2] at h2
        · split <;> exact h2.trans h1
        · exact h2.trans h1
    · exact h1

/-- A translation reads page tables and writes no memory. -/
theorem translate_mem (m : Mmu) (env : Env σ) (req : Request) (hp : EnvImpl.Honest σ) :
    (m.translate env req).2.2.1.world.mem = env.world.mem := by
  unfold translate
  dsimp only
  generalize (if req.debug = true then m else m.age (m.setOf req.addr)) = m'
  split
  · rfl
  · split
    · rfl
    · have h := walk_mem m' env req hp
      split <;> rename_i he <;> rw [he] at h <;> exact h

end Mmu

/-! ## The executors as one -/

namespace MemExec

def isLoad : MemExec → Bool
  | .lwa | .lw | .lhz | .lhs | .lbz | .lbs => true
  | _ => false

def isExclusive : MemExec → Bool
  | .lwa | .swa => true
  | _ => false

def size : MemExec → Nat
  | .lwa | .lw | .swa | .sw => 4
  | .lhz | .lhs | .sh => 2
  | .lbz | .lbs | .sb => 1

/-- What a load does to the register after it succeeded. -/
def post : MemExec → U32 → U32
  | .lhz => (· &&& 0xffff#32)
  | .lhs => (signExtend32 · 15)
  | .lbz => (· &&& 0xff#32)
  | .lbs => (signExtend32 · 7)
  | _ => id

/-- The register behind the `data` pointer. -/
def buffer (e : MemExec) (ci : Instruction) : Operand := if e.isLoad then ci.dest else ci.src2

theorem size_cases (e : MemExec) : e.size = 1 ∨ e.size = 2 ∨ e.size = 4 := by cases e <;> decide

end MemExec

theorem Core.executeMem_access [EnvImpl σ] (e : MemExec) (ci : Instruction) (c : Core σ) :
    c.executeMem e ci = Core.accessMemory e.isLoad e.isExclusive e.size e.post (e.buffer ci) ci c := by
  cases e <;> rfl

end Or1kiss
