import Or1kiss.ElfLoad

/-!
# What loading needs

Where the loader of `ElfLoad` misses a section there is a file with the same headers that shows
it: a section without bytes in the file keeps what its fresh memory held, and a mark in a section
that is moved to another place, or swapped, is not found where the section belongs. On a port that
swaps words zeros come up where none were: there are no more of them than bytes to clear
(`cleared_of_loads`). With `loads_of_followed` this is exactly when files are loaded (`loads_iff`).
-/

namespace Or1kiss

open Host Bits

variable {σ : Type}

/-! ## Bytes behind a swap -/

theorem mem_swapWords {n : Nat} {dst src : List U8} {b : U8} (h : b ∈ swapWords n dst src) :
    b ∈ dst ∨ b ∈ src := by
  induction n generalizing dst src with
  | zero => exact .inl h
  | succ n ih =>
    obtain h | h := List.mem_append.1 h
    · exact .inr (List.mem_of_mem_take (List.mem_reverse.1 h))
    · exact (ih h).imp List.mem_of_mem_drop List.mem_of_mem_drop

theorem mem_memcpyswp {n : Nat} {dst src : List U8} {b : U8} (h : b ∈ memcpyswp dst src n) :
    b ∈ dst ∨ b ∈ src := by
  unfold memcpyswp at h
  split at h
  · obtain h | h := List.mem_append.1 h
    · exact .inr (List.mem_of_mem_take (List.mem_reverse.1 h))
    · exact .inl (List.mem_of_mem_drop h)
  · exact mem_swapWords h

/-- The first byte of a swapped buffer was not the first; of three bytes none is swapped. -/
theorem memcpyswp_first {n : Nat} {dst src : List U8} {a b : U8} (hn : 1 < n)
    (hs : src.length + 1 = n) (h : (memcpyswp dst (a :: src) n)[0]? = some b) :
    if n = 3 then b ∈ dst else b ∈ src := by
  have hlast : ∀ k bs, 0 < k → k ≤ src.length →
      (((a :: src).take (k + 1)).reverse ++ bs)[0]? = some b → b ∈ src := by
    intro k bs hk hle h
    rw [List.take_succ_cons, List.reverse_cons, List.append_assoc, List.getElem?_append_left] at h
    · exact List.mem_of_mem_take (List.mem_reverse.1 (List.mem_of_getElem? h))
    · rw [List.length_reverse, List.length_take]
      omega
  unfold memcpyswp at h
  split at h
  · obtain ⟨k, rfl⟩ : ∃ k, n = k + 1 := ⟨n - 1, by omega⟩
    rw [if_neg (by omega)]
    exact hlast k _ (by omega) (by omega) h
  · by_cases h4 : n / 4 = 0
    · rw [h4] at h
      rw [if_pos (by omega)]
      exact List.mem_of_getElem? h
    · obtain ⟨m, hm⟩ : ∃ m, n / 4 = m + 1 := ⟨n / 4 - 1, by omega⟩
      rw [hm] at h
      rw [if_neg (by omega)]
      exact hlast 3 _ (by omega) (by omega) h

/-- A write leaves a byte or writes one of its own. -/
theorem writeBytes_keeps {P : U8 → Prop} {mem : Nat → U8} {ptr x : Nat} {bs : List U8}
    (hm : P (mem x)) (hb : ∀ b ∈ bs, P b) : P (writeBytes mem ptr bs x) := by
  unfold writeBytes
  split
  · rw [List.getD_eq_getElem _ _ (by omega)]
    exact hb _ (List.getElem_mem _)
  · exact hm

namespace Env

variable [EnvImpl σ] {e : Env σ} {req : Request} {p : Nat}

/-- A write by the direct pointer. -/
theorem convertAndTransact_mem (ha : e.Allocates) (hx : req.excl = false) (hw : req.read = false)
    (hl : req.data.length = req.size) (hp : (e.directMemoryPtr req).1 = some p) :
    (e.convertAndTransact req).2.2.world.mem = writeBytes e.world.mem p (e.handed req) := by
  have hlen := length_handed ha hl
  unfold handed at hlen ⊢
  by_cases h : req.size > 1 ∧ req.endian ≠ e.endian
  · rw [if_pos h] at hlen ⊢
    rw [convertAndTransact_swapped h]
    have hps : (e.directMemoryPtr (e.swapped req)).1 = some p :=
      (directMemoryPtr_withData e req _).trans hp
    have hxs : (e.swapped req).excl = false := hx
    have hws : (e.swapped req).read = false := hw
    have hls : (e.swapped req).data.length ≤ (e.swapped req).size := Nat.le_of_eq hlen
    obtain ⟨-, -, hm⟩ := access_copies hxs hps
    rw [hws, if_neg Bool.false_ne_true, List.take_of_length_le hls] at hm
    exact congrArg World.mem hm
  · rw [if_neg h, convertAndTransact_direct h]
    obtain ⟨-, -, hm⟩ := access_copies hx hp
    rw [hw, if_neg Bool.false_ne_true, List.take_of_length_le (Nat.le_of_eq hl)] at hm
    exact congrArg World.mem hm

end Env

/-! ## A port over all addresses -/

namespace Memory

/-- Memory at every address, filled with `v` as is the memory of the host. -/
def flat (endian : Endian) (v : U8) : Env Memory :=
  { env (2 ^ 32) (fun _ => v) with endian := endian, garbage := fun n => List.replicate n v }

variable {endian : Endian} {v : U8} {t : Env Memory}

theorem flat_ofSize : OfSize (2 ^ 32) (flat endian v) := by constructor <;> rfl

theorem flat_allocates : (flat endian v).Allocates := fun _ => List.length_replicate

/-- The simulator's memory takes every write that ends inside it. -/
theorem OfSize.ram {size : Nat} {e : Env Memory} (h : OfSize size e) (hs : size ≤ 2 ^ 32) :
    e.Ram (fun w i => w.mem ((0#32).toNat + i)) (fun w => w.dev.size = size) 0#32 size where
  fits := by rwa [BitVec.toNat_zero, Nat.zero_add]
  stores imem := stores h imem (by rwa [BitVec.toNat_zero, Nat.zero_add])
  ready := h.size
  serves req w imem k hr hw hok := by
    have hend : (req.addr + BitVec.ofNat 32 req.size).toNat ≤ size := by
      have hf := hr.fits
      rw [hr.addr, BitVec.zero_add, ← BitVec.ofNat_add, BitVec.toNat_ofNat]
      exact Nat.le_trans (Nat.mod_le _ _) hf
    have hfit : ¬w.dev.size < (req.addr + BitVec.ofNat 32 req.size).toNat := by
      rw [hok]
      exact Nat.not_lt.2 hend
    show (transact req w).resp = .success ∧ (transact req w).world.dev.size = size
    unfold transact
    rw [if_neg hfit, hw]
    exact ⟨rfl, hok⟩
  pointer w p bs hok := hok

theorem flat_pointer (ht : Env.Served (flat endian v) t) (req : Request) :
    (t.directMemoryPtr req).1 = some req.addr.toNat := by
  have hptr : (t.directMemoryPtr req).1 = ((flat endian v).directMemoryPtr req).1 := by
    obtain ⟨_, _, _, rfl⟩ := ht
    rfl
  have hlast : req.addr ≤ lastDirect (2 ^ 32) := Nat.le_of_lt_succ req.addr.isLt
  rw [hptr, flat_ofSize.directMemoryPtr, if_pos hlast]

/-- The bytes that it is handed are the buffer's, fresh, or zero. -/
theorem mem_handed_flat {req : Request} {b : U8} (h : b ∈ (flat endian v).handed req) :
    b ∈ req.data ∨ b = v ∨ b = 0#8 := by
  unfold Env.handed Env.swapped at h
  split at h
  · obtain h | h := mem_memcpyswp h
    · split at h
      · exact .inr (.inl (List.eq_of_mem_replicate h))
      · exact .inr (.inr (List.eq_of_mem_replicate h))
    · exact .inl h
  · exact .inl h

end Memory

/-! ## Files that are not loaded -/

namespace ElfHeaders

/-- A section that libelf reads as it should. -/
def scn (content : Shdr → List U8) (s : Shdr) : ElfScn where
  shdr := s
  contents := content s
  rawdata := [if s.type = shtNobits then none else some (content s)]

/-- A file with these headers, its sections filled by `content`. -/
def file (h : ElfHeaders) (content : Shdr → List U8) : ElfFile :=
  ⟨h.phdrs, h.shdrs.map (scn content)⟩

variable {h : ElfHeaders} {content : Shdr → List U8} {endian : Endian} {v : U8} {s : Shdr}
  {p : Phdr} {a : Nat} {P : U8 → Prop}

theorem file_headers (h : ElfHeaders) (content : Shdr → List U8) :
    (h.file content).headers = h := by
  have hid : (fun q : ElfScn => q.shdr) ∘ scn content = id := rfl
  unfold file ElfFile.headers
  rw [List.map_map, hid, List.map_id]

theorem scn_parsed (hl : (content s).length = s.size.toNat) : (scn content s).Parsed where
  nobits ht := by
    have hraw : (scn content s).rawdata = [none] := congrArg (fun b => [b]) (if_pos ht)
    rw [hraw]
    exact fun buf hb => List.mem_singleton.1 hb
  bits ht := congrArg (fun b => [b]) (if_neg ht)
  length _ := hl

/-- The fresh memory is filled as the section is. -/
theorem file_fits (wf : h.WellFormed) (hl : ∀ s, (content s).length = s.size.toNat) :
    (h.file content).Fits (Memory.flat endian v) (fun w i => w.mem ((0#32).toNat + i))
      (fun w => w.dev.size = 2 ^ 32) 0#32 (2 ^ 32) (h.shdrs.map content) where
  allocates := Memory.flat_allocates
  ram := Memory.flat_ofSize.ram (Nat.le_refl _)
  room p hp hpl := Set.Ico_subset_Ico (Nat.zero_le _) (by
    have hb := (wf.bounded p hp hpl).2
    rwa [BitVec.toNat_zero, Nat.zero_add])
  fresh := by
    show List.Forall₂ _ (h.shdrs.map (scn content)) (h.shdrs.map content)
    rw [List.forall₂_map_left_iff, List.forall₂_map_right_iff, List.forall₂_same]
    exact fun s _ => hl s
  parsed q hq := by
    obtain ⟨s, -, rfl⟩ := List.mem_map.1 hq
    exact scn_parsed (hl s)

/-- The section as it is loaded, and the bytes that the port is handed for it. -/
def loaded (h : ElfHeaders) (content : Shdr → List U8) (s : Shdr) : LoadSection :=
  .new h.phdrs (scn content s) (content s)

theorem loaded_data (h : ElfHeaders) (hl : (content s).length = s.size.toNat) :
    (h.loaded content s).data = content s := by
  unfold loaded
  rw [LoadSection.data_new (scn_parsed hl) hl]
  exact ite_self _

/-- The bytes that the port is handed for a section. -/
def handed (h : ElfHeaders) (content : Shdr → List U8) (endian : Endian) (v : U8) (s : Shdr) :
    List U8 :=
  (Memory.flat endian v).handed ((h.loaded content s).request .little)

theorem length_handed (h : ElfHeaders) (endian : Endian) (v : U8)
    (hl : (content s).length = s.size.toNat) :
    (h.handed content endian v s).length = s.size.toNat :=
  Env.length_handed Memory.flat_allocates ((congrArg List.length (h.loaded_data hl)).trans hl)

theorem mem_handed {b : U8} (hl : (content s).length = s.size.toNat)
    (hb : b ∈ h.handed content endian v s) : b ∈ content s ∨ b = v ∨ b = 0#8 :=
  (Memory.mem_handed_flat hb).imp_left fun hb => (h.loaded_data hl) ▸ hb

theorem load_flat {t : Env Memory} (hl : (content s).length = s.size.toNat) (hal : s.Allocated)
    (ht : Env.Served (Memory.flat endian v) t) : ((h.loaded content s).load t).world.mem =
      writeBytes t.world.mem (h.target s) (h.handed content endian v s) := by
  have hhost : t.hostEndian = .little := by
    obtain ⟨_, _, _, rfl⟩ := ht
    rfl
  have hlen : ((h.loaded content s).request .little).data.length =
      ((h.loaded content s).request .little).size :=
    (congrArg List.length (h.loaded_data hl)).trans hl
  have haddr : ((h.loaded content s).request .little).addr.toNat = h.target s :=
    congrArg BitVec.toNat (setWidth_physAddr h.phdrs s)
  unfold loaded at haddr hlen ⊢
  rw [LoadSection.load_allocated hal, hhost, Env.convertAndTransact_mem
    (ht.allocates Memory.flat_allocates) rfl rfl hlen (Memory.flat_pointer ht _), haddr, ht.handed]
  rfl

/-- What every load keeps at an address holds there in the end. -/
theorem file_keeps (h : ElfHeaders) (endian : Endian) {x : Nat}
    (hl : ∀ s, (content s).length = s.size.toNat) (hv : P v)
    (keep : ∀ s ∈ h.shdrs, s.Allocated → ∀ mem : Nat → U8, P (mem x) →
      P (writeBytes mem (h.target s) (h.handed content endian v s) x)) :
    P (((h.file content).load (h.shdrs.map content) (Memory.flat endian v)).world.mem x) := by
  rw [ElfFile.load_eq]
  refine Loops.foldl_settles (K := Env.Served (Memory.flat endian v))
    (P := fun t => P (t.world.mem x)) (fun q _ t ht => ht.trans (LoadSection.load_served _ t)) ?_ (.refl _) (.inl hv)
  intro q hq t ht hP
  have hq : q ∈ h.shdrs.map fun s => (scn content s, content s) := by
    rwa [← List.zip_map']
  obtain ⟨s, hs, rfl⟩ := List.mem_map.1 hq
  by_cases hal : s.Allocated
  · show P (((h.loaded content s).load t).world.mem x)
    rw [load_flat (hl s) hal ht]
    exact keep s hs hal _ hP
  · have hno : (LoadSection.new h.phdrs (scn content s) (content s)).load t = t :=
      LoadSection.load_not_allocated hal t
    show P (((LoadSection.new h.phdrs (scn content s) (content s)).load t).world.mem x)
    rw [hno]
    exact hP

/-- What the program finds in the flat memory, if such files are loaded. -/
theorem file_read (hL : ∀ f : ElfFile, f.headers = h → f.Loads endian) (wf : h.WellFormed)
    (hl : ∀ s, (content s).length = s.size.toNat) (v : U8) (hs : s ∈ h.shdrs) (hal : s.Allocated)
    (hp : p ∈ h.phdrs) (hpl : p.type = ptLoad) (hsub : s.virt ⊆ p.virt) (has : a ∈ s.virt) :
    ((h.file content).load (h.shdrs.map content) (Memory.flat endian v)).world.mem (p.place a) =
      (scn content s).image.getD (a - s.addr.toNat) 0#8 := by
  have hread := hL _ (h.file_headers content) Memory _ _ _ _ _ _ rfl (file_fits (v := v) wf hl)
    (scn content s) (List.mem_map_of_mem hs) hal p hp hpl a has (hsub has)
  refine Eq.trans (congrArg _ ?_) hread
  show p.place a = 0 + (p.place a - 0)
  omega

theorem image_of_bits (hbits : s.type ≠ shtNobits) : (scn content s).image = content s :=
  if_neg hbits

/-- A section without bytes in the file is not cleared. -/
theorem bits_of_loads (hL : ∀ f : ElfFile, f.headers = h → f.Loads .big) (wf : h.WellFormed)
    (hs : s ∈ h.shdrs) (hal : s.Allocated) : s.type ≠ shtNobits := by
  intro ht
  obtain ⟨p, hp, hpl, hsub⟩ := wf.inside s hs hal
  have hl : ∀ s : Shdr, (List.replicate s.size.toNat 0xff#8).length = s.size.toNat :=
    fun s => List.length_replicate
  have has : s.addr.toNat ∈ s.virt := ⟨Nat.le_refl _, Nat.lt_add_of_pos_right hal.pos⟩
  have hread := file_read hL wf hl 0xff#8 hs hal hp hpl hsub has
  have hkept := file_keeps h .big (v := 0xff#8) (P := (· = 0xff#8)) hl rfl
    (x := p.place s.addr.toNat) ?_
  · have hzero : (scn (fun s => List.replicate s.size.toNat 0xff#8) s).image =
        List.replicate s.size.toNat 0#8 := if_pos ht
    rw [hkept, hzero, Nat.sub_self, List.getD_replicate _ hal.pos] at hread
    exact absurd hread (by decide)
  · intro t _ _ mem hm
    have hhanded : h.handed (fun s => List.replicate s.size.toNat 0xff#8) .big 0xff#8 t =
        List.replicate t.size.toNat 0xff#8 :=
      (if_neg fun hc => hc.2 rfl).trans (h.loaded_data (hl t))
    refine writeBytes_keeps (P := (· = 0xff#8)) hm ?_
    rw [hhanded]
    exact fun b hb => List.eq_of_mem_replicate hb

/-! ## Marked sections -/

/-- The first `m` bytes of `s` bear a mark. -/
def marked (s : Shdr) (m : Nat) (t : Shdr) : List U8 :=
  if t = s then
    List.replicate (min m t.size.toNat) 0x55#8 ++ List.replicate (t.size.toNat - m) 0xaa#8
  else List.replicate t.size.toNat 0xaa#8

variable {t : Shdr} {m k : Nat}

theorem length_marked (s : Shdr) (m : Nat) (t : Shdr) : (marked s m t).length = t.size.toNat := by
  unfold marked
  split
  · rw [List.length_append, List.length_replicate, List.length_replicate]
    omega
  · exact List.length_replicate

theorem marked_mark (hk : k < m) (hks : k < s.size.toNat) : (marked s m s).getD k 0#8 = 0x55#8 := by
  have hmin : k < min m s.size.toNat := by omega
  unfold marked
  rw [if_pos rfl, List.getD_append _ _ _ _ (by rwa [List.length_replicate]),
    List.getD_replicate _ hmin]

theorem marked_other {b : U8} (ht : t ≠ s) (hb : b ∈ marked s m t) : b ≠ 0x55#8 := by
  unfold marked at hb
  rw [if_neg ht] at hb
  rw [List.eq_of_mem_replicate hb]
  decide

/-- If the mark is not at the place of the section, the file is not loaded. -/
theorem not_loads_of_unmarked (hL : ∀ f : ElfFile, f.headers = h → f.Loads endian)
    (wf : h.WellFormed) (hs : s ∈ h.shdrs) (hal : s.Allocated) (hbits : s.type ≠ shtNobits)
    (hp : p ∈ h.phdrs) (hpl : p.type = ptLoad) (hsub : s.virt ⊆ p.virt) (hk : k < m)
    (hks : k < s.size.toNat)
    (keep : ∀ mem : Nat → U8, mem (p.place (s.addr.toNat + k)) ≠ 0x55#8 →
      writeBytes mem (h.target s) (h.handed (marked s m) endian 0xaa#8 s)
        (p.place (s.addr.toNat + k)) ≠ 0x55#8) : False := by
  have has : s.addr.toNat + k ∈ s.virt := ⟨Nat.le_add_right _ _, Nat.add_lt_add_left hks _⟩
  have hread := file_read hL wf (length_marked s m) 0xaa#8 hs hal hp hpl hsub has
  refine file_keeps h endian (v := 0xaa#8) (P := (· ≠ 0x55#8))
    (length_marked s m) (by decide) (x := p.place (s.addr.toNat + k)) ?_ (hread.trans ?_)
  · intro t _ _ mem hm
    by_cases ht : t = s
    · subst ht
      exact keep mem hm
    · refine writeBytes_keeps (P := (· ≠ 0x55#8)) hm fun b hb => ?_
      obtain hb | rfl | rfl := mem_handed (length_marked s m t) hb
      · exact marked_other ht hb
      · decide
      · decide
  · rw [image_of_bits hbits, Nat.add_sub_cancel_left]
    exact marked_mark hk hks

/-- Two places of one length differ in an address of the first. -/
theorem exists_outside {x y n : Nat} (h0 : 0 < n) (hne : x ≠ y) :
    ∃ k < n, ¬(y ≤ x + k ∧ x + k < y + n) := by
  obtain hlt | hgt := Nat.lt_or_gt_of_ne hne
  · exact ⟨0, h0, by omega⟩
  · exact ⟨n - 1, by omega, by omega⟩

theorem place_add (h0 : 0 < s.size.toNat) (hsub : s.virt ⊆ p.virt) (k : Nat) :
    p.place (s.addr.toNat + k) = p.place s.addr.toNat + k := by
  have hv := ((Shdr.virt_subset h0).1 hsub).1
  unfold Phdr.place
  omega

/-- A section with bytes in the file is moved as its segment is. -/
theorem moved_of_loads (hL : ∀ f : ElfFile, f.headers = h → f.Loads endian) (wf : h.WellFormed)
    (hs : s ∈ h.shdrs) (hal : s.Allocated) (hbits : s.type ≠ shtNobits) : h.Moved s := by
  intro p hp hpl hsub
  by_contra hne
  have hplace := toNat_displaced hal.pos hsub (wf.bounded p hp hpl).2
  have htarget : p.place s.addr.toNat ≠ h.target s := by
    rw [← hplace]
    exact fun he => hne ((BitVec.add_right_inj s.addr).1 (BitVec.eq_of_toNat_eq he)).symm
  obtain ⟨k, hk, hout⟩ := exists_outside hal.pos htarget
  refine not_loads_of_unmarked hL wf hs hal hbits hp hpl hsub hk hk fun mem hm => ?_
  rw [writeBytes_of_not_mem]
  · exact hm
  · rw [h.length_handed endian 0xaa#8 (length_marked s s.size.toNat s), place_add hal.pos hsub]
    exact hout

/-- What comes first behind a swap: a byte that did not, or one of three zeros. -/
theorem handed_first {a : U8} {bs : List U8} (hc : content s = a :: bs)
    (hl : (content s).length = s.size.toNat) (h1 : 1 < s.size.toNat) (hne : endian ≠ .big) :
    ∃ b, (h.handed content endian v s)[0]? = some b ∧
      if s.size.toNat = 3 then b = 0#8 else b ∈ bs := by
  have hlen := h.length_handed endian v hl
  obtain ⟨b, hb⟩ : ∃ b, (h.handed content endian v s)[0]? = some b :=
    ⟨_, List.getElem?_eq_getElem (by omega)⟩
  refine ⟨b, hb, ?_⟩
  have hsize : ((h.loaded content s).request .little).size = s.size.toNat := rfl
  have hdata : ((h.loaded content s).request .little).data = content s := h.loaded_data hl
  unfold handed Env.handed Env.swapped at hb
  rw [if_pos ⟨h1, hne.symm⟩] at hb
  dsimp only at hb
  rw [hdata, hc, hsize] at hb
  rw [hc, List.length_cons] at hl
  have hfirst := memcpyswp_first h1 hl hb
  split at hfirst
  · rename_i h3
    rw [if_pos h3]
    rw [h3] at hfirst
    exact List.eq_of_mem_replicate hfirst
  · rename_i h3
    rw [if_neg h3]
    exact hfirst

/-- The bytes of a word are only in order on a big-endian port. -/
theorem big_of_loads (hL : ∀ f : ElfFile, f.headers = h → f.Loads endian) (wf : h.WellFormed)
    (hs : s ∈ h.shdrs) (hal : s.Allocated) (hbits : s.type ≠ shtNobits)
    (h1 : 1 < s.size.toNat) : endian = .big := by
  by_contra hne
  obtain ⟨p, hp, hpl, hsub⟩ := wf.inside s hs hal
  have htarget := (moved_of_loads hL wf hs hal hbits).target wf hal hp hpl hsub
  have hmark : marked s 1 s = 0x55#8 :: List.replicate (s.size.toNat - 1) 0xaa#8 := by
    unfold marked
    rw [if_pos rfl, show min 1 s.size.toNat = 1 by omega]
    rfl
  refine not_loads_of_unmarked hL wf hs hal hbits hp hpl hsub (k := 0) (m := 1) Nat.one_pos hal.pos
    fun mem hm => ?_
  obtain ⟨b, hb, hfirst⟩ :=
    handed_first (h := h) (v := 0xaa#8) hmark (length_marked s 1 s) h1 hne
  have hlen := h.length_handed endian 0xaa#8 (length_marked s 1 s)
  rw [Nat.add_zero, ← htarget]
  unfold writeBytes
  rw [if_pos ⟨Nat.le_refl _, by omega⟩, Nat.sub_self, List.getD_eq_getElem?_getD, hb]
  show b ≠ 0x55#8
  split at hfirst
  · rw [hfirst]
    decide
  · rw [List.eq_of_mem_replicate hfirst]
    decide

/-! ## Zeros on other ports -/

/-- Every byte of the file, and of fresh memory, is the same. -/
def filled (w : U8) (s : Shdr) : List U8 := List.replicate s.size.toNat w

theorem length_filled (w : U8) (s : Shdr) : (filled w s).length = s.size.toNat :=
  List.length_replicate

/-- Where the loader puts zeros for a section, of bytes that are not zero. -/
def zeros (h : ElfHeaders) (endian : Endian) (t : Shdr) : List Nat :=
  (h.targets t).filter fun x =>
    (h.handed (filled 0xff#8) endian 0xff#8 t).getD (x - h.target t) 0xff#8 = 0#8

theorem length_targets (h : ElfHeaders) (t : Shdr) : (h.targets t).length = t.size.toNat :=
  List.length_range'

/-- Only three bytes become zeros altogether. -/
theorem size_of_zeros (hne : endian ≠ .big) (hal : t.Allocated)
    (hz : (h.zeros endian t).length = t.size.toNat) : t.size = 3#32 := by
  rw [← h.length_targets t] at hz
  have hall := List.length_filter_eq_length_iff.1 hz
  have hpos := hal.pos
  have hfirst := hall (h.target t) (mem_targets.2 ⟨Nat.le_refl _, by omega⟩)
  rw [decide_eq_true_iff, Nat.sub_self] at hfirst
  obtain ⟨n, hn⟩ : ∃ n, t.size.toNat = n + 1 := ⟨t.size.toNat - 1, by omega⟩
  have hc : filled 0xff#8 t = 0xff#8 :: List.replicate n 0xff#8 := by
    unfold filled
    rw [hn]
    rfl
  by_cases h1 : 1 < t.size.toNat
  · obtain ⟨b, hb, h3⟩ :=
      handed_first (h := h) (v := 0xff#8) hc (length_filled 0xff#8 t) h1 hne
    rw [List.getD_eq_getElem?_getD, hb] at hfirst
    split at h3
    · rename_i hthree
      exact BitVec.eq_of_toNat_eq hthree
    · rw [List.eq_of_mem_replicate h3] at hfirst
      exact absurd hfirst (by decide)
  · have hhanded : h.handed (filled 0xff#8) endian 0xff#8 t = filled 0xff#8 t :=
      (if_neg fun hc => h1 hc.1).trans (h.loaded_data (length_filled 0xff#8 t))
    rw [hhanded, hc] at hfirst
    exact absurd (show 0xff#8 = 0#8 from hfirst) (by decide)

section Cleared

variable (hL : ∀ f : ElfFile, f.headers = h → f.Loads endian) (wf : h.WellFormed)
  (hne : endian ≠ .big)

include hL wf hne

/-- A section without bytes in the file is cleared by zeros that are put on its places. -/
theorem zeros_of_loads (hs : s ∈ h.blank) (hp : p ∈ h.phdrs) (hpl : p.type = ptLoad)
    (has : a ∈ s.virt) (hap : a ∈ p.virt) : ∃ t ∈ h.blank, p.place a ∈ h.zeros endian t := by
  obtain ⟨hs, hal, hno⟩ := mem_blank.1 hs
  by_contra hnone
  have hread := file_read hL wf (length_filled 0xff#8) 0xff#8 hs hal hp hpl
    (wf.subset_of_mem hs hal hp hpl has hap) has
  have himage : (scn (filled 0xff#8) s).image = List.replicate s.size.toNat 0#8 := if_pos hno
  obtain ⟨h1, h2⟩ := has
  rw [himage, List.getD_replicate _ (by omega)] at hread
  refine file_keeps h endian (v := 0xff#8) (P := (· ≠ 0#8)) (length_filled 0xff#8) (by decide)
    (x := p.place a) (fun t ht hal' mem hm => ?_) hread
  by_cases hbits : t.type = shtNobits
  · -- its zeros are not put here
    have hz : p.place a ∉ h.zeros endian t :=
      fun hz => hnone ⟨t, mem_blank.2 ⟨ht, hal', hbits⟩, hz⟩
    have hlen := h.length_handed endian 0xff#8 (length_filled 0xff#8 t)
    unfold writeBytes
    split
    · rename_i hx
      rw [hlen] at hx
      intro h0
      refine hz (List.mem_filter.2 ⟨mem_targets.2 hx, decide_eq_true ?_⟩)
      rw [List.getD_eq_getElem _ _ (by omega)] at h0 ⊢
      exact h0
    · exact hm
  · have h1 : ¬1 < t.size.toNat := fun h1 => hne (big_of_loads hL wf ht hal' hbits h1)
    have hhanded : h.handed (filled 0xff#8) endian 0xff#8 t = filled 0xff#8 t :=
      (if_neg fun hc => h1 hc.1).trans (h.loaded_data (length_filled 0xff#8 t))
    refine writeBytes_keeps (P := (· ≠ 0#8)) hm fun b hb => ?_
    rw [hhanded] at hb
    rw [List.eq_of_mem_replicate hb]
    decide

/-- There are no more zeros than bytes to clear only if all sections without bytes in the file have
three. -/
theorem cleared_of_loads (hs : s ∈ h.shdrs) (hal : s.Allocated) (hno : s.type = shtNobits) :
    h.Cleared s := by
  have hs' : s ∈ h.blank := mem_blank.2 ⟨hs, hal, hno⟩
  have hp : Nonempty Phdr := ⟨⟨0#32, 0#32, 0#32, 0#32, 0#32⟩⟩
  choose! seg hseg using wf.inside
  have hcover : (h.blank.flatMap fun s => (seg s).places s) ⊆ h.blank.flatMap (h.zeros endian) := by
    intro x hx
    obtain ⟨t, ht, hx⟩ := List.mem_flatMap.1 hx
    obtain ⟨a, ha, rfl⟩ := List.mem_map.1 hx
    obtain ⟨hp, hpl, hsub⟩ := hseg t (mem_blank.1 ht).1 (mem_blank.1 ht).2.1
    have ha := Shdr.mem_virt.1 ha
    exact List.mem_flatMap.2 (zeros_of_loads hL wf hne ht hp hpl ha (hsub ha))
  have hplaces : ∀ t : Shdr, ((seg t).places t).length = t.size.toNat := fun t => by
    unfold Phdr.places
    rw [List.length_map, List.length_range']
  have hle : ∀ t ∈ h.blank, (h.zeros endian t).length ≤ ((seg t).places t).length := fun t _ => by
    rw [hplaces, ← h.length_targets t]
    exact List.length_filter_le _ _
  have hlen := Tiles.length_eq (wf.nodup_places hseg) hcover hle s hs'
  rw [hplaces] at hlen
  refine ⟨size_of_zeros hne hal hlen, fun p hp hpl a has hap => ?_⟩
  obtain ⟨t, ht, hx⟩ := zeros_of_loads hL wf hne hs' hp hpl has hap
  obtain ⟨ht, hal', hno'⟩ := mem_blank.1 ht
  exact ⟨t, ht, hal', hno', mem_targets.1 (List.mem_of_mem_filter hx)⟩

end Cleared

/-- Files with these headers are loaded if and only if every allocated section is followed: it has
bytes in the file, they need no swap, and the last header that covers it moves it as its segment
does. On a port that swaps, three bytes without an image of their own come out right as well, if
every header that covers them puts them into such a section. -/
theorem loads_iff (wf : h.WellFormed) : (∀ f : ElfFile, f.headers = h → f.Loads endian) ↔
    ∀ s ∈ h.shdrs, s.Allocated → h.Followed endian s := by
  constructor
  · intro hL s hs hal
    unfold Followed
    split
    · rename_i hno
      have hne : endian ≠ .big := by
        rintro rfl
        exact bits_of_loads hL wf hs hal hno
      exact ⟨hne, cleared_of_loads hL wf hne hs hal hno⟩
    · rename_i hbits
      refine ⟨?_, moved_of_loads hL wf hs hal hbits⟩
      by_cases h1 : 1 < s.size.toNat
      · exact .inl (big_of_loads hL wf hs hal hbits h1)
      · have hpos := hal.pos
        have hone : s.size.toNat = 1 := by omega
        exact .inr (BitVec.eq_of_toNat_eq hone)
  · rintro hfol f rfl
    exact ElfFile.loads_of_followed wf hfol

/-- One segment with two sections side by side. -/
theorem wellFormed_pair {s t : Shdr} (hl : p.type = ptLoad)
    (hv : p.vaddr.toNat + p.memsz.toNat ≤ 2 ^ 32) (hp : p.paddr.toNat + p.memsz.toNat ≤ 2 ^ 32)
    (hs : p.vaddr.toNat ≤ s.addr.toNat) (hst : s.addr.toNat + s.size.toNat ≤ t.addr.toNat)
    (ht : t.addr.toNat + t.size.toNat ≤ p.vaddr.toNat + p.memsz.toNat) :
    WellFormed ⟨[p], [s, t]⟩ where
  bounded q hq _ := by
    obtain rfl := List.mem_singleton.1 hq
    exact ⟨hv, hp⟩
  segments := List.pairwise_singleton _ _
  inside u hu _ := by
    refine ⟨p, List.mem_singleton_self p, hl, ?_⟩
    obtain rfl | hu := List.mem_cons.1 hu
    · exact Set.Ico_subset_Ico hs (by omega)
    · obtain rfl := List.mem_singleton.1 hu
      exact Set.Ico_subset_Ico (by omega) ht
  sections := List.pairwise_pair.2 fun _ _ =>
    fun _ ha hb => Nat.not_le.2 (Nat.lt_of_lt_of_le ha.2 hst) hb.1

/-- Code and data of a program that runs behind an MMU. -/
def linked : ElfHeaders where
  phdrs := [{ type := ptLoad, offset := 0x2000#32, vaddr := 0xc0000000#32, paddr := 0#32,
              memsz := 0x100#32 }]
  shdrs := [{ type := 1#32, flags := 6#32, addr := 0xc0000000#32, offset := 0x2000#32,
              size := 0x80#32 },
            { type := 1#32, flags := 3#32, addr := 0xc0000080#32, offset := 0x2080#32,
              size := 0x40#32 }]

theorem linked_wellFormed : linked.WellFormed :=
  wellFormed_pair rfl (by decide) (by decide) (by decide) (by decide) (by decide)

/-- Three bytes that are not in the file, and a section that takes no memory. -/
def triple : ElfHeaders where
  phdrs := [{ type := ptLoad, offset := 0x2000#32, vaddr := 0x100#32, paddr := 0x100#32,
              memsz := 3#32 }]
  shdrs := [{ type := shtNobits, flags := 3#32, addr := 0x100#32, offset := 0x2000#32,
              size := 3#32 },
            { type := 1#32, flags := 0#32, addr := 0x103#32, offset := 0x2000#32, size := 0#32 }]

theorem triple_wellFormed : triple.WellFormed :=
  wellFormed_pair rfl (by decide) (by decide) (by decide) (by decide) (by decide)

/-- Code and data reach a big-endian port, three zeros one of the other endianness. -/
theorem loads_iff_linked : (linked.WellFormed ∧ ∀ f : ElfFile, f.headers = linked → f.Loads .big) ∧
    triple.WellFormed ∧ ∀ f : ElfFile, f.headers = triple → f.Loads .little := by
  refine ⟨⟨linked_wellFormed, (loads_iff linked_wellFormed).2 fun s hs _ => ?_⟩, triple_wellFormed,
    (loads_iff triple_wellFormed).2 fun s hs hal => ?_⟩
  · unfold Followed
    obtain rfl | hs := List.mem_cons.1 hs
    · refine ⟨.inl rfl, fun p hp _ _ => ?_⟩
      obtain rfl := List.mem_singleton.1 hp
      rfl
    · obtain rfl := List.mem_singleton.1 hs
      refine ⟨.inl rfl, fun p hp _ _ => ?_⟩
      obtain rfl := List.mem_singleton.1 hp
      rfl
  · obtain rfl | hs := List.mem_cons.1 hs
    · refine ⟨nofun, rfl, fun p hp _ a ha _ => ⟨_, List.mem_cons_self, hal, rfl, ?_⟩⟩
      obtain rfl := List.mem_singleton.1 hp
      obtain ⟨h1, h2⟩ := ha
      exact ⟨Nat.le_add_right _ _, Nat.add_lt_add_left (Nat.sub_lt_left_of_lt_add h1 h2) _⟩
    · obtain rfl := List.mem_singleton.1 hs
      exact absurd hal (by decide)

/-- An instruction and a variable behind it that starts as zero. -/
def withBss : ElfFile where
  phdrs := [{ type := ptLoad, offset := 0x2100#32, vaddr := 0x100#32, paddr := 0x100#32,
              memsz := 8#32 }]
  scns := [{ shdr := { type := 1#32, flags := 6#32, addr := 0x100#32, offset := 0x2100#32,
                       size := 4#32 }
             contents := [0x15#8, 0#8, 0#8, 0#8], rawdata := [some [0x15#8, 0#8, 0#8, 0#8]] },
           { shdr := { type := shtNobits, flags := 3#32, addr := 0x104#32, offset := 0x2104#32,
                       size := 4#32 }
             contents := [], rawdata := [none] }]

theorem withBss_wellFormed : withBss.headers.WellFormed :=
  wellFormed_pair rfl (by decide) (by decide) (by decide) (by decide) (by decide)

theorem withBss_fits : withBss.Fits (Memory.env 0x8000 fun _ => 0#8)
    (fun w i => w.mem ((0#32).toNat + i)) (fun w => w.dev.size = 0x8000) 0#32 0x8000
    [List.replicate 4 0#8, List.replicate 4 0xff#8] where
  allocates _ := List.length_replicate
  ram := (Memory.ofSize_env _ _).ram (by decide)
  room p hp _ := by
    obtain rfl := List.mem_singleton.1 hp
    exact Set.Ico_subset_Ico (by decide) (by decide)
  fresh := .cons rfl (.cons rfl .nil)
  parsed s hs := by
    obtain rfl | hs := List.mem_cons.1 hs
    · exact ⟨nofun, fun _ => rfl, fun _ => rfl⟩
    · obtain rfl := List.mem_singleton.1 hs
      exact ⟨fun _ => by decide, fun ht => (ht rfl).elim, fun ht => (ht rfl).elim⟩

/-- The variable starts as what the host's memory held. -/
theorem loads_iff_fails : withBss.headers.WellFormed ∧ ¬withBss.Loads .big := by
  refine ⟨withBss_wellFormed, fun hL => ?_⟩
  have hread := hL Memory _ _ _ _ _ _ rfl withBss_fits _ (List.mem_cons_of_mem _ List.mem_cons_self)
    (by decide) _ (List.mem_singleton_self _) rfl 0x104 ⟨by decide, by decide⟩
    ⟨by decide, by decide⟩
  exact absurd hread (by decide)

end ElfHeaders

end Or1kiss
