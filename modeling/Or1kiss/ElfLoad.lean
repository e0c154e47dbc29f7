import Mathlib.Data.List.Forall2
import Mathlib.Data.List.Nodup
import Mathlib.Data.List.Pairwise
import Mathlib.Order.Interval.Set.LinearOrder
import Or1kiss.Lib.Loops
import Or1kiss.Lib.Tiles
import Or1kiss.Gdb
import Or1kiss.Transfer

/-!
# Loading a program

`elf.cpp`. The constructor of `elf_section` copies a section's data into fresh host memory and
takes the physical address from the program headers, by their place in the file. `elf::load`
writes the allocated sections to the port, each with one debug request. The file is what libelf
hands out: the headers, and the descriptors that `elf_rawdata` returns for a section.
-/

namespace Or1kiss

open Host Bits

variable {σ : Type}

/-! ## elf.h of the host -/

/-- `Elf32_Phdr` -/
structure Phdr where
  type : U32
  offset : U32
  vaddr : U32
  paddr : U32
  memsz : U32
  deriving DecidableEq, Repr

/-- `Elf32_Shdr` -/
structure Shdr where
  type : U32
  flags : U32
  addr : U32
  offset : U32
  size : U32
  deriving DecidableEq, Repr

/-- `PT_LOAD` -/
abbrev ptLoad : U32 := 1#32

/-- `SHT_NOBITS` -/
abbrev shtNobits : U32 := 8#32

/-- `SHF_WRITE` -/
abbrev shfWrite : U32 := 1#32

/-- `SHF_ALLOC` -/
abbrev shfAlloc : U32 := 2#32

/-- `SHF_EXECINSTR` -/
abbrev shfExecinstr : U32 := 4#32

/-- A section: its header, its bytes in the file, and the buffers of the descriptors that
`elf_rawdata` returns one after the other (`none` is a null `d_buf`). -/
structure ElfScn where
  shdr : Shdr
  contents : List U8
  rawdata : List (Option (List U8))
  deriving DecidableEq, Repr

structure ElfFile where
  phdrs : List Phdr
  scns : List ElfScn
  deriving DecidableEq, Repr

/-! ## elf_section -/

/-- An `elf_section`, over the members that the debugger uses. -/
structure LoadSection extends ElfSection where
  data : List U8
  flagAlloc : Bool
  flagWrite : Bool
  flagExec : Bool
  deriving DecidableEq, Repr

/-- The test of a program header for a section. -/
def Phdr.covers (p : Phdr) (s : Shdr) : Bool :=
  let start : U64 := p.offset.setWidth 64
  let stop : U64 := (p.offset + p.memsz).setWidth 64
  decide (start ≠ 0#64) && decide (start ≤ s.offset.setWidth 64) &&
    decide (s.offset.setWidth 64 < stop)

/-- The loop over the program headers. -/
def physAddr (phdrs : List Phdr) (s : Shdr) : U64 :=
  phdrs.foldl (fun m p => if p.covers s then (p.paddr + (s.addr - p.vaddr)).setWidth 64 else m)
    (s.addr.setWidth 64)

/-- `memcpy(m_data + copied, src, n)` -/
def copyAt (m : List U8) (copied : Nat) (src : List U8) : List U8 :=
  m.take copied ++ src ++ m.drop (copied + src.length)

/-- The loop over the descriptors; it leaves `copied` as it is. -/
def copyRawdata (copied : Nat) (size : U32) : List (Option (List U8)) → List U8 → List U8
  | [], m => m
  | buf :: bufs, m =>
    if copied < size.toNat then
      copyRawdata copied size bufs (match buf with
        | some src => copyAt m copied src
        | none => m)
    else m

namespace LoadSection

/-- The constructor; `fresh` is what `new` returns. -/
def new (phdrs : List Phdr) (scn : ElfScn) (fresh : List U8) : LoadSection where
  virtAddr := scn.shdr.addr.setWidth 64
  physAddr := physAddr phdrs scn.shdr
  size := scn.shdr.size
  data := copyRawdata 0 scn.shdr.size scn.rawdata fresh
  flagAlloc := scn.shdr.flags &&& shfAlloc != 0#32
  flagWrite := scn.shdr.flags &&& shfWrite != 0#32
  flagExec := scn.shdr.flags &&& shfExecinstr != 0#32

/-- The request of `load`. -/
def request (s : LoadSection) (hostEndian : Endian) : Request :=
  { Request.init hostEndian with
    read := false, debug := true, addr := s.physAddr.setWidth 32, data := s.data,
    size := s.size.toNat, imem := s.flagExec, endian := .big }

variable [EnvImpl σ]

/-- The answer of the port decides about a warning only. -/
def load (s : LoadSection) (e : Env σ) : Env σ :=
  if !s.flagAlloc then e
  else if s.size = 0#32 then e
  else (e.convertAndTransact (s.request e.hostEndian)).2.2

end LoadSection

namespace ElfFile

/-- The sections of the constructor `elf(fname)`, each with its fresh memory. -/
def sections (f : ElfFile) (heap : List (List U8)) : List LoadSection :=
  (f.scns.zip heap).map fun p => .new f.phdrs p.1 p.2

/-- `elf::load`, of a file that has just been opened. -/
def load [EnvImpl σ] (f : ElfFile) (heap : List (List U8)) (e : Env σ) : Env σ :=
  (f.sections heap).foldl (fun e s => s.load e) e

end ElfFile

/-! ## The file format -/

/-- The addresses of a segment in the program. -/
def Phdr.virt (p : Phdr) : Set Nat := Set.Ico p.vaddr.toNat (p.vaddr.toNat + p.memsz.toNat)

/-- Its addresses in memory. -/
def Phdr.phys (p : Phdr) : Set Nat := Set.Ico p.paddr.toNat (p.paddr.toNat + p.memsz.toNat)

/-- Where the segment puts an address of the program. -/
def Phdr.place (p : Phdr) (a : Nat) : Nat := p.paddr.toNat + (a - p.vaddr.toNat)

/-- How far the segment is moved. -/
def Phdr.displacement (p : Phdr) : U32 := p.paddr - p.vaddr

def Shdr.virt (s : Shdr) : Set Nat := Set.Ico s.addr.toNat (s.addr.toNat + s.size.toNat)

/-- The section takes memory. -/
def Shdr.Allocated (s : Shdr) : Prop := s.flags &&& shfAlloc ≠ 0#32 ∧ s.size ≠ 0#32

instance (s : Shdr) : Decidable s.Allocated := inferInstanceAs (Decidable (_ ∧ _))

/-- What the program finds in a section. -/
def ElfScn.image (scn : ElfScn) : List U8 :=
  if scn.shdr.type = shtNobits then List.replicate scn.shdr.size.toNat 0#8 else scn.contents

/-- What is relied on in libelf: a section without bytes in the file has null buffers only, and
another one a single descriptor with its bytes. -/
structure ElfScn.Parsed (scn : ElfScn) : Prop where
  nobits : scn.shdr.type = shtNobits → ∀ buf ∈ scn.rawdata, buf = none
  bits : scn.shdr.type ≠ shtNobits → scn.rawdata = [some scn.contents]
  length : scn.shdr.type ≠ shtNobits → scn.contents.length = scn.shdr.size.toNat

/-- No address is in both. -/
def Separate (s t : Set Nat) : Prop := ∀ a ∈ s, a ∉ t

theorem Separate.symm {s t : Set Nat} (h : Separate s t) : Separate t s :=
  fun a ht hs => h a hs ht

structure ElfHeaders where
  phdrs : List Phdr
  shdrs : List Shdr
  deriving DecidableEq, Repr

def ElfFile.headers (f : ElfFile) : ElfHeaders := ⟨f.phdrs, f.scns.map (·.shdr)⟩

/-- Segments do not wrap and do not overlap, and neither do the sections that they contain. -/
structure ElfHeaders.WellFormed (h : ElfHeaders) : Prop where
  bounded : ∀ p ∈ h.phdrs, p.type = ptLoad →
    p.vaddr.toNat + p.memsz.toNat ≤ 2 ^ 32 ∧ p.paddr.toNat + p.memsz.toNat ≤ 2 ^ 32
  segments : h.phdrs.Pairwise fun p q => p.type = ptLoad → q.type = ptLoad →
    Separate p.virt q.virt ∧ Separate p.phys q.phys
  inside : ∀ s ∈ h.shdrs, s.Allocated → ∃ p ∈ h.phdrs, p.type = ptLoad ∧ s.virt ⊆ p.virt
  sections : h.shdrs.Pairwise fun s t => s.Allocated → t.Allocated → Separate s.virt t.virt

/-- The last program header that the loader takes a section for a part of. -/
def lastCovering (phdrs : List Phdr) (s : Shdr) : Option Phdr :=
  phdrs.reverse.find? fun p => p.covers s

namespace ElfHeaders

/-- Where the loader puts a section. -/
def target (h : ElfHeaders) (s : Shdr) : Nat :=
  (s.addr + (lastCovering h.phdrs s).elim 0#32 Phdr.displacement).toNat

/-- The last covering header moves the section as its segment does; without such a header the
segment is not moved. -/
def Moved (h : ElfHeaders) (s : Shdr) : Prop :=
  ∀ p ∈ h.phdrs, p.type = ptLoad → s.virt ⊆ p.virt →
    (lastCovering h.phdrs s).elim 0#32 Phdr.displacement = p.displacement

/-- Three bytes, and on each of their places the loader puts a section without bytes in the file. -/
def Cleared (h : ElfHeaders) (s : Shdr) : Prop :=
  s.size = 3#32 ∧ ∀ p ∈ h.phdrs, p.type = ptLoad → ∀ a ∈ s.virt, a ∈ p.virt →
    ∃ t ∈ h.shdrs, t.Allocated ∧ t.type = shtNobits ∧
      p.place a ∈ Set.Ico (h.target t) (h.target t + t.size.toNat)

/-- What the loader makes of the section is its image: it has bytes in the file, and they are moved
as the segment is and come in their order. Where words are swapped, no byte of a buffer of three is
copied, and zeros take their place. -/
def Followed (h : ElfHeaders) (endian : Endian) (s : Shdr) : Prop :=
  if s.type = shtNobits then endian ≠ .big ∧ h.Cleared s
  else (endian = .big ∨ s.size = 1#32) ∧ h.Moved s

variable {h : ElfHeaders} {endian : Endian} {s : Shdr}

theorem Followed.moved (hf : h.Followed endian s) (hbits : s.type ≠ shtNobits) :
    (endian = .big ∨ s.size = 1#32) ∧ h.Moved s := by
  unfold Followed at hf
  rwa [if_neg hbits] at hf

theorem Followed.cleared (hf : h.Followed endian s) (hno : s.type = shtNobits) :
    endian ≠ .big ∧ h.Cleared s := by
  unfold Followed at hf
  rwa [if_pos hno] at hf

end ElfHeaders

/-! ## Ports that are memory -/

/-- The port is memory for the `n` bytes from `base` on: it takes every write, as long as `ok`
holds of its world, which writes do not change. -/
structure Env.Ram [EnvImpl σ] (e : Env σ) (byteAt : World σ → Nat → U8) (ok : World σ → Prop)
    (base : U32) (n : Nat) : Prop where
  fits : base.toNat + n ≤ 2 ^ 32
  stores : ∀ imem, e.Stores byteAt imem base n
  ready : ok e.world
  serves : ∀ (req : Request) (w : World σ) (imem : Bool) (k : Nat), req.Within imem base n k →
    req.read = false → ok w →
    (EnvImpl.transact req w).resp = .success ∧ ok (EnvImpl.transact req w).world
  pointer : ∀ (w : World σ) (p : Nat) (bs : List U8), ok w →
    ok { w with mem := writeBytes w.mem p bs }

/-- The file is read by libelf, each section into memory of its size, and `e` has room for the
segments. -/
structure ElfFile.Fits [EnvImpl σ] (f : ElfFile) (e : Env σ) (byteAt : World σ → Nat → U8)
    (ok : World σ → Prop) (base : U32) (n : Nat) (heap : List (List U8)) : Prop where
  allocates : e.Allocates
  ram : e.Ram byteAt ok base n
  room : ∀ p ∈ f.phdrs, p.type = ptLoad → p.phys ⊆ Set.Ico base.toNat (base.toNat + n)
  fresh : List.Forall₂ (fun scn fresh => fresh.length = scn.shdr.size.toNat) f.scns heap
  parsed : ∀ scn ∈ f.scns, scn.Parsed

/-- After `elf::load` every byte of every allocated section is where the segment of its address
puts it, whatever memory it is loaded into and whatever the fresh memory held. -/
def ElfFile.Loads (f : ElfFile) (endian : Endian) : Prop :=
  ∀ (σ : Type) [EnvImpl σ] (e : Env σ) (byteAt : World σ → Nat → U8) (ok : World σ → Prop)
    (base : U32) (n : Nat) (heap : List (List U8)),
    e.endian = endian → f.Fits e byteAt ok base n heap →
    ∀ scn ∈ f.scns, scn.shdr.Allocated → ∀ p ∈ f.phdrs, p.type = ptLoad →
      ∀ a ∈ scn.shdr.virt, a ∈ p.virt →
        byteAt (f.load heap e).world (p.place a - base.toNat) =
          scn.image.getD (a - scn.shdr.addr.toNat) 0#8

/-! ## One section -/

theorem physAddr_eq (phdrs : List Phdr) (s : Shdr) : physAddr phdrs s =
    (s.addr + (lastCovering phdrs s).elim 0#32 Phdr.displacement).setWidth 64 := by
  unfold physAddr lastCovering
  rw [Loops.foldl_last]
  cases phdrs.reverse.find? _ with
  | none =>
    show s.addr.setWidth 64 = (s.addr + 0#32).setWidth 64
    rw [BitVec.add_zero]
  | some p =>
    show (p.paddr + (s.addr - p.vaddr)).setWidth 64 = (s.addr + (p.paddr - p.vaddr)).setWidth 64
    congr 1
    grind

/-- The port's addresses have 32 bits. -/
theorem setWidth_physAddr (phdrs : List Phdr) (s : Shdr) : (physAddr phdrs s).setWidth 32 =
    s.addr + (lastCovering phdrs s).elim 0#32 Phdr.displacement := by
  rw [physAddr_eq, BitVec.setWidth_setWidth_of_le _ (by decide), BitVec.setWidth_eq]

theorem ElfScn.Parsed.length_image {scn : ElfScn} (h : scn.Parsed) :
    scn.image.length = scn.shdr.size.toNat := by
  unfold image
  split
  · exact List.length_replicate
  · rename_i hbits
    exact h.length hbits

theorem copyRawdata_null {size : U32} {bufs : List (Option (List U8))} {m : List U8}
    (h : ∀ buf ∈ bufs, buf = none) : copyRawdata 0 size bufs m = m := by
  induction bufs with
  | nil => rfl
  | cons buf bufs ih =>
    rw [List.forall_mem_cons] at h
    obtain ⟨rfl, h⟩ := h
    show (if 0 < size.toNat then copyRawdata 0 size bufs m else m) = m
    rw [ih h, ite_self]

theorem copyRawdata_one {size : U32} {src m : List U8} (hs : src.length = size.toNat)
    (hm : m.length = size.toNat) : copyRawdata 0 size [some src] m = src := by
  have hd : m.drop (0 + src.length) = [] := List.drop_of_length_le (by omega)
  unfold copyRawdata
  split
  · show m.take 0 ++ src ++ m.drop (0 + src.length) = src
    rw [hd, List.take_zero, List.nil_append, List.append_nil]
  · rw [List.length_eq_zero_iff.1 (show m.length = 0 by omega),
      List.length_eq_zero_iff.1 (show src.length = 0 by omega)]

namespace LoadSection

variable {phdrs : List Phdr} {scn : ElfScn} {fresh : List U8}

/-- Without bytes in the file the fresh memory stays as it is. -/
theorem data_new (hs : scn.Parsed) (hl : fresh.length = scn.shdr.size.toNat) :
    (new phdrs scn fresh).data = if scn.shdr.type = shtNobits then fresh else scn.contents := by
  show copyRawdata 0 scn.shdr.size scn.rawdata fresh = _
  split
  · rename_i h
    exact copyRawdata_null (hs.nobits h)
  · rename_i h
    rw [hs.bits h]
    exact copyRawdata_one (hs.length h) hl

theorem length_data_new (hs : scn.Parsed) (hl : fresh.length = scn.shdr.size.toNat) :
    (new phdrs scn fresh).data.length = scn.shdr.size.toNat := by
  rw [data_new hs hl]
  split
  · exact hl
  · rename_i h
    exact hs.length h

/-- The port is handed the image of a section that is followed. -/
theorem handed_new {h : ElfHeaders} {t : Env σ} (phdrs : List Phdr) (hs : scn.Parsed)
    (hl : fresh.length = scn.shdr.size.toNat) (hfol : h.Followed t.endian scn.shdr)
    (hostEndian : Endian) : t.handed ((new phdrs scn fresh).request hostEndian) = scn.image := by
  have hdata : (new phdrs scn fresh).data = if scn.shdr.type = shtNobits then fresh
      else scn.contents := data_new hs hl
  by_cases hno : scn.shdr.type = shtNobits
  · obtain ⟨hne, h3, -⟩ := hfol.cleared hno
    have hsize : ((new phdrs scn fresh).request hostEndian).size = 3 :=
      congrArg BitVec.toNat h3
    have himage : scn.image = List.replicate 3 0#8 := by
      unfold ElfScn.image
      rw [if_pos hno, h3]
      rfl
    rw [himage]
    unfold Env.handed Env.swapped
    rw [hsize, if_pos ⟨by decide, Ne.symm hne⟩]
    rfl
  · obtain ⟨hword, -⟩ := hfol.moved hno
    rw [if_neg hno] at hdata
    have himage : scn.image = scn.contents := if_neg hno
    rw [himage, ← hdata]
    refine if_neg fun hc => ?_
    obtain hb | h1 := hword
    · exact hc.2 hb.symm
    · have hsize : ((new phdrs scn fresh).request hostEndian).size = 1 :=
        congrArg BitVec.toNat h1
      rw [hsize] at hc
      exact absurd hc.1 (by decide)

variable [EnvImpl σ]

theorem load_allocated (h : scn.shdr.Allocated) (t : Env σ) : (new phdrs scn fresh).load t =
    (t.convertAndTransact ((new phdrs scn fresh).request t.hostEndian)).2.2 := by
  have ha : (new phdrs scn fresh).flagAlloc = true := bne_iff_ne.2 h.1
  unfold load
  rw [ha]
  exact if_neg h.2

theorem load_not_allocated (h : ¬scn.shdr.Allocated) (t : Env σ) :
    (new phdrs scn fresh).load t = t := by
  unfold load
  split
  · rfl
  · rename_i ha
    have hf : scn.shdr.flags &&& shfAlloc ≠ 0#32 := by
      rw [Bool.not_eq_true', Bool.not_eq_false] at ha
      exact bne_iff_ne.1 ha
    exact if_pos (Decidable.not_not.1 fun h0 => h ⟨hf, h0⟩)

theorem load_served (s : LoadSection) (t : Env σ) : Env.Served t (s.load t) := by
  unfold load
  split
  · exact .refl t
  · split
    · exact .refl t
    · exact Env.convertAndTransact_served _

end LoadSection

namespace Env

variable [EnvImpl σ] {e t : Env σ} {byteAt : World σ → Nat → U8} {ok : World σ → Prop}
  {imem : Bool} {base : U32} {n k : Nat} {req : Request}

theorem Served.ram (h : Served e t) (hok : ok t.world) (hr : e.Ram byteAt ok base n) :
    t.Ram byteAt ok base n :=
  ⟨hr.fits, fun imem => h.stores (hr.stores imem), hok, hr.serves, hr.pointer⟩

theorem Ram.access (hr : e.Ram byteAt ok base n) (hreq : req.Within imem base n k)
    (hw : req.read = false) :
    (e.access req).1 = .success ∧ ok (e.access req).2.2.world := by
  cases hp : (e.directMemoryPtr req).1 with
  | some p =>
    obtain ⟨hs, -, hm⟩ := access_copies hreq.excl hp
    rw [hw, if_neg Bool.false_ne_true] at hm
    rw [hm]
    exact ⟨hs, hr.pointer _ _ _ hr.ready⟩
  | none =>
    obtain ⟨c, hc⟩ := access_transact hp
    rw [hc]
    exact hr.serves _ e.world imem k ⟨hreq.imem, hreq.excl, hreq.addr, hreq.fits⟩ hw hr.ready

/-- Memory takes every write. -/
theorem Ram.write (hr : e.Ram byteAt ok base n) (ha : e.Allocates)
    (hreq : req.Within imem base n k) (hw : req.read = false) (hl : req.data.length = req.size) :
    ok (e.convertAndTransact req).2.2.world ∧
      ∀ i < n, byteAt (e.convertAndTransact req).2.2.world i =
        writeBytes (byteAt e.world) k (e.handed req) i := by
  have hserve : (e.convertAndTransact req).1 = .success ∧
      ok (e.convertAndTransact req).2.2.world := by
    by_cases h : req.size > 1 ∧ req.endian ≠ e.endian
    · rw [convertAndTransact_swapped h]
      exact hr.access hreq.swapped hw
    · rw [convertAndTransact_direct h]
      exact hr.access hreq hw
  exact ⟨hserve.2, (convertAndTransact_write (hr.stores imem) ha hreq hw hl hserve.1).2⟩

end Env

/-! ## Places -/

theorem Shdr.Allocated.pos {s : Shdr} (h : s.Allocated) : 0 < s.size.toNat :=
  Nat.pos_of_ne_zero fun h0 => h.2 (BitVec.eq_of_toNat_eq h0)

theorem Shdr.virt_subset {s : Shdr} {p : Phdr} (h0 : 0 < s.size.toNat) :
    s.virt ⊆ p.virt ↔ p.vaddr.toNat ≤ s.addr.toNat ∧
      s.addr.toNat + s.size.toNat ≤ p.vaddr.toNat + p.memsz.toNat :=
  Set.Ico_subset_Ico_iff (by omega)

theorem Phdr.place_mem {p : Phdr} {a : Nat} (h : a ∈ p.virt) : p.place a ∈ p.phys := by
  obtain ⟨h1, h2⟩ := h
  exact ⟨by unfold Phdr.place; omega, by unfold Phdr.place; omega⟩

namespace ElfHeaders.WellFormed

variable {h : ElfHeaders} {p q : Phdr} {s t : Shdr} {a b : Nat}

theorem segment_unique (wf : h.WellFormed) (hp : p ∈ h.phdrs) (hq : q ∈ h.phdrs)
    (hpl : p.type = ptLoad) (hql : q.type = ptLoad) :
    p = q ∨ Separate p.virt q.virt ∧ Separate p.phys q.phys := by
  have hsymm : Std.Symm fun p q : Phdr => p.type = ptLoad → q.type = ptLoad →
      Separate p.virt q.virt ∧ Separate p.phys q.phys :=
    ⟨fun p q hpq hq hp => ⟨(hpq hp hq).1.symm, (hpq hp hq).2.symm⟩⟩
  by_cases he : p = q
  · exact .inl he
  · exact .inr (wf.segments.forall hp hq he hpl hql)

/-- Only one address of the program is put in a place of memory. -/
theorem place_inj (wf : h.WellFormed) (hp : p ∈ h.phdrs) (hq : q ∈ h.phdrs)
    (hpl : p.type = ptLoad) (hql : q.type = ptLoad) (ha : a ∈ p.virt) (hb : b ∈ q.virt)
    (he : p.place a = q.place b) : a = b := by
  obtain rfl | ⟨-, hd⟩ := wf.segment_unique hp hq hpl hql
  · have h1 := ha.1
    have h2 := hb.1
    unfold Phdr.place at he
    omega
  · have hm := Phdr.place_mem hb
    rw [← he] at hm
    exact (hd _ (Phdr.place_mem ha) hm).elim

/-- The segment of an address contains the whole section. -/
theorem subset_of_mem (wf : h.WellFormed) (hs : s ∈ h.shdrs) (hal : s.Allocated) (hp : p ∈ h.phdrs)
    (hpl : p.type = ptLoad) (ha : a ∈ s.virt) (hap : a ∈ p.virt) : s.virt ⊆ p.virt := by
  obtain ⟨q, hq, hql, hsub⟩ := wf.inside s hs hal
  obtain rfl | ⟨hd, -⟩ := wf.segment_unique hp hq hpl hql
  · exact hsub
  · exact (hd a hap (hsub ha)).elim

/-- An address belongs to one allocated section. -/
theorem section_unique {f : ElfFile} (wf : f.headers.WellFormed) {scn scn' : ElfScn}
    (hs : scn ∈ f.scns) (hs' : scn' ∈ f.scns) (hal : scn.shdr.Allocated)
    (hal' : scn'.shdr.Allocated) (ha : a ∈ scn.shdr.virt) (ha' : a ∈ scn'.shdr.virt) :
    scn = scn' := by
  have hd := List.pairwise_map.1 wf.sections
  have hsymm : Std.Symm fun s t : ElfScn => s.shdr.Allocated → t.shdr.Allocated →
      Separate s.shdr.virt t.shdr.virt := ⟨fun s t hst ht hs => (hst hs ht).symm⟩
  by_contra hne
  exact hd.forall hs hs' hne hal hal' a ha ha'

end ElfHeaders.WellFormed

/-- The displacement of the segment brings the section to its place. -/
theorem toNat_displaced {s : Shdr} {p : Phdr} (h0 : 0 < s.size.toNat) (hsub : s.virt ⊆ p.virt)
    (hb : p.paddr.toNat + p.memsz.toNat ≤ 2 ^ 32) :
    (s.addr + p.displacement).toNat = p.place s.addr.toNat := by
  obtain ⟨h1, h2⟩ := (Shdr.virt_subset h0).1 hsub
  have hv := p.vaddr.isLt
  have hs := s.addr.isLt
  unfold Phdr.displacement Phdr.place
  rw [BitVec.toNat_add, BitVec.toNat_sub]
  omega

/-! ## Where the sections land -/

/-- The places of a section in the segment. -/
def Phdr.places (p : Phdr) (s : Shdr) : List Nat :=
  (List.range' s.addr.toNat s.size.toNat).map p.place

theorem Shdr.mem_virt {s : Shdr} {a : Nat} :
    a ∈ List.range' s.addr.toNat s.size.toNat ↔ a ∈ s.virt := List.mem_range'_1

namespace ElfHeaders

variable {h : ElfHeaders} {endian : Endian} {p : Phdr} {s t : Shdr} {a x : Nat}

/-- The sections without bytes in the file that take memory. -/
def blank (h : ElfHeaders) : List Shdr :=
  h.shdrs.filter fun s => decide (s.Allocated ∧ s.type = shtNobits)

theorem mem_blank : s ∈ h.blank ↔ s ∈ h.shdrs ∧ s.Allocated ∧ s.type = shtNobits := by
  unfold blank
  rw [List.mem_filter, decide_eq_true_iff]

/-- Where the loader puts the bytes of a section. -/
def targets (h : ElfHeaders) (s : Shdr) : List Nat := List.range' (h.target s) s.size.toNat

theorem mem_targets : x ∈ h.targets s ↔ x ∈ Set.Ico (h.target s) (h.target s + s.size.toNat) :=
  List.mem_range'_1

/-- A section that is moved as its segment is starts at its place. -/
theorem Moved.target (wf : h.WellFormed) (hm : h.Moved s) (hal : s.Allocated) (hp : p ∈ h.phdrs)
    (hpl : p.type = ptLoad) (hsub : s.virt ⊆ p.virt) : h.target s = p.place s.addr.toNat := by
  unfold ElfHeaders.target
  rw [hm p hp hpl hsub]
  exact toNat_displaced hal.pos hsub (wf.bounded p hp hpl).2

namespace WellFormed

/-- Places of different addresses differ. -/
theorem nodup_places (wf : h.WellFormed) {seg : Shdr → Phdr}
    (hseg : ∀ s ∈ h.shdrs, s.Allocated →
      seg s ∈ h.phdrs ∧ (seg s).type = ptLoad ∧ s.virt ⊆ (seg s).virt) :
    (h.blank.flatMap fun s => (seg s).places s).Nodup := by
  refine List.nodup_flatMap.2 ⟨fun s hs => ?_, ?_⟩
  · obtain ⟨hs, hal, -⟩ := mem_blank.1 hs
    obtain ⟨hp, hpl, hsub⟩ := hseg s hs hal
    refine List.Nodup.map_on (fun a ha b hb he => ?_) List.nodup_range'
    exact wf.place_inj hp hp hpl hpl (hsub (Shdr.mem_virt.1 ha)) (hsub (Shdr.mem_virt.1 hb)) he
  · refine (List.Pairwise.and_mem.1 (wf.sections.filter _)).imp fun {s t} hst => ?_
    obtain ⟨hs, ht, hd⟩ := hst
    obtain ⟨hs, hal, -⟩ := mem_blank.1 hs
    obtain ⟨ht, hal', -⟩ := mem_blank.1 ht
    obtain ⟨hp, hpl, hsub⟩ := hseg s hs hal
    obtain ⟨hq, hql, hsub'⟩ := hseg t ht hal'
    intro x hx hx'
    obtain ⟨a, ha, rfl⟩ := List.mem_map.1 hx
    obtain ⟨b, hb, he⟩ := List.mem_map.1 hx'
    have ha := Shdr.mem_virt.1 ha
    have hb := Shdr.mem_virt.1 hb
    obtain rfl := wf.place_inj hq hp hql hpl (hsub' hb) (hsub ha) he
    exact hd hal hal' b ha hb

section Followed

variable (wf : h.WellFormed) (hfol : ∀ s ∈ h.shdrs, s.Allocated → h.Followed endian s)

include wf hfol

/-- The sections without bytes in the file land on the places of such sections only: there are as
many of these as there are bytes to put. -/
theorem blank_lands (ht : t ∈ h.blank) (hx : x ∈ h.targets t) : ∃ s ∈ h.blank,
    ∃ p ∈ h.phdrs, p.type = ptLoad ∧ ∃ a ∈ s.virt, a ∈ p.virt ∧ p.place a = x := by
  have hp : Nonempty Phdr := ⟨⟨0#32, 0#32, 0#32, 0#32, 0#32⟩⟩
  choose! seg hseg using wf.inside
  have hcover : (h.blank.flatMap fun s => (seg s).places s) ⊆ h.blank.flatMap h.targets := by
    intro x hx
    obtain ⟨s, hs, hx⟩ := List.mem_flatMap.1 hx
    obtain ⟨a, ha, rfl⟩ := List.mem_map.1 hx
    obtain ⟨hs, hal, hno⟩ := mem_blank.1 hs
    obtain ⟨hp, hpl, hsub⟩ := hseg s hs hal
    have ha := Shdr.mem_virt.1 ha
    obtain ⟨-, -, hput⟩ := (hfol s hs hal).cleared hno
    obtain ⟨t, ht, hal', hno', hx⟩ := hput _ hp hpl a ha (hsub ha)
    exact List.mem_flatMap.2 ⟨t, mem_blank.2 ⟨ht, hal', hno'⟩, mem_targets.2 hx⟩
  have hsame : ∀ s ∈ h.blank, (h.targets s).length ≤ ((seg s).places s).length := fun s _ => by
    unfold targets Phdr.places
    rw [List.length_range', List.length_map, List.length_range']
  obtain ⟨s, hs, hx⟩ := List.mem_flatMap.1 (Tiles.subset (wf.nodup_places hseg) hcover hsame
    (List.mem_flatMap.2 ⟨t, ht, hx⟩))
  obtain ⟨a, ha, rfl⟩ := List.mem_map.1 hx
  obtain ⟨hs', hal, -⟩ := mem_blank.1 hs
  obtain ⟨hp, hpl, hsub⟩ := hseg s hs' hal
  have ha := Shdr.mem_virt.1 ha
  exact ⟨s, hs, _, hp, hpl, a, ha, hsub ha, rfl⟩

/-- A section lands where it belongs, or, without bytes in the file, where such a one does. -/
theorem lands (ht : t ∈ h.shdrs) (hal : t.Allocated) (hx : x ∈ h.targets t) :
    ∃ s ∈ h.shdrs, s.Allocated ∧ ∃ p ∈ h.phdrs, p.type = ptLoad ∧ ∃ a ∈ s.virt, a ∈ p.virt ∧
      p.place a = x ∧ (t.type = shtNobits ∧ s.type = shtNobits ∨
        t.type ≠ shtNobits ∧ s = t ∧ a - t.addr.toNat = x - h.target t) := by
  by_cases hno : t.type = shtNobits
  · obtain ⟨s, hs, p, hp, hpl, a, ha, hap, he⟩ :=
      wf.blank_lands hfol (mem_blank.2 ⟨ht, hal, hno⟩) hx
    obtain ⟨hs, hal', hno'⟩ := mem_blank.1 hs
    exact ⟨s, hs, hal', p, hp, hpl, a, ha, hap, he, .inl ⟨hno, hno'⟩⟩
  · obtain ⟨p, hp, hpl, hsub⟩ := wf.inside t ht hal
    have htarget := ((hfol t ht hal).moved hno).2.target wf hal hp hpl hsub
    obtain ⟨hv, -⟩ := (Shdr.virt_subset hal.pos).1 hsub
    obtain ⟨h1, h2⟩ := mem_targets.1 hx
    have ha : t.addr.toNat + (x - h.target t) ∈ t.virt := ⟨by omega, by omega⟩
    have hplace : p.place (t.addr.toNat + (x - h.target t)) = x := by
      unfold Phdr.place at htarget ⊢
      omega
    exact ⟨t, ht, hal, p, hp, hpl, _, ha, hsub ha, hplace, .inr ⟨hno, rfl, by omega⟩⟩

/-- On every place of an allocated section some section lands. -/
theorem exists_lands (hs : s ∈ h.shdrs) (hal : s.Allocated) (hp : p ∈ h.phdrs)
    (hpl : p.type = ptLoad) (has : a ∈ s.virt) (hap : a ∈ p.virt) :
    ∃ t ∈ h.shdrs, t.Allocated ∧ p.place a ∈ h.targets t := by
  by_cases hno : s.type = shtNobits
  · obtain ⟨-, -, hput⟩ := (hfol s hs hal).cleared hno
    obtain ⟨t, ht, hal', -, hx⟩ := hput p hp hpl a has hap
    exact ⟨t, ht, hal', mem_targets.2 hx⟩
  · have hsub := wf.subset_of_mem hs hal hp hpl has hap
    have htarget := ((hfol s hs hal).moved hno).2.target wf hal hp hpl hsub
    obtain ⟨hv, -⟩ := (Shdr.virt_subset hal.pos).1 hsub
    obtain ⟨h1, h2⟩ := has
    refine ⟨s, hs, hal, mem_targets.2 ⟨?_, ?_⟩⟩
    · rw [htarget]
      unfold Phdr.place
      omega
    · rw [htarget]
      unfold Phdr.place
      omega

end Followed

end WellFormed

end ElfHeaders

namespace ElfFile

variable [EnvImpl σ] {f : ElfFile} {e t : Env σ} {byteAt : World σ → Nat → U8}
  {ok : World σ → Prop} {base : U32} {n : Nat} {heap : List (List U8)} {scn s : ElfScn}
  {fresh : List U8} {p : Phdr} {a : Nat}

theorem mem_headers (h : scn ∈ f.scns) : scn.shdr ∈ f.headers.shdrs := List.mem_map_of_mem h

theorem mem_zip_of_mem {α β : Type} {R : α → β → Prop} {l : List α} {m : List β} {a : α}
    (h : List.Forall₂ R l m) (ha : a ∈ l) : ∃ b, (a, b) ∈ l.zip m := by
  induction h with
  | nil => exact (List.not_mem_nil ha).elim
  | cons _ _ ih =>
    obtain rfl | ha := List.mem_cons.1 ha
    · exact ⟨_, List.mem_cons_self⟩
    · obtain ⟨b, hb⟩ := ih ha
      exact ⟨b, List.mem_cons_of_mem _ hb⟩

/-- A loop over the sections of the file. -/
theorem load_eq (f : ElfFile) (heap : List (List U8)) (e : Env σ) : f.load heap e =
    (f.scns.zip heap).foldl (fun e q => (LoadSection.new f.phdrs q.1 q.2).load e) e :=
  List.foldl_map

section Followed

variable (wf : f.headers.WellFormed)
  (hfol : ∀ s ∈ f.headers.shdrs, s.Allocated → f.headers.Followed e.endian s)
  (hf : f.Fits e byteAt ok base n heap)

include wf hfol hf

/-- A section is written as its image. -/
theorem load_followed (hz : (scn, fresh) ∈ f.scns.zip heap) (ht : Env.Served e t ∧ ok t.world)
    (hal : scn.shdr.Allocated) :
    ok ((LoadSection.new f.phdrs scn fresh).load t).world ∧
      base.toNat ≤ f.headers.target scn.shdr ∧ ∀ i < n,
        byteAt ((LoadSection.new f.phdrs scn fresh).load t).world i =
          writeBytes (byteAt t.world) (f.headers.target scn.shdr - base.toNat) scn.image i := by
  have hscn := (List.of_mem_zip hz).1
  have hparsed := hf.parsed scn hscn
  have hfresh : fresh.length = scn.shdr.size.toNat := List.forall₂_zip hf.fresh hz
  have h0 := hal.pos
  -- the first and the last byte are in the port's memory
  have hin : ∀ x, f.headers.target scn.shdr ≤ x →
      x < f.headers.target scn.shdr + scn.shdr.size.toNat →
      x ∈ Set.Ico base.toNat (base.toNat + n) := by
    intro x h1 h2
    obtain ⟨s, -, -, p, hp, hpl, a, -, hap, rfl, -⟩ :=
      wf.lands hfol (mem_headers hscn) hal (ElfHeaders.mem_targets.2 ⟨h1, h2⟩)
    exact hf.room p hp hpl (Phdr.place_mem hap)
  obtain ⟨hlo, -⟩ := hin (f.headers.target scn.shdr) (Nat.le_refl _) (by omega)
  obtain ⟨-, hhi⟩ := hin (f.headers.target scn.shdr + scn.shdr.size.toNat - 1) (by omega) (by omega)
  have haddr : (LoadSection.new f.phdrs scn fresh).physAddr.setWidth 32 =
      base + BitVec.ofNat 32 (f.headers.target scn.shdr - base.toNat) := by
    have hlt : f.headers.target scn.shdr < 2 ^ 32 := BitVec.isLt _
    have htarget : ((physAddr f.phdrs scn.shdr).setWidth 32).toNat = f.headers.target scn.shdr :=
      congrArg BitVec.toNat (setWidth_physAddr f.phdrs scn.shdr)
    apply BitVec.eq_of_toNat_eq
    rw [BitVec.toNat_add, BitVec.toNat_ofNat]
    refine htarget.trans ?_
    omega
  have hreq : ((LoadSection.new f.phdrs scn fresh).request t.hostEndian).Within
      (LoadSection.new f.phdrs scn fresh).flagExec base n
      (f.headers.target scn.shdr - base.toNat) := by
    refine ⟨rfl, rfl, haddr, ?_⟩
    show f.headers.target scn.shdr - base.toNat + scn.shdr.size.toNat ≤ n
    omega
  have hlen : (LoadSection.new f.phdrs scn fresh).data.length = scn.shdr.size.toNat :=
    LoadSection.length_data_new hparsed hfresh
  have hfollowed : f.headers.Followed t.endian scn.shdr := by
    rw [ht.1.endian]
    exact hfol _ (mem_headers hscn) hal
  have hhanded := LoadSection.handed_new f.phdrs hparsed hfresh hfollowed t.hostEndian
  rw [LoadSection.load_allocated hal, ← hhanded]
  obtain ⟨hok, hbytes⟩ :=
    (ht.1.ram ht.2 hf.ram).write (ht.1.allocates hf.allocates) hreq rfl hlen
  exact ⟨hok, hlo, hbytes⟩

/-- Where a section lands on an address of the program, it writes what the program finds there. -/
theorem load_hits (hscn : scn ∈ f.scns) (hal : scn.shdr.Allocated) (hp : p ∈ f.phdrs)
    (hpl : p.type = ptLoad) (has : a ∈ scn.shdr.virt) (hap : a ∈ p.virt)
    (hz : (s, fresh) ∈ f.scns.zip heap) (ht : Env.Served e t ∧ ok t.world)
    (hsal : s.shdr.Allocated) (hx : p.place a ∈ f.headers.targets s.shdr) :
    byteAt ((LoadSection.new f.phdrs s fresh).load t).world (p.place a - base.toNat) =
      scn.image.getD (a - scn.shdr.addr.toNat) 0#8 := by
  have hs := (List.of_mem_zip hz).1
  have hslen := (hf.parsed s hs).length_image
  obtain ⟨-, hlo, hbytes⟩ := load_followed wf hfol hf hz ht hsal
  obtain ⟨h1, h2⟩ := ElfHeaders.mem_targets.1 hx
  obtain ⟨h3, h4⟩ := hf.room p hp hpl (Phdr.place_mem hap)
  rw [hbytes _ (by omega)]
  unfold writeBytes
  rw [if_pos ⟨by omega, by omega⟩,
    show p.place a - base.toNat - (f.headers.target s.shdr - base.toNat) =
      p.place a - f.headers.target s.shdr by omega]
  obtain ⟨r, hr, hral, q, hq, hql, b, hbr, hbq, he, hcase⟩ :=
    wf.lands hfol (mem_headers hs) hsal hx
  obtain rfl := wf.place_inj hq hp hql hpl hbq hap he
  obtain ⟨u, hu, rfl⟩ := List.mem_map.1 hr
  obtain rfl := wf.section_unique hu hscn hral hal hbr has
  obtain ⟨hno, hno'⟩ | ⟨-, hrs, hoff⟩ := hcase
  · have hzero : ∀ {u : ElfScn} (k : Nat), u.shdr.type = shtNobits → u.image.getD k 0#8 = 0#8 := by
      intro u k hu
      unfold ElfScn.image
      rw [if_pos hu, List.getD_eq_getElem?_getD, List.getElem?_replicate]
      split <;> rfl
    rw [hzero _ hno, hzero _ hno']
  · have hbs : b ∈ s.shdr.virt := hrs ▸ hbr
    obtain rfl := wf.section_unique hu hs hral hsal hbr hbs
    rw [hoff]

theorem load_ready (hz : (s, fresh) ∈ f.scns.zip heap) (ht : Env.Served e t ∧ ok t.world) :
    ok ((LoadSection.new f.phdrs s fresh).load t).world := by
  by_cases hsal : s.shdr.Allocated
  · exact (load_followed wf hfol hf hz ht hsal).1
  · rw [LoadSection.load_not_allocated hsal]
    exact ht.2

/-- The other loads leave an address of the program alone. -/
theorem load_misses (hz : (s, fresh) ∈ f.scns.zip heap) (ht : Env.Served e t ∧ ok t.world)
    (hsal : s.shdr.Allocated) (hp : p ∈ f.phdrs) (hpl : p.type = ptLoad) (hap : a ∈ p.virt)
    (hx : p.place a ∉ f.headers.targets s.shdr) :
    byteAt ((LoadSection.new f.phdrs s fresh).load t).world (p.place a - base.toNat) =
      byteAt t.world (p.place a - base.toNat) := by
  have hslen := (hf.parsed s (List.of_mem_zip hz).1).length_image
  obtain ⟨-, hlo, hbytes⟩ := load_followed wf hfol hf hz ht hsal
  obtain ⟨h3, h4⟩ := hf.room p hp hpl (Phdr.place_mem hap)
  rw [hbytes _ (by omega)]
  refine writeBytes_of_not_mem fun hx' => hx (ElfHeaders.mem_targets.2 ⟨?_, ?_⟩)
  · omega
  · omega

end Followed

/-- Every allocated section is where its segment puts it, if its headers are followed. -/
theorem loads_of_followed {endian : Endian} (wf : f.headers.WellFormed)
    (hfol : ∀ s ∈ f.headers.shdrs, s.Allocated → f.headers.Followed endian s) : f.Loads endian := by
  rintro σ _ e byteAt ok base n heap rfl hf scn hscn hal p hp hpl a has hap
  obtain ⟨r, hr, hral, hx⟩ := wf.exists_lands hfol (mem_headers hscn) hal hp hpl has hap
  obtain ⟨u, hu, rfl⟩ := List.mem_map.1 hr
  obtain ⟨fresh, hz⟩ := mem_zip_of_mem hf.fresh hu
  rw [load_eq]
  refine Loops.foldl_settles (K := fun t => Env.Served e t ∧ ok t.world)
    (P := fun t => byteAt t.world (p.place a - base.toNat) =
      scn.image.getD (a - scn.shdr.addr.toNat) 0#8)
    (fun q hq t ht => ⟨ht.1.trans (LoadSection.load_served _ t), load_ready wf hfol hf hq ht⟩)
    ?_ ⟨.refl e, hf.ram.ready⟩
    (.inr ⟨_, hz, fun t ht => load_hits wf hfol hf hscn hal hp hpl has hap hz ht hral hx⟩)
  rintro ⟨s, fresh'⟩ hz' t ht hkept
  by_cases hsal : s.shdr.Allocated
  · by_cases hxs : p.place a ∈ f.headers.targets s.shdr
    · exact load_hits wf hfol hf hscn hal hp hpl has hap hz' ht hsal hxs
    · exact (load_misses wf hfol hf hz' ht hsal hp hpl hap hxs).trans hkept
  · rw [LoadSection.load_not_allocated hsal]
    exact hkept


end ElfFile

end Or1kiss
