import Or1kiss.Gdb
import Or1kiss.Lib.Floor

/-!
# Symbols and the function at an address

`elf.cpp`. The constructor of `elf` appends the entries of the symbol tables, replaces the
physical address of each symbol by what the sections make of its virtual one, and sorts by the
physical addresses. `find_function` scans the sorted symbols by their virtual addresses.
-/

namespace Or1kiss

open Floor

/-! ## elf.h of the host -/

/-- `Elf32_Sym`, with the name that `elf_strptr` finds for it. -/
structure Elf32Sym where
  name : List U8
  value : U32
  info : U8
  deriving DecidableEq, Repr

/-- `STT_OBJECT` -/
abbrev sttObject : U8 := 1#8

/-- `STT_FUNC` -/
abbrev sttFunc : U8 := 2#8

/-- `ELF32_ST_TYPE` -/
def elf32StType (info : U8) : U8 := info &&& 0xf#8

/-! ## elf_symbol -/

inductive ElfSymType where
  | object
  | function
  | unknown
  deriving DecidableEq, Repr

structure ElfSymbol where
  virtAddr : U64
  physAddr : U64
  name : List U8
  type : ElfSymType
  deriving DecidableEq, Repr

namespace ElfSymbol

/-- The constructor. -/
def new (symbol : Elf32Sym) : ElfSymbol where
  virtAddr := symbol.value.setWidth 64
  physAddr := symbol.value.setWidth 64
  name := symbol.name
  type :=
    if elf32StType symbol.info = sttObject then .object
    else if elf32StType symbol.info = sttFunc then .function
    else .unknown

def isFunction (s : ElfSymbol) : Bool := s.type == .function

end ElfSymbol

def elfSymbolCompare (a b : ElfSymbol) : Bool := decide (a.physAddr < b.physAddr)

/-! ## elf -/

/-- An `elf` with its symbols. -/
structure SymbolElf extends Elf where
  symbols : List ElfSymbol
  deriving DecidableEq, Repr

/-- What `std::sort` may leave of `l`: elements that compare equal are in any order. -/
structure StdSort {α : Type} (compare : α → α → Bool) (l l' : List α) : Prop where
  perm : l'.Perm l
  ordered : l'.Pairwise fun x y => compare y x = false

/-- The update of a symbol's physical address. -/
def Elf.locate (e : Elf) (s : ElfSymbol) : ElfSymbol :=
  { s with physAddr := e.toPhys s.virtAddr }

/-- The symbols before they are sorted. -/
def Elf.located (e : Elf) (table : List Elf32Sym) : List ElfSymbol :=
  (table.map ElfSymbol.new).map e.locate

namespace SymbolElf

/-- What the constructor may leave for the sections and the symbol table of a file. -/
structure Constructed (sections : Elf) (table : List Elf32Sym) (e : SymbolElf) : Prop where
  read : e.toElf = sections
  sorted : StdSort elfSymbolCompare (sections.located table) e.symbols

/-- The loop of `find_function`. -/
def findFunctionFrom (virtAddr : U64) : List ElfSymbol → Option ElfSymbol → Option ElfSymbol
  | [], result => result
  | s :: l, result =>
    if !s.isFunction then findFunctionFrom virtAddr l result
    else if virtAddr < s.virtAddr then result
    else findFunctionFrom virtAddr l (some s)

def findFunction (e : SymbolElf) (virtAddr : U64) : Option ElfSymbol :=
  findFunctionFrom virtAddr e.symbols none

end SymbolElf

/-! ## The function at an address -/

/-- `r` is a function symbol with the greatest virtual address not above `virtAddr`, and it is
null exactly if all of them are above. -/
structure FunctionAt (symbols : List ElfSymbol) (virtAddr : U64) (r : Option ElfSymbol) : Prop where
  greatest : ∀ s, r = some s → (s ∈ symbols ∧ s.isFunction = true) ∧ s.virtAddr ≤ virtAddr ∧
    ∀ f ∈ symbols, f.isFunction = true → f.virtAddr ≤ virtAddr → f.virtAddr ≤ s.virtAddr
  null_iff : r = none ↔ ∀ f ∈ symbols, f.isFunction = true → virtAddr < f.virtAddr

/-- The addresses of the functions in a symbol table. -/
def functionAddrs (table : List Elf32Sym) : List U64 :=
  (table.filter fun s => elf32StType s.info == sttFunc).map (·.value.setWidth 64)

/-- The physical addresses lead the scan for `virtAddr` to the last function `w` up to there: the
functions above `virtAddr` are physically above `w`, and those below `w` are physically below it,
or above one that ends the scan. -/
def Elf.Leads (e : Elf) (table : List Elf32Sym) (virtAddr : U64) : Prop :=
  ∀ w ∈ functionAddrs table, w ≤ virtAddr → (∀ y ∈ functionAddrs table, y ≤ virtAddr → y ≤ w) →
    (∀ f ∈ functionAddrs table, virtAddr < f → e.toPhys w < e.toPhys f) ∧
    ∀ u ∈ functionAddrs table, u < w → e.toPhys u < e.toPhys w ∨
      ∃ f ∈ functionAddrs table, virtAddr < f ∧ e.toPhys f < e.toPhys u

variable {sections : Elf} {table : List Elf32Sym} {virtAddr : U64}

/-- The virtual address as a number. -/
def ElfSymbol.virt (s : ElfSymbol) : Nat := s.virtAddr.toNat

/-- The physical address as a number. -/
def ElfSymbol.phys (s : ElfSymbol) : Nat := s.physAddr.toNat

theorem ElfSymbol.new_isFunction (s : Elf32Sym) :
    (ElfSymbol.new s).isFunction = (elf32StType s.info == sttFunc) := by
  unfold isFunction new
  dsimp only
  by_cases ho : elf32StType s.info = sttObject
  · rw [if_pos ho, ho]
    rfl
  · rw [if_neg ho]
    by_cases hf : elf32StType s.info = sttFunc
    · rw [if_pos hf, hf]
      rfl
    · rw [if_neg hf, beq_false_of_ne hf]
      rfl

namespace SymbolElf

/-- The loop takes the last function in front of the first one above. -/
theorem findFunctionFrom_eq (l : List ElfSymbol) (result : Option ElfSymbol) :
    findFunctionFrom virtAddr l result =
      (lastUpTo ElfSymbol.virt virtAddr.toNat (l.filter (·.isFunction))).or result := by
  induction l generalizing result with
  | nil => rfl
  | cons s l ih =>
    unfold findFunctionFrom
    cases hs : s.isFunction with
    | false =>
      rw [Bool.not_false, if_pos rfl, ih, List.filter_cons_of_neg (by rw [hs]; decide)]
    | true =>
      rw [Bool.not_true, if_neg Bool.false_ne_true, List.filter_cons_of_pos hs]
      unfold lastUpTo
      by_cases hlt : virtAddr < s.virtAddr
      · have hgt : ¬s.virt ≤ virtAddr.toNat := Nat.not_le.2 (BitVec.lt_def.1 hlt)
        rw [if_pos hlt, List.takeWhile_cons_of_neg (by simpa using hgt)]
        rfl
      · have hle : s.virt ≤ virtAddr.toNat := Nat.not_lt.1 fun h => hlt (BitVec.lt_def.2 h)
        rw [if_neg hlt, ih, List.takeWhile_cons_of_pos (by simpa using hle), List.getLast?_cons]
        unfold lastUpTo
        cases List.getLast? _ <;> rfl

theorem findFunction_eq (e : SymbolElf) : e.findFunction virtAddr =
    lastUpTo ElfSymbol.virt virtAddr.toNat (e.symbols.filter (·.isFunction)) := by
  unfold findFunction
  rw [findFunctionFrom_eq, Option.or_none]

end SymbolElf

theorem functionAt_iff {symbols : List ElfSymbol} {r : Option ElfSymbol} :
    FunctionAt symbols virtAddr r ↔
      IsFloor ElfSymbol.virt (symbols.filter (·.isFunction)) virtAddr.toNat r := by
  constructor
  · rintro ⟨hg, hn⟩
    constructor
    · intro s hs
      obtain ⟨hmem, hle, hmax⟩ := hg s hs
      refine ⟨List.mem_filter.2 hmem, BitVec.le_def.1 hle, fun f hf hfa => ?_⟩
      have hf := List.mem_filter.1 hf
      exact BitVec.le_def.1 (hmax f hf.1 hf.2 (BitVec.le_def.2 hfa))
    · rw [hn]
      constructor
      · exact fun h f hf => BitVec.lt_def.1 (h f (List.mem_filter.1 hf).1 (List.mem_filter.1 hf).2)
      · exact fun h f hf hp => BitVec.lt_def.2 (h f (List.mem_filter.2 ⟨hf, hp⟩))
  · rintro ⟨hg, hn⟩
    constructor
    · intro s hs
      obtain ⟨hmem, hle, hmax⟩ := hg s hs
      refine ⟨List.mem_filter.1 hmem, BitVec.le_def.2 hle, fun f hf hp hfa => ?_⟩
      exact BitVec.le_def.2 (hmax f (List.mem_filter.2 ⟨hf, hp⟩) (BitVec.le_def.1 hfa))
    · rw [hn]
      constructor
      · exact fun h f hf hp => BitVec.lt_def.2 (h f (List.mem_filter.2 ⟨hf, hp⟩))
      · exact fun h f hf => BitVec.lt_def.1 (h f (List.mem_filter.1 hf).1 (List.mem_filter.1 hf).2)

theorem stdSort_iff {l l' : List ElfSymbol} :
    StdSort elfSymbolCompare l l' ↔ Sorts ElfSymbol.phys l l' := by
  have hc : ∀ x y : ElfSymbol, elfSymbolCompare y x = false ↔ x.phys ≤ y.phys := by
    intro x y
    unfold elfSymbolCompare
    rw [decide_eq_false_iff_not, BitVec.lt_def, Nat.not_lt]
    rfl
  constructor
  · rintro ⟨hp, ho⟩
    exact ⟨hp, ho.imp (hc _ _).1⟩
  · rintro ⟨hp, ho⟩
    exact ⟨hp, ho.imp (hc _ _).2⟩

/-- A symbol's two addresses. -/
def ElfSymbol.addrs (s : ElfSymbol) : U64 × U64 := (s.virtAddr, s.physAddr)

theorem located_addrs (e : Elf) (table : List Elf32Sym) :
    ((e.located table).filter (·.isFunction)).map ElfSymbol.addrs =
      (functionAddrs table).map fun u => (u, e.toPhys u) := by
  unfold Elf.located functionAddrs
  rw [List.map_map, List.filter_map, List.map_map, List.map_map]
  congr 1
  exact List.filter_congr fun s _ => ElfSymbol.new_isFunction s

theorem leads_iff : sections.Leads table virtAddr ↔
    Floor.Leads ElfSymbol.virt ElfSymbol.phys
      ((sections.located table).filter (·.isFunction)) virtAddr.toNat := by
  have hl : Floor.Leads (fun p : U64 × U64 => p.1.toNat) (fun p => p.2.toNat)
      (((sections.located table).filter (·.isFunction)).map ElfSymbol.addrs) virtAddr.toNat ↔
      Floor.Leads ElfSymbol.virt ElfSymbol.phys
        ((sections.located table).filter (·.isFunction)) virtAddr.toNat := leads_map_iff
  rw [← hl, located_addrs, leads_map_iff]
  unfold Elf.Leads Floor.Leads
  simp only [BitVec.le_def, BitVec.lt_def]

/-- One virtual address has one physical address. -/
theorem phys_of_virt (e : Elf) (table : List Elf32Sym) :
    ∀ x ∈ e.located table, ∀ y ∈ e.located table, x.virt = y.virt → x.phys = y.phys := by
  have hp : ∀ x ∈ e.located table, x.physAddr = e.toPhys x.virtAddr := by
    intro x hx
    unfold Elf.located at hx
    obtain ⟨s, -, rfl⟩ := List.mem_map.1 hx
    rfl
  intro x hx y hy h
  unfold ElfSymbol.phys
  rw [hp x hx, hp y hy, BitVec.eq_of_toNat_eq h]

namespace SymbolElf

/-- `find_function` returns the function at an address, however the symbols are sorted, exactly
if their physical addresses lead it there. -/
theorem find_function_iff (sections : Elf) (table : List Elf32Sym) (virtAddr : U64) :
    (∀ e, Constructed sections table e →
      FunctionAt e.symbols virtAddr (e.findFunction virtAddr)) ↔
      sections.Leads table virtAddr := by
  rw [leads_iff, ← floor_iff_leads (phys_of_virt sections table)]
  constructor
  · intro h l' hs
    have he := h { toElf := sections, symbols := l' } ⟨rfl, stdSort_iff.2 hs⟩
    rwa [findFunction_eq, functionAt_iff] at he
  · intro h e he
    rw [findFunction_eq, functionAt_iff]
    exact h e.symbols (stdSort_iff.1 he.sorted)

/-- Two sections in the other order in memory: the scan for the first function stops at the
second one. -/
theorem find_function_iff_fails :
    let sections : Elf :=
      { sections := [⟨0xc0000000#64, 0x2000#64, 0x100#32⟩, ⟨0xc0001000#64, 0x1000#64, 0x100#32⟩] }
    let table : List Elf32Sym := [⟨[0x66#8], 0xc0000000#32, 0x12#8⟩, ⟨[0x67#8], 0xc0001000#32, 0x12#8⟩]
    ∃ e, Constructed sections table e ∧ e.findFunction 0xc0000000#64 = none ∧
      ¬FunctionAt e.symbols 0xc0000000#64 (e.findFunction 0xc0000000#64) := by
  intro sections table
  refine ⟨{ toElf := sections, symbols := (sections.located table).reverse },
    ⟨rfl, List.reverse_perm _, by decide⟩, by decide, fun h => ?_⟩
  exact absurd (h.null_iff.1 (by decide)) (by decide)

end SymbolElf

/-- Every address is answered exactly if the sections keep the order of the functions. -/
theorem leads_forall_iff : (∀ a, sections.Leads table a) ↔
    ∀ u ∈ functionAddrs table, ∀ v ∈ functionAddrs table, u < v →
      sections.toPhys u < sections.toPhys v := by
  constructor
  · intro h u hu v hv hlt
    exact (h u u hu (BitVec.le_refl u) fun y _ hy => hy).1 v hv hlt
  · intro h a w hw hwa _
    refine ⟨fun f hf hfa => h w hw f hf ?_, fun u hu huw => .inl (h u hu w hw huw)⟩
    rw [BitVec.le_def] at hwa
    rw [BitVec.lt_def] at hfa ⊢
    exact Nat.lt_of_le_of_lt hwa hfa

end Or1kiss
