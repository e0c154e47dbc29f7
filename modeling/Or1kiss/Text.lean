import Or1kiss.Types

/-!
# Characters and numbers

The text functions of `utils.h`, and what the debugger stub uses of `printf`, `sscanf` and
`stringstream`. Text is a list of bytes; a C string ends at the first zero byte.
-/

namespace Or1kiss

/-- The code of a character. -/
def chr (c : Char) : U8 := BitVec.ofNat 8 c.toNat

/-- The bytes of a string literal. -/
def ascii (s : String) : List U8 := s.toList.map chr

/-- What a function sees of a buffer that it reads up to the terminating zero. -/
def cstr (s : List U8) : List U8 := s.takeWhile (· != 0#8)

/-- Text is seen up to the first zero byte. -/
theorem cstr_append {s rest : List U8} (h : ∀ c ∈ s, c ≠ 0#8) : cstr (s ++ rest) = s ++ cstr rest := by
  unfold cstr
  exact List.takeWhile_append_of_pos fun c hc => by simpa using h c hc

/-- Text without a zero byte is seen as it is. -/
theorem cstr_of_forall {s : List U8} (h : ∀ c ∈ s, c ≠ 0#8) : cstr s = s := by
  have ha : cstr (s ++ []) = s ++ cstr [] := cstr_append h
  rwa [List.append_nil, show cstr [] = [] from rfl, List.append_nil] at ha

/-! ## utils.h -/

def checksum (s : List U8) : U8 := (cstr s).foldl (· + ·) 0#8

def char2int (c : U8) : U32 :=
  if chr 'a' ≤ c ∧ c ≤ chr 'f' then (c - chr 'a' + 10#8).setWidth 32
  else if chr 'A' ≤ c ∧ c ≤ chr 'F' then (c - chr 'A' + 10#8).setWidth 32
  else if chr '0' ≤ c ∧ c ≤ chr '9' then (c - chr '0').setWidth 32
  else 0#32

/-- The loop runs from the last character to the first, which ends in the low four bits. -/
def str2int (s : List U8) : U32 := s.foldr (fun c val => (val <<< 4) ||| char2int c) 0#32

def int2char (h : U32) : U8 := ((ascii "0123456789ABCDEF")[(h &&& 0xf#32).toNat]?).getD 0#8

/-- The byte that `s` starts with, unescaped, and the rest; `none` behind the end of the buffer. -/
def charUnescape (s : List U8) : Option (U8 × List U8) :=
  match s with
  | [] => none
  | c :: s =>
    if c = chr '}' then
      match s with
      | [] => none
      | d :: s => some (d ^^^ 0x20#8, s)
    else some (c, s)

/-! ## Hexadecimal output -/

/-- A digit of `%x` and of `std::hex`. -/
def hexDigit (h : BitVec 4) : U8 := ((ascii "0123456789abcdef")[h.toNat]?).getD 0#8

/-- Two digits: `setw(2)` with fill `0`. -/
def hexByte (b : U8) : List U8 := [hexDigit (b.extractLsb' 4 4), hexDigit (b.extractLsb' 0 4)]

/-- Eight digits: `%08x`, and `setw(8)` with fill `0`. -/
def hexWord (v : U32) : List U8 :=
  [hexDigit (v.extractLsb' 28 4), hexDigit (v.extractLsb' 24 4), hexDigit (v.extractLsb' 20 4),
   hexDigit (v.extractLsb' 16 4), hexDigit (v.extractLsb' 12 4), hexDigit (v.extractLsb' 8 4),
   hexDigit (v.extractLsb' 4 4), hexDigit (v.extractLsb' 0 4)]

def hexBytes (bs : List U8) : List U8 := bs.flatMap hexByte

/-- `%x` with a width: at least one digit, and `fill` in front. -/
def hexPadded (fill : U8) (width : Nat) (v : U32) : List U8 :=
  let digits := (hexWord v).take 7 |>.dropWhile (· == chr '0')
  let digits := digits ++ (hexWord v).drop 7
  List.replicate (width - digits.length) fill ++ digits

/-! ## sscanf -/

def isSpace (c : U8) : Bool := c == 0x20#8 || (0x9#8 ≤ c && c ≤ 0xd#8)

def isHexDigit (c : U8) : Bool :=
  (chr '0' ≤ c && c ≤ chr '9') || (chr 'a' ≤ c && c ≤ chr 'f') || (chr 'A' ≤ c && c ≤ chr 'F')

/-- A character of the format that is neither space nor directive. -/
def scanChar (c : U8) (s : List U8) : Option (List U8) :=
  match s with
  | d :: s => if d = c then some s else none
  | [] => none

/-- Characters of the format one after the other. -/
def scanText (cs s : List U8) : Option (List U8) := cs.foldlM (fun s c => scanChar c s) s

/-- The value of a digit string; `strtoul` stops at the largest `unsigned long`. -/
def hexValue (ds : List U8) : Nat := ds.foldl (fun v c => 16 * v + (char2int c).toNat) 0

/-- `%x` for an `unsigned int`, of at most `width` characters: spaces, a sign, `0x`, digits. -/
def scanHex (width : Nat) (s : List U8) : Option (U32 × List U8) :=
  let s := s.dropWhile isSpace
  let signed := width > 0 && (s.head? == some (chr '-') || s.head? == some (chr '+'))
  let negative := signed && s.head? == some (chr '-')
  let (s, width) := if signed then (s.drop 1, width - 1) else (s, width)
  let marked := width > 1 && s.head? == some (chr '0') &&
    ((s.drop 1).head? == some (chr 'x') || (s.drop 1).head? == some (chr 'X'))
  let (s, width) := if marked then (s.drop 2, width - 2) else (s, width)
  let digits := (s.take width).takeWhile isHexDigit
  if digits.isEmpty then none
  else
    let n := hexValue digits
    let v := if n ≥ 2 ^ 64 then 2 ^ 64 - 1 else if negative then (2 ^ 64 - n) % 2 ^ 64 else n
    some (BitVec.ofNat 32 v, s.drop digits.length)

/-- `%x` without a width. -/
def scanHexAny (s : List U8) : Option (U32 × List U8) := scanHex s.length s

/-! ## Reading what was written -/

@[simp] theorem char2int_hexDigit (h : BitVec 4) : char2int (hexDigit h) = h.setWidth 32 := by
  revert h
  decide

theorem isHexDigit_hexDigit (h : BitVec 4) : isHexDigit (hexDigit h) = true := by
  revert h
  decide

theorem mem_hexWord {c : U8} {v : U32} (h : c ∈ hexWord v) : ∃ d, c = hexDigit d := by
  unfold hexWord at h
  simp only [List.mem_cons, List.not_mem_nil, or_false] at h
  rcases h with rfl | rfl | rfl | rfl | rfl | rfl | rfl | rfl <;> exact ⟨_, rfl⟩

theorem toNat_extract4 (v : U32) (i : Nat) :
    (char2int (hexDigit (v.extractLsb' i 4))).toNat = v.toNat / 2 ^ i % 16 := by
  rw [char2int_hexDigit, BitVec.toNat_setWidth, BitVec.extractLsb'_toNat, Nat.shiftRight_eq_div_pow]
  omega

/-- The number of the eight digits of a word. -/
theorem hexValue_hexWord (v : U32) : hexValue (hexWord v) = v.toNat := by
  have hv := v.isLt
  have htop : v.toNat / 2 ^ 28 % 16 = v.toNat / 2 ^ 28 := Nat.mod_eq_of_lt (by omega)
  have hnext : ∀ i j, j = i + 4 →
      16 * (v.toNat / 2 ^ j) + v.toNat / 2 ^ i % 16 = v.toNat / 2 ^ i := by
    rintro i _ rfl
    rw [Nat.pow_add, ← Nat.div_div_eq_div_mul]
    exact Nat.div_add_mod _ 16
  unfold hexValue hexWord
  simp only [List.foldl_cons, List.foldl_nil, toNat_extract4, Nat.mul_zero, Nat.zero_add]
  rw [htop, hnext 24 28 rfl, hnext 20 24 rfl, hnext 16 20 rfl, hnext 12 16 rfl, hnext 8 12 rfl,
    hnext 4 8 rfl, hnext 0 4 rfl]
  exact Nat.div_one _

/-- A digit string for a number. -/
structure Spells (ds : List U8) (v : U32) : Prop where
  digits : ∀ c ∈ ds, isHexDigit c = true
  nonempty : ds ≠ []
  value : hexValue ds = v.toNat

theorem spells_hexWord (v : U32) : Spells (hexWord v) v where
  digits c hc := by
    obtain ⟨d, rfl⟩ := mem_hexWord hc
    exact isHexDigit_hexDigit d
  nonempty := nofun
  value := hexValue_hexWord v

/-- A character that ends a number. -/
def EndsNumber (rest : List U8) : Prop :=
  ∀ c, rest.head? = some c → isHexDigit c = false ∧ c ≠ chr 'x' ∧ c ≠ chr 'X'

theorem digit_facts {c : U8} (h : isHexDigit c = true) :
    isSpace c = false ∧ c ≠ chr '-' ∧ c ≠ chr '+' ∧ c ≠ chr 'x' ∧ c ≠ chr 'X' ∧ c ≠ 0#8 := by
  revert c
  decide +kernel

theorem Spells.ne_zero {ds : List U8} {v : U32} (h : Spells ds v) : ∀ d ∈ ds, d ≠ 0#8 :=
  fun d hd => (digit_facts (h.digits d hd)).2.2.2.2.2

/-- `%x` reads a digit string up to the character that ends it, if the width allows for it. -/
theorem scanHex_spells {ds rest : List U8} {v : U32} {width : Nat} (h : Spells ds v)
    (he : EndsNumber rest) (hw : ds.length ≤ width) : scanHex width (ds ++ rest) = some (v, rest) := by
  obtain ⟨c, cs, rfl⟩ := List.exists_cons_of_ne_nil h.nonempty
  obtain ⟨hspace, hminus, hplus, -⟩ := digit_facts (h.digits c List.mem_cons_self)
  -- a digit string has no sign and no mark
  have hmark : ∀ d, (cs ++ rest).head? = some d → d ≠ chr 'x' ∧ d ≠ chr 'X' := by
    intro d hd
    cases cs with
    | nil => exact (he d hd).2
    | cons e es =>
      cases hd
      obtain ⟨-, -, -, hx, hX, -⟩ := digit_facts (h.digits d (by simp))
      exact ⟨hx, hX⟩
  have hdigits : ((c :: cs ++ rest).take width).takeWhile isHexDigit = c :: cs := by
    rw [List.take_append, List.take_of_length_le hw,
      List.takeWhile_append_of_pos h.digits]
    have hnil : (rest.take (width - (c :: cs).length)).takeWhile isHexDigit = [] := by
      cases rest with
      | nil => rw [List.take_nil, List.takeWhile_nil]
      | cons d ds =>
        cases width - (c :: cs).length with
        | zero => rfl
        | succ n => rw [List.take_succ_cons, List.takeWhile_cons, (he d rfl).1, if_neg Bool.false_ne_true]
    rw [hnil, List.append_nil]
  have hsigned : ∀ n : Nat, (decide (n > 0) && ((c :: cs ++ rest).head? == some (chr '-') ||
      (c :: cs ++ rest).head? == some (chr '+'))) = false := by
    intro n
    rw [List.cons_append, List.head?_cons]
    simp [hminus, hplus]
  have hmarked : ∀ n : Nat, (decide (n > 1) && (c :: cs ++ rest).head? == some (chr '0') &&
      (((c :: cs ++ rest).drop 1).head? == some (chr 'x') ||
        ((c :: cs ++ rest).drop 1).head? == some (chr 'X'))) = false := by
    intro n
    have hx : ((cs ++ rest).head? == some (chr 'x')) = false := by
      rw [beq_eq_false_iff_ne]
      exact fun h => (hmark _ h).1 rfl
    have hX : ((cs ++ rest).head? == some (chr 'X')) = false := by
      rw [beq_eq_false_iff_ne]
      exact fun h => (hmark _ h).2 rfl
    rw [List.cons_append, List.drop_one, List.tail_cons, hx, hX, Bool.or_false, Bool.and_false]
  have hspaces : (c :: cs ++ rest).dropWhile isSpace = c :: cs ++ rest := by
    rw [List.cons_append, List.dropWhile_cons_of_neg (by rw [hspace]; exact Bool.false_ne_true)]
  have hlt := v.isLt
  unfold scanHex
  rw [hspaces]
  dsimp only
  rw [hsigned, if_neg Bool.false_ne_true]
  dsimp only
  rw [hmarked, if_neg Bool.false_ne_true]
  dsimp only
  rw [hdigits, h.value]
  have hv : ¬v.toNat ≥ 2 ^ 64 := by omega
  rw [if_neg hv]
  simp

theorem scanHexAny_spells {ds rest : List U8} {v : U32} (h : Spells ds v) (he : EndsNumber rest) :
    scanHexAny (ds ++ rest) = some (v, rest) :=
  scanHex_spells h he (by rw [List.length_append]; exact Nat.le_add_right _ _)

theorem scanHexAny_all {ds : List U8} {v : U32} (h : Spells ds v) : scanHexAny ds = some (v, []) := by
  have hs : scanHexAny (ds ++ []) = some (v, []) := scanHexAny_spells h nofun
  rwa [List.append_nil] at hs

end Or1kiss
