import Or1kiss.Lib.Numeral
import Or1kiss.Text

/-!
# Formatted numbers

Numbers as `printf` and the streams write them, hexadecimal and decimal: how long they are, and
that they are read back.
-/

namespace Or1kiss

variable {n k width : Nat} {fill : U8} {v : U32} {c : U8}

/-! ## Hexadecimal numbers -/

/-- `%x` and `std::hex` without a width. -/
def hexDigits (v : U32) : List U8 :=
  ((hexWord v).take 7).dropWhile (· == chr '0') ++ (hexWord v).drop 7

/-- The digits of a word, leading zeros included. -/
def nibbles (v : U32) : List (BitVec 4) :=
  [v.extractLsb' 28 4, v.extractLsb' 24 4, v.extractLsb' 20 4, v.extractLsb' 16 4,
   v.extractLsb' 12 4, v.extractLsb' 8 4, v.extractLsb' 4 4, v.extractLsb' 0 4]

theorem hexWord_eq (v : U32) : hexWord v = (nibbles v).map hexDigit := rfl

theorem hexDigit_beq_zero (h : BitVec 4) : (hexDigit h == chr '0') = (h.toNat == 0) := by
  revert h
  decide

/-- The digits without leading zeros. -/
theorem hexDigits_eq (v : U32) : hexDigits v =
    (((nibbles v).take 7).dropWhile fun h => h.toNat == 0).map hexDigit ++
      [hexDigit (v.extractLsb' 0 4)] := by
  have hz : ((· == chr '0') : U8 → Bool) ∘ hexDigit = fun h => h.toNat == 0 :=
    funext hexDigit_beq_zero
  unfold hexDigits
  rw [hexWord_eq, ← List.map_take, List.dropWhile_map, hz]
  rfl

theorem hexPadded_eq (fill : U8) (width : Nat) (v : U32) :
    hexPadded fill width v =
      List.replicate (width - (hexDigits v).length) fill ++ hexDigits v := rfl

theorem length_hexPadded : (hexPadded fill width v).length = max width (hexDigits v).length := by
  rw [hexPadded_eq, List.length_append, List.length_replicate]
  omega

/-- The digits as numbers. -/
theorem hexDigits_places (v : U32) : (hexDigits v).map (fun c => (char2int c).toNat) =
    (((nibbles v).take 7).map BitVec.toNat).dropWhile (· == 0) ++ [(v.extractLsb' 0 4).toNat] := by
  have hd : (fun c => (char2int c).toNat) ∘ hexDigit = BitVec.toNat := by
    funext h
    revert h
    decide
  rw [hexDigits_eq, List.map_append, List.map_map, hd, List.dropWhile_map]
  exact congrArg _ (congrArg (fun n => [n]) (congrFun hd _))

theorem hexValue_eq (ds : List U8) :
    hexValue ds = Numeral.value 16 (ds.map fun c => (char2int c).toNat) := by
  unfold hexValue Numeral.value
  rw [List.foldl_map]

/-- The value of all eight digits. -/
theorem value_nibbles (v : U32) : Numeral.value 16
    (((nibbles v).take 7).map BitVec.toNat ++ [(v.extractLsb' 0 4).toNat]) = v.toNat := by
  have hw := hexValue_hexWord v
  have hd : (fun c => (char2int c).toNat) ∘ hexDigit = BitVec.toNat := by
    funext h
    revert h
    decide
  rwa [hexValue_eq, hexWord_eq, List.map_map, hd] at hw

theorem hexValue_hexDigits (v : U32) : hexValue (hexDigits v) = v.toNat := by
  rw [hexValue_eq, hexDigits_places, Numeral.value_dropWhile, value_nibbles]

/-- A number has as many digits as it needs. -/
theorem length_hexDigits_le_iff (hk : 0 < k) : (hexDigits v).length ≤ k ↔ v.toNat < 16 ^ k := by
  have hdigits : ∀ d ∈ ((nibbles v).take 7).map BitVec.toNat, d < 16 := by
    intro d hd
    obtain ⟨h, -, rfl⟩ := List.mem_map.1 hd
    exact h.isLt
  rw [← List.length_map (fun c => (char2int c).toNat), hexDigits_places,
    Numeral.length_dropWhile_le_iff (by decide) hk hdigits (BitVec.isLt _), value_nibbles]

theorem length_hexDigits_le (v : U32) : (hexDigits v).length ≤ 8 :=
  (length_hexDigits_le_iff (by decide)).2 v.isLt

theorem mem_hexDigits (h : c ∈ hexDigits v) : isHexDigit c = true := by
  rw [hexDigits_eq] at h
  rcases List.mem_append.1 h with h | h
  · obtain ⟨d, -, rfl⟩ := List.mem_map.1 h
    exact isHexDigit_hexDigit d
  · rw [List.mem_singleton.1 h]
    exact isHexDigit_hexDigit _

theorem spells_hexDigits (v : U32) : Spells (hexDigits v) v where
  digits _ hc := mem_hexDigits hc
  nonempty := by
    rw [hexDigits_eq]
    exact List.append_ne_nil_of_right_ne_nil _ (List.cons_ne_nil _ _)
  value := hexValue_hexDigits v

/-! ## Decimal numbers -/

/-- `%d` and a stream, for a number that is not negative. -/
def decimal (n : Nat) : List U8 := (Nat.toDigits 10 n).map chr

def isDecimalDigit (c : U8) : Bool := chr '0' ≤ c && c ≤ chr '9'

/-- The value of a digit string. -/
def decimalValue (ds : List U8) : Nat := ds.foldl (fun v c => 10 * v + (char2int c).toNat) 0

theorem length_decimal_le_iff (hk : 0 < k) : (decimal n).length ≤ k ↔ n < 10 ^ k := by
  unfold decimal
  rw [List.length_map]
  exact Nat.length_toDigits_le_iff (by decide) hk

theorem digit_chr {c : Char} (h : c.isDigit = true) :
    isDecimalDigit (chr c) = true ∧ (char2int (chr c)).toNat = c.toNat - '0'.toNat := by
  have hle : 48 ≤ c.toNat ∧ c.toNat ≤ 57 := by
    unfold Char.isDigit at h
    rw [Bool.and_eq_true, decide_eq_true_iff, decide_eq_true_iff, ge_iff_le,
      UInt32.le_iff_toNat_le, UInt32.le_iff_toNat_le] at h
    exact h
  have hd : ∀ i < 10, isDecimalDigit (BitVec.ofNat 8 (48 + i)) = true ∧
      (char2int (BitVec.ofNat 8 (48 + i))).toNat = i := by
    decide
  obtain ⟨i, hi⟩ := Nat.exists_eq_add_of_le hle.1
  have hc := hd i (by omega)
  unfold chr
  rw [hi]
  refine ⟨hc.1, hc.2.trans ?_⟩
  show i = 48 + i - 48
  omega

theorem mem_decimal (h : c ∈ decimal n) : isDecimalDigit c = true := by
  obtain ⟨d, hd, rfl⟩ := List.mem_map.1 h
  exact (digit_chr (Nat.isDigit_of_mem_toDigits (by decide) (by decide) hd)).1

theorem decimal_ne_nil : decimal n ≠ [] := by
  unfold decimal
  rw [ne_eq, List.map_eq_nil_iff]
  exact Nat.toDigits_ne_nil

theorem decimalValue_decimal (n : Nat) : decimalValue (decimal n) = n := by
  have hfold : ∀ (ds : List Char) (v : Nat), (∀ c ∈ ds, c.isDigit = true) →
      (ds.map chr).foldl (fun v c => 10 * v + (char2int c).toNat) v = Nat.ofDigitChars 10 ds v := by
    intro ds
    induction ds with
    | nil => exact fun v _ => Nat.ofDigitChars_nil.symm
    | cons c ds ih =>
      intro v h
      rw [List.map_cons, List.foldl_cons, Nat.ofDigitChars_cons,
        (digit_chr (h c List.mem_cons_self)).2]
      exact ih _ fun d hd => h d (List.mem_cons_of_mem c hd)
  have hdigits : ∀ c ∈ Nat.toDigits 10 n, c.isDigit = true := fun c hc =>
    Nat.isDigit_of_mem_toDigits (by decide) (by decide) hc
  exact (hfold _ 0 hdigits).trans (Nat.ofDigitChars_toDigits (by decide) (by decide))

/-! ## Strings -/

/-- `%-ws`, and `std::left` with a width: blanks behind the text. -/
def padRight (width : Nat) (s : List U8) : List U8 := s ++ List.replicate (width - s.length) (chr ' ')

theorem length_padRight (width : Nat) (s : List U8) : (padRight width s).length = max width s.length := by
  unfold padRight
  rw [List.length_append, List.length_replicate]
  omega

end Or1kiss
