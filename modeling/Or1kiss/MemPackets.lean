import Or1kiss.Mapped
import Or1kiss.RegPackets

/-!
# Memory packets

`m` writes two digits for every byte of a range and `X` takes bytes as they are, escaped; `M` reads
two digits for every byte but goes only one further, and takes the first for the lower.
-/

namespace Or1kiss

open Host Bits

/-! ## Conversions -/

/-- `n` times a conversion of one byte. -/
def repeated (f : List U8 → Option (U8 × List U8)) : Nat → List U8 → Option (List U8 × List U8)
  | 0, data => some ([], data)
  | n + 1, data => (f data).bind fun x => (repeated f n x.2).map fun y => (x.1 :: y.1, y.2)

namespace Gdb

theorem splits_repeated (f : List U8 → Option (U8 × List U8)) : Splits (repeated f) where
  zero _ := rfl
  add m n data := by
    induction m generalizing data with
    | zero =>
      rw [Nat.zero_add]
      exact (Option.map_id' (x := repeated f n data)).symm
    | succ m ih =>
      rw [Nat.succ_add, repeated, repeated]
      cases f data with
      | none => rfl
      | some x =>
        rw [Option.bind_some, Option.bind_some, ih]
        cases repeated f m x.2 with
        | none => rfl
        | some y =>
          dsimp only [Option.bind_some, Option.map_some]
          cases repeated f n y.2 <;> rfl
  length n data x h := by
    induction n generalizing data x with
    | zero =>
      cases h
      rfl
    | succ n ih =>
      obtain ⟨y, -, hy⟩ := Option.bind_eq_some_iff.1 h
      obtain ⟨z, hz, rfl⟩ := Option.map_eq_some_iff.1 hy
      rw [List.length_cons, ih _ _ hz]

/-- One step of `M`. -/
def hexPair : List U8 → Option (U8 × List U8)
  | c :: d :: data => some ((str2int [c, d]).setWidth 8, d :: data)
  | _ => none

theorem hexPairs_eq (n : Nat) (data : List U8) : hexPairs n data = repeated hexPair n data := by
  induction n generalizing data with
  | zero => rfl
  | succ n ih =>
    match data with
    | [] => rfl
    | [_] => rfl
    | c :: d :: data =>
      rw [hexPairs, ih]
      show _ = (repeated hexPair n (d :: data)).map _
      cases repeated hexPair n (d :: data) <;> rfl

theorem unescaped_eq (n : Nat) (data : List U8) : unescaped n data = repeated charUnescape n data := by
  induction n generalizing data with
  | zero => rfl
  | succ n ih =>
    rw [unescaped, repeated]
    cases charUnescape data with
    | none => rfl
    | some x =>
      show (unescaped n x.2).bind _ = (repeated charUnescape n x.2).map _
      rw [ih]
      cases repeated charUnescape n x.2 <;> rfl

theorem splits_hexPairs : Splits hexPairs := by
  rw [show hexPairs = repeated hexPair from funext fun n => funext (hexPairs_eq n)]
  exact splits_repeated _

theorem splits_unescaped : Splits unescaped := by
  rw [show unescaped = repeated charUnescape from funext fun n => funext (unescaped_eq n)]
  exact splits_repeated _

/-! ## Digits -/

/-- The `j`th digit of a byte string. -/
def nibble (b : List U8) (j : Nat) : BitVec 4 :=
  if j % 2 = 0 then (b.getD (j / 2) 0#8).extractLsb' 4 4 else (b.getD (j / 2) 0#8).extractLsb' 0 4

theorem length_hexBytes (b : List U8) : (hexBytes b).length = 2 * b.length := by
  induction b with
  | nil => rfl
  | cons c b ih =>
    show (hexBytes b).length + 2 = _
    rw [ih, List.length_cons]
    omega

theorem getD_hexBytes {b : List U8} {j : Nat} (hj : j < 2 * b.length) (rest : List U8) :
    (hexBytes b ++ rest).getD j 0#8 = hexDigit (nibble b j) := by
  induction b generalizing j with
  | nil => exact absurd hj (Nat.not_lt_zero j)
  | cons c b ih =>
    match j with
    | 0 => rfl
    | 1 => rfl
    | j + 2 =>
      have hn : nibble (c :: b) (j + 2) = nibble b j := by
        unfold nibble
        rw [Nat.add_mod_right, Nat.add_div_right j (by decide), List.getD_cons_succ]
      rw [hn]
      exact ih (by rw [List.length_cons] at hj; omega)

/-- The pairs of digits of bytes spell them. -/
theorem rcmdText_hexBytes (b : List U8) : rcmdText (hexBytes b) = b := by
  have hbyte : ∀ c : U8, ((char2int (hexDigit (c.extractLsb' 4 4)) <<< 4) |||
      char2int (hexDigit (c.extractLsb' 0 4))).setWidth 8 = c := by
    decide +kernel
  induction b with
  | nil => rfl
  | cons c b ih =>
    show _ :: rcmdText (hexBytes b) = _
    rw [ih, hbyte]

theorem hexBytes_injective {a b : List U8} (h : hexBytes a = hexBytes b) : a = b := by
  rw [← rcmdText_hexBytes a, h, rcmdText_hexBytes]

/-- What `M` takes for a byte. -/
theorem str2int_pair : ∀ x y : BitVec 4,
    (str2int [hexDigit x, hexDigit y]).setWidth 8 = (y ++ x : BitVec 8) := by
  decide +kernel

theorem append_eq_iff (x y : BitVec 4) (c : U8) :
    (y ++ x : BitVec 8) = c ↔ y = c.extractLsb' 4 4 ∧ x = c.extractLsb' 0 4 := by
  have hparts : ∀ x y : BitVec 4, (y ++ x : BitVec 8).extractLsb' 4 4 = y ∧
      (y ++ x : BitVec 8).extractLsb' 0 4 = x := by
    decide +kernel
  have hwhole : ∀ c : U8, (c.extractLsb' 4 4 ++ c.extractLsb' 0 4 : BitVec 8) = c := by
    decide +kernel
  constructor
  · rintro rfl
    exact ⟨(hparts x y).1.symm, (hparts x y).2.symm⟩
  · rintro ⟨rfl, rfl⟩
    exact hwhole c

/-- The bytes that `M` takes from digits. -/
theorem hexPairs_value {n : Nat} {data : List U8} (hn : n < data.length) : hexPairs n data =
    some ((List.range n).map fun i =>
      (str2int [data.getD i 0#8, data.getD (i + 1) 0#8]).setWidth 8, data.drop n) := by
  induction n generalizing data with
  | zero => rfl
  | succ n ih =>
    match data with
    | [] => exact absurd hn (Nat.not_lt_zero _)
    | [_] => exact absurd hn (by simp)
    | c :: d :: data =>
      have hn' : n < (d :: data).length := by simpa using hn
      rw [hexPairs, ih hn', List.range_succ_eq_map, List.map_cons, List.map_map]
      rfl

/-- The digits run `x x y x x y` and so on. -/
def Repeats (b : List U8) : Prop :=
  ∃ x y : BitVec 4, ∀ j < 2 * b.length, nibble b j = if j % 3 = 2 then y else x

/-- What `M` makes of the digits of `b`. -/
def misread (b : List U8) : List U8 :=
  (List.range b.length).map fun i => nibble b (i + 1) ++ nibble b i

theorem hexPairs_hexBytes (b : List U8) : ∃ rest,
    hexPairs b.length (hexBytes b ++ [0#8, 0#8]) = some (misread b, rest) := by
  refine ⟨(hexBytes b ++ [0#8, 0#8]).drop b.length, ?_⟩
  rw [hexPairs_value (by rw [List.length_append, length_hexBytes, List.length_cons]; omega)]
  refine congrArg some (Prod.ext ?_ rfl)
  apply List.map_congr_left
  intro i hi
  have hi := List.mem_range.1 hi
  rw [getD_hexBytes (by omega), getD_hexBytes (by omega), str2int_pair]

theorem misread_eq_iff (b : List U8) : misread b = b ↔
    ∀ i < b.length, nibble b (i + 1) = nibble b (2 * i) ∧ nibble b i = nibble b (2 * i + 1) := by
  have hlen : (misread b).length = b.length := by
    unfold misread
    rw [List.length_map, List.length_range]
  have hhigh : ∀ i (hi : i < b.length), nibble b (2 * i) = b[i].extractLsb' 4 4 := fun i hi => by
    unfold nibble
    rw [if_pos (Nat.mul_mod_right 2 i), Nat.mul_div_cancel_left i (by decide),
      List.getD_eq_getElem _ _ hi]
  have hlow : ∀ i (hi : i < b.length), nibble b (2 * i + 1) = b[i].extractLsb' 0 4 := fun i hi => by
    unfold nibble
    rw [if_neg (by omega), show (2 * i + 1) / 2 = i by omega, List.getD_eq_getElem _ _ hi]
  have hget : ∀ i (_ : i < (misread b).length) (hi : i < b.length), (misread b)[i] = b[i] ↔
      nibble b (i + 1) = nibble b (2 * i) ∧ nibble b i = nibble b (2 * i + 1) := fun i hm hi => by
    have hbyte : (misread b)[i] = nibble b (i + 1) ++ nibble b i := by simp [misread]
    rw [hbyte, append_eq_iff, hhigh i hi, hlow i hi]
  constructor
  · intro h i hi
    rw [← hget i (hlen ▸ hi) hi]
    simp only [h]
  · intro h
    exact List.ext_getElem hlen fun i hm hi => (hget i hm hi).2 (h i hi)

/-- `M` reads the bytes right if and only if their digits repeat. -/
theorem misread_iff (b : List U8) : misread b = b ↔ Repeats b := by
  rw [misread_eq_iff]
  constructor
  · intro h
    refine ⟨nibble b 0, nibble b 2, fun j => ?_⟩
    induction j using Nat.strongRecOn with
    | _ j ih =>
      intro hj
      by_cases h2 : j = 2
      · subst h2
        rfl
      · by_cases heven : j % 2 = 0
        · -- the digit is the one behind the half of its index
          by_cases h0 : j = 0
          · subst h0
            rfl
          · obtain ⟨i, rfl⟩ : ∃ i, j = 2 * i := ⟨j / 2, by omega⟩
            rw [← (h i (by omega)).1, ih (i + 1) (by omega) (by omega)]
            congr 1
            rw [eq_iff_iff]
            omega
        · obtain ⟨i, rfl⟩ : ∃ i, j = 2 * i + 1 := ⟨j / 2, by omega⟩
          rw [← (h i (by omega)).2, ih i (by omega) (by omega)]
          congr 1
          rw [eq_iff_iff]
          omega
  · rintro ⟨x, y, h⟩ i hi
    rw [h _ (by omega), h _ (by omega), h _ (by omega), h _ (by omega)]
    constructor
    · congr 1
      rw [eq_iff_iff]
      omega
    · congr 1
      rw [eq_iff_iff]
      omega

/-! ## Packets -/

/-- Behind the letter of a memory packet: address, length, and what follows them. -/
def range (ds ls tail : List U8) : List U8 := ds ++ chr ',' :: (ls ++ tail)

/-- A colon and a payload. -/
def loaded (ds ls payload : List U8) : List U8 := range ds ls (chr ':' :: payload)

section Parsing

variable {c : Char} {ds ls : List U8} {addr len : U32}

theorem scanRange_range (hc : chr c ≠ 0#8) (hd : Spells ds addr) (hl : Spells ls len)
    {tail : List U8} (ht : EndsNumber (cstr (tail ++ [0#8, 0#8]))) :
    scanRange c (cstr (command c (range ds ls tail))) =
      some (addr, len, cstr (tail ++ [0#8, 0#8])) := by
  have hs : cstr (command c (range ds ls tail)) =
      chr c :: (ds ++ chr ',' :: (ls ++ cstr (tail ++ [0#8, 0#8]))) := by
    have happ : command c (range ds ls tail) =
        (chr c :: (ds ++ chr ',' :: ls)) ++ (tail ++ [0#8, 0#8]) := by
      unfold command range
      simp only [List.cons_append, List.append_assoc]
    rw [happ, cstr_append fun d hd' => ?_]
    · simp only [List.cons_append, List.append_assoc]
    · rcases List.mem_cons.1 hd' with rfl | hd'
      · exact hc
      · rcases List.mem_append.1 hd' with h | h
        · exact hd.ne_zero d h
        · rcases List.mem_cons.1 h with rfl | h
          · decide
          · exact hl.ne_zero d h
  have hcomma : EndsNumber (chr ',' :: (ls ++ cstr (tail ++ [0#8, 0#8]))) := by
    intro d h
    cases h
    decide
  unfold scanRange
  rw [hs, scanChar, if_pos rfl]
  simp only [Option.bind_eq_bind, Option.bind_some, scanHexAny_spells hd hcomma, scanChar, if_true,
    scanHexAny_spells hl ht]

theorem digits_ne_colon {v : U32} (h : Spells ds v) : ∀ d ∈ ds, d ≠ chr ':' := by
  have hall : ∀ d : U8, isHexDigit d = true → d ≠ chr ':' := by decide +kernel
  exact fun d hd => hall d (h.digits d hd)

theorem behindColon_loaded (hc : chr c ≠ 0#8) (hne : chr c ≠ chr ':') (hd : Spells ds addr)
    (hl : Spells ls len) (payload : List U8) :
    behindColon (command c (loaded ds ls payload)) = some (payload ++ [0#8, 0#8]) := by
  have happ : command c (loaded ds ls payload) =
      (chr c :: (ds ++ chr ',' :: ls)) ++ (chr ':' :: (payload ++ [0#8, 0#8])) := by
    unfold command loaded range
    simp only [List.cons_append, List.append_assoc]
  have hpre : ∀ d ∈ chr c :: (ds ++ chr ',' :: ls), d ≠ 0#8 ∧ d ≠ chr ':' := by
    intro d hd'
    rcases List.mem_cons.1 hd' with rfl | hd'
    · exact ⟨hc, hne⟩
    · rcases List.mem_append.1 hd' with h | h
      · exact ⟨hd.ne_zero d h, digits_ne_colon hd d h⟩
      · rcases List.mem_cons.1 h with rfl | h
        · decide
        · exact ⟨hl.ne_zero d h, digits_ne_colon hl d h⟩
  unfold behindColon
  rw [happ, cstr_append fun d hd => (hpre d hd).1,
    List.dropWhile_append_of_pos fun d hd => by simpa using (hpre d hd).2]
  have hcontains : (chr c :: (ds ++ chr ',' :: ls) ++ cstr (chr ':' :: (payload ++ [0#8, 0#8]))).contains
      (chr ':') = true := by
    rw [List.contains_iff_mem]
    exact List.mem_append_right _ List.mem_cons_self
  rw [if_pos hcontains]
  rfl

end Parsing

section Handlers

variable {g : Gdb Memory} {ds ls : List U8} {addr len : U32}

/-- The end of the length in a packet with a payload. -/
theorem endsNumber_colon (payload : List U8) :
    EndsNumber (cstr ((chr ':' :: payload) ++ [0#8, 0#8])) := by
  intro d h
  cases h
  decide

theorem handleMemWrite_eq (hd : Spells ds addr) (hl : Spells ls len) (h4 : len.toNat % 4 = 0)
    (payload : List U8) : g.handleMemWrite (command 'M' (loaded ds ls payload)) =
      ((writeLoop hexPairs len.toNat addr len.toNat (payload ++ [0#8, 0#8]) g).bind
        (·.send (ascii "OK"))) := by
  unfold handleMemWrite
  rw [loaded, scanRange_range (by decide) hd hl (endsNumber_colon payload)]
  dsimp only
  rw [if_neg (not_not.2 h4), ← loaded, behindColon_loaded (by decide) (by decide) hd hl]
  rfl

theorem handleMemWriteBin_eq (hd : Spells ds addr) (hl : Spells ls len) (h4 : len.toNat % 4 = 0)
    (payload : List U8) : g.handleMemWriteBin (command 'X' (loaded ds ls payload)) =
      ((writeLoop unescaped len.toNat addr len.toNat (payload ++ [0#8, 0#8]) g).bind
        (·.send (ascii "OK"))) := by
  unfold handleMemWriteBin
  rw [loaded, scanRange_range (by decide) hd hl (endsNumber_colon payload)]
  dsimp only
  rw [if_neg (not_not.2 h4)]
  by_cases h0 : len = 0#32
  · subst h0
    rw [if_pos rfl]
    rfl
  · rw [if_neg h0, ← loaded, behindColon_loaded (by decide) (by decide) hd hl]
    rfl

theorem handleMemRead_eq (hd : Spells ds addr) (hl : Spells ls len) :
    g.handleMemRead (command 'm' (range ds ls [])) =
      ((readLoop len.toNat addr len.toNat g []).bind fun x => x.2.sendString x.1) := by
  unfold handleMemRead
  have hend : EndsNumber (cstr ([] ++ [0#8, 0#8])) := nofun
  rw [scanRange_range (by decide) hd hl hend]
  rfl

/-! ## What the packets do -/

section Moves

variable {size : Nat} {frame : U32 → BitVec 19} {b : List U8}

theorem kept_self (frame : U32 → BitVec 19) (addr : U32) (n : Nat) (g : Gdb Memory) :
    Kept frame addr n g g.tlb := fun _ _ => .inl rfl

theorem beside_self (frame : U32 → BitVec 19) (addr : U32) (n : Nat) (g : Gdb Memory) :
    Beside frame addr n g g.cpu.env.world.mem := fun _ _ => rfl

/-- The stub after a packet that stored `w`. -/
structure Wrote (frame : U32 → BitVec 19) (addr : U32) (n : Nat) (w : List U8) (g g' : Gdb Memory) :
    Prop where
  isOpen : g'.rsp.isOpen = true
  elf : g'.elf = g.elf
  kept : Kept frame addr n g g'.tlb
  cpu : g'.cpu = (g.holding g'.cpu.env.world.mem g.tlb).cpu
  length : w.length = n
  stored : Stored frame addr 0 w g.cpu.env.world.mem g'.cpu.env.world.mem

theorem Wrote.beside {g' : Gdb Memory} {n : Nat} {w : List U8} (h : Wrote frame addr n w g g') :
    Beside frame addr n g g'.cpu.env.world.mem := by
  intro a ha
  refine h.stored.outside a fun k hk => ?_
  rw [Nat.zero_add]
  exact ha k (h.length ▸ hk)

theorem Wrote.mapped {g' : Gdb Memory} {n : Nat} {w : List U8} (h : Wrote frame addr n w g g')
    (hm : Mapped size frame addr n g) : Mapped size frame addr n g' :=
  hm.after h.kept h.beside h.cpu h.elf

theorem Wrote.ofSize {g' : Gdb Memory} {n : Nat} {w : List U8} (h : Wrote frame addr n w g g')
    (hs : OfSize size g) : OfSize size g' := by
  have hh := hs.holding g'.cpu.env.world.mem g.tlb
  exact ⟨h.cpu ▸ hh.port, h.cpu ▸ hh.endian⟩

/-- A packet whose payload fills the range is answered with OK, and stores it. -/
theorem write_ok {convert : Nat → List U8 → Option (List U8 × List U8)} (ho : g.rsp.isOpen = true)
    (hs : OfSize size g) (hm : Mapped size frame addr len.toNat g) (hc : Splits convert)
    {data w rest : List U8} (hw : convert len.toNat data = some (w, rest)) :
    ∃ g', ((writeLoop convert len.toNat addr len.toNat data g).bind (·.send (ascii "OK"))) = .ok g' ∧
      (len.toNat ≤ 0x2000 → Wrote frame addr len.toNat w g g') := by
  obtain ⟨mem, tlb, hloop, hk, hst⟩ := writeLoop_ok hs hm hc len.toNat 0 len.toNat data w rest
    g.cpu.env.world.mem g.tlb (Nat.zero_add _) (Nat.le_refl _) hw (beside_self frame addr _ g)
    (kept_self frame addr _ g)
  rw [BitVec.add_zero] at hloop
  rw [holding_self] at hloop
  have hsend := send_eq (g := g.holding mem tlb) ho (ascii "OK")
  rw [hloop]
  exact ⟨_, hsend, fun hlen => ⟨ho, rfl, hk, rfl, hc.length _ _ _ hw, hst hlen⟩⟩

/-- A packet whose payload ends too early reads behind its buffer. -/
theorem write_fault {convert : Nat → List U8 → Option (List U8 × List U8)} (hs : OfSize size g)
    (hm : Mapped size frame addr len.toNat g) (hc : Splits convert) {data : List U8}
    (hw : convert len.toNat data = none) :
    ((writeLoop convert len.toNat addr len.toNat data g).bind (·.send (ascii "OK"))) =
      .fault .badIndex := by
  have hpos : 0 < len.toNat := Nat.pos_of_ne_zero fun h0 => by
    rw [h0, hc.zero] at hw
    cases hw
  have hloop := writeLoop_fault hs hm hc len.toNat 0 len.toNat data g.cpu.env.world.mem g.tlb
    (Nat.zero_add _) (Nat.le_refl _) hw (beside_self frame addr _ g) (kept_self frame addr _ g) hpos
  rw [BitVec.add_zero] at hloop
  rw [holding_self] at hloop
  rw [hloop]
  rfl

/-- The bytes of the range. -/
def held (frame : U32 → BitVec 19) (addr : U32) (n : Nat) (g : Gdb Memory) : List U8 :=
  (List.range n).map fun k => g.cpu.env.world.mem (target frame addr k)

/-- What the stub replied to `m`. -/
def Answered (g g' : Gdb Memory) (text : List U8) : Prop :=
  g'.rsp = { g.rsp with output := g.rsp.output ++ (Packet.ofString text).bytes }

theorem Answered.unique {g' : Gdb Memory} {text text' : List U8} (h : Answered g g' text)
    (h' : Answered g g' text') : text = text' := by
  have hb := List.append_cancel_left (congrArg Rsp.output (h.symm.trans h'))
  rw [Packet.ofString_bytes, Packet.ofString_bytes] at hb
  have hl := congrArg List.length hb
  rw [Packet.length_frame, Packet.length_frame] at hl
  unfold Packet.frame at hb
  simp only [List.append_assoc] at hb
  exact (List.append_inj (List.append_cancel_left hb) (by omega)).1

/-- `m` replies the bytes of its range. -/
theorem read_ok (ho : g.rsp.isOpen = true) (hs : OfSize size g)
    (hm : Mapped size frame addr len.toNat g) (hd : Spells ds addr) (hl : Spells ls len) :
    ∃ g', g.handleMemRead (command 'm' (range ds ls [])) = .ok g' ∧
      Answered g g' (hexBytes (held frame addr len.toNat g)) := by
  obtain ⟨tlb, hloop, -⟩ := readLoop_ok hs hm len.toNat (beside_self frame addr _ g) 0 len.toNat
    g.tlb [] (Nat.zero_add _) (Nat.le_refl _) (kept_self frame addr _ g)
  rw [BitVec.add_zero] at hloop
  simp only [Nat.zero_add] at hloop
  rw [holding_self, List.nil_append] at hloop
  refine ⟨(g.holding g.cpu.env.world.mem tlb).withRsp _, ?_, rfl⟩
  rw [handleMemRead_eq hd hl, hloop]
  show sendString (g.holding g.cpu.env.world.mem tlb) _ = _
  unfold sendString Rsp.sendString Rsp.send
  have ho' : (g.holding g.cpu.env.world.mem tlb).rsp.isOpen = true := ho
  rw [if_pos ho', Outcome.lift_ok]
  rfl

theorem Wrote.held {g' : Gdb Memory} {n : Nat} {w : List U8} (h : Wrote frame addr n w g g') :
    held frame addr n g' = w := by
  refine List.ext_getElem (by rw [Gdb.held, List.length_map, List.length_range, h.length]) ?_
  intro i hi hiw
  rw [← List.getD_eq_getElem _ 0#8 hiw, ← h.stored.inside i hiw]
  simp [Gdb.held]

/-- What was stored determines the memory. -/
theorem Wrote.mem_eq_iff {g₁ g₂ : Gdb Memory} {n : Nat} {w v : List U8}
    (h : Wrote frame addr n w g g₁) (h' : Wrote frame addr n v g g₂) :
    g₂.cpu.env.world.mem = g₁.cpu.env.world.mem ↔ w = v := by
  constructor
  · intro hmem
    rw [← h.held, ← h'.held, Gdb.held, Gdb.held, hmem]
  · rintro rfl
    funext a
    by_cases ha : ∃ k < w.length, a = target frame addr (0 + k)
    · obtain ⟨k, hk, rfl⟩ := ha
      rw [h.stored.inside k hk, h'.stored.inside k hk]
    · have hne : ∀ k < w.length, a ≠ target frame addr (0 + k) := fun k hk he => ha ⟨k, hk, he⟩
      rw [h.stored.outside a hne, h'.stored.outside a hne]

/-! ## Round trips -/

theorem unescaped_append {n : Nat} {e w rest : List U8} (h : unescaped n e = some (w, rest))
    (tail : List U8) : unescaped n (e ++ tail) = some (w, rest ++ tail) := by
  have hchar : ∀ {s : List U8} {x : U8 × List U8}, charUnescape s = some x →
      charUnescape (s ++ tail) = some (x.1, x.2 ++ tail) := by
    intro s x hx
    match s with
    | [] => cases hx
    | c :: s =>
      unfold charUnescape at hx ⊢
      dsimp only [List.cons_append] at hx ⊢
      split at hx
      · rename_i hc
        rw [if_pos hc]
        cases s with
        | nil => cases hx
        | cons d s =>
          cases hx
          rfl
      · rename_i hc
        rw [if_neg hc]
        cases hx
        rfl
  rw [unescaped_eq] at h ⊢
  induction n generalizing e w with
  | zero =>
    cases h
    rfl
  | succ n ih =>
    obtain ⟨x, hx, hy⟩ := Option.bind_eq_some_iff.1 h
    obtain ⟨y, hz, hw⟩ := Option.map_eq_some_iff.1 hy
    obtain ⟨rfl, rfl⟩ := Prod.mk.inj hw
    rw [repeated, hchar hx, Option.bind_some, ih hz]
    rfl

/-- `m` behind `M` replies what was sent. -/
def RoundTrips (g : Gdb Memory) (ds ls b : List U8) : Prop := ∃ g₁ g₂,
  g.handleMemWrite (command 'M' (loaded ds ls (hexBytes b))) = .ok g₁ ∧
    g₁.handleMemRead (command 'm' (range ds ls [])) = .ok g₂ ∧ Answered g₁ g₂ (hexBytes b)

/-- `X` with the payload `e` and `M` leave the same memory. -/
def StoreAlike (g : Gdb Memory) (ds ls b e : List U8) : Prop := ∃ g₁ g₂,
  g.handleMemWrite (command 'M' (loaded ds ls (hexBytes b))) = .ok g₁ ∧
    g.handleMemWriteBin (command 'X' (loaded ds ls e)) = .ok g₂ ∧
    g₂.cpu.env.world.mem = g₁.cpu.env.world.mem

/-- An error is answered, and memory is as it was. -/
def Refused (g : Gdb Memory) (x : Outcome (Gdb Memory) (Gdb Memory)) : Prop :=
  ∃ g', x = .throw g' ∧ g'.cpu.env.world.mem = g.cpu.env.world.mem

/-- A packet for a range in memory is answered with OK or reads behind its buffer. -/
theorem not_refused {convert : Nat → List U8 → Option (List U8 × List U8)} (ho : g.rsp.isOpen = true)
    (hs : OfSize size g) (hm : Mapped size frame addr len.toNat g) (hc : Splits convert)
    (data : List U8) : ¬Refused g
      ((writeLoop convert len.toNat addr len.toNat data g).bind (·.send (ascii "OK"))) := by
  rintro ⟨g', hg', -⟩
  cases hw : convert len.toNat data with
  | none =>
    rw [write_fault hs hm hc hw] at hg'
    cases hg'
  | some x =>
    obtain ⟨g₁, hg₁, -⟩ := write_ok ho hs hm hc hw
    rw [hg₁] at hg'
    cases hg'

section Packets

variable (ho : g.rsp.isOpen = true) (hs : OfSize size g) (hd : Spells ds addr) (hl : Spells ls len)
  (h4 : len.toNat % 4 = 0) (hm : Mapped size frame addr len.toNat g) (hlen : len.toNat ≤ 0x2000)
  (hb : b.length = len.toNat)

include ho hs hd hl h4 hm hlen hb

/-- `M` stores what it takes for the bytes. -/
theorem handleMemWrite_ok :
    ∃ g', g.handleMemWrite (command 'M' (loaded ds ls (hexBytes b))) = .ok g' ∧
      Wrote frame addr len.toNat (misread b) g g' := by
  obtain ⟨rest, hw⟩ := hexPairs_hexBytes b
  rw [hb] at hw
  rw [handleMemWrite_eq hd hl h4]
  obtain ⟨g', hg', hst⟩ := write_ok ho hs hm splits_hexPairs hw
  exact ⟨g', hg', hst hlen⟩

theorem roundTrips_iff : RoundTrips g ds ls b ↔ Repeats b := by
  obtain ⟨g₁, hg₁, hw⟩ := handleMemWrite_ok ho hs hd hl h4 hm hlen hb
  obtain ⟨g₂, hg₂, ha⟩ := read_ok hw.isOpen (hw.ofSize hs) (hw.mapped hm) hd hl
  rw [hw.held] at ha
  rw [← misread_iff]
  constructor
  · rintro ⟨g₁', g₂', h₁, h₂, ha'⟩
    cases hg₁.symm.trans h₁
    cases hg₂.symm.trans h₂
    exact hexBytes_injective (ha.unique ha')
  · intro h
    rw [h] at ha
    exact ⟨g₁, g₂, hg₁, hg₂, ha⟩

theorem storeAlike_iff {e : List U8} (he : unescaped b.length e = some (b, [])) :
    StoreAlike g ds ls b e ↔ Repeats b := by
  obtain ⟨g₁, hg₁, hw⟩ := handleMemWrite_ok ho hs hd hl h4 hm hlen hb
  have hx := unescaped_append he [0#8, 0#8]
  rw [hb] at hx
  obtain ⟨g₂, hg₂, hv⟩ := write_ok ho hs hm splits_unescaped hx
  rw [← handleMemWriteBin_eq hd hl h4] at hg₂
  rw [← misread_iff, ← hw.mem_eq_iff (hv hlen)]
  constructor
  · rintro ⟨g₁', g₂', h₁, h₂, hmem⟩
    cases hg₁.symm.trans h₁
    cases hg₂.symm.trans h₂
    exact hmem
  · exact fun hmem => ⟨g₁, g₂, hg₁, hg₂, hmem⟩

end Packets

/-- For a range in memory: what `M` wrote comes back, and is what `X` writes, if and only if the
digits repeat; a payload that is too short is never refused, however long the range is. -/
theorem mem_packets_iff (ho : g.rsp.isOpen = true) (hs : OfSize size g) (hd : Spells ds addr)
    (hl : Spells ls len) (h4 : len.toNat % 4 = 0) (hm : Mapped size frame addr len.toNat g) :
    (∀ b, b.length = len.toNat →
      (chr 'M' :: loaded ds ls (hexBytes b)).length < rspMaxPacketSize →
        (RoundTrips g ds ls b ↔ Repeats b) ∧
        ∀ e, unescaped b.length e = some (b, []) → (StoreAlike g ds ls b e ↔ Repeats b)) ∧
    (∀ p, p.length < 2 * len.toNat →
      ¬Refused g (g.handleMemWrite (command 'M' (loaded ds ls p)))) ∧
    ∀ e, unescaped len.toNat e = none →
      ¬Refused g (g.handleMemWriteBin (command 'X' (loaded ds ls e))) := by
  refine ⟨fun b hb hfit => ?_, fun p _ => ?_, fun e _ => ?_⟩
  · have hlen : len.toNat ≤ 0x2000 := by
      unfold loaded range rspMaxPacketSize at hfit
      simp only [List.length_cons, List.length_append, length_hexBytes] at hfit
      omega
    exact ⟨roundTrips_iff ho hs hd hl h4 hm hlen hb,
      fun e he => storeAlike_iff ho hs hd hl h4 hm hlen hb he⟩
  · rw [handleMemWrite_eq hd hl h4]
    exact not_refused ho hs hm splits_hexPairs _
  · rw [handleMemWriteBin_eq hd hl h4]
    exact not_refused ho hs hm splits_unescaped _

end Moves

end Handlers

/-! ## A connected stub -/

/-- Every page in the frame of its own number. -/
def sameFrame (v : U32) : BitVec 19 := v.setWidth 19

theorem place_sameFrame (addr : U32) : place sameFrame addr = addr := by
  have ha := addr.isLt
  apply BitVec.eq_of_toNat_eq
  rw [toNat_place]
  unfold sameFrame
  rw [BitVec.toNat_setWidth, toNat_pageNumber]
  omega

/-- Without MMUs and without an ELF file all of memory is mapped. -/
theorem mapped_connected (words : List (Nat × U32)) {addr : U32} {len : Nat}
    (h : addr.toNat + len ≤ 0x8000) : Mapped 0x8000 sameFrame addr len (connected words) where
  cached _ _ := .inl rfl
  translated i _ _ mem _ := by
    have hoff : test (connected []).cpu.status SR.DME = false ∧
        test (connected []).cpu.status SR.IME = false := by decide
    rw [place_sameFrame, translate_off (g := (connected words).holding mem _) hoff.1 hoff.2]
    rfl
  inside i hi := by
    unfold target
    rw [place_sameFrame, BitVec.toNat_add, BitVec.toNat_ofNat]
    omega

theorem ofSize_connected (words : List (Nat × U32)) : OfSize 0x8000 (connected words) :=
  ⟨Memory.ofSize_env _ _, rfl⟩

/-- `M` makes 0x21324354 of the digits 12345678. -/
theorem mem_packets_fails : Mapped 0x8000 sameFrame 0x100#32 4 (connected []) ∧
    ¬RoundTrips (connected []) (hexWord 0x100#32) (hexWord 4#32)
      [0x12#8, 0x34#8, 0x56#8, 0x78#8] := by
  have hm := mapped_connected [] (show (0x100#32).toNat + 4 ≤ 0x8000 by decide)
  refine ⟨hm, fun h => ?_⟩
  have hr := (roundTrips_iff rfl (ofSize_connected []) (spells_hexWord _) (spells_hexWord 4#32) rfl
    hm (by decide) rfl).1 h
  exact absurd ((misread_iff _).2 hr) (by decide)

/-- The digits 11211211 come back; M0,4000:00 is not refused. -/
theorem mem_packets_repeats :
    RoundTrips (connected []) (hexWord 0x100#32) (hexWord 4#32)
      [0x11#8, 0x21#8, 0x12#8, 0x11#8] ∧
    ¬Refused (connected []) ((connected []).handleMemWrite
      (command 'M' (loaded (hexWord 0#32) (hexWord 0x4000#32) (ascii "00")))) := by
  have hm := mapped_connected [] (show (0x100#32).toNat + (4#32).toNat ≤ 0x8000 by decide)
  have hm' := mapped_connected [] (show (0#32).toNat + (0x4000#32).toNat ≤ 0x8000 by decide)
  constructor
  · refine ((mem_packets_iff rfl (ofSize_connected []) (spells_hexWord _) (spells_hexWord _) rfl
      hm).1 _ rfl ?_).1.2 ⟨1#4, 2#4, ?_⟩
    · decide
    · decide
  · exact (mem_packets_iff rfl (ofSize_connected []) (spells_hexWord _) (spells_hexWord _) rfl
      hm').2.1 _ (by decide)

end Gdb

end Or1kiss
