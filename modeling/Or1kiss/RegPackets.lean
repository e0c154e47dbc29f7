import Mathlib.Order.Fin.Basic
import Or1kiss.Gdb
import Or1kiss.Interrupt
import Or1kiss.Memory

/-!
# Register packets

`g` writes eight digits for every register, the highest first; `str2int`, by which `G` reads them,
takes the first digit for the lowest. The packets for single registers go through `sscanf`.
-/

namespace Or1kiss

open Host Bits

/-! ## A word read backwards -/

theorem extract_shift_or_low (v : U32) (x : BitVec 4) :
    ((v <<< 4) ||| x.setWidth 32).extractLsb' 0 4 = x := by
  ext i hi
  simp only [BitVec.getElem_extractLsb', BitVec.getLsbD_or, BitVec.getLsbD_shiftLeft,
    BitVec.getLsbD_setWidth, Nat.zero_add, hi, decide_true, Bool.not_true, Bool.and_false,
    Bool.false_and, Bool.false_or]
  rw [decide_eq_true (show i < 32 by omega), Bool.true_and, BitVec.getLsbD_eq_getElem]

theorem extract_shift_or_high (v : U32) (x : BitVec 4) {i j : Nat} (hij : j = i + 4)
    (hj : j + 4 ≤ 32) : ((v <<< 4) ||| x.setWidth 32).extractLsb' j 4 = v.extractLsb' i 4 := by
  subst hij
  ext k hk
  have hx : x.getLsbD (i + 4 + k) = false := BitVec.getLsbD_of_ge _ _ (by omega)
  simp only [BitVec.getElem_extractLsb', BitVec.getLsbD_or, BitVec.getLsbD_shiftLeft,
    BitVec.getLsbD_setWidth, hx, Bool.and_false, Bool.or_false]
  rw [decide_eq_true (show i + 4 + k < 32 by omega), decide_eq_false (show ¬i + 4 + k < 4 by omega)]
  have he : i + 4 + k - 4 = i + k := by omega
  rw [he]
  rfl

/-- The digits of what `str2int` makes of a word are those of the word, the last one first. -/
theorem hexWord_str2int (v : U32) : hexWord (str2int (hexWord v)) = (hexWord v).reverse := by
  -- every digit but the first is a digit of the word without it
  have high : ∀ (w : U32) (x : BitVec 4) (k : Nat), k < 7 →
      ((w <<< 4) ||| x.setWidth 32).extractLsb' (4 * (k + 1)) 4 = w.extractLsb' (4 * k) 4 :=
    fun w x k hk => extract_shift_or_high w x (by omega) (by omega)
  unfold hexWord str2int
  simp only [List.foldr_cons, List.foldr_nil, char2int_hexDigit, extract_shift_or_low,
    high _ _ 0 (by decide), high _ _ 1 (by decide), high _ _ 2 (by decide), high _ _ 3 (by decide),
    high _ _ 4 (by decide), high _ _ 5 (by decide), high _ _ 6 (by decide), Nat.mul_zero]
  rfl

theorem hexWord_injective {v w : U32} (h : hexWord v = hexWord w) : v = w := by
  have hv := congrArg hexValue h
  rw [hexValue_hexWord, hexValue_hexWord] at hv
  exact BitVec.eq_of_toNat_eq hv

/-- The eight digits read the same backwards. -/
def Palindrome (v : U32) : Prop := (hexWord v).reverse = hexWord v

instance (v : U32) : Decidable (Palindrome v) := inferInstanceAs (Decidable (_ = _))

theorem str2int_hexWord_iff (v : U32) : str2int (hexWord v) = v ↔ Palindrome v := by
  constructor
  · intro h
    have hw := hexWord_str2int v
    rw [h] at hw
    exact hw.symm
  · intro h
    apply hexWord_injective
    rw [hexWord_str2int]
    exact h

namespace Gdb

variable {σ : Type} {g g' : Gdb σ}

/-- The stub answered with a text. -/
def Replied (g g' : Gdb σ) (text : List U8) : Prop :=
  g'.rsp = { g.rsp with output := g.rsp.output ++ (Packet.ofFormat text).bytes }

theorem send_eq (ho : g.rsp.isOpen = true) (text : List U8) : g.send text = .ok
    (g.withRsp { g.rsp with output := g.rsp.output ++ (Packet.ofFormat text).bytes }) := by
  unfold send Rsp.sendFormat Rsp.send
  rw [if_pos ho, Outcome.lift_ok]

/-- An answer on an open connection. -/
theorem send_open (ho : g.rsp.isOpen = true) (text : List U8) : ∃ g', g.send text = .ok g' ∧
    Replied g g' text ∧ g'.rsp.isOpen = true ∧ g'.cpu = g.cpu :=
  ⟨_, send_eq ho text, rfl, ho, rfl⟩

/-- Two answers that look alike are one text. -/
theorem Replied.unique {text text' : List U8} (h : Replied g g' text) (h' : Replied g g' text') :
    text = text' := by
  have hb := List.append_cancel_left (congrArg Rsp.output (h.symm.trans h'))
  rw [Packet.ofFormat_bytes, Packet.ofFormat_bytes] at hb
  have hl := congrArg List.length hb
  simp only [List.length_append, List.length_singleton, Packet.sumDigits_length] at hl
  simp only [List.append_assoc] at hb
  exact (List.append_inj (List.append_cancel_left hb) (by omega)).1

/-- What a handler gets for a command: the zero of `recv` and that of `c_str()` follow. -/
def command (c : Char) (text : List U8) : List U8 := chr c :: text ++ [0#8, 0#8]

/-- The digits of all registers. -/
def payload (vals : Fin 35 → U32) : List U8 :=
  (List.finRange 35).flatMap fun reg => hexWord (vals reg)

/-! ## Writing registers -/

variable [EnvImpl σ]

/-- The registers of the debugger by the members that hold them. -/
def regs (s : Or1k σ) (reg : Fin 35) : U32 :=
  if h : reg.val < 32 then s.gpr ⟨reg.val, h⟩
  else if reg.val = 32 then s.prevPc
  else if reg.val = 33 then s.nextPc
  else s.status

omit [EnvImpl σ] in
theorem readReg_eq (g : Gdb σ) : g.readReg = regs g.cpu := by
  have spr : ∀ r : SpReg, r ≠ .ttmr → r ≠ .ttcr → g.cpu.getSpr r.num true = g.cpu.toCore.readReg r := by
    intro r hm hc
    unfold Or1k.getSpr Or1k.readDenied
    rw [Bool.not_true, Bool.false_and, if_neg Bool.false_ne_true, SpReg.ofNum_num]
    cases r <;> first | rfl | exact (hm rfl).elim | exact (hc rfl).elim
  funext reg
  unfold readReg regs
  rw [spr .ppc nofun nofun, spr .npc nofun nofun, spr .sr nofun nofun]
  rfl

/-- The simulator after a write to a register of the debugger. -/
def written (s : Or1k σ) (reg : Fin 35) (val : U32) : Or1k σ :=
  if h : reg.val < 32 then s.withCore (s.toCore.setGpr ⟨reg.val, h⟩ val)
  else if reg.val = 32 then { s.requestBreak with prevPc := val }
  else if reg.val = 33 then { s.requestBreak with nextPc := val }
  else { s.requestBreak with status := val }

theorem writeReg_eq (g : Gdb σ) (reg : Fin 35) (val : U32) :
    g.writeReg reg val = .ok (g.withCpu (written g.cpu reg val)) := by
  have spr : ∀ r : SpReg, r = .ppc ∨ r = .npc ∨ r = .sr → g.setSpr r.num val =
      .ok (g.withCpu (g.cpu.requestBreak.withCore (g.cpu.requestBreak.toCore.writeReg r val))) := by
    intro r hr
    unfold setSpr Or1k.setSpr Or1k.writeDenied Or1k.writeSpr
    rw [Bool.not_true, Bool.false_and, if_neg Bool.false_ne_true, SpReg.ofNum_num]
    obtain rfl | rfl | rfl := hr <;> rfl
  unfold writeReg written
  split
  · rfl
  · rw [spr .ppc (.inl rfl), spr .npc (.inr (.inl rfl)), spr .sr (.inr (.inr rfl))]
    split
    · rfl
    · split <;> rfl

omit [EnvImpl σ] in
/-- A write changes one register. -/
theorem regs_written (s : Or1k σ) (reg : Fin 35) (val : U32) :
    regs (written s reg val) = Function.update (regs s) reg val := by
  funext reg'
  rw [Function.update_apply]
  by_cases he : reg' = reg
  · subst he
    rw [if_pos rfl]
    unfold regs written
    split
    · exact Function.update_self _ _ _
    · split
      · rfl
      · split <;> rfl
  · rw [if_neg he]
    have hne : reg'.val ≠ reg.val := fun h => he (Fin.ext h)
    unfold regs written
    by_cases hr : reg.val < 32
    · rw [dif_pos hr]
      by_cases hr' : reg'.val < 32
      · rw [dif_pos hr', dif_pos hr']
        exact Function.update_of_ne (fun h => hne (Fin.mk.inj h)) _ _
      · rw [dif_neg hr', dif_neg hr']
        rfl
    · rw [dif_neg hr]
      by_cases hr' : reg'.val < 32
      · rw [dif_pos hr', dif_pos hr']
        split
        · rfl
        · split <;> rfl
      · rw [dif_neg hr', dif_neg hr']
        by_cases h32 : reg.val = 32
        · have h32' : reg'.val ≠ 32 := by omega
          rw [if_pos h32, if_neg h32', if_neg h32']
          rfl
        · rw [if_neg h32]
          by_cases h33 : reg.val = 33
          · rw [if_pos h33]
            have h33' : reg'.val ≠ 33 := by omega
            rw [if_neg h33', if_neg h33']
            rfl
          · have hlt := reg.isLt
            have hlt' := reg'.isLt
            rw [if_neg h33]
            by_cases h32' : reg'.val = 32
            · rw [if_pos h32', if_pos h32']
              rfl
            · have h33' : reg'.val = 33 := by omega
              rw [if_neg h32', if_neg h32', if_pos h33', if_pos h33']
              rfl

/-- The value that `G` takes for a register. -/
def digitsAt (str : List U8) (reg : Fin 35) : U32 := str2int ((str.drop (reg.val * 8)).take 8)

/-- `G` writes the registers of a payload that is long enough. -/
theorem writeRegs_eq {str : List U8} {rs : List (Fin 35)}
    (hl : ∀ reg ∈ rs, reg.val * 8 + 8 ≤ str.length) (g : Gdb σ) : ∃ s,
      writeRegs str rs g = .ok (g.withCpu s) ∧
        ∀ reg, regs s reg = if reg ∈ rs then digitsAt str reg else regs g.cpu reg := by
  induction rs generalizing g with
  | nil => exact ⟨g.cpu, rfl, fun reg => by rw [if_neg (List.not_mem_nil)]⟩
  | cons r rs ih =>
    have hlen := hl r List.mem_cons_self
    obtain ⟨s, hs, hreg⟩ := ih (fun reg hm => hl reg (List.mem_cons_of_mem r hm))
      (g.withCpu (written g.cpu r (digitsAt str r)))
    refine ⟨s, ?_, fun reg => ?_⟩
    · rw [writeRegs, chars, if_pos (by rw [List.length_drop]; omega), Outcome.ok_bind, writeReg_eq,
        Outcome.ok_bind]
      exact hs
    · rw [hreg]
      show (if reg ∈ rs then _ else regs (written g.cpu r (digitsAt str r)) reg) = _
      rw [regs_written, Function.update_apply]
      by_cases hm : reg ∈ rs
      · rw [if_pos hm, if_pos (List.mem_cons_of_mem r hm)]
      · by_cases he : reg = r
        · subst he
          rw [if_neg hm, if_pos rfl, if_pos List.mem_cons_self]
        · rw [if_neg hm, if_neg he, if_neg fun h => hm ((List.mem_cons.1 h).resolve_left he)]

omit [EnvImpl σ] in
/-- The digits of a register at its place among those of all registers. -/
theorem slice_flatMap {α : Type} (f : α → List U8) (hf : ∀ a, (f a).length = 8) (l : List α)
    (rest : List U8) (i : Nat) (hi : i < l.length) :
    ((l.flatMap f ++ rest).drop (i * 8)).take 8 = f l[i] := by
  induction l generalizing i with
  | nil => exact absurd hi (Nat.not_lt_zero i)
  | cons a l ih =>
    rw [List.flatMap_cons, List.append_assoc]
    cases i with
    | zero => rw [Nat.zero_mul, List.drop_zero, ← hf a, List.take_left]; rfl
    | succ i =>
      have hd : (i + 1) * 8 = (f a).length + i * 8 := by rw [hf]; omega
      rw [hd, ← List.drop_drop, List.drop_left]
      exact ih i (by simpa using hi)

omit [EnvImpl σ] in
theorem payload_slice (vals : Fin 35 → U32) (rest : List U8) (reg : Fin 35) :
    ((payload vals ++ rest).drop (reg.val * 8)).take 8 = hexWord (vals reg) := by
  have hi : reg.val < (List.finRange 35).length := by
    rw [List.length_finRange]
    exact reg.isLt
  have hs := slice_flatMap (fun r => hexWord (vals r)) (fun _ => rfl) (List.finRange 35) rest
    reg.val hi
  rw [List.getElem_finRange] at hs
  exact hs

omit [EnvImpl σ] in
theorem length_payload (vals : Fin 35 → U32) : (payload vals).length = 280 := by
  unfold payload
  have h8 : (fun reg => (hexWord (vals reg)).length) = fun _ => 8 := rfl
  rw [List.length_flatMap, h8, List.map_const', List.length_finRange, List.sum_replicate_nat]

/-- `G` leaves in every register the digits of the payload, read backwards. -/
theorem handleRegWriteAll_payload (ho : g.rsp.isOpen = true) (vals : Fin 35 → U32)
    (rest : List U8) : ∃ g', g.handleRegWriteAll (command 'G' (payload vals ++ rest)) = .ok g' ∧
      g'.rsp.isOpen = true ∧ ∀ reg, g'.readReg reg = str2int (hexWord (vals reg)) := by
  have hstr : (command 'G' (payload vals ++ rest)).drop 1 =
      payload vals ++ (rest ++ [0#8, 0#8]) := by
    unfold command
    rw [List.cons_append, List.drop_one, List.tail_cons, List.append_assoc]
  have hlen : ∀ reg ∈ List.finRange 35,
      reg.val * 8 + 8 ≤ (payload vals ++ (rest ++ [0#8, 0#8])).length := fun reg _ => by
    rw [List.length_append, length_payload]
    omega
  obtain ⟨s, hs, hreg⟩ := writeRegs_eq hlen g
  obtain ⟨g', hg', -, ho', hcpu⟩ := send_open (g := g.withCpu s) ho (ascii "OK")
  refine ⟨g', ?_, ho', fun reg => ?_⟩
  · unfold handleRegWriteAll
    rw [hstr, hs, Outcome.ok_bind, hg']
  · rw [readReg_eq, hcpu]
    show regs s reg = _
    rw [hreg, if_pos (List.mem_finRange reg), digitsAt, payload_slice]

/-! ## Single registers -/

omit [EnvImpl σ] in
theorem cstr_command {c : Char} {text : List U8} (hc : chr c ≠ 0#8) (h : ∀ d ∈ text, d ≠ 0#8) :
    cstr (command c text) = chr c :: text := by
  unfold command
  rw [cstr_append]
  · exact List.append_nil _
  · intro d hd
    rcases List.mem_cons.1 hd with rfl | hd
    · exact hc
    · exact h d hd

/-- `P` and `p` read their digits through `sscanf`. -/
theorem handleRegWrite_spells {reg : Fin 35} {val : U32} {ds es : List U8}
    (hd : Spells ds (BitVec.ofNat 32 reg.val)) (he : Spells es val) :
    g.handleRegWrite (command 'P' (ds ++ chr '=' :: es)) =
      (g.withCpu (written g.cpu reg val)).send (ascii "OK") := by
  have hc : cstr (command 'P' (ds ++ chr '=' :: es)) = chr 'P' :: (ds ++ chr '=' :: es) := by
    refine cstr_command (by decide) fun d hd' => ?_
    rcases List.mem_append.1 hd' with h | h
    · exact hd.ne_zero d h
    · rcases List.mem_cons.1 h with rfl | h
      · decide
      · exact he.ne_zero d h
  have hend : EndsNumber (chr '=' :: es) := by
    intro c h
    cases h
    decide
  have hreg : (BitVec.ofNat 32 reg.val).toNat = reg.val := by
    rw [BitVec.toNat_ofNat, Nat.mod_eq_of_lt (by omega)]
  unfold handleRegWrite
  rw [hc, scanChar, if_pos rfl]
  simp only [Option.bind_eq_bind, Option.bind_some, scanHexAny_spells hd hend, scanChar, if_true,
    scanHexAny_all he]
  rw [dif_pos (by rw [hreg]; exact reg.isLt), writeReg_eq, Outcome.ok_bind]
  congr 3
  exact Fin.ext hreg

omit [EnvImpl σ] in
theorem handleRegRead_spells {reg : Fin 35} {ds : List U8}
    (hd : Spells ds (BitVec.ofNat 32 reg.val)) :
    g.handleRegRead (command 'p' ds) = g.send (hexWord (g.readReg reg)) := by
  have hc : cstr (command 'p' ds) = chr 'p' :: ds := cstr_command (by decide) hd.ne_zero
  have hreg : (BitVec.ofNat 32 reg.val).toNat = reg.val := by
    rw [BitVec.toNat_ofNat, Nat.mod_eq_of_lt (by omega)]
  unfold handleRegRead
  rw [hc, scanChar, if_pos rfl, Option.bind_some, scanHexAny_all hd]
  dsimp only
  rw [dif_pos (by rw [hreg]; exact reg.isLt)]
  congr 3
  exact Fin.ext hreg

/-! ## Round trips -/

/-- Sending back with `G` what `g` replied keeps every register. -/
def KeepsRegs (g : Gdb σ) : Prop := ∃ g₁ text, g.handleRegReadAll (command 'g' []) = .ok g₁ ∧
  Replied g g₁ text ∧ ∀ rest, ∃ g₂, g₁.handleRegWriteAll (command 'G' (text ++ rest)) = .ok g₂ ∧
    ∀ reg, g₂.readReg reg = g.readReg reg

/-- `g` behind `G` replies what was written. -/
def ReadsBack (g : Gdb σ) (vals : Fin 35 → U32) : Prop := ∃ g₁ g₂,
  g.handleRegWriteAll (command 'G' (payload vals)) = .ok g₁ ∧
    g₁.handleRegReadAll (command 'g' []) = .ok g₂ ∧ Replied g₁ g₂ (payload vals)

/-- `p` behind `P` replies what was written, and so does `g` at the place of the register. -/
def ReadsBackOne (g : Gdb σ) (reg : Fin 35) (val : U32) (ds es : List U8) : Prop :=
  ∃ g₁ g₂ g₃ text, g.handleRegWrite (command 'P' (ds ++ chr '=' :: es)) = .ok g₁ ∧
    g₁.handleRegRead (command 'p' ds) = .ok g₂ ∧ Replied g₁ g₂ (hexWord val) ∧
    g₁.handleRegReadAll (command 'g' []) = .ok g₃ ∧ Replied g₁ g₃ text ∧
    (text.drop (reg.val * 8)).take 8 = hexWord val

theorem keepsRegs_iff (ho : g.rsp.isOpen = true) :
    KeepsRegs g ↔ ∀ reg, Palindrome (g.readReg reg) := by
  obtain ⟨g₁, hg₁, hr₁, ho₁, hcpu₁⟩ := send_open ho (payload g.readReg)
  have hread : g.handleRegReadAll (command 'g' []) = .ok g₁ := hg₁
  constructor
  · rintro ⟨g₁', text, hread', hr, hback⟩ reg
    cases hread.symm.trans hread'
    cases hr₁.unique hr
    obtain ⟨g₂, hg₂, hkeep⟩ := hback []
    obtain ⟨g₂', hg₂', -, hdig⟩ := handleRegWriteAll_payload ho₁ g.readReg []
    cases hg₂.symm.trans hg₂'
    rw [← str2int_hexWord_iff, ← hdig]
    exact hkeep reg
  · intro h
    refine ⟨g₁, payload g.readReg, hread, hr₁, fun rest => ?_⟩
    obtain ⟨g₂, hg₂, -, hdig⟩ := handleRegWriteAll_payload ho₁ g.readReg rest
    refine ⟨g₂, hg₂, fun reg => ?_⟩
    rw [hdig]
    exact (str2int_hexWord_iff _).2 (h reg)

theorem readsBack_iff (ho : g.rsp.isOpen = true) (vals : Fin 35 → U32) :
    ReadsBack g vals ↔ ∀ reg, Palindrome (vals reg) := by
  obtain ⟨g₁, hg₁, ho₁, hdig⟩ := handleRegWriteAll_payload ho vals []
  rw [List.append_nil] at hg₁
  obtain ⟨g₂, hg₂, hr₂, -, -⟩ := send_open ho₁ (payload g₁.readReg)
  have hread : g₁.handleRegReadAll (command 'g' []) = .ok g₂ := hg₂
  constructor
  · rintro ⟨g₁', g₂', hw, hr, hrep⟩ reg
    cases hg₁.symm.trans hw
    cases hread.symm.trans hr
    have hp := hr₂.unique hrep
    have hslice := payload_slice g₁.readReg [] reg
    rw [hp, payload_slice, hdig] at hslice
    rw [← str2int_hexWord_iff]
    exact (hexWord_injective hslice).symm
  · intro h
    have hvals : g₁.readReg = vals := funext fun reg => by
      rw [hdig]
      exact (str2int_hexWord_iff _).2 (h reg)
    rw [hvals] at hr₂
    exact ⟨g₁, g₂, hg₁, hread, hr₂⟩

theorem readsBackOne (ho : g.rsp.isOpen = true) {reg : Fin 35} {val : U32} {ds es : List U8}
    (hd : Spells ds (BitVec.ofNat 32 reg.val)) (he : Spells es val) :
    ReadsBackOne g reg val ds es := by
  obtain ⟨g₁, hg₁, -, ho₁, hcpu⟩ := send_open (g := g.withCpu (written g.cpu reg val)) ho (ascii "OK")
  have hval : g₁.readReg reg = val := by
    rw [readReg_eq, hcpu]
    show regs (written g.cpu reg val) reg = val
    rw [regs_written, Function.update_self]
  obtain ⟨g₂, hg₂, hr₂, -, -⟩ := send_open ho₁ (hexWord val)
  obtain ⟨g₃, hg₃, hr₃, -, -⟩ := send_open ho₁ (payload g₁.readReg)
  refine ⟨g₁, g₂, g₃, payload g₁.readReg, ?_, ?_, hr₂, hg₃, hr₃, ?_⟩
  · rw [handleRegWrite_spells hd he, hg₁]
  · rw [handleRegRead_spells hd, hval, hg₂]
  · have hs := payload_slice g₁.readReg [] reg
    rwa [List.append_nil, hval] at hs

/-- All registers at once come back if and only if their digits read the same backwards; a single
register comes back always. -/
theorem reg_packets_iff (ho : g.rsp.isOpen = true) :
    (KeepsRegs g ↔ ∀ reg, Palindrome (g.readReg reg)) ∧
    (∀ vals, ReadsBack g vals ↔ ∀ reg, Palindrome (vals reg)) ∧
    ∀ (reg : Fin 35) (val : U32) (ds es : List U8), Spells ds (BitVec.ofNat 32 reg.val) →
      Spells es val → ReadsBackOne g reg val ds es :=
  ⟨keepsRegs_iff ho, readsBack_iff ho, fun _ _ _ _ hd he => readsBackOne ho hd he⟩

/-- A stub that has just been connected to a simulator after reset. -/
def connected (words : List (Nat × U32)) : Gdb Memory :=
  .init (.init (Memory.env 0x8000 (Memory.image words)) 0) none
    { isOpen := true, input := [], output := [] }

/-- After reset PPC is 0x100, and comes back as 0x100000. -/
theorem reg_packets_fails : ∃ g : Gdb Memory, g.rsp.isOpen = true ∧ ¬KeepsRegs g := by
  refine ⟨connected [], rfl, fun h => ?_⟩
  have hp := (keepsRegs_iff rfl).1 h 32
  rw [readReg_eq] at hp
  exact absurd hp (by decide)

/-- Palindromes in all registers come back together, and 0x12345678 in r3 alone. -/
theorem reg_packets_back :
    ReadsBack (connected []) (fun reg => if reg = 3 then 0x12344321#32 else 0x8c0000c8#32) ∧
    ReadsBackOne (connected []) 3 0x12345678#32 (hexWord 3#32) (hexWord 0x12345678#32) := by
  have ho : (connected []).rsp.isOpen = true := rfl
  obtain ⟨-, hback, hone⟩ := reg_packets_iff ho
  exact ⟨(hback _).2 (by decide), hone 3 _ _ _ (spells_hexWord _) (spells_hexWord _)⟩

end Gdb

end Or1kiss
