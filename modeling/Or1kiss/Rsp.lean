import Mathlib.Data.List.Induction
import Or1kiss.Text

/-!
# The remote serial protocol

`rsp.h` and `rsp.cpp`. A connection is the bytes the client has sent and that are still to be
received, behind which it is closed, and the bytes sent to it. A `send` builds its packet in a
buffer of its own; the stores of the function are kept, also those outside the buffer.
-/

namespace Or1kiss

open Host

/-- `OR1KISS_RSP_MAX_PACKET_SIZE` -/
abbrev rspMaxPacketSize : Nat := 0x4000

structure Rsp where
  isOpen : Bool
  input : List U8
  output : List U8
  deriving DecidableEq, Repr

namespace Rsp

def close (r : Rsp) : Rsp := { r with isOpen := false }

/-- A descriptor of -1 makes `recv` and `send` fail. -/
def recvChar (r : Rsp) : Outcome Rsp (U8 × Rsp) :=
  if r.isOpen then
    match r.input with
    | [] => .ok (0#8, r.close)
    | c :: input => .ok (c, { r with input := input })
  else .throw r

def sendChar (r : Rsp) (c : U8) : Outcome Rsp Rsp :=
  if r.isOpen then .ok { r with output := r.output ++ [c] } else .throw r

/-- The branch for `#`: both digits, the acknowledgement, and the packet with its zero byte. -/
def recvChecksum (r : Rsp) (sum : U8) (packet : List U8) : Outcome Rsp (List U8 × Rsp) := do
  let (c, r) ← r.recvChar
  let (d, r) ← r.recvChar
  let check := (char2int c <<< 4) ||| char2int d
  let r ← r.sendChar (if check = sum.setWidth 32 then chr '+' else chr '-')
  .ok (packet ++ [0#8], r)

/-- The loop of `recv`, over the bytes to be received: `sum` and `packet` of the bytes since the
last `$`. -/
def recvLoop (r : Rsp) (sum : U8) (packet : List U8) : List U8 → Outcome Rsp (List U8 × Rsp)
  | [] =>
    if packet.length < rspMaxPacketSize then .ok ([], { r with input := [] }.close)
    else .throw { r with input := [] }
  | c :: input =>
    if packet.length < rspMaxPacketSize then
      if c = chr '$' then recvLoop r 0#8 [] input
      else if c = chr '#' then recvChecksum { r with input := input } sum packet
      else recvLoop r (sum + c) (packet ++ [c]) input
    else .throw { r with input := c :: input }

def recv (r : Rsp) : Outcome Rsp (List U8 × Rsp) :=
  if r.isOpen then r.recvLoop 0#8 [] r.input else .throw r

end Rsp

/-! ## Packets -/

/-- A packet in the making: the size of the buffer, the stores in their order, and the number of
bytes handed to the socket. -/
structure Packet where
  size : Nat
  stores : List (Nat × U8)
  count : Nat
  deriving DecidableEq, Repr

namespace Packet

/-- What the buffer holds at an index, by the last store to it. -/
def byte (p : Packet) (i : Nat) : U8 :=
  match p.stores.reverse.find? fun st => st.1 == i with
  | some st => st.2
  | none => 0#8

/-- The bytes handed to the socket. -/
def bytes (p : Packet) : List U8 := (List.range p.count).map p.byte

/-- Every index written is inside the buffer. -/
def InBounds (p : Packet) : Prop := ∀ st ∈ p.stores, st.1 < p.size

/-- Text copied to the buffer from an index on. -/
def copy (start : Nat) (text : List U8) : List (Nat × U8) :=
  text.zipIdx.map fun ci => (start + ci.2, ci.1)

/-- Both digits of the checksum. -/
def sumDigits (sum : U8) : List U8 :=
  [int2char ((sum.setWidth 32 >>> 4) &&& 0xf#32), int2char (sum.setWidth 32 &&& 0xf#32)]

/-- `send(const string&)` -/
def ofString (s : List U8) : Packet :=
  let len := s.length + 1
  { size := s.length + 5
    stores := [(0, chr '$')] ++ copy 1 s ++ [(len, chr '#')] ++
      copy (len + 1) (sumDigits (checksum s)) ++ [(len + 3, 0#8)]
    count := len + 3 }

/-- `send(const char*, ...)` for a format that expands to `text`: `len` counts the terminating
zero of `vsnprintf`, which is stored and stays. -/
def ofFormat (text : List U8) : Packet :=
  let len := text.length + 1
  { size := len + 4
    stores := [(0, chr '$')] ++ copy 1 (text ++ [0#8]) ++ [(len + 1, chr '#')] ++
      copy (len + 2) (sumDigits (checksum text)) ++ [(len + 4, 0#8)]
    count := len + 4 }

end Packet

namespace Rsp

def send (r : Rsp) (p : Packet) : Outcome Rsp Rsp :=
  if r.isOpen then .ok { r with output := r.output ++ p.bytes } else .throw r

def sendString (r : Rsp) (s : List U8) : Outcome Rsp Rsp := r.send (.ofString s)

def sendFormat (r : Rsp) (text : List U8) : Outcome Rsp Rsp := r.send (.ofFormat text)

end Rsp

/-! ## What the buffers hold -/

namespace Packet

variable {a b text : List U8} {start : Nat}

theorem copy_append (start : Nat) (a b : List U8) :
    copy start (a ++ b) = copy start a ++ copy (start + a.length) b := by
  unfold copy
  rw [List.zipIdx_append, List.map_append]
  congr 1
  rw [List.zipIdx_eq_map_add, List.map_map]
  apply List.map_congr_left
  intro ci _
  simp [Nat.add_assoc]

theorem copy_singleton (start : Nat) (c : U8) : copy start [c] = [(start, c)] := rfl

theorem lt_of_mem_copy {st : Nat × U8} (h : st ∈ copy start a) : st.1 < start + a.length := by
  obtain ⟨ci, hci, rfl⟩ := List.mem_map.1 h
  have := (List.mem_zipIdx hci).2.1
  dsimp only
  omega

/-- A text stored from the start of the buffer is read back. -/
theorem find?_copy {i : Nat} (hi : i < a.length) :
    (copy 0 a).reverse.find? (fun st => st.1 == i) = some (i, a[i]) := by
  induction a using List.reverseRecOn with
  | nil => exact absurd hi (Nat.not_lt_zero i)
  | append_singleton a c ih =>
    rw [copy_append, copy_singleton, List.reverse_append, List.reverse_singleton,
      List.singleton_append, Nat.zero_add]
    by_cases h : i = a.length
    · subst h
      rw [List.find?_cons_of_pos (by simp), List.getElem_append_right (Nat.le_refl _)]
      simp
    · have hlt : i < a.length := by
        rw [List.length_append, List.length_singleton] at hi
        omega
      rw [List.find?_cons_of_neg (by simpa using fun he => h he.symm), ih hlt,
        List.getElem_append_left hlt]

theorem bytes_of_copy {p : Packet} (hs : p.stores = copy 0 a) (hc : p.count ≤ a.length) :
    p.bytes = a.take p.count := by
  unfold bytes
  apply List.ext_getElem
  · simp [hc]
  · intro i hi _
    rw [List.length_map, List.length_range] at hi
    rw [List.getElem_map, List.getElem_range, List.getElem_take]
    unfold byte
    rw [hs, find?_copy (by omega)]

theorem sumDigits_length (sum : U8) : (sumDigits sum).length = 2 := rfl

/-- The frame of a payload. -/
def frame (text : List U8) : List U8 :=
  [chr '$'] ++ text ++ [chr '#'] ++ sumDigits (checksum text)

theorem length_frame (text : List U8) : (frame text).length = text.length + 4 := by
  unfold frame
  simp only [List.length_append, List.length_singleton, sumDigits_length]
  omega

/-- The string overload stores a frame and a zero byte behind it. -/
theorem ofString_stores (s : List U8) : (ofString s).stores = copy 0 (frame s ++ [0#8]) := by
  unfold ofString frame
  simp only [copy_append, copy_singleton, List.length_append, List.length_singleton,
    sumDigits_length]
  have h1 : 0 + 1 = 1 := rfl
  have h2 : 0 + (1 + s.length) = s.length + 1 := by omega
  have h3 : 0 + (1 + s.length + 1) = s.length + 1 + 1 := by omega
  have h4 : 0 + (1 + s.length + 1 + 2) = s.length + 1 + 3 := by omega
  rw [h1, h2, h3, h4]

/-- The formatted overload has a zero byte behind the text as well. -/
theorem ofFormat_stores (text : List U8) : (ofFormat text).stores =
    copy 0 ([chr '$'] ++ (text ++ [0#8]) ++ [chr '#'] ++ sumDigits (checksum text) ++ [0#8]) := by
  unfold ofFormat
  simp only [copy_append, copy_singleton, List.length_append, List.length_singleton,
    sumDigits_length]
  have h1 : 0 + 1 = 1 := rfl
  have h2 : 0 + (1 + (text.length + 1)) = text.length + 1 + 1 := by omega
  have h3 : 0 + (1 + (text.length + 1) + 1) = text.length + 1 + 2 := by omega
  have h4 : 0 + (1 + (text.length + 1) + 1 + 2) = text.length + 1 + 4 := by omega
  rw [h1, h2, h3, h4]

theorem ofString_bytes (s : List U8) : (ofString s).bytes = frame s := by
  have hc : (ofString s).count = (frame s).length := (length_frame s).symm
  rw [bytes_of_copy (ofString_stores s) (by simp [hc]), hc, List.take_left]

theorem ofFormat_bytes (text : List U8) : (ofFormat text).bytes =
    [chr '$'] ++ (text ++ [0#8]) ++ [chr '#'] ++ sumDigits (checksum text) := by
  have hc : (ofFormat text).count =
      ([chr '$'] ++ (text ++ [0#8]) ++ [chr '#'] ++ sumDigits (checksum text)).length := by
    simp only [List.length_append, List.length_singleton, sumDigits_length]
    show text.length + 1 + 4 = _
    omega
  rw [bytes_of_copy (ofFormat_stores text) (by simp [hc]), hc, List.take_left]

theorem ofString_inBounds (s : List U8) : (ofString s).InBounds := by
  intro st hst
  rw [ofString_stores] at hst
  have hlt := lt_of_mem_copy hst
  rw [List.length_append, length_frame, List.length_singleton] at hlt
  show st.1 < s.length + 5
  omega

end Packet

/-! ## Receiving a frame -/

namespace Rsp

variable {r : Rsp} {text rest packet : List U8} {sum : U8}

/-- A character that the loop appends to the packet. -/
def Plain (c : U8) : Prop := c ≠ chr '$' ∧ c ≠ chr '#'

/-- The loop collects plain characters. -/
theorem recvLoop_plain (h : ∀ c ∈ text, Plain c)
    (hlen : packet.length + text.length ≤ rspMaxPacketSize) :
    r.recvLoop sum packet (text ++ rest) =
      r.recvLoop (text.foldl (· + ·) sum) (packet ++ text) rest := by
  induction text generalizing sum packet with
  | nil => rw [List.nil_append, List.append_nil, List.foldl_nil]
  | cons c cs ih =>
    obtain ⟨hd, hh⟩ := h c List.mem_cons_self
    rw [List.length_cons] at hlen
    rw [List.cons_append, recvLoop, if_pos (by omega), if_neg hd, if_neg hh,
      ih (fun d hd => h d (List.mem_cons_of_mem c hd))
        (by rw [List.length_append, List.length_singleton]; omega),
      List.append_assoc, List.singleton_append, List.foldl_cons]

theorem recvLoop_dollar (hlen : packet.length < rspMaxPacketSize) :
    r.recvLoop sum packet (chr '$' :: rest) = r.recvLoop 0#8 [] rest := by
  rw [recvLoop, if_pos hlen, if_pos rfl]

/-- Behind `#` come two digits; the packet is returned whatever they say. -/
theorem recvLoop_hash {d e : U8} (ho : r.isOpen = true) (hlen : packet.length < rspMaxPacketSize) :
    r.recvLoop sum packet (chr '#' :: d :: e :: rest) =
      .ok (packet ++ [0#8], { r with
        input := rest
        output := r.output ++ [if (char2int d <<< 4) ||| char2int e = sum.setWidth 32 then chr '+'
          else chr '-'] }) := by
  rw [recvLoop, if_pos hlen, if_neg (by decide), if_pos rfl]
  unfold recvChecksum recvChar sendChar
  simp only [ho, if_true, Outcome.ok_bind]

end Rsp

end Or1kiss
