import Or1kiss.Rsp

/-!
# Frames that agree

Both overloads of `send` are to put the same frame on the wire, and `recv` is to return its
payload. The string overload sends a frame. The formatted overload counts the terminating zero
into the text: the zero is sent, and the last store is behind the buffer. `recv` keeps a zero of
its own in the packet.
-/

namespace Or1kiss

open Host

namespace Packet

/-- A payload that stands for itself in a frame and in a format. -/
structure Payload (p : List U8) : Prop where
  plain : ∀ c ∈ p, c ≠ 0#8 ∧ c ≠ chr '$' ∧ c ≠ chr '#' ∧ c ≠ chr '%'
  fits : p.length < rspMaxPacketSize

/-- Both overloads send the frame of a payload, inside their buffers, and it is received as it was
sent. -/
structure Framed (p : List U8) : Prop where
  same : (ofFormat p).bytes = (ofString p).bytes
  framed : (ofString p).bytes = frame p
  formatBounds : (ofFormat p).InBounds
  stringBounds : (ofString p).InBounds
  received : ∀ (r : Rsp) (rest : List U8), r.isOpen = true → r.input = (ofString p).bytes ++ rest →
    r.recv = .ok (p, { r with input := rest, output := r.output ++ [chr '+'] })

theorem sumDigits_read (sum : U8) : ∀ d e, sumDigits sum = [d, e] →
    (char2int d <<< 4) ||| char2int e = sum.setWidth 32 := by
  have hall : ∀ sum : U8, (char2int (int2char ((sum.setWidth 32 >>> 4) &&& 0xf#32)) <<< 4) |||
      char2int (int2char (sum.setWidth 32 &&& 0xf#32)) = sum.setWidth 32 := by
    decide +kernel
  rintro d e h
  cases h
  exact hall sum

theorem checksum_of_plain {p : List U8} (h : ∀ c ∈ p, c ≠ 0#8) :
    checksum p = p.foldl (· + ·) 0#8 := by
  unfold checksum
  rw [cstr_of_forall h]

/-- A frame is acknowledged, and its payload comes with a zero byte. -/
theorem recv_frame {p : List U8} (h : Payload p) {r : Rsp} {rest : List U8} (ho : r.isOpen = true)
    (hi : r.input = frame p ++ rest) :
    r.recv = .ok (p ++ [0#8], { r with input := rest, output := r.output ++ [chr '+'] }) := by
  have hfits := h.fits
  have hsum := sumDigits_read (checksum p) _ _ rfl
  have hplain : ∀ c ∈ p, Rsp.Plain c := fun c hc => ⟨(h.plain c hc).2.1, (h.plain c hc).2.2.1⟩
  unfold Rsp.recv
  rw [if_pos ho, hi]
  unfold frame
  rw [List.append_assoc, List.append_assoc, List.append_assoc, List.singleton_append,
    Rsp.recvLoop_dollar (by decide),
    Rsp.recvLoop_plain hplain (by rw [List.length_nil]; omega), List.singleton_append,
    ← checksum_of_plain fun c hc => (h.plain c hc).1]
  refine (Rsp.recvLoop_hash ho (by rw [List.nil_append]; exact hfits)).trans ?_
  rw [if_pos hsum, List.nil_append]
  rfl

/-- The last store of the formatted overload is behind its buffer. -/
theorem ofFormat_not_inBounds (text : List U8) : ¬(ofFormat text).InBounds := by
  intro h
  have hlast : (text.length + 1 + 4, 0#8) ∈ (ofFormat text).stores := by
    unfold ofFormat
    exact List.mem_append_right _ (List.mem_singleton_self _)
  exact Nat.lt_irrefl _ (h _ hlast)

/-- The formatted overload sends a zero byte behind every text. -/
theorem ofFormat_bytes_ne (p : List U8) : (ofFormat p).bytes ≠ (ofString p).bytes := by
  intro h
  have hl := congrArg List.length h
  rw [ofFormat_bytes, ofString_bytes, length_frame] at hl
  simp only [List.length_append, List.length_singleton, sumDigits_length] at hl
  omega

/-- No payload is framed alike by both overloads, inside the buffer and without a zero byte. -/
theorem not_framed (p : List U8) :
    ¬Framed p ∧ (ofFormat p).bytes ≠ (ofString p).bytes ∧ ¬(ofFormat p).InBounds :=
  ⟨fun h => ofFormat_bytes_ne p h.same, ofFormat_bytes_ne p, ofFormat_not_inBounds p⟩

/-- The answer of most commands. -/
theorem not_framed_ok : Payload (ascii "OK") ∧ ¬Framed (ascii "OK") := by
  have hp : Payload (ascii "OK") := ⟨by decide, by decide⟩
  refine ⟨hp, fun h => ?_⟩
  have hr := h.received { isOpen := true, input := (ofString (ascii "OK")).bytes, output := [] } []
    rfl (List.append_nil _).symm
  rw [recv_frame hp rfl (by rw [ofString_bytes, List.append_nil])] at hr
  cases hr

end Packet

end Or1kiss
