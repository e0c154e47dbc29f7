import Or1kiss.Framing
import Or1kiss.Lib.Runs

/-!
# Retransmission

`recv` answers a packet with a wrong checksum with `-`, and returns it all the same. A client that
sends the command again has it executed twice, the first time as the line garbled it. A stream is
safe where every frame that arrives is right (`recv_checks_iff`).
-/

namespace Or1kiss

open Host Runs

/-! ## Frames in a stream -/

/-- A frame as it arrived. -/
structure Frame where
  payload : List U8
  digits : U8 × U8
  rest : List U8
  deriving DecidableEq, Repr

/-- The sum of a payload modulo 256. -/
def byteSum (p : List U8) : U8 := p.foldl (· + ·) 0#8

namespace Frame

/-- The transmitted checksum is that of the payload. -/
def Right (f : Frame) : Prop :=
  (char2int f.digits.1 <<< 4) ||| char2int f.digits.2 = (byteSum f.payload).setWidth 32

instance (f : Frame) : Decidable f.Right := inferInstanceAs (Decidable (_ = _))

/-- The frame that two digits complete. -/
def complete (packet : List U8) : List U8 → Option Frame
  | d :: e :: rest => some ⟨packet, (d, e), rest⟩
  | _ => none

end Frame

/-- The first frame that a stream completes in the buffer; `packet` is what the buffer holds. -/
def firstFrame (packet : List U8) : List U8 → Option Frame
  | [] => none
  | c :: s =>
    if packet.length < rspMaxPacketSize then
      if c = chr '$' then firstFrame [] s
      else if c = chr '#' then Frame.complete packet s
      else firstFrame (packet ++ [c]) s
    else none

/-- The bytes behind the last `$`. -/
def behindDollar (s : List U8) : List U8 := (s.reverse.takeWhile (· != chr '$')).reverse

/-- The frame at the end of a stretch of the stream. -/
def Closes (s : List U8) (f : Frame) : Prop := ∃ pre,
  s = pre ++ [chr '#', f.digits.1, f.digits.2] ∧ f.payload = behindDollar pre

namespace Rsp

/-- `recv` returns only frames that are right, and answers one that is not with `-`. -/
structure Checks (r : Rsp) : Prop where
  accepted : ∀ packet r' s f, r.recv = .ok (packet, r') → r'.isOpen = true →
    r.input = s ++ r'.input → Closes s f → f.Right
  refused : ∀ packet r' f, r.recv = .ok (packet, r') → firstFrame [] r.input = some f → ¬f.Right →
    ∃ answers, r'.output = r.output ++ chr '-' :: answers

end Rsp

/-! ## The protocol -/

/-- What the client sends for a command. -/
def clientFrame (c : List U8) : List U8 := [chr '$'] ++ c ++ [chr '#'] ++ hexByte (byteSum c)

/-- A command that a frame can carry. -/
structure Command (c : List U8) : Prop where
  plain : ∀ b ∈ c, Rsp.Plain b
  fits : c.length < rspMaxPacketSize

/-- What the line makes of a frame. -/
inductive Delivery where
  | intact
  | garbled (bytes : List U8)
  deriving DecidableEq, Repr

/-- The checksum detects what the line did: one frame arrives, and it is wrong. -/
def Detected (bytes : List U8) : Prop :=
  ∃ f, firstFrame [] bytes = some f ∧ f.rest = [] ∧ ¬f.Right

/-- What the checksum lets pass, or detects. -/
def Delivery.Plausible : Delivery → Prop
  | .intact => True
  | .garbled bytes => Detected bytes

/-- A client with the commands it still has to get through, the stub, and the packets that the
stub has executed. -/
structure Link where
  todo : List (List U8)
  rsp : Rsp
  executed : List (List U8)

namespace Link

def start (cs : List (List U8)) : Link :=
  { todo := cs, rsp := { isOpen := true, input := [], output := [] }, executed := [] }

/-- The bytes that arrive for a command. -/
def arrive (c : List U8) : Delivery → List U8
  | .intact => clientFrame c
  | .garbled bytes => bytes

/-- The client sends the first command it has to get through, the stub executes what `recv`
returns, and the client goes on to the next command on `+`. -/
def deliver (l : Link) (d : Delivery) : Option Link :=
  match l.todo with
  | [] => none
  | c :: cs =>
    match { l.rsp with input := l.rsp.input ++ arrive c d }.recv with
    | .ok (packet, r) =>
      if r.isOpen then
        some { todo := if r.output.getLast? = some (chr '+') then cs else c :: cs
               rsp := r
               executed := l.executed ++ [packet] }
      else none
    | _ => none

/-- The protocol as a system of deliveries. -/
def protocol : System Link Delivery where
  next := deliver

end Link

/-! ## What `recv` takes from a stream -/

theorem behindDollar_of_plain {s : List U8} (h : ∀ c ∈ s, c ≠ chr '$') : behindDollar s = s := by
  have ht : s.reverse.takeWhile (· != chr '$') = s.reverse := by
    have hp : (s.reverse ++ []).takeWhile (· != chr '$') = s.reverse ++ [].takeWhile (· != chr '$') :=
      List.takeWhile_append_of_pos fun c hc => by simpa using h c (List.mem_reverse.1 hc)
    rwa [List.append_nil, List.takeWhile_nil, List.append_nil] at hp
  unfold behindDollar
  rw [ht, List.reverse_reverse]

theorem behindDollar_cons_dollar (s t : List U8) : behindDollar (s ++ chr '$' :: t) = behindDollar t := by
  have hd : (chr '$' :: s.reverse).takeWhile (· != chr '$') = [] := by
    rw [List.takeWhile_cons]
    rfl
  unfold behindDollar
  rw [List.reverse_append, List.reverse_cons, List.append_assoc, List.singleton_append,
    List.takeWhile_append, hd, List.append_nil]
  split
  · rename_i hl
    rw [(List.takeWhile_prefix _).eq_of_length hl]
  · rfl

/-- The first frame ends the bytes in front of its rest. -/
theorem firstFrame_closes {f : Frame} {packet s : List U8} (hp : ∀ c ∈ packet, c ≠ chr '$')
    (h : firstFrame packet s = some f) : ∃ pre,
      s = pre ++ [chr '#', f.digits.1, f.digits.2] ++ f.rest ∧
        f.payload = behindDollar (packet ++ pre) := by
  induction s generalizing packet with
  | nil => cases h
  | cons c s ih =>
    rw [firstFrame] at h
    split at h
    · split at h
      · rename_i hd
        obtain ⟨pre, hs, hf⟩ := ih (fun _ hc => (List.not_mem_nil hc).elim) h
        refine ⟨c :: pre, by rw [hs]; rfl, ?_⟩
        rw [hd, behindDollar_cons_dollar]
        exact hf
      · rename_i hd
        split at h
        · rename_i hh
          unfold Frame.complete at h
          split at h
          · cases h
            exact ⟨[], by rw [hh]; rfl, by rw [List.append_nil, behindDollar_of_plain hp]⟩
          · cases h
        · have hp' : ∀ b ∈ packet ++ [c], b ≠ chr '$' := by
            intro b hb
            rcases List.mem_append.1 hb with hb | hb
            · exact hp b hb
            · rw [List.mem_singleton.1 hb]
              exact hd
          obtain ⟨pre, hs, hf⟩ := ih hp' h
          refine ⟨c :: pre, by rw [hs]; rfl, ?_⟩
          rw [hf, List.append_assoc, List.singleton_append]
    · cases h

namespace Rsp

variable {r : Rsp}

/-- What the loop makes of a first frame that is complete. -/
theorem recvLoop_frame {f : Frame} {s : List U8} (ho : r.isOpen = true) (packet : List U8)
    (h : firstFrame packet s = some f) :
    r.recvLoop (byteSum packet) packet s = .ok (f.payload ++ [0#8], { r with
      input := f.rest
      output := r.output ++ [if f.Right then chr '+' else chr '-'] }) := by
  induction s generalizing packet with
  | nil => cases h
  | cons c s ih =>
    rw [firstFrame] at h
    split at h
    · rename_i hlen
      rw [recvLoop, if_pos hlen]
      split at h
      · rename_i hd
        rw [if_pos hd]
        exact ih [] h
      · rename_i hd
        rw [if_neg hd]
        split at h
        · rename_i hh
          rw [if_pos hh]
          unfold Frame.complete at h
          split at h
          · cases h
            unfold recvChecksum recvChar sendChar
            simp only [ho, if_true, Outcome.ok_bind]
            rfl
          · cases h
        · rename_i hh
          rw [if_neg hh]
          have hsum : byteSum packet + c = byteSum (packet ++ [c]) := by
            unfold byteSum
            rw [List.foldl_append]
            rfl
          rw [hsum]
          exact ih (packet ++ [c]) h
    · cases h

/-- A call that returns from an open connection has read a frame. -/
theorem firstFrame_of_recvLoop {packet p s : List U8} {sum : U8} {r' : Rsp}
    (h : r.recvLoop sum packet s = .ok (p, r')) (ho' : r'.isOpen = true) :
    ∃ f, firstFrame packet s = some f := by
  induction s generalizing packet sum with
  | nil =>
    rw [recvLoop] at h
    split at h
    · cases h
      cases ho'
    · cases h
  | cons c s ih =>
    rw [recvLoop] at h
    rw [firstFrame]
    split at h
    · rename_i hlen
      rw [if_pos hlen]
      split at h
      · rename_i hd
        rw [if_pos hd]
        exact ih h
      · rename_i hd
        rw [if_neg hd]
        split at h
        · rename_i hh
          rw [if_pos hh]
          -- behind fewer than two digits the connection is closed
          rcases s with - | ⟨d, - | ⟨e, rest⟩⟩
          · unfold recvChecksum recvChar at h
            cases ho : r.isOpen <;> simp [ho, close] at h
          · unfold recvChecksum recvChar sendChar at h
            cases ho : r.isOpen <;> simp [ho, close] at h
          · exact ⟨_, rfl⟩
        · rename_i hh
          rw [if_neg hh]
          exact ih h
    · cases h

theorem recv_frame {f : Frame} (ho : r.isOpen = true) (h : firstFrame [] r.input = some f) :
    r.recv = .ok (f.payload ++ [0#8], { r with
      input := f.rest
      output := r.output ++ [if f.Right then chr '+' else chr '-'] }) := by
  unfold recv
  rw [if_pos ho]
  exact recvLoop_frame ho [] h

/-- A call on an open connection is safe if and only if the frame it reads is right. -/
theorem checks_iff (ho : r.isOpen = true) :
    Checks r ↔ ∀ f, firstFrame [] r.input = some f → f.Right := by
  constructor
  · intro h f hf
    obtain ⟨pre, hs, hp⟩ := firstFrame_closes (fun _ hc => (List.not_mem_nil hc).elim) hf
    exact h.accepted _ _ _ f (recv_frame ho hf) ho hs ⟨pre, rfl, hp⟩
  · intro h
    constructor
    · intro packet r' s f hr ho' hs hc
      have hl := hr
      unfold recv at hl
      rw [if_pos ho] at hl
      obtain ⟨g, hg⟩ := firstFrame_of_recvLoop hl ho'
      rw [recv_frame ho hg] at hr
      cases hr
      obtain ⟨pre, hpre, hpay⟩ := firstFrame_closes (fun _ hc => (List.not_mem_nil hc).elim) hg
      -- the stretch that was read is that of the frame
      obtain ⟨pre', rfl, hpay'⟩ := hc
      have hst := List.append_cancel_right (hs.symm.trans hpre)
      obtain ⟨rfl, hd⟩ := List.append_inj' hst rfl
      have hright := h g hg
      unfold Frame.Right at hright ⊢
      simp only [List.cons.injEq, and_true, true_and] at hd
      rw [hd.1, hd.2, hpay']
      rwa [hpay, List.nil_append] at hright
    · intro packet r' f _ hf hn
      exact (hn (h f hf)).elim

end Rsp

/-! ## Sessions -/

theorem byteSum_digits (sum : U8) : ∀ d e, hexByte sum = [d, e] →
    (char2int d <<< 4) ||| char2int e = sum.setWidth 32 := by
  have hall : ∀ sum : U8, (char2int (hexDigit (sum.extractLsb' 4 4)) <<< 4) |||
      char2int (hexDigit (sum.extractLsb' 0 4)) = sum.setWidth 32 := by
    decide +kernel
  rintro d e h
  cases h
  exact hall sum

theorem firstFrame_plain {packet text rest : List U8} (h : ∀ c ∈ text, Rsp.Plain c)
    (hlen : packet.length + text.length < rspMaxPacketSize) :
    firstFrame packet (text ++ chr '#' :: rest) = Frame.complete (packet ++ text) rest := by
  induction text generalizing packet with
  | nil =>
    rw [List.length_nil, Nat.add_zero] at hlen
    rw [List.nil_append, firstFrame, if_pos hlen, if_neg (by decide), if_pos rfl, List.append_nil]
  | cons c cs ih =>
    obtain ⟨hd, hh⟩ := h c List.mem_cons_self
    rw [List.length_cons] at hlen
    rw [List.cons_append, firstFrame, if_pos (by omega), if_neg hd, if_neg hh,
      ih (fun d hd => h d (List.mem_cons_of_mem c hd))
        (by rw [List.length_append, List.length_singleton]; omega),
      List.append_assoc, List.singleton_append]

/-- A frame that arrives as it was sent is right. -/
theorem firstFrame_client {c : List U8} (hc : Command c) : ∃ f,
    firstFrame [] (clientFrame c) = some f ∧ f.payload = c ∧ f.rest = [] ∧ f.Right := by
  have hframe : clientFrame c = chr '$' :: (c ++ chr '#' :: hexByte (byteSum c)) := by
    unfold clientFrame
    simp
  refine ⟨⟨c, (_, _), []⟩, ?_, rfl, rfl, byteSum_digits (byteSum c) _ _ rfl⟩
  rw [hframe, firstFrame, if_pos (by decide), if_pos rfl,
    firstFrame_plain hc.plain (by rw [List.length_nil]; have := hc.fits; omega), List.nil_append]
  rfl

namespace Link

variable {l l' : Link} {d : Delivery}

/-- Between two deliveries nothing is on the line. -/
structure Ready (l : Link) : Prop where
  isOpen : l.rsp.isOpen = true
  input : l.rsp.input = []
  commands : ∀ c ∈ l.todo, Command c

/-- A delivery executes the packet that arrives, and the client goes on if it is right. -/
theorem deliver_frame {c : List U8} {cs : List (List U8)} {f : Frame} (hr : Ready l)
    (ht : l.todo = c :: cs) (hf : firstFrame [] (arrive c d) = some f)
    (hrest : f.rest = []) (h : l.deliver d = some l') :
    l'.rsp.isOpen = true ∧ l'.rsp.input = [] ∧ l'.todo = (if f.Right then cs else c :: cs) ∧
      l'.executed = l.executed ++ [f.payload ++ [0#8]] := by
  have hrecv := Rsp.recv_frame (r := { l.rsp with input := l.rsp.input ++ arrive c d }) (f := f)
    hr.isOpen (by rw [hr.input]; exact hf)
  unfold deliver at h
  rw [ht] at h
  dsimp only at h hrecv
  rw [hrecv] at h
  dsimp only at h
  rw [if_pos hr.isOpen, List.getLast?_concat] at h
  cases h
  refine ⟨hr.isOpen, hrest, ?_, rfl⟩
  dsimp only
  by_cases hright : f.Right
  · rw [if_pos hright, if_pos rfl, if_pos hright]
  · rw [if_neg hright, if_neg (by decide), if_neg hright]

/-- One delivery executes one packet; the command of an intact one is done. -/
theorem deliver_step (hr : Ready l) (hd : d.Plausible) (h : l.deliver d = some l') :
    Ready l' ∧ (∃ p, l'.executed = l.executed ++ [p]) ∧
      match d with
      | .intact => ∃ c, l.todo = c :: l'.todo ∧ l'.executed = l.executed ++ [c ++ [0#8]]
      | .garbled _ => l'.todo = l.todo := by
  cases ht : l.todo with
  | nil =>
    unfold deliver at h
    rw [ht] at h
    cases h
  | cons c cs =>
    have hc : Command c := hr.commands c (by rw [ht]; exact List.mem_cons_self)
    cases d with
    | intact =>
      obtain ⟨f, hf, hp, hrest, hright⟩ := firstFrame_client hc
      obtain ⟨ho, hi, htodo, hx⟩ := deliver_frame (d := .intact) hr ht hf hrest h
      rw [if_pos hright] at htodo
      rw [hp] at hx
      refine ⟨⟨ho, hi, fun b hb => hr.commands b ?_⟩, ⟨_, hx⟩, c, by rw [htodo], hx⟩
      rw [ht, ← htodo]
      exact List.mem_cons_of_mem c hb
    | garbled bytes =>
      obtain ⟨f, hf, hrest, hright⟩ := hd
      obtain ⟨ho, hi, htodo, hx⟩ := deliver_frame (d := .garbled bytes) hr ht hf hrest h
      rw [if_neg hright] at htodo
      refine ⟨⟨ho, hi, fun b hb => hr.commands b ?_⟩, ⟨_, hx⟩, htodo⟩
      rw [ht, ← htodo]
      exact hb

/-- A session executes as many packets as there are deliveries, and gets through as many commands
as are delivered intact. -/
theorem session_counts {ds : List Delivery} (hr : Ready l) (hd : ∀ d ∈ ds, d.Plausible)
    (h : protocol.run ds l = some l') :
    l'.executed.length = l.executed.length + ds.length ∧
      l.todo.length = l'.todo.length + ds.count .intact := by
  induction ds generalizing l with
  | nil =>
    cases h
    exact ⟨rfl, rfl⟩
  | cons d ds ih =>
    obtain ⟨m, hm, h⟩ := Option.bind_eq_some_iff.1 h
    obtain ⟨hready, ⟨p, hp⟩, hdone⟩ := deliver_step hr (hd d List.mem_cons_self) hm
    obtain ⟨hx, ht⟩ := ih hready (fun e he => hd e (List.mem_cons_of_mem d he)) h
    rw [hp, List.length_append, List.length_singleton] at hx
    rw [List.length_cons, List.count_cons]
    refine ⟨by omega, ?_⟩
    cases d with
    | intact =>
      obtain ⟨c, hc, -⟩ := hdone
      rw [hc, List.length_cons, ht]
      simp
      omega
    | garbled bytes =>
      rw [← show m.todo = l.todo from hdone, ht]
      simp

/-- Intact deliveries execute the commands in their order. -/
theorem session_intact {ds : List Delivery} (hr : Ready l) (hd : ∀ d ∈ ds, d = .intact)
    (h : protocol.run ds l = some l') :
    l'.executed ++ l'.todo.map (· ++ [0#8]) = l.executed ++ l.todo.map (· ++ [0#8]) := by
  induction ds generalizing l with
  | nil =>
    cases h
    rfl
  | cons d ds ih =>
    obtain ⟨m, hm, hrun⟩ := Option.bind_eq_some_iff.1 h
    have hde : d = .intact := hd d List.mem_cons_self
    subst hde
    obtain ⟨hready, -, c, hc, hx⟩ := deliver_step (d := .intact) hr trivial hm
    rw [ih hready (fun e he => hd e (List.mem_cons_of_mem _ he)) hrun, hx, hc, List.map_cons,
      List.append_assoc, List.singleton_append]

end Link

/-- A call of `recv` is safe if and only if the frame it reads is right; and a client that gets
all its commands through has each of them executed once if and only if the line garbled none. -/
theorem recv_checks_iff {cs : List (List U8)} {ds : List Delivery} {l : Link}
    (hc : ∀ c ∈ cs, Command c) (hd : ∀ d ∈ ds, d.Plausible)
    (h : Link.protocol.run ds (.start cs) = some l) (hdone : l.todo = []) :
    (∀ r : Rsp, r.isOpen = true →
      (r.Checks ↔ ∀ f, firstFrame [] r.input = some f → f.Right)) ∧
    (l.executed = cs.map (· ++ [0#8]) ↔ ∀ d ∈ ds, d = .intact) := by
  refine ⟨fun r ho => Rsp.checks_iff ho, ?_⟩
  have hr : (Link.start cs).Ready := ⟨rfl, rfl, hc⟩
  constructor
  · intro hx
    obtain ⟨hlen, htodo⟩ := Link.session_counts hr hd h
    have hcount : ds.count .intact = ds.length := by
      rw [hx, List.length_map] at hlen
      rw [hdone] at htodo
      change cs.length = 0 + ds.length at hlen
      change cs.length = 0 + ds.count .intact at htodo
      omega
    intro d hmem
    exact (List.count_eq_length.1 hcount d hmem).symm
  · intro hall
    have hx := Link.session_intact hr hall h
    rwa [hdone, List.map_nil, List.append_nil] at hx

/-- `c` arrives as `s`, which is executed and refused, and then `c` itself. -/
theorem recv_checks_fails : (∃ r : Rsp, r.isOpen = true ∧ ¬r.Checks) ∧
    ∃ cs ds l, (∀ c ∈ cs, Command c) ∧ (∀ d ∈ ds, d.Plausible) ∧
      Link.protocol.run ds (.start cs) = some l ∧ l.todo = [] ∧ l.executed ≠ cs.map (· ++ [0#8]) := by
  have hf : firstFrame [] (ascii "$s#63") = some ⟨ascii "s", (chr '6', chr '3'), []⟩ := by decide
  have hwrong : ¬(⟨ascii "s", (chr '6', chr '3'), []⟩ : Frame).Right := by decide
  refine ⟨⟨{ isOpen := true, input := ascii "$s#63", output := [] }, rfl, fun h => ?_⟩, ?_⟩
  · exact hwrong ((Rsp.checks_iff rfl).1 h _ hf)
  · refine ⟨[ascii "c"], [.garbled (ascii "$s#63"), .intact], _, ?_, ?_, rfl, rfl, by decide⟩
    · intro c hc
      rw [List.mem_singleton.1 hc]
      exact ⟨by unfold Rsp.Plain; decide, by decide⟩
    · intro d hd
      rcases List.mem_cons.1 hd with rfl | hd
      · exact ⟨_, hf, rfl, hwrong⟩
      · rw [List.mem_singleton.1 hd]
        trivial

/-- A register, some memory, and on. -/
def session : List (List U8) := [ascii "P3=1", ascii "m100,4", ascii "c"]

/-- Intact, the session executes its commands once each; with `c` garbled on the way it does not. -/
theorem recv_checks_session :
    (∃ l, Link.protocol.run [.intact, .intact, .intact] (.start session) = some l ∧
      l.executed = session.map (· ++ [0#8])) ∧
    ∃ l, Link.protocol.run [.intact, .intact, .garbled (ascii "$s#63"), .intact] (.start session) =
      some l ∧ l.executed ≠ session.map (· ++ [0#8]) := by
  have hc : ∀ c ∈ session, Command c := by
    have hall : ∀ c ∈ session, (∀ b ∈ c, b ≠ chr '$' ∧ b ≠ chr '#') ∧
        c.length < rspMaxPacketSize := by
      decide
    exact fun c hc => ⟨(hall c hc).1, (hall c hc).2⟩
  have hgarbled : Detected (ascii "$s#63") :=
    ⟨⟨ascii "s", (chr '6', chr '3'), []⟩, by decide, rfl, by decide⟩
  constructor
  · have hd : ∀ d ∈ [Delivery.intact, .intact, .intact], d.Plausible := by
      simp [Delivery.Plausible]
    exact ⟨_, rfl, (recv_checks_iff hc hd rfl rfl).2.2 (by decide)⟩
  · have hd : ∀ d ∈ [Delivery.intact, .intact, .garbled (ascii "$s#63"), .intact],
        d.Plausible := by
      simpa [Delivery.Plausible] using hgarbled
    exact ⟨_, rfl, fun hx => absurd ((recv_checks_iff hc hd rfl rfl).2.1 hx) (by decide)⟩

end Or1kiss
