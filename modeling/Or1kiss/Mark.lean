import Or1kiss.Resume
import Or1kiss.Vector

/-!
# The mark of a delay slot

The entry of an exception sets DSX in a delay slot, for the handler to know that EPCR is the
jump before it. One comparison of the counters serves every exception: it holds for the
instruction in the delay slot and fails between the jump and its delay slot, where EPCR is the
jump all the same; it holds again behind the delay slot, and behind another exception of the
instruction. DSX is never cleared. `Marked` is what the mark should say, `MarksRightly` when
it does.
-/

namespace Or1kiss

open Host Bits Runs DelaySlot

variable {σ : Type}

/-- EPCR is the instruction that raised the exception, or the jump before its delay slot. -/
def ExType.restarts : ExType → Bool
  | .syscall | .fp | .tickTimer | .external => false
  | _ => true

namespace Core

variable {c b x : Core σ} {t : ExType} {g : Option U32}

theorem exceptionPc_of_restarts (h : t.restarts = true) :
    c.exceptionPc t = if c.isDelayInsn then c.prevPc else c.nextPc := by
  cases t <;> first | rfl | cases h

theorem exceptionPc_of_async (h : t.isAsync = true) :
    c.exceptionPc t = if c.isJumpInsn then c.prevPc else c.nextPc := by
  cases t <;> first | rfl | cases h

theorem exceptionPc_of_past (h : t.restarts = false) (ha : t.isAsync = false) :
    c.exceptionPc t = if c.isJumpInsn then c.jumpTarget else c.nextPc + 4#32 := by
  cases t <;> first | rfl | (cases h; done) | cases ha

theorem isJumpInsn_of_isDelayInsn (h : c.isDelayInsn = true) : c.isJumpInsn = false := by
  unfold isDelayInsn at h
  unfold isJumpInsn
  rw [beq_iff_eq] at h
  rw [beq_eq_false_iff_ne]
  omega

theorem test_exceptionStatus :
    test c.exceptionStatus SR.DSX = (test c.status SR.DSX || c.isDelayInsn) := by
  have hcover : ∀ v : U32, (v &&& ~~~SR.IEE &&& ~~~SR.TEE &&& ~~~SR.IME &&& ~~~SR.DME) &&& SR.DSX =
      v &&& SR.DSX := fun v => by
    simp only [BitVec.and_assoc]
    congr 1
  have htest : test c.exceptionStatus SR.DSX = test (if c.isDelayInsn then
      c.status ||| SR.SM ||| SR.DSX else c.status ||| SR.SM) SR.DSX :=
    test_congr (k := SR.DSX) (by decide) (hcover _)
  rw [htest]
  cases c.isDelayInsn with
  | true =>
    rw [if_pos rfl, test_or_self (by decide), Bool.or_true]
  | false =>
    rw [if_neg Bool.false_ne_true, test_or, show test SR.SM SR.DSX = false by decide]

/-! ## What an entry saves -/

/-- EPCR and DSX as the exception `t` leaves them, entered from `c`. -/
structure Saved (t : ExType) (c x : Core σ) : Prop where
  expc : x.expc = c.exceptionPc t
  mark : test x.status SR.DSX = (test c.status SR.DSX || c.isDelayInsn)
  mode : HandlerMode x.status

theorem saved_entered (t : ExType) (addr : U32) (c : Core σ) : Saved t c (c.entered t addr) := by
  have hs : (c.entered t addr).expc = c.exceptionPc t ∧
      (c.entered t addr).status = c.exceptionStatus := by
    unfold entered
    dsimp only
    split <;> exact ⟨rfl, rfl⟩
  exact ⟨hs.1, by rw [hs.2, test_exceptionStatus], hs.2 ▸ exceptionStatus_mode c⟩

theorem Calm.mark (h : Calm c x) : test x.status SR.DSX = test c.status SR.DSX :=
  test_congr (by decide) h.status

theorem Saved.calm (h : Saved t c b) (hc : Calm b x) : Saved t c x :=
  ⟨hc.expc.trans h.expc, hc.mark.trans h.mark, hc.mode h.mode⟩

/-- What `Saved` reads of the state before. -/
theorem Saved.congr (h : Saved t b x) (hi : b.instructions = c.instructions)
    (hj : b.jumpInsn = c.jumpInsn) (ht : b.jumpTarget = c.jumpTarget) (hp : b.prevPc = c.prevPc)
    (hn : b.nextPc = c.nextPc) (hs : test b.status SR.DSX = test c.status SR.DSX) :
    Saved t c x := by
  refine ⟨h.expc.trans (exceptionPc_congr hi hj ht hp hn t), ?_, h.mode⟩
  rw [h.mark, hs, isDelayInsn, isDelayInsn, hi, hj]

section Effects

variable [EnvImpl σ] {m : Bool} {ts : List ExType}

/-- The last exception of a sequence of effects. -/
theorem Effects.saved (h : Effects m c ts x) : ts = [] ∨ ∃ us t b,
    ts = us ++ [t] ∧ t.isAsync = false ∧ Effects m c us b ∧ Saved t b x := by
  induction h with
  | refl => exact .inl rfl
  | @tail ts us b x h h' ih =>
    cases us with
    | nil =>
      have hc := h'.calm
      rw [List.append_nil]
      rcases ih with ih | ⟨us, t, d, hts, ht, hd, hs⟩
      · exact .inl ih
      · exact .inr ⟨us, t, d, hts, ht, hd, hs.calm hc⟩
    | cons u us =>
      cases h' with
      | raise t addr aesr ht he =>
        have hs := saved_entered u addr { b with aesr := aesr }
        exact .inr ⟨ts, u, b, rfl, ht, h, hs.congr rfl rfl rfl rfl rfl rfl⟩

/-- What the last of several exceptions of one instruction saves. -/
structure SavedAgain (t : ExType) (c x : Core σ) : Prop where
  expc : x.expc = if t.restarts then c.prevPc else c.nextPc + 4#32
  mark : test x.status SR.DSX = true
  mode : HandlerMode x.status

omit [EnvImpl σ] in
/-- Behind an exception its vector is due, and the next one takes the instruction for that of a
delay slot. -/
theorem Handling.saved (h : Handling b) (hk : Kept c b) (ht : t.isAsync = false)
    (hs : Saved t b x) : SavedAgain t c x := by
  have hd : b.isDelayInsn = true := by
    unfold isDelayInsn
    rw [beq_iff_eq, h.due]
  constructor
  · rw [hs.expc]
    cases hr : t.restarts with
    | true => rw [exceptionPc_of_restarts hr, if_pos hd, if_pos rfl, hk.prevPc]
    | false =>
      rw [exceptionPc_of_past hr ht, isJumpInsn_of_isDelayInsn hd, if_neg Bool.false_ne_true,
        if_neg Bool.false_ne_true, hk.nextPc]
  · rw [hs.mark, hd, Bool.or_true]
  · exact hs.mode

/-- What an instruction that raises exceptions saves. -/
theorem Raised.saved {twice : Bool} (h : Raised m c x twice) (hn : x.taken ≠ c.taken) :
    ∃ t ts, x.taken = t :: ts ∧ t.isAsync = false ∧
      if twice then SavedAgain t c x else Saved t c x := by
  obtain ⟨ts, he, -, htwice⟩ := h
  have htaken := he.taken
  rcases he.saved with rfl | ⟨us, t, b, rfl, ht, hb, hs⟩
  · exact (hn htaken).elim
  · rw [List.reverse_append, List.reverse_singleton, List.singleton_append, List.cons_append]
      at htaken
    refine ⟨t, us.reverse ++ c.taken, htaken, ht, ?_⟩
    rw [List.length_append, List.length_singleton] at htwice
    cases us with
    | nil =>
      have hf : twice = false := by
        rw [Bool.eq_false_iff, ne_eq, htwice, List.length_nil]
        omega
      have hc := hb.calm rfl
      have hk := hb.kept
      rw [hf, if_neg Bool.false_ne_true]
      exact hs.congr hk.instructions hc.jumpInsn hc.jumpTarget hk.prevPc hk.nextPc hc.mark
    | cons u us =>
      have htrue : twice = true := by
        rw [htwice, List.length_cons]
        omega
      rw [if_pos htrue]
      rcases hb.outcomes.control with hc | ⟨-, hh⟩
      · have := hb.taken
        rw [hc.taken] at this
        have hnil := List.reverse_eq_nil_iff.1 (List.self_eq_append_left.1 this)
        cases hnil
      · exact hh.saved hb.kept ht hs

end Effects

end Core

namespace Or1k

variable {s f x b : Or1k σ} {ci : Instruction}

/-! ## Interrupts -/

/-- The last exception between `s` and `x` is `t`, entered from `c`. -/
structure Enters (t : ExType) (c : Core σ) (s x : Or1k σ) : Prop extends
    Core.Saved t c x.toCore where
  taken : ∃ ts, x.taken = t :: ts
  entered : x.taken ≠ s.taken

/-- Interrupts on the way from `s` to `x` are entered from `s`. -/
def Interrupts (s x : Or1k σ) : Prop :=
  x.taken = s.taken ∨ ∃ e, e.isAsync = true ∧ Enters e s.toCore s x

theorem Interrupts.congr (h : Interrupts b x) (ht : b.taken = s.taken) (hs : b.status = s.status)
    (hi : b.instructions = s.instructions) (hj : b.jumpInsn = s.jumpInsn)
    (hg : b.jumpTarget = s.jumpTarget) (hp : b.prevPc = s.prevPc) (hn : b.nextPc = s.nextPc) :
    Interrupts s x := by
  rcases h with h | ⟨e, he, hx⟩
  · exact .inl (h.trans ht)
  · exact .inr ⟨e, he, hx.toSaved.congr hi hj hg hp hn (by rw [hs]), hx.taken, ht ▸ hx.entered⟩

theorem Ignored.interrupts (h : Ignored s b) (hs : Steady s b) (hx : Interrupts b x) :
    Interrupts s x :=
  hx.congr h.taken h.status hs.instructions h.jumpInsn h.jumpTarget hs.prevPc h.nextPc

theorem interrupted_interrupts {e : ExType} (he : e.isAsync = true) :
    Interrupts s (s.interrupted e) := by
  unfold interrupted
  split
  · exact .inl rfl
  · refine .inr ⟨e, he, Core.saved_entered e 0#32 s.toCore, ⟨s.taken, ?_⟩, fun ht => ?_⟩
    · exact Core.entered_taken e 0#32
    · have htaken : (s.toCore.entered e 0#32).taken = s.taken := ht
      rw [Core.entered_taken] at htaken
      exact List.cons_ne_self _ _ htaken

theorem externalChecked_interrupts : Interrupts s s.externalChecked := by
  unfold externalChecked
  split
  · exact interrupted_interrupts rfl
  · exact .inl rfl

theorem timerUpdated_interrupts : Interrupts s s.timerUpdated := by
  have hx : Interrupts s s.tickChecked := by
    unfold tickChecked
    split
    · split
      · exact (interrupted_interrupts (s := s.syncTick) rfl).congr rfl rfl rfl rfl rfl rfl rfl
      · exact .inl rfl
    · exact .inl rfl
  rcases hx with h | ⟨e, he, h⟩
  · exact .inl h
  · exact .inr ⟨e, he, ⟨h.expc, h.mark, h.mode⟩, h.taken, h.entered⟩

theorem endMini_interrupts : Interrupts s s.timerUpdated.externalChecked := by
  rcases timerUpdated_cases (s := s) with hi | ha
  · exact hi.interrupts timerUpdated_steady externalChecked_interrupts
  · have hm := masked_of_handlerMode ha.mode (e := .external) rfl
    rcases externalChecked_cases (s := s.timerUpdated) with he | he
    · rw [he]
      exact timerUpdated_interrupts
    · rw [he.enabled] at hm
      cases hm

variable [EnvImpl σ]

theorem dozed_interrupts : Interrupts s s.dozed := by
  unfold dozed
  split
  · exact .inl rfl
  · dsimp only
    split
    · exact .inl rfl
    · exact (timerUpdated_interrupts (s := s.skipped)).congr rfl rfl rfl rfl rfl rfl rfl

theorem began_interrupts {n : U32} : Interrupts s (Machine.began n s) := by
  rcases externalChecked_cases (s := { s with limit := s.cycles + n.toNat }) with he | ha
  · unfold Machine.began
    rw [he]
    exact dozed_interrupts.congr rfl rfl rfl rfl rfl rfl rfl
  · unfold Machine.began
    rw [dozed_awake ha.awake]
    exact externalChecked_interrupts.congr rfl rfl rfl rfl rfl rfl rfl

theorem sprWritten_interrupts (reg val : U32) (debug : Bool) :
    Interrupts s (s.sprWritten reg val debug) := by
  obtain ⟨-, hd⟩ | hw := sprWritten_cases (s := s) reg val debug
  · rw [hd]
    exact dozed_interrupts.congr rfl rfl rfl rfl rfl rfl rfl
  · exact .inl hw.taken

/-! ## Instructions -/

variable [HostLib]

/-- Where in an instruction its last exception is entered. -/
inductive Place where
  /-- Nothing of it is behind. -/
  | first
  /-- Another exception is. -/
  | again
  /-- The jump to a misaligned target is. -/
  | jump
  /-- The jump of `l.rfe` is, and the status is restored afterwards. -/
  | rfe
  deriving DecidableEq

/-- Where the instruction `ci` enters its last exception. -/
def placeOf (f : Or1k σ) (ci : Instruction) : Place :=
  match ci.exec with
  | some .rfe => .rfe
  | some (.core e) =>
    if e.isJump then .jump
    else if f.toCore.raisesTwice ci then .again
    else .first
  | _ => .first

/-- Where the iteration from here enters its last exception: `fetch` enters one at most. -/
def place (s : Or1k σ) : Place :=
  match s.fetch with
  | .ok (some ci, f) => f.placeOf ci
  | _ => .first

/-- What the last exception of an iteration saves, by where it is entered from `c`. -/
def SavedAt (t : ExType) (c x : Core σ) : Place → Prop
  | .first => c.Saved t x
  | .again => c.SavedAgain t x
  | .jump => t = .insnAlignment ∧ x.expc = c.nextPc ∧
      test x.status SR.DSX = test c.status SR.DSX
  | .rfe => t = .insnAlignment ∧ x.expc = c.prevPc ∧
      test x.status SR.DSX = test c.status SR.DSX

omit [EnvImpl σ] in
theorem plain_savedAt {e : Exec} {c : Core σ} {t : ExType} (he : ci.exec = some e)
    (hp : e.isPlain = true) (h : if f.toCore.raisesTwice ci then Core.SavedAgain t f.toCore c
      else Core.Saved t f.toCore c) : SavedAt t f.toCore c (f.placeOf ci) := by
  have hother : (∀ e, ci.exec ≠ some (.core e)) → f.toCore.raisesTwice ci = false := by
    intro hn
    unfold Core.raisesTwice
    split
    · rename_i e he
      exact (hn e he).elim
    · rfl
  unfold placeOf
  cases e with
  | core e =>
    have hj : e.isJump = false := by simpa [Exec.isPlain] using hp
    rw [he]
    dsimp only
    rw [hj, if_neg Bool.false_ne_true]
    split <;> rename_i ht
    · rwa [if_pos ht] at h
    · rwa [if_neg ht] at h
  | mem e =>
    rw [hother (by simp [he]), if_neg Bool.false_ne_true] at h
    rw [he]
    exact h
  | mfspr =>
    rw [hother (by simp [he]), if_neg Bool.false_ne_true] at h
    rw [he]
    exact h
  | mtspr | nop | rfe => cases hp

/-- One case for each kind of instruction. -/
theorem executed_savedAt (h : Executed ci f x) (hn : x.taken ≠ f.taken) :
    ∃ t, (∃ ts, x.taken = t :: ts) ∧ SavedAt t f.toCore x.toCore (f.placeOf ci) := by
  cases h with
  | plain c limit e he hp hr =>
    obtain ⟨t, ts, htaken, -, hs⟩ := hr.saved hn
    exact ⟨t, ⟨ts, htaken⟩, plain_savedAt he hp hs⟩
  | untaken => exact (hn rfl).elim
  | taken e target r c he hj ht hs hr =>
    have hplace : f.placeOf ci = .jump := by
      unfold placeOf
      rw [he]
      exact if_pos hj
    obtain ⟨-, rfl⟩ | ⟨-, -, rfl⟩ := Core.scheduleJump_cases hs
    · exact (hn rfl).elim
    · have hsaved := Core.saved_entered .insnAlignment target
        (({ f.toCore with toRegs := r } : Core σ).setJump target (f.instructions + Core.branchDelay))
      have hd : (({ f.toCore with toRegs := r } : Core σ).setJump target
          (f.instructions + Core.branchDelay)).isDelayInsn = false := by
        rw [Core.branchDelay_eq]
        exact beq_eq_false_iff_ne.2 (Nat.ne_of_lt (Nat.lt_succ_self _))
      refine ⟨.insnAlignment, ⟨f.taken, Core.entered_taken _ _⟩, ?_⟩
      rw [hplace]
      refine ⟨rfl, ?_, ?_⟩
      · refine hsaved.expc.trans ?_
        rw [Core.exceptionPc_of_restarts rfl, hd, if_neg Bool.false_ne_true]
        rfl
      · refine hsaved.mark.trans ?_
        rw [hd, Bool.or_false]
        rfl
  | mtspr a b he ha hb =>
    have hplace : f.placeOf ci = .first := by
      unfold placeOf
      rw [he]
    rcases sprWritten_interrupts (s := f) (a ||| ci.imm) b false with ht | ⟨e, -, hx⟩
    · exact (hn ht).elim
    · rw [hplace]
      exact ⟨e, hx.taken, hx.toSaved⟩
  | nop x he h =>
    obtain ⟨rfl, -⟩ | ⟨rfl, -⟩ | ⟨c, rfl, hb, -⟩ := nop_ok h
    · exact (hn rfl).elim
    · exact (hn rfl).elim
    · exact (hn hb.calm.taken).elim
  | rfe x he h =>
    have hplace : f.placeOf ci = .rfe := by
      unfold placeOf
      rw [he]
    obtain ⟨c, hc, rfl⟩ := rfe_ok h
    obtain ⟨-, rfl⟩ | ⟨-, -, hc⟩ := Core.scheduleJump_cases hc
    · refine (hn ?_).elim
      unfold rfeRestored
      split <;> rfl
    · have hsaved := Core.saved_entered .insnAlignment f.rfeTarget
        (f.setJump f.rfeTarget (f.instructions + 0))
      have hd : (f.setJump f.rfeTarget (f.instructions + 0)).isDelayInsn = true :=
        beq_self_eq_true f.instructions
      rw [hplace, rfe_restored hc]
      refine ⟨.insnAlignment, ⟨f.taken, ?_⟩, rfl, ?_, rfl⟩
      · rw [hc]
        exact Core.entered_taken _ _
      · rw [hc]
        refine hsaved.expc.trans ?_
        rw [Core.exceptionPc_of_restarts rfl, if_pos hd]
        rfl

/-- What an iteration that enters exceptions saves. -/
theorem fetchExecute_savedAt (h : s.fetchExecute = .ok x) (hn : x.taken ≠ s.taken) :
    ∃ t, (∃ ts, x.taken = t :: ts) ∧ SavedAt t s.toCore x.toCore s.place := by
  obtain ⟨ci, f, hf, hfi, hx⟩ | ⟨hf, b, c, hb, ⟨t, addr, -, -, rfl⟩, rfl⟩ := fetchExecute_ok h
  · have hplace : s.place = f.placeOf ci := by
      unfold place
      rw [hf]
    rw [← hfi.taken] at hn
    obtain ⟨t, ht, hs⟩ := executed_savedAt hx hn
    refine ⟨t, ht, ?_⟩
    rw [hplace]
    generalize f.placeOf ci = p at hs
    obtain ⟨_, _, _, ⟨_, _, _, _, _, _, -, rfl⟩, rfl⟩ := hfi
    cases p with
    | first => exact ⟨hs.expc, hs.mark, hs.mode⟩
    | again => exact ⟨hs.expc, hs.mark, hs.mode⟩
    | jump | rfe => exact hs
  · have hplace : s.place = .first := by
      unfold place
      rw [hf]
    have hs := Core.saved_entered t addr b
    refine ⟨t, ⟨b.taken, Core.entered_taken t addr⟩, ?_⟩
    rw [hplace]
    obtain ⟨_, _, _, _, _, _, -, rfl⟩ := hb
    exact ⟨hs.expc, hs.mark, hs.mode⟩

/-! ## Right and wrong marks -/

variable {c : Core σ} {t : ExType} {g : Option U32} {p : Place}

/-- The mark comes out right for an interrupt between two instructions: `g` is the jump whose
delay slot comes next. -/
def MarksBetween (g : Option U32) (c : Core σ) : Prop :=
  if g = some c.prevPc then test c.status SR.DSX = true
  else test c.status SR.DSX = false ∧ c.isDelayInsn = false

/-- The mark comes out right for the exception `t` of an instruction in the delay slot of `g`. -/
def MarksWithin (g : Option U32) (t : ExType) (c : Core σ) : Place → Prop
  | .first =>
    if g = some c.prevPc then t.restarts = true
    else test c.status SR.DSX = false ∧ c.isDelayInsn = false
  | .again => g = some c.prevPc ∧ t.restarts = true
  | .jump => test c.status SR.DSX = false
  | .rfe => (test c.status SR.DSX = true ↔ g = some c.prevPc)

omit [EnvImpl σ] [HostLib] in
theorem marks_none {x c : Core σ} (h : test x.status SR.DSX = (test c.status SR.DSX || c.isDelayInsn))
    (pc : U32) : (test x.status SR.DSX = true ↔ (none : Option U32) = some pc) ↔
      test c.status SR.DSX = false ∧ c.isDelayInsn = false := by
  have hpc : (none : Option U32) ≠ some pc := by simp
  rw [iff_false_right hpc, Bool.not_eq_true, h, Bool.or_eq_false_iff]

omit [EnvImpl σ] [HostLib] in
theorem marksBetween_iff {x : Core σ} (hg : ∀ pc, g = some pc → c.isJumpInsn = true)
    (ht : t.isAsync = true) (h : Core.Saved t c x) :
    (test x.status SR.DSX = true ↔ g = some x.expc) ↔ MarksBetween g c := by
  unfold MarksBetween
  cases g with
  | none => exact marks_none h.mark x.expc
  | some pc =>
    rw [h.mark, h.expc, Core.exceptionPc_of_async ht]
    have hj := hg pc rfl
    have hd : c.isDelayInsn = false := by
      by_contra hd
      rw [Core.isJumpInsn_of_isDelayInsn (by simpa using hd)] at hj
      cases hj
    rw [hj, hd, if_pos rfl, Bool.or_false]
    split <;> rename_i hp
    · exact iff_true_right hp
    · rw [iff_false_right hp, Bool.not_eq_true]
      exact (and_iff_left rfl).symm

omit [EnvImpl σ] [HostLib] in
theorem marksWithin_iff {x : Core σ}
    (hg : ∀ pc, g = some pc → c.isDelayInsn = true ∧ c.nextPc = pc + 4#32)
    (h : SavedAt t c x p) :
    (test x.status SR.DSX = true ↔ g = some x.expc) ↔ MarksWithin g t c p := by
  have hne : g ≠ some c.nextPc := fun hn => by
    have hpc := (hg _ hn).2
    simp at hpc
  have hpast : g ≠ some (c.nextPc + 4#32) := fun hn => by
    have hpc := (hg _ hn).2
    rw [BitVec.add_assoc] at hpc
    simp at hpc
  cases p with
  | first =>
    unfold MarksWithin
    by_cases hgo : g = none
    · rw [hgo]
      exact marks_none h.mark x.expc
    · rw [h.mark, h.expc]
      obtain ⟨pc, hpc⟩ := Option.ne_none_iff_exists'.1 hgo
      have hd := (hg pc hpc).1
      have hj := Core.isJumpInsn_of_isDelayInsn hd
      rw [hd, Bool.or_true, iff_true_left rfl]
      cases hr : t.restarts with
      | true =>
        rw [Core.exceptionPc_of_restarts hr, if_pos hd]
        simp
      | false =>
        have hout : g ≠ some (c.exceptionPc t) := by
          cases ha : t.isAsync with
          | true => rwa [Core.exceptionPc_of_async ha, hj, if_neg Bool.false_ne_true]
          | false => rwa [Core.exceptionPc_of_past hr ha, hj, if_neg Bool.false_ne_true]
        simp [hout]
  | again =>
    rw [h.mark, h.expc, iff_true_left rfl]
    unfold MarksWithin
    cases t.restarts with
    | true => simp
    | false => simp [hpast]
  | jump =>
    rw [h.2.2, h.2.1, iff_false_right hne, Bool.not_eq_true]
    rfl
  | rfe =>
    rw [h.2.2, h.2.1]
    rfl

end Or1k

namespace Machine

open Or1k

variable [EnvImpl σ] [HostLib] {m m' : Machine σ} {a : Action σ} {g : Option U32}

/-- The counters and the program counter of the delay slot of `g`. -/
def Awaits (g : Option U32) (s : Or1k σ) : Prop :=
  (∃ due : Option U32, due.isSome = g.isSome ∧ Delayed due s) ∧
    ∀ pc, g = some pc → s.nextPc = pc + 4#32

omit [EnvImpl σ] [HostLib] in
theorem Awaits.jumpInsn {s : Or1k σ} {pc : U32} (h : Awaits g s) (hg : g = some pc) :
    s.jumpInsn = s.instructions + 1 := by
  obtain ⟨⟨due, hs, hd⟩, -⟩ := h
  rw [hg] at hs
  obtain ⟨target, ht⟩ := Option.isSome_iff_exists.1 hs
  exact (hd target ht).1

/-- Behind a jump comes its delay slot. -/
theorem step_nextPc (hn : m.act a = some m') (hg : ∀ pc, g = some pc → m.cpu.nextPc = pc + 4#32) :
    ∀ pc, jumpAfter g ⟨m, a, m'⟩ = some pc → m'.cpu.nextPc = pc + 4#32 := by
  intro pc hpc
  unfold jumpAfter at hpc
  by_cases hx : IsIteration ⟨m, a, m'⟩
  · obtain ⟨ha, hx⟩ := hx
    dsimp only at ha hx
    subst ha
    rcases iteration_cases hx hn with ⟨limit, x, hf, rfl⟩ | ⟨x, hf, rfl⟩
    · rw [event_of_retired limit hx hf] at hpc
      split at hpc
      · rename_i target he
        cases hpc
        obtain ⟨hri, hrj, -, -⟩ := redirect_counters (x := x)
        have hslot : Delayed (m.cpu.beginCycle.event.slot none) x.retire.redirect :=
          (fetchExecute_lawful hf (fun t ht => by cases ht)).2
        rw [he] at hslot
        have hcount := (hslot target rfl).1
        rw [hri, hrj] at hcount
        have hnot : ¬(x.instructions == x.jumpInsn) = true := by
          rw [beq_iff_eq]
          omega
        rw [retired_cpu, redirect_nextPc, if_neg hnot, fetchExecute_jump hf he]
        rfl
      · cases hpc
      · cases hpc
      · rename_i he
        exact (event_ne_idle he).elim
    · rw [event_of_throw hx hf] at hpc
      cases hpc
  · rcases act_rested hx hn with hr | hi
    · rw [event_of_not_iteration hx, if_neg (not_not.2 hr.taken)] at hpc
      split at hpc
      · rename_i target he
        split at he <;> cases he
      · cases hpc
      · cases hpc
      · rename_i he
        have hw : a.writesNpc = false := by
          by_contra hw
          rw [if_pos (by simpa using hw)] at he
          cases he
        rw [hr.nextPc hw]
        exact hg pc hpc
    · rw [event_of_not_iteration hx, if_pos hi.1] at hpc
      cases hpc

theorem step_awaits {q q' : Machine σ × Option U32} (hn : jumping.next q a = some q')
    (h : Awaits q.2 q.1.cpu) : Awaits q'.2 q'.1.cpu := by
  obtain ⟨m, g⟩ := q
  obtain ⟨m', hm, rfl⟩ := System.watch_next hn
  obtain ⟨⟨due, hs, hd⟩, hp⟩ := h
  dsimp only at hm hs hd hp ⊢
  have hnext : delayed.next (m, due) a = some (m', slotAfter due ⟨m, a, m'⟩) :=
    System.next_watch slotAfter hm
  exact ⟨⟨_, isSome_jumpAfter hs _, (step_lawful hnext hd).1⟩, step_nextPc hm hp⟩

/-- The last exception of a step. -/
def lastEntered (st : Move (Machine σ) (Action σ)) : Option ExType :=
  if st.post.cpu.taken = st.pre.cpu.taken then none else st.post.cpu.taken.head?

/-- DSX says of EPCR that it is a jump whose delay slot was not executed or did not complete. -/
def Marked (st : Move (Machine σ × Option U32) (Action σ)) : Prop :=
  test st.post.1.cpu.status SR.DSX = true ↔ st.pre.2 = some st.post.1.cpu.expc

/-- The entry of `t` in this step gets DSX right. -/
def MarksRightly (t : ExType) (st : Move (Machine σ × Option U32) (Action σ)) : Prop :=
  match st.act with
  | .run =>
    if st.pre.1.executes then
      MarksWithin st.pre.2 t st.pre.1.cpu.beginCycle.toCore st.pre.1.cpu.beginCycle.place
    else MarksBetween st.pre.2 st.pre.1.cpu.toCore
  | _ => MarksBetween st.pre.2 st.pre.1.cpu.toCore

/-- A step without an instruction enters interrupts from the state before it. -/
theorem act_interrupts (hx : ¬IsIteration ⟨m, a, m'⟩) (hn : m.act a = some m') :
    Interrupts m.cpu m'.cpu := by
  cases act_transition hn with
  | begin r s n => exact began_interrupts
  | mini | finish | leave => exact .inl rfl
  | iterate limit s x hl hfe | throw limit s x hl hfe =>
    exact (hx ⟨rfl, by simpa [executes] using hl⟩).elim
  | drain s =>
    rw [drained_cpu]
    exact endMini_interrupts
  | interrupt p s id set =>
    left
    obtain ⟨v, he⟩ := s.toCore.interrupt_eq id set
    rw [he]
    rfl
  | outside r s s' a ha h =>
    cases outside_ok h with
    | writeSpr reg val => exact sprWritten_interrupts reg val true
    | writeGpr | world | setUp => exact .inl rfl

omit [EnvImpl σ] [HostLib] in
theorem lastEntered_eq {t u : ExType} {ts : List ExType} (h : lastEntered ⟨m, a, m'⟩ = some t)
    (hu : m'.cpu.taken = u :: ts) : t = u := by
  unfold lastEntered at h
  split at h
  · cases h
  · rw [hu] at h
    cases h
    rfl

omit [EnvImpl σ] [HostLib] in
theorem taken_of_lastEntered {t : ExType} (h : lastEntered ⟨m, a, m'⟩ = some t) :
    m'.cpu.taken ≠ m.cpu.taken := by
  intro ht
  unfold lastEntered at h
  rw [if_pos ht] at h
  cases h

omit [EnvImpl σ] [HostLib] in
theorem retire_mark (x : Or1k σ) : x.retire.redirect.expc = x.expc ∧
    test x.retire.redirect.status SR.DSX = test x.status SR.DSX := by
  refine ⟨(redirect_saved x).2.1, ?_⟩
  rw [redirect_fixed.2.1, test_or, show test SR.FO SR.DSX = false by decide, Bool.or_false]

/-- An exception is marked rightly exactly under the condition for its place. -/
theorem step_marked {q q' : Machine σ × Option U32} {t : ExType}
    (hn : jumping.next q a = some q') (haw : Awaits q.2 q.1.cpu)
    (hl : lastEntered (Move.base ⟨q, a, q'⟩) = some t) :
    Marked ⟨q, a, q'⟩ ↔ MarksRightly t ⟨q, a, q'⟩ := by
  obtain ⟨m, g⟩ := q
  obtain ⟨m', hm, rfl⟩ := System.watch_next hn
  dsimp only [Move.base] at hm hl haw
  have htaken := taken_of_lastEntered hl
  unfold Marked
  dsimp only
  by_cases hx : IsIteration ⟨m, a, m'⟩
  · obtain ⟨ha, hx⟩ := hx
    dsimp only at ha hx
    subst ha
    unfold MarksRightly
    dsimp only
    rw [if_pos hx]
    rcases iteration_cases hx hm with ⟨limit, x, hf, rfl⟩ | ⟨x, hf, rfl⟩
    · obtain ⟨hexpc, hmark⟩ := retire_mark x
      rw [retired_cpu] at htaken ⊢
      rw [redirect_counters.2.2.2] at htaken
      obtain ⟨u, ⟨us, hus⟩, hs⟩ := fetchExecute_savedAt hf htaken
      have htu : t = u := lastEntered_eq hl (by rw [retired_cpu, redirect_counters.2.2.2, hus])
      rw [hexpc, hmark, htu]
      refine marksWithin_iff (fun pc hpc => ⟨?_, haw.2 pc hpc⟩) hs
      exact beq_iff_eq.2 (haw.jumpInsn hpc).symm
    · exact (htaken (fetchExecute_throw_counters hf).taken).elim
  · have hright : MarksRightly t ⟨(m, g), a, (m', jumpAfter g ⟨m, a, m'⟩)⟩ ↔
        MarksBetween g m.cpu.toCore := by
      unfold MarksRightly
      cases a with
      | run =>
        dsimp only
        rw [if_neg fun he => hx ⟨rfl, he⟩]
      | _ => rfl
    rw [hright]
    rcases act_interrupts hx hm with ht | ⟨e, he, hs⟩
    · exact (htaken ht).elim
    · exact marksBetween_iff (fun pc hpc => isJumpInsn_iff.2 (haw.jumpInsn hpc)) he hs.toSaved

/-- In every run from reset, DSX says of EPCR what it should exactly if the counters compare as
they must for the place in which the exception is entered, and no earlier mark is left. -/
theorem delay_slots_marked_iff {env : Env σ} {size : Nat} {q : Machine σ × Option U32}
    {l : List (Move (Machine σ × Option U32) (Action σ))}
    (h : jumping.Path (init env size, none) l q) :
    ∀ st ∈ l, ∀ t, lastEntered st.base = some t → (Marked st ↔ MarksRightly t st) := by
  have h0 : Awaits none (init env size).cpu := ⟨⟨none, rfl, nofun⟩, nofun⟩
  exact (h.forall_of (C := fun _ => True) (P := fun q => Awaits q.2 q.1.cpu)
    (R := fun st => ∀ t, lastEntered st.base = some t → (Marked st ↔ MarksRightly t st))
    (fun _ _ _ hn _ haw => ⟨step_awaits hn haw, fun _ hl => step_marked hn haw hl⟩)
    (fun _ _ => trivial) h0).2

end Machine

namespace Machine

open Or1k

attribute [local instance] HostLib.plain

/-- An external interrupt between `l.j` and its delay slot: EPCR is the jump, without the mark. -/
theorem delay_slots_marked_iff_fails : ∃ l q, jumping.Path (Memory.boot
    [(0x100, 0xa8608005#32), (0x104, 0xc0001811#32), (0x108, 0x00000002#32)], none) l q ∧
      ∃ st ∈ l, lastEntered st.base = some .external ∧ st.pre.2 = some 0x108#32 ∧
        st.post.1.cpu.expc = 0x108#32 ∧ test st.post.1.cpu.status SR.DSX = false ∧ ¬Marked st := by
  obtain ⟨q, hr, hq⟩ := System.exists_run jumping (Memory.boot
    [(0x100, 0xa8608005#32), (0x104, 0xc0001811#32), (0x108, 0x00000002#32)], none)
    [.call 3#32, .run, .run, .run, .run, .run, .run, .run, .interrupt 0 true]
    (fun q => decide (q.2 = some 0x108#32) && (q.1.next).any fun m' : Machine Memory =>
      decide (lastEntered ⟨q.1, .run, m'⟩ = some .external ∧ m'.cpu.expc = 0x108#32 ∧
        test m'.cpu.status SR.DSX = false))
    (by decide +kernel)
  rw [Bool.and_eq_true, decide_eq_true_eq] at hq
  obtain ⟨hg, hq⟩ := hq
  obtain ⟨m', hn, hm⟩ := (Option.any_eq_true _ _).1 hq
  obtain ⟨he, hpc, hd⟩ := of_decide_eq_true hm
  obtain ⟨l, hl, hmem⟩ := hr.path_tail (System.next_watch (M := system) jumpAfter (a := .run) hn)
  refine ⟨l, _, hl, _, hmem, he, hg, hpc, hd, fun hmark => ?_⟩
  have htrue : test m'.cpu.status SR.DSX = true := hmark.2 (by
    show q.2 = some m'.cpu.expc
    rw [hg, hpc])
  rw [hd] at htrue
  cases htrue

/-- A misaligned `l.lwz` in the delay slot of `l.j` is marked. -/
theorem delay_slots_marked_iff_lwz : ∃ m m' : Machine Memory, m.next = some m' ∧
    m.cpu.nextPc = 0x104#32 ∧ m'.cpu.expc = 0x100#32 ∧ test m'.cpu.status SR.DSX = true := by
  obtain ⟨q, hr, hq⟩ := System.exists_run jumping
    (Memory.boot [(0x100, 0x2#32), (0x104, 0x84600001#32)], none) [.call 10#32, .run, .run]
    (fun q => decide (q.1.executes = true ∧ q.1.cpu.nextPc = 0x104#32 ∧ q.2 = some 0x100#32 ∧
      q.1.cpu.prevPc = 0x100#32 ∧ q.1.cpu.beginCycle.place = .first) &&
      (q.1.next).any fun m' : Machine Memory =>
        decide (lastEntered ⟨q.1, .run, m'⟩ = some .dataAlignment ∧ m'.cpu.expc = 0x100#32))
    (by decide +kernel)
  rw [Bool.and_eq_true, decide_eq_true_eq] at hq
  obtain ⟨⟨hx, hpc, hg, hprev, hplace⟩, hq⟩ := hq
  obtain ⟨m', hn, hm⟩ := (Option.any_eq_true _ _).1 hq
  obtain ⟨he, hexpc⟩ := of_decide_eq_true hm
  obtain ⟨l, hl, hmem⟩ := hr.path_tail (System.next_watch (M := system) jumpAfter (a := .run) hn)
  refine ⟨q.1, m', hn, hpc, hexpc, ?_⟩
  have hmark := (delay_slots_marked_iff hl _ hmem _ he).2 (by
    unfold MarksRightly
    dsimp only
    rw [if_pos hx, hplace]
    show (if q.2 = some q.1.cpu.prevPc then _ else _)
    rw [if_pos (by rw [hg, hprev])]
    rfl)
  exact hmark.2 (by
    show q.2 = some m'.cpu.expc
    rw [hg, hexpc])

end Machine

end Or1kiss
