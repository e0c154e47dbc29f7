import Or1kiss.Aside

/-!
# What the executors do not look at

What the last fetch was charged stays in its request and is of no use to the executors: a load or
store takes cores that differ in it (`Apart`) to such cores (`executeMem_apart`).
-/

namespace Or1kiss

open Host Bits Outcome

variable {σ : Type}

namespace Core

/-- The same core, but for what the last fetch was charged. -/
def Apart (c d : Core σ) : Prop := ∃ n, d = { c with ireq := { c.ireq with cycles := n } }

/-- Two executors agree; they throw nothing. -/
abbrev Agree (x y : Outcome Empty (Core σ)) : Prop := Both (fun _ _ => True) Apart x y

variable {c d : Core σ} {ci : Instruction}

theorem Apart.refl (c : Core σ) : Apart c c := ⟨c.ireq.cycles, rfl⟩

/-- The requests are put aside. -/
theorem agree_of_beside {f : Core σ → Outcome Empty (Core σ)}
    (hf : ∀ {o n : Env σ × Request} {c d : Core σ}, n.1.hostEndian = o.1.hostEndian →
      Aside o n c d → Beside o n (f c) (f d)) (h : Apart c d) : Agree (f c) (f d) := by
  obtain ⟨n, rfl⟩ := h
  have hb := hf (o := (c.env, c.ireq)) (n := (c.env, { c.ireq with cycles := n })) rfl ⟨rfl, rfl, rfl⟩
  refine hb.mono (fun _ _ _ => trivial) fun x y hxy => ⟨n, ?_⟩
  rw [hxy.eq]
  obtain ⟨he, hq, -⟩ := hxy
  unfold aside
  rw [hq, ← he]

theorem exception_apart (h : Apart c d) (t : ExType) (addr : U32) :
    Agree (c.exception t addr) (d.exception t addr) :=
  agree_of_beside (fun _ h => exception_aside h t addr) h

/-! ## Loads and stores -/

/-- What two accesses return. -/
structure ApartAccess (x y : Access σ) : Prop where
  done : y.done = x.done
  stall : y.stall = x.stall
  req : y.req = x.req
  core : Apart x.core y.core

/-- Two accesses agree, and so do their requests when they throw. -/
abbrev AgreeAccess (x y : Outcome (Core σ × Request) (Access σ)) : Prop :=
  Both (fun s t => Apart s.1 t.1 ∧ t.2 = s.2) ApartAccess x y

theorem abort_apart (h : Apart c d) (t : ExType) (req : Request) :
    AgreeAccess (c.abort t req) (d.abort t req) :=
  (exception_apart h t req.addr).lift (fun s => s.elim) fun _ _ h => ⟨rfl, rfl, rfl, h⟩

theorem complete_apart (h : Apart c d) (req : Request) :
    ApartAccess (c.complete req) (d.complete req) := by
  obtain ⟨n, rfl⟩ := h
  unfold complete
  split <;> exact ⟨rfl, rfl, rfl, n, rfl⟩

variable [EnvImpl σ]

theorem send_apart (h : Apart c d) (req : Request) : AgreeAccess (c.send req) (d.send req) := by
  obtain ⟨n, rfl⟩ := h
  unfold send
  dsimp only
  split
  · refine abort_apart ?_ _ _
    exact ⟨n, rfl⟩
  · split
    · exact .throw ⟨⟨n, rfl⟩, rfl⟩
    · refine .ok (complete_apart ?_ _)
      exact ⟨n, rfl⟩
  · split
    · refine .ok (complete_apart ?_ _)
      exact ⟨n, rfl⟩
    · refine .ok (complete_apart ?_ _)
      exact ⟨n, rfl⟩

theorem translateSend_apart (h : Apart c d) (req : Request) :
    AgreeAccess (c.translateSend req) (d.translateSend req) := by
  obtain ⟨n, rfl⟩ := h
  have ht : ({ c with ireq := { c.ireq with cycles := n } } : Core σ).translateData req =
      ((c.translateData req).1, (c.translateData req).2.1, { (c.translateData req).2.2 with
        ireq := { (c.translateData req).2.2.ireq with cycles := n } }) := by
    unfold translateData
    change (if c.isDmmuActive then _ else _) = _
    cases c.isDmmuActive <;> rfl
  unfold translateSend
  rw [ht]
  generalize c.translateData req = t
  obtain ⟨res, req', b⟩ := t
  cases res
  · exact send_apart ⟨n, rfl⟩ _
  · exact abort_apart ⟨n, rfl⟩ _ _
  · exact abort_apart ⟨n, rfl⟩ _ _

theorem transact_apart (h : Apart c d) (req : Request) :
    AgreeAccess (c.transact req) (d.transact req) := by
  obtain ⟨n, rfl⟩ := h
  have hw : Apart (c.checkWatchpoints (c.dataRequest req))
      (({ c with ireq := { c.ireq with cycles := n } } : Core σ).checkWatchpoints
        (c.dataRequest req)) := by
    unfold checkWatchpoints
    have hh : hitsWatchpoint (c.dataRequest req) { c with ireq := { c.ireq with cycles := n } } =
        hitsWatchpoint (c.dataRequest req) c := rfl
    rw [hh]
    split <;> exact ⟨n, rfl⟩
  unfold transact
  change AgreeAccess _ (if misaligned (c.dataRequest req) then _ else _)
  dsimp only
  split
  · exact abort_apart hw _ _
  · exact translateSend_apart hw _

omit [EnvImpl σ] in
theorem writeBack_apart (h : Apart c d) (i : Fin 32) (req : Request) :
    Apart (c.writeBack i req) (d.writeBack i req) := by
  obtain ⟨n, rfl⟩ := h
  exact ⟨n, rfl⟩

/-- Two loads or stores take the same time. -/
abbrev AgreeMem (x y : Outcome (Core σ) (Nat × Core σ)) : Prop :=
  Both Apart (fun a b => b.1 = a.1 ∧ Apart a.2 b.2) x y

theorem accessMemory_apart (h : Apart c d) (read excl : Bool) (size : Nat) (post : U32 → U32)
    (buf : Operand) : AgreeMem (c.accessMemory read excl size post buf ci)
      (d.accessMemory read excl size post buf ci) := by
  have hreads : ∀ (op : Operand) {f g : U32 → Outcome (Core σ) (Nat × Core σ)},
      (∀ a, AgreeMem (f a) (g a)) →
        AgreeMem ((c.deref ci op).widen >>= f) ((c.deref ci op).widen >>= g) :=
    fun op _ _ h => Both.bind_same (fun s => .refl s) _ h
  obtain ⟨n, rfl⟩ := h
  refine hreads ci.src1 fun a => hreads buf fun v => ?_
  split
  · split
    · refine (transact_apart ⟨n, rfl⟩ _).lift (fun s t hst => ?_) fun x y hxy => ?_
      · rw [hst.2]
        exact writeBack_apart hst.1 _ _
      · rw [hxy.done, hxy.stall, hxy.req]
        refine ⟨rfl, ?_⟩
        obtain ⟨q, hq⟩ := hxy.core
        rw [hq]
        dsimp only
        split <;> exact ⟨q, rfl⟩
    · exact .fault _
  · exact .fault _

/-- Nor does a load or store. -/
theorem executeMem_apart (h : Apart c d) (e : MemExec) :
    AgreeMem (c.executeMem e ci) (d.executeMem e ci) := by
  unfold executeMem executeOrbis32Lwa executeOrbis32Lw executeOrbis32Lhz executeOrbis32Lhs
    executeOrbis32Lbz executeOrbis32Lbs executeOrbis32Swa executeOrbis32Sw executeOrbis32Sh
    executeOrbis32Sb
  cases e <;> exact accessMemory_apart h _ _ _ _ _

end Core

end Or1kiss
