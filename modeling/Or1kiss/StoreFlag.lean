import Or1kiss.Reply

/-!
# The flag behind loads and stores

`l.swa` reports in SR[F] whether it has stored. `transact` sets and clears the flag for every
exclusive request, so that `l.lwa` overwrites it as well.
-/

namespace Or1kiss

open Host Bits Runs

variable {σ : Type}

namespace Core

variable [EnvImpl σ] {c x : Core σ} {ci : Instruction} {e : MemExec}

/-- The port has performed the load or store. -/
def performed (e : MemExec) (ci : Instruction) (c : Core σ) : Bool :=
  (c.reply e ci).any fun p => p.1 == .success

/-- The flag is kept by all loads and stores but `l.swa`, and says what became of that. -/
structure FlagRight (e : MemExec) (done before after : Bool) : Prop where
  kept : e ≠ .swa → after = before
  stored : e = .swa → after = done

/-- The flag behind a load or store that raises no exception. -/
theorem executeMem_flag {n : Nat} (h : c.executeMem e ci = .ok (n, x)) (ht : x.taken = c.taken) :
    test x.status SR.F = if e.isExclusive then c.performed e ci else test c.status SR.F := by
  cases executeMem_served h with
  | aborted hr hn hne => exact (hne ht).elim
  | served resp r hr he hn ht hs =>
    unfold performed
    rw [hs, hr]
    cases e.isExclusive with
    | false => rfl
    | true =>
      rw [if_pos rfl, if_pos rfl]
      cases resp with
      | error => exact (he rfl).elim
      | failed => exact test_and_not_self _ _
      | success => exact test_or_self (by decide)

theorem flagRight_iff {n : Nat} (h : c.executeMem e ci = .ok (n, x)) (ht : x.taken = c.taken) :
    FlagRight e (c.performed e ci) (test c.status SR.F) (test x.status SR.F) ↔
      (e = .lwa → test c.status SR.F = c.performed e ci) := by
  rw [executeMem_flag h ht]
  cases e with
  | lwa => exact ⟨fun h _ => (h.kept nofun).symm, fun h => ⟨fun _ => (h rfl).symm, nofun⟩⟩
  | swa => exact ⟨fun _ => nofun, fun _ => ⟨fun hn => (hn rfl).elim, fun _ => rfl⟩⟩
  | _ => exact ⟨fun _ => nofun, fun _ => ⟨fun _ => rfl, nofun⟩⟩

end Core

namespace Machine

open Or1k Or1kiss.Core

variable [EnvImpl σ] [HostLib] {m m' : Machine σ} {x : Or1k σ} {e : MemExec} {ci : Instruction}
  {c : Core σ}

/-- A load or store that raises no exception treats the flag as it should exactly if it is no
`l.lwa`, or one that finds the flag as it leaves it. -/
theorem store_flag_iff (hm : m.memInsn .run = some (e, ci, c)) (hn : m.next = some m')
    (hx : m.cpu.beginCycle.fetchExecute = .ok x) (ht : m'.cpu.taken = c.taken) :
    FlagRight e (c.performed e ci) (test m.cpu.status SR.F) (test m'.cpu.status SR.F) ↔
      (e = .lwa → test m.cpu.status SR.F = c.performed e ci) := by
  obtain ⟨-, hexec, hmem⟩ := memInsn_eq_some hm
  obtain ⟨f, hf, he, rfl⟩ := Or1k.memInsn_eq_some hmem
  have hstatus : f.status = m.cpu.status := (FetchedInsn.of_fetch hf).counters.2.2
  have hpost : m'.cpu.taken = x.taken ∧ test m'.cpu.status SR.F = test x.status SR.F := by
    obtain ⟨limit, y, hy, rfl⟩ | ⟨y, hy, rfl⟩ := iteration_cases hexec hn
    · cases hx.symm.trans hy
      have hfo : test (x.status ||| SR.FO) SR.F = test x.status SR.F := by
        rw [test_or, show test SR.FO SR.F = false by decide, Bool.or_false]
      rw [retired_cpu]
      unfold redirect
      split <;> exact ⟨rfl, hfo⟩
    · cases hx.symm.trans hy
  obtain ⟨⟨insn, g⟩, hg, hexe⟩ := Outcome.bind_eq_ok.1 hx
  cases hf.symm.trans hg
  obtain ⟨n, hmemx, -⟩ := execute_mem he hexe
  rw [hpost.2, ← hstatus]
  exact flagRight_iff hmemx (hpost.1.symm.trans ht)

end Machine

namespace Machine

open Or1k Or1kiss.Core

attribute [local instance] HostLib.plain

/-- `l.lwa r3,0(r0)` after reset sets the flag. -/
theorem store_flag_iff_fails : ∃ m m' e ci c x, system.Run (Memory.boot [(0x100, 0x6c600000#32)]) m ∧
    m.memInsn .run = some (e, ci, c) ∧ m.next = some m' ∧
      m.cpu.beginCycle.fetchExecute = .ok x ∧ m'.cpu.taken = c.taken ∧ e ≠ .swa ∧
      ¬FlagRight e (c.performed e ci) (test m.cpu.status SR.F) (test m'.cpu.status SR.F) := by
  obtain ⟨m, m', e, ci, c, x, hr, hm, hn, hx, hp⟩ := exists_memInsn
    (Memory.boot [(0x100, 0x6c600000#32)]) [.call 1#32, .run]
    (fun e _ c m m' => decide (m'.cpu.taken = c.taken ∧ e = .lwa ∧ test m.cpu.status SR.F = false ∧
      test m'.cpu.status SR.F = true)) (by decide +kernel)
  obtain ⟨ht, he, hb, ha⟩ := of_decide_eq_true hp
  have hne : e ≠ .swa := by
    rw [he]
    nofun
  refine ⟨m, m', e, ci, c, x, hr, hm, hn, hx, ht, hne, fun h => ?_⟩
  have hk := h.kept hne
  rw [hb, ha] at hk
  cases hk

/-- `l.sw 0(r0),r3` after reset keeps the flag. -/
theorem store_flag_iff_sw : ∃ m m' : Machine Memory, m.next = some m' ∧
    test m'.cpu.status SR.F = test m.cpu.status SR.F := by
  obtain ⟨m, m', e, ci, c, x, hr, hm, hn, hx, hp⟩ := exists_memInsn
    (Memory.boot [(0x100, 0xd4001800#32)]) [.call 1#32, .run]
    (fun e _ c _ m' => decide (m'.cpu.taken = c.taken ∧ e = .sw)) (by decide +kernel)
  obtain ⟨ht, rfl⟩ := of_decide_eq_true hp
  exact ⟨m, m', hn, ((store_flag_iff hm hn hx ht).2 nofun).kept nofun⟩

end Machine

end Or1kiss
