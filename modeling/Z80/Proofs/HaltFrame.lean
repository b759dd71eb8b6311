import Z80.Proofs.Lifecycle
import Z80.Proofs.RefreshMode

/-!
# A halted CPU stands still

HALT sets a line that keeps the CPU at the HALT opcode, idling four cycles at a time, until
it takes an interrupt. `Machine.Dormant` is that state between host calls: status
`halted`, the HALT line set, the EI shadow clear, and no request latched that the CPU would
take (`Cpu.wakePending`). A halted CPU is never in an EI shadow (`Machine.Unshadowed`): EI
executes only with the HALT line clear, and everything that sets the line consumes the
shadow. So every halted machine a host reaches is dormant unless it is faulted, running or
has a request to take (`Reachable.dormant`).

From a dormant machine a step is one idle (`step_of_dormant`), and a run idles through what
the debt leaves of its budget in one go (`run_of_dormant`). A session of steps and runs,
however its budgets are split, is never refused and ends at `Machine.idle n` with the run
bookkeeping replaced (`replay_of_dormant`): R has counted `n` fetches and `4n` cycles are
counted, and nothing else has moved, the bus included. Raising INT while IFF1 is clear
leaves the machine dormant (`Dormant.raiseInt`).

The HALT line is cleared by a reset, by loading a save state without it, and otherwise only
by a step that begins halted and takes a request (`exec_clears_halted`). That step is an
acknowledgment, and the address it pushes is the one after the HALT opcode
(`executeOne_wakes`).
-/

namespace Z80

/-- A halted CPU between calls with nothing to wake it: status `halted`, the HALT line set,
the EI shadow clear, and neither an NMI nor an INT with IFF1 set latched. -/
structure Machine.Dormant {β : Type} (m : Machine β) : Prop where
  status : m.cpu.regs.status = .halted
  halted : m.cpu.regs.halted = true
  shadow : m.cpu.eiShadow = false
  asleep : m.cpu.wakePending = false

/-- The EI shadow is never set while the HALT line is. -/
def Machine.Unshadowed {β : Type} (m : Machine β) : Prop :=
  m.cpu.regs.halted = true → m.cpu.eiShadow = false

namespace Machine

variable {β : Type} {m : Machine β}

/-- `n` idles count `n` fetches in R and `4n` cycles, and change nothing else. -/
theorem idle_eq (m : Machine β) (n : Nat) :
    m.idle n = { m with cpu := { m.cpu with
      regs := { m.cpu.regs with r := m.cpu.fetchedR n },
      odometer := m.cpu.odometer.advance (n * Timing.halted),
      refreshClock := m.cpu.refreshClock + n * Timing.halted } } := by
  simp only [idle, Cpu.refreshBy_eq]

/-- Counting R per fetch, `n` idles advance its low seven bits by `n` and keep bit 7. -/
theorem idle_r (h : m.cpu.config.refresh = .perFetch) (n : Nat) :
    (m.idle n).cpu.regs.r &&& 0x80 = m.cpu.regs.r &&& 0x80 ∧
      (m.idle n).cpu.regs.r.toNat % 128 = (m.cpu.regs.r.toNat + n) % 128 := by
  simp only [(idle_cpu m n).1, Cpu.fetchedR, h]
  exact ⟨Registers.advanceR_r_high _ _, Registers.advanceR_r_low _ _⟩

theorem entered_idle (m : Machine β) (n : Nat) : m.entered.idle n = (m.idle n).entered := by
  simp only [idle, entered, Cpu.refreshBy_eq]
  rfl

theorem Unshadowed.idle (h : m.Unshadowed) (n : Nat) : (m.idle n).Unshadowed := by
  unfold Unshadowed
  rw [(idle_cpu m n).1, (idle_cpu m n).2]
  exact h

namespace Dormant

theorem idle (h : m.Dormant) (n : Nat) : (m.idle n).Dormant := by
  obtain ⟨hs, hh, he, hw⟩ := h
  have hc := idle_cpu m n
  refine ⟨?_, ?_, ?_, ?_⟩
  · simpa [hc.1] using hs
  · simpa [hc.1] using hh
  · simpa [hc.2] using he
  · simpa [hc.1, Cpu.wakePending] using hw

theorem setBook (h : m.Dormant) (d : UInt64) (r : Int64) : (m.setBook d r).Dormant :=
  ⟨h.status, h.halted, h.shadow, h.asleep⟩

theorem settled (h : m.Dormant) : m.Settled := by
  apply settled_of_status
  simp [Machine.settled, Cpu.settle, h.halted, h.status]

/-- Idling from the machine marked running and settling again is idling from the machine
itself. -/
theorem entered_idle_settled (h : m.Dormant) (n : Nat) : (m.entered.idle n).settled = m.idle n := by
  rw [entered_idle]
  exact (h.idle n).settled.entered_settled

/-- Raising INT while IFF1 is clear wakes nothing. -/
theorem raiseInt [Bus β] (h : m.Dormant) (hi : m.cpu.regs.iff1 = false) (v : UInt8) :
    (Exec.after ((HostOp.raiseInt v : HostOp β).exec m)).Dormant := by
  have hn : m.cpu.regs.lines.nmi = false := (Bool.or_eq_false_iff.mp h.asleep).1
  refine ⟨h.status, h.halted, h.shadow, ?_⟩
  simp [HostOp.exec, HostOp.change, Exec.after, Cpu.raiseInt, Cpu.wakePending, hn, hi]

end Dormant

end Machine

/-! ## No EI shadow while halted -/

namespace Control

@[simp] theorem sample_eiShadow (c : Control) : c.sample.eiShadow = false := by
  unfold sample
  split <;> rfl

/-- An instruction executes only with no request taken and the HALT line clear. -/
theorem stepKind_eq_instruction {c : Control} (h : c.stepKind = .instruction) :
    c.taken = none ∧ c.halted = false := by
  unfold stepKind at h
  cases ht : c.taken with
  | some k => rcases taken_eq_some ht with rfl | rfl <;> simp [ht] at h
  | none => cases hh : c.halted <;> simp_all

/-- A step never ends both halted and in an EI shadow: only EI sets the shadow, and EI
executes with the HALT line clear. -/
theorem step_unshadowed (c : Control) (i : Instr) (h : (c.step i).halted = true) :
    (c.step i).eiShadow = false := by
  rw [step_eiShadow]
  by_contra hs
  obtain ⟨hk, rfl⟩ := of_decide_eq_true (Bool.not_eq_false _ ▸ hs)
  obtain ⟨ht, hh⟩ := stepKind_eq_instruction hk
  simp [step, hk, Instr.control, sample, ht, hh] at h

end Control

namespace Exec

variable {β : Type} [Bus β]

/-- Whatever it started from, a step ends with no EI shadow while halted, finished or
stopped. -/
theorem executeOne_unshadowed (x : Machine β) :
    (after ((executeOne : Exec β StepResult) x)).Unshadowed := by
  rcases hx : (executeOne : Exec β StepResult) x with ⟨s, x'⟩ | ⟨e, x'⟩
  · intro hh
    have hc := (executeOne_ok hx).2.2
    have h₁ := congrArg Control.halted hc
    have h₂ := congrArg Control.eiShadow hc
    simp only [Control.count] at h₁ h₂
    exact h₂.trans (Control.step_unshadowed _ _ (h₁.symm.trans hh))
  · -- an aborted step has only sampled the requests, which consumes the shadow
    intro _
    have h₂ := congrArg Control.eiShadow (executeOne_error hx).1
    exact h₂.trans (Control.sample_eiShadow _)

theorem step_unshadowed (r : Int64) {m : Machine β} (h : m.Unshadowed) :
    (after ((Cpu.step r : Exec β (StepResult × Int64)) m)).Unshadowed :=
  step_invariant (fun x _ => executeOne_unshadowed x) (fun _ _ h => h) r h

theorem run_unshadowed (b : UInt32) {m : Machine β} (h : m.Unshadowed) :
    (after ((Cpu.run b : Exec β RunOutcome) m)).Unshadowed :=
  run_invariant (runLoop_invariant (fun x _ => executeOne_unshadowed x) (fun _ n h => h.idle n))
    (fun _ _ h => h) (fun _ _ h => h) b h

end Exec

namespace HostOp

variable {β : Type} [Bus β]

open Exec

/-- Every call keeps the EI shadow clear while halted: a run or a step by its steps, a
reset or a save-state load by clearing the shadow, and any other call by keeping both the
shadow and the HALT line. -/
theorem exec_unshadowed (op : HostOp β) {m : Machine β} (h : m.Unshadowed) :
    (after (op.exec m)).Unshadowed := by
  cases op with
  | run b =>
    rw [exec, after_map]
    exact run_unshadowed b h
  | step r =>
    rw [exec, after_map]
    exact step_unshadowed r h
  | hardReset | softReset => exact fun _ => rfl
  | restore snap =>
    show (after (attempt (·.restore snap) m)).Unshadowed
    refine after_attempt (P := Machine.Unshadowed) h fun c hc _ => ?_
    exact eiShadow_restarts (show (restore snap : HostOp β).Restarts from trivial)
      (show (restore snap).exec m = .ok .done { m with cpu := c } by simp [exec, attempt, hc])
  | clearFault =>
    rw [after_clearFault]
    split
    · exact h
    · exact h
  | set reg v =>
    intro hh
    rw [eiShadow_between (show (set reg v : HostOp β).Between from trivial)]
    exact h ((exec_frame (show (set reg v : HostOp β).writesStatus = false from rfl) m).2 ▸ hh)
  | mapFetch first last region offset =>
    intro hh
    rw [eiShadow_between (show (mapFetch first last region offset : HostOp β).Between from trivial)]
    exact h ((exec_frame (show (mapFetch first last region offset : HostOp β).writesStatus = false from rfl) m).2 ▸ hh)
  | unmapFetch first last =>
    intro hh
    rw [eiShadow_between (show (unmapFetch first last : HostOp β).Between from trivial)]
    exact h ((exec_frame (show (unmapFetch first last : HostOp β).writesStatus = false from rfl) m).2 ▸ hh)
  | addCycles n | clearOdometer | raiseNmi | raiseInt v | clearInt | addRegion data
  | modifyRegion id f | useBus f => exact h

end HostOp

variable {β : Type} [Bus β]

/-- On every machine a host reaches the EI shadow is clear while the HALT line is set. -/
theorem Reachable.unshadowed {m : Machine β} (h : Reachable m) : m.Unshadowed := by
  induction h with
  | create bus hc => exact fun _ => (Cpu.create_ok hc).2.2
  | call op _ ih => exact HostOp.exec_unshadowed op ih

/-- So a halted machine a host reaches is dormant unless it is faulted, running, or has a
request to take. -/
theorem Reachable.dormant {m : Machine β} (h : Reachable m) (hh : m.cpu.regs.halted = true)
    (hw : m.cpu.wakePending = false) (hf : m.cpu.regs.status ≠ .faulted)
    (hr : m.cpu.regs.status ≠ .running) : m.Dormant := by
  have hs : m.cpu.regs.status = .halted := by
    rcases RunStatus.settled_or_running_or_faulted m.cpu.regs.status with hs | hs | hs
    · exact (h.coherent hs).mpr hh
    · exact absurd hs hr
    · exact absurd hs hf
  exact ⟨hs, hh, h.unshadowed hh, hw⟩

/-! ## Steps and runs from a dormant machine -/

namespace Exec

variable {m : Machine β}

/-- A step from a dormant machine is one idle. -/
theorem step_of_dormant (h : m.Dormant) (r : Int64) :
    (Cpu.step r : Exec β (StepResult × Int64)) m =
      .ok (⟨.halted, Timing.halted⟩, r - Timing.halted.toInt64) (m.idle 1) := by
  have hx : (executeOne : Exec β StepResult) m.entered =
      .ok ⟨.halted, Timing.halted⟩ (m.entered.idle 1) :=
    executeOne_idle h.halted (Control.taken_of_not_wakePending h.asleep) h.shadow
  rw [step_of_enter (enter_apply (.inr h.status)), hx]
  simp only [h.entered_idle_settled]

/-- The run loop from a halted machine with nothing to wake it: one idle, then in one go the
idles that use up the rest of the remainder. -/
theorem runLoop_asleep {x : Machine β} (hh : x.cpu.regs.halted = true)
    (he : x.cpu.eiShadow = false) (hw : x.cpu.wakePending = false) (rem : Int64) (hr : 0 < rem)
    {fuel : Nat} (hf : rem.toInt.toNat < fuel) (c : Nat) :
    (runLoop fuel rem c : Exec β (Int64 × Nat)) x =
      .ok (rem - ((rem.toInt.toNat + 3) / 4 * Timing.halted).toInt64,
        c + (rem.toInt.toNat + 3) / 4 * Timing.halted) (x.idle ((rem.toInt.toNat + 3) / 4)) := by
  obtain ⟨fuel, rfl⟩ : ∃ f, fuel = f + 1 := ⟨fuel - 1, by omega⟩
  have hw₁ : (x.idle 1).cpu.wakePending = false := by
    simpa [Cpu.wakePending] using hw
  simp only [runLoop, if_neg (Int64.not_le.mpr hr),
    executeOne_idle hh (Control.taken_of_not_wakePending hw) he, hw₁, idleHalted_apply,
    decide_true, Bool.not_false, Bool.and_self, ↓reduceIte]
  -- the first idle and the batch after it are the idles the whole remainder needs
  have hsub := Int64.toInt_sub_cost hr (show Timing.halted ≤ 25 by decide)
  have hpos := Int64.pos_iff.mp hr
  have hn : 1 + ((rem - Timing.halted.toInt64).toInt.toNat + 3) / 4 = (rem.toInt.toNat + 3) / 4 := by
    rw [hsub]
    simp only [Timing.halted]
    omega
  rw [runLoop_of_nonpos (Int64.sub_idles_nonpos _), Machine.idle_add, hn]
  generalize ((rem - Timing.halted.toInt64).toInt.toNat + 3) / 4 = n₁ at hn ⊢
  have hcyc : Timing.halted + n₁ * Timing.halted = (rem.toInt.toNat + 3) / 4 * Timing.halted := by
    rw [← hn, Nat.add_mul, Nat.one_mul]
  rw [Int64.sub_sub, ← Int64.ofNat_add, Nat.add_assoc, hcyc]

/-- A run from a dormant machine whose budget exceeds the debt by `a` idles through `a`,
rounded up to whole idles; the overshoot becomes the debt. -/
theorem run_of_dormant (h : m.Dormant) {a : Nat} (ha : 0 < a) {b : UInt32}
    (hb : b.toNat = m.cpu.odometer.debt.toNat + a) :
    (Cpu.run b : Exec β RunOutcome) m =
      .ok (.ran ((a + 3) / 4 * Timing.halted))
        ((m.idle ((a + 3) / 4)).setBook ((a + 3) / 4 * Timing.halted - a).toUInt64
          (Int64.ofInt (a - ((a + 3) / 4 * Timing.halted : Nat)))) := by
  have hd : m.cpu.odometer.debt < b.toUInt64 := Odometer.lt_budget_iff.mpr (by omega)
  -- the allowance is `a`, and the idles leave `a` less their cycles, which fits the word
  have hA : (b.toUInt64 - m.cpu.odometer.debt).toInt64.toInt = a := by
    rw [Odometer.toInt_allowance hd]
    omega
  have hrem : (b.toUInt64 - m.cpu.odometer.debt).toInt64 - ((a + 3) / 4 * Timing.halted).toInt64 =
      Int64.ofInt (a - ((a + 3) / 4 * Timing.halted : Nat)) := by
    have hlo : -2 ^ 63 ≤ (a : Int) - ((a + 3) / 4 * Timing.halted : Nat) := by
      simp only [Timing.halted]
      omega
    have hhi : (a : Int) - ((a + 3) / 4 * Timing.halted : Nat) < 2 ^ 63 := by
      simp only [Timing.halted]
      omega
    apply Int64.toInt_inj.mp
    rw [Int64.toInt_sub_toInt64 (by rw [hA]; exact hlo) (by rw [hA]; exact hhi), hA,
      Int64.toInt_ofInt_of_le hlo hhi]
  have hdebt : (min (a - ((a + 3) / 4 * Timing.halted : Nat) : Int) 0).natAbs =
      (a + 3) / 4 * Timing.halted - a := by
    simp only [Timing.halted]
    omega
  rw [run_of_lt (.inr h.status) hd,
    runLoop_asleep (x := m.entered) h.halted h.shadow h.asleep _ (Odometer.allowance_pos hd)
      (Nat.lt_succ_self _) 0]
  simp only [hA, Int.toNat_natCast, hrem, elim_ok, Nat.zero_add, h.entered_idle_settled]
  rw [Int64.toInt_ofInt_of_le (by simp only [Timing.halted]; omega)
    (by simp only [Timing.halted]; omega), hdebt]

/-- A step or a run from a dormant machine is never refused: it idles some number of times
and replaces the run bookkeeping. -/
theorem exec_of_dormant {op : HostOp β} (hl : op.lendsBus = true) (h : m.Dormant) :
    ∃ a n d r, op.exec m = .ok a ((m.idle n).setBook d r) := by
  cases op with
  | run b =>
    by_cases hb : b.toUInt64 ≤ m.cpu.odometer.debt
    · refine ⟨.ran .outOfCycles, 0, m.cpu.odometer.debt - b.toUInt64, 0, ?_⟩
      simp only [HostOp.exec, map_apply, run_of_le h.settled hb, elim_ok, Machine.idle_zero]
    · have hd := Odometer.lt_budget_iff.mp (UInt64.not_le.mp hb)
      have hr := run_of_dormant (a := b.toNat - m.cpu.odometer.debt.toNat) (b := b) h (by omega)
        (by omega)
      exact ⟨_, _, _, _, by rw [HostOp.exec, map_apply, hr]; rfl⟩
  | step r =>
    refine ⟨.stepped ⟨.halted, Timing.halted⟩ (r - Timing.halted.toInt64), 1, m.cpu.odometer.debt,
      m.cpu.odometer.remaining, ?_⟩
    simp only [HostOp.exec, map_apply, step_of_dormant h, elim_ok]
    rfl
  | _ => cases hl

/-- A session of steps and runs from a dormant machine, however its budgets are split, is
never refused, and ends `n` idles on with the run bookkeeping replaced. -/
theorem replay_of_dormant (ops : List (HostOp β)) (hl : ∀ op ∈ ops, op.lendsBus = true)
    (h : m.Dormant) :
    (∀ a ∈ (HostOp.replay ops m).1, ∃ v, a = .ok v) ∧
      ∃ n d r, (HostOp.replay ops m).2 = (m.idle n).setBook d r := by
  induction ops generalizing m with
  | nil =>
    refine ⟨by simp [HostOp.replay], 0, m.cpu.odometer.debt, m.cpu.odometer.remaining, ?_⟩
    simp only [HostOp.replay, Machine.idle_zero]
    rfl
  | cons op ops ih =>
    obtain ⟨a, n, d, r, hop⟩ := exec_of_dormant (hl op (by simp)) h
    obtain ⟨hans, n', d', r', hrest⟩ :=
      ih (fun o ho => hl o (by simp [ho])) ((h.idle n).setBook d r)
    have hafter : after (op.exec m) = (m.idle n).setBook d r := by rw [hop]; rfl
    refine ⟨?_, n + n', d', r', ?_⟩
    · simp only [HostOp.replay, List.mem_cons, hafter] at hans ⊢
      rintro x (rfl | hx)
      · exact ⟨a, by rw [hop]; rfl⟩
      · exact hans x hx
    · simp only [HostOp.replay, hafter, hrest, idle_setBook, Machine.idle_add]
      rfl

/-! ## Leaving HALT -/

/-- A call that lends the bus and finds the CPU faulted or running keeps the HALT line. -/
theorem halted_of_enter_error {op : HostOp β} (hl : op.lendsBus = true)
    (hs : m.cpu.regs.status = .faulted ∨ m.cpu.regs.status = .running) :
    (after (op.exec m)).cpu.regs.halted = m.cpu.regs.halted := by
  rcases hs with hs | hs
  · rw [(HostOp.after_lendsBus hl m).1 hs]
  · rw [(HostOp.after_lendsBus hl m).2.1 hs]
    rfl

/-- A run loop that begins halted ends with the HALT line clear only if one of its steps
began halted and took a request. -/
theorem runLoop_wakes (fuel : Nat) : ∀ (rem : Int64) (c : Nat) (x : Machine β),
    x.cpu.regs.halted = true →
    (after ((runLoop fuel rem c : Exec β (Int64 × Nat)) x)).cpu.regs.halted = false →
    ∃ y, LoopVisits fuel rem x y ∧ y.cpu.regs.halted = true ∧ y.control.taken.isSome := by
  induction fuel with
  | zero =>
    intro rem c x hh h
    exact absurd (hh.symm.trans h) (by decide)
  | succ fuel ih =>
    intro rem c x hh h
    by_cases hr : rem ≤ 0
    · rw [runLoop_of_nonpos hr] at h
      exact absurd (hh.symm.trans h) (by decide)
    cases ht : x.control.taken with
    | some k => exact ⟨x, .here (Int64.not_le.mp hr), hh, by simp [ht]⟩
    | none =>
      -- no request: the step is an idle, and the loop goes on from a halted machine
      have hx := executeOne_of_halted hh ht
      simp only [runLoop, if_neg hr, hx] at h
      split at h
      · rename_i hidle
        rw [idleHalted_apply] at h
        obtain ⟨y, hy, hyh, hyt⟩ := ih _ _ _ (by simp [hh]) h
        exact ⟨y, .idle (Int64.not_le.mp hr) hx hidle hy, hyh, hyt⟩
      · rename_i hidle
        obtain ⟨y, hy, hyh, hyt⟩ := ih _ _ _ (by simp [hh]) h
        exact ⟨y, .next (Int64.not_le.mp hr) hx (by simpa using hidle) hy, hyh, hyt⟩

/-- A step or a run that begins halted ends with the HALT line clear only if one of its
steps began halted and took a request. -/
theorem exec_wakes {op : HostOp β} (hl : op.lendsBus = true) (hh : m.cpu.regs.halted = true)
    (h : (after (op.exec m)).cpu.regs.halted = false) :
    ∃ y, op.Visits m y ∧ y.cpu.regs.halted = true ∧ y.control.taken.isSome := by
  rcases RunStatus.settled_or_running_or_faulted m.cpu.regs.status with hs | hs | hs
  · cases op with
    | run b =>
      by_cases hb : b.toUInt64 ≤ m.cpu.odometer.debt
      · simp only [HostOp.exec, map_apply, run_of_le_entered hs hb, elim_ok, after] at h
        exact absurd (hh.symm.trans h) (by decide)
      · simp only [HostOp.exec, map_apply, run_of_lt (b := b) hs (UInt64.not_le.mp hb)] at h
        rcases hloop : (runLoop ((b.toUInt64 - m.cpu.odometer.debt).toInt64.toInt.toNat + 1)
            (b.toUInt64 - m.cpu.odometer.debt).toInt64 0 : Exec β (Int64 × Nat)) m.entered with
          ⟨p, x'⟩ | ⟨e, x'⟩ <;> rw [hloop] at h <;> simp only [elim_ok, elim_error, after] at h
        all_goals
          -- settling and the bookkeeping keep the HALT line the loop left
          obtain ⟨y, hy, hyh, hyt⟩ := runLoop_wakes _ _ _ m.entered hh (by rw [hloop]; exact h)
          exact ⟨y, .run hs (UInt64.not_le.mp hb) hy, hyh, hyt⟩
    | step r =>
      refine ⟨m.entered, .step (enter_apply hs), hh, ?_⟩
      cases ht : m.entered.control.taken with
      | some k => rfl
      | none =>
        -- without a request the step is an idle, and the HALT line stays set
        simp only [HostOp.exec, map_apply, step_of_enter (enter_apply hs),
          executeOne_of_halted (x := m.entered) hh ht, elim_ok, after] at h
        simp [Machine.settled, Cpu.settle, Machine.idle, Machine.entered, hh] at h
    | _ => cases hl
  · rw [halted_of_enter_error hl (.inr hs)] at h
    exact absurd (hh.symm.trans h) (by decide)
  · rw [halted_of_enter_error hl (.inl hs)] at h
    exact absurd (hh.symm.trans h) (by decide)

/-- A step that begins halted and ends with the HALT line clear is an acknowledgment: it
went through `Machine.acknowledging`, which pushes the return address, the address after
the HALT opcode, and then, in mode 2, read the vector. -/
theorem executeOne_wakes {y y' : Machine β} {s : StepResult} (hh : y.cpu.regs.halted = true)
    (h : (executeOne : Exec β StepResult) y = .ok s y') (h' : y'.cpu.regs.halted = false) :
    (s.kind = .nmi ∨ s.kind = .interrupt) ∧ y.cpu.regs.returnAddress = y.cpu.regs.pc + 1 ∧
      ∃ l w t a, y' = (a.jumped t).counted s.cycles ∧
        (a = y.acknowledging l w ∨
          (readWord (word y.cpu.regs.i y.cpu.regs.intVector) : Exec β UInt16)
            (y.acknowledging l w) = .ok t a) := by
  have hret : y.cpu.regs.returnAddress = y.cpu.regs.pc + 1 := by
    simp [Registers.returnAddress, hh]
  cases ht : y.control.taken with
  | none =>
    rw [executeOne_of_halted hh ht] at h
    cases h
    exact absurd h' (by simp [hh])
  | some k =>
    have hk : s.kind = k := by
      rw [(executeOne_ok h).1]
      simp [Control.stepKind, ht]
    refine ⟨hk ▸ Control.taken_eq_some ht, hret, ?_⟩
    rcases Control.taken_eq_some ht with rfl | rfl
    · -- an NMI
      have hn : y.cpu.regs.lines.nmi = true := by
        by_contra hn
        simp [Control.taken, Machine.control, hn] at ht
      rw [executeOne_nmi hn] at h
      cases h
      exact ⟨_, _, _, _, rfl, .inl rfl⟩
    · -- an INT, in the mode the CPU is in
      have hi := (Control.stepKind_eq_interrupt (c := y.control)).mp (by simp [Control.stepKind, ht])
      obtain ⟨hn, hint, h1, he⟩ := hi
      rcases InterruptMode.byte_cases y.cpu.regs.im with him | him | him
      · rw [executeOne_im0 hn hint h1 he him] at h
        cases h
        exact ⟨_, _, _, _, rfl, .inl rfl⟩
      · rw [executeOne_im1 hn hint h1 he him] at h
        cases h
        exact ⟨_, _, _, _, rfl, .inl rfl⟩
      · rw [executeOne_im2 hn hint h1 he him] at h
        rcases hr : (readWord (word y.cpu.regs.i y.cpu.regs.intVector) : Exec β UInt16)
            (y.acknowledging { y.cpu.regs.lines with int := false } .clearBoth) with
          ⟨t, a⟩ | ⟨e, a⟩ <;> rw [hr] at h <;> simp only [elim_ok, elim_error] at h
        · cases h
          exact ⟨_, _, t, a, rfl, .inr hr⟩
        · cases h

end Exec

namespace HostOp

open Exec

/-- The HALT line is cleared only by a reset, by loading a save state whose HALT line is
clear, or by a step of a run or single step that begins halted and takes a request. -/
theorem exec_clears_halted (op : HostOp β) {m : Machine β} (hh : m.cpu.regs.halted = true)
    (h : (after (op.exec m)).cpu.regs.halted = false) :
    op = .softReset ∨ op = .hardReset ∨ (∃ snap, op = .restore snap ∧ snap.halted = false) ∨
      ∃ y, op.Visits m y ∧ y.cpu.regs.halted = true ∧ y.control.taken.isSome := by
  by_cases hl : op.lendsBus = true
  · exact .inr (.inr (.inr (exec_wakes hl hh h)))
  cases op with
  | run b | step r => exact absurd rfl hl
  | softReset => exact .inl rfl
  | hardReset => exact .inr (.inl rfl)
  | restore snap =>
    refine .inr (.inr (.inl ⟨snap, rfl, ?_⟩))
    -- a refused load leaves the HALT line set; one that goes through loads the snapshot's
    have hk := after_attempt (P := fun x : Machine β => x.cpu.regs.halted = true ∨
        x.cpu.regs.halted = snap.halted) (f := (·.restore snap)) (.inl hh) fun c hc => by
      obtain ⟨-, rfl⟩ := Cpu.restore_eq_ok_iff.mp hc
      exact .inr rfl
    rcases hk with hk | hk
    · exact absurd (hk.symm.trans h) (by decide)
    · exact hk.symm.trans h
  | clearFault =>
    rw [after_clearFault] at h
    split at h <;> exact absurd (hh.symm.trans h) (by decide)
  | set reg v | mapFetch first last region offset | unmapFetch first last | addCycles n
  | clearOdometer | raiseNmi | raiseInt v | clearInt | addRegion data | modifyRegion id edit
  | useBus f =>
    rw [(exec_frame rfl m).2] at h
    exact absurd (hh.symm.trans h) (by decide)

end HostOp

open Exec in
/-- A halted CPU stands still until an interrupt it can take. Every halted machine a host
reaches that is neither faulted nor running and has no request to take is dormant. From a
dormant machine a step is one 4-cycle idle, and a run whose budget exceeds the debt by `a`
idles through `a` in whole idles, its overshoot becoming the debt; a session of steps and
runs, however its budgets are split, is never refused and leaves the machine `n` idles on
with the bookkeeping replaced. `n` idles count `n` fetches in R (counting per fetch, the low
seven bits advance by `n` and bit 7 stays) and `4n` cycles on the odometer and the refresh
clock, and change nothing else: not PC, WZ, the lines, any other register, the fetch map,
fast RAM or the bus. Raising INT while IFF1 is clear leaves the machine dormant. The HALT
line is cleared only by a soft or hard reset, by loading a save state whose HALT line is
clear, or by a step that begins halted and takes a request; such a step is an NMI or INT
acknowledgment, and it pushes the address after the HALT opcode. -/
theorem halted_stands_still {β : Type} [Bus β] :
    (∀ m : Machine β, Reachable m → m.cpu.regs.halted = true → m.cpu.wakePending = false →
      m.cpu.regs.status ≠ .faulted → m.cpu.regs.status ≠ .running → m.Dormant) ∧
    (∀ (m : Machine β) (r : Int64), m.Dormant →
      (Cpu.step r : Exec β (StepResult × Int64)) m =
        .ok (⟨.halted, Timing.halted⟩, r - Timing.halted.toInt64) (m.idle 1)) ∧
    (∀ (m : Machine β) (a : Nat) (b : UInt32), m.Dormant → 0 < a →
      b.toNat = m.cpu.odometer.debt.toNat + a →
      (Cpu.run b : Exec β RunOutcome) m =
        .ok (.ran ((a + 3) / 4 * Timing.halted))
          ((m.idle ((a + 3) / 4)).setBook ((a + 3) / 4 * Timing.halted - a).toUInt64
            (Int64.ofInt (a - ((a + 3) / 4 * Timing.halted : Nat))))) ∧
    (∀ (ops : List (HostOp β)) (m : Machine β), m.Dormant → (∀ op ∈ ops, op.lendsBus = true) →
      (∀ a ∈ (HostOp.replay ops m).1, ∃ v, a = .ok v) ∧
        ∃ n d r, (HostOp.replay ops m).2 = (m.idle n).setBook d r) ∧
    (∀ (m : Machine β) (n : Nat),
      m.idle n = { m with cpu := { m.cpu with
        regs := { m.cpu.regs with r := m.cpu.fetchedR n },
        odometer := m.cpu.odometer.advance (n * Timing.halted),
        refreshClock := m.cpu.refreshClock + n * Timing.halted } } ∧
      (m.cpu.config.refresh = .perFetch →
        (m.idle n).cpu.regs.r &&& 0x80 = m.cpu.regs.r &&& 0x80 ∧
          (m.idle n).cpu.regs.r.toNat % 128 = (m.cpu.regs.r.toNat + n) % 128)) ∧
    (∀ (m : Machine β) (v : UInt8), m.Dormant → m.cpu.regs.iff1 = false →
      (after ((HostOp.raiseInt v : HostOp β).exec m)).Dormant) ∧
    (∀ (op : HostOp β) (m : Machine β), m.cpu.regs.halted = true →
      (after (op.exec m)).cpu.regs.halted = false →
        op = .softReset ∨ op = .hardReset ∨ (∃ snap, op = .restore snap ∧ snap.halted = false) ∨
          ∃ y, op.Visits m y ∧ y.cpu.regs.halted = true ∧ y.control.taken.isSome) ∧
    (∀ (y y' : Machine β) (s : StepResult), y.cpu.regs.halted = true →
      (executeOne : Exec β StepResult) y = .ok s y' → y'.cpu.regs.halted = false →
        (s.kind = .nmi ∨ s.kind = .interrupt) ∧ y.cpu.regs.returnAddress = y.cpu.regs.pc + 1 ∧
          ∃ l w t a, y' = (a.jumped t).counted s.cycles ∧
            (a = y.acknowledging l w ∨
              (readWord (word y.cpu.regs.i y.cpu.regs.intVector) : Exec β UInt16)
                (y.acknowledging l w) = .ok t a)) :=
  ⟨fun _ h hh hw hf hr => h.dormant hh hw hf hr,
   fun _ r h => step_of_dormant h r,
   fun _ _ _ h ha hb => run_of_dormant h ha hb,
   fun ops _ h hl => replay_of_dormant ops hl h,
   fun m n => ⟨Machine.idle_eq m n, fun h => Machine.idle_r h n⟩,
   fun _ v h hi => h.raiseInt hi v,
   fun op _ hh h => HostOp.exec_clears_halted op hh h,
   fun _ _ _ hh h h' => executeOne_wakes hh h h'⟩

open Exec in
/-- The HALT line alone does not make a step idle: a faulted CPU with the line set and no
request to take refuses the step and stays faulted. -/
theorem halted_faulted_refuses_step :
    let m : Machine SimpleBus :=
      { Machine.loaded [0x76] with cpu := { (Machine.loaded [0x76]).cpu with
        regs := { status := .faulted, halted := true } } }
    m.cpu.regs.halted = true ∧ m.cpu.wakePending = false ∧
      (Cpu.step (-5) : Exec SimpleBus (StepResult × Int64)) m = .error (.refused .faulted) m :=
  ⟨rfl, rfl, step_of_enter_error (enter_of_faulted rfl) (-5)⟩

end Z80
