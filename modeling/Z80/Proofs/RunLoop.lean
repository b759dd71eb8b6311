import Z80.Proofs.Halted
import Z80.Bus.Simple

/-!
# A run is a loop of single steps

A host can drive the CPU in two ways: one `run` with a budget, or its own loop of
single steps, `r := budget - debt; while r > 0 { step(&mut r) }`. `StepLoop` is that
loop, run to its end. `run_eq_stepLoop` proves that the two end in the same machine:
the same registers and HALT line, fetch map and fast RAM, bus, odometer count and
refresh clock. The run returns the cycles of the loop's steps and turns what the loop
leaves of the budget into debt.

Three facts carry the proof.

* A run keeps the CPU `running` from one step to the next, while a single step enters
  from a settled status and settles again. Entering a settled machine gives back the
  running one (`enter_settled`), so the step a host takes executes exactly the run's
  next step (`step_of_enter`).
* The run works on a machine whose bookkeeping (debt and remainder) it replaced when it
  began, and steps never look at the bookkeeping (`runLoop_setBook`).
* The halted fast path charges the idles that the loop takes one by one
  (`stepLoop_idle`).

`runLoop_stepLoop` puts them together for any bus: a run loop that finishes is a step
loop. On a bus that answers every read the run loop always finishes
(`runLoop_ok_of_reliable`), since every step takes at least four cycles off the budget
and the fuel outlasts the budget.
-/

namespace Z80

/-! ## Budgets in a signed 64-bit word

A budget and the remainder of a run are signed 64-bit words, lowered with wrapping. A
step is taken only from a positive budget and costs at most 25 cycles, so the
subtraction never wraps where the loop uses it. -/

namespace Int64

/-- A word is positive exactly when its value is. -/
theorem pos_iff {r : Int64} : 0 < r ↔ 0 < r.toInt := by
  simp [Int64.lt_iff_toInt_lt]

theorem nonpos_iff {r : Int64} : r ≤ 0 ↔ r.toInt ≤ 0 := by
  rw [Int64.le_iff_toInt_le, Int64.toInt_zero]

/-- Taking `c` cycles off a budget gives the true difference whenever that fits in the
word. -/
theorem toInt_sub_toInt64 {r : Int64} {c : Nat} (h₁ : -2 ^ 63 ≤ r.toInt - c)
    (h₂ : r.toInt - c < 2 ^ 63) : (r - c.toInt64).toInt = r.toInt - c := by
  rw [Int64.toInt_sub, Nat.toInt64, Int64.toInt_ofNat', Int.sub_bmod_bmod]
  exact Int.bmod_eq_of_le (by simpa using h₁) (by simpa using h₂)

/-- A step's cost taken off a positive budget never wraps. -/
theorem toInt_sub_cost {r : Int64} {c : Nat} (hr : 0 < r) (hc : c ≤ 25) :
    (r - c.toInt64).toInt = r.toInt - c := by
  have hpos := pos_iff.mp hr
  have hlt := r.toInt_lt
  exact toInt_sub_toInt64 (by omega) (by omega)

/-- The halted fast path rounds the remainder up to whole idles, so it leaves nothing
positive. -/
theorem sub_idles_nonpos (r : Int64) :
    r - ((r.toInt.toNat + 3) / 4 * Timing.halted).toInt64 ≤ 0 := by
  have hlt := r.toInt_lt
  have hle := r.le_toInt
  rw [nonpos_iff, toInt_sub_toInt64] <;> simp only [Timing.halted] <;> omega

end Int64

/-! ## The host's loop -/

/-- The host's loop of single steps, `while r > 0 { step(&mut r) }`, run to its end:
from machine `m` with budget `r` it takes `steps` and leaves machine `m'` with budget
`r'`. -/
inductive StepLoop {β : Type} [Bus β] :
    Machine β → Int64 → List StepResult → Machine β → Int64 → Prop where
  /-- The budget is used up: the loop stops. -/
  | done {m : Machine β} {r : Int64} : r ≤ 0 → StepLoop m r [] m r
  /-- Budget is left: one step, then the rest of the loop. -/
  | step {m m₁ m' : Machine β} {r r₁ r' : Int64} {s : StepResult} {steps : List StepResult} :
      0 < r → (Cpu.step r : Exec β (StepResult × Int64)) m = .ok (s, r₁) m₁ →
      StepLoop m₁ r₁ steps m' r' → StepLoop m r (s :: steps) m' r'

namespace StepLoop

variable {β : Type} [Bus β]

/-- The loop is a function of its start: it has one run. -/
theorem deterministic {r r₁ r₂ : Int64} {m m₁ m₂ : Machine β} {steps₁ steps₂ : List StepResult}
    (h₁ : StepLoop m r steps₁ m₁ r₁) (h₂ : StepLoop m r steps₂ m₂ r₂) :
    steps₁ = steps₂ ∧ r₁ = r₂ ∧ m₁ = m₂ := by
  induction h₁ generalizing steps₂ with
  | done hr =>
    cases h₂ with
    | done _ => exact ⟨rfl, rfl, rfl⟩
    | step hr' _ _ => exact absurd hr (Int64.not_le.mpr hr')
  | step hr hs _ ih =>
    cases h₂ with
    | done hr' => exact absurd hr' (Int64.not_le.mpr hr)
    | step _ hs' rest =>
      rw [hs] at hs'
      obtain ⟨⟨rfl, rfl⟩, rfl⟩ := (EStateM.Result.ok.injEq _ _ _ _).mp hs' |>.imp Prod.mk.inj id
      obtain ⟨rfl, rfl, rfl⟩ := ih rest
      exact ⟨rfl, rfl, rfl⟩

/-- The loop stops only once the budget is used up. -/
theorem final_nonpos {r r' : Int64} {m m' : Machine β} {steps : List StepResult}
    (h : StepLoop m r steps m' r') : r' ≤ 0 := by
  induction h with
  | done hr => exact hr
  | step _ _ _ ih => exact ih

end StepLoop

/-! ## Entering and settling -/

namespace Machine

variable {β : Type}

/-- The machine with its status set to `running`, as a call leaves it on entry. -/
def entered (m : Machine β) : Machine β :=
  { m with cpu := { m.cpu with regs := { m.cpu.regs with status := .running } } }

/-- The machine after a call settles its status. -/
def settled (x : Machine β) : Machine β := { x with cpu := x.cpu.settle }

theorem settled_entered {x : Machine β} (hx : x.cpu.regs.status = .running) :
    x.settled.entered = x := by
  simp only [settled, entered, Cpu.settle]
  rw [← hx]

/-- Between calls the status tells the HALT line, `halted` when it is set and `idle`
otherwise: settling changes nothing. -/
def Settled (m : Machine β) : Prop := m.settled = m

theorem Settled.stable {m : Machine β} (h : m.Settled) :
    m.cpu.regs.status = .idle ∨ m.cpu.regs.status = .halted := by
  rw [← h]
  simp only [settled, Cpu.settle]
  split <;> simp

theorem settled_settled (x : Machine β) : x.settled.Settled := rfl

/-- Entering a settled machine and settling it again changes nothing. -/
theorem Settled.entered_settled {m : Machine β} (h : m.Settled) : m.entered.settled = m := h

theorem settled_setBook (x : Machine β) (d : UInt64) (r : Int64) :
    (x.setBook d r).settled = x.settled.setBook d r := rfl

end Machine

namespace Exec

variable {β : Type} [Bus β]

omit [Bus β] in
/-- A call enters from a settled status and marks the CPU running. -/
theorem enter_apply {m : Machine β}
    (hs : m.cpu.regs.status = .idle ∨ m.cpu.regs.status = .halted) :
    (enter : Exec β Unit) m = .ok () m.entered := by
  rcases hs with hs | hs <;> simp [enter, bind, EStateM.bind, regs, modifyRegs, modifyCpu, hs,
    Machine.entered]

omit [Bus β] in
/-- Entering a settled machine gives back the running one. -/
theorem enter_settled {x : Machine β} (hx : x.cpu.regs.status = .running) :
    (enter : Exec β Unit) x.settled = .ok () x := by
  have hs : x.settled.cpu.regs.status = .idle ∨ x.settled.cpu.regs.status = .halted := by
    simp only [Machine.settled, Cpu.settle]
    split <;> simp
  rw [enter_apply hs, Machine.settled_entered hx]

/-- A single step from a machine that enters as `x` executes the step from `x`, and
settles unless the step aborts. -/
theorem step_of_enter {y x : Machine β} (h : (enter : Exec β Unit) y = .ok () x) (r : Int64) :
    (Cpu.step r : Exec β (StepResult × Int64)) y =
      match (executeOne : Exec β StepResult) x with
      | .ok s x' => .ok (s, r - s.cycles.toInt64) x'.settled
      | .error e x' => .error e x' := by
  simp only [Cpu.step, bind_apply, h, elim_ok]
  cases (executeOne : Exec β StepResult) x <;> rfl

end Exec

/-! ## What a step keeps -/

theorem Instr.control_status (i : Instr) (c : Control) : (i.control c).status = c.status := by
  cases i <;> rfl

namespace Control

theorem sample_status (c : Control) : c.sample.status = c.status := by
  unfold sample
  split <;> rfl

theorem step_status (c : Control) (i : Instr) : (c.step i).status = c.status := by
  unfold step
  split
  · rw [Instr.control_status, sample_status]
  · exact sample_status c

/-- A step is a halted idle exactly when no request is taken and the HALT line is set. -/
theorem stepKind_eq_halted {c : Control} : c.stepKind = .halted ↔ c.taken = none ∧ c.halted = true := by
  constructor
  · intro h
    have hn : c.taken = none := by
      cases ht : c.taken with
      | none => rfl
      | some k =>
        rcases taken_eq_some ht with rfl | rfl <;> simp [stepKind, ht] at h
    refine ⟨hn, ?_⟩
    rw [stepKind_of_taken_none hn] at h
    cases hc : c.halted <;> simp_all
  · rintro ⟨hn, hh⟩
    simp [stepKind_of_taken_none hn, hh]

/-- A halted idle keeps the HALT line and consumes the EI shadow. -/
theorem step_of_stepKind_halted {c : Control} (h : c.stepKind = .halted) (i : Instr) :
    c.step i = { c with eiShadow := false } ∧ c.halted = true := by
  obtain ⟨hn, hh⟩ := stepKind_eq_halted.mp h
  refine ⟨?_, hh⟩
  simp [step, h, sample, hn]

/-- Without a wake-up pending, no request is taken. -/
theorem taken_of_not_wakePending {β : Type} {x : Machine β}
    (h : x.cpu.wakePending = false) : x.control.taken = none := by
  simp only [Cpu.wakePending, Bool.or_eq_false_iff, Bool.and_eq_false_iff] at h
  simp [taken, Machine.control, h.1]
  grind

end Control

namespace Exec

variable {β : Type} [Bus β]

theorem executeOne_status {x x' : Machine β} {s : StepResult}
    (h : (executeOne : Exec β StepResult) x = .ok s x') :
    x'.cpu.regs.status = x.cpu.regs.status := by
  have hc := congrArg Control.status (executeOne_ok h).2.2
  simpa [Machine.control, Control.count, Control.step_status] using hc

/-- After a halted idle the HALT line is still set and the EI shadow is clear. -/
theorem executeOne_halted {x x' : Machine β} {s : StepResult}
    (h : (executeOne : Exec β StepResult) x = .ok s x') (hk : s.kind = .halted) :
    x'.cpu.regs.halted = true ∧ x'.cpu.eiShadow = false := by
  obtain ⟨hs, -, hc⟩ := executeOne_ok h
  obtain ⟨hstep, hh⟩ := Control.step_of_stepKind_halted (hs ▸ hk) x.cpu.nextInstr.instr
  rw [hstep] at hc
  have h₁ := congrArg Control.halted hc
  have h₂ := congrArg Control.eiShadow hc
  simp only [Control.count] at h₁ h₂
  exact ⟨h₁.trans hh, h₂⟩

/-- A halted idle costs four cycles. -/
theorem executeOne_halted_cycles {x x' : Machine β} {s : StepResult}
    (h : (executeOne : Exec β StepResult) x = .ok s x') (hk : s.kind = .halted) :
    s.cycles = Timing.halted := by
  obtain ⟨hn, hh⟩ := Control.stepKind_eq_halted.mp ((executeOne_ok h).1 ▸ hk)
  rw [executeOne_of_halted hh hn] at h
  cases h
  rfl

/-! ## The run loop ignores the bookkeeping -/

section Book

variable (d : UInt64) (r : Int64)

omit [Bus β] in
theorem idle_setBook (x : Machine β) (n : Nat) :
    (x.setBook d r).idle n = (x.idle n).setBook d r := by
  simp only [Machine.idle, Cpu.refreshBy_eq]
  rfl

/-- The run loop neither reads nor writes the run bookkeeping. -/
theorem runLoop_setBook (fuel : Nat) (rem : Int64) (c : Nat) (x : Machine β) :
    (runLoop fuel rem c : Exec β (Int64 × Nat)) (x.setBook d r) =
      mapState (·.setBook d r) (runLoop fuel rem c x) := by
  induction fuel generalizing rem c x with
  | zero => rfl
  | succ fuel ih =>
    simp only [runLoop]
    split
    · rfl
    · rw [executeOne_setBook]
      cases (executeOne : Exec β StepResult) x with
      | error e x₁ => rfl
      | ok s x₁ =>
        have hw : (x₁.setBook d r).cpu.wakePending = x₁.cpu.wakePending := rfl
        simp only [mapState_ok, hw]
        split
        · simp only [idleHalted_apply, idle_setBook, ih]
        · exact ih _ _ _

end Book

/-! ## The run loop against the step loop -/

theorem runLoop_of_nonpos {rem : Int64} (h : rem ≤ 0) (fuel c : Nat) (x : Machine β) :
    (runLoop fuel rem c : Exec β (Int64 × Nat)) x = .ok (rem, c) x := by
  cases fuel with
  | zero => rfl
  | succ fuel => simp [runLoop, h]

/-- While halted with no wake-up pending, the host's loop takes one 4-cycle idle after
another until its budget is used up: the idles the run loop charges at once. -/
theorem stepLoop_idle (n : Nat) :
    ∀ (r : Int64) (x : Machine β), (r.toInt.toNat + 3) / 4 = n →
      x.cpu.regs.status = .running → x.cpu.regs.halted = true → x.cpu.eiShadow = false →
      x.cpu.wakePending = false →
      StepLoop x.settled r (List.replicate n ⟨.halted, Timing.halted⟩) (x.idle n).settled
        (r - (n * Timing.halted).toInt64) := by
  induction n with
  | zero =>
    intro r x hn _ _ _ _
    have hr : r ≤ 0 := Int64.nonpos_iff.mpr (by omega)
    have hr' : r - (0 * Timing.halted).toInt64 = r := by simp [Nat.toInt64]
    rw [Machine.idle_zero, List.replicate_zero, hr']
    exact .done hr
  | succ n ih =>
    intro r x hn hx hh he hw
    have hr : 0 < r := Int64.pos_iff.mpr (by omega)
    have hstep : (Cpu.step r : Exec β (StepResult × Int64)) x.settled =
        .ok (⟨.halted, Timing.halted⟩, r - Timing.halted.toInt64) (x.idle 1).settled := by
      rw [step_of_enter (enter_settled hx),
        executeOne_idle hh (Control.taken_of_not_wakePending hw) he]
    -- an idle takes four off a positive budget without wrapping
    have hn' : ((r - Timing.halted.toInt64).toInt.toNat + 3) / 4 = n := by
      rw [Int64.toInt_sub_cost hr (by decide)]
      simp only [Timing.halted]
      omega
    -- one idle changes R and the counts, nothing the loop's conditions read
    have hrest := ih _ (x.idle 1) hn'
      (by simp [hx]) (by simp [hh]) (by simp [he]) (by simpa [Cpu.wakePending] using hw)
    rw [Machine.idle_add, Nat.add_comm 1 n] at hrest
    have hsum : r - Timing.halted.toInt64 - (n * Timing.halted).toInt64 =
        r - ((n + 1) * Timing.halted).toInt64 := by
      rw [Int64.sub_sub, Nat.succ_mul, Nat.add_comm (n * Timing.halted)]
      simp
    rw [hsum] at hrest
    exact .step hr hstep hrest

/-- A run loop that finishes is the host's loop of single steps: same steps, same
machine once settled, same budget left. -/
theorem runLoop_stepLoop {fuel : Nat} {rem : Int64} {c : Nat} {x y x' : Machine β}
    {rem' : Int64} {c' : Nat} (hf : rem.toInt.toNat < fuel) (hr : 0 < rem)
    (hx : x.cpu.regs.status = .running) (hy : (enter : Exec β Unit) y = .ok () x)
    (h : (runLoop fuel rem c : Exec β (Int64 × Nat)) x = .ok (rem', c') x') :
    ∃ steps, StepLoop y rem steps x'.settled rem' ∧
      c' = c + (steps.map (·.cycles)).sum := by
  induction fuel generalizing rem c x y with
  | zero => omega
  | succ fuel ih =>
    simp only [runLoop, if_neg (Int64.not_le.mpr hr)] at h
    cases hs : (executeOne : Exec β StepResult) x with
    | error e x₁ => rw [hs] at h; cases h
    | ok s x₁ =>
      rw [hs] at h
      have hstep := step_of_enter hy rem
      rw [hs] at hstep
      have hx₁ : x₁.cpu.regs.status = .running := (executeOne_status hs).trans hx
      have hcost := executeOne_cycles hs
      simp only at h
      split at h
      · -- the halted fast path: the rest of the budget in idles, which the host takes
        -- one by one
        rename_i hidle
        simp only [Bool.and_eq_true, decide_eq_true_eq, Bool.not_eq_true'] at hidle
        obtain ⟨hh, he⟩ := executeOne_halted hs hidle.1
        have hidles := stepLoop_idle _ (rem - s.cycles.toInt64) x₁ rfl hx₁ hh he hidle.2
        rw [idleHalted_apply] at h
        simp only at h
        rw [runLoop_of_nonpos hidles.final_nonpos] at h
        cases h
        refine ⟨s :: List.replicate (((rem - s.cycles.toInt64).toInt.toNat + 3) / 4)
          ⟨.halted, Timing.halted⟩, .step hr hstep hidles, ?_⟩
        simp only [List.map_cons, List.sum_cons, List.map_replicate, List.sum_replicate_nat,
          Nat.add_assoc]
      · -- an ordinary step, then the rest of the loop
        by_cases hr₁ : rem - s.cycles.toInt64 ≤ 0
        · rw [runLoop_of_nonpos hr₁] at h
          cases h
          exact ⟨[s], .step hr hstep (.done hr₁), by simp⟩
        · have hsub := Int64.toInt_sub_cost hr hcost.2
          have hpos := Int64.pos_iff.mp hr
          obtain ⟨steps, hloop, hc⟩ :=
            ih (by omega) (Int64.not_le.mp hr₁) hx₁ (enter_settled hx₁) h
          refine ⟨s :: steps, .step hr hstep hloop, ?_⟩
          simp only [hc, List.map_cons, List.sum_cons, Nat.add_assoc]

/-- The run loop stops early only on a refused bus read. -/
theorem runLoop_error {fuel : Nat} {rem : Int64} {c : Nat} {x x' : Machine β} {e : Abort}
    (h : (runLoop fuel rem c : Exec β (Int64 × Nat)) x = .error e x') : ∃ a, e = .busFault a := by
  induction fuel generalizing rem c x with
  | zero => cases h
  | succ fuel ih =>
    simp only [runLoop] at h
    split at h
    · cases h
    · cases hs : (executeOne : Exec β StepResult) x with
      | error e' x₁ =>
        rw [hs] at h
        cases h
        exact (executeOne_error hs).2
      | ok s x₁ =>
        rw [hs] at h
        simp only at h
        split at h
        · rw [idleHalted_apply] at h
          exact ih h
        · exact ih h

/-- A single step from a settled status stops early only on a refused bus read. -/
theorem step_error {m m' : Machine β} {r : Int64} {e : Abort}
    (hs : m.cpu.regs.status = .idle ∨ m.cpu.regs.status = .halted)
    (h : (Cpu.step r : Exec β (StepResult × Int64)) m = .error e m') : ∃ a, e = .busFault a := by
  rw [step_of_enter (enter_apply hs)] at h
  cases hx : (executeOne : Exec β StepResult) m.entered with
  | ok s x' => rw [hx] at h; cases h
  | error e' x' =>
    rw [hx] at h
    cases h
    exact (executeOne_error hx).2

/-- On a bus that answers every read, the run loop finishes as long as its fuel outlasts
the budget, and the bus stays in the family. -/
theorem runLoop_ok_of_reliable {P : β → Prop} (hP : Bus.Reliable P) {fuel : Nat} {rem : Int64}
    (hf : rem.toInt.toNat < fuel) (c : Nat) {x : Machine β} (hx : P x.bus) :
    ∃ rem' c' x', (runLoop fuel rem c : Exec β (Int64 × Nat)) x = .ok (rem', c') x' ∧
      P x'.bus := by
  induction fuel generalizing rem c x with
  | zero => omega
  | succ fuel ih =>
    by_cases hr : rem ≤ 0
    · exact ⟨rem, c, x, runLoop_of_nonpos hr _ _ _, hx⟩
    · obtain ⟨s, x₁, hs, hx₁⟩ := exists_ok_of_triple (executeOne_reliable hP) hx
      have hcost := executeOne_cycles hs
      simp only [runLoop, if_neg hr, hs]
      split
      · -- the idles use up the budget, so the loop stops after them
        rw [idleHalted_apply]
        exact ⟨_, _, _, runLoop_of_nonpos (Int64.sub_idles_nonpos _) _ _ _, hx₁⟩
      · -- each step takes at least four cycles off a positive budget
        have hsub := Int64.toInt_sub_cost (Int64.not_le.mp hr) hcost.2
        have hpos := Int64.pos_iff.mp (Int64.not_le.mp hr)
        exact ih (by omega) _ hx₁

/-! ## What the host's loop counts -/

omit [Bus β] in
/-- A call that gets in found a settled status, and marks the CPU running. -/
theorem enter_ok {m x : Machine β} (h : (enter : Exec β Unit) m = .ok () x) :
    x = m.entered ∧ (m.cpu.regs.status = .idle ∨ m.cpu.regs.status = .halted) := by
  cases hs : m.cpu.regs.status <;>
    simp [enter, bind, EStateM.bind, regs, modifyRegs, modifyCpu, hs, throw, throwThe,
      MonadExceptOf.throw, EStateM.throw, Machine.entered] at h ⊢ <;>
    exact h.symm

theorem Control.step_odometer (c : Control) (i : Instr) : (c.step i).odometer = c.odometer := by
  unfold Control.step Control.sample
  split <;> split <;> (try cases i) <;> rfl

/-- A single step that finishes is the step of the machine marked running, settled, and
lowers the budget by its cycles. -/
theorem executeOne_of_step {m m' : Machine β} {r r' : Int64} {s : StepResult}
    (h : (Cpu.step r : Exec β (StepResult × Int64)) m = .ok (s, r') m') :
    ∃ x', (executeOne : Exec β StepResult) m.entered = .ok s x' ∧ m' = x'.settled ∧
      r' = r - s.cycles.toInt64 := by
  cases he : (enter : Exec β Unit) m with
  | error e x => simp [Cpu.step, bind_apply, he] at h
  | ok u x =>
    obtain ⟨rfl, -⟩ := enter_ok he
    rw [step_of_enter he] at h
    cases hx : (executeOne : Exec β StepResult) m.entered with
    | error e x' => rw [hx] at h; cases h
    | ok s' x' =>
      rw [hx] at h
      cases h
      exact ⟨x', rfl, rfl, rfl⟩

/-- A single step that finishes lowers the budget by its cycles, counts them on the
odometer and settles; a halted idle costs four cycles. -/
theorem step_ok {m m' : Machine β} {r r' : Int64} {s : StepResult}
    (h : (Cpu.step r : Exec β (StepResult × Int64)) m = .ok (s, r') m') :
    r' = r - s.cycles.toInt64 ∧ m'.cpu.odometer = m.cpu.odometer.advance s.cycles ∧ m'.Settled ∧
      (s.kind = .halted → s.cycles = Timing.halted) := by
  obtain ⟨x', hx, rfl, rfl⟩ := executeOne_of_step h
  refine ⟨rfl, ?_, Machine.settled_settled _, executeOne_halted_cycles hx⟩
  have hc := congrArg Control.odometer (executeOne_ok hx).2.2
  simpa [Machine.control, Control.count, Control.step_odometer, Machine.settled,
    Cpu.settle, Machine.entered] using hc

/-- A single step that finishes costs at least four cycles and at most 25. -/
theorem step_cycles {m m' : Machine β} {r r' : Int64} {s : StepResult}
    (h : (Cpu.step r : Exec β (StepResult × Int64)) m = .ok (s, r') m') :
    4 ≤ s.cycles ∧ s.cycles ≤ 25 := by
  obtain ⟨x', hx, -, -⟩ := executeOne_of_step h
  exact executeOne_cycles hx

end Exec

namespace StepLoop

variable {β : Type} [Bus β]

/-- Each step settles, so a loop from a settled machine ends settled. -/
theorem settled {r r' : Int64} {m m' : Machine β} {steps : List StepResult}
    (h : StepLoop m r steps m' r') (hm : m.Settled) : m'.Settled := by
  induction h with
  | done _ => exact hm
  | step _ hs _ ih => exact ih (Exec.step_ok hs).2.2.1

/-- The loop's steps take their cycles off the budget, and the word never wraps: each
step starts from a positive budget and costs at most 25 cycles. -/
theorem budget_eq {m m' : Machine β} {r r' : Int64} {steps : List StepResult}
    (h : StepLoop m r steps m' r') : r'.toInt = r.toInt - (steps.map (·.cycles)).sum := by
  induction h with
  | done _ => simp
  | step hr hs _ ih =>
    have hsub := Int64.toInt_sub_cost hr (Exec.step_cycles hs).2
    rw [ih, (Exec.step_ok hs).1, hsub]
    simp only [List.map_cons, List.sum_cons, Int.natCast_add]
    omega

/-- The loop counts its steps' cycles on the odometer, and nothing else of it changes. -/
theorem odometer_eq {m m' : Machine β} {r r' : Int64} {steps : List StepResult}
    (h : StepLoop m r steps m' r') :
    m'.cpu.odometer = m.cpu.odometer.advance (steps.map (·.cycles)).sum := by
  induction h with
  | done _ => simp
  | step _ hs _ ih =>
    rw [ih, (Exec.step_ok hs).2.1, Odometer.advance_add]
    simp

/-- A loop that takes a step leaves less than the cost of its last step unspent below
zero, and less than four when that step was a halted idle. -/
theorem last_cost {m m' : Machine β} {r r' : Int64} {steps : List StepResult}
    (h : StepLoop m r steps m' r') (hr : 0 < r) :
    ∃ last, steps.getLast? = some last ∧ -r'.toInt < last.cycles ∧
      (last.kind = .halted → -r'.toInt < Timing.halted) := by
  induction h with
  | done hle => exact absurd hle (Int64.not_le.mpr hr)
  | @step m m₁ m' r r₁ r' s steps hr hs rest ih =>
    obtain ⟨hr₁, -, -, hcost⟩ := Exec.step_ok hs
    by_cases hpos : 0 < r₁
    · obtain ⟨last, hl, hlt, hh⟩ := ih hpos
      exact ⟨last, by rw [List.getLast?_cons, hl]; rfl, hlt, hh⟩
    · -- the step used up the budget, so the loop stopped after it, having taken its cost
      -- off a positive budget
      cases rest with
      | done _ =>
        have hsub := Int64.toInt_sub_cost hr (Exec.step_cycles hs).2
        have hpos' := Int64.pos_iff.mp hr
        rw [hr₁, hsub]
        refine ⟨s, rfl, by omega, fun hk => ?_⟩
        have := hcost hk
        omega
      | step hpos' _ _ => exact absurd hpos' hpos

end StepLoop

/-! ## Runs -/

namespace Odometer

/-- A budget the debt covers opens no allowance: the debt is lowered by the budget and the
remainder cleared. -/
theorem begin_of_le {o : Odometer} {b : UInt32} (hb : b.toUInt64 ≤ o.debt) :
    o.begin b = ({ o with debt := o.debt - b.toUInt64, remaining := 0 }, none) := by
  simp [begin, hb]

/-- A budget above the debt pays the debt and opens the rest as the allowance. -/
theorem begin_of_lt {o : Odometer} {b : UInt32} (hd : o.debt < b.toUInt64) :
    o.begin b = ({ o with debt := 0, remaining := (b.toUInt64 - o.debt).toInt64 },
      some (b.toUInt64 - o.debt).toInt64) := by
  simp [begin, UInt64.not_le.mpr hd]

/-- The debt and a budget compare as the numbers they hold. -/
theorem lt_budget_iff {d : UInt64} {b : UInt32} : d < b.toUInt64 ↔ d.toNat < b.toNat := by
  rw [UInt64.lt_iff_toNat_lt, UInt32.toNat_toUInt64]

theorem budget_le_iff {d : UInt64} {b : UInt32} : b.toUInt64 ≤ d ↔ b.toNat ≤ d.toNat := by
  rw [UInt64.le_iff_toNat_le, UInt32.toNat_toUInt64]

/-- The overshoot of a run, stored as the debt, reads back unwrapped. -/
theorem toNat_overshoot (r : Int64) : (-r.toInt).toNat.toUInt64.toNat = (-r.toInt).toNat := by
  have hmin := r.le_toInt
  simp only [Nat.toUInt64_eq, UInt64.toNat_ofNat']
  omega

/-- The allowance is the budget less the debt: a 32-bit budget less the debt fits in the
signed word. -/
theorem toInt_allowance {d : UInt64} {b : UInt32} (hd : d < b.toUInt64) :
    (b.toUInt64 - d).toInt64.toInt = b.toNat - d.toNat := by
  have hle : d ≤ b.toUInt64 := UInt64.le_of_lt hd
  have hsub : (b.toUInt64 - d).toNat = b.toNat - d.toNat := by
    rw [UInt64.toNat_sub_of_le _ _ hle, UInt32.toNat_toUInt64]
  have hlt := b.toNat_lt
  have hd' := lt_budget_iff.mp hd
  have hsmall : (b.toUInt64 - d).toNat < 2 ^ 63 := by omega
  have heq : b.toUInt64 - d = UInt64.ofNat (b.toUInt64 - d).toNat := by simp
  rw [heq, UInt64.toInt64_ofNat', Int64.toInt_ofNat_of_lt (by simpa using hsmall), hsub]
  omega

theorem allowance_pos {d : UInt64} {b : UInt32} (hd : d < b.toUInt64) :
    0 < (b.toUInt64 - d).toInt64 := by
  have hd' := lt_budget_iff.mp hd
  rw [Int64.pos_iff, toInt_allowance hd]
  omega

/-- What a run leaves below zero becomes the debt. -/
theorem natAbs_min_zero {r : Int64} (hr : r ≤ 0) : (min r.toInt 0).natAbs = (-r.toInt).toNat := by
  have h := Int64.nonpos_iff.mp hr
  omega

end Odometer

namespace Exec

variable {β : Type} [Bus β]

/-- A run whose budget the debt covers, from any machine it enters: the debt is lowered by
the budget, the remainder cleared and the status settled. -/
theorem run_of_le_entered {m : Machine β}
    (hs : m.cpu.regs.status = .idle ∨ m.cpu.regs.status = .halted) {b : UInt32}
    (hb : b.toUInt64 ≤ m.cpu.odometer.debt) :
    (Cpu.run b : Exec β RunOutcome) m =
      .ok .outOfCycles (m.setBook (m.cpu.odometer.debt - b.toUInt64) 0).settled := by
  have hbegin : m.entered.cpu.odometer.begin b =
      ({ m.entered.cpu.odometer with debt := m.cpu.odometer.debt - b.toUInt64, remaining := 0 },
        none) :=
    Odometer.begin_of_le hb
  simp only [Cpu.run, bind_apply, enter_apply hs, elim_ok, elim_cpu, hbegin, elim_modifyCpu,
    setBook_fold, Exec.settle, pure_apply]
  rfl

/-- A run whose budget the debt covers executes nothing: it lowers the debt by the
budget and leaves a remainder of zero. -/
theorem run_of_le {m : Machine β} (hm : m.Settled) {b : UInt32}
    (hb : b.toUInt64 ≤ m.cpu.odometer.debt) :
    (Cpu.run b : Exec β RunOutcome) m =
      .ok .outOfCycles (m.setBook (m.cpu.odometer.debt - b.toUInt64) 0) := by
  rw [run_of_le_entered hm.stable hb, Machine.settled_setBook, hm]

/-- A run whose budget exceeds the debt pays the debt and runs its loop on the rest of
the budget; when the loop ends, what it left becomes the remainder and what it overshot
the debt. -/
theorem run_of_lt {m : Machine β} (hs : m.cpu.regs.status = .idle ∨ m.cpu.regs.status = .halted)
    {b : UInt32} (hd : m.cpu.odometer.debt < b.toUInt64) :
    (Cpu.run b : Exec β RunOutcome) m =
      elim ((runLoop ((b.toUInt64 - m.cpu.odometer.debt).toInt64.toInt.toNat + 1)
          (b.toUInt64 - m.cpu.odometer.debt).toInt64 0 : Exec β (Int64 × Nat)) m.entered)
        (fun p x' => .ok (.ran p.2) (x'.settled.setBook (min p.1.toInt 0).natAbs.toUInt64 p.1))
        (fun e x' => .error e (x'.setBook 0 (b.toUInt64 - m.cpu.odometer.debt).toInt64)) := by
  have hbegin : m.entered.cpu.odometer.begin b =
      ({ m.entered.cpu.odometer with
          debt := 0, remaining := (b.toUInt64 - m.cpu.odometer.debt).toInt64 },
        some (b.toUInt64 - m.cpu.odometer.debt).toInt64) :=
    Odometer.begin_of_lt hd
  simp only [Cpu.run, bind_apply, enter_apply hs, elim_ok, elim_cpu, hbegin, elim_modifyCpu,
    setBook_fold, runLoop_setBook, elim_mapState, Exec.settle, Odometer.finish, setBook_cpu,
    pure_apply]
  cases (runLoop ((b.toUInt64 - m.cpu.odometer.debt).toInt64.toInt.toNat + 1)
    (b.toUInt64 - m.cpu.odometer.debt).toInt64 0 : Exec β (Int64 × Nat)) m.entered <;> rfl

/-- A run that finishes, from any machine it enters, did one of two things. When the debt
covered the budget it executed nothing and only lowered the debt by the budget, leaving a
remainder of zero. Otherwise it executed the steps of the host's loop over the rest of
the budget and turned what the loop left into the remainder, and its negation into the
debt. -/
theorem run_ok_of_status {m m' : Machine β} {b : UInt32} {o : RunOutcome}
    (hs : m.cpu.regs.status = .idle ∨ m.cpu.regs.status = .halted)
    (h : (Cpu.run b : Exec β RunOutcome) m = .ok o m') :
    (b.toUInt64 ≤ m.cpu.odometer.debt ∧ o = .outOfCycles ∧
        m' = (m.setBook (m.cpu.odometer.debt - b.toUInt64) 0).settled) ∨
      (m.cpu.odometer.debt < b.toUInt64 ∧ ∃ steps m'' r,
        StepLoop m (b.toUInt64 - m.cpu.odometer.debt).toInt64 steps m'' r ∧
        o = .ran (steps.map (·.cycles)).sum ∧ m' = m''.setBook (-r.toInt).toNat.toUInt64 r) := by
  by_cases hb : b.toUInt64 ≤ m.cpu.odometer.debt
  · rw [run_of_le_entered hs hb] at h
    cases h
    exact .inl ⟨hb, rfl, rfl⟩
  · have hd := UInt64.not_le.mp hb
    rw [run_of_lt hs hd] at h
    rcases hloop : (runLoop ((b.toUInt64 - m.cpu.odometer.debt).toInt64.toInt.toNat + 1)
        (b.toUInt64 - m.cpu.odometer.debt).toInt64 0 : Exec β (Int64 × Nat)) m.entered with
      ⟨⟨r, X⟩, x'⟩ | ⟨e, x'⟩
    · rw [hloop] at h
      cases h
      obtain ⟨steps, hsteps, hX⟩ := runLoop_stepLoop (Nat.lt_succ_self _)
        (Odometer.allowance_pos hd) rfl (enter_apply hs) hloop
      refine .inr ⟨hd, steps, x'.settled, r, hsteps, by rw [hX, Nat.zero_add], ?_⟩
      rw [Odometer.natAbs_min_zero hsteps.final_nonpos]
    · rw [hloop] at h
      cases h

/-- A run from a settled machine that finishes did one of two things: it executed nothing
and only lowered the debt, or it executed the host's loop over the budget less the
debt. -/
theorem run_ok {m m' : Machine β} {b : UInt32} {o : RunOutcome} (hm : m.Settled)
    (h : (Cpu.run b : Exec β RunOutcome) m = .ok o m') :
    (b.toUInt64 ≤ m.cpu.odometer.debt ∧ o = .outOfCycles ∧
        m' = m.setBook (m.cpu.odometer.debt - b.toUInt64) 0) ∨
      (m.cpu.odometer.debt < b.toUInt64 ∧ ∃ steps m'' r,
        StepLoop m (b.toUInt64 - m.cpu.odometer.debt).toInt64 steps m'' r ∧
        o = .ran (steps.map (·.cycles)).sum ∧ m' = m''.setBook (-r.toInt).toNat.toUInt64 r) := by
  rcases run_ok_of_status hm.stable h with ⟨hb, ho, rfl⟩ | hran
  · exact .inl ⟨hb, ho, by rw [Machine.settled_setBook, hm]⟩
  · exact .inr hran

/-- A run from a settled machine stops early only on a refused bus read. -/
theorem run_error {m m' : Machine β} {b : UInt32} {e : Abort} (hm : m.Settled)
    (h : (Cpu.run b : Exec β RunOutcome) m = .error e m') : ∃ a, e = .busFault a := by
  by_cases hb : b.toUInt64 ≤ m.cpu.odometer.debt
  · rw [run_of_le hm hb] at h
    cases h
  · rw [run_of_lt hm.stable (UInt64.not_le.mp hb)] at h
    rcases hloop : (runLoop ((b.toUInt64 - m.cpu.odometer.debt).toInt64.toInt.toNat + 1)
        (b.toUInt64 - m.cpu.odometer.debt).toInt64 0 : Exec β (Int64 × Nat)) m.entered with
      ⟨p, x'⟩ | ⟨e', x'⟩
    · rw [hloop] at h
      cases h
    · rw [hloop] at h
      cases h
      exact runLoop_error hloop

/-- The plain bus answers every read. -/
theorem SimpleBus.reliable : Bus.Reliable (fun _ : SimpleBus => True) where
  answers _ _ _ := rfl
  read _ _ _ := trivial
  write _ _ _ _ := trivial
  input _ _ _ := trivial
  output _ _ _ _ := trivial

/-- The open bus answers every read, with FF. -/
theorem OpenBus.reliable : Bus.Reliable (fun _ : OpenBus => True) where
  answers _ _ _ := rfl
  read _ _ _ := trivial
  write _ _ _ _ := trivial
  input _ _ _ := trivial
  output _ _ _ _ := trivial

/-- A run from a settled CPU whose debt is less than the budget ends in the machine the
host's loop of single steps ends in, started from the same machine with the budget less
the debt. The run returns the cycles of the loop's steps, and what the loop leaves of
the budget (zero or less) becomes the remainder, its negation the debt. -/
theorem run_eq_stepLoop {P : β → Prop} (hP : Bus.Reliable P) {m : Machine β} {b : UInt32}
    (hs : m.cpu.regs.status = .idle ∨ m.cpu.regs.status = .halted)
    (hd : m.cpu.odometer.debt < b.toUInt64) (hbus : P m.bus) :
    ∃ steps m' r, StepLoop m (b.toUInt64 - m.cpu.odometer.debt).toInt64 steps m' r ∧
      (Cpu.run b : Exec β RunOutcome) m =
        .ok (.ran (steps.map (·.cycles)).sum) (m'.setBook (-r.toInt).toNat.toUInt64 r) := by
  obtain ⟨r, X, x', hloop, -⟩ :=
    runLoop_ok_of_reliable hP (Nat.lt_succ_self _) 0 (show P m.entered.bus from hbus)
  obtain ⟨steps, hsteps, hX⟩ := runLoop_stepLoop (Nat.lt_succ_self _)
    (Odometer.allowance_pos hd) rfl (enter_apply hs) hloop
  refine ⟨steps, x'.settled, r, hsteps, ?_⟩
  rw [run_of_lt hs hd, hloop, elim_ok, hX, Nat.zero_add,
    Odometer.natAbs_min_zero hsteps.final_nonpos]

/-- A CPU fresh from power-on on a plain bus, run for ten cycles. -/
theorem run_eq_stepLoop_poweredOn :
    ∃ steps m' r,
      StepLoop
        ⟨{ regs := {}, fetch := FetchMap.empty 0x76, fastRam := none, odometer := {},
           config := {}, eiShadow := false, refreshClock := 0, rWrittenAt := 0 },
         SimpleBus.empty⟩ 10 steps m' r ∧
      (Cpu.run 10 : Exec SimpleBus RunOutcome)
          ⟨{ regs := {}, fetch := FetchMap.empty 0x76, fastRam := none, odometer := {},
             config := {}, eiShadow := false, refreshClock := 0, rWrittenAt := 0 },
           SimpleBus.empty⟩ =
        .ok (.ran (steps.map (·.cycles)).sum) (m'.setBook (-r.toInt).toNat.toUInt64 r) :=
  @run_eq_stepLoop SimpleBus _ _ SimpleBus.reliable _ 10 (Or.inl rfl) (by decide) trivial

end Exec

end Z80
