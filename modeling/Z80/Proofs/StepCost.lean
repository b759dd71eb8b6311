import Z80.Proofs.BlockRepeat
import Z80.Proofs.Lifecycle

/-!
# What a step costs, and why runs end

An instruction costs its table cost (`Decoded.cycles`) plus what `Instr.exec` returns, at
most 25 cycles in all (`decode_cost`), and every step costs between 4 and 25 cycles
(`executeOne_cycles`). The bound is reached by DD or FD, ED and a repeating block opcode
that goes round, 4 + 4 + 12 + 5 (`executeOne_indexedBlock`).

A run loops while its remainder is positive, and every iteration takes at least four cycles
off it; the halted fast path uses the whole remainder at once. So the loop never takes more
than the remainder divided by four, rounded up, iterations: any fuel from there on gives the
same result (`runLoop_fuel`), and a loop that finishes has used its remainder up
(`runLoop_remainder_nonpos`). A single step consults no budget: it executes exactly one step
whatever the budget passed in, and takes its cost off the budget as a signed 64-bit word,
wrapping below the word's least value (`step_eq`). `stepCost_bounds` collects these facts.
-/

open Std.Do

set_option mvcgen.warning false

namespace Z80

/-! ## One step -/

namespace Exec

variable {β : Type} [Bus β]

omit [Bus β] in
/-- The instruction at PC is DD or FD, ED and a block opcode: the prefix is dropped and the
cost is that of the block instruction plus four. -/
theorem nextInstr_indexedBlock {x : Machine β} {f : BlockOp} {up repeats : Bool}
    (h0 : x.cpu.opcodes 0 = 0xDD ∨ x.cpu.opcodes 0 = 0xFD) (h1 : x.cpu.opcodes 1 = 0xED)
    (h2 : x.cpu.opcodes 2 = f.opcode up repeats) :
    x.cpu.nextInstr = ⟨.block f up repeats, 3, 3, 20⟩ := by
  rw [Cpu.nextInstr_eq]
  rcases h0 with h0 | h0 <;> simp only [decode, h0, h1, h2] <;>
    cases f <;> cases up <;> cases repeats <;> rfl

/-- The dearest step: DD or FD, ED and a repeating block opcode that goes round costs
4 + 4 + 12 + 5 = 25 cycles. -/
theorem executeOne_indexedBlock {x y : Machine β} {f : BlockOp} {up : Bool} {n : Nat}
    (hn : x.control.taken = none) (hh : x.cpu.regs.halted = false)
    (h0 : x.cpu.opcodes 0 = 0xDD ∨ x.cpu.opcodes 0 = 0xFD) (h1 : x.cpu.opcodes 1 = 0xED)
    (h2 : x.cpu.opcodes 2 = f.opcode up true)
    (hs : (Instr.block f up false).exec x.fetched = .ok n y) (hg : f.goesRound y.cpu.regs = true) :
    (executeOne : Exec β StepResult) x = .ok ⟨.instruction, 25⟩ (y.rewound.counted 25) := by
  have hs' : (Exec.block f up false : Exec β Nat) x.fetched = .ok n y := hs
  rw [executeOne_of_instruction hn hh, nextInstr_indexedBlock h0 h1 h2]
  simp only [Instr.exec, block_repeats, bind_apply, hs', elim_ok, elim_regs, hg, if_true]
  rfl

/-! ## Runs -/

/-- The run loop takes at most its remainder divided by four, rounded up, iterations: every
fuel from there on gives the same result. -/
theorem runLoop_fuel {fuel fuel' : Nat} {rem : Int64} (c : Nat) (x : Machine β)
    (hf : (rem.toInt.toNat + 3) / 4 ≤ fuel) (hf' : (rem.toInt.toNat + 3) / 4 ≤ fuel') :
    (runLoop fuel rem c : Exec β (Int64 × Nat)) x = runLoop fuel' rem c x := by
  induction fuel generalizing fuel' rem c x with
  | zero =>
    have hr : rem ≤ 0 := Int64.nonpos_iff.mpr (by omega)
    rw [runLoop_of_nonpos hr, runLoop_of_nonpos hr]
  | succ fuel ih =>
    by_cases hr : rem ≤ 0
    · rw [runLoop_of_nonpos hr, runLoop_of_nonpos hr]
    have hpos := Int64.pos_iff.mp (Int64.not_le.mp hr)
    obtain ⟨fuel', rfl⟩ : ∃ k, fuel' = k + 1 := ⟨fuel' - 1, by omega⟩
    simp only [runLoop, if_neg hr]
    rcases hs : (executeOne : Exec β StepResult) x with ⟨s, x₁⟩ | ⟨e, x₁⟩
    · -- the step took at least four cycles off the positive remainder, without wrapping
      have hcost := executeOne_cycles hs
      have hsub := Int64.toInt_sub_cost (Int64.not_le.mp hr) hcost.2
      simp only
      split
      · rw [idleHalted_apply]
        simp only
        have hle := Int64.sub_idles_nonpos (rem - s.cycles.toInt64)
        rw [runLoop_of_nonpos hle, runLoop_of_nonpos hle]
      · exact ih _ _ (by omega) (by omega)
    · rfl

/-- A run loop that finishes has used its remainder up: the fuel never cuts it short. -/
theorem runLoop_remainder_nonpos {fuel : Nat} {rem rem' : Int64} {c c' : Nat} {x x' : Machine β}
    (hf : (rem.toInt.toNat + 3) / 4 ≤ fuel)
    (h : (runLoop fuel rem c : Exec β (Int64 × Nat)) x = .ok (rem', c') x') : rem' ≤ 0 := by
  induction fuel generalizing rem c x with
  | zero =>
    have hr : rem ≤ 0 := Int64.nonpos_iff.mpr (by omega)
    rw [runLoop_of_nonpos hr] at h
    cases h
    exact hr
  | succ fuel ih =>
    by_cases hr : rem ≤ 0
    · rw [runLoop_of_nonpos hr] at h
      cases h
      exact hr
    simp only [runLoop, if_neg hr] at h
    rcases hs : (executeOne : Exec β StepResult) x with ⟨s, x₁⟩ | ⟨e, x₁⟩ <;> rw [hs] at h
    · have hcost := executeOne_cycles hs
      have hsub := Int64.toInt_sub_cost (Int64.not_le.mp hr) hcost.2
      have hpos := Int64.pos_iff.mp (Int64.not_le.mp hr)
      simp only at h
      split at h
      · rw [idleHalted_apply] at h
        simp only at h
        have hle := Int64.sub_idles_nonpos (rem - s.cycles.toInt64)
        rw [runLoop_of_nonpos hle] at h
        cases h
        exact hle
      · exact ih (by omega) h
    · cases h

/-- A run from an idle or halted CPU whose debt is below the budget is its loop over the budget
less the debt, with no more iterations than that divided by four, rounded up. -/
theorem run_of_lt_fuel {m : Machine β} (hs : m.cpu.regs.status = .idle ∨ m.cpu.regs.status = .halted)
    {b : UInt32} (hd : m.cpu.odometer.debt < b.toUInt64) :
    (Cpu.run b : Exec β RunOutcome) m =
      elim ((runLoop ((b.toNat - m.cpu.odometer.debt.toNat + 3) / 4)
          (b.toUInt64 - m.cpu.odometer.debt).toInt64 0 : Exec β (Int64 × Nat)) m.entered)
        (fun p x' => .ok (.ran p.2) (x'.settled.setBook (min p.1.toInt 0).natAbs.toUInt64 p.1))
        (fun e x' => .error e (x'.setBook 0 (b.toUInt64 - m.cpu.odometer.debt).toInt64)) := by
  -- the allowance is the budget less the debt, as a number
  have hA := Odometer.toInt_allowance hd
  rw [run_of_lt hs hd, @runLoop_fuel β _ ((b.toUInt64 - m.cpu.odometer.debt).toInt64.toInt.toNat + 1)
    ((b.toNat - m.cpu.odometer.debt.toNat + 3) / 4) (b.toUInt64 - m.cpu.odometer.debt).toInt64 0
    m.entered (by omega) (by omega)]

/-- A single step consults no budget: from an idle or halted CPU it executes exactly one step,
whatever the budget passed in, and takes its cycles off that budget. -/
theorem step_eq {m : Machine β} (hs : m.cpu.regs.status = .idle ∨ m.cpu.regs.status = .halted)
    (r : Int64) :
    (Cpu.step r : Exec β (StepResult × Int64)) m =
      match (executeOne : Exec β StepResult) m.entered with
      | .ok s x' => .ok (s, r - s.cycles.toInt64) x'.settled
      | .error e x' => .error e x' :=
  step_of_enter (enter_apply hs) r

end Exec

open Exec in
/-- Every step costs between 4 and 25 cycles, so runs end. A step that finishes costs at
least four cycles and at most 25, and 25 is reached: DD or FD, ED and a repeating block opcode
that goes round. The table entries of the prefix bytes are never charged, since every
decoded instruction costs at least four cycles. A run from an idle or halted CPU with debt
below its budget is its loop with no more iterations than the budget less the debt divided by
four, rounded up, and a loop that finishes has used its remainder up. A single step from an
idle or halted CPU executes exactly one instruction, acknowledgment or idle whatever the
budget passed in, zero or less included, and on a bus that answers every read it finishes.
It takes its cost off the budget as a signed 64-bit word: exactly, unless the budget lies
within 25 of the word's least value, where the difference wraps. A faulted CPU refuses a
step as faulted, and one found running refuses it as reentered, executing nothing. -/
theorem stepCost_bounds {β : Type} [Bus β] :
    (∀ (m m' : Machine β) (s : StepResult), (executeOne : Exec β StepResult) m = .ok s m' →
      4 ≤ s.cycles ∧ s.cycles ≤ 25) ∧
    (∀ (x y : Machine β) (f : BlockOp) (up : Bool) (n : Nat), x.control.taken = none →
      x.cpu.regs.halted = false → (x.cpu.opcodes 0 = 0xDD ∨ x.cpu.opcodes 0 = 0xFD) →
      x.cpu.opcodes 1 = 0xED → x.cpu.opcodes 2 = f.opcode up true →
      (Instr.block f up false).exec x.fetched = .ok n y → f.goesRound y.cpu.regs = true →
      (executeOne : Exec β StepResult) x = .ok ⟨.instruction, 25⟩ (y.rewound.counted 25)) ∧
    (∀ code : Nat → UInt8, 4 ≤ (decode code).cycles) ∧
    (∀ (m : Machine β) (b : UInt32), (m.cpu.regs.status = .idle ∨ m.cpu.regs.status = .halted) →
      m.cpu.odometer.debt < b.toUInt64 →
      (Cpu.run b : Exec β RunOutcome) m =
        elim ((runLoop ((b.toNat - m.cpu.odometer.debt.toNat + 3) / 4)
            (b.toUInt64 - m.cpu.odometer.debt).toInt64 0 : Exec β (Int64 × Nat)) m.entered)
          (fun p x' => .ok (.ran p.2) (x'.settled.setBook (min p.1.toInt 0).natAbs.toUInt64 p.1))
          (fun e x' => .error e (x'.setBook 0 (b.toUInt64 - m.cpu.odometer.debt).toInt64))) ∧
    (∀ (fuel : Nat) (rem rem' : Int64) (c c' : Nat) (x x' : Machine β),
      (rem.toInt.toNat + 3) / 4 ≤ fuel →
      (runLoop fuel rem c : Exec β (Int64 × Nat)) x = .ok (rem', c') x' → rem' ≤ 0) ∧
    (∀ (m : Machine β) (r : Int64), (m.cpu.regs.status = .idle ∨ m.cpu.regs.status = .halted) →
      (Cpu.step r : Exec β (StepResult × Int64)) m =
        match (executeOne : Exec β StepResult) m.entered with
        | .ok s x' => .ok (s, r - s.cycles.toInt64) x'.settled
        | .error e x' => .error e x') ∧
    (∀ (P : β → Prop), Bus.Reliable P → ∀ (m : Machine β) (r : Int64),
      (m.cpu.regs.status = .idle ∨ m.cpu.regs.status = .halted) → P m.bus →
      ∃ s m', (Cpu.step r : Exec β (StepResult × Int64)) m = .ok (s, r - s.cycles.toInt64) m' ∧
        4 ≤ s.cycles ∧ s.cycles ≤ 25 ∧
        (-2 ^ 63 + 25 ≤ r.toInt → (r - s.cycles.toInt64).toInt = r.toInt - s.cycles)) ∧
    (∀ (m : Machine β) (r : Int64), m.cpu.regs.status = .faulted →
      (Cpu.step r : Exec β (StepResult × Int64)) m = .error (.refused .faulted) m) ∧
    (∀ (m : Machine β) (r : Int64), m.cpu.regs.status = .running →
      (Cpu.step r : Exec β (StepResult × Int64)) m = .error (.refused .reentered) m.faulted) := by
  refine ⟨fun _ _ _ h => executeOne_cycles h,
    fun _ _ _ _ _ hn hh h0 h1 h2 hs hg => executeOne_indexedBlock hn hh h0 h1 h2 hs hg,
    four_le_decode_cycles, fun _ _ hs hd => run_of_lt_fuel hs hd,
    fun _ _ _ _ _ _ _ hf h => runLoop_remainder_nonpos hf h, fun _ r hs => step_eq hs r,
    ?_, fun _ r h => step_of_enter_error (enter_of_faulted h) r,
    fun _ r h => step_of_enter_error (enter_of_running h) r⟩
  intro P hP m r hs hb
  -- on such a bus the step's one execution finishes
  obtain ⟨s, x', hx, -⟩ := exists_ok_of_triple (executeOne_reliable hP) (m := m.entered) hb
  have hcost := executeOne_cycles hx
  refine ⟨s, x'.settled, ?_, hcost.1, hcost.2, fun hr => ?_⟩
  · rw [step_eq hs, hx]
  · -- far enough above the least value, the cost comes off without wrapping
    have hlt := r.toInt_lt
    exact Int64.toInt_sub_toInt64 (by omega) (by omega)

open Exec in
/-- A step does not always execute a step: a CPU left running, as a bus trap leaves it,
refuses the next step whatever its budget. -/
theorem step_refused_while_running :
    ¬ ∃ (s : StepResult) (r : Int64) (m' : Machine SimpleBus),
      (Cpu.step (-5) : Exec SimpleBus (StepResult × Int64))
        ((Machine.loaded [0x76]).mapRegs fun rs => { rs with status := .running }) = .ok (s, r) m' := by
  rintro ⟨s, r, m', h⟩
  rw [step_of_enter_error (enter_of_running rfl)] at h
  cases h

end Z80
