import Z80.Cpu.Execute
import Z80.Cpu.Interrupt
import Z80.Instr.Decode

/-!
# Steps and runs

A step is one unit of work at an instruction boundary: acknowledging an interrupt,
one 4-cycle idle while halted, or one whole instruction, prefixes included. Every step
costs at least four cycles, and its cost is counted on the odometer and the refresh
clock.

`step` performs one step against a caller's budget, with no debt involved. `run`
performs steps until its budget is used up. The last instruction always completes, and
its overshoot becomes debt that the next run pays first; a budget the debt covers
runs nothing (`outOfCycles`). A halted CPU with no interrupt it could take idles
through the rest of the budget in one go, since the request lines cannot change inside
a run.

Both refuse to start on a faulted CPU, and a call that finds the CPU still running
(an earlier one was cut off by a bus fault) faults it.
-/

namespace Z80

/-- How a run ended. -/
inductive RunOutcome where
  /-- Whole steps were executed, for this many cycles; they may exceed the budget by
  less than the last step's cost. -/
  | ran (cycles : Nat)
  /-- Debt covered the whole budget; nothing ran. -/
  | outOfCycles
deriving DecidableEq

/-- The cycles a run executed. -/
def RunOutcome.cycles : RunOutcome → Nat
  | .ran c => c
  | .outOfCycles => 0

namespace Exec

variable {β : Type} [Bus β]

/-- Counts a step's cycles on the odometer and the refresh clock. -/
def account (cycles : Nat) : Exec β Unit :=
  modifyCpu fun c => { c with odometer := c.odometer.advance cycles,
                              refreshClock := c.refreshClock + cycles }

/-- Reads the instruction at PC, moves PC past it and counts its opcode fetches. -/
def fetchInstr : Exec β Decoded := fun m =>
  let c := m.cpu
  let pc := c.regs.pc
  let d := decode fun k => c.fetch.fetch (pc + k.toUInt16)
  let c := { c with regs := { c.regs with pc := pc + d.length.toUInt16 } }
  .ok d { m with cpu := c.refreshBy d.fetches }

/-- One step: an interrupt acknowledgment, a halted idle or one instruction. -/
def executeOne : Exec β StepResult := do
  let r ← match ← serviceInterrupts with
    | some ack => pure ack
    | none =>
      if (← regs).halted then
        modifyCpu Cpu.refresh
        pure ⟨.halted, Timing.halted⟩
      else
        let d ← fetchInstr
        let extra ← d.instr.exec
        pure ⟨.instruction, d.cycles + extra⟩
  account r.cycles
  pure r

/-- Idles while halted through what is left of a budget, in 4-cycle steps; the cycles
spent. -/
def idleHalted (rem : Int64) : Exec β Nat := do
  let idles := (rem.toInt.toNat + Timing.halted - 1) / Timing.halted
  let cycles := idles * Timing.halted
  modifyCpu (·.refreshBy idles)
  account cycles
  pure cycles

/-- Marks the CPU running, or refuses: a faulted CPU stays so, and one found running
becomes faulted. -/
def enter : Exec β Unit := do
  match (← regs).status with
  | .faulted => throw (.refused .faulted)
  | .running =>
    modifyRegs fun rs => { rs with status := .faulted }
    throw (.refused .reentered)
  | _ => modifyRegs fun rs => { rs with status := .running }

/-- Settles the status after a call. -/
def settle : Exec β Unit := modifyCpu Cpu.settle

/-- Runs steps while the remainder `rem` is positive, at most `fuel` of them; returns
the remainder and the cycles executed on top of `cycles`. The remainder is a signed 64-bit
word, as the caller's budget of a single step is. -/
def runLoop : Nat → Int64 → Nat → Exec β (Int64 × Nat)
  | 0, rem, cycles => pure (rem, cycles)
  | fuel + 1, rem, cycles => fun m =>
    if rem ≤ 0 then .ok (rem, cycles) m
    else
      match executeOne m with
      | .ok r m =>
        let rem := rem - r.cycles.toInt64
        let cycles := cycles + r.cycles
        if r.kind = .halted && !m.cpu.wakePending then
          match idleHalted rem m with
          | .ok idle m => runLoop fuel (rem - idle.toInt64) (cycles + idle) m
          | .error e m => .error e m
        else runLoop fuel rem cycles m
      | .error e m => .error e m

end Exec

namespace Cpu

open Exec

variable {β : Type} [Bus β]

/-- One step against the caller's budget, a signed 64-bit word; the step and the budget
left, lowered by the step's cycles with wrapping. -/
def step (budget : Int64) : Exec β (StepResult × Int64) := do
  enter
  let r ← executeOne
  Exec.settle
  pure (r, budget - r.cycles.toInt64)

/-- Steps until `budget` cycles, less the debt, are used. -/
def run (budget : UInt32) : Exec β RunOutcome := do
  enter
  let (odometer, allowance) := (← cpu).odometer.begin budget
  modifyCpu fun c => { c with odometer }
  match allowance with
  | none =>
    Exec.settle
    pure .outOfCycles
  | some rem =>
    -- every step costs at least one cycle, so the fuel outlasts the allowance
    let (rem, cycles) ← runLoop (rem.toInt.toNat + 1) rem 0
    modifyCpu fun c => { c with odometer := c.odometer.finish rem }
    Exec.settle
    pure (.ran cycles)

end Cpu

end Z80
