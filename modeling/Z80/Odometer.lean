import Z80.Ticks

/-!
# Cycle budget bookkeeping

Instructions always run to completion, so the last instruction of a run can overshoot
its budget. The overshoot is kept as `debt` and taken out of the next budget, together
with any stall cycles the host charges; this keeps the cycles executed in step with the
cycles handed out. `total` counts every cycle executed or charged since it was last
cleared, and `remaining` is what the last run left of its budget (negative after an
overshoot).

A run opens with `begin`: a budget the debt covers runs nothing and only lowers the
debt; otherwise the debt is paid and the rest is the run's allowance. It closes with
`finish`, which turns a negative remainder into debt.

The count and the debt are unsigned 64-bit words and the remainder a signed one, with the
wrapping arithmetic of those words: stall charges past 2^64 owed cycles wrap the debt.
-/

namespace Z80

/-- Cycles executed, owed and left over: the count wraps modulo 2^64, the debt is a 64-bit
word and the remainder a signed 64-bit word. -/
structure Odometer where
  total : Ticks := Ticks.zero
  debt : UInt64 := 0
  remaining : Int64 := 0
deriving DecidableEq

namespace Odometer

/-- Stall cycles charged by the host: counted, and owed by the next run. The debt wraps
modulo 2^64. -/
def charge (o : Odometer) (cycles : UInt32) : Odometer :=
  { o with total := o.total + Ticks.ofUInt32 cycles, debt := o.debt + cycles.toUInt64 }

/-- Opens a run with `budget`. Returns the allowance, or `none` when the debt covers
the whole budget. -/
def begin (o : Odometer) (budget : UInt32) : Odometer × Option Int64 :=
  let budget := budget.toUInt64
  if budget ≤ o.debt then ({ o with debt := o.debt - budget, remaining := 0 }, none)
  else
    let allowance := (budget - o.debt).toInt64
    ({ o with debt := 0, remaining := allowance }, some allowance)

/-- Counts executed cycles. -/
def advance (o : Odometer) (cycles : Nat) : Odometer :=
  { o with total := o.total + ⟨cycles.toUInt64⟩ }

/-- Closes a run that left `rem` of its allowance; an overshoot becomes debt. -/
def finish (o : Odometer) (rem : Int64) : Odometer :=
  { o with remaining := rem, debt := (min rem.toInt 0).natAbs.toUInt64 }

/-- Clears the count of cycles; debt and remainder stay. -/
def clear (o : Odometer) : Odometer :=
  { o with total := Ticks.zero }

end Odometer

end Z80
