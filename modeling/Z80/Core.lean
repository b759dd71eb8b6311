import Z80.Cpu.Step
import Z80.Ticks

/-!
# Processor cores for a host scheduler

`Core σ` is what a host scheduler needs of a processor: run it for a cycle budget
against a bus, read its program counter and registers, drive its interrupt lines,
reset it and read the cycles it has counted. The Z80 `Cpu` is one: its run reports
the cycles executed (none when debt covered the budget), its registers carry the live
R, and its reset is the hard reset.
-/

namespace Z80

/-- A processor a host can schedule. -/
class Core (σ : Type) where
  /-- The register file the core reports. -/
  RegisterFile : Type
  /-- Runs for a budget: the cycles executed, or why the run stopped. -/
  run {β : Type} [Bus β] : σ → β → UInt32 → Except Abort Nat × σ × β
  /-- The program counter. -/
  pc : σ → Nat
  /-- The registers as the host sees them. -/
  registers : σ → RegisterFile
  /-- Whether the core waits on HALT. -/
  isHalted : σ → Bool
  /-- Raises the maskable interrupt with a vector. -/
  interrupt : σ → UInt8 → σ
  /-- Withdraws the maskable interrupt. -/
  clearInterrupt : σ → σ
  /-- Raises the non-maskable interrupt. -/
  nmi : σ → σ
  /-- Power-on reset. -/
  reset : σ → σ
  /-- Cycles counted since the count was last cleared. -/
  elapsed : σ → Ticks

instance : Core Cpu where
  RegisterFile := Registers
  run cpu bus budget :=
    match (Cpu.run budget).run ⟨cpu, bus⟩ with
    | .ok outcome m => (.ok outcome.cycles, m.cpu, m.bus)
    | .error e m => (.error e, m.cpu, m.bus)
  pc cpu := cpu.regs.pc.toNat
  registers cpu := cpu.registers
  isHalted cpu := cpu.regs.halted
  interrupt cpu v := cpu.raiseInt v
  clearInterrupt cpu := cpu.clearInt
  nmi cpu := cpu.raiseNmi
  reset cpu := cpu.hardReset
  elapsed cpu := cpu.odometer.total

end Z80
