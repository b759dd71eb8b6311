import Z80.Hex
import Z80.Word
import Z80.Flags
import Z80.Timing
import Z80.Reg
import Z80.Error
import Z80.Registers.Basic
import Z80.Registers.Access
import Z80.Ticks
import Z80.Odometer
import Z80.FetchMap
import Z80.Config
import Z80.Bus.Basic
import Z80.Bus.Simple
import Z80.Bus.Monitor
import Z80.Alu.Basic
import Z80.Alu.Shift
import Z80.Alu.Wide
import Z80.Alu.Accumulator
import Z80.Alu.Block
import Z80.Instr.Basic
import Z80.Instr.Decode
import Z80.Registers.Operand
import Z80.Cpu.Basic
import Z80.Cpu.Exec
import Z80.Cpu.Operand
import Z80.Cpu.Block
import Z80.Cpu.Execute
import Z80.Cpu.Interrupt
import Z80.Cpu.Step
import Z80.Core
import Z80.Proofs.Hoare
import Z80.Proofs.Control
import Z80.Proofs.Cost
import Z80.Proofs.Step
import Z80.Proofs.Bookkeeping
import Z80.Proofs.Halted
import Z80.Proofs.RunLoop
import Z80.Proofs.Session
import Z80.Proofs.FlipFlops
import Z80.Proofs.Interrupts
import Z80.Proofs.Refresh
import Z80.Proofs.RefreshMode
import Z80.Proofs.IndexPrefix
import Z80.Proofs.Lifecycle
import Z80.Proofs.FastRam
import Z80.Proofs.FastRamSession
import Z80.Proofs.WideArithmetic
import Z80.Proofs.Fetch
import Z80.Proofs.BlockRepeat
import Z80.Proofs.PageTable
import Z80.Proofs.StepCost
import Z80.Proofs.HaltFrame
import Z80.Proofs.LiveRefresh
import Z80.Proofs.SaveState
import Z80.Proofs.RegisterAccess
import Z80.Proofs.IndexRegisters
import Z80.Proofs.DecimalAdjust
import Z80.Proofs.RefreshClock
