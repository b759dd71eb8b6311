import Z80.Cpu.Exec
import Z80.Timing

/-!
# Interrupt acknowledgment

Requests are latched whenever the host raises them and sampled at instruction
boundaries only. An NMI is taken whatever the flip-flops say: it clears IFF1, keeps
IFF2 and calls 0066. A maskable interrupt is taken when IFF1 is set and the previous
step did not execute EI; it clears both flip-flops and calls 0038 in mode 1, the
restart address in bits 5-3 of the vector in mode 0, and the word at `I:vector` in
mode 2. Either request is consumed when it is taken.

Acknowledging wakes a halted CPU (PC moves past the HALT opcode), counts an opcode
fetch in R and pushes the return address.
-/

namespace Z80

namespace Exec

variable {β : Type} [Bus β]

/-- The start of an acknowledgment: leave HALT, count the fetch, push PC. -/
def acknowledge : Exec β Unit := do
  modifyCpu fun c =>
    let c := if c.regs.halted then { c with regs := { c.regs with halted := false,
                                                                   pc := c.regs.pc + 1 } }
      else c
    c.refresh
  push (← regs).pc

/-- Takes a pending interrupt if one is acceptable at this boundary, consuming the EI
shadow either way. -/
def serviceInterrupts : Exec β (Option StepResult) := do
  let afterEi := (← cpu).eiShadow
  modifyCpu fun c => { c with eiShadow := false }
  let rs ← regs
  if rs.lines.nmi then
    modifyRegs fun rs => { rs with lines := { rs.lines with nmi := false } }
    acknowledge
    modifyRegs fun rs => { rs with iff1 := false, pc := 0x66, wz := 0x66 }
    return some ⟨.nmi, Timing.nmi⟩
  if !rs.lines.int || !rs.iff1 || afterEi then return none
  modifyRegs fun rs => { rs with lines := { rs.lines with int := false } }
  acknowledge
  modifyRegs fun rs => { rs with iff1 := false, iff2 := false }
  let (target, cycles) ← match InterruptMode.ofUInt8 rs.im with
    | .im0 => pure ((rs.intVector &&& 0x38).toUInt16, Timing.intIm0)
    | .im1 => pure (0x38, Timing.intIm1)
    | .im2 => do pure (← readWord (word rs.i rs.intVector), Timing.intIm2)
  modifyRegs fun rs => { rs with pc := target, wz := target }
  return some ⟨.interrupt, cycles⟩

end Exec

end Z80
