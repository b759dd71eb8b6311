import Z80.Cpu.Exec
import Z80.Registers.Operand

/-!
# Operand access

An 8-bit operand is first resolved to a location, a register or an address, and then
read or written there, so that a read-modify-write instruction computes its address
once. Resolving `(IX+d)` latches the effective address in WZ, which is how the
indexed instructions leave it; `(HL)` leaves WZ alone.
-/

namespace Z80

/-- Where an 8-bit operand lives. -/
inductive Loc where
  | reg (r : Reg8)
  | mem (addr : UInt16)
deriving DecidableEq

namespace Exec

variable {β : Type} [Bus β]

/-- Resolves an operand. -/
def locate : Operand → Exec β Loc
  | .reg r => pure (.reg r)
  | .memHL => do pure (.mem (← regs).hl)
  | .indexed x d => do
    let rs ← regs
    let addr := displace (match x with | .ix => rs.ix | .iy => rs.iy) d
    setWZ addr
    pure (.mem addr)

/-- Reads a location. -/
def load : Loc → Exec β UInt8
  | .reg r => do pure ((← regs).reg8 r)
  | .mem addr => readByte addr

/-- Writes a location. -/
def store : Loc → UInt8 → Exec β Unit
  | .reg r, v => modifyRegs fun rs => rs.setReg8 r v
  | .mem addr, v => writeByte addr v

/-- Reads an 8-bit source. -/
def source : Source → Exec β UInt8
  | .imm n => pure n
  | .operand o => do load (← locate o)

/-- Sets A and F from an ALU result. -/
def setAFrom (r : Alu.Result) : Exec β Unit :=
  modifyRegs fun rs => { rs with a := r.value, f := r.flags }

end Exec

end Z80
