import Z80.Cpu.Operand
import Z80.Alu.Block
import Z80.Timing

/-!
# Block instructions

One execution of a block instruction moves, compares, inputs or outputs one byte and
steps HL (and DE) forward or backward. The repeating forms then rewind PC onto their
ED prefix, so that the same instruction runs again at the next step, for as long as
their counter is non-zero (and, for CPIR and CPDR, no match was found); each repeat
costs `Timing.blockRepeat` more and leaves WZ one past the rewound PC. CPIR and CPDR pay
`Timing.blockCompareExit` when they stop.

The counter is BC for LD and CP, and B for IN and OUT. INI and IND write the byte
read from port BC before B is decremented; OUTI and OUTD decrement B before the port
address goes out.
-/

namespace Z80

namespace Exec

variable {β : Type} [Bus β]

/-- Rewinds PC onto the ED prefix so the instruction runs again. -/
def repeatBlock : Exec β Nat := do
  modifyRegs fun rs => { rs with pc := rs.pc - 2, wz := rs.pc - 2 + 1 }
  pure Timing.blockRepeat

/-- LDI, LDD, LDIR, LDDR. -/
def blockLoad (up repeats : Bool) : Exec β Nat := do
  let rs ← regs
  let v ← readByte rs.hl
  writeByte rs.de v
  let bc := rs.bc - 1
  modifyRegs fun rs =>
    let rs := ((rs.setHL (stepBy up rs.hl)).setDE (stepBy up rs.de)).setBC bc
    ({ rs with f := Alu.blockTransferFlags (bc != 0) rs.f }).setXY
      (Alu.blockTransferXY v rs.a)
  if repeats && bc != 0 then repeatBlock else pure 0

/-- CPI, CPD, CPIR, CPDR. -/
def blockCompare (up repeats : Bool) : Exec β Nat := do
  let rs ← regs
  let v ← readByte rs.hl
  let bc := rs.bc - 1
  modifyRegs fun rs =>
    { (rs.setHL (stepBy up rs.hl)).setBC bc with
      wz := stepBy up rs.wz, f := Alu.blockCompareFlags rs.a v (bc != 0) rs.f }
  if repeats then
    if bc != 0 && v != rs.a then repeatBlock else pure Timing.blockCompareExit
  else pure 0

/-- INI, IND, INIR, INDR. -/
def blockIn (up repeats : Bool) : Exec β Nat := do
  let rs ← regs
  let port := rs.bc
  let v ← input port
  writeByte rs.hl v
  let b := rs.b - 1
  let k := v.toNat + (if up then rs.c + 1 else rs.c - 1).toNat
  modifyRegs fun rs =>
    { rs.setHL (stepBy up rs.hl) with
      wz := stepBy up port, b, f := Alu.blockIoFlags v b k }
  if repeats && b != 0 then repeatBlock else pure 0

/-- OUTI, OUTD, OTIR, OTDR. -/
def blockOut (up repeats : Bool) : Exec β Nat := do
  let rs ← regs
  let v ← readByte rs.hl
  let b := rs.b - 1
  let port := word b rs.c
  modifyRegs fun rs => { rs with b }
  output port v
  let hl := stepBy up rs.hl
  let k := v.toNat + (loByte hl).toNat
  modifyRegs fun rs => { rs.setHL hl with wz := stepBy up port, f := Alu.blockIoFlags v b k }
  if repeats && b != 0 then repeatBlock else pure 0

/-- One execution of a block instruction; the extra cycles it costs. -/
def block (op : BlockOp) (up repeats : Bool) : Exec β Nat :=
  match op with
  | .load => blockLoad up repeats
  | .compare => blockCompare up repeats
  | .input => blockIn up repeats
  | .output => blockOut up repeats

end Exec

end Z80
