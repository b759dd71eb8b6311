import Z80.Instr.Basic

/-!
# Register operands

How the register operands of instructions read and write the register file: the
8-bit registers (the index-register halves are the bytes of IX and IY), the 16-bit
registers, and the branch conditions on F.
-/

namespace Z80

namespace Registers

/-- The value of an 8-bit register operand. -/
def reg8 (rs : Registers) : Reg8 → UInt8
  | .b => rs.b | .c => rs.c | .d => rs.d | .e => rs.e
  | .h => rs.h | .l => rs.l | .a => rs.a
  | .ixh => hiByte rs.ix | .ixl => loByte rs.ix
  | .iyh => hiByte rs.iy | .iyl => loByte rs.iy

/-- Stores into an 8-bit register operand. -/
def setReg8 (rs : Registers) (r : Reg8) (v : UInt8) : Registers :=
  match r with
  | .b => { rs with b := v } | .c => { rs with c := v }
  | .d => { rs with d := v } | .e => { rs with e := v }
  | .h => { rs with h := v } | .l => { rs with l := v }
  | .a => { rs with a := v }
  | .ixh => { rs with ix := word v (loByte rs.ix) }
  | .ixl => { rs with ix := word (hiByte rs.ix) v }
  | .iyh => { rs with iy := word v (loByte rs.iy) }
  | .iyl => { rs with iy := word (hiByte rs.iy) v }

/-- The value of a 16-bit register operand. -/
def reg16 (rs : Registers) : Reg16 → UInt16
  | .bc => rs.bc | .de => rs.de | .hl => rs.hl | .sp => rs.sp
  | .af => rs.af | .ix => rs.ix | .iy => rs.iy

/-- Stores into a 16-bit register operand. -/
def setReg16 (rs : Registers) (rr : Reg16) (v : UInt16) : Registers :=
  match rr with
  | .bc => rs.setBC v | .de => rs.setDE v | .hl => rs.setHL v
  | .sp => { rs with sp := v } | .af => rs.setAF v
  | .ix => { rs with ix := v } | .iy => { rs with iy := v }

/-- Whether a branch condition holds under the flags. -/
def holds (rs : Registers) : Cond → Bool
  | .nz => rs.f &&& Flag.z == 0
  | .z => rs.f &&& Flag.z != 0
  | .nc => rs.f &&& Flag.c == 0
  | .c => rs.f &&& Flag.c != 0
  | .po => rs.f &&& Flag.pv == 0
  | .pe => rs.f &&& Flag.pv != 0
  | .p => rs.f &&& Flag.s == 0
  | .m => rs.f &&& Flag.s != 0

/-- Whether the instruction's condition holds; an unconditional one always does. -/
def taken (rs : Registers) : Option Cond → Bool
  | none => true
  | some cc => rs.holds cc

end Registers

end Z80
