import Z80.Registers.Basic
import Z80.Error

/-!
# Host access to the register file

`read` and `write` reach a register by its `Reg` name: a pair through its halves,
a byte register through the low byte of the value, a flip-flop as 0 or 1, the mode
as its number and the request lines as a bitmask. `get` and `set` are the checked
forms a host uses: both are refused while the CPU is running, and `set` refuses a
value above the register's `maxValue`, leaving the file unchanged.

Resets: `hardReset` is power-on (everything zero and idle); `softReset` is the RESET
pin, which clears PC, I, R, the flip-flops, the mode, the HALT line and the requests,
sets SP to FFFF and leaves a fault in place.
-/

namespace Z80

namespace Registers

/-- The value of a register, widened to a word. -/
def read (rs : Registers) : Reg → UInt16
  | .af => rs.af
  | .bc => rs.bc
  | .de => rs.de
  | .hl => rs.hl
  | .ix => rs.ix
  | .iy => rs.iy
  | .sp => rs.sp
  | .pc => rs.pc
  | .afAlt => rs.afAlt
  | .bcAlt => rs.bcAlt
  | .deAlt => rs.deAlt
  | .hlAlt => rs.hlAlt
  | .a => rs.a.toUInt16
  | .f => rs.f.toUInt16
  | .b => rs.b.toUInt16
  | .c => rs.c.toUInt16
  | .d => rs.d.toUInt16
  | .e => rs.e.toUInt16
  | .h => rs.h.toUInt16
  | .l => rs.l.toUInt16
  | .i => rs.i.toUInt16
  | .r => rs.r.toUInt16
  | .iff1 => if rs.iff1 then 1 else 0
  | .iff2 => if rs.iff2 then 1 else 0
  | .im => rs.im.toUInt16
  | .intVector => rs.intVector.toUInt16
  | .intLine => rs.lines.bits.toUInt16
  | .wz => rs.wz

/-- Stores `v` into a register; byte registers take its low byte. -/
def write (rs : Registers) (reg : Reg) (v : UInt16) : Registers :=
  let byte := v.toUInt8
  match reg with
  | .af => rs.setAF v
  | .bc => rs.setBC v
  | .de => rs.setDE v
  | .hl => rs.setHL v
  | .ix => { rs with ix := v }
  | .iy => { rs with iy := v }
  | .sp => { rs with sp := v }
  | .pc => { rs with pc := v }
  | .afAlt => { rs with afAlt := v }
  | .bcAlt => { rs with bcAlt := v }
  | .deAlt => { rs with deAlt := v }
  | .hlAlt => { rs with hlAlt := v }
  | .a => { rs with a := byte }
  | .f => { rs with f := byte }
  | .b => { rs with b := byte }
  | .c => { rs with c := byte }
  | .d => { rs with d := byte }
  | .e => { rs with e := byte }
  | .h => { rs with h := byte }
  | .l => { rs with l := byte }
  | .i => { rs with i := byte }
  | .r => { rs with r := byte }
  | .iff1 => { rs with iff1 := v != 0 }
  | .iff2 => { rs with iff2 := v != 0 }
  | .im => { rs with im := min byte 2 }
  | .intVector => { rs with intVector := byte }
  | .intLine => { rs with lines := Lines.ofBits byte }
  | .wz => { rs with wz := v }

/-- A register reads back what was written to it, for every value it can hold. -/
theorem read_write (rs : Registers) (reg : Reg) (v : UInt16) (h : v ≤ reg.maxValue) :
    (rs.write reg v).read reg = v := by
  cases reg <;> simp [write, read, Reg.maxValue, UInt16.le_iff_toNat_le] at h ⊢
  case iff1 | iff2 =>
    have : v.toNat = 0 ∨ v.toNat = 1 := by omega
    rcases this with h0 | h0 <;> rw [eq_toUInt16_of_toNat_eq h0 (by omega)] <;> rfl
  case im =>
    have : v.toNat = 0 ∨ v.toNat = 1 ∨ v.toNat = 2 := by omega
    rcases this with h0 | h0 | h0 <;> rw [eq_toUInt16_of_toNat_eq h0 (by omega)] <;> rfl
  case intLine =>
    have : v.toNat = 0 ∨ v.toNat = 1 ∨ v.toNat = 2 ∨ v.toNat = 3 := by omega
    rcases this with h0 | h0 | h0 | h0 <;> rw [eq_toUInt16_of_toNat_eq h0 (by omega)] <;> rfl
  all_goals exact mod_256_of_toNat_le h

/-- A host read: refused while running. -/
def get (rs : Registers) (reg : Reg) : Except Error UInt16 :=
  if rs.status = .running then .error .busy else .ok (rs.read reg)

/-- A host write: refused while running, or when the value is wider than the register. -/
def set (rs : Registers) (reg : Reg) (v : UInt16) : Except Error Registers :=
  if rs.status = .running then .error .busy
  else if v > reg.maxValue then .error (.valueOutOfRange reg v)
  else .ok (rs.write reg v)

theorem get_eq_ok {rs : Registers} (h : rs.status ≠ .running) (reg : Reg) :
    rs.get reg = .ok (rs.read reg) := by
  simp [get, h]

theorem set_eq_ok {rs : Registers} {reg : Reg} {v : UInt16} (h : rs.status ≠ .running)
    (hv : v ≤ reg.maxValue) : rs.set reg v = .ok (rs.write reg v) := by
  simp [set, h, UInt16.not_lt.mpr hv]

theorem set_eq_error_of_gt {rs : Registers} {reg : Reg} {v : UInt16}
    (h : rs.status ≠ .running) (hv : reg.maxValue < v) :
    rs.set reg v = .error (.valueOutOfRange reg v) := by
  simp [set, h, hv]

/-- Power-on state. -/
def hardReset (_ : Registers) : Registers := {}

/-- The RESET pin: IX, IY, the alternates, WZ and the vector survive, and so does a fault. -/
def softReset (rs : Registers) : Registers :=
  { rs with
    pc := 0, sp := 0xFFFF, i := 0, r := 0, iff1 := false, iff2 := false, im := 0,
    halted := false, lines := {},
    status := if rs.status = .faulted then .faulted else .idle }

end Registers

end Z80
