/-!
# The flag register

Bit masks of F, from bit 7 down: sign `s`, zero `z`, the undocumented copy of bit 5
`y`, half carry `h`, the undocumented copy of bit 3 `x`, parity/overflow `pv`, subtract
`n` and carry `c`.

Most results set S, Z, 5 and 3 straight from the result byte: S and bits 5 and 3 are
those bits of the byte and Z is set for zero (`sz53`); logical results also set P for
even parity (`sz53p`).
-/

namespace Z80.Flag

/-- Sign, bit 7. -/
def s : UInt8 := 0x80
/-- Zero, bit 6. -/
def z : UInt8 := 0x40
/-- Undocumented copy of result bit 5. -/
def y : UInt8 := 0x20
/-- Half carry, bit 4. -/
def h : UInt8 := 0x10
/-- Undocumented copy of result bit 3. -/
def x : UInt8 := 0x08
/-- Parity or overflow, bit 2. -/
def pv : UInt8 := 0x04
/-- Subtract, bit 1. -/
def n : UInt8 := 0x02
/-- Carry, bit 0. -/
def c : UInt8 := 0x01
/-- The two undocumented bits, 5 and 3. -/
def xy : UInt8 := 0x28

/-- The mask `m` when `b` holds, else no bits. -/
def when (b : Bool) (m : UInt8) : UInt8 :=
  if b then m else 0

end Z80.Flag

namespace Z80

/-- A byte has even parity when an even number of its bits are set. -/
def parity (v : UInt8) : Bool :=
  (List.range 8).foldl (fun acc i => acc ^^ ((v >>> i.toUInt8) &&& 1 == 1)) true

/-- Sign, zero and bits 5 and 3 of a result byte. -/
def sz53 (v : UInt8) : UInt8 :=
  (v &&& (Flag.s ||| Flag.xy)) ||| Flag.when (v == 0) Flag.z

/-- Sign, zero, bits 5 and 3 and parity of a result byte. -/
def sz53p (v : UInt8) : UInt8 :=
  sz53 v ||| Flag.when (parity v) Flag.pv

end Z80
