/-!
# The host bus

The CPU reaches memory and I/O through a bus that the host lends it for each run or
step. Memory is addressed by 16-bit addresses and I/O by 16-bit ports (the Z80 puts a
register on the upper half of the address lines during I/O).

A bus may refuse a memory read, standing for a host bus error; the interrupted
instruction then leaves the CPU exactly as far as it got. Reads may also change the
bus, so that a bus can record what it served.

`OpenBus` is a bus with nothing attached: every read gives FF and writes vanish.
-/

namespace Z80

/-- Memory and I/O as the CPU sees them. -/
class Bus (β : Type) where
  /-- The byte at an address, or `none` when the bus refuses the read; with the bus
  after the cycle. -/
  read : β → UInt16 → Option UInt8 × β
  /-- Stores a byte at an address. -/
  write : β → UInt16 → UInt8 → β
  /-- The byte an input port presents. -/
  input : β → UInt16 → UInt8 × β
  /-- Sends a byte to an output port. -/
  output : β → UInt16 → UInt8 → β

/-- A bus with nothing attached. -/
structure OpenBus where
deriving DecidableEq

instance : Bus OpenBus where
  read b _ := (some 0xFF, b)
  write b _ _ := b
  input b _ := (0xFF, b)
  output b _ _ := b

end Z80
