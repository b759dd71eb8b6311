import Z80.Bus.Basic
import Z80.Word

/-!
# A plain host bus

`SimpleBus` is 64 KiB of RAM and a table of 256 input ports, each presenting a byte
set by the host or FF. Ports are selected by the low byte of the port address, and
every output is logged with its full 16-bit port address, in order.

The host loads and inspects memory directly (`load`, `peek`, `poke`); those accesses
are not bus cycles of the CPU.
-/

namespace Z80

/-- RAM, input port values and the log of outputs. -/
structure SimpleBus where
  /-- The 65536 bytes of memory. -/
  memory : ByteArray
  /-- What each input port (by low address byte) presents, if the host set it. -/
  ports : Array (Option UInt8)
  /-- Every output so far: port address and byte. -/
  portWrites : Array (UInt16 × UInt8)

namespace SimpleBus

/-- Zeroed memory, unset ports and no outputs. -/
def empty : SimpleBus :=
  { memory := ByteArray.mk (Array.replicate 0x10000 0),
    ports := Array.replicate 0x100 none, portWrites := #[] }

/-- The byte at an address. -/
def peek (b : SimpleBus) (addr : UInt16) : UInt8 :=
  b.memory[addr.toNat]?.getD 0

/-- The little-endian word at an address; the second byte wraps to address 0. -/
def peekWord (b : SimpleBus) (addr : UInt16) : UInt16 :=
  word (b.peek (addr + 1)) (b.peek addr)

/-- Stores a byte at an address. -/
def poke (b : SimpleBus) (addr : UInt16) (v : UInt8) : SimpleBus :=
  { b with memory := b.memory.set! addr.toNat v }

/-- Stores bytes from an address on, wrapping at the top of memory. -/
def load (b : SimpleBus) (addr : UInt16) (data : ByteArray) : SimpleBus :=
  (data.foldl (fun (acc : SimpleBus × UInt16) v => (acc.1.poke acc.2 v, acc.2 + 1))
    (b, addr)).1

/-- Makes an input port present a byte. -/
def setPort (b : SimpleBus) (port v : UInt8) : SimpleBus :=
  { b with ports := b.ports.set! port.toNat (some v) }

/-- The byte an input port presents: the host's value, or FF. -/
def portValue (b : SimpleBus) (port : UInt16) : UInt8 :=
  ((b.ports[(loByte port).toNat]?).getD none).getD 0xFF

end SimpleBus

instance : Bus SimpleBus where
  read b a := (some (b.peek a), b)
  write b a v := b.poke a v
  input b p := (b.portValue p, b)
  output b p v := { b with portWrites := b.portWrites.push (p, v) }

end Z80
