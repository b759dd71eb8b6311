import Z80.Error

/-!
# Construction-time options

`Config` chooses how R counts, the byte an unmapped fetch reads, and an optional fast
RAM window. A window is a whole number of pages inside the 64 KiB address space; the
CPU keeps its bytes itself, serves data accesses inside it without the bus, and maps
its pages for instruction fetch.
-/

namespace Z80

/-- How the refresh register R advances. -/
inductive RefreshMode where
  /-- R counts opcode fetches. -/
  | perFetch
  /-- R is derived from the cycles elapsed since it was last written, one step per
  four cycles. -/
  | cycleDerived
deriving DecidableEq

/-- A range of addresses served from the CPU's own RAM. -/
structure FastRamWindow where
  base : UInt16
  size : Nat
deriving DecidableEq

namespace FastRamWindow

/-- A window must start on a page, hold a non-zero whole number of pages and end
within 64 KiB. -/
def isValid (w : FastRamWindow) : Bool :=
  w.base &&& 0xFF == 0 && w.size != 0 && w.size % 0x100 == 0 && w.base.toNat + w.size ≤ 0x10000

/-- The window itself when it is valid. -/
def validate (w : FastRamWindow) : Except Error FastRamWindow :=
  if w.isValid then .ok w else .error (.invalidFastRam w.base w.size)

/-- The first and last page the window covers. -/
def pages (w : FastRamWindow) : UInt8 × UInt8 :=
  ((w.base >>> 8).toUInt8, ((w.base.toNat + w.size - 1) / 0x100).toUInt8)

/-- The offset of an address inside the window, if it lies there. -/
def offsetOf (w : FastRamWindow) (addr : UInt16) : Option Nat :=
  let offset := (addr - w.base).toNat
  if w.base ≤ addr ∧ offset < w.size then some offset else none

end FastRamWindow

/-- The options a CPU is built with. -/
structure Config where
  refresh : RefreshMode := .perFetch
  unmappedFill : UInt8 := 0x76
  fastRam : Option FastRamWindow := none
deriving DecidableEq

end Z80
