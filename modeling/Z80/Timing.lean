/-!
# Documented cycle counts

Costs in T-states. Each prefix byte (CB, ED, DD, FD) is charged `prefix` as it is
fetched, so the prefixed tables hold what remains of the documented total: NEG costs
8 cycles, 4 for ED and 4 from `ed`. Conditional instructions are listed at their
not-taken cost; a taken branch adds the matching `…Taken` constant.

`indexed` differs from `base` only on the opcodes that use the `(HL)` operand, which
become `(IX+d)` and pay for the displacement; `LD (IX+d),n` overlaps the displacement
with the immediate and pays less.
-/

namespace Z80.Timing

/-- Each prefix byte fetched. -/
def prefixByte : Nat := 4
/-- Extra when `JR cc` or `DJNZ` branches. -/
def jrTaken : Nat := 5
/-- Extra when `CALL cc` calls. -/
def callTaken : Nat := 7
/-- Extra when `RET cc` returns. -/
def retTaken : Nat := 6
/-- Extra when a repeating block instruction loops. -/
def blockRepeat : Nat := 5
/-- Extra when CPIR or CPDR stops. -/
def blockCompareExit : Nat := 2
/-- One idle step while halted (an internal NOP). -/
def halted : Nat := 4
/-- Acknowledging a non-maskable interrupt. -/
def nmi : Nat := 11
/-- Acknowledging a maskable interrupt in mode 0. -/
def intIm0 : Nat := 13
/-- Acknowledging a maskable interrupt in mode 1. -/
def intIm1 : Nat := 13
/-- Acknowledging a maskable interrupt in mode 2. -/
def intIm2 : Nat := 19

/-- Unprefixed opcodes, row by high nibble. The prefix slots CB, DD, ED and FD hold 0. -/
def baseTable : Array Nat := #[
  4, 10,  7,  6,  4,  4,  7,  4,  4, 11,  7,  6,  4,  4,  7,  4,
  8, 10,  7,  6,  4,  4,  7,  4, 12, 11,  7,  6,  4,  4,  7,  4,
  7, 10, 16,  6,  4,  4,  7,  4,  7, 11, 16,  6,  4,  4,  7,  4,
  7, 10, 13,  6, 11, 11, 10,  4,  7, 11, 13,  6,  4,  4,  7,  4,
  4,  4,  4,  4,  4,  4,  7,  4,  4,  4,  4,  4,  4,  4,  7,  4,
  4,  4,  4,  4,  4,  4,  7,  4,  4,  4,  4,  4,  4,  4,  7,  4,
  4,  4,  4,  4,  4,  4,  7,  4,  4,  4,  4,  4,  4,  4,  7,  4,
  7,  7,  7,  7,  7,  7,  4,  7,  4,  4,  4,  4,  4,  4,  7,  4,
  4,  4,  4,  4,  4,  4,  7,  4,  4,  4,  4,  4,  4,  4,  7,  4,
  4,  4,  4,  4,  4,  4,  7,  4,  4,  4,  4,  4,  4,  4,  7,  4,
  4,  4,  4,  4,  4,  4,  7,  4,  4,  4,  4,  4,  4,  4,  7,  4,
  4,  4,  4,  4,  4,  4,  7,  4,  4,  4,  4,  4,  4,  4,  7,  4,
  5, 10, 10, 10, 10, 11,  7, 11,  5, 10, 10,  0, 10, 17,  7, 11,
  5, 10, 10, 11, 10, 11,  7, 11,  5,  4, 10, 11, 10,  0,  7, 11,
  5, 10, 10, 19, 10, 11,  7, 11,  5,  4, 10,  4, 10,  0,  7, 11,
  5, 10, 10,  4, 10, 11,  7, 11,  5,  6, 10,  4, 10,  0,  7, 11]

/-- Cost of an unprefixed opcode. -/
def base (op : UInt8) : Nat :=
  baseTable.getD op.toNat 0

/-- The opcodes whose `(HL)` operand becomes `(IX+d)` under an index prefix:
INC, DEC and LD of `(HL)`, LD to or from `(HL)` (HALT apart), and ALU on `(HL)`. -/
def usesMemoryHL (op : UInt8) : Bool :=
  if op = 0x34 ∨ op = 0x35 ∨ op = 0x36 then true
  else if op = 0x76 then false
  else if 0x40 ≤ op ∧ op < 0x80 then op &&& 7 == 6 || op &&& 0x38 == 0x30
  else if 0x80 ≤ op ∧ op < 0xC0 then op &&& 7 == 6
  else false

/-- Cost of an opcode after DD or FD, the prefix not counted. -/
def indexed (op : UInt8) : Nat :=
  base op + (if usesMemoryHL op then (if op = 0x36 then 5 else 8) else 0)

/-- Cost of an opcode after CB, the prefix not counted. -/
def cb (op : UInt8) : Nat :=
  if op &&& 7 = 6 then (if op &&& 0xC0 = 0x40 then 8 else 11) else 4

/-- Cost of the operation byte of DD CB d op or FD CB d op, both prefixes not counted. -/
def indexedCb (op : UInt8) : Nat :=
  if 0x40 ≤ op ∧ op < 0x80 then 12 else 15

/-- Cost of an opcode after ED, the prefix not counted. Undefined opcodes are 8-cycle
NOPs overall. -/
def ed (op : UInt8) : Nat :=
  let y := (op >>> 3) &&& 7
  let z := op &&& 7
  if op >>> 6 = 1 then
    if z ≤ 1 then 8
    else if z = 2 then 11
    else if z = 3 then 16
    else if z = 5 then 10
    else if z = 7 then (if y ≤ 3 then 5 else if y ≤ 5 then 14 else 4)
    else 4
  else if op >>> 6 = 2 ∧ z ≤ 3 ∧ 4 ≤ y then 12
  else 4

end Z80.Timing
