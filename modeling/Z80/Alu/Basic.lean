import Z80.Flags

/-!
# Eight-bit arithmetic and logic

Each operation takes its operands (and, where it matters, the incoming flags) and gives
the result byte with the complete new flag byte; the CPU decides where the result goes.

The rules shared by the arithmetic: H is the carry out of bit 3 (bit 4 of
`a ^ b ^ result`), P/V is two's-complement overflow, C the carry or borrow out of bit 7,
and N is set for subtraction. A compare sets the flags of the subtraction but takes
bits 5 and 3 from the operand. INC and DEC keep the carry.
-/

namespace Z80.Alu

/-- A result byte and the flags that go with it. -/
structure Result where
  value : UInt8
  flags : UInt8
deriving DecidableEq

/-- Addition with a carry in. -/
def add8 (a b : UInt8) (carry : Bool) : Result :=
  let cin : Nat := if carry then 1 else 0
  let sum := a.toNat + b.toNat + cin
  let r := sum.toUInt8
  { value := r,
    flags := sz53 r ||| ((a ^^^ b ^^^ r) &&& Flag.h)
      ||| Flag.when ((a ^^^ b) &&& 0x80 == 0 && (a ^^^ r) &&& 0x80 != 0) Flag.pv
      ||| Flag.when (sum > 0xFF) Flag.c }

/-- Subtraction with a borrow in. -/
def sub8 (a b : UInt8) (carry : Bool) : Result :=
  let cin : Nat := if carry then 1 else 0
  let r := (a.toNat + 0x200 - b.toNat - cin).toUInt8
  { value := r,
    flags := sz53 r ||| Flag.n ||| ((a ^^^ b ^^^ r) &&& Flag.h)
      ||| Flag.when ((a ^^^ b) &&& 0x80 != 0 && (a ^^^ r) &&& 0x80 != 0) Flag.pv
      ||| Flag.when (a.toNat < b.toNat + cin) Flag.c }

/-- Comparison: the flags of `a - b` with bits 5 and 3 from `b`; A is unchanged. -/
def cp8 (a b : UInt8) : Result :=
  { value := a, flags := ((sub8 a b false).flags &&& ~~~Flag.xy) ||| (b &&& Flag.xy) }

/-- A logical result: S, Z, 5, 3 and parity from the byte, with `half` for H. -/
def logic (r half : UInt8) : Result :=
  { value := r, flags := sz53p r ||| half }

/-- Increment; the carry is kept. -/
def inc8 (v f : UInt8) : Result :=
  let r := v + 1
  { value := r,
    flags := (f &&& Flag.c) ||| sz53 r ||| Flag.when (v &&& 0x0F == 0x0F) Flag.h
      ||| Flag.when (v == 0x7F) Flag.pv }

/-- Decrement; the carry is kept. -/
def dec8 (v f : UInt8) : Result :=
  let r := v - 1
  { value := r,
    flags := (f &&& Flag.c) ||| Flag.n ||| sz53 r ||| Flag.when (v &&& 0x0F == 0) Flag.h
      ||| Flag.when (v == 0x80) Flag.pv }

end Z80.Alu

namespace Z80

/-- The eight accumulator operations, in the order of their opcode field. -/
inductive AluOp where
  | add | adc | sub | sbc | and | xor | or | cp
deriving DecidableEq

namespace AluOp

/-- The operation selected by a three-bit opcode field. -/
def ofBits (y : UInt8) : AluOp :=
  match y &&& 7 with
  | 0 => .add | 1 => .adc | 2 => .sub | 3 => .sbc
  | 4 => .and | 5 => .xor | 6 => .or | _ => .cp

/-- Applies the operation to A and an operand under the incoming flags `f`. -/
def apply (op : AluOp) (a v f : UInt8) : Alu.Result :=
  let carry := f &&& Flag.c != 0
  match op with
  | .add => Alu.add8 a v false
  | .adc => Alu.add8 a v carry
  | .sub => Alu.sub8 a v false
  | .sbc => Alu.sub8 a v carry
  | .and => Alu.logic (a &&& v) Flag.h
  | .xor => Alu.logic (a ^^^ v) 0
  | .or => Alu.logic (a ||| v) 0
  | .cp => Alu.cp8 a v

end AluOp

end Z80
