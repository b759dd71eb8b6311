import Z80.Alu.Basic

/-!
# Rotates, shifts and bit tests

The eight CB shift operations in opcode order: rotate left and right circular
(RLC, RRC), rotate through the carry (RL, RR), arithmetic shifts (SLA, SRA), the
undocumented shift that feeds in a one (SLL) and the logical right shift (SRL). The CB
forms set S, Z, 5, 3 and parity from the result, clear H and N, and put the bit shifted
out into C. The accumulator forms RLCA, RRCA, RLA and RRA keep S, Z and P/V instead.

`bit` gives the flags of BIT n: Z and P/V when the bit is clear, S only for a set
bit 7, H always and C kept. Bits 5 and 3 are left clear for the caller to fill from
whatever the operand form leaks.
-/

namespace Z80

/-- The eight shift and rotate operations, in the order of their opcode field. -/
inductive Shift where
  | rlc | rrc | rl | rr | sla | sra | sll | srl
deriving DecidableEq

namespace Shift

/-- The operation selected by a three-bit opcode field. -/
def ofBits (y : UInt8) : Shift :=
  match y &&& 7 with
  | 0 => .rlc | 1 => .rrc | 2 => .rl | 3 => .rr
  | 4 => .sla | 5 => .sra | 6 => .sll | _ => .srl

/-- The shifted byte and the bit shifted out, with `cin` the incoming carry bit. -/
def shifted (op : Shift) (v cin : UInt8) : UInt8 × UInt8 :=
  match op with
  | .rlc => ((v <<< 1) ||| (v >>> 7), v >>> 7)
  | .rrc => ((v >>> 1) ||| (v <<< 7), v &&& 1)
  | .rl => ((v <<< 1) ||| cin, v >>> 7)
  | .rr => ((v >>> 1) ||| (cin <<< 7), v &&& 1)
  | .sla => (v <<< 1, v >>> 7)
  | .sra => ((v >>> 1) ||| (v &&& 0x80), v &&& 1)
  | .sll => ((v <<< 1) ||| 1, v >>> 7)
  | .srl => (v >>> 1, v &&& 1)

/-- The CB form under incoming flags `f`. -/
def apply (op : Shift) (v f : UInt8) : Alu.Result :=
  let (r, out) := op.shifted v (f &&& Flag.c)
  { value := r, flags := sz53p r ||| out }

/-- The accumulator form: S, Z and P/V kept, H and N cleared, 5 and 3 from the result. -/
def applyAccumulator (op : Shift) (a f : UInt8) : Alu.Result :=
  let s := op.apply a f
  { value := s.value,
    flags := (f &&& (Flag.s ||| Flag.z ||| Flag.pv)) ||| (s.value &&& Flag.xy)
      ||| (s.flags &&& Flag.c) }

end Shift

namespace Alu

/-- Flags of BIT n of `v` under incoming flags `f`, bits 5 and 3 clear. -/
def bit (n v f : UInt8) : UInt8 :=
  let tested := v &&& ((1 : UInt8) <<< (n &&& 7))
  (f &&& Flag.c) ||| Flag.h ||| Flag.when (tested == 0) (Flag.z ||| Flag.pv)
    ||| (tested &&& Flag.s)

end Alu

end Z80
