import Z80.Flags

/-!
# Flags of the block instructions

LDI and LDD keep S, Z and C, clear H and N and report BC ≠ 0 in P/V; bits 5 and 3
come from `n = value + A`, bit 3 directly and bit 5 from bit 1. CPI and CPD set the
flags of `A - value` but keep C, report BC ≠ 0, and take bits 5 and 3 from that
difference less the half carry. The I/O group (INI, IND, OUTI, OUTD) sets S, Z, 5 and 3
from the decremented B, N from bit 7 of the byte moved, H and C when the sum `k` that
the variant defines exceeds FF, and P from the parity of `(k & 7) ^ B`.
-/

namespace Z80.Alu

/-- Documented flags after LDI or LDD. -/
def blockTransferFlags (bcNonzero : Bool) (f : UInt8) : UInt8 :=
  (f &&& (Flag.s ||| Flag.z ||| Flag.c)) ||| Flag.when bcNonzero Flag.pv

/-- Bits 5 and 3 after LDI or LDD. -/
def blockTransferXY (v a : UInt8) : UInt8 :=
  let n := v + a
  (n &&& Flag.x) ||| ((n <<< 4) &&& Flag.y)

/-- Flags after CPI or CPD. -/
def blockCompareFlags (a v : UInt8) (bcNonzero : Bool) (f : UInt8) : UInt8 :=
  let r := a - v
  let half := (a ^^^ v ^^^ r) &&& Flag.h
  let n := r - (if half != 0 then 1 else 0)
  (f &&& Flag.c) ||| Flag.n ||| half ||| (sz53 r &&& (Flag.s ||| Flag.z))
    ||| (n &&& Flag.x) ||| ((n <<< 4) &&& Flag.y) ||| Flag.when bcNonzero Flag.pv

/-- Flags after INI, IND, OUTI or OUTD, with `b` the decremented counter. -/
def blockIoFlags (v b : UInt8) (k : Nat) : UInt8 :=
  sz53 b ||| Flag.when (v &&& 0x80 != 0) Flag.n ||| Flag.when (k > 0xFF) (Flag.h ||| Flag.c)
    ||| Flag.when (parity ((k.toUInt8 &&& 7) ^^^ b)) Flag.pv

end Z80.Alu
