import Z80.Alu.Basic

/-!
# Accumulator and carry adjustments

DAA corrects A after a BCD addition or subtraction: it adds (or, after a subtraction,
takes away) 6 for a low digit above 9 or a half carry, and 60 for a value above 99 or
a carry. CPL complements A; SCF sets and CCF complements the carry. LD A,I and LD A,R
report IFF2 in P/V.

Where these keep flags, they keep S, Z and P/V; bits 5 and 3 come from A.
-/

namespace Z80.Alu

/-- Decimal adjust of `a` under incoming flags `f`. -/
def daa (a f : UInt8) : Result :=
  let low := a &&& 0x0F
  let subtract := f &&& Flag.n != 0
  let carry := f &&& Flag.c != 0 || a > 0x99
  let correction := Flag.when (f &&& Flag.h != 0 || low > 9) 0x06 ||| Flag.when carry 0x60
  let r := if subtract then a - correction else a + correction
  let half := if subtract then f &&& Flag.h != 0 && low < 6 else low > 9
  { value := r,
    flags := sz53p r ||| (f &&& Flag.n) ||| Flag.when half Flag.h ||| Flag.when carry Flag.c }

/-- CPL: A complemented, H and N set. -/
def cpl (a f : UInt8) : Result :=
  let r := ~~~a
  { value := r,
    flags := (f &&& (Flag.s ||| Flag.z ||| Flag.pv ||| Flag.c)) ||| Flag.h ||| Flag.n
      ||| (r &&& Flag.xy) }

/-- SCF: carry set, H and N cleared. -/
def scf (a f : UInt8) : UInt8 :=
  (f &&& (Flag.s ||| Flag.z ||| Flag.pv)) ||| Flag.c ||| (a &&& Flag.xy)

/-- CCF: carry complemented, H takes the old carry. -/
def ccf (a f : UInt8) : UInt8 :=
  (f &&& (Flag.s ||| Flag.z ||| Flag.pv)) ||| (a &&& Flag.xy)
    ||| (if f &&& Flag.c != 0 then Flag.h else Flag.c)

/-- Flags of LD A,I and LD A,R for the loaded value `v`: P/V is IFF2, C kept. -/
def ldAIR (v : UInt8) (iff2 : Bool) (f : UInt8) : UInt8 :=
  (f &&& Flag.c) ||| sz53 v ||| Flag.when iff2 Flag.pv

end Z80.Alu
