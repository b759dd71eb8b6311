/-!
# Clock cycles

`Ticks` counts T-states in a 64-bit word. Sums wrap modulo 2^64, differences stop at
zero, and a count reads as `N cycles`.
-/

namespace Z80

/-- A count of clock cycles. -/
structure Ticks where
  count : UInt64
deriving DecidableEq

namespace Ticks

/-- No cycles. -/
def zero : Ticks := ⟨0⟩

/-- Cycles counted by a 32-bit number. -/
def ofUInt32 (n : UInt32) : Ticks := ⟨n.toUInt64⟩

/-- The sum, wrapping modulo 2^64. -/
def add (a b : Ticks) : Ticks := ⟨a.count + b.count⟩

/-- The difference, zero when `b` exceeds `a`. -/
def sub (a b : Ticks) : Ticks := ⟨if b.count ≤ a.count then a.count - b.count else 0⟩

instance : Add Ticks := ⟨add⟩
instance : Sub Ticks := ⟨sub⟩

/-- Order by count. -/
instance : LE Ticks := ⟨fun a b => a.count ≤ b.count⟩
instance : LT Ticks := ⟨fun a b => a.count < b.count⟩

/-- Three-way comparison by count. -/
def compare (a b : Ticks) : Ordering :=
  if a.count < b.count then .lt else if a.count = b.count then .eq else .gt

/-- The count as text: the decimal numeral followed by ` cycles`. -/
def render (t : Ticks) : String :=
  t.count.toNat.repr ++ " cycles"

end Ticks

end Z80
