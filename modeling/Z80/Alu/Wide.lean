import Z80.Flags

/-!
# Sixteen-bit arithmetic

`add16` is ADD HL,rr (and the IX and IY forms): S, Z and P/V are kept, H is the carry
out of bit 11, C the carry out of bit 15, and bits 5 and 3 come from the high byte of
the result. `adc16` and `sbc16` (ADC HL,rr and SBC HL,rr) set every flag from the
16-bit result: S is bit 15, Z is a zero word, P/V is 16-bit overflow and N marks the
subtraction.
-/

namespace Z80.Alu

/-- S, Z and bits 5 and 3 of a word: S, 5 and 3 from its high byte. -/
def wideSz53 (v : UInt16) : UInt8 :=
  ((v >>> 8).toUInt8 &&& (Flag.s ||| Flag.xy)) ||| Flag.when (v == 0) Flag.z

/-- ADD of two words under incoming flags `f`. -/
def add16 (a b : UInt16) (f : UInt8) : UInt16 × UInt8 :=
  let sum := a.toNat + b.toNat
  let r := sum.toUInt16
  (r, (f &&& (Flag.s ||| Flag.z ||| Flag.pv)) ||| ((r >>> 8).toUInt8 &&& Flag.xy)
    ||| Flag.when ((a ^^^ b ^^^ r) &&& 0x1000 != 0) Flag.h
    ||| Flag.when (sum > 0xFFFF) Flag.c)

/-- ADC of two words, the carry taken from `f`. -/
def adc16 (a b : UInt16) (f : UInt8) : UInt16 × UInt8 :=
  let sum := a.toNat + b.toNat + (f &&& Flag.c).toNat
  let r := sum.toUInt16
  (r, wideSz53 r ||| Flag.when ((a ^^^ b ^^^ r) &&& 0x1000 != 0) Flag.h
    ||| Flag.when ((a ^^^ b) &&& 0x8000 == 0 && (a ^^^ r) &&& 0x8000 != 0) Flag.pv
    ||| Flag.when (sum > 0xFFFF) Flag.c)

/-- SBC of two words, the borrow taken from `f`. -/
def sbc16 (a b : UInt16) (f : UInt8) : UInt16 × UInt8 :=
  let cin := (f &&& Flag.c).toNat
  let r := (a.toNat + 0x20000 - b.toNat - cin).toUInt16
  (r, wideSz53 r ||| Flag.n ||| Flag.when ((a ^^^ b ^^^ r) &&& 0x1000 != 0) Flag.h
    ||| Flag.when ((a ^^^ b) &&& 0x8000 != 0 && (a ^^^ r) &&& 0x8000 != 0) Flag.pv
    ||| Flag.when (a.toNat < b.toNat + cin) Flag.c)

end Z80.Alu
