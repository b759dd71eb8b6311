import Z80.Word
import Z80.Flags

/-!
# The register file

`Registers` holds the programmer-visible registers, the hidden WZ register, the
interrupt state (flip-flops, mode, vector and the latched request `Lines`) and the
run status with the HALT line.

F is kept as one byte, bits 5 and 3 included: `setXY` replaces just those two bits,
which is how the instructions that leak an internal value into them write F. The
pairs AF, BC, DE and HL are views of their halves (`af`, `setAF`, …), and the
exchange instructions swap a pair with its alternate.

R counts opcode fetches in its low seven bits; bit 7 only changes when R is written
(`incrementR`, `advanceR`).
-/

namespace Z80

/-- Where the CPU is in its lifecycle. -/
inductive RunStatus where
  /-- Between calls and not halted. -/
  | idle
  /-- Inside a run or a step. -/
  | running
  /-- Between calls with the HALT line set. -/
  | halted
  /-- A run or step was entered again while an earlier one had not finished. -/
  | faulted
deriving DecidableEq

/-- The maskable interrupt modes. -/
inductive InterruptMode where
  | im0 | im1 | im2
deriving DecidableEq

/-- The mode's number, 0 to 2. -/
def InterruptMode.toUInt8 : InterruptMode → UInt8
  | .im0 => 0 | .im1 => 1 | .im2 => 2

/-- The mode numbered `n`; numbers above 2 select mode 2. -/
def InterruptMode.ofUInt8 (n : UInt8) : InterruptMode :=
  if n = 0 then .im0 else if n = 1 then .im1 else .im2

/-- The latched interrupt requests: INT (maskable) and NMI. -/
structure Lines where
  int : Bool := false
  nmi : Bool := false
deriving DecidableEq

/-- INT is bit 0 and NMI bit 1. -/
def Lines.bits (ls : Lines) : UInt8 :=
  Flag.when ls.int 1 ||| Flag.when ls.nmi 2

/-- The lines set in the low two bits of `b`. -/
def Lines.ofBits (b : UInt8) : Lines :=
  { int := b &&& 1 != 0, nmi := b &&& 2 != 0 }

/-- The register file. A fresh one is all zero, idle, with interrupts disabled. -/
structure Registers where
  a : UInt8 := 0
  f : UInt8 := 0
  b : UInt8 := 0
  c : UInt8 := 0
  d : UInt8 := 0
  e : UInt8 := 0
  h : UInt8 := 0
  l : UInt8 := 0
  afAlt : UInt16 := 0
  bcAlt : UInt16 := 0
  deAlt : UInt16 := 0
  hlAlt : UInt16 := 0
  ix : UInt16 := 0
  iy : UInt16 := 0
  sp : UInt16 := 0
  pc : UInt16 := 0
  wz : UInt16 := 0
  i : UInt8 := 0
  r : UInt8 := 0
  iff1 : Bool := false
  iff2 : Bool := false
  /-- The interrupt mode as the byte it is stored in: IM writes 0, 1 or 2, and a mode byte
  above 1 acknowledges as mode 2. -/
  im : UInt8 := 0
  intVector : UInt8 := 0
  lines : Lines := {}
  status : RunStatus := .idle
  halted : Bool := false
deriving DecidableEq

namespace Registers

/-! ## Pairs -/

/-- A and F as one word. -/
def af (rs : Registers) : UInt16 := word rs.a rs.f
/-- B and C as one word. -/
def bc (rs : Registers) : UInt16 := word rs.b rs.c
/-- D and E as one word. -/
def de (rs : Registers) : UInt16 := word rs.d rs.e
/-- H and L as one word. -/
def hl (rs : Registers) : UInt16 := word rs.h rs.l

/-- Writes A and F from one word. -/
def setAF (rs : Registers) (v : UInt16) : Registers :=
  { rs with a := hiByte v, f := loByte v }
/-- Writes B and C from one word. -/
def setBC (rs : Registers) (v : UInt16) : Registers :=
  { rs with b := hiByte v, c := loByte v }
/-- Writes D and E from one word. -/
def setDE (rs : Registers) (v : UInt16) : Registers :=
  { rs with d := hiByte v, e := loByte v }
/-- Writes H and L from one word. -/
def setHL (rs : Registers) (v : UInt16) : Registers :=
  { rs with h := hiByte v, l := loByte v }

@[simp] theorem af_setAF (rs : Registers) (v : UInt16) : (rs.setAF v).af = v := by
  simp [setAF, af]

@[simp] theorem bc_setBC (rs : Registers) (v : UInt16) : (rs.setBC v).bc = v := by
  simp [setBC, bc]

@[simp] theorem de_setDE (rs : Registers) (v : UInt16) : (rs.setDE v).de = v := by
  simp [setDE, de]

@[simp] theorem hl_setHL (rs : Registers) (v : UInt16) : (rs.setHL v).hl = v := by
  simp [setHL, hl]

/-- Replaces bits 5 and 3 of F by those of `v`. -/
def setXY (rs : Registers) (v : UInt8) : Registers :=
  { rs with f := (rs.f &&& ~~~Flag.xy) ||| (v &&& Flag.xy) }

/-! ## Exchanges -/

/-- EX AF,AF': AF and its alternate trade places. -/
def swapAF (rs : Registers) : Registers :=
  { rs.setAF rs.afAlt with afAlt := rs.af }

/-- EXX: BC, DE and HL trade places with their alternates. -/
def swapMain (rs : Registers) : Registers :=
  { ((rs.setBC rs.bcAlt).setDE rs.deAlt).setHL rs.hlAlt with
    bcAlt := rs.bc, deAlt := rs.de, hlAlt := rs.hl }

/-! ## Refresh -/

/-- One opcode fetch: the low seven bits of R count up, bit 7 stays. -/
def incrementR (rs : Registers) : Registers :=
  { rs with r := (rs.r &&& 0x80) ||| ((rs.r + 1) &&& 0x7F) }

/-- `n` opcode fetches at once. -/
def advanceR (rs : Registers) (n : Nat) : Registers :=
  { rs with r := (rs.r &&& 0x80) ||| (((rs.r &&& 0x7F) + (n % 128).toUInt8) &&& 0x7F) }

end Registers

end Z80
