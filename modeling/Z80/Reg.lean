/-!
# Register names

`Reg` names every register a host can read or write: the pairs and their halves, the
alternate set, the index registers, SP, PC, I, R, the interrupt flip-flops and mode, the
interrupt vector and request lines, and the hidden WZ (MEMPTR) register.

Each name has a widest value (`maxValue`); a host write above it is refused. `Reg.all`
lists the names in their fixed order.
-/

namespace Z80

/-- A register the host can read or write. -/
inductive Reg where
  | af | bc | de | hl | ix | iy | sp | pc
  | afAlt | bcAlt | deAlt | hlAlt
  | a | f | b | c | d | e | h | l
  | i | r | iff1 | iff2 | im | intVector | intLine | wz
deriving DecidableEq

namespace Reg

/-- Every register name, in the fixed order of the host interface. -/
def all : List Reg :=
  [af, bc, de, hl, ix, iy, sp, pc, afAlt, bcAlt, deAlt, hlAlt,
   a, f, b, c, d, e, h, l, i, r, iff1, iff2, im, intVector, intLine, wz]

/-- The name as diagnostics spell it. -/
def name : Reg → String
  | af => "Af" | bc => "Bc" | de => "De" | hl => "Hl"
  | ix => "Ix" | iy => "Iy" | sp => "Sp" | pc => "Pc"
  | afAlt => "AfAlt" | bcAlt => "BcAlt" | deAlt => "DeAlt" | hlAlt => "HlAlt"
  | a => "A" | f => "F" | b => "B" | c => "C" | d => "D" | e => "E" | h => "H" | l => "L"
  | i => "I" | r => "R" | iff1 => "Iff1" | iff2 => "Iff2" | im => "Im"
  | intVector => "IntVector" | intLine => "IntLine" | wz => "Wz"

/-- The lowercase key of the host interface (`af_alt`, `int_vector`, …). -/
def key : Reg → String
  | af => "af" | bc => "bc" | de => "de" | hl => "hl"
  | ix => "ix" | iy => "iy" | sp => "sp" | pc => "pc"
  | afAlt => "af_alt" | bcAlt => "bc_alt" | deAlt => "de_alt" | hlAlt => "hl_alt"
  | a => "a" | f => "f" | b => "b" | c => "c" | d => "d" | e => "e" | h => "h" | l => "l"
  | i => "i" | r => "r" | iff1 => "iff1" | iff2 => "iff2" | im => "im"
  | intVector => "int_vector" | intLine => "int_line" | wz => "wz"

/-- The register with a given key. -/
def ofKey? (s : String) : Option Reg :=
  all.find? (·.key == s)

/-- The widest value a register holds: a word for the pairs, SP, PC and WZ; a byte for
the 8-bit registers and the vector; 1 for a flip-flop; 2 for the interrupt mode; and 3
for the two request lines. -/
def maxValue : Reg → UInt16
  | af | bc | de | hl | ix | iy | sp | pc | afAlt | bcAlt | deAlt | hlAlt | wz => 0xFFFF
  | a | f | b | c | d | e | h | l | i | r | intVector => 0xFF
  | iff1 | iff2 => 1
  | im => 2
  | intLine => 3

end Reg

end Z80
