import Z80.Hex
import Z80.Reg

/-!
# Refusals

Each way the interpreter refuses a host request is a constructor of `Error`; its text is
`Error.message`, the one place where the wording lives. Numbers in the texts are marked
hexadecimal: values and bases with at least four digits, pages with at least two, and
offsets and sizes with no padding.
-/

namespace Z80

/-- Why a host request was refused. -/
inductive Error where
  /-- Registers were accessed while the CPU is inside a run. -/
  | busy
  /-- The CPU is faulted until the fault is cleared or the CPU is reset. -/
  | faulted
  /-- A run or step began while an earlier one had not finished. -/
  | reentered
  /-- A value wider than the register it was written to. -/
  | valueOutOfRange (reg : Reg) (value : UInt16)
  /-- A page range whose first page lies after its last. -/
  | invalidPageRange (first last : UInt8)
  /-- A region index that was never added to the fetch map. -/
  | unknownRegion (index : Nat)
  /-- A mapping that starts at or past the end of its region. -/
  | offsetOutOfBounds (offset len : Nat)
  /-- A fast RAM window that is not page aligned, is empty or leaves 64 KiB. -/
  | invalidFastRam (base : UInt16) (size : Nat)
deriving DecidableEq

/-- The text of a refusal. -/
def Error.message : Error → String
  | .busy => "register file is busy while the CPU is running"
  | .faulted => "CPU is faulted; clear the fault or hard reset"
  | .reentered => "run entered while the CPU was already running"
  | .valueOutOfRange reg value =>
      "value " ++ Hex.marked 4 value.toNat ++ " does not fit in register " ++ reg.name
  | .invalidPageRange first last =>
      "page range " ++ Hex.marked 2 first.toNat ++ "..=" ++ Hex.marked 2 last.toNat ++
        " is inverted"
  | .unknownRegion index => "no fetch region with id RegionId(" ++ toString index ++ ")"
  | .offsetOutOfBounds offset len =>
      "offset " ++ Hex.marked 1 offset ++ " is outside a region of " ++ Hex.marked 1 len ++
        " bytes"
  | .invalidFastRam base size =>
      "fast RAM window " ++ Hex.marked 4 base.toNat ++ "+" ++ Hex.marked 1 size ++
        " must be page aligned, non-empty and inside 64 KiB"

end Z80
