import Z80.Registers.Access
import Z80.Odometer
import Z80.FetchMap
import Z80.Config

/-!
# The CPU and its host interface

`Cpu` is a Z80 with its register file, its fetch map, the optional fast RAM window, the
odometer and the state of the refresh counter. The bus is not part of it: the host
lends one for each run or step.

This module holds what a host does between runs. Register access goes through the
register file's checks, with one difference: R reads as its live value, which in
`cycleDerived` mode is the stored R advanced by one for every four cycles since it was
last written (`refreshValue`). Writing R restarts that count.

A snapshot is a copy of the register file with the live R; restoring one keeps this
CPU's status (a fault stays), clears the EI shadow and restarts the refresh count.
A hard reset clears registers, odometer and refresh clock but keeps the fetch map and
the fast RAM; a soft reset is the RESET pin.
-/

namespace Z80

/-- The fast RAM window and the fetch-map region that holds its bytes. -/
structure FastRam where
  window : FastRamWindow
  region : RegionId
deriving DecidableEq

/-- What a step did. -/
inductive StepKind where
  | instruction | nmi | interrupt | halted
deriving DecidableEq

/-- A step's kind and cost. -/
structure StepResult where
  kind : StepKind
  cycles : Nat
deriving DecidableEq

/-- Which interrupt request waits at the next boundary: NMI wins over INT. -/
inductive InterruptState where
  | idle | nmiPending | intPending
deriving DecidableEq

/-- A Z80 between or during calls. -/
structure Cpu where
  regs : Registers
  fetch : FetchMap
  fastRam : Option FastRam
  odometer : Odometer
  config : Config
  /-- Set by EI: no maskable interrupt is accepted at the boundary right after. -/
  eiShadow : Bool
  /-- Cycles executed or charged since the last hard reset. -/
  refreshClock : Nat
  /-- `refreshClock` when R was last written. -/
  rWrittenAt : Nat

namespace Cpu

/-- A CPU built from `config`, with the fast RAM window, if any, zeroed and mapped for
fetch as region 0. Refused when the window is invalid. -/
def create (config : Config) : Except Error Cpu := do
  let base : Cpu :=
    { regs := {}, fetch := FetchMap.empty config.unmappedFill, fastRam := none,
      odometer := {}, config, eiShadow := false, refreshClock := 0, rWrittenAt := 0 }
  match config.fastRam with
  | none => pure base
  | some w =>
    let w ← w.validate
    let (fetch, id) := base.fetch.addRegion (ByteArray.mk (Array.replicate w.size 0))
    let (first, last) := w.pages
    let fetch ← fetch.map first last id 0
    pure { base with fetch, fastRam := some ⟨w, id⟩ }

/-! ## Status -/

/-- The status a CPU settles to after a call: halted when the HALT line is set. -/
def settle (cpu : Cpu) : Cpu :=
  { cpu with regs := { cpu.regs with status := if cpu.regs.halted then .halted else .idle } }

/-- Leaves the faulted state. -/
def clearFault (cpu : Cpu) : Cpu :=
  if cpu.regs.status = .faulted then cpu.settle else cpu

/-! ## Refresh register -/

/-- The live value of R. -/
def refreshValue (cpu : Cpu) : UInt8 :=
  match cpu.config.refresh with
  | .perFetch => cpu.regs.r
  | .cycleDerived =>
    let steps := (cpu.refreshClock - cpu.rWrittenAt) / 4
    (cpu.regs.r &&& 0x80) ||| ((cpu.regs.r.toNat + steps).toUInt8 &&& 0x7F)

/-- One opcode fetch: R counts it in `perFetch` mode. -/
def refresh (cpu : Cpu) : Cpu :=
  match cpu.config.refresh with
  | .perFetch => { cpu with regs := cpu.regs.incrementR }
  | .cycleDerived => cpu

/-- `n` opcode fetches at once. -/
def refreshBy (cpu : Cpu) (n : Nat) : Cpu :=
  match cpu.config.refresh with
  | .perFetch => { cpu with regs := cpu.regs.advanceR n }
  | .cycleDerived => cpu

/-- LD R,A: R takes all eight bits and its count restarts. -/
def writeRefresh (cpu : Cpu) (v : UInt8) : Cpu :=
  { cpu with regs := { cpu.regs with r := v }, rWrittenAt := cpu.refreshClock }

/-! ## Registers -/

/-- The register file as a host sees it, with the live R. -/
def registers (cpu : Cpu) : Registers :=
  { cpu.regs with r := cpu.refreshValue }

/-- A host read of a register; R reads live. -/
def get (cpu : Cpu) (reg : Reg) : Except Error UInt16 := do
  let v ← cpu.regs.get reg
  pure (if reg = .r then cpu.refreshValue.toUInt16 else v)

/-- A host write of a register; writing R restarts its count. -/
def set (cpu : Cpu) (reg : Reg) (v : UInt16) : Except Error Cpu := do
  let regs ← cpu.regs.set reg v
  pure { cpu with regs, rWrittenAt := if reg = .r then cpu.refreshClock else cpu.rWrittenAt }

/-- A copy of the register file for a save state; refused while running. -/
def snapshot (cpu : Cpu) : Except Error Registers :=
  if cpu.regs.status = .running then .error .busy else .ok cpu.registers

/-- Loads a save state. This CPU's status is kept, settled unless it is faulted. -/
def restore (cpu : Cpu) (snap : Registers) : Except Error Cpu :=
  let status := cpu.regs.status
  if status = .running then .error .busy
  else
    let cpu' := { cpu with regs := { snap with status }, rWrittenAt := cpu.refreshClock,
                           eiShadow := false }
    .ok (if status = .faulted then cpu' else cpu'.settle)

/-! ## Resets -/

/-- Power-on: registers, odometer, EI shadow and refresh clock cleared; the fetch map
and fast RAM are kept. -/
def hardReset (cpu : Cpu) : Cpu :=
  { cpu with regs := {}, odometer := {}, eiShadow := false, refreshClock := 0,
             rWrittenAt := 0 }

/-- The RESET pin. -/
def softReset (cpu : Cpu) : Cpu :=
  { cpu with regs := cpu.regs.softReset, eiShadow := false, rWrittenAt := cpu.refreshClock }

/-! ## Interrupt lines -/

/-- Latches a non-maskable interrupt request. -/
def raiseNmi (cpu : Cpu) : Cpu :=
  { cpu with regs := { cpu.regs with lines := { cpu.regs.lines with nmi := true } } }

/-- Latches a maskable interrupt request with the byte the device puts on the bus. -/
def raiseInt (cpu : Cpu) (vector : UInt8) : Cpu :=
  { cpu with regs := { cpu.regs with intVector := vector,
                                     lines := { cpu.regs.lines with int := true } } }

/-- Withdraws the maskable interrupt request. -/
def clearInt (cpu : Cpu) : Cpu :=
  { cpu with regs := { cpu.regs with lines := { cpu.regs.lines with int := false } } }

/-- The request waiting at the next boundary. -/
def interruptState (cpu : Cpu) : InterruptState :=
  if cpu.regs.lines.nmi then .nmiPending
  else if cpu.regs.lines.int then .intPending
  else .idle

/-- Whether an interrupt would be taken at the next boundary (the EI shadow apart). -/
def wakePending (cpu : Cpu) : Bool :=
  cpu.regs.lines.nmi || (cpu.regs.lines.int && cpu.regs.iff1)

/-! ## Cycles -/

/-- Stall cycles charged by the host: counted, and taken out of the next run. -/
def addCycles (cpu : Cpu) (cycles : UInt32) : Cpu :=
  { cpu with odometer := cpu.odometer.charge cycles,
             refreshClock := cpu.refreshClock + cycles.toNat }

/-- Clears the odometer's count. -/
def clearOdometer (cpu : Cpu) : Cpu :=
  { cpu with odometer := cpu.odometer.clear }

/-! ## Fetch map and fast RAM -/

/-- Adds a fetch region. -/
def addRegion (cpu : Cpu) (data : ByteArray) : Cpu × RegionId :=
  let (fetch, id) := cpu.fetch.addRegion data
  ({ cpu with fetch }, id)

/-- Maps fetch pages onto a region. -/
def mapFetch (cpu : Cpu) (first last : UInt8) (region : RegionId) (offset : Nat) :
    Except Error Cpu := do
  pure { cpu with fetch := ← cpu.fetch.map first last region offset }

/-- Unmaps fetch pages. -/
def unmapFetch (cpu : Cpu) (first last : UInt8) : Except Error Cpu := do
  pure { cpu with fetch := ← cpu.fetch.unmap first last }

/-- Replaces the bytes of a region. -/
def modifyRegion (cpu : Cpu) (id : RegionId) (f : ByteArray → ByteArray) : Cpu :=
  { cpu with fetch := cpu.fetch.modifyRegion id f }

/-- The fast RAM bytes. -/
def fastRamBytes? (cpu : Cpu) : Option ByteArray :=
  cpu.fastRam.bind fun fr => cpu.fetch.region? fr.region

/-- The fast RAM region and offset of an address inside the window. -/
def fastSlot (cpu : Cpu) (addr : UInt16) : Option (RegionId × Nat) :=
  cpu.fastRam.bind fun fr => (fr.window.offsetOf addr).map fun off => (fr.region, off)

end Cpu

end Z80
