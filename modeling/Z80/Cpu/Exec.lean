import Z80.Cpu.Basic
import Z80.Bus.Basic

/-!
# Executing against a bus

While it runs, the CPU works on a `Machine`: itself together with the bus the host lent
it. `Exec β` is a state transformer on a machine that can stop early, keeping the state
it reached (`Abort`): a call is refused before it starts, or the bus refuses a read in
the middle of an instruction, and the CPU is then left exactly as far as it got.

Data accesses go to the fast RAM when the address lies inside its window (a byte past
the end of its region reads FF) and to the bus otherwise; instruction fetches never
come here, they go through the fetch map. Words are little-endian, and their second
byte wraps round to address 0. PUSH stores the high byte first, at SP-1; POP reads the
word at SP.
-/

namespace Z80

/-- Why a call that lends the bus to the CPU stopped early. -/
inductive Abort where
  /-- The call was refused before anything ran. -/
  | refused (e : Error)
  /-- The bus refused a read of this address. -/
  | busFault (addr : UInt16)
deriving DecidableEq

/-- The CPU with the bus it was lent. -/
structure Machine (β : Type) where
  cpu : Cpu
  bus : β

/-- A computation on a machine that may stop early, keeping the state it reached. -/
abbrev Exec (β : Type) := EStateM Abort (Machine β)

namespace Exec

variable {β : Type} [Bus β]

/-! ## The CPU's own state -/

/-- The CPU. -/
@[inline] def cpu : Exec β Cpu := fun m => .ok m.cpu m

/-- The register file. -/
@[inline] def regs : Exec β Registers := fun m => .ok m.cpu.regs m

/-- Changes the CPU. -/
@[inline] def modifyCpu (f : Cpu → Cpu) : Exec β Unit :=
  fun m => .ok () { m with cpu := f m.cpu }

/-- Changes the register file. -/
@[inline] def modifyRegs (f : Registers → Registers) : Exec β Unit :=
  modifyCpu fun c => { c with regs := f c.regs }

/-- Sets WZ. -/
@[inline] def setWZ (v : UInt16) : Exec β Unit :=
  modifyRegs fun rs => { rs with wz := v }

/-- Sets PC. -/
@[inline] def setPC (v : UInt16) : Exec β Unit :=
  modifyRegs fun rs => { rs with pc := v }

/-- Sets F. -/
@[inline] def setF (v : UInt8) : Exec β Unit :=
  modifyRegs fun rs => { rs with f := v }

/-! ## Memory and I/O -/

/-- The fast RAM byte at an offset of its region, FF past the end. -/
def fastByte (c : Cpu) (id : RegionId) (off : Nat) : UInt8 :=
  ((c.fetch.region? id).bind fun bytes => bytes[off]?).getD 0xFF

/-- A data read. -/
def readByte (addr : UInt16) : Exec β UInt8 := fun m =>
  match m.cpu.fastSlot addr with
  | some (id, off) => .ok (fastByte m.cpu id off) m
  | none =>
    let ⟨c, bus⟩ := m
    match Bus.read bus addr with
    | (some v, bus) => .ok v ⟨c, bus⟩
    | (none, bus) => .error (.busFault addr) ⟨c, bus⟩

/-- A data write. -/
def writeByte (addr : UInt16) (v : UInt8) : Exec β Unit := fun m =>
  match m.cpu.fastSlot addr with
  | some (id, off) => .ok () { m with cpu := m.cpu.modifyRegion id fun bytes => bytes.set! off v }
  | none => .ok () { m with bus := Bus.write m.bus addr v }

/-- A little-endian word read. -/
def readWord (addr : UInt16) : Exec β UInt16 := do
  let lo ← readByte addr
  let hi ← readByte (addr + 1)
  pure (word hi lo)

/-- A little-endian word write. -/
def writeWord (addr : UInt16) (v : UInt16) : Exec β Unit := do
  writeByte addr (loByte v)
  writeByte (addr + 1) (hiByte v)

/-- Pushes a word: the high byte goes to SP-1, the low byte to SP-2. -/
def push (v : UInt16) : Exec β Unit := do
  modifyRegs fun rs => { rs with sp := rs.sp - 1 }
  writeByte (← regs).sp (hiByte v)
  modifyRegs fun rs => { rs with sp := rs.sp - 1 }
  writeByte (← regs).sp (loByte v)

/-- Pops a word. -/
def pop : Exec β UInt16 := do
  let v ← readWord (← regs).sp
  modifyRegs fun rs => { rs with sp := rs.sp + 2 }
  pure v

/-- Reads an input port. -/
def input (port : UInt16) : Exec β UInt8 := fun m =>
  let ⟨c, bus⟩ := m
  let (v, bus) := Bus.input bus port
  .ok v ⟨c, bus⟩

/-- Writes an output port. -/
def output (port : UInt16) (v : UInt8) : Exec β Unit :=
  fun m => .ok () { m with bus := Bus.output m.bus port v }

end Exec

end Z80
