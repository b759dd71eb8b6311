import Z80.Bus.Basic

/-!
# A recording bus

`Monitor β` wraps a bus and records every bus cycle it passes on, in order: memory
reads and writes with their address and byte, and port inputs and outputs with the
16-bit port address. It can also stand for a faulty bus: a read of one of its
`refused` addresses is refused before it reaches the inner bus, and so is not
recorded.
-/

namespace Z80

/-- One bus cycle as seen on the bus. -/
inductive Access where
  | read (addr : UInt16) (v : UInt8)
  | write (addr : UInt16) (v : UInt8)
  | input (port : UInt16) (v : UInt8)
  | output (port : UInt16) (v : UInt8)
deriving DecidableEq

/-- A bus that records the cycles it passes to `inner`. -/
structure Monitor (β : Type) where
  inner : β
  /-- The cycles so far, oldest first. -/
  log : Array Access := #[]
  /-- Addresses whose reads the bus refuses. -/
  refused : List UInt16 := []

namespace Monitor

/-- Forgets the cycles recorded so far. -/
def clearLog {β : Type} (m : Monitor β) : Monitor β :=
  { m with log := #[] }

end Monitor

instance {β : Type} [Bus β] : Bus (Monitor β) where
  read m a :=
    if m.refused.contains a then (none, m)
    else
      let ⟨inner, log, refused⟩ := m
      match Bus.read inner a with
      | (some v, inner) => (some v, ⟨inner, log.push (.read a v), refused⟩)
      | (none, inner) => (none, ⟨inner, log, refused⟩)
  write m a v := { m with inner := Bus.write m.inner a v, log := m.log.push (.write a v) }
  input m p :=
    let (v, inner) := Bus.input m.inner p
    (v, { m with inner, log := m.log.push (.input p v) })
  output m p v := { m with inner := Bus.output m.inner p v, log := m.log.push (.output p v) }

end Z80
