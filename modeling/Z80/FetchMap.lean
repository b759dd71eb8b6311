import Z80.Error
import Z80.Word

/-!
# The instruction fetch map

Opcodes, immediates and displacements are read through a table of 256 pages rather
than through the bus. The map holds byte regions that the host adds; each page either
points at an offset inside one region or is unmapped. A fetch at address `a` reads the
byte at `offset + (a mod 256)` of the region of page `a / 256`; an unmapped page, or a
region that runs out part way through the page, reads as the fill byte (HALT unless
configured otherwise).

Mapping pages `first..last` onto a region at `offset` points page `first + k` at
`offset + 256 k`. It is refused, with the map unchanged, when the range is inverted,
then when the region was never added, then when the offset lies at or past the end of
the region.
-/

namespace Z80

/-- A region of a fetch map, numbered from 0 in the order regions were added. -/
structure RegionId where
  index : Nat
deriving DecidableEq

/-- Where a mapped page reads from. -/
structure PageEntry where
  region : RegionId
  offset : Nat
deriving DecidableEq

/-- The page table and the regions it points into. -/
structure FetchMap where
  regions : Array ByteArray
  pages : Vector (Option PageEntry) 256
  fill : UInt8

namespace FetchMap

/-- A map with no regions and every page unmapped. -/
def empty (fill : UInt8) : FetchMap :=
  { regions := #[], pages := Vector.replicate 256 none, fill }

/-- Adds a region; its id is the number of regions before it. -/
def addRegion (m : FetchMap) (data : ByteArray) : FetchMap × RegionId :=
  ({ m with regions := m.regions.push data }, ⟨m.regions.size⟩)

/-- The bytes of a region. -/
def region? (m : FetchMap) (id : RegionId) : Option ByteArray :=
  m.regions[id.index]?

/-- A change a host makes through a region's mutable slice: any new contents of the same
length, since the slice cannot grow or shrink. -/
structure SliceEdit where
  apply : ByteArray → ByteArray
  size_apply : ∀ bytes, (apply bytes).size = bytes.size

/-- Replaces the bytes of a region by `f` of them; nothing happens to a missing region. -/
def modifyRegion (m : FetchMap) (id : RegionId) (f : ByteArray → ByteArray) : FetchMap :=
  { m with regions := m.regions.modify id.index f }

/-- The entry of a page. -/
def entry (m : FetchMap) (page : UInt8) : Option PageEntry :=
  m.pages.get ⟨page.toNat, UInt8.toNat_lt page⟩

/-- Whether a page points into a region. -/
def isMapped (m : FetchMap) (page : UInt8) : Bool :=
  (m.entry page).isSome

/-- The byte an instruction fetch reads at an address. -/
def fetch (m : FetchMap) (addr : UInt16) : UInt8 :=
  match m.entry (hiByte addr) with
  | some e =>
    match m.region? e.region with
    | some bytes => bytes[e.offset + (loByte addr).toNat]?.getD m.fill
    | none => m.fill
  | none => m.fill

/-- The byte at an address as a host or the decoder's look-ahead reads it: the page's region
byte if there is one, the fill byte otherwise. Unlike a fetch it is never logged. -/
def peek (m : FetchMap) (addr : UInt16) : UInt8 :=
  ((m.entry (hiByte addr)).bind fun e =>
    (m.region? e.region).bind fun bytes => bytes[e.offset + (loByte addr).toNat]?).getD m.fill

/-- Points pages `first + k`, for `k < count`, at `offset + 256 k` of `region`. -/
def setPages (pages : Vector (Option PageEntry) 256) (first : Nat) (region : RegionId)
    (offset : Nat) : Nat → Vector (Option PageEntry) 256
  | 0 => pages
  | k + 1 =>
    (setPages pages first region offset k).setIfInBounds (first + k)
      (some ⟨region, offset + 256 * k⟩)

/-- Clears pages `first + k`, for `k < count`. -/
def clearPages (pages : Vector (Option PageEntry) 256) (first : Nat) :
    Nat → Vector (Option PageEntry) 256
  | 0 => pages
  | k + 1 => (clearPages pages first k).setIfInBounds (first + k) none

/-- Maps pages `first..last` (inclusive) onto `region` from `offset`. -/
def map (m : FetchMap) (first last : UInt8) (region : RegionId) (offset : Nat) :
    Except Error FetchMap :=
  if first > last then .error (.invalidPageRange first last)
  else match m.region? region with
    | none => .error (.unknownRegion region.index)
    | some bytes =>
      if offset ≥ bytes.size then .error (.offsetOutOfBounds offset bytes.size)
      else .ok { m with
        pages := setPages m.pages first.toNat region offset (last.toNat + 1 - first.toNat) }

/-- Unmaps pages `first..last` (inclusive). -/
def unmap (m : FetchMap) (first last : UInt8) : Except Error FetchMap :=
  if first > last then .error (.invalidPageRange first last)
  else .ok { m with pages := clearPages m.pages first.toNat (last.toNat + 1 - first.toNat) }

end FetchMap

end Z80
