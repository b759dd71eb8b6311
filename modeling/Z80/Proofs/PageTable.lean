import Z80.Proofs.FastRam

/-!
# The page table of the fetch map

A fetch reads an address through the entry of its page (`FetchMap.entryByte`): the byte of
the entry's region at the entry's offset plus the address's low byte, or the fill byte when
the page is unmapped or the region runs out. A host's `peek` reads the same byte
(`peek_eq_fetch`). The byte depends on the map only through the page table, the regions and
the fill byte, and mapping or unmapping pages changes the page table alone.

Mapping pages `first..last` onto a region at `offset` is refused, in this order, for an
inverted range, a region that was never added and an offset at or past the region's end, and
a refusal leaves the CPU as it was. A mapping that goes through makes every address of the
range read the region's byte `offset + 256 (page - first) + low byte`, the fill byte past the
region's end, and leaves every other address alone (`fetch_map`). Unmapping is refused only
for an inverted range; otherwise the range reads the fill byte (`fetch_unmap`). A byte written
into a region is read through every page mapped onto it (`fetch_modifyRegion_set`).
`pageTable_semantics` collects these facts.
-/

namespace Z80

namespace FetchMap

variable {fm fm' : FetchMap} {first last : UInt8} {r : RegionId} {o : Nat}

/-! ## Reading through a page entry -/

/-- The byte the page entry `e` gives an address whose low byte is `lo`. -/
def entryByte (fm : FetchMap) : Option PageEntry → UInt8 → UInt8
  | some e, lo => ((fm.region? e.region).bind fun bytes => bytes[e.offset + lo.toNat]?).getD fm.fill
  | none, _ => fm.fill

theorem fetch_eq_entryByte (fm : FetchMap) (a : UInt16) :
    fm.fetch a = fm.entryByte (fm.entry (hiByte a)) (loByte a) := by
  unfold fetch
  rcases fm.entry (hiByte a) with _ | e
  · rfl
  · rcases hr : fm.region? e.region with _ | bytes <;> simp [entryByte, hr]

/-- A host's look-ahead reads the byte a fetch reads, for every map and address. -/
theorem peek_eq_fetch (fm : FetchMap) (a : UInt16) : fm.peek a = fm.fetch a := by
  rw [fetch_eq_entryByte]
  unfold peek entryByte
  rcases fm.entry (hiByte a) with _ | e <;> rfl

/-- What an entry reads depends only on the regions and the fill byte. -/
theorem entryByte_congr (hr : fm'.regions = fm.regions) (hf : fm'.fill = fm.fill) :
    fm'.entryByte = fm.entryByte := by
  funext e lo
  cases e <;> simp [entryByte, region?, hr, hf]

/-! ## Mapping -/

theorem map_inverted (h : last < first) :
    fm.map first last r o = .error (.invalidPageRange first last) := by
  simp [map, h]

theorem map_unknown (h : first ≤ last) (hr : fm.region? r = none) :
    fm.map first last r o = .error (.unknownRegion r.index) := by
  simp [map, hr, UInt8.not_lt.mpr h]

theorem map_past_end {bytes : ByteArray} (h : first ≤ last) (hr : fm.region? r = some bytes)
    (ho : bytes.size ≤ o) : fm.map first last r o = .error (.offsetOutOfBounds o bytes.size) := by
  simp [map, hr, UInt8.not_lt.mpr h, ho]

/-- A mapping with a proper range, a known region and an offset inside it goes through, and
rewrites only the pages of the range. -/
theorem map_eq_ok {bytes : ByteArray} (h : first ≤ last) (hr : fm.region? r = some bytes)
    (ho : o < bytes.size) :
    fm.map first last r o =
      .ok { fm with pages := setPages fm.pages first.toNat r o (last.toNat + 1 - first.toNat) } := by
  simp [map, hr, UInt8.not_lt.mpr h, Nat.not_le.mpr ho]

theorem map_fill (h : fm.map first last r o = .ok fm') : fm'.fill = fm.fill := by
  unfold map at h
  split_ifs at h
  split at h
  · cases h
  · split_ifs at h
    cases h
    rfl

/-- After a mapping, an address of the range reads its region byte and every other address
reads as before. -/
theorem fetch_map (h : fm.map first last r o = .ok fm') (a : UInt16) :
    fm'.fetch a = if first ≤ hiByte a ∧ hiByte a ≤ last then
        fm.entryByte (some ⟨r, o + 256 * ((hiByte a).toNat - first.toNat)⟩) (loByte a)
      else fm.fetch a := by
  obtain ⟨hreg, hent⟩ := map_ok h
  rw [fetch_eq_entryByte, entryByte_congr hreg (map_fill h), hent]
  split_ifs
  · rfl
  · rw [fetch_eq_entryByte]

/-! ## Unmapping -/

theorem unmap_inverted (h : last < first) :
    fm.unmap first last = .error (.invalidPageRange first last) := by
  simp [unmap, h]

theorem unmap_eq_ok (h : first ≤ last) :
    fm.unmap first last =
      .ok { fm with pages := clearPages fm.pages first.toNat (last.toNat + 1 - first.toNat) } := by
  simp [unmap, UInt8.not_lt.mpr h]

/-- After an unmapping the range reads the fill byte and every other address reads as
before. -/
theorem fetch_unmap (h : fm.unmap first last = .ok fm') (a : UInt16) :
    fm'.fetch a = if first ≤ hiByte a ∧ hiByte a ≤ last then fm.fill else fm.fetch a := by
  obtain ⟨hreg, hent⟩ := unmap_ok h
  have hfill : fm'.fill = fm.fill := by
    unfold unmap at h
    split_ifs at h
    cases h
    rfl
  rw [fetch_eq_entryByte, entryByte_congr hreg hfill, hent]
  split_ifs
  · rfl
  · rw [fetch_eq_entryByte]

/-! ## Writing into a region -/

/-- A byte written into a region is read at every address whose page is mapped onto it. -/
theorem fetch_modifyRegion_set {id : RegionId} {bytes : ByteArray} (hr : fm.region? id = some bytes)
    (j : Nat) (v : UInt8) {a : UInt16} {off : Nat} (ha : fm.entry (hiByte a) = some ⟨id, off⟩) :
    (fm.modifyRegion id (·.set! j v)).fetch a =
      if off + (loByte a).toNat = j ∧ j < bytes.size then v else fm.fetch a := by
  have he : (fm.modifyRegion id (·.set! j v)).entry (hiByte a) = some ⟨id, off⟩ := ha
  rw [fetch_eq_entryByte, he, fetch_eq_entryByte, ha]
  simp only [entryByte, region?_modifyRegion_self, hr, Option.map_some, Option.bind_some,
    getElem?_set!]
  -- the write lands on the byte the address reads exactly when the offsets agree
  by_cases hj : j = off + (loByte a).toNat
  · subst hj
    by_cases hs : off + (loByte a).toNat < bytes.size
    · simp [hs]
    · simp [hs]
      rfl
  · simp [hj, Ne.symm hj]
    rfl

/-- The addresses whose page is not mapped onto the region read as before. -/
theorem fetch_modifyRegion_of_entry {id : RegionId} (f : ByteArray → ByteArray) {a : UInt16}
    (ha : ∀ off, fm.entry (hiByte a) ≠ some ⟨id, off⟩) :
    (fm.modifyRegion id f).fetch a = fm.fetch a := by
  have he : (fm.modifyRegion id f).entry (hiByte a) = fm.entry (hiByte a) := rfl
  rw [fetch_eq_entryByte, he, fetch_eq_entryByte]
  rcases hp : fm.entry (hiByte a) with _ | ⟨id', off⟩
  · rfl
  · have hne : id' ≠ id := fun h => ha off (by rw [hp, h])
    simp only [entryByte, region?_modifyRegion_of_ne _ hne]
    rfl

end FetchMap

/-! ## Refusals through the host -/

namespace HostOp

variable {β : Type} [Bus β]

/-- A refused mapping answers its error and leaves the machine as it was. -/
theorem exec_mapFetch_error {m : Machine β} {first last : UInt8} {r : RegionId} {o : Nat}
    {e : Error} (h : m.cpu.fetch.map first last r o = .error e) :
    (HostOp.mapFetch first last r o).exec m = .error (.refused e) m := by
  simp [exec, attempt, Cpu.mapFetch_eq_error_iff.mpr h]

/-- A refused unmapping answers its error and leaves the machine as it was. -/
theorem exec_unmapFetch_error {m : Machine β} {first last : UInt8} {e : Error}
    (h : m.cpu.fetch.unmap first last = .error e) :
    (HostOp.unmapFetch first last).exec m = .error (.refused e) m := by
  simp [exec, attempt, Cpu.unmapFetch_eq_error_iff.mpr h]

end HostOp

open FetchMap in
/-- The page table of the fetch map. A mapping of pages `first..last` onto region `r` at
offset `o` is refused for an inverted range, then for a region never added, then for an
offset at or past the region's end, each time leaving the machine as it was. Otherwise it goes
through, and every address whose page lies in the range (the last page FF included) reads the
region byte at `o + 256 (page - first) + low byte`, or the fill byte past the region's end,
while every other address reads as before. An unmapping is refused, changing nothing, exactly
for an inverted range, and otherwise makes exactly the range read the fill byte. A host's
`peek` reads what a fetch reads. A byte later written into a region is read through every
page mapped onto it, and no other address changes. -/
theorem pageTable_semantics {β : Type} [Bus β] :
    (∀ (m : Machine β) (first last : UInt8) (r : RegionId) (o : Nat), last < first →
      (HostOp.mapFetch first last r o).exec m =
        .error (.refused (.invalidPageRange first last)) m) ∧
    (∀ (m : Machine β) (first last : UInt8) (r : RegionId) (o : Nat), first ≤ last →
      m.cpu.fetch.region? r = none →
      (HostOp.mapFetch first last r o).exec m = .error (.refused (.unknownRegion r.index)) m) ∧
    (∀ (m : Machine β) (first last : UInt8) (r : RegionId) (o : Nat) (bytes : ByteArray),
      first ≤ last → m.cpu.fetch.region? r = some bytes → bytes.size ≤ o →
      (HostOp.mapFetch first last r o).exec m =
        .error (.refused (.offsetOutOfBounds o bytes.size)) m) ∧
    (∀ (fm : FetchMap) (first last : UInt8) (r : RegionId) (o : Nat) (bytes : ByteArray),
      first ≤ last → fm.region? r = some bytes → o < bytes.size →
      ∃ fm', fm.map first last r o = .ok fm' ∧ ∀ a : UInt16,
        fm'.fetch a = if first ≤ hiByte a ∧ hiByte a ≤ last then
          bytes[o + 256 * ((hiByte a).toNat - first.toNat) + (loByte a).toNat]?.getD fm.fill
        else fm.fetch a) ∧
    (∀ (m : Machine β) (first last : UInt8), last < first →
      (HostOp.unmapFetch first last).exec m = .error (.refused (.invalidPageRange first last)) m) ∧
    (∀ (fm : FetchMap) (first last : UInt8), first ≤ last →
      ∃ fm', fm.unmap first last = .ok fm' ∧ ∀ a : UInt16,
        fm'.fetch a = if first ≤ hiByte a ∧ hiByte a ≤ last then fm.fill else fm.fetch a) ∧
    (∀ (fm : FetchMap) (a : UInt16), fm.peek a = fm.fetch a) ∧
    (∀ (fm : FetchMap) (id : RegionId) (bytes : ByteArray) (j : Nat) (v : UInt8),
      fm.region? id = some bytes →
      (∀ (a : UInt16) (off : Nat), fm.entry (hiByte a) = some ⟨id, off⟩ →
        (fm.modifyRegion id (·.set! j v)).fetch a =
          if off + (loByte a).toNat = j ∧ j < bytes.size then v else fm.fetch a) ∧
      (∀ a : UInt16, (∀ off, fm.entry (hiByte a) ≠ some ⟨id, off⟩) →
        (fm.modifyRegion id (·.set! j v)).fetch a = fm.fetch a)) := by
  refine ⟨fun m first last r o h => HostOp.exec_mapFetch_error (map_inverted h),
    fun m first last r o h hr => HostOp.exec_mapFetch_error (map_unknown h hr),
    fun m first last r o bytes h hr ho => HostOp.exec_mapFetch_error (map_past_end h hr ho),
    ?_, fun m first last h => HostOp.exec_unmapFetch_error (unmap_inverted h), ?_,
    peek_eq_fetch, fun fm id bytes j v hr =>
      ⟨fun a off ha => fetch_modifyRegion_set hr j v ha,
        fun a ha => fetch_modifyRegion_of_entry _ ha⟩⟩
  · intro fm first last r o bytes h hr ho
    refine ⟨_, map_eq_ok h hr ho, fun a => ?_⟩
    rw [fetch_map (map_eq_ok h hr ho)]
    simp only [entryByte, hr, Option.bind_some]
  · intro fm first last h
    exact ⟨_, unmap_eq_ok h, fetch_unmap (unmap_eq_ok h)⟩

end Z80
