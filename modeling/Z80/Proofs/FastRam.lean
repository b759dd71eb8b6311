import Z80.Proofs.Lifecycle

/-!
# Fast RAM

A CPU built with a fast RAM window keeps the window's bytes itself, as a region of its
fetch map, and three pieces of code find them. Data reads and writes go through
`FastRamWindow.offsetOf`; instruction fetches go through the page table, whose window
pages `Cpu.create` maps from `FastRamWindow.pages`. This module shows that they agree.

`Machine.mem` is memory as a program on a plain bus sees it: byte `a - base` of the fast
RAM inside the window, the bus's RAM byte outside. The data path needs only
`Cpu.DataLayout`: the window and a region of exactly its size. Under it a data read of `a`
returns `mem a` (inside the window without the bus) and a data write of `a` changes
`mem a` and nothing else (inside the window without the bus). Words and the stack follow:
a word written reads back, wrapping at FFFF and straddling the window's edges, and POP
returns what PUSH pushed. `Cpu.FastLayout` adds what a CPU built with a valid window keeps
as long as the window's pages stay mapped, each window page mapped at its offset of the
region; under it an instruction fetch inside the window returns `mem a` too.
-/

namespace Z80

/-! ## The window -/

namespace FastRamWindow

/-- An address inside the window, `base ≤ a < base + size`. -/
def Contains (w : FastRamWindow) (a : UInt16) : Prop :=
  w.base.toNat ≤ a.toNat ∧ a.toNat < w.base.toNat + w.size

instance (w : FastRamWindow) (a : UInt16) : Decidable (w.Contains a) := by
  unfold Contains
  infer_instance

theorem mask_eq_zero_iff (b : UInt16) : b &&& 0xFF = 0 ↔ b.toNat % 256 = 0 := by
  rw [← UInt16.toNat_inj, UInt16.toNat_and]
  have h : (0xFF : UInt16).toNat = 2 ^ 8 - 1 := rfl
  rw [h, Nat.and_two_pow_sub_one_eq_mod]
  simp

/-- A window is valid when it starts on a page, holds a non-zero whole number of pages
and ends within 64 KiB. -/
theorem isValid_iff (w : FastRamWindow) :
    w.isValid = true ↔ w.base.toNat % 256 = 0 ∧ w.size ≠ 0 ∧ w.size % 256 = 0 ∧
      w.base.toNat + w.size ≤ 0x10000 := by
  simp [isValid, ← mask_eq_zero_iff, and_assoc]

theorem offsetOf_eq (w : FastRamWindow) (a : UInt16) :
    w.offsetOf a = if w.Contains a then some (a.toNat - w.base.toNat) else none := by
  unfold offsetOf Contains
  by_cases hb : w.base ≤ a
  · have hle : w.base.toNat ≤ a.toNat := UInt16.le_iff_toNat_le.mp hb
    have hs : (a - w.base).toNat = a.toNat - w.base.toNat := UInt16.toNat_sub_of_le _ _ hb
    have hc : a.toNat - w.base.toNat < w.size ↔ a.toNat < w.base.toNat + w.size := by omega
    simp only [hs, hb, hle, hc, true_and]
  · have hlt : ¬ w.base.toNat ≤ a.toNat := fun h => hb (UInt16.le_iff_toNat_le.mpr h)
    simp [hb, hlt]

theorem toNat_pages_fst (w : FastRamWindow) : w.pages.1.toNat = w.base.toNat / 256 := by
  simp only [pages, UInt16.toNat_toUInt8, UInt16.toNat_shiftRight, Nat.shiftRight_eq_div_pow]
  have := w.base.toNat_lt
  simp
  omega

theorem toNat_pages_snd {w : FastRamWindow} (h : w.isValid = true) :
    w.pages.2.toNat = (w.base.toNat + w.size - 1) / 256 := by
  obtain ⟨-, -, -, hend⟩ := (isValid_iff w).mp h
  simp only [pages, Nat.toUInt8_eq, UInt8.toNat_ofNat']
  omega

variable {w : FastRamWindow} (h : w.isValid = true)

include h in
/-- In a valid window, an address lies inside exactly when its page lies between the
window's first and last page. -/
theorem contains_iff_page (a : UInt16) :
    w.Contains a ↔ w.pages.1 ≤ hiByte a ∧ hiByte a ≤ w.pages.2 := by
  obtain ⟨hb, hs, hs', hend⟩ := (isValid_iff w).mp h
  rw [UInt8.le_iff_toNat_le, UInt8.le_iff_toNat_le, toNat_pages_fst, toNat_pages_snd h,
    toNat_hiByte, Contains]
  omega

include h in
/-- Inside a valid window, an address's offset is 256 times its page's distance from the
first page, plus its place in the page. -/
theorem offset_eq_page {a : UInt16} (ha : w.Contains a) :
    a.toNat - w.base.toNat = 256 * ((hiByte a).toNat - w.pages.1.toNat) + (loByte a).toNat := by
  obtain ⟨hb, -, -, -⟩ := (isValid_iff w).mp h
  rw [toNat_pages_fst, toNat_hiByte, toNat_loByte]
  obtain ⟨h₁, h₂⟩ := ha
  omega

end FastRamWindow

/-! ## The page table -/

namespace FetchMap

theorem getElem_setPages (pages : Vector (Option PageEntry) 256) (first : Nat) (r : RegionId)
    (o n j : Nat) (hj : j < 256) :
    (setPages pages first r o n)[j] =
      if first ≤ j ∧ j < first + n then some ⟨r, o + 256 * (j - first)⟩ else pages[j] := by
  induction n with
  | zero => simp [setPages]
  | succ n ih =>
    rw [setPages, Vector.getElem_setIfInBounds, ih]
    by_cases hk : first + n = j
    · subst hk
      simp
    · have hc : (first ≤ j ∧ j < first + (n + 1)) ↔ (first ≤ j ∧ j < first + n) := by omega
      simp only [hk, hc, if_false]

theorem getElem_clearPages (pages : Vector (Option PageEntry) 256) (first n j : Nat)
    (hj : j < 256) :
    (clearPages pages first n)[j] = if first ≤ j ∧ j < first + n then none else pages[j] := by
  induction n with
  | zero => simp [clearPages]
  | succ n ih =>
    rw [clearPages, Vector.getElem_setIfInBounds, ih]
    by_cases hk : first + n = j
    · subst hk
      simp
    · have hc : (first ≤ j ∧ j < first + (n + 1)) ↔ (first ≤ j ∧ j < first + n) := by omega
      simp only [hk, hc, if_false]

/-- A mapping points each page of its range at its offset of the region, and leaves the
other pages and the regions alone. -/
theorem map_ok {fm fm' : FetchMap} {first last : UInt8} {r : RegionId} {o : Nat}
    (h : fm.map first last r o = .ok fm') :
    fm'.regions = fm.regions ∧ ∀ p : UInt8, fm'.entry p =
      if first ≤ p ∧ p ≤ last then some ⟨r, o + 256 * (p.toNat - first.toNat)⟩ else fm.entry p := by
  unfold map at h
  split_ifs at h with hr
  split at h
  · cases h
  · split_ifs at h
    cases h
    refine ⟨rfl, fun p => ?_⟩
    simp only [entry, Vector.get_eq_getElem, getElem_setPages _ _ _ _ _ _ p.toNat_lt]
    rw [gt_iff_lt, UInt8.lt_iff_toNat_lt] at hr
    have hc : (first.toNat ≤ p.toNat ∧ p.toNat < first.toNat + (last.toNat + 1 - first.toNat)) ↔
        (first ≤ p ∧ p ≤ last) := by
      rw [UInt8.le_iff_toNat_le, UInt8.le_iff_toNat_le]
      omega
    simp only [hc]

/-- An unmapping clears each page of its range, and leaves the other pages and the
regions alone. -/
theorem unmap_ok {fm fm' : FetchMap} {first last : UInt8} (h : fm.unmap first last = .ok fm') :
    fm'.regions = fm.regions ∧
      ∀ p : UInt8, fm'.entry p = if first ≤ p ∧ p ≤ last then none else fm.entry p := by
  unfold unmap at h
  split_ifs at h with hr
  cases h
  refine ⟨rfl, fun p => ?_⟩
  simp only [entry, Vector.get_eq_getElem, getElem_clearPages _ _ _ _ p.toNat_lt]
  rw [gt_iff_lt, UInt8.lt_iff_toNat_lt] at hr
  have hc : (first.toNat ≤ p.toNat ∧ p.toNat < first.toNat + (last.toNat + 1 - first.toNat)) ↔
      (first ≤ p ∧ p ≤ last) := by
    rw [UInt8.le_iff_toNat_le, UInt8.le_iff_toNat_le]
    omega
  simp only [hc]

end FetchMap

theorem getElem?_set! (b : ByteArray) (i j : Nat) (v : UInt8) :
    (b.set! i v)[j]? = if i = j then (if i < b.size then some v else none) else b[j]? := by
  show (b.data.set! i v)[j]? = _
  rw [Array.set!_eq_setIfInBounds, Array.getElem?_setIfInBounds]
  rfl

namespace FetchMap

theorem region?_modifyRegion_self (fm : FetchMap) (id : RegionId) (f : ByteArray → ByteArray) :
    (fm.modifyRegion id f).region? id = (fm.region? id).map f := by
  simp [modifyRegion, region?, Array.getElem?_modify]

theorem region?_modifyRegion_of_ne (fm : FetchMap) {id id' : RegionId} (hne : id' ≠ id)
    (f : ByteArray → ByteArray) : (fm.modifyRegion id f).region? id' = fm.region? id' := by
  have hi : id.index ≠ id'.index := fun e => hne (by cases id; cases id'; simp_all)
  simp [modifyRegion, region?, Array.getElem?_modify, hi]

theorem size_modifyRegion (fm : FetchMap) (id id' : RegionId) {f : ByteArray → ByteArray}
    (hf : ∀ b, (f b).size = b.size) :
    ((fm.modifyRegion id f).region? id').map ByteArray.size = (fm.region? id').map ByteArray.size := by
  by_cases he : id' = id
  · subst he
    simp only [region?_modifyRegion_self, Option.map_map]
    congr 1
    funext b
    exact hf b
  · rw [region?_modifyRegion_of_ne _ he]

end FetchMap

/-! ## The layout a window keeps -/

/-- What the data path reads of a fast RAM window: the CPU's window `w` with its region
`id`, a region of exactly the window's size. -/
structure Cpu.DataLayout (c : Cpu) (w : FastRamWindow) (id : RegionId) : Prop where
  fastRam : c.fastRam = some ⟨w, id⟩
  size : (c.fetch.region? id).map ByteArray.size = some w.size

/-- What a CPU built with the valid window `w` keeps while the window's pages stay
mapped: the data layout, and each window page mapped at its offset of the region. -/
structure Cpu.FastLayout (c : Cpu) (w : FastRamWindow) (id : RegionId) : Prop
    extends c.DataLayout w id where
  valid : w.isValid = true
  pages : ∀ p : UInt8, w.pages.1 ≤ p → p ≤ w.pages.2 →
    c.fetch.entry p = some ⟨id, 256 * (p.toNat - w.pages.1.toNat)⟩

namespace Cpu

theorem create_of_invalid {config : Config} {w : FastRamWindow} (hw : config.fastRam = some w)
    (hv : w.isValid = false) : Cpu.create config = .error (.invalidFastRam w.base w.size) := by
  simp [Cpu.create, hw, FastRamWindow.validate, hv, bind, Except.bind]

/-- A valid window is built: its zeroed bytes become region 0 and its pages are mapped
onto them. -/
theorem create_of_valid {config : Config} {w : FastRamWindow} (hw : config.fastRam = some w)
    (hv : w.isValid = true) : ∃ c, Cpu.create config = .ok c ∧ c.FastLayout w ⟨0⟩ := by
  obtain ⟨-, hs, -, hend⟩ := (FastRamWindow.isValid_iff w).mp hv
  have hle : ¬ w.pages.1 > w.pages.2 := by
    rw [gt_iff_lt, UInt8.lt_iff_toNat_lt, FastRamWindow.toNat_pages_fst,
      FastRamWindow.toNat_pages_snd hv]
    omega
  obtain ⟨fm, hmap⟩ : ∃ fm, ((FetchMap.empty config.unmappedFill).addRegion
      (ByteArray.mk (Array.replicate w.size 0))).1.map w.pages.1 w.pages.2 ⟨0⟩ 0 = .ok fm := by
    simp [FetchMap.map, hle, FetchMap.addRegion, FetchMap.empty, FetchMap.region?, hs,
      ByteArray.size]
  obtain ⟨hreg, hent⟩ := FetchMap.map_ok hmap
  let c : Cpu :=
    { regs := {}, fetch := fm, fastRam := some ⟨w, ⟨0⟩⟩, odometer := {}, config,
      eiShadow := false, refreshClock := 0, rWrittenAt := 0 }
  refine ⟨c, ?_, ⟨⟨rfl, ?_⟩, hv, fun p h₁ h₂ => ?_⟩⟩
  · have hid : ((FetchMap.empty config.unmappedFill).addRegion
        (ByteArray.mk (Array.replicate w.size 0))).2 = ⟨0⟩ := rfl
    simp only [Cpu.create, hw, FastRamWindow.validate, hv, if_true, bind, Except.bind, hid, hmap]
    rfl
  · show (fm.regions[0]?).map ByteArray.size = some w.size
    rw [hreg]
    show some (ByteArray.mk (Array.replicate w.size 0)).size = some w.size
    simp [ByteArray.size]
  · show fm.entry p = _
    rw [hent, if_pos ⟨h₁, h₂⟩, Nat.zero_add]

/-- Building a CPU with a fast RAM window succeeds exactly when the window is valid. -/
theorem create_ok_iff {config : Config} {w : FastRamWindow} (hw : config.fastRam = some w) :
    (∃ c, Cpu.create config = .ok c) ↔ w.isValid = true := by
  constructor
  · rintro ⟨c, hc⟩
    cases hv : w.isValid
    · rw [create_of_invalid hw hv] at hc
      cases hc
    · rfl
  · intro hv
    obtain ⟨c, hc, -⟩ := create_of_valid hw hv
    exact ⟨c, hc⟩

/-- Whether an address lies in the fast RAM window. -/
def inFastRam (c : Cpu) (a : UInt16) : Bool :=
  match c.fastRam with
  | some fr => decide (fr.window.Contains a)
  | none => false

/-- Byte `a - base` of the fast RAM; 0 when there is no such byte. -/
def fastRamByte (c : Cpu) (a : UInt16) : UInt8 :=
  match c.fastRam with
  | some fr =>
    ((c.fetch.region? fr.region).bind fun bytes => bytes[a.toNat - fr.window.base.toNat]?).getD 0
  | none => 0

end Cpu

/-- Memory as a program on a plain bus sees it: byte `a - base` of the fast RAM inside
the window, the bus's RAM byte outside. -/
def Machine.mem (m : Machine SimpleBus) (a : UInt16) : UInt8 :=
  if m.cpu.inFastRam a then m.cpu.fastRamByte a else m.bus.peek a

/-! ## Data accesses and fetches under the layout -/

namespace Cpu.DataLayout

variable {c : Cpu} {w : FastRamWindow} {id : RegionId}

theorem inFastRam_eq (h : c.DataLayout w id) (a : UInt16) :
    c.inFastRam a = decide (w.Contains a) := by
  simp only [inFastRam, h.fastRam]

/-- The data path finds an address in the window through `offsetOf`, at offset `a - base`
of the window's region. -/
theorem fastSlot_eq (h : c.DataLayout w id) (a : UInt16) :
    c.fastSlot a = if w.Contains a then some (id, a.toNat - w.base.toNat) else none := by
  simp only [fastSlot, h.fastRam, Option.bind_some, FastRamWindow.offsetOf_eq]
  split <;> rfl

theorem getElem?_region (h : c.DataLayout w id) {a : UInt16} (ha : w.Contains a) :
    (c.fetch.region? id).bind (fun bytes => bytes[a.toNat - w.base.toNat]?) =
      some (c.fastRamByte a) := by
  obtain ⟨bytes, hb, hsize⟩ := Option.map_eq_some_iff.mp h.size
  have hlt : a.toNat - w.base.toNat < bytes.size := by
    obtain ⟨h₁, h₂⟩ := ha
    omega
  have he : bytes[a.toNat - w.base.toNat]? = some bytes[a.toNat - w.base.toNat] :=
    getElem?_pos bytes (a.toNat - w.base.toNat) hlt
  simp only [fastRamByte, h.fastRam, hb, Option.bind_some, he, Option.getD_some]

/-- Writing a byte of the window's region in place keeps the layout. -/
theorem setByte (h : c.DataLayout w id) (off : Nat) (v : UInt8) :
    (c.modifyRegion id fun bytes => bytes.set! off v).DataLayout w id := by
  refine ⟨h.fastRam, ?_⟩
  rw [← h.size]
  exact c.fetch.size_modifyRegion id id fun bytes => ByteArray.size_set! bytes off v

/-- Writing the byte of an address of the window: every other address of the window keeps
its byte. -/
theorem fastRamByte_setByte (h : c.DataLayout w id) {a b : UInt16} (ha : w.Contains a)
    (hb : w.Contains b) (v : UInt8) :
    (c.modifyRegion id fun bytes => bytes.set! (a.toNat - w.base.toNat) v).fastRamByte b =
      if b = a then v else c.fastRamByte b := by
  obtain ⟨bytes, hbytes, hsize⟩ := Option.map_eq_some_iff.mp h.size
  have hnew := (h.setByte (a.toNat - w.base.toNat) v).getElem?_region hb
  have hold := h.getElem?_region hb
  simp only [modifyRegion, FetchMap.region?_modifyRegion_self, hbytes, Option.map_some,
    Option.bind_some, getElem?_set!] at hnew
  rw [hbytes, Option.bind_some] at hold
  by_cases hab : b = a
  · subst hab
    have hlt : b.toNat - w.base.toNat < bytes.size := by
      obtain ⟨h₁, h₂⟩ := hb
      omega
    rw [if_pos rfl, if_pos hlt] at hnew
    rw [if_pos rfl]
    exact (Option.some.inj hnew).symm
  · -- distinct addresses of the window sit at distinct offsets
    have hoff : a.toNat - w.base.toNat ≠ b.toNat - w.base.toNat := by
      intro e
      apply hab
      apply UInt16.toNat_inj.mp
      obtain ⟨ha₁, -⟩ := ha
      obtain ⟨hb₁, -⟩ := hb
      omega
    rw [if_neg hoff, hold] at hnew
    rw [if_neg hab]
    exact (Option.some.inj hnew).symm

end Cpu.DataLayout

namespace Cpu.FastLayout

variable {c : Cpu} {w : FastRamWindow} {id : RegionId}

/-- The fetch path finds an address in the window through the page table, at the same
byte: page `p` points at offset `256 (p - first)`, and the window starts on page
`first`. -/
theorem fetch_eq (h : c.FastLayout w id) {a : UInt16} (ha : w.Contains a) :
    c.fetch.fetch a = c.fastRamByte a := by
  have hp := (FastRamWindow.contains_iff_page h.valid a).mp ha
  have hoff := FastRamWindow.offset_eq_page h.valid ha
  obtain ⟨bytes, hb, -⟩ := Option.map_eq_some_iff.mp h.size
  have hr := h.getElem?_region ha
  rw [hb, Option.bind_some] at hr
  simp only [FetchMap.fetch, h.pages _ hp.1 hp.2, hb]
  rw [← hoff, hr, Option.getD_some]

theorem setByte (h : c.FastLayout w id) (off : Nat) (v : UInt8) :
    (c.modifyRegion id fun bytes => bytes.set! off v).FastLayout w id :=
  ⟨h.toDataLayout.setByte off v, h.valid, h.pages⟩

end Cpu.FastLayout

namespace Machine

variable {β : Type} [Bus β] {m : Machine β} {w : FastRamWindow} {id : RegionId}

/-- A data read inside the window returns the fast RAM byte, whatever the bus, and leaves
the machine as it is. -/
theorem readByte_of_contains (h : m.cpu.DataLayout w id) {a : UInt16} (ha : w.Contains a) :
    (Exec.readByte a : Exec β UInt8) m = .ok (m.cpu.fastRamByte a) m := by
  simp only [Exec.readByte, h.fastSlot_eq, if_pos ha, Exec.fastByte]
  rw [h.getElem?_region ha, Option.getD_some]

/-- A data write inside the window writes the fast RAM byte and leaves the bus alone. -/
theorem write_of_contains (h : m.cpu.DataLayout w id) {a : UInt16} (ha : w.Contains a)
    (v : UInt8) :
    m.write a v =
      { m with cpu := m.cpu.modifyRegion id fun bytes => bytes.set! (a.toNat - w.base.toNat) v } := by
  simp only [Machine.write, Exec.writeByte, h.fastSlot_eq, if_pos ha]

/-- A data write outside the window goes to the bus and leaves the CPU alone. -/
theorem write_of_not_contains (h : m.cpu.DataLayout w id) {a : UInt16} (ha : ¬ w.Contains a)
    (v : UInt8) : m.write a v = { m with bus := Bus.write m.bus a v } := by
  simp only [Machine.write, Exec.writeByte, h.fastSlot_eq, if_neg ha]

theorem dataLayout_write (h : m.cpu.DataLayout w id) (a : UInt16) (v : UInt8) :
    (m.write a v).cpu.DataLayout w id := by
  by_cases ha : w.Contains a
  · rw [write_of_contains h ha]
    exact h.setByte _ v
  · rw [write_of_not_contains h ha]
    exact h

theorem fastLayout_write (h : m.cpu.FastLayout w id) (a : UInt16) (v : UInt8) :
    (m.write a v).cpu.FastLayout w id := by
  by_cases ha : w.Contains a
  · rw [write_of_contains h.toDataLayout ha]
    exact h.setByte _ v
  · rw [write_of_not_contains h.toDataLayout ha]
    exact h

/-- Code written into the window runs at once: the next fetch of an address of the window
reads what a data write put there. -/
theorem fetch_write (h : m.cpu.FastLayout w id) {a : UInt16} (ha : w.Contains a) (v : UInt8) :
    (m.write a v).cpu.fetch.fetch a = v := by
  rw [(fastLayout_write h a v).fetch_eq ha, write_of_contains h.toDataLayout ha,
    h.fastRamByte_setByte ha ha, if_pos rfl]

end Machine

/-! ## Memory on a plain bus -/

namespace SimpleBus

theorem size_poke (b : SimpleBus) (a : UInt16) (v : UInt8) :
    (b.poke a v).memory.size = b.memory.size :=
  ByteArray.size_set! _ _ _

/-- On 64 KiB of RAM a poke changes the byte at its address and no other. -/
theorem peek_poke {b : SimpleBus} (hs : b.memory.size = 0x10000) (a a' : UInt16) (v : UInt8) :
    (b.poke a v).peek a' = if a' = a then v else b.peek a' := by
  simp only [peek, poke, getElem?_set!, hs, a.toNat_lt, if_true]
  by_cases h : a' = a
  · subst h
    simp
  · have hn : a.toNat ≠ a'.toNat := fun e => h (UInt16.toNat_inj.mp e).symm
    simp [h, hn]

end SimpleBus

namespace Machine

variable {m : Machine SimpleBus} {w : FastRamWindow} {id : RegionId}

theorem mem_of_contains (h : m.cpu.DataLayout w id) {a : UInt16} (ha : w.Contains a) :
    m.mem a = m.cpu.fastRamByte a := by
  simp [mem, h.inFastRam_eq, ha]

theorem mem_of_not_contains (h : m.cpu.DataLayout w id) {a : UInt16} (ha : ¬ w.Contains a) :
    m.mem a = m.bus.peek a := by
  simp [mem, h.inFastRam_eq, ha]

/-- Every data read returns `mem a`, and leaves the machine as it is. -/
theorem readByte_mem (h : m.cpu.DataLayout w id) (a : UInt16) :
    (Exec.readByte a : Exec SimpleBus UInt8) m = .ok (m.mem a) m := by
  by_cases ha : w.Contains a
  · rw [readByte_of_contains h ha, mem_of_contains h ha]
  · rw [mem_of_not_contains h ha]
    simp only [Exec.readByte, h.fastSlot_eq, if_neg ha]
    rfl

/-- An instruction fetch inside the window returns `mem a`. -/
theorem fetch_mem (h : m.cpu.FastLayout w id) {a : UInt16} (ha : w.Contains a) :
    m.cpu.fetch.fetch a = m.mem a := by
  rw [h.fetch_eq ha, mem_of_contains h.toDataLayout ha]

theorem size_write (h : m.cpu.DataLayout w id) (a : UInt16) (v : UInt8) :
    (m.write a v).bus.memory.size = m.bus.memory.size := by
  by_cases ha : w.Contains a
  · rw [write_of_contains h ha]
  · rw [write_of_not_contains h ha]
    exact SimpleBus.size_poke _ _ _

/-- A data write changes `mem a` and no other byte of memory. -/
theorem mem_write (h : m.cpu.DataLayout w id) (hs : m.bus.memory.size = 0x10000)
    (a b : UInt16) (v : UInt8) : (m.write a v).mem b = if b = a then v else m.mem b := by
  have h' := dataLayout_write h a v
  by_cases ha : w.Contains a
  · by_cases hb : w.Contains b
    · rw [mem_of_contains h' hb, mem_of_contains h hb, write_of_contains h ha,
        h.fastRamByte_setByte ha hb]
    · have hab : b ≠ a := fun e => hb (e ▸ ha)
      rw [mem_of_not_contains h' hb, mem_of_not_contains h hb, if_neg hab,
        write_of_contains h ha]
  · rw [write_of_not_contains h ha] at h' ⊢
    by_cases hb : w.Contains b
    · have hab : b ≠ a := fun e => ha (e ▸ hb)
      rw [mem_of_contains h' hb, mem_of_contains h hb, if_neg hab]
    · rw [mem_of_not_contains h' hb, mem_of_not_contains h hb]
      exact SimpleBus.peek_poke hs a b v

end Machine

/-! ## Words and the stack -/

namespace Machine

open Exec

theorem writeWord_apply {β : Type} [Bus β] (a v : UInt16) (m : Machine β) :
    (Exec.writeWord a v : Exec β Unit) m = .ok () ((m.write a (loByte v)).write (a + 1) (hiByte v)) := by
  simp only [Exec.writeWord, bind_apply, writeByte_apply, elim_ok]

theorem succ_ne (a : UInt16) : a + 1 ≠ a := by
  intro h
  have h' := congrArg UInt16.toNat h
  rw [UInt16.toNat_add] at h'
  simp at h'
  omega

/-- A change of the registers leaves memory and the layout as they are. -/
theorem dataLayout_regs {β : Type} {m : Machine β} {w : FastRamWindow} {id : RegionId}
    (h : m.cpu.DataLayout w id) (r : Registers) :
    ({ m with cpu := { m.cpu with regs := r } } : Machine β).cpu.DataLayout w id :=
  ⟨h.fastRam, h.size⟩

variable {m : Machine SimpleBus} {w : FastRamWindow} {id : RegionId}

/-- A word written at any address reads back unchanged: its bytes go to `a` and `a + 1`,
which differ even when `a + 1` wraps to 0 or the two lie on either side of the window's
edge. -/
theorem readWord_writeWord (h : m.cpu.DataLayout w id) (hs : m.bus.memory.size = 0x10000)
    (a v : UInt16) {m' : Machine SimpleBus} (hw : (Exec.writeWord a v : Exec SimpleBus Unit) m = .ok () m') :
    (Exec.readWord a : Exec SimpleBus UInt16) m' = .ok v m' := by
  rw [writeWord_apply] at hw
  cases hw
  have h₁ := dataLayout_write h a (loByte v)
  have hs₁ : (m.write a (loByte v)).bus.memory.size = 0x10000 := (size_write h _ _).trans hs
  have h₂ := dataLayout_write h₁ (a + 1) (hiByte v)
  have hhi : ((m.write a (loByte v)).write (a + 1) (hiByte v)).mem (a + 1) = hiByte v := by
    rw [mem_write h₁ hs₁, if_pos rfl]
  have hlo : ((m.write a (loByte v)).write (a + 1) (hiByte v)).mem a = loByte v := by
    rw [mem_write h₁ hs₁, if_neg (succ_ne a).symm, mem_write h hs, if_pos rfl]
  simp only [Exec.readWord, bind_apply, readByte_mem h₂, elim_ok, pure_apply, hhi, hlo,
    word_hiByte_loByte]

/-- POP returns the word PUSH pushed, wherever SP points, and restores SP. -/
theorem pop_push (h : m.cpu.DataLayout w id) (hs : m.bus.memory.size = 0x10000) (v : UInt16) :
    (Exec.pop : Exec SimpleBus UInt16) (m.push v) =
      .ok v { m.push v with
        cpu := { (m.push v).cpu with regs := { (m.push v).cpu.regs with sp := m.cpu.regs.sp } } } := by
  let sp := m.cpu.regs.sp
  let m₁ : Machine SimpleBus := { m with cpu := { m.cpu with regs := { m.cpu.regs with sp := sp - 1 } } }
  let m₂ := m₁.write (sp - 1) (hiByte v)
  let m₃ : Machine SimpleBus :=
    { m₂ with cpu := { m₂.cpu with regs := { m₂.cpu.regs with sp := sp - 2 } } }
  have hpush : m.push v = m₃.write (sp - 2) (loByte v) := rfl
  have h₁ : m₁.cpu.DataLayout w id := dataLayout_regs h _
  have h₂ : m₂.cpu.DataLayout w id := dataLayout_write h₁ _ _
  have h₃ : m₃.cpu.DataLayout w id := dataLayout_regs h₂ _
  have hs₂ : m₂.bus.memory.size = 0x10000 := (size_write h₁ _ _).trans hs
  have h₄ := dataLayout_write h₃ (sp - 2) (loByte v)
  have hsp : (m.push v).cpu.regs.sp = sp - 2 := by simp [sp]
  have hnext : sp - 2 + 1 = sp - 1 := by grind
  have hlo : (m.push v).mem (sp - 2) = loByte v := by
    rw [hpush, mem_write h₃ hs₂, if_pos rfl]
  have hhi : (m.push v).mem (sp - 1) = hiByte v := by
    -- the low byte lands one below, and the SP updates leave memory alone
    have hne : sp - 1 ≠ sp - 2 := by
      rw [← hnext]
      exact succ_ne _
    rw [hpush, mem_write h₃ hs₂, if_neg hne]
    show m₂.mem (sp - 1) = hiByte v
    rw [mem_write h₁ hs, if_pos rfl]
  rw [← hpush] at h₄
  simp only [Exec.pop, bind_apply, elim_regs, Exec.readWord, readByte_mem h₄, elim_ok, hsp,
    hnext, hlo, hhi, word_hiByte_loByte, Exec.modifyRegs, Exec.modifyCpu, pure_apply]
  congr
  grind

end Machine

end Z80
