import Z80.Proofs.FastRam

/-!
# Fast RAM through a session

Execution never changes the shape of the fetch map (`Cpu.fetchShape`: the fast RAM
window, the page table and the length of each region): a data write changes a region
byte in place, and everything else an instruction does touches registers, counters and
the bus. So the layout a valid window is built with lasts through every step and run,
and through every host call that leaves the window's pages mapped as they were
(`FastSession`). The facts of `FastRam` hold at every machine of such a session.
-/

open Std.Do

set_option mvcgen.warning false

namespace Z80

/-- The fast RAM window, a page table and the length of each region. -/
abbrev FetchShape : Type := Option FastRam × Vector (Option PageEntry) 256 × (RegionId → Option Nat)

/-- What execution never changes of the fetch map and the fast RAM: the window, the page
table and the length of each region. -/
def Cpu.fetchShape (c : Cpu) : FetchShape :=
  (c.fastRam, c.fetch.pages, fun id => (c.fetch.region? id).map ByteArray.size)

namespace Cpu.FastLayout

variable {c c' : Cpu} {w : FastRamWindow} {id : RegionId}

/-- The layout lasts while the window, the length of its region and the entries of its
pages do. -/
theorem of_window (h : c.FastLayout w id) (hf : c'.fastRam = c.fastRam)
    (hr : (c'.fetch.region? id).map ByteArray.size = (c.fetch.region? id).map ByteArray.size)
    (hp : ∀ p, w.pages.1 ≤ p → p ≤ w.pages.2 → c'.fetch.entry p = c.fetch.entry p) :
    c'.FastLayout w id := by
  refine ⟨⟨hf ▸ h.fastRam, hr ▸ h.size⟩, h.valid, fun p h₁ h₂ => ?_⟩
  rw [hp p h₁ h₂]
  exact h.pages p h₁ h₂

theorem of_fetchShape (h : c.FastLayout w id) (hs : c'.fetchShape = c.fetchShape) :
    c'.FastLayout w id := by
  simp only [Cpu.fetchShape, Prod.mk.injEq] at hs
  obtain ⟨hf, hp, hr⟩ := hs
  exact h.of_window hf (congrFun hr id) fun p _ _ => by simp only [FetchMap.entry, hp]

end Cpu.FastLayout

namespace Cpu

@[simp] theorem refreshBy_fetch (c : Cpu) (n : Nat) :
    (c.refreshBy n).fetch = c.fetch ∧ (c.refreshBy n).fastRam = c.fastRam := by
  unfold Cpu.refreshBy
  split <;> exact ⟨rfl, rfl⟩

@[simp] theorem refresh_fetch (c : Cpu) : c.refresh.fetch = c.fetch ∧ c.refresh.fastRam = c.fastRam := by
  unfold Cpu.refresh
  split <;> exact ⟨rfl, rfl⟩

end Cpu

namespace Machine

variable {β : Type} [Bus β]

/-- A data write changes region bytes in place: the page table and the length of every
region stay as they were. -/
@[simp] theorem write_fetch (m : Machine β) (a : UInt16) (v : UInt8) :
    (m.write a v).cpu.fetch.pages = m.cpu.fetch.pages ∧
      ∀ id, ((m.write a v).cpu.fetch.region? id).map ByteArray.size =
        (m.cpu.fetch.region? id).map ByteArray.size := by
  unfold Machine.write Exec.writeByte
  cases hs : m.cpu.fastSlot a with
  | none => exact ⟨rfl, fun _ => rfl⟩
  | some slot =>
    obtain ⟨id, off⟩ := slot
    exact ⟨rfl, fun id' => m.cpu.fetch.size_modifyRegion id id' fun b => ByteArray.size_set! b off v⟩

end Machine

/-! ## Execution keeps the shape -/

namespace Exec

variable {β : Type} [Bus β]

theorem exec_fetchShape (i : Instr) (S : FetchShape) :
    ⦃fun m : Machine β => ⌜m.cpu.fetchShape = S⌝⦄ (i.exec : Exec β Nat)
    ⦃post⟨fun _ m => ⌜m.cpu.fetchShape = S⌝, fun _ m => ⌜m.cpu.fetchShape = S⌝⟩⦄ := by
  cases i
  -- IN r,(C) picks its destination by a match inside the register update
  case inC dst =>
    cases dst <;> mvcgen -trivial [Instr.exec] <;> subst_vars <;> simp [Cpu.fetchShape]
  all_goals mvcgen -trivial [Instr.exec, readWord, writeWord, Exec.push, Exec.pop, setWZ, setPC,
    setF, locate, load, store, source, setAFrom, pointer, jumpRelative, rewrite, writeBack,
    Exec.block, blockLoad, blockCompare, blockIn, blockOut, repeatBlock, readByte_eq]
  all_goals
    subst_vars
    simp [Cpu.fetchShape, Cpu.writeRefresh]

theorem serviceInterrupts_fetchShape (S : FetchShape) :
    ⦃fun m : Machine β => ⌜m.cpu.fetchShape = S⌝⦄ (serviceInterrupts : Exec β (Option StepResult))
    ⦃post⟨fun _ m => ⌜m.cpu.fetchShape = S⌝, fun _ m => ⌜m.cpu.fetchShape = S⌝⟩⦄ := by
  mvcgen -trivial [serviceInterrupts, readWord, readByte_eq]
  all_goals
    subst_vars
    simp [Cpu.fetchShape, Machine.push]

/-- A step, finished or stopped, keeps the shape of the fetch map. -/
theorem executeOne_fetchShape (S : FetchShape) :
    ⦃fun m : Machine β => ⌜m.cpu.fetchShape = S⌝⦄ (executeOne : Exec β StepResult)
    ⦃post⟨fun _ m => ⌜m.cpu.fetchShape = S⌝, fun _ m => ⌜m.cpu.fetchShape = S⌝⟩⦄ := by
  have hs := serviceInterrupts_fetchShape (β := β)
  have hx := exec_fetchShape (β := β)
  mvcgen -trivial [executeOne, account, hs, hx]
  all_goals
    subst_vars
    simp_all [Cpu.fetchShape]

end Exec

/-! ## Runs keep the shape and the bus's family -/

namespace Exec

variable {β : Type} [Bus β] {P : β → Prop} (hP : Bus.Reliable P) (S : FetchShape)

include hP in
/-- On a bus of a family that answers every read, a step keeps the shape of the fetch map
and the bus in the family. -/
theorem executeOne_keeps {m : Machine β} (h : m.cpu.fetchShape = S ∧ P m.bus) :
    (Exec.after ((executeOne : Exec β StepResult) m)).cpu.fetchShape = S ∧
      P (Exec.after ((executeOne : Exec β StepResult) m)).bus := by
  refine ⟨after_of_keeps (executeOne_fetchShape S) h.1, ?_⟩
  cases hx : (executeOne : Exec β StepResult) m with
  | ok s m' => exact ok_of_triple (executeOne_reliable hP) h.2 hx
  | error e m' => exact (error_of_triple (executeOne_reliable hP) h.2 hx).elim

include hP in
/-- The run loop keeps them too: its steps do, and its idles touch only R and the
counts. -/
theorem runLoop_keeps (fuel : Nat) : ∀ (rem : Int64) (c : Nat) (x : Machine β),
    x.cpu.fetchShape = S ∧ P x.bus →
      (Exec.after ((runLoop fuel rem c : Exec β (Int64 × Nat)) x)).cpu.fetchShape = S ∧
        P (Exec.after ((runLoop fuel rem c : Exec β (Int64 × Nat)) x)).bus :=
  runLoop_invariant (P := fun y : Machine β => y.cpu.fetchShape = S ∧ P y.bus)
    (fun _ h => executeOne_keeps hP S h)
    (fun _ _ h => by simpa [Machine.idle, Cpu.fetchShape] using h) fuel

include hP in
theorem step_keeps (r : Int64) {m : Machine β} (h : m.cpu.fetchShape = S ∧ P m.bus) :
    (Exec.after ((Cpu.step r : Exec β (StepResult × Int64)) m)).cpu.fetchShape = S ∧
      P (Exec.after ((Cpu.step r : Exec β (StepResult × Int64)) m)).bus :=
  step_invariant (P := fun m : Machine β => m.cpu.fetchShape = S ∧ P m.bus)
    (fun _ h => executeOne_keeps hP S h) (fun _ _ h => h) r h

include hP in
theorem run_keeps (b : UInt32) {m : Machine β} (h : m.cpu.fetchShape = S ∧ P m.bus) :
    (Exec.after ((Cpu.run b : Exec β RunOutcome) m)).cpu.fetchShape = S ∧
      P (Exec.after ((Cpu.run b : Exec β RunOutcome) m)).bus :=
  run_invariant (P := fun m : Machine β => m.cpu.fetchShape = S ∧ P m.bus) (runLoop_keeps hP S)
    (fun _ _ h => h) (fun _ _ h => h) b h

end Exec

/-! ## Host calls that spare the window -/

namespace FastRamWindow

/-- A page range that ends below the window or starts above it holds none of its pages. -/
theorem not_mem_range {w : FastRamWindow} {first last p : UInt8}
    (hd : last < w.pages.1 ∨ w.pages.2 < first) (h₁ : w.pages.1 ≤ p) (h₂ : p ≤ w.pages.2) :
    ¬(first ≤ p ∧ p ≤ last) := by
  simp only [UInt8.le_iff_toNat_le, UInt8.lt_iff_toNat_lt] at *
  omega

end FastRamWindow

namespace FetchMap

theorem region?_addRegion {fm : FetchMap} {id : RegionId} (h : fm.region? id ≠ none)
    (data : ByteArray) : (fm.addRegion data).1.region? id = fm.region? id := by
  have hne : id.index ≠ fm.regions.size := by
    rintro he
    apply h
    simp [region?, he]
  simp [addRegion, region?, Array.getElem?_push, hne]

end FetchMap

namespace Cpu

variable {c c' : Cpu}

theorem set_fetchShape {reg : Reg} {v : UInt16} (h : c.set reg v = .ok c') :
    c'.fetchShape = c.fetchShape := by
  obtain ⟨-, -, rfl⟩ := set_eq_ok_iff.mp h
  rfl

theorem restore_fetchShape {snap : Registers} (h : c.restore snap = .ok c') :
    c'.fetchShape = c.fetchShape := by
  obtain ⟨-, rfl⟩ := restore_eq_ok_iff.mp h
  rfl

theorem clearFault_fetchShape (c : Cpu) : c.clearFault.fetchShape = c.fetchShape := by
  unfold Cpu.clearFault
  split <;> rfl

theorem modifyRegion_fetchShape (id : RegionId) {f : ByteArray → ByteArray}
    (hf : ∀ b, (f b).size = b.size) : (c.modifyRegion id f).fetchShape = c.fetchShape := by
  simp only [fetchShape, modifyRegion]
  congr 2
  funext id'
  exact c.fetch.size_modifyRegion id id' hf

theorem mapFetch_map {first last : UInt8} {r : RegionId} {o : Nat}
    (h : c.mapFetch first last r o = .ok c') : c.fetch.map first last r o = .ok c'.fetch := by
  obtain ⟨f, hf, rfl⟩ := mapFetch_eq_ok_iff.mp h
  exact hf

theorem unmapFetch_unmap {first last : UInt8} (h : c.unmapFetch first last = .ok c') :
    c.fetch.unmap first last = .ok c'.fetch := by
  obtain ⟨f, hf, rfl⟩ := unmapFetch_eq_ok_iff.mp h
  exact hf

end Cpu

namespace Cpu.FastLayout

variable {c c' : Cpu} {w : FastRamWindow} {id : RegionId}

theorem region_ne_none (h : c.FastLayout w id) : c.fetch.region? id ≠ none := by
  intro hn
  have hs := h.size
  rw [hn] at hs
  cases hs

/-- A page-table change over a range away from the window keeps the layout. -/
theorem of_remap (h : c.FastLayout w id) {first last : UInt8}
    (hd : last < w.pages.1 ∨ w.pages.2 < first) {e : UInt8 → Option PageEntry}
    (hf : c'.fastRam = c.fastRam) (hr : c'.fetch.regions = c.fetch.regions)
    (he : ∀ p, c'.fetch.entry p = if first ≤ p ∧ p ≤ last then e p else c.fetch.entry p) :
    c'.FastLayout w id := by
  refine h.of_window hf (by simp only [FetchMap.region?, hr]) fun p h₁ h₂ => ?_
  rw [he p, if_neg (FastRamWindow.not_mem_range hd h₁ h₂)]

end Cpu.FastLayout

/-- A plain bus with all 64 KiB of memory answers every read and keeps its memory whole. -/
theorem SimpleBus.whole : Bus.Reliable (fun b : SimpleBus => b.memory.size = 0x10000) where
  answers _ _ _ := rfl
  read _ _ h := h
  write b a v h := (b.size_poke a v).trans h
  input _ _ h := h
  output _ _ _ h := h

namespace HostOp

open Exec

/-- The calls that leave a fast RAM window as it was built: fetch-map changes over pages
away from it, and uses of the bus that keep its memory whole. A host's edit of a region
keeps its length, so it spares the window too. -/
def Spares (w : FastRamWindow) : HostOp SimpleBus → Prop
  | .mapFetch first last _ _ | .unmapFetch first last => last < w.pages.1 ∨ w.pages.2 < first
  | .useBus f => ∀ b : SimpleBus, b.memory.size = 0x10000 → (f b).memory.size = 0x10000
  | _ => True

variable {w : FastRamWindow} {id : RegionId}

theorem after_attempt_fastLayout {f : Cpu → Except Error Cpu} {m : Machine SimpleBus}
    (h : m.cpu.FastLayout w id) (hs : m.bus.memory.size = 0x10000)
    (hf : ∀ c, f m.cpu = .ok c → c.FastLayout w id) :
    (after (attempt f m)).cpu.FastLayout w id ∧ (after (attempt f m)).bus.memory.size = 0x10000 :=
  after_attempt (P := fun m' => m'.cpu.FastLayout w id ∧ m'.bus.memory.size = 0x10000) ⟨h, hs⟩
    fun c hc => ⟨hf c hc, hs⟩

/-- A call that spares the window keeps its layout and the bus memory whole. -/
theorem exec_fastLayout {op : HostOp SimpleBus} (hop : op.Spares w) {m : Machine SimpleBus}
    (h : m.cpu.FastLayout w id) (hs : m.bus.memory.size = 0x10000) :
    (after (op.exec m)).cpu.FastLayout w id ∧ (after (op.exec m)).bus.memory.size = 0x10000 := by
  cases op with
  | run b =>
    obtain ⟨h₁, h₂⟩ := run_keeps SimpleBus.whole _ b ⟨rfl, hs⟩
    simp only [exec, after_map]
    exact ⟨h.of_fetchShape h₁, h₂⟩
  | step r =>
    obtain ⟨h₁, h₂⟩ := step_keeps SimpleBus.whole _ r ⟨rfl, hs⟩
    simp only [exec, after_map]
    exact ⟨h.of_fetchShape h₁, h₂⟩
  | addCycles _ | clearOdometer | hardReset | softReset | raiseNmi | raiseInt _ | clearInt =>
    exact ⟨h.of_fetchShape rfl, hs⟩
  | clearFault => exact ⟨h.of_fetchShape m.cpu.clearFault_fetchShape, hs⟩
  | set reg v =>
    exact after_attempt_fastLayout (f := (·.set reg v)) h hs fun _ hc =>
      h.of_fetchShape (Cpu.set_fetchShape hc)
  | restore snap =>
    exact after_attempt_fastLayout (f := (·.restore snap)) h hs fun _ hc =>
      h.of_fetchShape (Cpu.restore_fetchShape hc)
  | addRegion data =>
    refine ⟨h.of_window rfl ?_ fun _ _ _ => rfl, hs⟩
    exact congrArg (Option.map ByteArray.size) (FetchMap.region?_addRegion h.region_ne_none data)
  | mapFetch first last r o =>
    refine after_attempt_fastLayout (f := (·.mapFetch first last r o)) h hs fun _ hc => ?_
    obtain ⟨hr, he⟩ := FetchMap.map_ok (Cpu.mapFetch_map hc)
    have hf := congrArg Cpu.fastRam (Cpu.mapFetch_ok hc)
    exact h.of_remap hop hf hr he
  | unmapFetch first last =>
    refine after_attempt_fastLayout (f := (·.unmapFetch first last)) h hs fun _ hc => ?_
    obtain ⟨hr, he⟩ := FetchMap.unmap_ok (Cpu.unmapFetch_unmap hc)
    have hf := congrArg Cpu.fastRam (Cpu.unmapFetch_ok hc)
    exact h.of_remap hop hf hr he
  | modifyRegion id' edit =>
    exact ⟨h.of_fetchShape (Cpu.modifyRegion_fetchShape id' edit.size_apply), hs⟩
  | useBus f => exact ⟨h, hop m.bus hs⟩

end HostOp

/-! ## Sessions -/

/-- The machines a host reaches from a CPU built with the fast RAM window `w` over a plain
bus with all 64 KiB of memory, by calls that spare the window. -/
inductive FastSession (w : FastRamWindow) : Machine SimpleBus → Prop where
  | create {config : Config} {c : Cpu} {bus : SimpleBus} : config.fastRam = some w →
      Cpu.create config = .ok c → bus.memory.size = 0x10000 → FastSession w ⟨c, bus⟩
  | call {m : Machine SimpleBus} {op : HostOp SimpleBus} : FastSession w m → op.Spares w →
      FastSession w (Exec.after (op.exec m))

/-- Every machine of a session keeps the layout its window was built with. -/
theorem FastSession.layout {w : FastRamWindow} {m : Machine SimpleBus} (h : FastSession w m) :
    m.cpu.FastLayout w ⟨0⟩ ∧ m.bus.memory.size = 0x10000 := by
  induction h with
  | create hw hc hs =>
    cases hv : w.isValid with
    | false =>
      rw [Cpu.create_of_invalid hw hv] at hc
      cases hc
    | true =>
      obtain ⟨c', hc', hl⟩ := Cpu.create_of_valid hw hv
      rw [hc'] at hc
      cases hc
      exact ⟨hl, hs⟩
  | call _ hop ih => exact HostOp.exec_fastLayout hop ih.1 ih.2

/-! ## One memory -/

open Exec in
/-- Fast RAM and a plain bus form one memory, `Machine.mem`, and instruction fetch sees it
too. A CPU is built exactly when its window starts on a page, holds a non-zero whole number
of pages and ends within 64 KiB, and is refused with the window otherwise. At every machine
of a session that keeps the window's pages mapped: a data read returns `mem a`, and inside
the window it reads the fast RAM whatever bus is attached; a data write changes `mem a` and
no other byte, and inside the window never reaches the bus; a fetch inside the window
returns `mem a`, so code written there runs at once; a word written at any address reads
back; and POP returns what PUSH pushed and restores SP. -/
theorem fastRam_coherence :
    (∀ (config : Config) (w : FastRamWindow), config.fastRam = some w →
      ((∃ c, Cpu.create config = .ok c) ↔ w.base.toNat % 256 = 0 ∧ w.size ≠ 0 ∧
          w.size % 256 = 0 ∧ w.base.toNat + w.size ≤ 0x10000) ∧
        (¬(w.base.toNat % 256 = 0 ∧ w.size ≠ 0 ∧ w.size % 256 = 0 ∧
            w.base.toNat + w.size ≤ 0x10000) →
          Cpu.create config = .error (.invalidFastRam w.base w.size))) ∧
    ∀ (w : FastRamWindow) (m : Machine SimpleBus), FastSession w m →
      (∀ a, (readByte a : Exec SimpleBus UInt8) m = .ok (m.mem a) m) ∧
      (∀ {β : Type} [Bus β] (bus : β) a, w.Contains a →
        (readByte a : Exec β UInt8) ⟨m.cpu, bus⟩ = .ok (m.mem a) ⟨m.cpu, bus⟩) ∧
      (∀ a b v, (m.write a v).mem b = if b = a then v else m.mem b) ∧
      (∀ {β : Type} [Bus β] (bus : β) a v, w.Contains a →
        (Machine.write ⟨m.cpu, bus⟩ a v).bus = bus) ∧
      (∀ a, w.Contains a → m.cpu.fetch.fetch a = m.mem a) ∧
      (∀ a v, w.Contains a → (m.write a v).cpu.fetch.fetch a = v) ∧
      (∀ a v m', (writeWord a v : Exec SimpleBus Unit) m = .ok () m' →
        (readWord a : Exec SimpleBus UInt16) m' = .ok v m') ∧
      (∀ v, (pop : Exec SimpleBus UInt16) (m.push v) =
        .ok v { m.push v with
          cpu := { (m.push v).cpu with regs := { (m.push v).cpu.regs with sp := m.cpu.regs.sp } } }) := by
  refine ⟨fun config w hw => ?_, fun w m hm => ?_⟩
  · have hiff := Cpu.create_ok_iff hw
    rw [FastRamWindow.isValid_iff] at hiff
    refine ⟨hiff, fun hn => Cpu.create_of_invalid hw ?_⟩
    rw [Bool.eq_false_iff, ne_eq, FastRamWindow.isValid_iff]
    exact hn
  · obtain ⟨h, hs⟩ := hm.layout
    -- the layout is the CPU's alone, so it holds whatever bus is attached
    have hb : ∀ {β : Type} [Bus β] (bus : β), (⟨m.cpu, bus⟩ : Machine β).cpu.FastLayout w ⟨0⟩ :=
      fun _ => h
    have hd := h.toDataLayout
    refine ⟨Machine.readByte_mem hd, fun bus a ha => ?_, Machine.mem_write hd hs,
      fun bus a v ha => ?_, fun a ha => Machine.fetch_mem h ha,
      fun a v ha => Machine.fetch_write h ha v,
      fun a v m' hw => Machine.readWord_writeWord hd hs a v hw, Machine.pop_push hd hs⟩
    · rw [Machine.readByte_of_contains (hb bus).toDataLayout ha, Machine.mem_of_contains hd ha]
    · rw [Machine.write_of_contains (hb bus).toDataLayout ha]

/-- The CPU built with one page of fast RAM at 0x8000, on a plain bus. -/
def Machine.fastPage : Machine SimpleBus :=
  ⟨{ regs := {}, fetch := { regions := #[ByteArray.mk (Array.replicate 0x100 0)],
                            pages := FetchMap.setPages (Vector.replicate 256 none) 0x80 ⟨0⟩ 0 1,
                            fill := 0x76 },
     fastRam := some ⟨⟨0x8000, 0x100⟩, ⟨0⟩⟩, odometer := {},
     config := { fastRam := some ⟨0x8000, 0x100⟩ }, eiShadow := false, refreshClock := 0,
     rWrittenAt := 0 }, SimpleBus.empty⟩

set_option maxRecDepth 2000 in
/-- A window that does not start on a page is refused; one page at 0x8000 is built, and a
byte written to 0x8000 is what a fetch there reads. -/
theorem fastRam_coherence_fastPage :
    Cpu.create { fastRam := some ⟨0x8001, 0x100⟩ } = .error (.invalidFastRam 0x8001 0x100) ∧
      FastSession ⟨0x8000, 0x100⟩ Machine.fastPage ∧
      (Machine.fastPage.write 0x8000 0x3E).cpu.fetch.fetch 0x8000 = 0x3E := by
  have hc : Cpu.create { fastRam := some ⟨0x8000, 0x100⟩ } = .ok Machine.fastPage.cpu := rfl
  have hs : FastSession ⟨0x8000, 0x100⟩ Machine.fastPage :=
    .create rfl hc (by simp [SimpleBus.empty, ByteArray.size])
  exact ⟨(fastRam_coherence.1 { fastRam := some ⟨0x8001, 0x100⟩ } ⟨0x8001, 0x100⟩ rfl).2 (by decide), hs,
    (fastRam_coherence.2 _ _ hs).2.2.2.2.2.1 0x8000 0x3E (by decide)⟩

end Z80
