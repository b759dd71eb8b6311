import Z80.Proofs.SaveState
import Z80.Proofs.FastRam
import Z80.Proofs.WideArithmetic

/-!
# Host access to the registers

A host reads and writes registers by name (`Cpu.get`, `Cpu.set`). The names overlap: a pair is
kept in its two halves (`Reg.halves`), so AF, BC, DE and HL share storage with A and F, B and C,
D and E, H and L. F is one byte, bits 5 and 3 included, and AF holds all of it. Every other name
has storage of its own (`Reg.storage`).

A write is refused above the register's widest value and leaves the machine as it was
(`HostOp.set_refused_iff`). Otherwise it goes through, and the CPU then shows a host the registers
it showed before with the value written in (`Cpu.registers_set`): R reads live, and writing it
restarts its count, so R too reads back what was written. So a register reads back its value
(`Cpu.get_set_self`) and every register that shares no storage with it reads as before
(`Cpu.get_set_of_disjoint`); a pair reads as its high half times 256 plus its low half
(`Registers.get_pair`).

F travels whole through the word paths that move AF: PUSH AF then POP AF gives every register
back (`Machine.pushPop_af`), whether the stack lies in fast RAM or on the bus, and EX AF,AF'
exchanges the words of AF and AF' and undoes itself (`Registers.swapAF_swapAF`).
`register_access` collects these facts.
-/

namespace Z80

/-! ## Storage of the register names -/

namespace Reg

/-- The halves a pair is kept in, high byte first. -/
def halves : Reg → Option (Reg × Reg)
  | af => some (a, f) | bc => some (b, c) | de => some (d, e) | hl => some (h, l)
  | _ => none

/-- The registers that hold a register's value: a pair's two halves, any other register
itself. -/
def storage (p : Reg) : List Reg :=
  match p.halves with
  | some (hi, lo) => [hi, lo]
  | none => [p]

/-- Whether two registers share storage: some register holds part of both. -/
def sharesStorage (p q : Reg) : Bool :=
  p.storage.any (· ∈ q.storage)

end Reg

/-! ## The register file -/

namespace Registers

/-- A write leaves every register that shares no storage with it. -/
theorem read_write_of_disjoint (rs : Registers) {reg other : Reg}
    (h : reg.sharesStorage other = false) (v : UInt16) :
    (rs.write reg v).read other = rs.read other := by
  -- a table of 28 × 28 names: where `h` reduces to `true = false` the names share storage,
  -- and any two names that do not are kept in different fields
  cases reg <;> cases other <;> cases h <;> rfl

theorem get_write_of_disjoint (rs : Registers) {reg other : Reg}
    (h : reg.sharesStorage other = false) (v : UInt16) :
    (rs.write reg v).get other = rs.get other := by
  simp only [get, (write_status rs reg v).1, read_write_of_disjoint rs h]

/-- A pair reads as its high half times 256 plus its low half. -/
theorem read_pair (rs : Registers) {p hi lo : Reg} (h : p.halves = some (hi, lo)) :
    rs.read p = 256 * rs.read hi + rs.read lo := by
  cases p <;> cases h <;> simp [read, af, bc, de, hl, word, mul_comm]

theorem get_pair (rs : Registers) {p hi lo : Reg} (h : p.halves = some (hi, lo)) :
    rs.get p = (do let h ← rs.get hi; let l ← rs.get lo; pure (256 * h + l)) := by
  by_cases hs : rs.status = .running
  · simp [get, hs, bind, Except.bind]
  · simp [get, hs, read_pair rs h, bind, Except.bind, pure, Except.pure]

/-- Only a write of R changes R. -/
theorem write_r (rs : Registers) (reg : Reg) (v : UInt16) :
    (rs.write reg v).r = if reg = .r then v.toUInt8 else rs.r := by
  cases reg <;> rfl

theorem setAF_af (rs : Registers) : rs.setAF rs.af = rs := by
  simp [setAF, af]

theorem swapAF_af (rs : Registers) : rs.swapAF.af = rs.afAlt :=
  af_setAF rs rs.afAlt

theorem swapAF_afAlt (rs : Registers) : rs.swapAF.afAlt = rs.af := rfl

theorem swapAF_status (rs : Registers) : rs.swapAF.status = rs.status := rfl

/-- EX AF,AF' twice leaves every register as it was. -/
theorem swapAF_swapAF (rs : Registers) : rs.swapAF.swapAF = rs := by
  simp [swapAF, setAF, af]

end Registers

/-! ## Host reads and writes -/

namespace Cpu

/-- After a host write R reads live as written, if it was R, and as before otherwise. -/
theorem refreshValue_set {c c' : Cpu} {reg : Reg} {v : UInt16} (h : c.set reg v = .ok c') :
    c'.refreshValue = if reg = .r then v.toUInt8 else c.refreshValue := by
  obtain ⟨-, -, rfl⟩ := set_eq_ok_iff.mp h
  by_cases hr : reg = .r
  · -- R written now reads as stored
    subst hr
    rw [refreshValue_of_written_now (by simp)]
    rfl
  · -- any other write keeps R, its mode and the clocks
    simp only [refreshValue, hr, if_false, Registers.write_r]

/-- A host write that goes through shows a host the registers it showed before, with the value
written in. -/
theorem registers_set {c c' : Cpu} {reg : Reg} {v : UInt16} (h : c.set reg v = .ok c') :
    c'.registers = c.registers.write reg v := by
  rw [registers, refreshValue_set h, registers, Registers.write_withR]
  obtain ⟨-, -, rfl⟩ := set_eq_ok_iff.mp h
  rfl

/-- A register reads back the value a host wrote into it, R included. -/
theorem get_set_self {c c' : Cpu} {reg : Reg} {v : UInt16} (h : c.set reg v = .ok c') :
    c'.get reg = .ok v := by
  obtain ⟨hs, hv, -⟩ := set_eq_ok_iff.mp h
  have hs' : (c.registers.write reg v).status ≠ .running := by
    rw [(Registers.write_status _ _ _).1]
    exact hs
  rw [get_eq_registers, registers_set h, Registers.get_eq_ok hs', Registers.read_write _ _ _ hv]

/-- A host write leaves every register that shares no storage with it reading as before. -/
theorem get_set_of_disjoint {c c' : Cpu} {reg other : Reg} {v : UInt16}
    (h : c.set reg v = .ok c') (ho : reg.sharesStorage other = false) :
    c'.get other = c.get other := by
  rw [get_eq_registers, registers_set h, Registers.get_write_of_disjoint _ ho, ← get_eq_registers]

/-- A host read of a pair is its high half times 256 plus its low half, R apart. -/
theorem get_pair (c : Cpu) {p hi lo : Reg} (h : p.halves = some (hi, lo)) :
    c.get p = (do let h ← c.get hi; let l ← c.get lo; pure (256 * h + l)) := by
  simp only [get_eq_registers]
  exact Registers.get_pair _ h

end Cpu

namespace HostOp

variable {β : Type} [Bus β]

/-- A host write is refused as out of range, changing nothing, exactly when the value is above
the register's widest value. -/
theorem set_refused_iff {m : Machine β} (hs : m.cpu.regs.status ≠ .running) (reg : Reg)
    (v : UInt16) :
    (HostOp.set reg v).exec m = .error (.refused (.valueOutOfRange reg v)) m ↔
      reg.maxValue < v := by
  show attempt (·.set reg v) m = _ ↔ _
  by_cases hv : reg.maxValue < v
  · have he : m.cpu.set reg v = .error (.valueOutOfRange reg v) := by
      simp [Cpu.set, Registers.set_eq_error_of_gt hs hv, bind, Except.bind]
    simp [attempt, he, hv]
  · obtain ⟨c', hc⟩ : ∃ c', m.cpu.set reg v = .ok c' :=
      ⟨_, Cpu.set_eq_ok_iff.mpr ⟨hs, UInt16.not_lt.mp hv, rfl⟩⟩
    simp [attempt, hc, hv]

end HostOp

/-! ## Word paths of AF -/

namespace Machine

open Exec

variable {m : Machine SimpleBus}

theorem readByte_of_noFastRam (h : m.cpu.fastRam = none) (a : UInt16) :
    (Exec.readByte a : Exec SimpleBus UInt8) m = .ok (m.bus.peek a) m := by
  simp only [Exec.readByte, Cpu.fastSlot, h, Option.bind_none]
  rfl

theorem write_of_noFastRam {β : Type} [Bus β] {m : Machine β} (h : m.cpu.fastRam = none)
    (a : UInt16) (v : UInt8) : m.write a v = { m with bus := Bus.write m.bus a v } := by
  simp only [Machine.write, Exec.writeByte, Cpu.fastSlot, h, Option.bind_none]

/-- Without fast RAM the stack lies on the bus: POP returns the word PUSH pushed, and restores
SP. -/
theorem pop_push_of_noFastRam (h : m.cpu.fastRam = none) (hs : m.bus.memory.size = 0x10000)
    (v : UInt16) :
    (Exec.pop : Exec SimpleBus UInt16) (m.push v) =
      .ok v { m.push v with
        cpu := { (m.push v).cpu with regs := { (m.push v).cpu.regs with sp := m.cpu.regs.sp } } } := by
  let sp := m.cpu.regs.sp
  have hne : sp - 2 ≠ sp - 1 := by grind
  have hnext : sp - 2 + 1 = sp - 1 := by grind
  -- the two pokes land one apart, the high byte above
  have hmem : (m.push v).bus = (m.bus.poke (sp - 1) (hiByte v)).poke (sp - 2) (loByte v) := by
    simp (disch := simp [h]) only [Machine.push, write_of_noFastRam]
    rfl
  have hs₁ : (m.bus.poke (sp - 1) (hiByte v)).memory.size = 0x10000 :=
    (SimpleBus.size_poke _ _ _).trans hs
  have hlo : (m.push v).bus.peek (sp - 2) = loByte v := by
    rw [hmem, SimpleBus.peek_poke hs₁, if_pos rfl]
  have hhi : (m.push v).bus.peek (sp - 1) = hiByte v := by
    rw [hmem, SimpleBus.peek_poke hs₁, if_neg hne.symm, SimpleBus.peek_poke hs, if_pos rfl]
  have hf : (m.push v).cpu.fastRam = none := (push_cpu m v).2.1.trans h
  have hsp : (m.push v).cpu.regs.sp = sp - 2 := by rw [(push_cpu m v).1]
  simp only [Exec.pop, bind_apply, elim_regs, Exec.readWord, readByte_of_noFastRam hf, elim_ok,
    hsp, hnext, hlo, hhi, word_hiByte_loByte, Exec.modifyRegs, Exec.modifyCpu, pure_apply]
  congr
  grind

/-- PUSH AF then POP AF gives every register back, F whole, on a plain bus with the stack on
the bus or in a fast RAM window whose region has the window's size. -/
theorem pushPop_af (hs : m.bus.memory.size = 0x10000)
    (hf : m.cpu.fastRam = none ∨ ∃ w id, m.cpu.DataLayout w id) :
    ∃ m₁ m₂, ((Instr.push .af).exec : Exec SimpleBus Nat) m = .ok 0 m₁ ∧
      ((Instr.pop .af).exec : Exec SimpleBus Nat) m₁ = .ok 0 m₂ ∧ m₂.cpu.regs = m.cpu.regs := by
  have hpush : ((Instr.push .af).exec : Exec SimpleBus Nat) m = .ok 0 (m.push m.cpu.regs.af) := by
    simp only [Instr.exec, bind_apply, elim_regs, push_apply, elim_ok, pure_apply]
    rfl
  -- POP finds the word PUSH left, and sets SP back
  let popped : Machine SimpleBus := { m.push m.cpu.regs.af with
    cpu := { (m.push m.cpu.regs.af).cpu with
      regs := { (m.push m.cpu.regs.af).cpu.regs with sp := m.cpu.regs.sp } } }
  have hpop : (Exec.pop : Exec SimpleBus UInt16) (m.push m.cpu.regs.af) =
      .ok m.cpu.regs.af popped := by
    rcases hf with hf | ⟨w, id, hl⟩
    · exact pop_push_of_noFastRam hf hs _
    · exact pop_push hl hs _
  refine ⟨_, popped.mapRegs (·.setReg16 .af m.cpu.regs.af), hpush, ?_, ?_⟩
  · simp only [Instr.exec, bind_apply, hpop, elim_ok, Exec.modifyRegs, Exec.modifyCpu, pure_apply]
    rfl
  · -- PUSH moves only SP among the registers, POP restores it, and AF is written back
    have hregs : popped.cpu.regs = m.cpu.regs := by
      show { (m.push m.cpu.regs.af).cpu.regs with sp := m.cpu.regs.sp } = m.cpu.regs
      rw [(push_cpu m _).1]
    show popped.cpu.regs.setAF m.cpu.regs.af = m.cpu.regs
    rw [hregs]
    exact Registers.setAF_af _

end Machine

namespace Exec

variable {β : Type} [Bus β]

/-- EX AF,AF' exchanges the registers' AF and AF'. -/
theorem exec_exAF (m : Machine β) :
    (Instr.exAF.exec : Exec β Nat) m = .ok 0 (m.mapRegs Registers.swapAF) := rfl

omit [Bus β] in
/-- After EX AF,AF' a host reads the old AF' as AF and the old AF as AF'. -/
theorem get_swapAF (m : Machine β) :
    (m.mapRegs Registers.swapAF).cpu.get .af = m.cpu.get .afAlt ∧
      (m.mapRegs Registers.swapAF).cpu.get .afAlt = m.cpu.get .af := by
  by_cases hr : m.cpu.regs.status = .running
  · simp [Cpu.get, Registers.get, Machine.mapRegs, Registers.swapAF_status, hr, bind, Except.bind]
  · simp [Cpu.get, Registers.get, Registers.read, Machine.mapRegs, Registers.swapAF_status, hr,
      Registers.swapAF_af, Registers.swapAF_afAlt]

end Exec

open Exec in
/-- Register access round-trips and respects the storage the names share. On a CPU that is not
running, in either refresh mode: a host write is refused as out of range, and changes nothing,
exactly when the value is above the register's widest value; otherwise it goes through, the
register reads back the value (R included, whose count the write restarts), and every register
that shares no storage with it reads as before. A pair reads as its high half times 256 plus its
low half. F, bits 5 and 3 included, survives every word path of AF: PUSH AF then POP AF gives
every register back on a plain bus, with no fast RAM or with a window whose region has the
window's size; EX AF,AF' exchanges the words of AF and AF', and a second EX AF,AF' undoes the
first. -/
theorem register_access {β : Type} [Bus β] :
    (∀ (m : Machine β) (reg : Reg) (v : UInt16), m.cpu.regs.status ≠ .running →
      ((HostOp.set reg v).exec m = .error (.refused (.valueOutOfRange reg v)) m ↔
        reg.maxValue < v)) ∧
    (∀ (c : Cpu) (reg : Reg) (v : UInt16), c.regs.status ≠ .running → v ≤ reg.maxValue →
      ∃ c', c.set reg v = .ok c' ∧ c'.get reg = .ok v ∧
        ∀ other, reg.sharesStorage other = false → c'.get other = c.get other) ∧
    (∀ (c : Cpu) (p hi lo : Reg), p.halves = some (hi, lo) →
      c.get p = (do let h ← c.get hi; let l ← c.get lo; pure (256 * h + l))) ∧
    (∀ m : Machine SimpleBus, m.bus.memory.size = 0x10000 →
      (m.cpu.fastRam = none ∨ ∃ w id, m.cpu.DataLayout w id) →
      ∃ m₁ m₂, ((Instr.push .af).exec : Exec SimpleBus Nat) m = .ok 0 m₁ ∧
        ((Instr.pop .af).exec : Exec SimpleBus Nat) m₁ = .ok 0 m₂ ∧ m₂.cpu.regs = m.cpu.regs) ∧
    (∀ m : Machine β, ∃ m', (Instr.exAF.exec : Exec β Nat) m = .ok 0 m' ∧
      m'.cpu.get .af = m.cpu.get .afAlt ∧ m'.cpu.get .afAlt = m.cpu.get .af ∧
      (Instr.exAF.exec : Exec β Nat) m' = .ok 0 m) := by
  refine ⟨fun m reg v hs => HostOp.set_refused_iff hs reg v, ?_, fun c _ _ _ h => c.get_pair h,
    fun _ hs hf => Machine.pushPop_af hs hf, fun m => ?_⟩
  · intro c reg v hs hv
    have h : c.set reg v = .ok _ := Cpu.set_eq_ok_iff.mpr ⟨hs, hv, rfl⟩
    exact ⟨_, h, Cpu.get_set_self h, fun _ ho => Cpu.get_set_of_disjoint h ho⟩
  · refine ⟨_, exec_exAF m, (get_swapAF m).1, (get_swapAF m).2, ?_⟩
    rw [exec_exAF]
    simp only [Machine.mapRegs, Registers.swapAF_swapAF]

/-- On a CPU just created: IM 3 is refused and nothing changes; AF takes 12FF, F with bits 5
and 3 set, and HL is left alone; and PUSH AF then POP AF on the empty bus gives every register
back. -/
theorem register_access_created :
    (HostOp.set .im 3 : HostOp SimpleBus).exec Machine.createdCycleDerived =
        .error (.refused (.valueOutOfRange .im 3)) Machine.createdCycleDerived ∧
      (∃ c', Machine.createdCycleDerived.cpu.set .af 0x12FF = .ok c' ∧ c'.get .af = .ok 0x12FF ∧
        c'.get .hl = Machine.createdCycleDerived.cpu.get .hl) ∧
      ∃ m₁ m₂, ((Instr.push .af).exec : Exec SimpleBus Nat) Machine.createdCycleDerived = .ok 0 m₁ ∧
        ((Instr.pop .af).exec : Exec SimpleBus Nat) m₁ = .ok 0 m₂ ∧
        m₂.cpu.regs = Machine.createdCycleDerived.cpu.regs := by
  have hs : Machine.createdCycleDerived.bus.memory.size = 0x10000 := by
    simp [Machine.createdCycleDerived, SimpleBus.empty, ByteArray.size]
  have h := @register_access SimpleBus _
  refine ⟨(h.1 _ .im 3 (by decide)).mpr (by decide), ?_, h.2.2.2.1 _ hs (.inl rfl)⟩
  obtain ⟨c', hc, hget, hother⟩ :=
    h.2.1 Machine.createdCycleDerived.cpu .af 0x12FF (by decide) (by decide)
  exact ⟨c', hc, hget, hother .hl rfl⟩

end Z80
