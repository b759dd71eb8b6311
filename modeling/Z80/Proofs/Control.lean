import Z80.Proofs.Hoare

/-!
# What instructions leave alone

`Control` is the part of a machine that governs interrupts and the run bookkeeping:
the run status, the interrupt flip-flops, mode, latched lines and vector, the HALT
line, the EI shadow, the odometer and the refresh clock. An instruction changes it only
in the ways `Instr.control` lists: DI, EI and RETN write the flip-flops, EI also sets
the shadow, HALT sets the HALT line and IM the mode. Whatever else an instruction does
goes to the data registers, PC, WZ, R, memory and ports.

`exec_control` proves this for every instruction at once: `mvcgen` walks each of them
and the goals it leaves are closed by the field lemmas of the register operands. The
same walk shows that an instruction never aborts on a bus that answers every read
(`exec_ok_of_reliable`).
-/

open Std.Do

set_option mvcgen.warning false

namespace Z80

/-! ## Register operands keep the control registers -/

namespace Registers

@[simp] theorem setReg8_control (rs : Registers) (r : Reg8) (v : UInt8) :
    (rs.setReg8 r v).status = rs.status ∧ (rs.setReg8 r v).iff1 = rs.iff1 ∧
      (rs.setReg8 r v).iff2 = rs.iff2 ∧ (rs.setReg8 r v).im = rs.im ∧
      (rs.setReg8 r v).intVector = rs.intVector ∧ (rs.setReg8 r v).lines = rs.lines ∧
      (rs.setReg8 r v).halted = rs.halted := by
  cases r <;> exact ⟨rfl, rfl, rfl, rfl, rfl, rfl, rfl⟩

@[simp] theorem setReg16_control (rs : Registers) (rr : Reg16) (v : UInt16) :
    (rs.setReg16 rr v).status = rs.status ∧ (rs.setReg16 rr v).iff1 = rs.iff1 ∧
      (rs.setReg16 rr v).iff2 = rs.iff2 ∧ (rs.setReg16 rr v).im = rs.im ∧
      (rs.setReg16 rr v).intVector = rs.intVector ∧ (rs.setReg16 rr v).lines = rs.lines ∧
      (rs.setReg16 rr v).halted = rs.halted := by
  cases rr <;> exact ⟨rfl, rfl, rfl, rfl, rfl, rfl, rfl⟩

/-- Counting one fetch is advancing R by one. -/
theorem incrementR_eq_advanceR (rs : Registers) : rs.incrementR = rs.advanceR 1 := by
  have h : ∀ x : BitVec 8, (x &&& 0x80) ||| ((x + 1) &&& 0x7F) =
      (x &&& 0x80) ||| (((x &&& 0x7F) + 1) &&& 0x7F) := by decide
  have hr : (rs.r &&& 0x80) ||| ((rs.r + 1) &&& 0x7F) =
      (rs.r &&& 0x80) ||| (((rs.r &&& 0x7F) + 1) &&& 0x7F) :=
    UInt8.toBitVec_inj.mp (by simpa using h rs.r.toBitVec)
  simp only [incrementR, advanceR, hr]
  rfl

end Registers

/-! ## Counting fetches in R -/

/-- R after `n` more opcode fetches: counted in `perFetch` mode, left to the clock in
`cycleDerived` mode. -/
def Cpu.fetchedR (c : Cpu) (n : Nat) : UInt8 :=
  match c.config.refresh with
  | .perFetch => (c.regs.advanceR n).r
  | .cycleDerived => c.regs.r

/-- Counting fetches writes R and nothing else. -/
@[simp] theorem Cpu.refreshBy_eq (c : Cpu) (n : Nat) :
    c.refreshBy n = { c with regs := { c.regs with r := c.fetchedR n } } := by
  unfold Cpu.refreshBy Cpu.fetchedR
  cases c.config.refresh <;> rfl

@[simp] theorem Cpu.refresh_eq (c : Cpu) : c.refresh = c.refreshBy 1 := by
  unfold Cpu.refresh Cpu.refreshBy
  cases c.config.refresh <;> simp [Registers.incrementR_eq_advanceR]

/-! ## The control state -/

/-- The interrupt and bookkeeping state of a machine. -/
structure Control where
  status : RunStatus
  iff1 : Bool
  iff2 : Bool
  im : UInt8
  intVector : UInt8
  lines : Lines
  halted : Bool
  eiShadow : Bool
  odometer : Odometer
  refreshClock : Nat
deriving DecidableEq

/-- The control state of a machine. -/
def Machine.control {β : Type} (m : Machine β) : Control :=
  ⟨m.cpu.regs.status, m.cpu.regs.iff1, m.cpu.regs.iff2, m.cpu.regs.im, m.cpu.regs.intVector,
    m.cpu.regs.lines, m.cpu.regs.halted, m.cpu.eiShadow, m.cpu.odometer, m.cpu.refreshClock⟩

/-- What an instruction does to the control state. -/
def Instr.control : Instr → Control → Control
  | .di, c => { c with iff1 := false, iff2 := false }
  | .ei, c => { c with iff1 := true, iff2 := true, eiShadow := true }
  | .retn, c => { c with iff1 := c.iff2 }
  | .halt, c => { c with halted := true }
  | .im mode, c => { c with im := mode.toUInt8 }
  | _, c => c

/-- A family of bus states that answer every read, closed under every bus cycle. -/
structure Bus.Reliable {β : Type} [Bus β] (P : β → Prop) : Prop where
  answers : ∀ b a, P b → (Bus.read b a).1.isSome
  read : ∀ b a, P b → P (Bus.read b a).2
  write : ∀ b a v, P b → P (Bus.write b a v)
  input : ∀ b p, P b → P (Bus.input b p).2
  output : ∀ b p v, P b → P (Bus.output b p v)

theorem Bus.Reliable.read_ne_none {β : Type} [Bus β] {P : β → Prop} (hP : Bus.Reliable P)
    {b : β} (a : UInt16) (h : P b) : (Bus.read b a).1 ≠ none :=
  Option.isSome_iff_ne_none.mp (hP.answers b a h)

theorem Bus.Reliable.write_machine {β : Type} [Bus β] {P : β → Prop} (hP : Bus.Reliable P)
    {m : Machine β} (a : UInt16) (v : UInt8) (h : P m.bus) : P (m.write a v).bus := by
  simp only [Machine.write, Exec.writeByte]
  rcases m.cpu.fastSlot a with _ | ⟨id, off⟩
  · exact hP.write _ _ _ h
  · exact h

theorem Bus.Reliable.push_machine {β : Type} [Bus β] {P : β → Prop} (hP : Bus.Reliable P)
    {m : Machine β} (v : UInt16) (h : P m.bus) : P (m.push v).bus :=
  hP.write_machine _ _ (hP.write_machine _ _ h)

namespace Exec

variable {β : Type} [Bus β]

/-! ## Every instruction -/

/-- An instruction changes the control state as `Instr.control` says. It aborts only on
a refused bus read, and then leaves the control state alone. -/
theorem exec_control (i : Instr) (c : Control) :
    ⦃fun m : Machine β => ⌜m.control = c⌝⦄ (i.exec : Exec β Nat)
    ⦃post⟨fun _ m => ⌜m.control = i.control c⌝,
      fun e m => ⌜m.control = c ∧ ∃ a, e = .busFault a⌝⟩⦄ := by
  cases i
  -- IN r,(C) picks its destination by a match inside the register update
  case inC dst =>
    cases dst <;> mvcgen -trivial [Instr.exec] <;> subst_vars <;>
      simp [Machine.control, Instr.control]
  all_goals mvcgen -trivial [Instr.exec, readWord, writeWord, Exec.push, Exec.pop, setWZ, setPC,
    setF, locate, load, store, source, setAFrom, pointer, jumpRelative, rewrite, writeBack,
    Exec.block, blockLoad, blockCompare, blockIn, blockOut, repeatBlock, readByte_eq]
  all_goals
    subst_vars
    simp [Machine.control, Instr.control, Registers.setHL, Registers.setDE, Registers.setBC,
      Registers.setAF, Registers.setXY, Registers.swapAF, Registers.swapMain, Cpu.writeRefresh]

theorem exec_ok_control {i : Instr} {m m' : Machine β} {n : Nat}
    (h : (i.exec : Exec β Nat) m = .ok n m') : m'.control = i.control m.control :=
  ok_of_triple (exec_control i m.control) rfl h

theorem exec_error_control {i : Instr} {m m' : Machine β} {e : Abort}
    (h : (i.exec : Exec β Nat) m = .error e m') :
    m'.control = m.control ∧ ∃ a, e = .busFault a :=
  error_of_triple (exec_control i m.control) rfl h

/-- On a bus that answers every read, an instruction never aborts, and the bus stays
in the family. -/
theorem exec_reliable {P : β → Prop} (hP : Bus.Reliable P) (i : Instr) :
    ⦃fun m : Machine β => ⌜P m.bus⌝⦄ (i.exec : Exec β Nat)
    ⦃post⟨fun _ m => ⌜P m.bus⌝, fun _ _ => ⌜False⌝⟩⦄ := by
  cases i
  case inC dst =>
    cases dst <;> mvcgen -trivial [Instr.exec] <;> simp_all [hP.input]
  all_goals mvcgen -trivial [Instr.exec, readWord, writeWord, Exec.push, Exec.pop, setWZ, setPC,
    setF, locate, load, store, source, setAFrom, pointer, jumpRelative, rewrite, writeBack,
    Exec.block, blockLoad, blockCompare, blockIn, blockOut, repeatBlock, readByte_eq]
  all_goals grind [hP.read, hP.write_machine, hP.input, hP.output, hP.read_ne_none]

theorem exec_ok_of_reliable {P : β → Prop} (hP : Bus.Reliable P) (i : Instr)
    {m : Machine β} (hm : P m.bus) :
    ∃ n m', (i.exec : Exec β Nat) m = .ok n m' ∧ P m'.bus :=
  exists_ok_of_triple (exec_reliable hP i) hm

end Exec

end Z80
