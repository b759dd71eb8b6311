import Z80.Proofs.Interrupts

/-!
# What the refresh register leaves alone

R is the one register that the refresh mode governs: in `perFetch` mode it counts opcode
fetches, in `cycleDerived` mode it keeps its written value and is read through the cycle
count. `Machine.withRefresh m r p` is `m` with R set to `r` and the mode to `p`.

Every instruction other than LD A,R and LD R,A neither reads nor writes R or the mode, so
it commutes with `withRefresh` (`exec_withRefresh`). The proof pushes `withRefresh` through
the primitives the way `Bookkeeping` pushes the run bookkeeping. The one difference is
that the register file a primitive hands over now carries the replaced R: a register update
commutes when it leaves R alone, and the simp set checks that for each update.

A step counts its opcode fetches in R, so it moves R by an amount that depends on the mode
(`RefreshMode.countFetches`), and apart from that it commutes as well: an acknowledgment
(`executeOne_withRefresh_of_taken`), a halted idle, and an instruction other than LD A,R,
LD R,A leaving R holding A (`executeOne_withRefresh`). `executeOne_of_instruction` writes
the step that executes the instruction at PC through the machine that fetched it
(`Machine.fetched`).
-/

namespace Z80

/-! ## Replacing R and the refresh mode -/

/-- R after `n` more opcode fetches from `r` in mode `p`. -/
def RefreshMode.countFetches (p : RefreshMode) (r : UInt8) (n : Nat) : UInt8 :=
  match p with
  | .perFetch => (({ r } : Registers).advanceR n).r
  | .cycleDerived => r

/-- Fetches counted in two goes are counted in one. -/
theorem RefreshMode.countFetches_add (p : RefreshMode) (r : UInt8) (a b : Nat) :
    p.countFetches (p.countFetches r a) b = p.countFetches r (a + b) := by
  cases p
  · -- R's other fields play no part in counting
    show (((({ r } : Registers).advanceR a)).advanceR b).r = (({ r } : Registers).advanceR (a + b)).r
    rw [Registers.advanceR_add]
  · rfl

/-- The CPU with R set to `r` and the refresh mode to `p`. -/
def Cpu.withRefresh (c : Cpu) (r : UInt8) (p : RefreshMode) : Cpu :=
  { c with regs := { c.regs with r }, config := { c.config with refresh := p } }

/-- The machine with R set to `r` and the refresh mode to `p`. -/
def Machine.withRefresh {β : Type} (m : Machine β) (r : UInt8) (p : RefreshMode) : Machine β :=
  { m with cpu := m.cpu.withRefresh r p }

namespace Cpu

variable (c : Cpu) (r : UInt8) (p : RefreshMode)

@[simp] theorem withRefresh_withRefresh (r' : UInt8) (p' : RefreshMode) :
    (c.withRefresh r p).withRefresh r' p' = c.withRefresh r' p' := rfl

@[simp] theorem withRefresh_regs : (c.withRefresh r p).regs = { c.regs with r } := rfl

@[simp] theorem withRefresh_eiShadow : (c.withRefresh r p).eiShadow = c.eiShadow := rfl

theorem fetchedR_withRefresh (n : Nat) : (c.withRefresh r p).fetchedR n = p.countFetches r n := by
  cases p <;> rfl

/-- Counting fetches on a CPU whose R and mode were replaced counts them from the new R. -/
theorem refreshBy_withRefresh (n : Nat) :
    (c.withRefresh r p).refreshBy n = (c.refreshBy n).withRefresh (p.countFetches r n) p := by
  simp only [refreshBy_eq, fetchedR_withRefresh]
  rfl

@[simp] theorem withRefresh_refreshBy (n : Nat) : (c.refreshBy n).withRefresh r p = c.withRefresh r p := by
  simp only [refreshBy_eq]
  rfl

end Cpu

@[simp] theorem Machine.withRefresh_cpu {β : Type} (m : Machine β) (r : UInt8) (p : RefreshMode) :
    (m.withRefresh r p).cpu = m.cpu.withRefresh r p := rfl

/-! ## Register operands leave R alone -/

namespace Registers

variable (rs : Registers) (r : UInt8)

@[simp] theorem reg8_withR (x : Reg8) : ({ rs with r } : Registers).reg8 x = rs.reg8 x := by
  cases x <;> rfl

@[simp] theorem reg16_withR (x : Reg16) : ({ rs with r } : Registers).reg16 x = rs.reg16 x := by
  cases x <;> rfl

@[simp] theorem taken_withR (cc : Option Cond) :
    ({ rs with r } : Registers).taken cc = rs.taken cc := by
  rcases cc with _ | cc
  · rfl
  · cases cc <;> rfl

@[simp] theorem setReg8_withR (x : Reg8) (v : UInt8) :
    ({ rs with r } : Registers).setReg8 x v = { rs.setReg8 x v with r } := by
  cases x <;> rfl

@[simp] theorem setReg16_withR (x : Reg16) (v : UInt16) :
    ({ rs with r } : Registers).setReg16 x v = { rs.setReg16 x v with r } := by
  cases x <;> rfl

end Registers

namespace Exec

variable {β : Type} [Bus β] (r : UInt8) (p : RefreshMode)

/-! ## The primitives -/

section Primitives

omit [Bus β] in
@[simp] theorem regs_withRefresh (m : Machine β) :
    (regs : Exec β Registers) (m.withRefresh r p) = .ok { m.cpu.regs with r } (m.withRefresh r p) :=
  rfl

omit [Bus β] in
/-- A change of the CPU that commutes with replacing R and the mode. -/
@[simp] theorem modifyCpu_withRefresh (f : Cpu → Cpu) (m : Machine β)
    (hf : ∀ c : Cpu, f (c.withRefresh r p) = (f c).withRefresh r p) :
    (modifyCpu f : Exec β Unit) (m.withRefresh r p) = mapState (·.withRefresh r p) (modifyCpu f m) := by
  simp only [modifyCpu, mapState_ok, Machine.withRefresh, hf]

omit [Bus β] in
/-- A register update that leaves R alone commutes with replacing R and the mode. -/
@[simp] theorem modifyRegs_withRefresh (f : Registers → Registers) (m : Machine β)
    (hf : ∀ rs : Registers, f { rs with r } = { f rs with r }) :
    (modifyRegs f : Exec β Unit) (m.withRefresh r p) = mapState (·.withRefresh r p) (modifyRegs f m) := by
  simp only [modifyRegs, modifyCpu, mapState_ok, Machine.withRefresh, Cpu.withRefresh, hf]

@[simp] theorem readByte_withRefresh (a : UInt16) (m : Machine β) :
    (readByte a : Exec β UInt8) (m.withRefresh r p) = mapState (·.withRefresh r p) (readByte a m) := by
  have h : (m.withRefresh r p).cpu.fastSlot a = m.cpu.fastSlot a := rfl
  have hb : (m.withRefresh r p).bus = m.bus := rfl
  simp only [readByte, h, hb]
  cases m.cpu.fastSlot a with
  | some p => rfl
  | none => rcases Bus.read m.bus a with ⟨_ | v, b⟩ <;> rfl

theorem write_withRefresh (m : Machine β) (a : UInt16) (v : UInt8) :
    (m.withRefresh r p).write a v = (m.write a v).withRefresh r p := by
  simp only [Machine.write, writeByte]
  have h : (m.withRefresh r p).cpu.fastSlot a = m.cpu.fastSlot a := rfl
  rw [h]
  rcases m.cpu.fastSlot a with _ | ⟨id, off⟩ <;> rfl

@[simp] theorem writeByte_withRefresh (a : UInt16) (v : UInt8) (m : Machine β) :
    (writeByte a v : Exec β Unit) (m.withRefresh r p) =
      mapState (·.withRefresh r p) (writeByte a v m) := by
  simp only [writeByte_apply, write_withRefresh, mapState_ok]

@[simp] theorem readWord_withRefresh (a : UInt16) (m : Machine β) :
    (readWord a : Exec β UInt16) (m.withRefresh r p) = mapState (·.withRefresh r p) (readWord a m) := by
  simp only [readWord, bind_apply, readByte_withRefresh, elim_mapState, mapState_elim, pure_apply,
    mapState_ok, mapState_error]

@[simp] theorem input_withRefresh (q : UInt16) (m : Machine β) :
    (input q : Exec β UInt8) (m.withRefresh r p) = mapState (·.withRefresh r p) (input q m) := rfl

@[simp] theorem output_withRefresh (q : UInt16) (v : UInt8) (m : Machine β) :
    (output q v : Exec β Unit) (m.withRefresh r p) = mapState (·.withRefresh r p) (output q v m) :=
  rfl

@[simp] theorem push_withRefresh (v : UInt16) (m : Machine β) :
    (Exec.push v : Exec β Unit) (m.withRefresh r p) = mapState (·.withRefresh r p) (Exec.push v m) := by
  simp (disch := intro _; rfl) only [Exec.push, bind_apply, elim_mapState, modifyRegs_withRefresh,
    writeByte_withRefresh, mapState_elim, elim_regs]
  rfl

end Primitives

/-! ## Instructions -/

section Instructions

omit [Bus β] in
@[simp] theorem locate_withRefresh (o : Operand) (m : Machine β) :
    (locate o : Exec β Loc) (m.withRefresh r p) = mapState (·.withRefresh r p) (locate o m) := by
  cases o <;> rfl

@[simp] theorem load_withRefresh (l : Loc) (m : Machine β) :
    (load l : Exec β UInt8) (m.withRefresh r p) = mapState (·.withRefresh r p) (load l m) := by
  cases l
  · rfl
  · exact readByte_withRefresh r p _ m

@[simp] theorem store_withRefresh (l : Loc) (v : UInt8) (m : Machine β) :
    (store l v : Exec β Unit) (m.withRefresh r p) = mapState (·.withRefresh r p) (store l v m) := by
  cases l
  · simp [store]
  · exact writeByte_withRefresh r p _ _ m

@[simp] theorem source_withRefresh (o : Source) (m : Machine β) :
    (source o : Exec β UInt8) (m.withRefresh r p) = mapState (·.withRefresh r p) (source o m) := by
  cases o <;> simp [source]

omit [Bus β] in
@[simp] theorem pointer_withRefresh (q : Pointer) (m : Machine β) :
    (pointer q : Exec β UInt16) (m.withRefresh r p) = mapState (·.withRefresh r p) (pointer q m) := by
  cases q <;> rfl

@[simp] theorem rewrite_withRefresh (o : Operand) (copy : Option Reg8) (g : UInt8 → UInt8)
    (m : Machine β) :
    (rewrite o copy g : Exec β UInt8) (m.withRefresh r p) =
      mapState (·.withRefresh r p) (rewrite o copy g m) := by
  cases copy <;> simp [rewrite]

@[simp] theorem block_withRefresh (op : BlockOp) (up repeats : Bool) (m : Machine β) :
    (Exec.block op up repeats : Exec β Nat) (m.withRefresh r p) =
      mapState (·.withRefresh r p) (Exec.block op up repeats m) := by
  cases op <;>
    simp (disch := intro _; simp only [Registers.setHL, Registers.setDE, Registers.setBC,
        Registers.setXY, Registers.hl, Registers.de, Registers.bc]) only [Exec.block, blockLoad,
      blockCompare, blockIn, blockOut, repeatBlock, bind_apply, pure_apply, ite_apply,
      elim_mapState, mapState_elim, mapState_ok, mapState_error, mapState_ite, regs_withRefresh,
      modifyRegs_withRefresh, readByte_withRefresh, writeByte_withRefresh, input_withRefresh,
      output_withRefresh, elim_ok] <;>
    rfl

/-- An instruction other than LD A,R and LD R,A neither reads nor writes R or the refresh
mode. -/
theorem exec_withRefresh {i : Instr} (hA : i ≠ .ldAR) (hR : i ≠ .ldRA) (m : Machine β) :
    (i.exec : Exec β Nat) (m.withRefresh r p) = mapState (·.withRefresh r p) (i.exec m) := by
  cases i
  case ldAR => exact absurd rfl hA
  case ldRA => exact absurd rfl hR
  -- IN r,(C) picks its destination by a match inside the register update
  case inC dst =>
    cases dst <;>
      simp (disch := intro _; simp only [Registers.setReg8_withR]) only [Instr.exec, bind_apply,
        elim_regs, regs_withRefresh, input_withRefresh, elim_mapState, modifyRegs_withRefresh,
        mapState_elim, elim_ok, pure_apply, mapState_ok] <;>
      rfl
  all_goals
    simp (disch := intro _; simp only [Registers.setHL, Registers.setDE, Registers.setBC,
        Registers.setAF, Registers.setXY, Registers.hl, Registers.de, Registers.bc, Registers.af,
        Registers.swapAF, Registers.swapMain, Registers.setReg8_withR, Registers.setReg16_withR,
        Registers.reg16_withR]) only [Instr.exec, readWord, writeWord, Exec.pop, setWZ, setPC,
      setF, setAFrom, jumpRelative, writeBack, bind_apply, pure_apply, ite_apply, elim_elim,
      elim_ok, elim_error, elim_mapState, mapState_elim, mapState_ok, mapState_error, mapState_ite,
      regs_withRefresh, modifyRegs_withRefresh, readByte_withRefresh, writeByte_withRefresh,
      input_withRefresh, output_withRefresh, locate_withRefresh, load_withRefresh,
      store_withRefresh, source_withRefresh, pointer_withRefresh, rewrite_withRefresh,
      block_withRefresh, push_withRefresh, Registers.taken_withR, elim_regs]
  all_goals rfl

/-- LD R,A writes R from A, whatever R and the mode were. -/
theorem exec_ldRA_withRefresh (m : Machine β) :
    (Instr.ldRA.exec : Exec β Nat) (m.withRefresh r p) =
      mapState (·.withRefresh m.cpu.regs.a p) (Instr.ldRA.exec m) :=
  rfl

end Instructions

end Exec

theorem Machine.push_withRefresh {β : Type} [Bus β] (r : UInt8) (p : RefreshMode) (v : UInt16)
    (m : Machine β) : (m.withRefresh r p).push v = (m.push v).withRefresh r p := by
  have h := Exec.push_withRefresh r p v m
  rw [Exec.push_apply, Exec.push_apply, Exec.mapState_ok] at h
  exact (EStateM.Result.ok.inj h).2

namespace Machine

variable {β : Type} (r : UInt8) (p : RefreshMode) (m : Machine β)

@[simp] theorem control_withRefresh : (m.withRefresh r p).control = m.control := rfl

@[simp] theorem nextInstr_withRefresh : (m.withRefresh r p).cpu.nextInstr = m.cpu.nextInstr := rfl

theorem idle_withRefresh (n : Nat) :
    (m.withRefresh r p).idle n = (m.idle n).withRefresh (p.countFetches r n) p := by
  simp only [idle, withRefresh_cpu, Cpu.refreshBy_withRefresh]
  rfl

/-- The machine an acknowledgment pushes from: HALT left, the lines written and the opcode
fetch counted in R. -/
theorem ackEntry_withRefresh (lines : Lines) (pc : UInt16) :
    ({ m.withRefresh r p with
        cpu := { (m.withRefresh r p).cpu with
          eiShadow := false
          regs := { (m.withRefresh r p).cpu.regs with
            lines, halted := false, pc, r := (m.withRefresh r p).cpu.fetchedR 1 } } } : Machine β) =
      ({ m with
          cpu := { m.cpu with
            eiShadow := false
            regs := { m.cpu.regs with lines, halted := false, pc, r := m.cpu.fetchedR 1 } } } :
        Machine β).withRefresh (p.countFetches r 1) p := by
  cases p <;> rfl

/-- An acknowledgment counts its opcode fetch from the replaced R. -/
theorem acknowledging_withRefresh [Bus β] (lines : Lines) (w : IffWrite) :
    (m.withRefresh r p).acknowledging lines w =
      (m.acknowledging lines w).withRefresh (p.countFetches r 1) p := by
  simp only [acknowledging]
  rw [ackEntry_withRefresh, push_withRefresh]
  rfl

end Machine

/-! ## Steps -/

/-- The machine after the instruction at PC is fetched: the EI shadow consumed, PC moved past
the instruction and its opcode fetches counted in R. -/
def Machine.fetched {β : Type} (m : Machine β) : Machine β :=
  let d := m.cpu.nextInstr
  let regs := { m.cpu.regs with pc := m.cpu.regs.pc + d.length.toUInt16 }
  { m with cpu := ({ m.cpu with eiShadow := false, regs } : Cpu).refreshBy d.fetches }

/-- Whether the step from `m` executes LD A,R. -/
def Machine.readsR {β : Type} (m : Machine β) : Bool :=
  decide (m.control.stepKind = .instruction ∧ m.cpu.nextInstr.instr = .ldAR)

namespace Exec

variable {β : Type} [Bus β] (r : UInt8) (p : RefreshMode)

/-- A step that takes no request and is not halted executes the instruction at PC from the
machine that fetched it, and counts the instruction's cost. -/
theorem executeOne_of_instruction {m : Machine β} (hn : m.control.taken = none)
    (hh : m.cpu.regs.halted = false) :
    (executeOne : Exec β StepResult) m =
      elim ((m.cpu.nextInstr.instr.exec : Exec β Nat) m.fetched)
        (fun n x => .ok ⟨.instruction, m.cpu.nextInstr.cycles + n⟩
          (x.counted (m.cpu.nextInstr.cycles + n)))
        (fun e x => .error e x) := by
  have hf : (fetchInstr : Exec β Decoded) { m with cpu := { m.cpu with eiShadow := false } } =
      .ok m.cpu.nextInstr m.fetched := rfl
  simp only [executeOne, bind_apply, serviceInterrupts_of_taken_none hn, elim_ok, elim_regs, hh,
    Bool.false_eq_true, if_false, hf]
  cases (m.cpu.nextInstr.instr.exec : Exec β Nat) m.fetched <;> rfl

omit [Bus β] in
theorem fetched_withRefresh (m : Machine β) :
    (m.withRefresh r p).fetched =
      m.fetched.withRefresh (p.countFetches r m.cpu.nextInstr.fetches) p := by
  -- fetching reads PC and the fetch map, neither of which the replacement touches
  let regs := { m.cpu.regs with pc := m.cpu.regs.pc + m.cpu.nextInstr.length.toUInt16 }
  let c : Cpu := { m.cpu with eiShadow := false, regs }
  change ({ m.withRefresh r p with cpu := (c.withRefresh r p).refreshBy m.cpu.nextInstr.fetches } :
    Machine β) = _
  rw [Cpu.refreshBy_withRefresh]
  rfl

/-- An acknowledgment counts one opcode fetch in R. -/
theorem executeOne_withRefresh_of_taken {m : Machine β} (ht : m.control.taken ≠ none) :
    (executeOne : Exec β StepResult) (m.withRefresh r p) =
      mapState (·.withRefresh (p.countFetches r 1) p) (executeOne m) := by
  cases hn : m.cpu.regs.lines.nmi
  case true =>
    rw [executeOne_nmi hn, executeOne_nmi (m := m.withRefresh r p) hn,
      Machine.acknowledging_withRefresh]
    rfl
  case false =>
    -- with no NMI waiting, the request taken is INT, so its three conditions hold
    have hi : m.cpu.regs.lines.int = true ∧ m.cpu.regs.iff1 = true ∧ m.cpu.eiShadow = false := by
      by_contra hc
      exact ht (Control.taken_eq_none hn hc)
    obtain ⟨hi, h1, he⟩ := hi
    rcases InterruptMode.byte_cases m.cpu.regs.im with him | him | him
    · rw [executeOne_im0 hn hi h1 he him, executeOne_im0 (m := m.withRefresh r p) hn hi h1 he him,
        Machine.acknowledging_withRefresh]
      rfl
    · rw [executeOne_im1 hn hi h1 he him, executeOne_im1 (m := m.withRefresh r p) hn hi h1 he him,
        Machine.acknowledging_withRefresh]
      rfl
    · rw [executeOne_im2 hn hi h1 he him, executeOne_im2 (m := m.withRefresh r p) hn hi h1 he him,
        Machine.acknowledging_withRefresh, readWord_withRefresh, elim_mapState, mapState_elim]
      rfl

/-- A halted idle counts one opcode fetch in R. -/
theorem executeOne_withRefresh_of_halted {m : Machine β} (ht : m.control.taken = none)
    (hh : m.cpu.regs.halted = true) :
    (executeOne : Exec β StepResult) (m.withRefresh r p) =
      mapState (·.withRefresh (p.countFetches r 1) p) (executeOne m) := by
  have hs : ({ m.withRefresh r p with cpu := { (m.withRefresh r p).cpu with eiShadow := false } } :
      Machine β) = ({ m with cpu := { m.cpu with eiShadow := false } } : Machine β).withRefresh r p :=
    rfl
  rw [executeOne_of_halted hh ht, executeOne_of_halted (x := m.withRefresh r p) hh ht, hs,
    Machine.idle_withRefresh]
  rfl

/-- An instruction other than LD A,R and LD R,A counts its opcode fetches in R. -/
theorem executeOne_withRefresh_of_instruction {m : Machine β} (ht : m.control.taken = none)
    (hh : m.cpu.regs.halted = false) (hA : m.cpu.nextInstr.instr ≠ .ldAR)
    (hR : m.cpu.nextInstr.instr ≠ .ldRA) :
    (executeOne : Exec β StepResult) (m.withRefresh r p) =
      mapState (·.withRefresh (p.countFetches r m.cpu.nextInstr.fetches) p) (executeOne m) := by
  rw [executeOne_of_instruction ht hh, executeOne_of_instruction (m := m.withRefresh r p) ht hh,
    Machine.nextInstr_withRefresh, fetched_withRefresh, exec_withRefresh _ _ hA hR, elim_mapState,
    mapState_elim]
  rfl

/-- LD R,A leaves R holding A. -/
theorem executeOne_withRefresh_of_ldRA {m : Machine β} (ht : m.control.taken = none)
    (hh : m.cpu.regs.halted = false) (hR : m.cpu.nextInstr.instr = .ldRA) :
    (executeOne : Exec β StepResult) (m.withRefresh r p) =
      mapState (·.withRefresh m.cpu.regs.a p) (executeOne m) := by
  have ha : m.fetched.cpu.regs.a = m.cpu.regs.a := by simp [Machine.fetched]
  rw [executeOne_of_instruction ht hh, executeOne_of_instruction (m := m.withRefresh r p) ht hh,
    Machine.nextInstr_withRefresh, fetched_withRefresh, hR, exec_ldRA_withRefresh, ha,
    elim_mapState, mapState_elim]
  rfl

/-- A step that does not execute LD A,R neither reads R nor the refresh mode: from a machine
whose R and mode were replaced it does what it does from the original, and leaves R at a
value of its own. -/
theorem executeOne_withRefresh {m : Machine β} (h : m.readsR = false) :
    ∃ r', (executeOne : Exec β StepResult) (m.withRefresh r p) =
      mapState (·.withRefresh r' p) (executeOne m) := by
  cases ht : m.control.taken with
  | some k => exact ⟨_, executeOne_withRefresh_of_taken r p (by simp [ht])⟩
  | none =>
    cases hh : m.cpu.regs.halted
    case true => exact ⟨_, executeOne_withRefresh_of_halted r p ht hh⟩
    case false =>
      have hk : m.control.stepKind = .instruction := by
        rw [Control.stepKind_of_taken_none ht]
        simp [Machine.control, hh]
      have hA : m.cpu.nextInstr.instr ≠ .ldAR := fun hA => by
        simp [Machine.readsR, hk, hA] at h
      by_cases hR : m.cpu.nextInstr.instr = .ldRA
      · exact ⟨_, executeOne_withRefresh_of_ldRA r p ht hh hR⟩
      · exact ⟨_, executeOne_withRefresh_of_instruction r p ht hh hA hR⟩

end Exec

end Z80
