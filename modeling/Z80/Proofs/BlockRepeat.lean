import Z80.Proofs.Fetch

/-!
# Repeating block instructions

LDIR, CPIR, INIR, OTIR and their counting-down forms are not loops in the code: a repeating
form runs its single form once and, while it goes round (`BlockOp.goesRound`), rewinds PC onto
its ED prefix, so that the next step decodes it again. This file puts the loop back together.

* `block_repeats`: the repeating form is its single form followed by the choice to go round,
  which costs `Timing.blockRepeat` and rewinds PC and WZ, or to stop.
* `executeOne_turn`: at a machine ready for it, a step is one turn (`Machine.blockTurn`) or the
  last one.
* `blockTurns_invariant`: over the turns, PC stays on the instruction, no request arises, the bus
  keeps answering, and the counter, HL and A move as the single form moves them.
* `repeating_block_turns`: the instruction takes as many steps as its counter allows, CPIR and
  CPDR stopping at the first byte equal to A, the last step leaving PC past the instruction.
-/

open Std.Do

set_option mvcgen.warning false

namespace Z80

/-! ## The block opcodes and their counters -/

/-- The opcode after ED of a block instruction: A0 to A3 for LDI, CPI, INI and OUTI, eight on
for the forms that count down, sixteen on for the repeating forms. -/
def BlockOp.opcode (f : BlockOp) (up repeats : Bool) : UInt8 :=
  (match f with | .load => 0xA0 | .compare => 0xA1 | .input => 0xA2 | .output => 0xA3) +
    (if up then 0 else 0x08) + (if repeats then 0x10 else 0)

/-- The cycles a repeating block instruction pays when it stops: CPIR and CPDR pay for the
last compare. -/
def BlockOp.exitExtra : BlockOp → Nat
  | .compare => Timing.blockCompareExit
  | _ => 0

/-- The single form takes one off the counter: BC for LD and CP, B for IN and OUT. -/
def BlockOp.countedDown (f : BlockOp) (rs rs' : Registers) : Prop :=
  match f with
  | .load | .compare => rs'.bc = rs.bc - 1
  | .input | .output => rs'.b = rs.b - 1

/-- How many turns a repeating block instruction can take from the registers `rs`: its counter,
zero standing for a full turn of it. -/
def BlockOp.iterations (f : BlockOp) (rs : Registers) : Nat :=
  match f with
  | .load | .compare => if rs.bc = 0 then 65536 else rs.bc.toNat
  | .input | .output => if rs.b = 0 then 256 else rs.b.toNat

namespace BlockOp

variable {f : BlockOp} {rs rs' : Registers}

theorem one_le_iterations (f : BlockOp) (rs : Registers) : 1 ≤ f.iterations rs := by
  cases f <;> simp only [iterations] <;> split
  -- a full turn of the counter is closed by simp; a counter that is not zero is at least one
  all_goals simp_all [← UInt16.toNat_inj, ← UInt8.toNat_inj]
  all_goals omega

theorem iterations_of_countedDown (h : f.countedDown rs rs') (h1 : f.iterations rs ≠ 1) :
    f.iterations rs' = f.iterations rs - 1 := by
  cases f <;> simp only [countedDown] at h <;> simp only [iterations] at h1 ⊢ <;> rw [h]
  all_goals
    have := rs.bc.toNat_lt
    have := rs.b.toNat_lt
    simp only [← UInt16.toNat_inj, ← UInt8.toNat_inj, UInt16.toNat_sub, UInt8.toNat_sub,
      UInt16.toNat_ofNat, UInt8.toNat_ofNat, Nat.reducePow, Nat.reduceMod] at h1 ⊢
    split_ifs at h1 ⊢ <;> omega

/-- After the single form, a repeating form goes round while the counter had more than one turn
left and, for CPIR and CPDR, Z is clear. -/
theorem goesRound_of_countedDown (h : f.countedDown rs rs') :
    f.goesRound rs' = (decide (f.iterations rs ≠ 1) &&
      (f != .compare || rs'.f &&& Flag.z == 0)) := by
  cases f <;> simp only [countedDown] at h <;> simp only [goesRound, iterations, h]
  all_goals
    have := rs.bc.toNat_lt
    have := rs.b.toNat_lt
    generalize (rs'.f &&& Flag.z == 0) = z
    rw [Bool.eq_iff_iff]
    cases z <;> simp only [← UInt16.toNat_inj, ← UInt8.toNat_inj, UInt16.toNat_sub,
      UInt8.toNat_sub, UInt16.toNat_ofNat, UInt8.toNat_ofNat, Nat.reducePow, Nat.reduceMod,
      bne_iff_ne, ne_eq, Bool.and_eq_true, decide_eq_true_eq, Bool.or_eq_true, reduceCtorEq,
      not_false_eq_true, not_true_eq_false, or_true, or_false, and_true, and_false] at * <;>
      split_ifs <;> omega

end BlockOp

/-! ## One turn -/

/-- PC put back onto the ED prefix and WZ one past it, as a repeat leaves them. -/
def Machine.rewound {β : Type} (x : Machine β) : Machine β :=
  x.mapRegs fun rs => { rs with pc := rs.pc - 2, wz := rs.pc - 2 + 1 }

theorem nextInstr_block {β : Type} {x : Machine β} {f : BlockOp} {up repeats : Bool}
    (h0 : x.cpu.opcodes 0 = 0xED) (h1 : x.cpu.opcodes 1 = f.opcode up repeats) :
    x.cpu.nextInstr = ⟨.block f up repeats, 2, 2, 16⟩ := by
  rw [Cpu.nextInstr_eq]
  simp only [decode, h0, h1]
  cases f <;> cases up <;> cases repeats <;> rfl

namespace Exec

variable {β : Type} [Bus β]

/-- A repeating form is its single form, then a repeat if it goes round, or the exit cost. -/
theorem block_repeats (f : BlockOp) (up : Bool) :
    (Exec.block f up true : Exec β Nat) = (do
      let _ ← Exec.block f up false
      if f.goesRound (← regs) then repeatBlock else pure f.exitExtra) := by
  funext m
  cases f
  all_goals
    simp only [Exec.block, blockLoad, blockCompare, blockIn, blockOut, bind_apply, elim_elim,
      elim_regs, elim_modifyRegs, ite_apply, pure_apply, input, output, readByte, Bool.false_and,
      Bool.true_and, Bool.false_eq_true, if_false, elim_ok]
    -- the same reads and writes on both sides; what is left is the condition to go round
    repeat' split
    all_goals first
      | rfl
      | simp_all [writeByte_apply, BlockOp.goesRound, BlockOp.exitExtra, Registers.setHL,
          Registers.setDE, Registers.setBC, Registers.setXY, Registers.bc,
          Alu.blockCompareFlags_z_eq_zero]

theorem executeOne_block {x : Machine β} {f : BlockOp} {up : Bool}
    (hn : x.control.taken = none) (hh : x.cpu.regs.halted = false)
    (h0 : x.cpu.opcodes 0 = 0xED) (h1 : x.cpu.opcodes 1 = f.opcode up true) :
    (executeOne : Exec β StepResult) x =
      elim ((Instr.block f up false).exec x.fetched)
        (fun _ y => if f.goesRound y.cpu.regs then .ok ⟨.instruction, 21⟩ (y.rewound.counted 21)
          else .ok ⟨.instruction, 16 + f.exitExtra⟩ (y.counted (16 + f.exitExtra)))
        (fun e y => .error e y) := by
  rw [executeOne_of_instruction hn hh, nextInstr_block h0 h1]
  simp only [Instr.exec, block_repeats, bind_apply, elim_elim, elim_regs]
  cases (Exec.block f up false : Exec β Nat) x.fetched with
  | ok n y =>
    simp only [elim_ok]
    split <;> rfl
  | error e y => rfl

theorem exec_block_single (f : BlockOp) (up : Bool) (rs : Registers) :
    ⦃fun m : Machine β => ⌜m.cpu.regs = rs⌝⦄ ((Instr.block f up false).exec : Exec β Nat)
    ⦃post⟨fun _ m => ⌜m.cpu.regs.a = rs.a ∧ m.cpu.regs.hl = stepBy up rs.hl ∧
        f.countedDown rs m.cpu.regs⌝, fun _ _ => ⌜True⌝⟩⦄ := by
  cases f
  all_goals mvcgen -trivial [Instr.exec, Exec.block, blockLoad, blockCompare, blockIn, blockOut,
    readByte_eq]
  all_goals
    subst_vars
    simp_all +zetaDelta [BlockOp.countedDown, Registers.setHL, Registers.setDE, Registers.setBC,
      Registers.setXY, Registers.hl, Registers.bc]

end Exec

/-- The machine after the single form of a block instruction (LDI, CPD, ...) runs from the fetch
of `x`. -/
def Machine.blockOnce {β : Type} [Bus β] (x : Machine β) (f : BlockOp) (up : Bool) :
    Machine β :=
  Exec.after ((Instr.block f up false).exec x.fetched)

/-- A turn of a repeating block instruction that goes round: the single form, then PC and WZ
rewound and 21 cycles counted. -/
def Machine.blockTurn {β : Type} [Bus β] (x : Machine β) (f : BlockOp) (up : Bool) :
    Machine β :=
  (x.blockOnce f up).rewound.counted 21

/-- The machine at the start of turn `j` of a repeating block instruction started at `m`. -/
def Machine.blockTurns {β : Type} [Bus β] (m : Machine β) (f : BlockOp) (up : Bool) (j : Nat) :
    Machine β :=
  (fun x => x.blockTurn f up)^[j] m

/-- What a data read of `a` gives on `x`: a byte, or the bus refusing it. -/
def Machine.dataByte {β : Type} [Bus β] (x : Machine β) (a : UInt16) : Except Abort UInt8 :=
  Exec.answer ((Exec.readByte a : Exec β UInt8) x)

namespace Exec

variable {β : Type} [Bus β] {P : β → Prop} {f : BlockOp} {up : Bool} {x : Machine β}

omit [Bus β] in
theorem fetched_regs_block (x : Machine β) :
    x.fetched.cpu.regs.a = x.cpu.regs.a ∧ x.fetched.cpu.regs.hl = x.cpu.regs.hl ∧
      x.fetched.cpu.regs.bc = x.cpu.regs.bc ∧ x.fetched.cpu.regs.b = x.cpu.regs.b := by
  simp [Machine.fetched, Registers.hl, Registers.bc]

theorem blockOnce_spec (hP : Bus.Reliable P) (hb : P x.bus)
    (h0 : x.cpu.opcodes 0 = 0xED) (h1 : x.cpu.opcodes 1 = f.opcode up true) :
    (∃ n, (Instr.block f up false).exec x.fetched = .ok n (x.blockOnce f up)) ∧
      P (x.blockOnce f up).bus ∧ (x.blockOnce f up).control = x.fetched.control ∧
      (x.blockOnce f up).cpu.regs.pc = x.cpu.regs.pc + 2 ∧
      (x.blockOnce f up).cpu.regs.a = x.cpu.regs.a ∧
      (x.blockOnce f up).cpu.regs.hl = stepBy up x.cpu.regs.hl ∧
      f.countedDown x.cpu.regs (x.blockOnce f up).cpu.regs := by
  obtain ⟨n, y, hx, hy⟩ := exec_ok_of_reliable hP (.block f up false) (m := x.fetched) hb
  have hon : x.blockOnce f up = y := by simp [Machine.blockOnce, hx, after]
  rw [hon]
  obtain ⟨ha, hl, hbc, hbb⟩ := fetched_regs_block x
  have hpc : x.fetched.cpu.regs.pc = x.cpu.regs.pc + 2 := by
    rw [(fetched_pc_f x).1, nextInstr_block h0 h1]
    rfl
  obtain ⟨hsa, hshl, hsc⟩ := ok_of_triple (exec_block_single f up x.fetched.cpu.regs) rfl hx
  have hspc := ok_of_triple (exec_pc (.block f up false) x.fetched.cpu.regs) rfl hx rfl
  refine ⟨⟨n, hx⟩, hy, exec_ok_control hx, hspc.trans hpc, hsa.trans ha, by rw [hshl, hl],
    ?_⟩
  cases f <;> simp only [BlockOp.countedDown] at hsc ⊢ <;> rw [hsc]
  · rw [hbc]
  · rw [hbc]
  · rw [hbb]
  · rw [hbb]

/-- A turn puts PC back, keeps the requests and HALT as they were and the bus answering, and
counts the single form's effect on the counter, HL and A. -/
theorem blockTurn_spec (hP : Bus.Reliable P) (hb : P x.bus)
    (h0 : x.cpu.opcodes 0 = 0xED) (h1 : x.cpu.opcodes 1 = f.opcode up true) :
    (x.blockTurn f up).cpu.regs.pc = x.cpu.regs.pc ∧ P (x.blockTurn f up).bus ∧
      (x.blockTurn f up).cpu.wakePending = x.cpu.wakePending ∧
      (x.blockTurn f up).cpu.regs.halted = x.cpu.regs.halted ∧
      (x.blockTurn f up).cpu.regs.a = x.cpu.regs.a ∧
      (x.blockTurn f up).cpu.regs.hl = stepBy up x.cpu.regs.hl ∧
      f.countedDown x.cpu.regs (x.blockTurn f up).cpu.regs := by
  obtain ⟨-, hb', hc, hpc, ha, hl, hd⟩ := blockOnce_spec hP hb h0 h1
  -- the requests and HALT are part of the control state the fetch leaves alone
  have hlines := congrArg Control.lines hc
  have hiff := congrArg Control.iff1 hc
  have hhalt := congrArg Control.halted hc
  simp only [Machine.control] at hlines hiff hhalt
  refine ⟨?_, hb', ?_, ?_, ha, ?_, ?_⟩
  · simp [Machine.blockTurn, Machine.rewound, Machine.counted, Machine.mapRegs, hpc]
  · simp [Machine.blockTurn, Machine.rewound, Machine.counted, Machine.mapRegs, Cpu.wakePending,
      hlines, hiff, Machine.fetched]
  · simp [Machine.blockTurn, Machine.rewound, Machine.counted, Machine.mapRegs, hhalt,
      Machine.fetched]
  · simpa [Machine.blockTurn, Machine.rewound, Machine.counted, Machine.mapRegs, Registers.hl]
      using hl
  · cases f <;> simpa [BlockOp.countedDown, Machine.blockTurn, Machine.rewound, Machine.counted,
      Machine.mapRegs, Registers.bc] using hd

theorem executeOne_turn (hP : Bus.Reliable P) (hb : P x.bus) (hw : x.cpu.wakePending = false)
    (hh : x.cpu.regs.halted = false)
    (h0 : x.cpu.opcodes 0 = 0xED) (h1 : x.cpu.opcodes 1 = f.opcode up true) :
    (executeOne : Exec β StepResult) x =
      if f.goesRound (x.blockOnce f up).cpu.regs then .ok ⟨.instruction, 21⟩ (x.blockTurn f up)
      else .ok ⟨.instruction, 16 + f.exitExtra⟩
        ((x.blockOnce f up).counted (16 + f.exitExtra)) := by
  obtain ⟨⟨n, hx⟩, -⟩ := blockOnce_spec hP hb h0 h1
  rw [executeOne_block (Control.taken_of_not_wakePending hw) hh h0 h1, hx]
  rfl

theorem blockTurns_succ (m : Machine β) (j : Nat) :
    m.blockTurns f up (j + 1) = (m.blockTurns f up j).blockTurn f up :=
  Function.iterate_succ_apply' _ _ _

omit [Bus β] in
theorem opcodes_of_pc {x : Machine β} {p : UInt16} {op : UInt8} (hpc : x.cpu.regs.pc = p)
    (c0 : x.cpu.fetch.fetch p = 0xED) (c1 : x.cpu.fetch.fetch (p + 1) = op) :
    x.cpu.opcodes 0 = 0xED ∧ x.cpu.opcodes 1 = op := by
  subst hpc
  exact ⟨by simpa [Cpu.opcodes] using c0, by simpa [Cpu.opcodes] using c1⟩

/-! ## The turns -/

/-- The turns of a repeating block instruction from `m`, as long as its counter lasts: PC stays on
the instruction, no request arises, the bus keeps answering, the counter runs down one a turn, HL
steps one a turn and A stays. -/
theorem blockTurns_invariant (hP : Bus.Reliable P) {m : Machine β} (hb : P m.bus)
    (hw : m.cpu.wakePending = false) (hh : m.cpu.regs.halted = false)
    (hcode : ∀ j < f.iterations m.cpu.regs,
      (m.blockTurns f up j).cpu.fetch.fetch m.cpu.regs.pc = 0xED ∧
      (m.blockTurns f up j).cpu.fetch.fetch (m.cpu.regs.pc + 1) = f.opcode up true) :
    ∀ j < f.iterations m.cpu.regs,
      (m.blockTurns f up j).cpu.regs.pc = m.cpu.regs.pc ∧ P (m.blockTurns f up j).bus ∧
      (m.blockTurns f up j).cpu.wakePending = false ∧
      (m.blockTurns f up j).cpu.regs.halted = false ∧
      f.iterations (m.blockTurns f up j).cpu.regs = f.iterations m.cpu.regs - j ∧
      (m.blockTurns f up j).cpu.regs.hl = (stepBy up)^[j] m.cpu.regs.hl ∧
      (m.blockTurns f up j).cpu.regs.a = m.cpu.regs.a := by
  intro j
  -- induction on the turn; each turn is `blockTurn_spec` at the machine the last one left
  induction j with
  | zero => intro _; exact ⟨rfl, hb, hw, hh, rfl, rfl, rfl⟩
  | succ j ih =>
    intro hj
    obtain ⟨hpc, hbj, hwj, hhj, hit, hl, ha⟩ := ih (by omega)
    obtain ⟨c0, c1⟩ := hcode j (by omega)
    obtain ⟨h0, h1⟩ := opcodes_of_pc hpc c0 c1
    obtain ⟨tpc, tb, tw, th, ta, tl, td⟩ := blockTurn_spec hP hbj h0 h1
    rw [blockTurns_succ]
    refine ⟨tpc.trans hpc, tb, tw.trans hwj, th.trans hhj, ?_, ?_, ta.trans ha⟩
    · rw [BlockOp.iterations_of_countedDown td (by omega), hit]
      omega
    · rw [tl, hl, Function.iterate_succ_apply']

theorem readByte_fetched (a : UInt16) (x : Machine β) :
    (readByte a : Exec β UInt8) x.fetched =
      mapState (fun y => { y with cpu := x.fetched.cpu }) (readByte a x) := by
  -- fetching moves PC and R, which a data read does not look at
  have hs : x.fetched.cpu.fastSlot a = x.cpu.fastSlot a := by
    simp [Machine.fetched, Cpu.fastSlot]
  have hf : fastByte x.fetched.cpu = fastByte x.cpu := by
    funext id off
    simp [Machine.fetched, fastByte]
  have hbus : x.fetched.bus = x.bus := rfl
  simp only [readByte, hs, hf, hbus]
  split
  · rfl
  · cases Bus.read x.bus a with
    | mk v bus => cases v <;> rfl

/-- CPI and CPD read one byte, the one at HL, and set Z exactly when it is A. -/
theorem blockOnce_compare (up : Bool) (hP : Bus.Reliable P) (hb : P x.bus) :
    ∃ v, x.dataByte x.cpu.regs.hl = .ok v ∧
      ((x.blockOnce .compare up).cpu.regs.f &&& Flag.z = 0 ↔ v ≠ x.cpu.regs.a) := by
  obtain ⟨v, y, hr⟩ : ∃ v y, (readByte x.cpu.regs.hl : Exec β UInt8) x = .ok v y := by
    simp only [readByte]
    split
    · exact ⟨_, _, rfl⟩
    · cases hx : Bus.read x.bus x.cpu.regs.hl with
      | mk v bus =>
        have ha := hP.answers x.bus x.cpu.regs.hl hb
        rw [hx] at ha
        cases v with
        | none => exact absurd ha (by simp)
        | some v => exact ⟨v, _, rfl⟩
  have hr' := readByte_fetched x.cpu.regs.hl x
  rw [hr, mapState_ok] at hr'
  obtain ⟨ha, hl, -, -⟩ := fetched_regs_block x
  refine ⟨v, by simp [Machine.dataByte, hr, answer], ?_⟩
  simp only [Machine.blockOnce, Instr.exec, Exec.block, blockCompare, bind_apply, elim_regs, hl,
    hr', elim_ok, elim_modifyRegs, Bool.false_eq_true, if_false, pure_apply, after]
  rw [Alu.blockCompareFlags_z_eq_zero, ha]

section Run

variable (hP : Bus.Reliable P) {m : Machine β} (hb : P m.bus) (hw : m.cpu.wakePending = false)
  (hh : m.cpu.regs.halted = false)
  (hcode : ∀ j < f.iterations m.cpu.regs,
    (m.blockTurns f up j).cpu.fetch.fetch m.cpu.regs.pc = 0xED ∧
    (m.blockTurns f up j).cpu.fetch.fetch (m.cpu.regs.pc + 1) = f.opcode up true)
include hP hb hw hh hcode

theorem blockTurns_opcodes {j : Nat} (hj : j < f.iterations m.cpu.regs) :
    (m.blockTurns f up j).cpu.opcodes 0 = 0xED ∧
      (m.blockTurns f up j).cpu.opcodes 1 = f.opcode up true := by
  obtain ⟨c0, c1⟩ := hcode j hj
  exact opcodes_of_pc (blockTurns_invariant hP hb hw hh hcode j hj).1 c0 c1

/-- Turn `j` goes round exactly when the counter lasts past it and, for CPIR and CPDR, the byte
it compares is not A. -/
theorem goesRound_turn {j : Nat} (hj : j < f.iterations m.cpu.regs) :
    f.goesRound ((m.blockTurns f up j).blockOnce f up).cpu.regs = true ↔
      j + 1 < f.iterations m.cpu.regs ∧ (f = .compare →
        (m.blockTurns f up j).dataByte ((stepBy up)^[j] m.cpu.regs.hl) ≠ .ok m.cpu.regs.a) := by
  obtain ⟨-, hbj, -, -, hit, hl, ha⟩ := blockTurns_invariant hP hb hw hh hcode j hj
  obtain ⟨h0, h1⟩ := blockTurns_opcodes hP hb hw hh hcode hj
  obtain ⟨-, -, -, -, -, -, hd⟩ := blockOnce_spec hP hbj h0 h1
  rw [BlockOp.goesRound_of_countedDown hd, hit]
  cases f
  case compare =>
    obtain ⟨v, hv, hz⟩ := blockOnce_compare up hP hbj
    rw [hl] at hv
    rw [ha] at hz
    simp [hv, hz]
    omega
  all_goals simp; omega

/-- Once it is known at which turn the instruction stops, its steps follow: turns that go round
cost 21 and leave PC on the instruction, and the last costs 16, 18 for CPIR and CPDR, and leaves
PC past it. -/
theorem blockTurns_steps {k : Nat} (hk : 1 ≤ k) (hkn : k ≤ f.iterations m.cpu.regs)
    (hr : ∀ j < k,
      f.goesRound ((m.blockTurns f up j).blockOnce f up).cpu.regs = decide (j + 1 < k)) :
    (∀ j, j + 1 < k →
      (executeOne : Exec β StepResult) (m.blockTurns f up j) =
        .ok ⟨.instruction, 21⟩ (m.blockTurns f up (j + 1))) ∧
    (executeOne : Exec β StepResult) (m.blockTurns f up (k - 1)) =
      .ok ⟨.instruction, if f = .compare then 18 else 16⟩
        (((m.blockTurns f up (k - 1)).blockOnce f up).counted (if f = .compare then 18 else 16)) ∧
    (∀ j < k, (m.blockTurns f up j).cpu.regs.pc = m.cpu.regs.pc) ∧
    ((m.blockTurns f up (k - 1)).blockOnce f up).cpu.regs.pc = m.cpu.regs.pc + 2 := by
  -- the step at turn `j`, read off `executeOne_turn`
  have step : ∀ j < k, (executeOne : Exec β StepResult) (m.blockTurns f up j) =
      if decide (j + 1 < k) then .ok ⟨.instruction, 21⟩ (m.blockTurns f up (j + 1))
      else .ok ⟨.instruction, 16 + f.exitExtra⟩
        (((m.blockTurns f up j).blockOnce f up).counted (16 + f.exitExtra)) := by
    intro j hj
    obtain ⟨-, hbj, hwj, hhj, -⟩ := blockTurns_invariant hP hb hw hh hcode j (by omega)
    obtain ⟨h0, h1⟩ := blockTurns_opcodes hP hb hw hh hcode (j := j) (by omega)
    rw [executeOne_turn hP hbj hwj hhj h0 h1, hr j hj, blockTurns_succ]
  have hexit : 16 + f.exitExtra = if f = .compare then 18 else 16 := by
    cases f <;> rfl
  refine ⟨fun j hj => ?_, ?_, fun j hj => (blockTurns_invariant hP hb hw hh hcode j (by omega)).1,
    ?_⟩
  · rw [step j (by omega)]
    simp [hj]
  · have hlast : ¬(k - 1 + 1 < k) := by omega
    rw [step (k - 1) (by omega), ← hexit]
    simp [hlast]
  · obtain ⟨hpc, hbj, -⟩ := blockTurns_invariant hP hb hw hh hcode (k - 1) (by omega)
    obtain ⟨h0, h1⟩ := blockTurns_opcodes hP hb hw hh hcode (j := k - 1) (by omega)
    rw [(blockOnce_spec hP hbj h0 h1).2.2.2.1, hpc]

theorem goesRound_of_ne_compare (hf : f ≠ .compare) :
    ∀ j < f.iterations m.cpu.regs, f.goesRound ((m.blockTurns f up j).blockOnce f up).cpu.regs =
      decide (j + 1 < f.iterations m.cpu.regs) := by
  intro j hj
  have hg := goesRound_turn hP hb hw hh hcode hj
  simp only [hf, false_imp_iff, and_true] at hg
  rw [Bool.eq_iff_iff, hg, decide_eq_true_iff]

/-- CPxR goes round up to turn `k` and stops there, when the turns before `k` miss A and turn `k`
is the last the counter allows or finds A. -/
theorem goesRound_of_found (hf : f = .compare) {k : Nat} (hkn : k + 1 ≤ f.iterations m.cpu.regs)
    (hmiss : ∀ i < k,
      (m.blockTurns f up i).dataByte ((stepBy up)^[i] m.cpu.regs.hl) ≠ .ok m.cpu.regs.a)
    (hstop : k + 1 = f.iterations m.cpu.regs ∨
      (m.blockTurns f up k).dataByte ((stepBy up)^[k] m.cpu.regs.hl) = .ok m.cpu.regs.a) :
    ∀ j < k + 1, f.goesRound ((m.blockTurns f up j).blockOnce f up).cpu.regs =
      decide (j + 1 < k + 1) := by
  intro j hj
  rw [Bool.eq_iff_iff, goesRound_turn hP hb hw hh hcode (by omega), decide_eq_true_iff]
  rcases Nat.lt_or_ge j k with hjk | hjk
  · exact ⟨fun _ => by omega, fun _ => ⟨by omega, fun _ => hmiss j hjk⟩⟩
  · have hj : j = k := by omega
    subst hj
    refine ⟨fun ⟨hlt, hne⟩ => ?_, fun h => by omega⟩
    rcases hstop with hend | hmatch
    · omega
    · exact absurd hmatch (hne hf)

end Run

end Exec

open Exec in
/-- Repeating block instructions run the right number of turns, and each turn is the single
form. From a machine at a repeating block instruction whose bytes its own writes leave alone,
with no request that could be taken and a bus that answers, the instruction takes `k` steps: `n`
of them for LDxR, INxR and OTxR (`n` the counter, BC or B, zero meaning a full turn of it), and
for CPxR the first turn whose byte is A, or `n`. Each of the first `k - 1` steps is a turn
(`Machine.blockTurn`: the single form with PC put back on the instruction and WZ one past it)
costing 21 cycles; the last is the single form, costing 16 or for CPxR 18, and leaves PC past the
instruction. -/
theorem repeating_block_turns {β : Type} [Bus β] {P : β → Prop} (hP : Bus.Reliable P)
    (f : BlockOp) (up : Bool) (m : Machine β) (hb : P m.bus) (hw : m.cpu.wakePending = false)
    (hh : m.cpu.regs.halted = false)
    (hcode : ∀ j < f.iterations m.cpu.regs,
      (m.blockTurns f up j).cpu.fetch.fetch m.cpu.regs.pc = 0xED ∧
      (m.blockTurns f up j).cpu.fetch.fetch (m.cpu.regs.pc + 1) = f.opcode up true) :
    ∃ k, 1 ≤ k ∧ k ≤ f.iterations m.cpu.regs ∧
      (f ≠ .compare → k = f.iterations m.cpu.regs) ∧
      (f = .compare →
        (∀ i, i + 1 < k →
          (m.blockTurns f up i).dataByte ((stepBy up)^[i] m.cpu.regs.hl) ≠ .ok m.cpu.regs.a) ∧
        (k = f.iterations m.cpu.regs ∨
          (m.blockTurns f up (k - 1)).dataByte ((stepBy up)^[k - 1] m.cpu.regs.hl) =
            .ok m.cpu.regs.a)) ∧
      (∀ j, j + 1 < k →
        (executeOne : Exec β StepResult) (m.blockTurns f up j) =
          .ok ⟨.instruction, 21⟩ (m.blockTurns f up (j + 1))) ∧
      (executeOne : Exec β StepResult) (m.blockTurns f up (k - 1)) =
        .ok ⟨.instruction, if f = .compare then 18 else 16⟩
          (((m.blockTurns f up (k - 1)).blockOnce f up).counted
            (if f = .compare then 18 else 16)) ∧
      (∀ j < k, (m.blockTurns f up j).cpu.regs.pc = m.cpu.regs.pc) ∧
      ((m.blockTurns f up (k - 1)).blockOnce f up).cpu.regs.pc = m.cpu.regs.pc + 2 := by
  classical
  have hn := f.one_le_iterations m.cpu.regs
  by_cases hf : f = .compare
  case neg =>
    -- LD, IN and OUT stop only when the counter runs out
    obtain ⟨s1, s2, s3, s4⟩ := blockTurns_steps hP hb hw hh hcode hn le_rfl
      (goesRound_of_ne_compare hP hb hw hh hcode hf)
    exact ⟨_, hn, le_rfl, fun _ => rfl, fun h => absurd h hf, s1, s2, s3, s4⟩
  case pos =>
    -- CPxR stops at the first turn that finds A, or at the last the counter allows
    have hex : ∃ i, i + 1 = f.iterations m.cpu.regs ∨
        (m.blockTurns f up i).dataByte ((stepBy up)^[i] m.cpu.regs.hl) = .ok m.cpu.regs.a :=
      ⟨_, Or.inl (Nat.sub_add_cancel hn)⟩
    have hle : Nat.find hex + 1 ≤ f.iterations m.cpu.regs := by
      have := Nat.find_min' hex (Or.inl (Nat.sub_add_cancel hn))
      omega
    have hmiss : ∀ i < Nat.find hex,
        (m.blockTurns f up i).dataByte ((stepBy up)^[i] m.cpu.regs.hl) ≠ .ok m.cpu.regs.a :=
      fun i hi => (not_or.mp (Nat.find_min hex hi)).2
    obtain ⟨s1, s2, s3, s4⟩ := blockTurns_steps hP hb hw hh hcode (by omega) hle
      (goesRound_of_found hP hb hw hh hcode hf hle hmiss (Nat.find_spec hex))
    refine ⟨Nat.find hex + 1, by omega, hle, fun h => absurd hf h, fun _ => ⟨?_, ?_⟩,
      s1, s2, s3, s4⟩
    · exact fun i hi => hmiss i (by omega)
    · simpa using Nat.find_spec hex

/-- CPIR from address 0 with BC = 3, HL = 0 and A = 0, over zeroed memory. -/
def Machine.cpirDemo : Machine SimpleBus :=
  (Machine.loaded [0xED, 0xB1]).mapRegs fun rs => rs.setBC 3

/-- CPIR from address 0 with BC = 2, HL = 0 and A = FF, over zeroed memory: no byte is A. -/
def Machine.cpirMiss : Machine SimpleBus :=
  (Machine.loaded [0xED, 0xB1]).mapRegs fun rs => { rs.setBC 2 with a := 0xFF }

open Exec in
/-- CPIR that finds A at its first byte takes one step of 18 cycles, which leaves PC past the
instruction. CPIR that finds no A in two bytes goes round once, a 21-cycle step that leaves PC on
the instruction, and then stops on the counter with a step of 18 cycles past it. -/
theorem repeating_block_turns_cpir :
    ((executeOne : Exec SimpleBus StepResult) Machine.cpirDemo =
        .ok ⟨.instruction, 18⟩ ((Machine.cpirDemo.blockOnce .compare true).counted 18) ∧
      (Machine.cpirDemo.blockOnce .compare true).cpu.regs.pc = 2) ∧
    ((executeOne : Exec SimpleBus StepResult) Machine.cpirMiss =
        .ok ⟨.instruction, 21⟩ (Machine.cpirMiss.blockTurns .compare true 1) ∧
      (Machine.cpirMiss.blockTurns .compare true 1).cpu.regs.pc = 0 ∧
      (executeOne : Exec SimpleBus StepResult) (Machine.cpirMiss.blockTurns .compare true 1) =
        .ok ⟨.instruction, 18⟩
          (((Machine.cpirMiss.blockTurns .compare true 1).blockOnce .compare true).counted 18) ∧
      ((Machine.cpirMiss.blockTurns .compare true 1).blockOnce .compare true).cpu.regs.pc = 2) := by
  constructor
  · obtain ⟨k, hk, -, -, hcp, -, hlast, -, hpc⟩ :=
      repeating_block_turns SimpleBus.reliable .compare true Machine.cpirDemo trivial (by decide) rfl
        (by decide)
    -- the first byte compared is A, so the first step is the last
    have hfound : (Machine.cpirDemo.blockTurns .compare true 0).dataByte
        ((stepBy true)^[0] Machine.cpirDemo.cpu.regs.hl) = .ok Machine.cpirDemo.cpu.regs.a := by
      decide +kernel
    have hk1 : k = 1 := by
      by_contra hne
      exact (hcp rfl).1 0 (by omega) hfound
    subst hk1
    exact ⟨hlast, hpc⟩
  · obtain ⟨k, hk, hkn, -, hcp, hturn, hlast, hpcs, hpc⟩ :=
      repeating_block_turns SimpleBus.reliable .compare true Machine.cpirMiss trivial (by decide) rfl
        (by decide)
    have hn : BlockOp.compare.iterations Machine.cpirMiss.cpu.regs = 2 := by decide
    -- the first byte compared is not A, so the counter ends the instruction after two steps
    have hmiss : (Machine.cpirMiss.blockTurns .compare true 0).dataByte
        ((stepBy true)^[0] Machine.cpirMiss.cpu.regs.hl) ≠ .ok Machine.cpirMiss.cpu.regs.a := by
      decide +kernel
    have hk2 : k = 2 := by
      rcases (hcp rfl).2 with hend | hfound
      · omega
      · by_contra hne
        have hk1 : k - 1 = 0 := by omega
        rw [hk1] at hfound
        exact hmiss hfound
    subst hk2
    exact ⟨hturn 0 (by omega), hpcs 1 (by omega), hlast, hpc⟩

end Z80
