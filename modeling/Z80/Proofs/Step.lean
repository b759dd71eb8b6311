import Z80.Proofs.Control
import Z80.Proofs.Cost

/-!
# One step, seen from its control state

A step first samples the interrupt requests. `Control.taken` says which request it
takes: an NMI whatever the flip-flops say, otherwise INT when IFF1 is set and the EI
shadow is clear. `Control.sample` is what the sampling does to the control state: a
taken request is consumed, HALT is left and the flip-flops are cleared (only IFF1 for
an NMI), and the EI shadow is consumed either way. Without an acknowledgment the step
is a halted idle or the instruction at PC, and `Control.step` adds that instruction's
effect (`Instr.control`). The step's cycles are then counted (`Control.count`).

`executeOne_spec` proves that every step does exactly this to the control state, and
that it costs at least four cycles; `executeOne_cost` bounds it by 25, the dearest
instruction with its extra or an IM 2 acknowledgment's 19. An aborted step (a refused read in an instruction
or in the IM 2 vector fetch) leaves the control state as the sampling left it.
-/

open Std.Do

set_option mvcgen.warning false

namespace Z80

/-- The address an acknowledgment pushes: PC, or the address after the HALT opcode when
the CPU is halted. -/
def Registers.returnAddress (rs : Registers) : UInt16 :=
  if rs.halted then rs.pc + 1 else rs.pc

/-! ## The control state at a boundary -/

namespace Control

/-- The request taken at a boundary, if any. -/
def taken (c : Control) : Option StepKind :=
  if c.lines.nmi then some .nmi
  else if c.lines.int && c.iff1 && !c.eiShadow then some .interrupt
  else none

/-- The cost of acknowledging the request taken. -/
def ackCycles (c : Control) : Nat :=
  if c.lines.nmi then Timing.nmi
  else match InterruptMode.ofUInt8 c.im with
    | .im0 => Timing.intIm0
    | .im1 => Timing.intIm1
    | .im2 => Timing.intIm2

/-- What sampling the requests at a boundary does to the control state. -/
def sample (c : Control) : Control :=
  match c.taken with
  | some .nmi =>
    { c with lines := { c.lines with nmi := false }, iff1 := false, halted := false,
             eiShadow := false }
  | some _ =>
    { c with lines := { c.lines with int := false }, iff1 := false, iff2 := false,
             halted := false, eiShadow := false }
  | none => { c with eiShadow := false }

/-- The kind of the step taken from control state `c`. -/
def stepKind (c : Control) : StepKind :=
  c.taken.getD (if c.halted then .halted else .instruction)

/-- The control state after a step from `c` whose instruction at PC is `i`, before its
cycles are counted. -/
def step (c : Control) (i : Instr) : Control :=
  if c.stepKind = .instruction then i.control c.sample else c.sample

/-- Counts cycles on the odometer and the refresh clock. -/
def count (c : Control) (n : Nat) : Control :=
  { c with odometer := c.odometer.advance n, refreshClock := c.refreshClock + n }

/-- An acknowledgment is of an NMI or of an INT. -/
theorem taken_eq_some {c : Control} {k : StepKind} (h : c.taken = some k) :
    k = .nmi ∨ k = .interrupt := by
  unfold taken at h
  grind

theorem four_le_ackCycles (c : Control) : 4 ≤ c.ackCycles := by
  unfold ackCycles
  split
  · decide
  · split <;> decide

theorem ackCycles_le (c : Control) : c.ackCycles ≤ Timing.intIm2 := by
  unfold ackCycles
  split
  · decide
  · split <;> decide

theorem stepKind_of_taken_none {c : Control} (h : c.taken = none) :
    c.stepKind = if c.halted then .halted else .instruction := by
  simp [stepKind, h]

/-- An acknowledging step executes no instruction. -/
theorem step_of_taken {c : Control} {k : StepKind} (h : c.taken = some k) (i : Instr) :
    c.step i = c.sample := by
  rcases taken_eq_some h with rfl | rfl <;> simp [step, stepKind, h]

end Control

namespace Exec

variable {β : Type} [Bus β]

/-! ## Sampling the requests -/

/-- An acknowledgment leaves HALT, counts its opcode fetch in R and pushes the return
address. -/
theorem acknowledge_apply (m : Machine β) :
    (acknowledge : Exec β Unit) m =
      .ok () (Machine.push { m with cpu := { m.cpu with regs := { m.cpu.regs with
        halted := false, pc := m.cpu.regs.returnAddress, r := m.cpu.fetchedR 1 } } }
        m.cpu.regs.returnAddress) := by
  -- leaving HALT moves PC before R is counted; R does not depend on PC
  cases hh : m.cpu.regs.halted <;>
    simp [acknowledge, bind, EStateM.bind, modifyCpu, regs, push_apply, Registers.returnAddress,
      Cpu.fetchedR, Registers.advanceR, hh]

@[spec] theorem acknowledge_spec {Q : Post Unit β} :
    ⦃fun m =>
      let ret := m.cpu.regs.returnAddress
      let regs := { m.cpu.regs with halted := false, pc := ret, r := m.cpu.fetchedR 1 }
      Q.1 () (Machine.push { m with cpu := { m.cpu with regs } } ret)⦄
      (acknowledge : Exec β Unit) ⦃Q⦄ := by
  simp only [Triple.iff]
  intro m h
  rw [wp_apply, acknowledge_apply]
  exact h

/-- Sampling takes the request `Control.taken` names, at the cost `Control.ackCycles`,
and changes the control state as `Control.sample` says; without an acknowledgment it
only consumes the EI shadow. Only the IM 2 vector fetch can abort it, on a refused
read. -/
theorem serviceInterrupts_spec (m₀ : Machine β) :
    ⦃fun m : Machine β => ⌜m = m₀⌝⦄ (serviceInterrupts : Exec β (Option StepResult))
    ⦃post⟨fun r m => ⌜r = m₀.control.taken.map (⟨·, m₀.control.ackCycles⟩) ∧
        m.control = m₀.control.sample ∧
        (r = none → m = { m₀ with cpu := { m₀.cpu with eiShadow := false } })⌝,
      fun e m => ⌜m₀.control.taken = some .interrupt ∧ m.control = m₀.control.sample ∧
        ∃ a, e = .busFault a⌝⟩⦄ := by
  mvcgen -trivial [serviceInterrupts, readWord, readByte_eq]
  all_goals
    subst_vars
    simp_all +zetaDelta [Machine.control, Control.sample, Control.taken, Control.ackCycles]
  -- what is left is the case split on the INT condition
  all_goals grind

/-- Without a request to take, sampling only consumes the EI shadow. -/
theorem serviceInterrupts_of_taken_none {m : Machine β} (h : m.control.taken = none) :
    (serviceInterrupts : Exec β (Option StepResult)) m =
      .ok none { m with cpu := { m.cpu with eiShadow := false } } := by
  cases hs : (serviceInterrupts : Exec β (Option StepResult)) m with
  | ok r m' =>
    obtain ⟨hr, -, hm⟩ := ok_of_triple (serviceInterrupts_spec m) rfl hs
    have hr' : r = none := by rw [hr, h]; rfl
    rw [hr', hm hr']
  | error e m' =>
    obtain ⟨hk, -⟩ := error_of_triple (serviceInterrupts_spec m) rfl hs
    rw [h] at hk
    cases hk

/-! ## The whole step -/

/-- A step takes the kind `Control.stepKind` names, costs at least four cycles and
changes the control state as `Control.step` says, its cycles counted. It aborts only on
a refused bus read, leaving the control state as the sampling left it. -/
theorem executeOne_spec (m₀ : Machine β) :
    ⦃fun m : Machine β => ⌜m = m₀⌝⦄ (executeOne : Exec β StepResult)
    ⦃post⟨fun s m => ⌜s.kind = m₀.control.stepKind ∧ 4 ≤ s.cycles ∧
        m.control = (m₀.control.step m₀.cpu.nextInstr.instr).count s.cycles⌝,
      fun e m => ⌜m.control = m₀.control.sample ∧ ∃ a, e = .busFault a⌝⟩⦄ := by
  mvcgen -trivial [executeOne, account, serviceInterrupts_spec, exec_control]
  -- an acknowledgment
  · rename_i m hm _ _ ack _ s h
    subst hm
    obtain ⟨hr, hc, -⟩ := h
    obtain ⟨k, hk, rfl⟩ := Option.map_eq_some_iff.mp hr.symm
    refine ⟨by simp [Control.stepKind, hk], Control.four_le_ackCycles _, ?_⟩
    rw [Control.step_of_taken hk, ← hc]
    rfl
  -- a halted idle
  · rename_i m hm _ _ _ s hh h
    subst hm
    obtain ⟨hr, hc, hs⟩ := h
    have hn : m.control.taken = none := Option.map_eq_none_iff.mp hr.symm
    have hk : m.control.stepKind = .halted := by
      rw [Control.stepKind_of_taken_none hn]
      simp [hs] at hh
      simp [Machine.control, hh]
    refine ⟨hk.symm, by decide, ?_⟩
    rw [Control.step, hk, if_neg (by decide), ← hc]
    simp [Machine.control, Control.count]
  -- an instruction
  · rename_i m hm _ _ _ s hh _ _ n s' hx h
    subst hm
    obtain ⟨hr, hc, hs⟩ := h
    have hn : m.control.taken = none := Option.map_eq_none_iff.mp hr.symm
    have hk : m.control.stepKind = .instruction := by
      rw [Control.stepKind_of_taken_none hn]
      simp [hs] at hh
      simp [Machine.control, hh]
    refine ⟨hk.symm, Nat.le_add_right_of_le (four_le_decode_cycles _), ?_⟩
    rw [Control.step, if_pos hk, ← hc]
    subst hs
    change s'.control.count _ = _
    rw [hx]
    simp +zetaDelta [Machine.control, Cpu.nextInstr]
  -- an instruction that aborts
  · rename_i m hm _ _ _ s _ _ _ _ s' h
    subst hm
    obtain ⟨-, hc, hs⟩ := h
    intro hx
    rw [hx, ← hc]
    simp +zetaDelta [Machine.control]
  -- an acknowledgment that aborts
  · intro _ h hb
    subst_vars
    exact ⟨h, hb⟩

theorem executeOne_ok {m m' : Machine β} {s : StepResult}
    (h : (executeOne : Exec β StepResult) m = .ok s m') :
    s.kind = m.control.stepKind ∧ 4 ≤ s.cycles ∧
      m'.control = (m.control.step m.cpu.nextInstr.instr).count s.cycles :=
  ok_of_triple (executeOne_spec m) rfl h

theorem executeOne_error {m m' : Machine β} {e : Abort}
    (h : (executeOne : Exec β StepResult) m = .error e m') :
    m'.control = m.control.sample ∧ ∃ a, e = .busFault a :=
  error_of_triple (executeOne_spec m) rfl h

/-- A step costs at most 25 cycles: an acknowledgment at most an IM 2 acknowledgment's 19,
a halted idle 4, and an instruction its table cost and extra, which `decode_cost` bounds. -/
theorem executeOne_cost (m₀ : Machine β) :
    ⦃fun m : Machine β => ⌜m = m₀⌝⦄ (executeOne : Exec β StepResult)
    ⦃post⟨fun s _ => ⌜s.cycles ≤ 25⌝, fun _ _ => ⌜True⌝⟩⦄ := by
  mvcgen -trivial [executeOne, account, serviceInterrupts_spec, exec_extra]
  -- an acknowledgment
  · rename_i m _ _ _ ack _ _ h
    obtain ⟨k, -, rfl⟩ := Option.map_eq_some_iff.mp h.1.symm
    have hack := Control.ackCycles_le m.control
    simp only [Timing.intIm2] at hack
    exact Nat.le_trans hack (by decide)
  -- a halted idle
  · decide
  -- an instruction: its table cost and at most its extra
  · rename_i x _ _ _ n _ hn _
    have hd := decode_cost fun k => x.cpu.fetch.fetch (x.cpu.regs.pc + k.toUInt16)
    exact Nat.le_trans (Nat.add_le_add_left hn _) hd

/-- Every step costs at least four cycles and at most 25. -/
theorem executeOne_cycles {m m' : Machine β} {s : StepResult}
    (h : (executeOne : Exec β StepResult) m = .ok s m') : 4 ≤ s.cycles ∧ s.cycles ≤ 25 :=
  ⟨(executeOne_ok h).2.1, ok_of_triple (executeOne_cost m) rfl h⟩

/-- On a bus that answers every read, a step never aborts. -/
theorem executeOne_reliable {P : β → Prop} (hP : Bus.Reliable P) :
    ⦃fun m : Machine β => ⌜P m.bus⌝⦄ (executeOne : Exec β StepResult)
    ⦃post⟨fun _ m => ⌜P m.bus⌝, fun _ _ => ⌜False⌝⟩⦄ := by
  have hx := exec_reliable hP
  mvcgen -trivial [executeOne, account, serviceInterrupts, readWord, readByte_eq, hx]
  all_goals grind [hP.read, hP.push_machine, hP.read_ne_none]

end Exec

end Z80
