import Z80.Proofs.FlipFlops

/-!
# Interrupt acceptance

A step samples the latched requests first (`serviceInterrupts`). An NMI is acknowledged
whatever the flip-flops and the EI shadow say; otherwise an INT is acknowledged when
IFF1 is set and the EI shadow is clear; otherwise nothing is, and both lines stay
latched. An acknowledgment consumes its line, leaves HALT, counts its opcode fetch in R,
pushes the return address and writes the flip-flops (`Machine.acknowledging`), then
jumps (`Machine.jumped`): to 0066 for an NMI, and for an INT to the restart in bits 5-3
of the vector in mode 0, to 0038 in mode 1, and in mode 2 to the word read through the
data path at I:vector. `executeOne_nmi`, `executeOne_im0`, `executeOne_im1` and
`executeOne_im2` give the machine each step leaves, its cycles counted
(`Machine.counted`).

The EI shadow is how the CPU remembers that the previous step executed EI. A step
leaves it set exactly when it executed EI (`executeOne_eiShadow`), the calls a host makes
between steps keep it, and a save-state load or a reset clears it. `Boundary m e`
follows a session one step at a time with a ghost flag `e`, whether the last step since
the CPU was created, restored or reset executed EI; the shadow is that flag
(`Boundary.eiShadow`), and a run, which splits into single steps, stays inside the
relation (`Boundary.run`).
-/

namespace Z80

/-! ## The machine an acknowledgment leaves -/

/-- The machine after a step's cycles are counted on the odometer and the refresh clock. -/
def Machine.counted {β : Type} (m : Machine β) (n : Nat) : Machine β :=
  { m with cpu := { m.cpu with odometer := m.cpu.odometer.advance n,
                                refreshClock := m.cpu.refreshClock + n } }

/-- The common part of an acknowledgment from `m`: the EI shadow consumed, the latched
lines set to `lines`, HALT left, the opcode fetch counted in R, the return address pushed
and the flip-flops written by `w`. -/
def Machine.acknowledging {β : Type} [Bus β] (m : Machine β) (lines : Lines) (w : IffWrite) :
    Machine β :=
  let ret := m.cpu.regs.returnAddress
  let iffs := w.apply (m.cpu.regs.iff1, m.cpu.regs.iff2)
  let regs := { m.cpu.regs with lines, halted := false, pc := ret, r := m.cpu.fetchedR 1 }
  let m₁ := Machine.push { m with cpu := { m.cpu with eiShadow := false, regs } } ret
  { m₁ with cpu := { m₁.cpu with regs := { m₁.cpu.regs with iff1 := iffs.1, iff2 := iffs.2 } } }

/-- The jump to a handler: PC and WZ set to `target`. -/
def Machine.jumped {β : Type} (m : Machine β) (target : UInt16) : Machine β :=
  { m with cpu := { m.cpu with regs := { m.cpu.regs with pc := target, wz := target } } }

/-- A mode byte is 0, 1, or 2 and above. -/
theorem InterruptMode.byte_cases (n : UInt8) : n = 0 ∨ n = 1 ∨ 2 ≤ n := by
  by_cases h0 : n = 0
  · exact .inl h0
  by_cases h1 : n = 1
  · exact .inr (.inl h1)
  have h0' : n.toNat ≠ 0 := fun h => h0 (UInt8.toNat_inj.mp h)
  have h1' : n.toNat ≠ 1 := fun h => h1 (UInt8.toNat_inj.mp h)
  have h2 : (2 : UInt8).toNat = 2 := rfl
  exact .inr (.inr (UInt8.le_iff_toNat_le.mpr (by omega)))

/-- A mode byte of 2 or more acknowledges as mode 2. -/
theorem InterruptMode.ofUInt8_of_two_le {n : UInt8} (h : 2 ≤ n) : InterruptMode.ofUInt8 n = .im2 := by
  unfold InterruptMode.ofUInt8
  split_ifs with h0 h1
  · exact absurd (h0 ▸ h) (by decide)
  · exact absurd (h1 ▸ h) (by decide)
  · rfl

namespace Exec

variable {β : Type} [Bus β]

/-- An NMI is acknowledged whatever the flip-flops and the EI shadow say. -/
theorem serviceInterrupts_nmi {m : Machine β} (h : m.cpu.regs.lines.nmi = true) :
    (serviceInterrupts : Exec β (Option StepResult)) m =
      .ok (some ⟨.nmi, Timing.nmi⟩)
        ((m.acknowledging { m.cpu.regs.lines with nmi := false } .clearFirst).jumped 0x66) := by
  simp only [serviceInterrupts, bind_apply, elim_cpu, elim_modifyCpu, elim_regs]
  simp only [h, if_true, bind_apply, acknowledge_apply, elim_ok, elim_modifyRegs, pure_apply]
  simp [Machine.acknowledging, Machine.jumped, IffWrite.apply, Registers.returnAddress,
    Cpu.fetchedR, Registers.advanceR]

/-- An INT is acknowledged when IFF1 is set and the shadow clear, and no NMI waits. -/
theorem serviceInterrupts_int {m : Machine β} (hn : m.cpu.regs.lines.nmi = false)
    (hi : m.cpu.regs.lines.int = true) (h1 : m.cpu.regs.iff1 = true)
    (he : m.cpu.eiShadow = false) :
    (serviceInterrupts : Exec β (Option StepResult)) m =
      match InterruptMode.ofUInt8 m.cpu.regs.im with
      | .im0 => .ok (some ⟨.interrupt, Timing.intIm0⟩)
          ((m.acknowledging { m.cpu.regs.lines with int := false } .clearBoth).jumped
            (m.cpu.regs.intVector &&& 0x38).toUInt16)
      | .im1 => .ok (some ⟨.interrupt, Timing.intIm1⟩)
          ((m.acknowledging { m.cpu.regs.lines with int := false } .clearBoth).jumped 0x38)
      | .im2 =>
        elim ((readWord (word m.cpu.regs.i m.cpu.regs.intVector) : Exec β UInt16)
            (m.acknowledging { m.cpu.regs.lines with int := false } .clearBoth))
          (fun t a => .ok (some ⟨.interrupt, Timing.intIm2⟩) (a.jumped t)) (fun e a => .error e a) := by
  simp only [serviceInterrupts, bind_apply, elim_cpu, elim_modifyCpu, elim_regs]
  simp only [hn, hi, h1, he, Bool.false_eq_true, if_false, Bool.not_true, Bool.or_false,
    bind_apply, acknowledge_apply, elim_ok, elim_modifyRegs]
  cases InterruptMode.ofUInt8 m.cpu.regs.im <;>
    simp only [bind_apply, pure_apply, elim_ok, elim_modifyRegs]
  case im2 =>
    -- the vector is read from the machine the acknowledgment left
    congr 2
    simp [Machine.acknowledging, IffWrite.apply, Registers.returnAddress, Cpu.fetchedR,
      Registers.advanceR, h1]
  all_goals simp [Machine.acknowledging, Machine.jumped, IffWrite.apply, Registers.returnAddress,
    Cpu.fetchedR, Registers.advanceR, h1]

/-- A step that acknowledges a request executes nothing else; it counts the
acknowledgment's cycles. -/
theorem executeOne_of_ack {m x : Machine β} {ack : StepResult}
    (h : (serviceInterrupts : Exec β (Option StepResult)) m = .ok (some ack) x) :
    (executeOne : Exec β StepResult) m = .ok ack (x.counted ack.cycles) := by
  simp only [executeOne, bind_apply, h, elim_ok, pure_apply, account, elim_modifyCpu]
  rfl

theorem executeOne_of_ack_error {m x : Machine β} {e : Abort}
    (h : (serviceInterrupts : Exec β (Option StepResult)) m = .error e x) :
    (executeOne : Exec β StepResult) m = .error e x := by
  simp only [executeOne, bind_apply, h, elim_error]

/-! ## Each kind of acknowledgment -/

theorem executeOne_nmi {m : Machine β} (h : m.cpu.regs.lines.nmi = true) :
    (executeOne : Exec β StepResult) m = .ok ⟨.nmi, Timing.nmi⟩
      (((m.acknowledging { m.cpu.regs.lines with nmi := false } .clearFirst).jumped 0x66).counted
        Timing.nmi) :=
  executeOne_of_ack (serviceInterrupts_nmi h)

section Int

variable {m : Machine β} (hn : m.cpu.regs.lines.nmi = false) (hi : m.cpu.regs.lines.int = true)
  (h1 : m.cpu.regs.iff1 = true) (he : m.cpu.eiShadow = false)
include hn hi h1 he

theorem executeOne_im0 (him : m.cpu.regs.im = 0) :
    (executeOne : Exec β StepResult) m = .ok ⟨.interrupt, Timing.intIm0⟩
      (((m.acknowledging { m.cpu.regs.lines with int := false } .clearBoth).jumped
        (m.cpu.regs.intVector &&& 0x38).toUInt16).counted Timing.intIm0) := by
  have hs := serviceInterrupts_int hn hi h1 he
  rw [him] at hs
  exact executeOne_of_ack hs

theorem executeOne_im1 (him : m.cpu.regs.im = 1) :
    (executeOne : Exec β StepResult) m = .ok ⟨.interrupt, Timing.intIm1⟩
      (((m.acknowledging { m.cpu.regs.lines with int := false } .clearBoth).jumped 0x38).counted
        Timing.intIm1) := by
  have hs := serviceInterrupts_int hn hi h1 he
  rw [him] at hs
  exact executeOne_of_ack hs

/-- In mode 2 the step ends as the vector read does: at the word read, or stopped by a
refused read. -/
theorem executeOne_im2 (him : 2 ≤ m.cpu.regs.im) :
    (executeOne : Exec β StepResult) m =
      elim ((readWord (word m.cpu.regs.i m.cpu.regs.intVector) : Exec β UInt16)
          (m.acknowledging { m.cpu.regs.lines with int := false } .clearBoth))
        (fun t a => .ok ⟨.interrupt, Timing.intIm2⟩ ((a.jumped t).counted Timing.intIm2))
        (fun e a => .error e a) := by
  have hs := serviceInterrupts_int hn hi h1 he
  rw [InterruptMode.ofUInt8_of_two_le him] at hs
  rcases hr : (readWord (word m.cpu.regs.i m.cpu.regs.intVector) : Exec β UInt16)
      (m.acknowledging { m.cpu.regs.lines with int := false } .clearBoth) with ⟨t, a⟩ | ⟨e, a⟩ <;>
    rw [hr] at hs <;> simp only [elim_ok, elim_error] at hs ⊢
  · exact executeOne_of_ack hs
  · exact executeOne_of_ack_error hs

end Int

end Exec

/-! ## Steps that acknowledge nothing -/

namespace Control

theorem taken_eq_none {c : Control} (hn : c.lines.nmi = false)
    (hi : ¬(c.lines.int = true ∧ c.iff1 = true ∧ c.eiShadow = false)) : c.taken = none := by
  unfold taken
  cases hint : c.lines.int <;> cases hiff : c.iff1 <;> cases hsh : c.eiShadow <;>
    simp_all

theorem sample_lines {c : Control} (h : c.taken = none) : c.sample.lines = c.lines := by
  simp [sample, h]

theorem step_lines {c : Control} (h : c.taken = none) (i : Instr) : (c.step i).lines = c.lines := by
  unfold step
  split
  · rw [← sample_lines h]
    cases i <;> rfl
  · exact sample_lines h

/-- A step is an acknowledgment of INT exactly when no NMI waits, INT is latched, IFF1 is
set and the EI shadow is clear. -/
theorem stepKind_eq_interrupt {c : Control} :
    c.stepKind = .interrupt ↔
      c.lines.nmi = false ∧ c.lines.int = true ∧ c.iff1 = true ∧ c.eiShadow = false := by
  unfold stepKind taken
  cases c.lines.nmi <;> cases c.lines.int <;> cases c.iff1 <;> cases c.eiShadow <;>
    cases c.halted <;> simp

end Control

namespace Exec

variable {β : Type} [Bus β]

/-- Without a request to take, a step acknowledges nothing and leaves both lines
latched, finished or stopped. -/
theorem executeOne_untaken {m : Machine β} (hn : m.cpu.regs.lines.nmi = false)
    (hi : ¬(m.cpu.regs.lines.int = true ∧ m.cpu.regs.iff1 = true ∧ m.cpu.eiShadow = false)) :
    (∀ s m', (executeOne : Exec β StepResult) m = .ok s m' →
      s.kind ≠ .nmi ∧ s.kind ≠ .interrupt) ∧
    (Exec.after ((executeOne : Exec β StepResult) m)).cpu.regs.lines = m.cpu.regs.lines := by
  have ht : m.control.taken = none := Control.taken_eq_none hn hi
  have hk : m.control.stepKind ≠ .nmi ∧ m.control.stepKind ≠ .interrupt := by
    rw [Control.stepKind_of_taken_none ht]
    split <;> decide
  refine ⟨fun s m' h => (executeOne_ok h).1 ▸ hk, ?_⟩
  rcases h : (executeOne : Exec β StepResult) m with ⟨s, m'⟩ | ⟨e, m'⟩
  · have hc := congrArg Control.lines (executeOne_ok h).2.2
    exact hc.trans (Control.step_lines ht _)
  · have hc := congrArg Control.lines (executeOne_error h).1
    exact hc.trans (Control.sample_lines ht)

end Exec

/-! ## The EI shadow -/

/-- Whether the step from `m` executes EI: it acknowledges no request, is no halted idle,
and the instruction at PC is EI. -/
def Machine.executesEi {β : Type} (m : Machine β) : Bool :=
  decide (m.control.stepKind = .instruction ∧ m.cpu.nextInstr.instr = .ei)

theorem Control.step_eiShadow (c : Control) (i : Instr) :
    (c.step i).eiShadow = decide (c.stepKind = .instruction ∧ i = .ei) := by
  have hs : c.sample.eiShadow = false := by
    unfold sample
    split <;> rfl
  unfold step
  split
  · cases i <;> simp_all [Instr.control]
  · simp_all

namespace Exec

variable {β : Type} [Bus β]

/-- A step leaves the EI shadow set exactly when it executed EI. -/
theorem executeOne_eiShadow {m m' : Machine β} {s : StepResult}
    (h : (executeOne : Exec β StepResult) m = .ok s m') : m'.cpu.eiShadow = m.executesEi := by
  have hc := congrArg Control.eiShadow (executeOne_ok h).2.2
  exact hc.trans (Control.step_eiShadow _ _)

/-- So does a single step: entering and settling leave the shadow alone. -/
theorem step_eiShadow {m m' : Machine β} {r r' : Int64} {s : StepResult}
    (h : (Cpu.step r : Exec β (StepResult × Int64)) m = .ok (s, r') m') :
    m'.cpu.eiShadow = m.executesEi := by
  obtain ⟨x', hx, rfl, -⟩ := executeOne_of_step h
  -- settling and entering touch only the status
  have hs := executeOne_eiShadow hx
  exact hs

/-- A single step acknowledges INT exactly when no NMI waits, INT is latched, IFF1 is set
and the EI shadow is clear. -/
theorem step_interrupt_iff {m m' : Machine β} {r r' : Int64} {s : StepResult}
    (h : (Cpu.step r : Exec β (StepResult × Int64)) m = .ok (s, r') m') :
    s.kind = .interrupt ↔ m.cpu.regs.lines.nmi = false ∧ m.cpu.regs.lines.int = true ∧
      m.cpu.regs.iff1 = true ∧ m.cpu.eiShadow = false := by
  obtain ⟨x', hx, -, -⟩ := executeOne_of_step h
  -- entering changes the status only, which the sampling does not read
  rw [(executeOne_ok hx).1]
  exact Control.stepKind_eq_interrupt

end Exec

/-! ## The calls between steps -/

namespace HostOp

variable {β : Type} [Bus β]

/-- The calls that start the CPU afresh: a save-state load and the two resets. -/
def Restarts : HostOp β → Prop
  | restore _ | hardReset | softReset => True
  | _ => False

/-- The calls a host makes between steps: all but runs, single steps and restarts. -/
def Between : HostOp β → Prop
  | run _ | step _ | restore _ | hardReset | softReset => False
  | _ => True

/-- The calls between steps keep the EI shadow. -/
theorem eiShadow_between {op : HostOp β} (hop : op.Between) (m : Machine β) :
    (Exec.after (op.exec m)).cpu.eiShadow = m.cpu.eiShadow := by
  cases op with
  | run b | step r | restore snap | hardReset | softReset => exact hop.elim
  | clearFault =>
    show (if m.cpu.regs.status = .faulted then m.cpu.settle else m.cpu).eiShadow = _
    split <;> rfl
  | set reg v =>
    show (Exec.after (attempt (·.set reg v) m)).cpu.eiShadow = _
    apply after_attempt (P := fun x => x.cpu.eiShadow = m.cpu.eiShadow) rfl
    intro c hc
    obtain ⟨-, -, rfl⟩ := Cpu.set_eq_ok_iff.mp hc
    rfl
  | mapFetch first last region offset =>
    show (Exec.after (attempt (·.mapFetch first last region offset) m)).cpu.eiShadow = _
    exact after_attempt (P := fun x => x.cpu.eiShadow = m.cpu.eiShadow) rfl
      fun c hc => by rw [Cpu.mapFetch_ok hc]
  | unmapFetch first last =>
    show (Exec.after (attempt (·.unmapFetch first last) m)).cpu.eiShadow = _
    exact after_attempt (P := fun x => x.cpu.eiShadow = m.cpu.eiShadow) rfl
      fun c hc => by rw [Cpu.unmapFetch_ok hc]
  | addCycles n | clearOdometer | raiseNmi | raiseInt v | clearInt | addRegion data
  | modifyRegion id f | useBus f => rfl

/-- A save-state load or a reset that goes through clears the EI shadow. -/
theorem eiShadow_restarts {op : HostOp β} (hop : op.Restarts) {m m' : Machine β} {r : Reply}
    (h : op.exec m = .ok r m') : m'.cpu.eiShadow = false := by
  cases op with
  | restore snap =>
    simp only [exec, attempt] at h
    split at h
    · rename_i c hc
      cases h
      obtain ⟨-, rfl⟩ := Cpu.restore_eq_ok_iff.mp hc
      rfl
    · cases h
  | hardReset | softReset =>
    cases h
    rfl
  | _ => exact hop.elim

end HostOp

/-! ## A session, one step at a time -/

/-- `Boundary m e`: a host reaches `m` from a freshly created CPU one step at a time, by
single steps, the accounting that ends a run, the settling that ends a call and the
calls between steps, and `e` says whether the last step since the CPU was created,
restored or reset executed EI. -/
inductive Boundary {β : Type} [Bus β] : Machine β → Bool → Prop where
  | create {config : Config} {c : Cpu} (bus : β) :
      Cpu.create config = .ok c → Boundary ⟨c, bus⟩ false
  | step {m m' : Machine β} {e : Bool} {r r' : Int64} {s : StepResult} :
      Boundary m e → (Cpu.step r : Exec β (StepResult × Int64)) m = .ok (s, r') m' →
      Boundary m' m.executesEi
  | book {m : Machine β} {e : Bool} (d : UInt64) (r : Int64) :
      Boundary m e → Boundary (m.setBook d r) e
  | settle {m : Machine β} {e : Bool} : Boundary m e → Boundary m.settled e
  | call {m : Machine β} {e : Bool} (op : HostOp β) :
      op.Between → Boundary m e → Boundary (Exec.after (op.exec m)) e
  | restart {m m' : Machine β} {e : Bool} {reply : Reply} (op : HostOp β) :
      op.Restarts → Boundary m e → op.exec m = .ok reply m' → Boundary m' false

namespace Boundary

variable {β : Type} [Bus β]

/-- The EI shadow is set exactly when the last step since the CPU was created, restored
or reset executed EI. -/
theorem eiShadow {m : Machine β} {e : Bool} (h : Boundary m e) : m.cpu.eiShadow = e := by
  induction h with
  | create bus hc => exact (Cpu.create_ok hc).2.2
  | step _ hs _ => exact Exec.step_eiShadow hs
  | book _ _ _ ih => exact ih
  | settle _ ih => exact ih
  | call op hop _ ih => exact (HostOp.eiShadow_between hop _).trans ih
  | restart op hop _ h _ => exact HostOp.eiShadow_restarts hop h

/-- The steps of the host's loop go from boundary to boundary. -/
theorem stepLoop {m m' : Machine β} {e : Bool} {r r' : Int64} {steps : List StepResult}
    (h : Boundary m e) (hl : StepLoop m r steps m' r') : ∃ e', Boundary m' e' := by
  induction hl generalizing e with
  | done _ => exact ⟨e, h⟩
  | step _ hs _ ih => exact ih (h.step hs)

open Exec in
/-- A run goes from boundary to boundary, however it splits into steps. -/
theorem run {m m' : Machine β} {e : Bool} {b : UInt32} {o : RunOutcome} (h : Boundary m e)
    (hr : (Cpu.run b : Exec β RunOutcome) m = .ok o m') : ∃ e', Boundary m' e' := by
  rcases he : (enter : Exec β Unit) m with ⟨⟨⟩, x⟩ | ⟨err, x⟩
  · obtain ⟨rfl, hs⟩ := enter_ok he
    rcases run_ok_of_status hs hr with ⟨-, -, rfl⟩ | ⟨-, steps, m'', r, hsteps, -, rfl⟩
    · exact ⟨e, (h.book _ _).settle⟩
    · obtain ⟨e', h'⟩ := h.stepLoop hsteps
      exact ⟨e', h'.book _ _⟩
  · simp only [Cpu.run, bind_apply, he, elim_error] at hr
    cases hr

end Boundary

/-! ## Acceptance at every boundary -/

open Exec in
/-- Interrupt acceptance at every step boundary. An NMI is acknowledged whatever IFF1 and
the EI shadow are: its line cleared, the INT line and the vector kept, IFF1 cleared and
IFF2 kept, the return address pushed, PC = WZ = 0066, eleven cycles. Otherwise an INT is
acknowledged when it is latched, IFF1 is set and the EI shadow is clear: its line and
both flip-flops cleared, the return address pushed, and PC = WZ the restart in bits 5-3
of the vector in mode 0 (13 cycles), 0038 in mode 1 (13 cycles), or in mode 2, as a mode
byte of 2 or more reads, the word read through the data path at I:vector (19 cycles, and a
refused read stops the step).
Otherwise nothing is acknowledged and the lines stay latched. Over a session, a single
step acknowledges INT exactly when no NMI waits, INT is latched, IFF1 is set and the
last step since the CPU was created, restored or reset did not execute EI; a run goes
from boundary to boundary, however its steps fall. -/
theorem interrupt_acceptance {β : Type} [Bus β] :
    (∀ m : Machine β, m.cpu.regs.lines.nmi = true →
      (executeOne : Exec β StepResult) m = .ok ⟨.nmi, 11⟩
        (((m.acknowledging { m.cpu.regs.lines with nmi := false } .clearFirst).jumped
          0x66).counted 11)) ∧
    (∀ m : Machine β, m.cpu.regs.lines.nmi = false → m.cpu.regs.lines.int = true →
      m.cpu.regs.iff1 = true → m.cpu.eiShadow = false →
      (m.cpu.regs.im = 0 → (executeOne : Exec β StepResult) m = .ok ⟨.interrupt, 13⟩
        (((m.acknowledging { m.cpu.regs.lines with int := false } .clearBoth).jumped
          (m.cpu.regs.intVector &&& 0x38).toUInt16).counted 13)) ∧
      (m.cpu.regs.im = 1 → (executeOne : Exec β StepResult) m = .ok ⟨.interrupt, 13⟩
        (((m.acknowledging { m.cpu.regs.lines with int := false } .clearBoth).jumped
          0x38).counted 13)) ∧
      (2 ≤ m.cpu.regs.im → ∀ (t : UInt16) (a : Machine β),
        (readWord (word m.cpu.regs.i m.cpu.regs.intVector) : Exec β UInt16)
          (m.acknowledging { m.cpu.regs.lines with int := false } .clearBoth) = .ok t a →
        (executeOne : Exec β StepResult) m = .ok ⟨.interrupt, 19⟩ ((a.jumped t).counted 19)) ∧
      (2 ≤ m.cpu.regs.im → ∀ (err : Abort) (a : Machine β),
        (readWord (word m.cpu.regs.i m.cpu.regs.intVector) : Exec β UInt16)
          (m.acknowledging { m.cpu.regs.lines with int := false } .clearBoth) = .error err a →
        (executeOne : Exec β StepResult) m = .error err a)) ∧
    (∀ m : Machine β, m.cpu.regs.lines.nmi = false →
      ¬(m.cpu.regs.lines.int = true ∧ m.cpu.regs.iff1 = true ∧ m.cpu.eiShadow = false) →
      (∀ s m', (executeOne : Exec β StepResult) m = .ok s m' →
        s.kind ≠ .nmi ∧ s.kind ≠ .interrupt) ∧
      (Exec.after ((executeOne : Exec β StepResult) m)).cpu.regs.lines = m.cpu.regs.lines) ∧
    (∀ (m m' : Machine β) (e : Bool) (r r' : Int64) (s : StepResult), Boundary m e →
      (Cpu.step r : Exec β (StepResult × Int64)) m = .ok (s, r') m' →
      (s.kind = .interrupt ↔ m.cpu.regs.lines.nmi = false ∧ m.cpu.regs.lines.int = true ∧
        m.cpu.regs.iff1 = true ∧ e = false)) ∧
    (∀ (m m' : Machine β) (e : Bool) (b : UInt32) (o : RunOutcome), Boundary m e →
      (Cpu.run b : Exec β RunOutcome) m = .ok o m' → ∃ e', Boundary m' e') := by
  refine ⟨fun _ h => executeOne_nmi h, fun _ hn hi h1 he => ⟨executeOne_im0 hn hi h1 he,
    executeOne_im1 hn hi h1 he, ?_, ?_⟩, fun _ hn hi => executeOne_untaken hn hi, ?_,
    fun _ _ _ _ _ h hr => h.run hr⟩
  · intro him t a hr
    rw [executeOne_im2 hn hi h1 he him, hr]
    rfl
  · intro him err a hr
    rw [executeOne_im2 hn hi h1 he him, hr]
    rfl
  · intro m m' e r r' s h hs
    rw [step_interrupt_iff hs, h.eiShadow]

end Z80
