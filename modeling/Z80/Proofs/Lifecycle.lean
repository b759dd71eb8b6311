import Z80.Proofs.IndexPrefix

/-!
# The lifecycle of the status

A CPU is `idle` or `halted` between calls, `running` inside a run or a step, and
`faulted` once a run or step finds it still running. A run or step is left running when
its bus refuses a read (`Abort.busFault`): the host's callback unwound out of it.

This module follows the status through every host call, bus faults included. Whenever the
status is idle or halted it tells the HALT line (`Machine.Coherent`, kept by every call);
a run or a step is the only way into `faulted`, and clearing the fault or a hard reset the
only way out; a refused call changes nothing, save that a run or step that finds the CPU
running marks it faulted.
-/

namespace Z80

namespace Machine

variable {β : Type}

/-- The machine with its status set to `faulted`, as a reentered call leaves it. -/
def faulted (m : Machine β) : Machine β :=
  { m with cpu := { m.cpu with regs := { m.cpu.regs with status := .faulted } } }

/-- Whenever the status is idle or halted, it tells the HALT line. -/
def Coherent (m : Machine β) : Prop :=
  m.cpu.regs.status = .idle ∨ m.cpu.regs.status = .halted →
    (m.cpu.regs.status = .halted ↔ m.cpu.regs.halted = true)

theorem Settled.coherent {m : Machine β} (h : m.Settled) : m.Coherent := by
  intro _
  rw [h.status_eq]
  simp only [settled, Cpu.settle]
  cases m.cpu.regs.halted <;> simp

/-- A running or faulted CPU says nothing of the HALT line. -/
theorem coherent_of_unsettled {m : Machine β}
    (h : m.cpu.regs.status = .running ∨ m.cpu.regs.status = .faulted) : m.Coherent := by
  intro hs
  rcases h with h | h <;> rcases hs with hs | hs <;> rw [h] at hs <;> cases hs

/-- Neither halted nor with the HALT line set: nothing to disagree. -/
theorem coherent_of_not_halted {m : Machine β} (hs : m.cpu.regs.status ≠ .halted)
    (hh : m.cpu.regs.halted = false) : m.Coherent := by
  intro _
  rw [hh]
  simp only [Bool.false_eq_true, iff_false]
  exact hs

theorem Coherent.of_regs {m m' : Machine β} (h : m.Coherent)
    (hs : m'.cpu.regs.status = m.cpu.regs.status) (hh : m'.cpu.regs.halted = m.cpu.regs.halted) :
    m'.Coherent := by
  unfold Coherent
  rw [hs, hh]
  exact h

theorem Settled.ne_faulted {m : Machine β} (h : m.Settled) : m.cpu.regs.status ≠ .faulted := by
  rcases h.stable with hs | hs <;> rw [hs] <;> decide

theorem Settled.ne_running {m : Machine β} (h : m.Settled) : m.cpu.regs.status ≠ .running := by
  rcases h.stable with hs | hs <;> rw [hs] <;> decide

end Machine

theorem RunStatus.settled_or_running_or_faulted (s : RunStatus) :
    (s = .idle ∨ s = .halted) ∨ s = .running ∨ s = .faulted := by
  cases s <;> simp

/-! ## Refusals -/

theorem Registers.set_error {rs : Registers} {reg : Reg} {v : UInt16} {e : Error}
    (h : rs.set reg v = .error e) : e = .busy ∨ e = .valueOutOfRange reg v := by
  unfold Registers.set at h
  split_ifs at h <;> cases h
  · exact .inl rfl
  · exact .inr rfl

/-- A fetch mapping is refused for a reversed page range, an unknown region or an offset
past the region's end. -/
theorem FetchMap.map_error {fm : FetchMap} {first last : UInt8} {region : RegionId}
    {offset : Nat} {e : Error} (h : fm.map first last region offset = .error e) :
    e = .invalidPageRange first last ∨ e = .unknownRegion region.index ∨
      ∃ n, e = .offsetOutOfBounds offset n := by
  unfold FetchMap.map at h
  split_ifs at h
  · cases h
    exact .inl rfl
  · split at h
    · cases h
      exact .inr (.inl rfl)
    · split_ifs at h
      cases h
      exact .inr (.inr ⟨_, rfl⟩)

namespace Cpu

theorem set_error {c : Cpu} {reg : Reg} {v : UInt16} {e : Error}
    (h : c.set reg v = .error e) : c.regs.set reg v = .error e := by
  unfold Cpu.set at h
  cases hr : c.regs.set reg v with
  | error e' =>
    simp only [hr, bind, Except.bind] at h
    cases h
    rfl
  | ok rs => simp [hr, bind, Except.bind, pure, Except.pure] at h

theorem unmapFetch_error {c : Cpu} {first last : UInt8} {e : Error}
    (h : c.unmapFetch first last = .error e) : e = .invalidPageRange first last := by
  have hu := unmapFetch_eq_error_iff.mp h
  simp only [FetchMap.unmap] at hu
  split_ifs at hu
  cases hu
  rfl

theorem restore_error {c : Cpu} {snap : Registers} {e : Error}
    (h : c.restore snap = .error e) : e = .busy ∧ c.regs.status = .running := by
  simp only [Cpu.restore] at h
  split_ifs at h with hs
  cases h
  exact ⟨rfl, hs⟩

/-- A register read is refused only while running, as busy. -/
theorem get_error {c : Cpu} {reg : Reg} {e : Error} :
    c.get reg = .error e ↔ e = .busy ∧ c.regs.status = .running := by
  simp only [Cpu.get, Registers.get, bind, Except.bind]
  split_ifs with h <;> simp [h, pure, Except.pure, eq_comm]

/-- A snapshot is refused only while running, as busy. -/
theorem snapshot_error {c : Cpu} {e : Error} :
    c.snapshot = .error e ↔ e = .busy ∧ c.regs.status = .running := by
  unfold Cpu.snapshot
  split_ifs with h <;> simp [h, eq_comm]

end Cpu

/-! ## Entering and landing -/

namespace Exec

variable {β : Type} [Bus β]

omit [Bus β] in
/-- A faulted CPU refuses a call that lends it the bus, and stays as it is. -/
theorem enter_of_faulted {m : Machine β} (h : m.cpu.regs.status = .faulted) :
    (enter : Exec β Unit) m = .error (.refused .faulted) m := by
  simp [enter, bind, EStateM.bind, regs, h, throw, throwThe, MonadExceptOf.throw, EStateM.throw]

omit [Bus β] in
/-- A CPU found running refuses the call and is marked faulted. -/
theorem enter_of_running {m : Machine β} (h : m.cpu.regs.status = .running) :
    (enter : Exec β Unit) m = .error (.refused .reentered) m.faulted := by
  simp [enter, bind, EStateM.bind, regs, modifyRegs, modifyCpu, h, throw, throwThe,
    MonadExceptOf.throw, EStateM.throw, Machine.faulted]

theorem run_of_enter_error {m m' : Machine β} {e : Abort}
    (h : (enter : Exec β Unit) m = .error e m') (b : UInt32) :
    (Cpu.run b : Exec β RunOutcome) m = .error e m' := by
  simp only [Cpu.run, bind_apply, h, elim_error]

theorem step_of_enter_error {m m' : Machine β} {e : Abort}
    (h : (enter : Exec β Unit) m = .error e m') (r : Int64) :
    (Cpu.step r : Exec β (StepResult × Int64)) m = .error e m' := by
  simp only [Cpu.step, bind_apply, h, elim_error]

theorem executeOne_error_status {x x' : Machine β} {e : Abort}
    (h : (executeOne : Exec β StepResult) x = .error e x') :
    x'.cpu.regs.status = x.cpu.regs.status := by
  have hc := congrArg Control.status (executeOne_error h).1
  simpa [Machine.control, Control.sample_status] using hc

/-- The run loop leaves the status as it found it, finished or stopped. -/
theorem runLoop_status (fuel : Nat) : ∀ (rem : Int64) (c : Nat) (x : Machine β),
    (Exec.after ((runLoop fuel rem c : Exec β (Int64 × Nat)) x)).cpu.regs.status =
      x.cpu.regs.status := by
  intro rem c x
  -- the idles write R and the counts only
  refine runLoop_invariant (P := fun y : Machine β => y.cpu.regs.status = x.cpu.regs.status)
    (fun y hy => ?_) (fun y n hy => by rw [(Machine.idle_cpu y n).1]; exact hy) fuel rem c x rfl
  rcases hx : (executeOne : Exec β StepResult) y with ⟨s, y₁⟩ | ⟨e, y₁⟩
  · exact (executeOne_status hx).trans hy
  · exact (executeOne_error_status hx).trans hy

omit [Bus β] in
/-- How a call that got in ends: settled when it finishes, and still running when a
refused bus read stopped it. -/
def Lands {α : Type} : EStateM.Result Abort (Machine β) α → Prop
  | .ok _ m' => m'.Settled
  | .error e m' => (∃ a, e = .busFault a) ∧ m'.cpu.regs.status = .running

omit [Bus β] in
theorem lands_map {α γ : Type} (f : α → γ) (x : Exec β α) (m : Machine β) :
    Lands ((f <$> x) m) ↔ Lands (x m) := by
  rw [map_apply]
  cases x m <;> rfl

omit [Bus β] in
@[simp] theorem after_map {α γ : Type} (f : α → γ) (x : Exec β α) (m : Machine β) :
    after ((f <$> x) m) = after (x m) := by
  rw [map_apply]
  cases x m <;> rfl

theorem run_lands {m : Machine β} (hs : m.cpu.regs.status = .idle ∨ m.cpu.regs.status = .halted)
    (b : UInt32) : Lands ((Cpu.run b : Exec β RunOutcome) m) := by
  by_cases hb : b.toUInt64 ≤ m.cpu.odometer.debt
  · rw [run_of_le_entered hs hb]
    exact Machine.settled_settled _
  · rw [run_of_lt hs (UInt64.not_le.mp hb)]
    generalize (b.toUInt64 - m.cpu.odometer.debt).toInt64.toInt.toNat + 1 = fuel
    generalize (b.toUInt64 - m.cpu.odometer.debt).toInt64 = rem
    rcases hloop : (runLoop fuel rem 0 : Exec β (Int64 × Nat)) m.entered with ⟨p, x'⟩ | ⟨e, x'⟩
    · exact (Machine.settled_settled x').setBook _ _
    · -- the loop keeps the status the call entered with
      have hr := runLoop_status fuel rem 0 m.entered
      rw [hloop] at hr
      exact ⟨runLoop_error hloop, hr⟩

theorem step_lands {m : Machine β} (hs : m.cpu.regs.status = .idle ∨ m.cpu.regs.status = .halted)
    (r : Int64) : Lands ((Cpu.step r : Exec β (StepResult × Int64)) m) := by
  rw [step_of_enter (enter_apply hs)]
  rcases hx : (executeOne : Exec β StepResult) m.entered with ⟨s, x'⟩ | ⟨e, x'⟩
  · exact Machine.settled_settled x'
  · exact ⟨(executeOne_error hx).2, executeOne_error_status hx⟩

end Exec

/-! ## Host calls -/

namespace HostOp

variable {β : Type}

/-- Whether a call lends the CPU the bus: a run or a single step. -/
def lendsBus : HostOp β → Bool
  | .run _ | .step _ => true
  | _ => false

/-- Whether a call writes the status: the calls that lend the bus, the two resets,
clearing a fault and loading a save state. -/
def writesStatus : HostOp β → Bool
  | .run _ | .step _ | .hardReset | .softReset | .clearFault | .restore _ => true
  | _ => false

variable [Bus β]

open Exec

theorem exec_of_enter_error {op : HostOp β} (hl : op.lendsBus = true) {m m' : Machine β}
    {e : Abort} (h : (enter : Exec β Unit) m = .error e m') : op.exec m = .error e m' := by
  cases op with
  | run b => simp only [exec, map_apply, run_of_enter_error h, elim_error]
  | step r => simp only [exec, map_apply, step_of_enter_error h, elim_error]
  | _ => cases hl

theorem exec_lands {op : HostOp β} (hl : op.lendsBus = true) {m : Machine β}
    (hs : m.cpu.regs.status = .idle ∨ m.cpu.regs.status = .halted) : Lands (op.exec m) := by
  cases op with
  | run b => exact (lands_map _ _ _).mpr (run_lands hs b)
  | step r => exact (lands_map _ _ _).mpr (step_lands hs r)
  | _ => cases hl

/-- Where a call that lends the bus leaves the machine: a faulted CPU as it was, a running
one faulted, and a settled one settled, or running when a bus fault stopped it. -/
theorem after_lendsBus {op : HostOp β} (hl : op.lendsBus = true) (m : Machine β) :
    (m.cpu.regs.status = .faulted → Exec.after (op.exec m) = m) ∧
    (m.cpu.regs.status = .running → Exec.after (op.exec m) = m.faulted) ∧
    (m.cpu.regs.status = .idle ∨ m.cpu.regs.status = .halted →
      (Exec.after (op.exec m)).Settled ∨ (Exec.after (op.exec m)).cpu.regs.status = .running) := by
  refine ⟨fun hs => ?_, fun hs => ?_, fun hs => ?_⟩
  · rw [exec_of_enter_error hl (enter_of_faulted hs)]
    rfl
  · rw [exec_of_enter_error hl (enter_of_running hs)]
    rfl
  · have h := exec_lands hl hs
    rcases hx : op.exec m with ⟨a, x⟩ | ⟨e, x⟩ <;> rw [hx] at h
    · exact .inl h
    · exact .inr h.2

omit [Bus β] in
theorem attempt_refused {f : Cpu → Except Error Cpu} {m m' : Machine β} {e : Error}
    (h : attempt f m = .error (.refused e) m') : f m.cpu = .error e ∧ m' = m := by
  unfold attempt at h
  split at h
  · cases h
  · rename_i he
    cases h
    exact ⟨he, rfl⟩

omit [Bus β] in
/-- A call that may be refused keeps the status and the HALT line when every change it
can make does. -/
theorem after_attempt_frame {f : Cpu → Except Error Cpu} {m : Machine β}
    (hf : ∀ c, f m.cpu = .ok c →
      c.regs.status = m.cpu.regs.status ∧ c.regs.halted = m.cpu.regs.halted) :
    (Exec.after (attempt f m)).cpu.regs.status = m.cpu.regs.status ∧
      (Exec.after (attempt f m)).cpu.regs.halted = m.cpu.regs.halted :=
  after_attempt (P := fun x : Machine β =>
    x.cpu.regs.status = m.cpu.regs.status ∧ x.cpu.regs.halted = m.cpu.regs.halted) ⟨rfl, rfl⟩ hf

/-- A call that does not write the status keeps it and the HALT line. -/
theorem exec_frame {op : HostOp β} (h : op.writesStatus = false) (m : Machine β) :
    (Exec.after (op.exec m)).cpu.regs.status = m.cpu.regs.status ∧
      (Exec.after (op.exec m)).cpu.regs.halted = m.cpu.regs.halted := by
  cases op with
  | set reg v =>
    exact after_attempt_frame (f := (·.set reg v)) fun c hc =>
      ⟨(Cpu.set_ok hc).1, (Cpu.set_ok hc).2.1⟩
  | mapFetch first last region offset =>
    refine after_attempt_frame (f := (·.mapFetch first last region offset)) fun c hc => ?_
    rw [Cpu.mapFetch_ok hc]
    exact ⟨rfl, rfl⟩
  | unmapFetch first last =>
    refine after_attempt_frame (f := (·.unmapFetch first last)) fun c hc => ?_
    rw [Cpu.unmapFetch_ok hc]
    exact ⟨rfl, rfl⟩
  | run _ | step _ | hardReset | softReset | clearFault | restore _ => cases h
  | _ => exact ⟨rfl, rfl⟩

theorem after_hardReset (m : Machine β) :
    (Exec.after ((hardReset : HostOp β).exec m)).cpu.regs.status = .idle ∧
      (Exec.after ((hardReset : HostOp β).exec m)).cpu.regs.halted = false :=
  ⟨rfl, rfl⟩

theorem after_softReset (m : Machine β) :
    (Exec.after ((softReset : HostOp β).exec m)).cpu.regs.status =
        (if m.cpu.regs.status = .faulted then .faulted else .idle) ∧
      (Exec.after ((softReset : HostOp β).exec m)).cpu.regs.halted = false :=
  ⟨rfl, rfl⟩

theorem after_clearFault (m : Machine β) :
    Exec.after ((clearFault : HostOp β).exec m) =
      if m.cpu.regs.status = .faulted then m.settled else m := by
  simp only [exec, change, Exec.after, Cpu.clearFault]
  split <;> rfl

/-- Loading a save state is refused while running, keeps a fault, and settles otherwise. -/
theorem after_restore (snap : Registers) (m : Machine β) :
    (m.cpu.regs.status = .running → Exec.after ((restore snap).exec m) = m) ∧
    (m.cpu.regs.status = .faulted →
      (Exec.after ((restore snap).exec m)).cpu.regs.status = .faulted) ∧
    (m.cpu.regs.status = .idle ∨ m.cpu.regs.status = .halted →
      (Exec.after ((restore snap).exec m)).Settled) := by
  refine ⟨fun hs => ?_, fun hs => ?_, fun hs => ?_⟩
  · simp [exec, attempt, Cpu.restore, hs, Exec.after]
  · simp [exec, attempt, Cpu.restore, hs, Exec.after]
  · have hf : m.cpu.regs.status ≠ .faulted := by rcases hs with hs | hs <;> rw [hs] <;> decide
    have hr : m.cpu.regs.status ≠ .running := by rcases hs with hs | hs <;> rw [hs] <;> decide
    simp only [exec, attempt, Cpu.restore, hf, hr, if_false, Exec.after]
    exact Machine.settled_settled ⟨_, m.bus⟩

/-! ## What each call does to the status -/

variable {m : Machine β}

/-- Every call keeps the status coherent with the HALT line. -/
theorem coherent_exec (h : m.Coherent) (op : HostOp β) : (Exec.after (op.exec m)).Coherent := by
  by_cases hl : op.lendsBus = true
  · obtain ⟨hf, hr, hs⟩ := after_lendsBus hl m
    rcases m.cpu.regs.status.settled_or_running_or_faulted with hst | hst | hst
    · rcases hs hst with h' | h'
      · exact h'.coherent
      · exact Machine.coherent_of_unsettled (.inl h')
    · rw [hr hst]
      exact Machine.coherent_of_unsettled (.inr rfl)
    · rw [hf hst]
      exact h
  by_cases hw : op.writesStatus = false
  · obtain ⟨hs, hh⟩ := exec_frame hw m
    exact h.of_regs hs hh
  cases op with
  | hardReset =>
    obtain ⟨hs, hh⟩ := after_hardReset m
    exact Machine.coherent_of_not_halted (by rw [hs]; decide) hh
  | softReset =>
    obtain ⟨hs, hh⟩ := after_softReset m
    exact Machine.coherent_of_not_halted (by rw [hs]; split <;> decide) hh
  | clearFault =>
    rw [after_clearFault]
    split
    · exact (Machine.settled_settled m).coherent
    · exact h
  | restore snap =>
    obtain ⟨hr, hf, hs⟩ := after_restore snap m
    rcases m.cpu.regs.status.settled_or_running_or_faulted with hst | hst | hst
    · exact (hs hst).coherent
    · rw [hr hst]
      exact h
    · exact Machine.coherent_of_unsettled (.inr (hf hst))
  | run _ | step _ => exact (hl rfl).elim
  | _ => exact (hw rfl).elim

/-- Only a run or step that finds the CPU running makes it faulted. -/
theorem lendsBus_of_enters_faulted {op : HostOp β} (h₁ : m.cpu.regs.status ≠ .faulted)
    (h₂ : (Exec.after (op.exec m)).cpu.regs.status = .faulted) :
    op.lendsBus = true ∧ m.cpu.regs.status = .running := by
  by_cases hl : op.lendsBus = true
  · refine ⟨hl, ?_⟩
    obtain ⟨-, -, hs⟩ := after_lendsBus hl m
    rcases m.cpu.regs.status.settled_or_running_or_faulted with hst | hst | hst
    · -- a call that got in lands settled or, stopped by the bus, running
      rcases hs hst with h' | h'
      · exact absurd h₂ h'.ne_faulted
      · rw [h₂] at h'
        cases h'
    · exact hst
    · exact absurd hst h₁
  exfalso
  by_cases hw : op.writesStatus = false
  · rw [(exec_frame hw m).1] at h₂
    exact h₁ h₂
  cases op with
  | hardReset =>
    rw [(after_hardReset m).1] at h₂
    cases h₂
  | softReset =>
    rw [(after_softReset m).1, if_neg h₁] at h₂
    cases h₂
  | clearFault =>
    rw [after_clearFault, if_neg h₁] at h₂
    exact h₁ h₂
  | restore snap =>
    obtain ⟨hr, -, hs⟩ := after_restore snap m
    rcases m.cpu.regs.status.settled_or_running_or_faulted with hst | hst | hst
    · exact (hs hst).ne_faulted h₂
    · rw [hr hst] at h₂
      exact h₁ h₂
    · exact h₁ hst
  | run _ | step _ => exact hl rfl
  | _ => exact hw rfl

/-- Only clearing the fault or a hard reset takes a CPU out of `faulted`. -/
theorem leaves_faulted {op : HostOp β} (h₁ : m.cpu.regs.status = .faulted)
    (h₂ : (Exec.after (op.exec m)).cpu.regs.status ≠ .faulted) :
    op = .clearFault ∨ op = .hardReset := by
  by_cases hl : op.lendsBus = true
  · rw [(after_lendsBus hl m).1 h₁] at h₂
    exact absurd h₁ h₂
  by_cases hw : op.writesStatus = false
  · rw [(exec_frame hw m).1] at h₂
    exact absurd h₁ h₂
  cases op with
  | clearFault => exact .inl rfl
  | hardReset => exact .inr rfl
  | softReset =>
    rw [(after_softReset m).1, if_pos h₁] at h₂
    exact absurd rfl h₂
  | restore snap => exact absurd ((after_restore snap m).2.1 h₁) h₂
  | run _ | step _ => exact (hl rfl).elim
  | _ => exact (hw rfl).elim

/-- A running CPU stops running only by a run or step, which faults it, or by a reset. -/
theorem leaves_running {op : HostOp β} (h₁ : m.cpu.regs.status = .running)
    (h₂ : (Exec.after (op.exec m)).cpu.regs.status ≠ .running) :
    (op.lendsBus = true ∧ (Exec.after (op.exec m)).cpu.regs.status = .faulted) ∨
      op = .softReset ∨ op = .hardReset := by
  by_cases hl : op.lendsBus = true
  · rw [(after_lendsBus hl m).2.1 h₁]
    exact .inl ⟨hl, rfl⟩
  by_cases hw : op.writesStatus = false
  · rw [(exec_frame hw m).1] at h₂
    exact absurd h₁ h₂
  cases op with
  | softReset => exact .inr (.inl rfl)
  | hardReset => exact .inr (.inr rfl)
  | clearFault =>
    rw [after_clearFault, if_neg (by rw [h₁]; decide)] at h₂
    exact absurd h₁ h₂
  | restore snap =>
    rw [(after_restore snap m).1 h₁] at h₂
    exact absurd h₁ h₂
  | run _ | step _ => exact (hl rfl).elim
  | _ => exact (hw rfl).elim

/-- A refused call leaves the machine as it was, save a run or step that finds the CPU
running: that one is refused as reentered and changes the status to `faulted`, nothing
else. -/
theorem exec_refused {op : HostOp β} {m' : Machine β} {e : Error}
    (h : op.exec m = .error (.refused e) m') :
    (e = .reentered ∧ op.lendsBus = true ∧ m.cpu.regs.status = .running ∧ m' = m.faulted) ∨
      (e ≠ .reentered ∧ m' = m) := by
  by_cases hl : op.lendsBus = true
  · rcases m.cpu.regs.status.settled_or_running_or_faulted with hst | hst | hst
    · -- a call that got in stops early only on a bus fault
      have hland := exec_lands hl hst
      rw [h] at hland
      obtain ⟨⟨a, ha⟩, -⟩ := hland
      cases ha
    · rw [exec_of_enter_error hl (enter_of_running hst)] at h
      cases h
      exact .inl ⟨rfl, hl, hst, rfl⟩
    · rw [exec_of_enter_error hl (enter_of_faulted hst)] at h
      cases h
      exact .inr ⟨by decide, rfl⟩
  · cases op with
    | run _ | step _ => exact absurd rfl hl
    | set reg v =>
      obtain ⟨he, rfl⟩ := attempt_refused (f := (·.set reg v)) h
      refine .inr ⟨?_, rfl⟩
      rcases Registers.set_error (Cpu.set_error he) with rfl | rfl <;> exact nofun
    | restore snap =>
      obtain ⟨he, rfl⟩ := attempt_refused (f := (·.restore snap)) h
      rw [(Cpu.restore_error he).1]
      exact .inr ⟨by decide, rfl⟩
    | mapFetch first last region offset =>
      obtain ⟨he, rfl⟩ := attempt_refused (f := (·.mapFetch first last region offset)) h
      refine .inr ⟨?_, rfl⟩
      rcases FetchMap.map_error (Cpu.mapFetch_eq_error_iff.mp he) with rfl | rfl | ⟨n, rfl⟩ <;> exact nofun
    | unmapFetch first last =>
      obtain ⟨he, rfl⟩ := attempt_refused (f := (·.unmapFetch first last)) h
      rw [Cpu.unmapFetch_error he]
      exact .inr ⟨nofun, rfl⟩
    | _ => cases h

end HostOp

/-! ## Sessions -/

/-- The machines a host reaches from a freshly created CPU by any calls, those a refused
bus read stopped included. -/
inductive Reachable {β : Type} [Bus β] : Machine β → Prop where
  | create {config : Config} {c : Cpu} (bus : β) :
      Cpu.create config = .ok c → Reachable ⟨c, bus⟩
  | call {m : Machine β} (op : HostOp β) : Reachable m → Reachable (Exec.after (op.exec m))

variable {β : Type} [Bus β]

/-- On every machine a host reaches the status tells the HALT line when idle or halted:
creation starts it so, and every call keeps it. -/
theorem Reachable.coherent {m : Machine β} (h : Reachable m) : m.Coherent := by
  induction h with
  | create bus hc =>
    obtain ⟨hr, -, -⟩ := Cpu.create_ok hc
    exact Machine.coherent_of_not_halted (by rw [hr]; decide) (by rw [hr])
  | call op _ ih => exact HostOp.coherent_exec ih op

/-- Between the calls of a session with no bus fault the CPU is never running. -/
theorem Reach.ne_running {m : Machine β} {l : Ledger} (h : Reach m l) :
    m.cpu.regs.status ≠ .running :=
  (Books.of_reach h).settled.ne_running

open Exec in
/-- The status over every host call. On every machine a host reaches, bus faults included,
an idle or halted status tells the HALT line; between the calls of a session with no bus
fault the CPU is never running. Only a run or step makes a CPU faulted, and only when it
finds it running; only clearing the fault or a hard reset takes it out of `faulted`; and a
running CPU stops running only by a run or step, which faults it, or by a reset. A refused
call leaves the machine as it was, save a run or step that finds the CPU running: that one
is refused as reentered and changes the status to `faulted`, nothing else. Reading a
register or taking a snapshot changes nothing, and is refused only while running, as
busy. -/
theorem status_lifecycle {β : Type} [Bus β] :
    (∀ m : Machine β, Reachable m →
      m.cpu.regs.status = .idle ∨ m.cpu.regs.status = .halted →
        (m.cpu.regs.status = .halted ↔ m.cpu.regs.halted = true)) ∧
    (∀ (m : Machine β) (l : Ledger), Reach m l → m.cpu.regs.status ≠ .running) ∧
    (∀ (op : HostOp β) (m : Machine β), m.cpu.regs.status ≠ .faulted →
      (after (op.exec m)).cpu.regs.status = .faulted →
        op.lendsBus = true ∧ m.cpu.regs.status = .running) ∧
    (∀ (op : HostOp β) (m : Machine β), m.cpu.regs.status = .faulted →
      (after (op.exec m)).cpu.regs.status ≠ .faulted → op = .clearFault ∨ op = .hardReset) ∧
    (∀ (op : HostOp β) (m : Machine β), m.cpu.regs.status = .running →
      (after (op.exec m)).cpu.regs.status ≠ .running →
        (op.lendsBus = true ∧ (after (op.exec m)).cpu.regs.status = .faulted) ∨
          op = .softReset ∨ op = .hardReset) ∧
    (∀ (op : HostOp β) (m m' : Machine β) (e : Error), op.exec m = .error (.refused e) m' →
      (e = .reentered ∧ op.lendsBus = true ∧ m.cpu.regs.status = .running ∧ m' = m.faulted) ∨
        (e ≠ .reentered ∧ m' = m)) ∧
    (∀ (c : Cpu) (reg : Reg) (e : Error),
      c.get reg = .error e ↔ e = .busy ∧ c.regs.status = .running) ∧
    (∀ (c : Cpu) (e : Error), c.snapshot = .error e ↔ e = .busy ∧ c.regs.status = .running) :=
  ⟨fun _ h => h.coherent,
   fun _ _ h => h.ne_running,
   fun _ _ h₁ h₂ => HostOp.lendsBus_of_enters_faulted h₁ h₂,
   fun _ _ h₁ h₂ => HostOp.leaves_faulted h₁ h₂,
   fun _ _ h₁ h₂ => HostOp.leaves_running h₁ h₂,
   fun _ _ _ _ h => HostOp.exec_refused h,
   fun _ _ _ => Cpu.get_error,
   fun _ _ => Cpu.snapshot_error⟩

open Exec in
/-- A step on a CPU that a bus fault left running is what makes it faulted. -/
theorem status_lifecycle_faultsRunning :
    ((HostOp.step 0 : HostOp SimpleBus).lendsBus = true ∧
        (Machine.loaded [0x76]).entered.cpu.regs.status = .running) ∧
      (((HostOp.step 0 : HostOp SimpleBus).lendsBus = true ∧
          (after ((HostOp.step 0 : HostOp SimpleBus).exec
            (Machine.loaded [0x76]).entered)).cpu.regs.status = .faulted) ∨
        (HostOp.step 0 : HostOp SimpleBus) = .softReset ∨
        (HostOp.step 0 : HostOp SimpleBus) = .hardReset) :=
  ⟨status_lifecycle.2.2.1 (.step 0) _ (by decide) rfl,
    status_lifecycle.2.2.2.2.1 (.step 0) _ rfl (by decide)⟩

end Z80
