import Z80.Proofs.LiveRefresh

/-!
# Save states

A save state is the register file a host reads with `Cpu.snapshot`, R at its live value.
Loading it back with `Cpu.restore` leaves the CPU `Cpu.reloaded` (`Machine.restore_registers`):
the registers as they read, R written now, and the EI shadow cleared. R written now reads as
it is stored (`Cpu.refreshValue_of_written_now`), so the reloaded CPU shows a host everything
as before (`Cpu.reloaded_observe`).

What comes after can differ in two ways. An EI shadow is lost. And in `cycleDerived` mode R's
count starts again at the load, which drops the cycles since the last write of R that had not
yet made up a whole four. With the shadow clear and no such cycles, the reloaded machine is a
twin of the saved one (`Machine.reloaded_twin`), and every later session answers alike from
both (`HostOp.replay_twin`). "No such cycles" is read off the distance from the last write of R
to the refresh clock, which is never negative on a machine a host reaches
(`Reachable.rWrittenPast`): the invariant holds at creation and every call keeps it.
-/

namespace Z80

/-- The CPU a save state of `c` loads back into: the registers as they read, R written now,
and no EI shadow. -/
def Cpu.reloaded (c : Cpu) : Cpu :=
  { c with regs := c.registers, rWrittenAt := c.refreshClock, eiShadow := false }

/-- R was last written no later than the refresh clock reads now. -/
def Machine.RWrittenPast {β : Type} (m : Machine β) : Prop :=
  m.cpu.rWrittenAt ≤ m.cpu.refreshClock

namespace Cpu

variable {c : Cpu}

@[simp] theorem reloaded_regs (c : Cpu) : c.reloaded.regs = c.registers := rfl

@[simp] theorem reloaded_config (c : Cpu) : c.reloaded.config = c.config := rfl

@[simp] theorem reloaded_refreshClock (c : Cpu) : c.reloaded.refreshClock = c.refreshClock := rfl

@[simp] theorem reloaded_rWrittenAt (c : Cpu) : c.reloaded.rWrittenAt = c.refreshClock := rfl

/-- In `cycleDerived` mode R keeps bit 7 of the value written and counts a fetch in its low
seven bits for every four cycles since. -/
theorem liveR_cycleDerived (h : c.config.refresh = .cycleDerived) (n : Nat) :
    c.liveR n &&& 0x80 = c.regs.r &&& 0x80 ∧
      (c.liveR n).toNat % 128 = (c.regs.r.toNat + (c.refreshClock + n - c.rWrittenAt) / 4) % 128 := by
  have hj := UInt8.high_low_join c.regs.r
    (c.regs.r.toNat + (c.refreshClock + n - c.rWrittenAt) / 4).toUInt8
  simp only [liveR, refreshValue, h]
  refine ⟨hj.1, ?_⟩
  rw [hj.2]
  simp only [Nat.toUInt8_eq, UInt8.toNat_ofNat']
  omega

/-- R written now reads as it is stored. -/
theorem refreshValue_of_written_now (h : c.rWrittenAt = c.refreshClock) :
    c.refreshValue = c.regs.r := by
  cases hp : c.config.refresh
  case perFetch => simp only [refreshValue, hp]
  case cycleDerived =>
    obtain ⟨hh, hl⟩ := liveR_cycleDerived hp 0
    rw [← liveR_zero]
    refine UInt8.eq_of_high_low hh ?_
    rw [hl, h, Nat.add_zero, Nat.sub_self, Nat.zero_div, Nat.add_zero]

@[simp] theorem reloaded_registers (c : Cpu) : c.reloaded.registers = c.registers := by
  have hv : c.reloaded.refreshValue = c.refreshValue := refreshValue_of_written_now rfl
  simp only [registers, reloaded_regs, hv]

/-- The reloaded CPU shows a host everything as before: every register, R at its live value
included, the save state, the status and HALT line, the pending request, the odometer, the
fetch map and the fast RAM. -/
theorem reloaded_observe (c : Cpu) :
    (∀ reg, c.reloaded.get reg = c.get reg) ∧ c.reloaded.snapshot = c.snapshot ∧
      c.reloaded.regs.status = c.regs.status ∧ c.reloaded.regs.halted = c.regs.halted ∧
      c.reloaded.interruptState = c.interruptState ∧ c.reloaded.odometer = c.odometer ∧
      c.reloaded.fetch = c.fetch ∧ c.reloaded.fastRam = c.fastRam := by
  refine ⟨fun reg => by rw [get_eq_registers, get_eq_registers, reloaded_registers], ?_,
    rfl, rfl, rfl, rfl, rfl, rfl⟩
  simp only [snapshot, reloaded_registers]
  rfl

/-- Read at any later cycle, the reloaded CPU's R is the saved one's, as long as R's count is
by fetches or the cycles since its last write make up whole fours. -/
theorem liveR_reloaded (hw : c.rWrittenAt ≤ c.refreshClock)
    (ha : c.config.refresh = .perFetch ∨ (c.refreshClock - c.rWrittenAt) % 4 = 0) (n : Nat) :
    c.reloaded.liveR n = c.liveR n := by
  cases hp : c.config.refresh
  case perFetch =>
    rw [liveR_of_perFetch (c := c.reloaded) hp, liveR_of_perFetch hp]
    simp only [reloaded_regs, registers, refreshValue, hp]
  case cycleDerived =>
    -- the reloaded CPU stores what R read at the load and counts from there
    have ha' : (c.refreshClock - c.rWrittenAt) % 4 = 0 := ha.resolve_left (by rw [hp]; decide)
    have hr : c.reloaded.regs.r = c.liveR 0 := rfl
    obtain ⟨hh, hl⟩ := liveR_cycleDerived hp n
    obtain ⟨hh₀, hl₀⟩ := liveR_cycleDerived hp 0
    obtain ⟨hh₁, hl₁⟩ := liveR_cycleDerived (c := c.reloaded) hp n
    rw [hr, reloaded_refreshClock, reloaded_rWrittenAt] at hl₁
    rw [hr, hh₀] at hh₁
    refine UInt8.eq_of_high_low (hh₁.trans hh.symm) ?_
    rw [hl₁, hl]
    omega

/-- Loading a save state whose status tells its HALT line into a CPU that is idle or halted
gives that CPU the save state's registers, R written now and no EI shadow. -/
theorem restore_of_settled {s : Registers} (hc : c.regs.status = .idle ∨ c.regs.status = .halted)
    (hs : s.status = if s.halted then .halted else .idle) :
    c.restore s = .ok { c with regs := s, rWrittenAt := c.refreshClock, eiShadow := false } := by
  have hr : c.regs.status ≠ .running := by rcases hc with h | h <;> rw [h] <;> decide
  have hf : c.regs.status ≠ .faulted := by rcases hc with h | h <;> rw [h] <;> decide
  simp only [restore, hr, hf, if_false, settle, ← hs]

/-- A CPU's live registers, restored, make it show those registers: the save state and every
register read back as they were saved. -/
theorem restore_shows {s : Registers} {c' : Cpu}
    (h : c' = { c with regs := s, rWrittenAt := c.refreshClock, eiShadow := false })
    (hr : s.status ≠ .running) :
    c'.snapshot = .ok s ∧ ∀ reg, c'.get reg = s.get reg := by
  subst h
  have hreg : ({ c with regs := s, rWrittenAt := c.refreshClock, eiShadow := false } : Cpu).registers
      = s := by
    rw [registers, refreshValue_of_written_now rfl]
  refine ⟨?_, fun reg => by rw [get_eq_registers, hreg]⟩
  simp only [snapshot, hr, if_false, hreg]

end Cpu

namespace Machine

variable {β : Type} {m : Machine β}

theorem Coherent.status_eq (hm : m.Coherent) (hs : m.cpu.regs.status = .idle ∨ m.cpu.regs.status = .halted) :
    m.cpu.regs.status = if m.cpu.regs.halted then .halted else .idle := by
  cases hh : m.cpu.regs.halted
  · rcases hs with hs | hs
    · exact hs
    · exact absurd ((hm (.inr hs)).mp hs) (by rw [hh]; decide)
  · exact (hm hs).mpr hh

/-- The round trip of a save state: on a machine whose status tells its HALT line, a save
state taken when not running loads back as `Cpu.reloaded`. -/
theorem restore_registers (hm : m.Coherent) (hr : m.cpu.regs.status ≠ .running) :
    m.cpu.restore m.cpu.registers = .ok m.cpu.reloaded := by
  rcases RunStatus.settled_or_running_or_faulted m.cpu.regs.status with hs | hs | hs
  · exact Cpu.restore_of_settled hs (hm.status_eq hs)
  · exact absurd hs hr
  · -- a faulted CPU keeps the saved status, which is its own
    have hreg : { m.cpu.registers with status := .faulted } = m.cpu.registers := by
      rw [← hs]
      rfl
    simp only [Cpu.restore, hs, reduceCtorEq, if_false, if_true, hreg]
    rfl

/-- With the EI shadow clear, and R counted by fetches or whole fours of cycles since its last
write, the reloaded machine is a twin of the saved one. -/
theorem reloaded_twin (he : m.cpu.eiShadow = false) (hw : m.RWrittenPast)
    (ha : m.cpu.config.refresh = .perFetch ∨ (m.cpu.refreshClock - m.cpu.rWrittenAt) % 4 = 0) :
    m.Twin { m with cpu := m.cpu.reloaded } := by
  refine ⟨m.cpu.refreshValue, m.cpu.refreshClock, ?_, fun n => (Cpu.liveR_reloaded hw ha n).symm⟩
  obtain ⟨c, bus⟩ := m
  cases c
  simp only at he
  subst he
  rfl

end Machine

/-! ## R is written in the past -/

/-- A freshly created CPU has its refresh clock and the time of R's last write at zero. -/
theorem Cpu.create_refreshClock {config : Config} {c : Cpu} (h : Cpu.create config = .ok c) :
    c.refreshClock = 0 ∧ c.rWrittenAt = 0 := by
  rw [Cpu.create_eq h]
  exact ⟨rfl, rfl⟩

theorem Cpu.set_rWrittenAt {c c' : Cpu} {reg : Reg} {v : UInt16} (h : c.set reg v = .ok c') :
    c'.rWrittenAt = c.rWrittenAt ∨ c'.rWrittenAt = c.refreshClock := by
  obtain ⟨-, -, rfl⟩ := Cpu.set_eq_ok_iff.mp h
  -- only a write of R stamps it
  split
  · exact .inr rfl
  · exact .inl rfl

theorem Cpu.restore_rWrittenAt {c c' : Cpu} {s : Registers} (h : c.restore s = .ok c') :
    c'.rWrittenAt = c.refreshClock ∧ c'.refreshClock = c.refreshClock := by
  obtain ⟨-, rfl⟩ := Cpu.restore_eq_ok_iff.mp h
  exact ⟨rfl, rfl⟩

theorem Machine.idle_rWrittenPast {β : Type} {x : Machine β} (h : x.RWrittenPast) (n : Nat) :
    (x.idle n).RWrittenPast := by
  simp only [Machine.RWrittenPast, Machine.idle, Cpu.refreshBy_eq] at h ⊢
  omega

namespace Exec

variable {β : Type} [Bus β]

/-- LD R,A writes R at the clock the step starts from; every other step keeps the time R was
written. Either way the clock only moves forward. -/
theorem executeOne_rWrittenPast {x : Machine β} (h : x.RWrittenPast) :
    (after ((executeOne : Exec β StepResult) x)).RWrittenPast := by
  obtain ⟨d, hd⟩ := executeOne_refreshClock x
  unfold Machine.RWrittenPast at h ⊢
  by_cases hR : x.control.stepKind = .instruction ∧ x.cpu.nextInstr.instr = .ldRA
  · obtain ⟨ht, hh⟩ := Control.stepKind_eq_instruction hR.1
    have hf : x.fetched.cpu.refreshClock = x.cpu.refreshClock := by
      simp only [Machine.fetched, Cpu.refreshBy_eq]
    have hw : (after ((executeOne : Exec β StepResult) x)).cpu.rWrittenAt =
        x.fetched.cpu.refreshClock := by
      rw [executeOne_of_instruction ht hh, hR.2]
      rfl
    omega
  · have hw := (Machine.holds_of_withRefreshAt (executeOne_holdsR hR)).2.2
    omega

theorem step_rWrittenPast (r : Int64) {m : Machine β} (h : m.RWrittenPast) :
    (after ((Cpu.step r : Exec β (StepResult × Int64)) m)).RWrittenPast :=
  step_invariant (fun _ h => executeOne_rWrittenPast h) (fun _ _ h => h) r h

theorem run_rWrittenPast (b : UInt32) {m : Machine β} (h : m.RWrittenPast) :
    (after ((Cpu.run b : Exec β RunOutcome) m)).RWrittenPast :=
  run_invariant
    (runLoop_invariant (fun _ h => executeOne_rWrittenPast h) (fun _ n h => Machine.idle_rWrittenPast h n))
    (fun _ _ h => h) (fun _ _ h => h) b h

end Exec

namespace HostOp

variable {β : Type} [Bus β]

open Exec

/-- Every call writes R, if at all, at the clock it finds, and moves the clock only forward
(a power-on reset sets both to zero). -/
theorem exec_rWrittenPast (op : HostOp β) {m : Machine β} (h : m.RWrittenPast) :
    (after (op.exec m)).RWrittenPast := by
  cases op with
  | run b =>
    rw [exec, after_map]
    exact run_rWrittenPast b h
  | step r =>
    rw [exec, after_map]
    exact step_rWrittenPast r h
  | addCycles n => exact Nat.le_add_right_of_le h
  | hardReset => exact Nat.le_refl 0
  | softReset => exact Nat.le_refl _
  | clearFault =>
    rw [after_clearFault]
    split
    · exact h
    · exact h
  | set reg v =>
    refine after_attempt (f := (·.set reg v)) h fun c hc => ?_
    show c.rWrittenAt ≤ c.refreshClock
    rw [Cpu.set_refreshClock hc]
    rcases Cpu.set_rWrittenAt hc with hw | hw
    · rw [hw]
      exact h
    · rw [hw]
  | restore snap =>
    refine after_attempt (f := (·.restore snap)) h fun c hc => ?_
    obtain ⟨hw, hk⟩ := Cpu.restore_rWrittenAt hc
    show c.rWrittenAt ≤ c.refreshClock
    rw [hw, hk]
  | mapFetch first last region offset =>
    refine after_attempt (f := (·.mapFetch first last region offset)) h fun c hc => ?_
    rw [Cpu.mapFetch_ok hc]
    exact h
  | unmapFetch first last =>
    refine after_attempt (f := (·.unmapFetch first last)) h fun c hc => ?_
    rw [Cpu.unmapFetch_ok hc]
    exact h
  | clearOdometer | raiseNmi | raiseInt v | clearInt | addRegion data | modifyRegion id f
  | useBus f => exact h

end HostOp

variable {β : Type} [Bus β]

/-- On every machine a host reaches, R was last written no later than the refresh clock. -/
theorem Reachable.rWrittenPast {m : Machine β} (h : Reachable m) : m.RWrittenPast := by
  induction h with
  | create bus hc =>
    obtain ⟨hk, hw⟩ := Cpu.create_refreshClock hc
    show _ ≤ _
    rw [hk, hw]
  | call op _ ih => exact HostOp.exec_rWrittenPast op ih

/-- A session from a machine a host reaches ends on one. -/
theorem Reachable.replay {m : Machine β} (h : Reachable m) (ops : List (HostOp β)) :
    Reachable (HostOp.replay ops m).2 := by
  induction ops generalizing m with
  | nil => exact h
  | cons op ops ih => exact ih (.call op h)

/-! ## Save states resume -/

/-- A save state taken from a machine a host reaches, at any time it is not running, loads
back and shows a host everything as before. When the EI shadow is clear and R's count has no
cycles pending towards its next step, the two machines go on alike: every later session of
calls gets the same answers from both and leaves machines that read alike. And such a save
state of a machine that is not faulted, loaded into any idle or halted CPU, reads there just as
it was saved. -/
theorem saveState_resumes {m : Machine β} (hm : Reachable m) (hr : m.cpu.regs.status ≠ .running) :
    m.cpu.snapshot = .ok m.cpu.registers ∧ m.cpu.restore m.cpu.registers = .ok m.cpu.reloaded ∧
      ((∀ reg, m.cpu.reloaded.get reg = m.cpu.get reg) ∧ m.cpu.reloaded.snapshot = m.cpu.snapshot ∧
        m.cpu.reloaded.regs.status = m.cpu.regs.status ∧
        m.cpu.reloaded.regs.halted = m.cpu.regs.halted ∧
        m.cpu.reloaded.interruptState = m.cpu.interruptState ∧
        m.cpu.reloaded.odometer = m.cpu.odometer ∧ m.cpu.reloaded.fetch = m.cpu.fetch ∧
        m.cpu.reloaded.fastRam = m.cpu.fastRam) ∧
      (m.cpu.eiShadow = false →
        (m.cpu.config.refresh = .perFetch ∨ (m.cpu.refreshClock - m.cpu.rWrittenAt) % 4 = 0) →
        ∀ ops : List (HostOp β),
          (HostOp.replay ops { m with cpu := m.cpu.reloaded }).1 = (HostOp.replay ops m).1 ∧
          (HostOp.replay ops m).2.Twin (HostOp.replay ops { m with cpu := m.cpu.reloaded }).2 ∧
          ∀ reg, (HostOp.replay ops { m with cpu := m.cpu.reloaded }).2.cpu.get reg =
            (HostOp.replay ops m).2.cpu.get reg) ∧
      (m.cpu.regs.status ≠ .faulted → ∀ s, m.cpu.snapshot = .ok s →
        ∀ c : Cpu, c.regs.status = .idle ∨ c.regs.status = .halted →
          ∃ c', c.restore s = .ok c' ∧ c'.snapshot = .ok s ∧ ∀ reg, c'.get reg = s.get reg) := by
  have hsnap : m.cpu.snapshot = .ok m.cpu.registers := by
    simp only [Cpu.snapshot, hr, if_false]
  refine ⟨hsnap, Machine.restore_registers hm.coherent hr, Cpu.reloaded_observe m.cpu, ?_, ?_⟩
  · intro he ha ops
    obtain ⟨hans, htwin⟩ := HostOp.replay_twin ops (Machine.reloaded_twin he hm.rWrittenPast ha)
    exact ⟨hans, htwin, htwin.observe.1⟩
  · intro hf s hs c hc
    -- the save state is the live register file of a settled machine, which tells its HALT line
    obtain rfl : m.cpu.registers = s := Except.ok.inj (hsnap.symm.trans hs)
    have hst : m.cpu.regs.status = .idle ∨ m.cpu.regs.status = .halted := by
      rcases RunStatus.settled_or_running_or_faulted m.cpu.regs.status with h | h | h
      · exact h
      · exact absurd h hr
      · exact absurd h hf
    exact ⟨_, Cpu.restore_of_settled hc (hm.coherent.status_eq hst), Cpu.restore_shows rfl hr⟩

/-- A machine just created in \x60cycleDerived\x60 mode, with an empty bus. -/
def Machine.createdCycleDerived : Machine SimpleBus :=
  ⟨{ regs := {}, fetch := FetchMap.empty 0x76, fastRam := none, odometer := {},
     config := { refresh := .cycleDerived }, eiShadow := false, refreshClock := 0,
     rWrittenAt := 0 }, SimpleBus.empty⟩

theorem Machine.createdCycleDerived_reachable : Reachable Machine.createdCycleDerived := by
  have hc : Cpu.create { refresh := .cycleDerived } = .ok Machine.createdCycleDerived.cpu := rfl
  exact .create SimpleBus.empty hc

/-- A CPU saved and loaded back as soon as it is created goes on as if it never was: a
session of steps around a non-maskable interrupt gets the same answers. -/
theorem saveState_resumes_created :
    Machine.createdCycleDerived.cpu.regs.status ≠ .running ∧
      (HostOp.replay [.step 4, .raiseNmi, .step 4]
        { Machine.createdCycleDerived with cpu := Machine.createdCycleDerived.cpu.reloaded }).1 =
        (HostOp.replay [.step 4, .raiseNmi, .step 4] Machine.createdCycleDerived).1 := by
  have hr : Machine.createdCycleDerived.cpu.regs.status ≠ .running := by decide
  exact ⟨hr, ((saveState_resumes Machine.createdCycleDerived_reachable hr).2.2.2.1 rfl
    (.inr rfl) _).1⟩

/-- In \x60cycleDerived\x60 mode a save state drops the cycles since R was last written that have not
yet made up a whole four. Seven cycles after power-on, LD A,5 done, R reads 1; loaded back, R
is written with 1 there, and after a second LD A,5 it reads 2, where the machine never saved
reads 3. -/
theorem saveState_restarts_refreshCount :
    ¬ ∀ m : Machine SimpleBus, Reachable m → m.cpu.regs.status ≠ .running →
      ∀ c, m.cpu.restore m.cpu.registers = .ok c →
        (Exec.after ((HostOp.step 10).exec { m with cpu := c })).cpu.get .r =
          (Exec.after ((HostOp.step 10).exec m)).cpu.get .r := by
  intro H
  have hm := Machine.createdCycleDerived_reachable.replay
    [.addRegion ⟨#[0x3E, 0x05, 0x3E, 0x05]⟩, .mapFetch 0 0 ⟨0⟩ 0, .step 10]
  have hr : (HostOp.replay [.addRegion ⟨#[0x3E, 0x05, 0x3E, 0x05]⟩, .mapFetch 0 0 ⟨0⟩ 0, .step 10]
      Machine.createdCycleDerived).2.cpu.regs.status ≠ .running := by
    decide +kernel
  have h := H _ hm hr _ (Machine.restore_registers hm.coherent hr)
  revert h
  decide +kernel

end Z80
