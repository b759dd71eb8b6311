import Z80.Proofs.RunLoop

/-!
# Cycle accounting over a session

A host drives the CPU through a session of calls: runs and single steps, stall charges,
odometer clears, resets, register writes, save-state loads, interrupt lines, fetch-map
changes and its own accesses to the bus (`HostOp`). Reads change nothing and are left
out. `Reach m l` says that a host reaches machine `m` from a freshly created CPU by
calls none of which ran into a refused bus read, where `l` is the `Ledger` of those
calls: the budgets of the runs that finished and the cycles they returned, the stall
cycles charged, and the cycles counted since the count was last cleared. A hard reset
starts a new ledger, a clear of the odometer a new count.

`session_accounting` proves what the odometer keeps over every such session:

* the runs never execute fewer cycles than their budgets less the stalls, and the debt,
  a 64-bit word, is the stall cycles plus the cycles executed by runs, less their
  budgets, modulo 2^64;
* the odometer's count is the ledger's count modulo 2^64;
* a single step never changes the debt;
* a run whose budget the debt covers executes nothing: it lowers the debt by the budget
  and sets the remainder to zero (`run_of_le`). Any other run executes the steps of the
  host's loop over the budget less the debt (`StepLoop`), and the debt it leaves is less
  than the cost of the last of them, less than four when that was a halted idle.

The invariant behind it is `Books`: between calls the status is settled (it tells the
HALT line) and the odometer agrees with the ledger. Each kind of call keeps it
(`Books.call`), and a session is a sequence of calls.
-/

namespace Z80

/-! ## Host calls -/

/-- What a host call returns. -/
inductive Reply where
  | done
  | ran (outcome : RunOutcome)
  | stepped (step : StepResult) (budget : Int64)
  | region (id : RegionId)

/-- A call a host makes on the CPU and its bus. -/
inductive HostOp (β : Type) where
  | run (budget : UInt32)
  | step (budget : Int64)
  | addCycles (cycles : UInt32)
  | clearOdometer
  | hardReset
  | softReset
  | clearFault
  | set (reg : Reg) (v : UInt16)
  | restore (snap : Registers)
  | raiseNmi
  | raiseInt (vector : UInt8)
  | clearInt
  | addRegion (data : ByteArray)
  | mapFetch (first last : UInt8) (region : RegionId) (offset : Nat)
  | unmapFetch (first last : UInt8)
  /-- The host's edit of a region's bytes through its mutable slice. -/
  | modifyRegion (id : RegionId) (edit : FetchMap.SliceEdit)
  /-- The host's own use of its bus: loading, poking, setting ports. -/
  | useBus (f : β → β)

/-- The machine a call leaves, finished or stopped. -/
def Exec.after {β α : Type} : EStateM.Result Abort (Machine β) α → Machine β
  | .ok _ m => m
  | .error _ m => m

namespace HostOp

variable {β : Type} [Bus β]

/-- A call that changes the CPU and cannot be refused. -/
def change (f : Cpu → Cpu) : Exec β Reply := fun m => .ok .done { m with cpu := f m.cpu }

/-- A call that changes the CPU, or is refused and changes nothing. -/
def attempt (f : Cpu → Except Error Cpu) : Exec β Reply := fun m =>
  match f m.cpu with
  | .ok c => .ok .done { m with cpu := c }
  | .error e => .error (.refused e) m

omit [Bus β] in
/-- What holds before a call that may be refused, and of every machine the call can make,
holds after it. -/
theorem after_attempt {P : Machine β → Prop} {f : Cpu → Except Error Cpu} {m : Machine β}
    (hm : P m) (hok : ∀ c, f m.cpu = .ok c → P { m with cpu := c }) :
    P (Exec.after (attempt f m)) := by
  unfold attempt
  cases hc : f m.cpu with
  | ok c => exact hok c hc
  | error e => exact hm

/-- What a call does. -/
def exec : HostOp β → Exec β Reply
  | .run budget => .ran <$> Cpu.run budget
  | .step budget => (fun p => .stepped p.1 p.2) <$> Cpu.step budget
  | .addCycles n => change (·.addCycles n)
  | .clearOdometer => change Cpu.clearOdometer
  | .hardReset => change Cpu.hardReset
  | .softReset => change Cpu.softReset
  | .clearFault => change Cpu.clearFault
  | .set reg v => attempt (·.set reg v)
  | .restore snap => attempt (·.restore snap)
  | .raiseNmi => change Cpu.raiseNmi
  | .raiseInt v => change (·.raiseInt v)
  | .clearInt => change Cpu.clearInt
  | .addRegion data => fun m => .ok (.region (m.cpu.addRegion data).2)
      { m with cpu := (m.cpu.addRegion data).1 }
  | .mapFetch first last region offset => attempt (·.mapFetch first last region offset)
  | .unmapFetch first last => attempt (·.unmapFetch first last)
  | .modifyRegion id edit => change (·.modifyRegion id edit.apply)
  | .useBus f => fun m => .ok .done { m with bus := f m.bus }

end HostOp

/-! ## The ledger -/

/-- What a host has handed out and seen counted. -/
structure Ledger where
  /-- The budgets of the runs that finished. -/
  budgets : Nat := 0
  /-- The cycles those runs returned. -/
  executed : Nat := 0
  /-- The stall cycles charged. -/
  charged : Nat := 0
  /-- The cycles returned by runs and steps and charged, since the count was cleared. -/
  counted : Nat := 0

/-- The ledger after call `op` with result `r`. -/
def Ledger.record {β : Type} (l : Ledger) (op : HostOp β)
    (r : EStateM.Result Abort (Machine β) Reply) : Ledger :=
  match op with
  | .run budget =>
    match r with
    | .ok (.ran o) _ =>
      { l with budgets := l.budgets + budget.toNat, executed := l.executed + o.cycles,
               counted := l.counted + o.cycles }
    | _ => l
  | .step _ =>
    match r with
    | .ok (.stepped s _) _ => { l with counted := l.counted + s.cycles }
    | _ => l
  | .addCycles n => { l with charged := l.charged + n.toNat, counted := l.counted + n.toNat }
  | .clearOdometer => { l with counted := 0 }
  | .hardReset => {}
  | _ => l

/-- The machines a host reaches from a freshly created CPU by calls none of which ran
into a refused bus read, with the ledger of those calls. -/
inductive Reach {β : Type} [Bus β] : Machine β → Ledger → Prop where
  | create {config : Config} {c : Cpu} (bus : β) :
      Cpu.create config = .ok c → Reach ⟨c, bus⟩ {}
  | call {m : Machine β} {l : Ledger} (op : HostOp β) :
      Reach m l → (∀ a m', op.exec m ≠ .error (.busFault a) m') →
      Reach (Exec.after (op.exec m)) (l.record op (op.exec m))

/-! ## Settled machines -/

namespace Machine

variable {β : Type}

theorem Settled.status_eq {m : Machine β} (h : m.Settled) :
    m.cpu.regs.status = m.settled.cpu.regs.status := by
  rw [h]

theorem settled_of_status {m : Machine β} (h : m.cpu.regs.status = m.settled.cpu.regs.status) :
    m.Settled := by
  unfold Settled
  simp only [settled, Cpu.settle] at h ⊢
  rw [← h]

/-- A machine with a settled machine's status and HALT line is settled. -/
theorem Settled.of_regs {m m' : Machine β} (h : m.Settled)
    (hs : m'.cpu.regs.status = m.cpu.regs.status) (hh : m'.cpu.regs.halted = m.cpu.regs.halted) :
    m'.Settled := by
  apply settled_of_status
  rw [hs, h.status_eq]
  simp only [settled, Cpu.settle, hh]

theorem Settled.setBook {m : Machine β} (h : m.Settled) (d : UInt64) (r : Int64) :
    (m.setBook d r).Settled := by
  unfold Settled
  rw [settled_setBook, h]

end Machine

/-! ## Counting on the odometer -/

theorem Odometer.count_advance (o : Odometer) (n : Nat) :
    (o.advance n).total.count.toNat = (o.total.count.toNat + n) % 2 ^ 64 := by
  change (o.total.count + n.toUInt64).toNat = _
  rw [UInt64.toNat_add, Nat.toUInt64_eq, UInt64.toNat_ofNat', Nat.add_mod_mod]

theorem Odometer.count_charge (o : Odometer) (n : UInt32) :
    (o.charge n).total.count.toNat = (o.total.count.toNat + n.toNat) % 2 ^ 64 := by
  change (o.total.count + n.toUInt64).toNat = _
  rw [UInt64.toNat_add, UInt32.toNat_toUInt64]

/-- Stalls are owed modulo 2^64. -/
theorem Odometer.debt_charge (o : Odometer) (n : UInt32) :
    (o.charge n).debt.toNat = (o.debt.toNat + n.toNat) % 2 ^ 64 := by
  change (o.debt + n.toUInt64).toNat = _
  rw [UInt64.toNat_add, UInt32.toNat_toUInt64]

/-- A freshly created CPU is the power-on CPU of its configuration: only the fetch map and
the fast RAM depend on the window. -/
theorem Cpu.create_eq {config : Config} {c : Cpu} (h : Cpu.create config = .ok c) :
    c = { regs := {}, fetch := c.fetch, fastRam := c.fastRam, odometer := {}, config,
          eiShadow := false, refreshClock := 0, rWrittenAt := 0 } := by
  unfold Cpu.create at h
  split at h
  · cases h
    rfl
  · simp only [bind, Except.bind, pure, Except.pure] at h
    repeat' split at h
    all_goals first
      | (cases h; rfl)
      | cases h

/-- A freshly created CPU has power-on registers, a clear odometer and no EI shadow. -/
theorem Cpu.create_ok {config : Config} {c : Cpu} (h : Cpu.create config = .ok c) :
    c.regs = {} ∧ c.odometer = {} ∧ c.eiShadow = false := by
  rw [Cpu.create_eq h]
  exact ⟨rfl, rfl, rfl⟩

/-- The default configuration creates the power-on CPU with nothing mapped for fetches. -/
theorem Cpu.create_default :
    Cpu.create {} =
      .ok { regs := {}, fetch := FetchMap.empty 0x76, fastRam := none, odometer := {},
            config := {}, eiShadow := false, refreshClock := 0, rWrittenAt := 0 } :=
  rfl

/-- A host write of a register never touches the status or the HALT line. -/
theorem Registers.write_status (rs : Registers) (reg : Reg) (v : UInt16) :
    (rs.write reg v).status = rs.status ∧ (rs.write reg v).halted = rs.halted := by
  cases reg <;> exact ⟨rfl, rfl⟩

/-- A host write goes through exactly when the CPU is not running and the value fits; it writes
the register file and, for R, restarts R's count. -/
theorem Cpu.set_eq_ok_iff {c c' : Cpu} {reg : Reg} {v : UInt16} :
    c.set reg v = .ok c' ↔ c.regs.status ≠ .running ∧ v ≤ reg.maxValue ∧
      c' = { c with regs := c.regs.write reg v,
                    rWrittenAt := if reg = .r then c.refreshClock else c.rWrittenAt } := by
  simp only [Cpu.set, Registers.set, bind, Except.bind]
  by_cases hs : c.regs.status = .running
  · simp [hs]
  · by_cases hv : reg.maxValue < v
    · simp [hs, hv, UInt16.not_le.mpr hv]
    · simp [hs, hv, UInt16.not_lt.mp hv, pure, Except.pure, eq_comm]

theorem Cpu.set_ok {c c' : Cpu} {reg : Reg} {v : UInt16} (h : c.set reg v = .ok c') :
    c'.regs.status = c.regs.status ∧ c'.regs.halted = c.regs.halted ∧ c'.odometer = c.odometer := by
  obtain ⟨-, -, rfl⟩ := Cpu.set_eq_ok_iff.mp h
  exact ⟨(Registers.write_status _ _ _).1, (Registers.write_status _ _ _).2, rfl⟩

/-- A save-state load goes through exactly when the CPU is not running. It loads the save
state's registers under the CPU's own status, settled to the loaded HALT line unless the CPU
is faulted, restarts R's count and clears the EI shadow. -/
theorem Cpu.restore_eq_ok_iff {c c' : Cpu} {snap : Registers} :
    c.restore snap = .ok c' ↔ c.regs.status ≠ .running ∧
      c' = { c with regs := { snap with status := if c.regs.status = .faulted then .faulted
                                                  else if snap.halted then .halted else .idle },
                    rWrittenAt := c.refreshClock, eiShadow := false } := by
  simp only [Cpu.restore]
  by_cases hs : c.regs.status = .running
  · simp [hs]
  · by_cases hf : c.regs.status = .faulted
    · simp [hf, eq_comm]
    · simp only [hs, hf, if_false, Cpu.settle, Except.ok.injEq, ne_eq, not_false_eq_true,
        true_and]
      exact eq_comm

/-- A fetch-map change goes through exactly when the fetch map's own change does, and then
touches the fetch map only; it is refused with the fetch map's error. -/
theorem Cpu.mapFetch_eq_ok_iff {c c' : Cpu} {first last : UInt8} {region : RegionId}
    {offset : Nat} :
    c.mapFetch first last region offset = .ok c' ↔
      ∃ f, c.fetch.map first last region offset = .ok f ∧ c' = { c with fetch := f } := by
  simp only [Cpu.mapFetch, bind, Except.bind, pure, Except.pure]
  cases c.fetch.map first last region offset <;> simp [eq_comm]

theorem Cpu.mapFetch_eq_error_iff {c : Cpu} {first last : UInt8} {region : RegionId}
    {offset : Nat} {e : Error} :
    c.mapFetch first last region offset = .error e ↔
      c.fetch.map first last region offset = .error e := by
  simp only [Cpu.mapFetch, bind, Except.bind, pure, Except.pure]
  cases c.fetch.map first last region offset <;> simp

theorem Cpu.unmapFetch_eq_ok_iff {c c' : Cpu} {first last : UInt8} :
    c.unmapFetch first last = .ok c' ↔
      ∃ f, c.fetch.unmap first last = .ok f ∧ c' = { c with fetch := f } := by
  simp only [Cpu.unmapFetch, bind, Except.bind, pure, Except.pure]
  cases c.fetch.unmap first last <;> simp [eq_comm]

theorem Cpu.unmapFetch_eq_error_iff {c : Cpu} {first last : UInt8} {e : Error} :
    c.unmapFetch first last = .error e ↔ c.fetch.unmap first last = .error e := by
  simp only [Cpu.unmapFetch, bind, Except.bind, pure, Except.pure]
  cases c.fetch.unmap first last <;> simp

theorem Cpu.mapFetch_ok {c c' : Cpu} {first last : UInt8} {region : RegionId} {offset : Nat}
    (h : c.mapFetch first last region offset = .ok c') : c' = { c with fetch := c'.fetch } := by
  obtain ⟨f, -, rfl⟩ := Cpu.mapFetch_eq_ok_iff.mp h
  rfl

theorem Cpu.unmapFetch_ok {c c' : Cpu} {first last : UInt8}
    (h : c.unmapFetch first last = .ok c') : c' = { c with fetch := c'.fetch } := by
  obtain ⟨f, -, rfl⟩ := Cpu.unmapFetch_eq_ok_iff.mp h
  rfl

/-! ## The invariant of a session -/

/-- Between the calls of a session the status is settled and the odometer agrees with
the ledger: the budgets never exceed the stalls plus the cycles executed by runs, the
debt is the difference modulo 2^64, and the count is the ledger's count modulo 2^64. -/
structure Books {β : Type} (m : Machine β) (l : Ledger) : Prop where
  settled : m.Settled
  covered : l.budgets ≤ l.charged + l.executed
  debt : m.cpu.odometer.debt.toNat = (l.charged + l.executed - l.budgets) % 2 ^ 64
  total : m.cpu.odometer.total.count.toNat = l.counted % 2 ^ 64

namespace Books

open Exec

variable {β : Type} [Bus β] {m : Machine β} {l : Ledger}

omit [Bus β] in
/-- A call that keeps the status, the HALT line and the odometer keeps the books. -/
theorem frame (h : Books m l) {m' : Machine β} (hs : m'.cpu.regs.status = m.cpu.regs.status)
    (hh : m'.cpu.regs.halted = m.cpu.regs.halted) (ho : m'.cpu.odometer = m.cpu.odometer) :
    Books m' l :=
  ⟨h.settled.of_regs hs hh, h.covered, ho ▸ h.debt, ho ▸ h.total⟩

omit [Bus β] in
/-- A freshly created CPU has empty books. -/
theorem create {config : Config} {c : Cpu} (hc : Cpu.create config = .ok c) (bus : β) :
    Books ⟨c, bus⟩ {} := by
  obtain ⟨hr, ho, -⟩ := Cpu.create_ok hc
  refine ⟨Machine.settled_of_status ?_, le_refl 0, ?_, ?_⟩ <;>
    simp [Machine.settled, Cpu.settle, hr, ho, Ticks.zero]

/-- Every call of a session that does not run into a refused bus read keeps the books. -/
theorem call (h : Books m l) (op : HostOp β)
    (hf : ∀ a m', op.exec m ≠ .error (.busFault a) m') :
    Books (Exec.after (op.exec m)) (l.record op (op.exec m)) := by
  have hst := h.settled.stable
  cases op with
  | run b =>
    rcases hr : (Cpu.run b : Exec β RunOutcome) m with ⟨o, m'⟩ | ⟨e, m'⟩
    · simp only [HostOp.exec, map_apply, hr, elim_ok, Exec.after, Ledger.record]
      rcases run_ok h.settled hr with ⟨hb, rfl, rfl⟩ | ⟨hd, steps, m'', r, hloop, rfl, rfl⟩
      · -- the debt covered the budget: only the debt moved, and it cannot wrap
        have hb' := Odometer.budget_le_iff.mp hb
        have hdebt := h.debt
        have hcov := h.covered
        have hsub : (m.cpu.odometer.debt - b.toUInt64).toNat = m.cpu.odometer.debt.toNat - b.toNat := by
          rw [UInt64.toNat_sub_of_le _ _ hb, UInt32.toNat_toUInt64]
        refine ⟨h.settled.setBook _ _, ?_, ?_, ?_⟩
        · simp only [RunOutcome.cycles]
          omega
        · simp only [setBook_cpu, RunOutcome.cycles, hsub]
          omega
        · simpa [setBook_cpu, RunOutcome.cycles] using h.total
      · -- the steps of the host's loop over the budget less the debt, their overshoot
        -- turned into debt
        have hbudget := hloop.budget_eq
        have hneg := Int64.nonpos_iff.mp hloop.final_nonpos
        have hmin := r.le_toInt
        have hA := Odometer.toInt_allowance hd
        have hd' := Odometer.lt_budget_iff.mp hd
        have hdebt := h.debt
        have hcov := h.covered
        refine ⟨(hloop.settled h.settled).setBook _ _, ?_, ?_, ?_⟩
        · simp only [RunOutcome.cycles]
          omega
        · simp only [setBook_cpu, RunOutcome.cycles, Odometer.toNat_overshoot]
          omega
        · simp only [setBook_cpu, RunOutcome.cycles]
          rw [hloop.odometer_eq, Odometer.count_advance, h.total, Nat.mod_add_mod]
    · obtain ⟨a, rfl⟩ := run_error h.settled hr
      exact absurd (by simp [HostOp.exec, map_apply, hr]) (hf a m')
  | step r =>
    rcases hs : (Cpu.step r : Exec β (StepResult × Int64)) m with ⟨⟨s, r'⟩, m'⟩ | ⟨e, m'⟩
    · simp only [HostOp.exec, map_apply, hs, elim_ok, Exec.after, Ledger.record]
      obtain ⟨-, ho, hset, -⟩ := step_ok hs
      refine ⟨hset, h.covered, ?_, ?_⟩
      · rw [ho]
        exact h.debt
      · rw [ho, Odometer.count_advance, h.total, Nat.mod_add_mod]
    · obtain ⟨a, rfl⟩ := step_error hst hs
      exact absurd (by simp [HostOp.exec, map_apply, hs]) (hf a m')
  | addCycles n =>
    have hdebt := h.debt
    have hcov := h.covered
    refine ⟨h.settled.of_regs rfl rfl, ?_, ?_, ?_⟩
    · simp only [Ledger.record]
      omega
    · simp only [HostOp.exec, HostOp.change, Exec.after, Ledger.record, Cpu.addCycles,
        Odometer.debt_charge]
      omega
    · simp only [HostOp.exec, HostOp.change, Exec.after, Ledger.record, Cpu.addCycles]
      rw [Odometer.count_charge, h.total, Nat.mod_add_mod]
  | clearOdometer =>
    refine ⟨h.settled.of_regs rfl rfl, h.covered, h.debt, ?_⟩
    simp [HostOp.exec, HostOp.change, Exec.after, Ledger.record, Cpu.clearOdometer,
      Odometer.clear, Ticks.zero]
  | hardReset =>
    refine ⟨Machine.settled_of_status ?_, le_refl 0, ?_, ?_⟩ <;>
      simp [HostOp.exec, HostOp.change, Exec.after, Ledger.record, Cpu.hardReset,
        Machine.settled, Cpu.settle, Ticks.zero]
  | softReset =>
    -- the reset clears the HALT line, and a settled CPU is not faulted
    refine ⟨Machine.settled_of_status ?_, h.covered, h.debt, h.total⟩
    rcases hst with hs | hs <;>
      simp [HostOp.exec, HostOp.change, Exec.after, Cpu.softReset, Registers.softReset,
        Machine.settled, Cpu.settle, hs]
  | clearFault =>
    have hc : m.cpu.clearFault = m.cpu := by
      rcases hst with hs | hs <;> simp [Cpu.clearFault, hs]
    have hm : Exec.after ((HostOp.clearFault : HostOp β).exec m) = m := by
      simp [HostOp.exec, HostOp.change, Exec.after, hc]
    rw [hm]
    exact h
  | set reg v =>
    show Books (Exec.after (HostOp.attempt (·.set reg v) m)) l
    apply HostOp.after_attempt (P := fun x => Books x l) h
    intro c hc
    obtain ⟨hs, hh, ho⟩ := Cpu.set_ok hc
    exact h.frame hs hh ho
  | restore snap =>
    -- a settled CPU is neither running nor faulted, so the save state is loaded and settled
    show Books (Exec.after (HostOp.attempt (·.restore snap) m)) l
    apply HostOp.after_attempt (P := fun x => Books x l) h
    intro c hc
    obtain ⟨-, rfl⟩ := Cpu.restore_eq_ok_iff.mp hc
    rcases hst with hs | hs <;> simp only [hs, reduceCtorEq, if_false] <;>
      exact ⟨rfl, h.covered, h.debt, h.total⟩
  | raiseNmi => exact h.frame rfl rfl rfl
  | raiseInt v => exact h.frame rfl rfl rfl
  | clearInt => exact h.frame rfl rfl rfl
  | addRegion data => exact h.frame rfl rfl rfl
  | mapFetch first last region offset =>
    show Books (Exec.after (HostOp.attempt (·.mapFetch first last region offset) m)) l
    apply HostOp.after_attempt (P := fun x => Books x l) h
    intro c hc
    rw [Cpu.mapFetch_ok hc]
    exact h.frame rfl rfl rfl
  | unmapFetch first last =>
    show Books (Exec.after (HostOp.attempt (·.unmapFetch first last) m)) l
    apply HostOp.after_attempt (P := fun x => Books x l) h
    intro c hc
    rw [Cpu.unmapFetch_ok hc]
    exact h.frame rfl rfl rfl
  | modifyRegion id edit => exact h.frame rfl rfl rfl
  | useBus f => exact h.frame rfl rfl rfl

/-- Every machine of a session keeps the books. -/
theorem of_reach {m : Machine β} {l : Ledger} (h : Reach m l) : Books m l := by
  induction h with
  | create bus hc => exact create hc bus
  | call op _ hf ih => exact ih.call op hf

end Books

/-! ## Accounting over a session -/

/-- What the odometer keeps at a machine `m` of a session with ledger `l`. -/
structure Accounting {β : Type} [Bus β] (m : Machine β) (l : Ledger) : Prop where
  /-- The debt, a 64-bit word, is the stall cycles plus the cycles executed by runs, less
  their budgets, modulo 2^64. -/
  debt_eq : m.cpu.odometer.debt.toNat = (l.charged + l.executed - l.budgets) % 2 ^ 64
  /-- The runs never execute fewer cycles than their budgets less the stalls. -/
  budgets_le : l.budgets ≤ l.charged + l.executed
  /-- The odometer's count is the ledger's, modulo 2^64. -/
  count_eq : m.cpu.odometer.total.count.toNat = l.counted % 2 ^ 64
  /-- A single step never changes the debt. -/
  step_debt : ∀ (r r' : Int64) (s : StepResult) (m' : Machine β),
    (Cpu.step r : Exec β (StepResult × Int64)) m = .ok (s, r') m' →
      m'.cpu.odometer.debt = m.cpu.odometer.debt
  /-- A run returns `outOfCycles` exactly when the debt covers its budget. -/
  run_outOfCycles_iff : ∀ (b : UInt32) (o : RunOutcome) (m' : Machine β),
    (Cpu.run b : Exec β RunOutcome) m = .ok o m' →
      (o = .outOfCycles ↔ b.toUInt64 ≤ m.cpu.odometer.debt)
  /-- Such a run executes nothing: it lowers the debt by the budget and sets the
  remainder to zero. -/
  run_outOfCycles : ∀ (b : UInt32) (m' : Machine β),
    (Cpu.run b : Exec β RunOutcome) m = .ok .outOfCycles m' →
      m' = m.setBook (m.cpu.odometer.debt - b.toUInt64) 0
  /-- Any other run executes the steps of the host's loop over the budget less the debt,
  and leaves a debt less than the cost of the last of them, less than four when that was
  a halted idle. -/
  run_ran : ∀ (b : UInt32) (cycles : Nat) (m' : Machine β),
    (Cpu.run b : Exec β RunOutcome) m = .ok (.ran cycles) m' →
      ∃ steps m'' r last, StepLoop m (b.toUInt64 - m.cpu.odometer.debt).toInt64 steps m'' r ∧
        cycles = (steps.map (·.cycles)).sum ∧ m' = m''.setBook (-r.toInt).toNat.toUInt64 r ∧
        steps.getLast? = some last ∧ m'.cpu.odometer.debt.toNat < last.cycles ∧
        (last.kind = .halted → m'.cpu.odometer.debt.toNat < 4)

open Exec in
/-- Over every session from a freshly created CPU in which no bus read is refused, the
odometer keeps the accounts `Accounting` lists. -/
theorem session_accounting {β : Type} [Bus β] {m : Machine β} {l : Ledger} (h : Reach m l) :
    Accounting m l := by
  have hb := Books.of_reach h
  refine ⟨hb.debt, hb.covered, hb.total, ?_, ?_, ?_, ?_⟩
  · intro r r' s m' hs
    rw [(step_ok hs).2.1]
    rfl
  · intro b o m' hr
    rcases run_ok hb.settled hr with ⟨hle, rfl, -⟩ | ⟨hlt, steps, m'', r, -, rfl, -⟩
    · exact iff_of_true rfl hle
    · exact iff_of_false RunOutcome.noConfusion (UInt64.not_le.mpr hlt)
  · intro b m' hr
    rcases run_ok hb.settled hr with ⟨-, -, rfl⟩ | ⟨-, steps, m'', r, -, ho, -⟩
    · rfl
    · cases ho
  · intro b cycles m' hr
    rcases run_ok hb.settled hr with ⟨-, ho, -⟩ | ⟨hlt, steps, m'', r, hloop, ho, rfl⟩
    · cases ho
    · -- the debt left is the overshoot, a few cycles, so it reads back unwrapped
      obtain ⟨last, hl, hcost, hhalt⟩ := hloop.last_cost (Odometer.allowance_pos hlt)
      have hdebt : (m''.setBook (-r.toInt).toNat.toUInt64 r).cpu.odometer.debt.toNat =
          (-r.toInt).toNat := Odometer.toNat_overshoot r
      have hneg := Int64.nonpos_iff.mp hloop.final_nonpos
      refine ⟨steps, m'', r, last, hloop, by cases ho; rfl, rfl, hl, ?_, fun hk => ?_⟩
      · rw [hdebt]
        omega
      · have := hhalt hk
        simp only [Timing.halted] at this
        rw [hdebt]
        omega

/-- A CPU fresh from construction on a plain bus: the accounts of a session with no calls
yet. -/
theorem session_accounting_created :
    Accounting (⟨{ regs := {}, fetch := FetchMap.empty 0x76, fastRam := none, odometer := {},
                   config := {}, eiShadow := false, refreshClock := 0, rWrittenAt := 0 },
                 SimpleBus.empty⟩ : Machine SimpleBus) {} :=
  session_accounting (Reach.create SimpleBus.empty Cpu.create_default)

open Exec in
/-- A run the debt covers does more than lower the debt: it also sets the remainder to
zero. A first run of five cycles on a fresh CPU executes its HALT and idles, eight cycles
in all, and leaves a remainder of -3; a second run of two is covered by the debt of three
and moves the remainder from -3 to 0. -/
theorem outOfCycles_not_only_debt :
    ¬ ∀ (m : Machine SimpleBus) (l : Ledger), Reach m l → ∀ (b : UInt32) (m' : Machine SimpleBus),
      (Cpu.run b : Exec SimpleBus RunOutcome) m = .ok .outOfCycles m' →
        m' = { m with cpu := { m.cpu with odometer :=
          { m.cpu.odometer with debt := m.cpu.odometer.debt - b.toUInt64 } } } := by
  intro H
  have h0 := Reach.create SimpleBus.empty Cpu.create_default
  have first : (match (Cpu.run 5 : Exec SimpleBus RunOutcome)
      ⟨{ regs := {}, fetch := FetchMap.empty 0x76, fastRam := none, odometer := {},
         config := {}, eiShadow := false, refreshClock := 0, rWrittenAt := 0 },
       SimpleBus.empty⟩ with
      | .ok o m => decide (o = .ran 8 ∧ m.cpu.odometer.debt = 3 ∧ m.cpu.odometer.remaining = -3)
      | .error _ _ => false) = true := by
    decide +kernel
  rcases hr : (Cpu.run 5 : Exec SimpleBus RunOutcome)
      ⟨{ regs := {}, fetch := FetchMap.empty 0x76, fastRam := none, odometer := {},
         config := {}, eiShadow := false, refreshClock := 0, rWrittenAt := 0 },
       SimpleBus.empty⟩ with ⟨o, m₁⟩ | ⟨e, m₁⟩
  case error => simp only [hr, Bool.false_eq_true] at first
  simp only [hr, decide_eq_true_eq] at first
  obtain ⟨-, hd, hrem⟩ := first
  -- the machine after the first run is reached, so its status is settled
  have h1 := Reach.call (HostOp.run 5) h0 (by simp [HostOp.exec, hr])
  simp only [HostOp.exec, map_apply, hr, elim_ok, Exec.after] at h1
  have h2 := H m₁ _ h1 2 _ (run_of_le (Books.of_reach h1).settled (by rw [hd]; decide))
  have hrem' := congrArg (·.cpu.odometer.remaining) h2
  simp only [setBook_cpu, hrem] at hrem'
  exact absurd hrem' (by decide)

end Z80
