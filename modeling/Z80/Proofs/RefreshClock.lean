import Z80.Proofs.SaveState

/-!
# The refresh clock never runs behind R

In `cycleDerived` mode R counts the cycles since it was last written: `Cpu.refreshValue` reads
the distance `refreshClock - rWrittenAt` from the refresh clock back to the clock at that write.
The distance is exact on every machine a host reaches, because R is never written later than
the clock reads (`Reachable.rWrittenPast`): creation starts both at zero, and each call keeps
the order (`HostOp.exec_rWrittenPast`). A step writes R, if at all, at the clock it starts
from, and a halted idle only moves the clock.

The model counts the clock in natural numbers, where a host keeps it in 64 bits. The clock is
the sum of the cycles executed and charged since the last power-on reset: every other call
moves it only forward (`HostOp.exec_refreshClock`), and a power-on reset sets it to zero. So
while fewer than 2^64 cycles have passed since then, the 64-bit clock is this one, and the
wrapping 64-bit difference a host computes is the exact distance
(`UInt64.sub_toNat_of_le`). `refreshClock_never_behind` collects these facts.
-/

namespace Z80

/-- The difference of two 64-bit counters, the later one below 2^64, is the exact one. -/
theorem UInt64.sub_toNat_of_le {a b : Nat} (hb : b ≤ a) (ha : a < 2 ^ 64) :
    (a.toUInt64 - b.toUInt64).toNat = a - b := by
  have hb' : b < 2 ^ 64 := by omega
  simp only [UInt64.toNat_sub, Nat.toUInt64_eq, UInt64.toNat_ofNat', Nat.mod_eq_of_lt ha,
    Nat.mod_eq_of_lt hb']
  omega

namespace Exec

variable {β : Type} [Bus β]

/-- A step moves the refresh clock only forward. -/
theorem executeOne_clock_le {k : Nat} {x : Machine β} (h : k ≤ x.cpu.refreshClock) :
    k ≤ (after ((executeOne : Exec β StepResult) x)).cpu.refreshClock := by
  obtain ⟨d, hd⟩ := executeOne_refreshClock x
  omega

theorem step_clock_le (r : Int64) {k : Nat} {m : Machine β} (h : k ≤ m.cpu.refreshClock) :
    k ≤ (after ((Cpu.step r : Exec β (StepResult × Int64)) m)).cpu.refreshClock :=
  step_invariant (P := fun x => k ≤ x.cpu.refreshClock) (fun _ h => executeOne_clock_le h)
    (fun _ _ h => h) r h

/-- A run, its halted idles included, moves the refresh clock only forward. -/
theorem run_clock_le (b : UInt32) {k : Nat} {m : Machine β} (h : k ≤ m.cpu.refreshClock) :
    k ≤ (after ((Cpu.run b : Exec β RunOutcome) m)).cpu.refreshClock := by
  have hidle : ∀ (x : Machine β) (n : Nat), k ≤ x.cpu.refreshClock →
      k ≤ (x.idle n).cpu.refreshClock := by
    intro x n hx
    simp only [Machine.idle]
    omega
  exact run_invariant (P := fun x => k ≤ x.cpu.refreshClock)
    (runLoop_invariant (fun _ h => executeOne_clock_le h) hidle) (fun _ _ h => h)
    (fun _ _ h => h) b h

end Exec

namespace HostOp

variable {β : Type} [Bus β]

open Exec

omit [Bus β] in
/-- A call the CPU may refuse keeps the refresh clock when its update does. -/
theorem attempt_refreshClock {f : Cpu → Except Error Cpu} {m : Machine β}
    (hf : ∀ c, f m.cpu = .ok c → c.refreshClock = m.cpu.refreshClock) :
    (after (attempt f m)).cpu.refreshClock = m.cpu.refreshClock :=
  after_attempt (P := fun x => x.cpu.refreshClock = m.cpu.refreshClock) rfl hf

/-- Only a power-on reset sets the refresh clock back; every other call moves it only
forward, whether it finishes or is refused. -/
theorem exec_refreshClock (op : HostOp β) (hop : op ≠ .hardReset) (m : Machine β) :
    m.cpu.refreshClock ≤ (after (op.exec m)).cpu.refreshClock := by
  cases op with
  | run b =>
    rw [exec, after_map]
    exact run_clock_le b (Nat.le_refl _)
  | step r =>
    rw [exec, after_map]
    exact step_clock_le r (Nat.le_refl _)
  | addCycles n => exact Nat.le_add_right _ n.toNat
  | hardReset => exact absurd rfl hop
  | clearFault =>
    rw [after_clearFault]
    split
    · exact Nat.le_refl _
    · exact Nat.le_refl _
  -- the calls the CPU may refuse write registers, a save state or the fetch map, not the clock
  | set reg v =>
    exact (attempt_refreshClock (f := (·.set reg v)) fun _ hc => Cpu.set_refreshClock hc).ge
  | restore snap =>
    exact (attempt_refreshClock (f := (·.restore snap))
      fun _ hc => (Cpu.restore_rWrittenAt hc).2).ge
  | mapFetch first last region offset =>
    refine (attempt_refreshClock (f := (·.mapFetch first last region offset)) fun c hc => ?_).ge
    rw [Cpu.mapFetch_ok hc]
  | unmapFetch first last =>
    refine (attempt_refreshClock (f := (·.unmapFetch first last)) fun c hc => ?_).ge
    rw [Cpu.unmapFetch_ok hc]
  | clearOdometer | softReset | raiseNmi | raiseInt v | clearInt | addRegion data
  | modifyRegion id f | useBus f => exact Nat.le_refl _

end HostOp

open Exec in
/-- The refresh clock never runs behind the time R was written. On every machine a host
reaches, R was written no later than the refresh clock reads, so the distance `refreshValue`
reads for `get`, `registers`, `snapshot` and LD A,R is never negative, and while the clock is
below 2^64 the wrapping 64-bit difference is that distance. Every call keeps the order,
resets, register writes, save-state loads, charged cycles and runs included, and so do a step
and a halted idle. The clock itself moves only forward, except that a power-on reset sets it
to zero. -/
theorem refreshClock_never_behind {β : Type} [Bus β] :
    (∀ m : Machine β, Reachable m →
      m.cpu.rWrittenAt ≤ m.cpu.refreshClock ∧
        (m.cpu.refreshClock < 2 ^ 64 →
          (m.cpu.refreshClock.toUInt64 - m.cpu.rWrittenAt.toUInt64).toNat =
            m.cpu.refreshClock - m.cpu.rWrittenAt)) ∧
    (∀ (op : HostOp β) (m : Machine β), m.RWrittenPast → (after (op.exec m)).RWrittenPast) ∧
    (∀ m : Machine β, m.RWrittenPast →
      (after ((executeOne : Exec β StepResult) m)).RWrittenPast) ∧
    (∀ (m : Machine β) (n : Nat), m.RWrittenPast → (m.idle n).RWrittenPast) ∧
    (∀ (op : HostOp β) (m : Machine β), op ≠ .hardReset →
      m.cpu.refreshClock ≤ (after (op.exec m)).cpu.refreshClock) ∧
    (∀ m : Machine β, (after ((HostOp.hardReset : HostOp β).exec m)).cpu.refreshClock = 0) := by
  refine ⟨fun m hm => ?_, fun op _ h => HostOp.exec_rWrittenPast op h,
    fun _ h => executeOne_rWrittenPast h, fun _ n h => Machine.idle_rWrittenPast h n,
    fun op m hop => HostOp.exec_refreshClock op hop m, fun _ => rfl⟩
  have hw : m.cpu.rWrittenAt ≤ m.cpu.refreshClock := hm.rWrittenPast
  exact ⟨hw, UInt64.sub_toNat_of_le hw⟩

/-- A CPU created in `cycleDerived` mode, then charged seven cycles and soft-reset. -/
theorem refreshClock_never_behind_created :
    Machine.createdCycleDerived.cpu.rWrittenAt ≤ Machine.createdCycleDerived.cpu.refreshClock ∧
      (Exec.after ((HostOp.softReset : HostOp SimpleBus).exec
        (Exec.after ((HostOp.addCycles 7 : HostOp SimpleBus).exec
          Machine.createdCycleDerived)))).RWrittenPast ∧
      Machine.createdCycleDerived.cpu.refreshClock ≤
        (Exec.after ((HostOp.addCycles 7 : HostOp SimpleBus).exec
          Machine.createdCycleDerived)).cpu.refreshClock := by
  have h := @refreshClock_never_behind SimpleBus _
  have hw := (h.1 _ Machine.createdCycleDerived_reachable).1
  exact ⟨hw, h.2.1 _ _ (h.2.1 _ _ hw), h.2.2.2.2.1 _ _ nofun⟩

end Z80
