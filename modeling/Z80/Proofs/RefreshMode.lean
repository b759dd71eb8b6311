import Z80.Proofs.Refresh

/-!
# The refresh mode affects nothing but R

Two machines that differ only in R and the refresh mode stay so through every call a host
makes, as long as no step executes LD A,R: the calls answer the same, and the machines they
leave differ again only in R and the mode. The bus is part of the machine, so on a bus that
records its accesses the two sessions make the same accesses too.

A run executes steps that no host call names, so the condition is stated on the steps a
session takes: `LoopVisits` follows the run loop from step to step, `HostOp.Visits` gives the
machines at which a call begins a step and `Visits` those of a whole session (`replay`).

The per-step fact is `executeOne_withRefresh`. Idles (`idleHalted_withRefresh`), entering
and settling commute outright, so a run loop (`runLoop_withRefresh`), a single step and a
run do as well, and so does every other call (`HostOp.exec_withRefresh`): the ones that
write R, register writes, save-state loads and resets, write the same value in both.
`replay_withRefresh` follows a session call by call; `refreshMode_noninterference` states
it for two CPUs that differ only in their configured mode.
-/

namespace Z80

/-! ## Host calls on the CPU -/

namespace Registers

/-- A host write of R sets it; any other write leaves it. -/
theorem write_withR (rs : Registers) (r : UInt8) (reg : Reg) (v : UInt16) :
    ({ rs with r } : Registers).write reg v =
      { rs.write reg v with r := if reg = .r then v.toUInt8 else r } := by
  cases reg <;> rfl

end Registers

namespace Cpu

variable (c : Cpu) (r : UInt8) (p : RefreshMode)

theorem hardReset_withRefresh : (c.withRefresh r p).hardReset = c.hardReset.withRefresh 0 p := rfl

theorem softReset_withRefresh : (c.withRefresh r p).softReset = c.softReset.withRefresh 0 p := rfl

theorem clearFault_withRefresh : (c.withRefresh r p).clearFault = c.clearFault.withRefresh r p := by
  by_cases h : c.regs.status = .faulted
  · simp only [clearFault, withRefresh_regs, h, if_true]
    rfl
  · simp only [clearFault, withRefresh_regs, h, if_false]

theorem set_withRefresh (reg : Reg) (v : UInt16) :
    (c.withRefresh r p).set reg v =
      (c.set reg v).map (·.withRefresh (if reg = .r then v.toUInt8 else r) p) := by
  by_cases hs : c.regs.status = .running
  · simp [set, Registers.set, hs, bind, Except.bind, Except.map]
  · by_cases hv : v > reg.maxValue
    · simp [set, Registers.set, hs, hv, bind, Except.bind, Except.map]
    · simp only [set, Registers.set, withRefresh_regs, hs, hv, if_false, bind, Except.bind, pure,
        Except.pure, Except.map, Registers.write_withR]
      rfl

theorem restore_withRefresh (snap : Registers) :
    (c.withRefresh r p).restore snap = (c.restore snap).map (·.withRefresh snap.r p) := by
  by_cases hs : c.regs.status = .running
  · simp [restore, hs, Except.map]
  · by_cases hf : c.regs.status = .faulted
    · simp only [restore, withRefresh_regs, hf, if_true, Except.map]
      rfl
    · simp only [restore, withRefresh_regs, hs, hf, if_false, Except.map]
      rfl

theorem mapFetch_withRefresh (first last : UInt8) (region : RegionId) (offset : Nat) :
    (c.withRefresh r p).mapFetch first last region offset =
      (c.mapFetch first last region offset).map (·.withRefresh r p) := by
  have hf : (c.withRefresh r p).fetch = c.fetch := rfl
  simp only [mapFetch, bind, Except.bind, pure, Except.pure, Except.map, hf]
  cases c.fetch.map first last region offset <;> rfl

theorem unmapFetch_withRefresh (first last : UInt8) :
    (c.withRefresh r p).unmapFetch first last = (c.unmapFetch first last).map (·.withRefresh r p) := by
  have hf : (c.withRefresh r p).fetch = c.fetch := rfl
  simp only [unmapFetch, bind, Except.bind, pure, Except.pure, Except.map, hf]
  cases c.fetch.unmap first last <;> rfl

end Cpu

namespace Exec

variable {β : Type} [Bus β] (r : UInt8) (p : RefreshMode)

/-! ## Runs -/

omit [Bus β] in
theorem idleHalted_withRefresh (rem : Int64) (m : Machine β) :
    (idleHalted rem : Exec β Nat) (m.withRefresh r p) =
      mapState (·.withRefresh (p.countFetches r ((rem.toInt.toNat + 3) / 4)) p) (idleHalted rem m) := by
  rw [idleHalted_apply, idleHalted_apply, Machine.idle_withRefresh]
  rfl

omit [Bus β] in
theorem enter_withRefresh (m : Machine β) :
    (enter : Exec β Unit) (m.withRefresh r p) = mapState (·.withRefresh r p) (enter m) := by
  cases hs : m.cpu.regs.status <;>
    simp [enter, bind, EStateM.bind, regs, modifyRegs, modifyCpu, hs, throw, throwThe,
      MonadExceptOf.throw, EStateM.throw, Machine.withRefresh, Cpu.withRefresh]

/-- The machines at which the run loop from `x`, with `fuel` steps left and remainder `rem`,
begins a step. Idles the loop charges at once begin no step. -/
inductive LoopVisits : Nat → Int64 → Machine β → Machine β → Prop where
  | here {fuel : Nat} {rem : Int64} {x : Machine β} : 0 < rem → LoopVisits (fuel + 1) rem x x
  | next {fuel : Nat} {rem : Int64} {x x₁ y : Machine β} {s : StepResult} : 0 < rem →
      (executeOne : Exec β StepResult) x = .ok s x₁ →
      (s.kind = .halted && !x₁.cpu.wakePending) = false →
      LoopVisits fuel (rem - s.cycles.toInt64) x₁ y → LoopVisits (fuel + 1) rem x y
  | idle {fuel : Nat} {rem : Int64} {x x₁ y : Machine β} {s : StepResult} : 0 < rem →
      (executeOne : Exec β StepResult) x = .ok s x₁ →
      (s.kind = .halted && !x₁.cpu.wakePending) = true →
      LoopVisits fuel (rem - s.cycles.toInt64 -
          (((rem - s.cycles.toInt64).toInt.toNat + 3) / 4 * Timing.halted).toInt64)
        (x₁.idle (((rem - s.cycles.toInt64).toInt.toNat + 3) / 4)) y →
      LoopVisits (fuel + 1) rem x y

/-- A run loop none of whose steps executes LD A,R does what it does from the original
machine, and leaves R at a value of its own. -/
theorem runLoop_withRefresh (fuel : Nat) (rem : Int64) (c : Nat) (x : Machine β)
    (h : ∀ y, LoopVisits fuel rem x y → y.readsR = false) :
    ∃ r', (runLoop fuel rem c : Exec β (Int64 × Nat)) (x.withRefresh r p) =
      mapState (·.withRefresh r' p) (runLoop fuel rem c x) := by
  induction fuel generalizing r rem c x with
  | zero => exact ⟨r, rfl⟩
  | succ fuel ih =>
    by_cases hr : rem ≤ 0
    · exact ⟨r, by rw [runLoop_of_nonpos hr, runLoop_of_nonpos hr]; rfl⟩
    have hpos : 0 < rem := Int64.not_le.mp hr
    obtain ⟨r₁, hs⟩ := executeOne_withRefresh r p (h x (.here hpos))
    simp only [runLoop, if_neg hr, hs]
    cases hx : (executeOne : Exec β StepResult) x with
    | error e x₁ => exact ⟨r₁, rfl⟩
    | ok s x₁ =>
      have hw : (x₁.withRefresh r₁ p).cpu.wakePending = x₁.cpu.wakePending := rfl
      simp only [mapState_ok, hw]
      split
      · -- the halted fast path: the idles, then a loop with nothing left to run
        rename_i hidle
        obtain ⟨r₂, hrest⟩ := ih (p.countFetches r₁ (((rem - s.cycles.toInt64).toInt.toNat + 3) / 4))
          _ (c + s.cycles + ((rem - s.cycles.toInt64).toInt.toNat + 3) / 4 * Timing.halted) _
          fun y hy => h y (.idle hpos hx hidle hy)
        refine ⟨r₂, ?_⟩
        rw [idleHalted_withRefresh]
        simp only [idleHalted_apply, mapState_ok]
        exact hrest
      · rename_i hidle
        exact ih r₁ _ _ _ fun y hy => h y (.next hpos hx (by simpa using hidle) hy)

/-- A single step that does not execute LD A,R. -/
theorem step_withRefresh (b : Int64) (m : Machine β)
    (h : ∀ y, (enter : Exec β Unit) m = .ok () y → y.readsR = false) :
    ∃ r', (Cpu.step b : Exec β (StepResult × Int64)) (m.withRefresh r p) =
      mapState (·.withRefresh r' p) (Cpu.step b m) := by
  cases he : (enter : Exec β Unit) m with
  | error e y =>
    refine ⟨r, ?_⟩
    simp only [Cpu.step, bind_apply, enter_withRefresh, he, mapState_error, elim_error]
  | ok u y =>
    have he' : (enter : Exec β Unit) (m.withRefresh r p) = .ok () (y.withRefresh r p) := by
      rw [enter_withRefresh, he]
      rfl
    obtain ⟨r', hs⟩ := executeOne_withRefresh r p (h y he)
    refine ⟨r', ?_⟩
    rw [step_of_enter he', step_of_enter he, hs]
    cases (executeOne : Exec β StepResult) y <;> rfl

/-- A run that gets in with a budget above the debt runs its loop from the machine marked
running, over the budget less the debt. -/
theorem run_withRefresh (b : UInt32) (m : Machine β)
    (h : ∀ y, (m.cpu.regs.status = .idle ∨ m.cpu.regs.status = .halted) →
      m.cpu.odometer.debt < b.toUInt64 →
      LoopVisits ((b.toUInt64 - m.cpu.odometer.debt).toInt64.toInt.toNat + 1)
        (b.toUInt64 - m.cpu.odometer.debt).toInt64 m.entered y → y.readsR = false) :
    ∃ r', (Cpu.run b : Exec β RunOutcome) (m.withRefresh r p) =
      mapState (·.withRefresh r' p) (Cpu.run b m) := by
  by_cases hs : m.cpu.regs.status = .idle ∨ m.cpu.regs.status = .halted
  · by_cases hb : b.toUInt64 ≤ m.cpu.odometer.debt
    · refine ⟨r, ?_⟩
      rw [run_of_le_entered (m := m.withRefresh r p) hs hb, run_of_le_entered hs hb]
      rfl
    · have hlt := UInt64.not_le.mp hb
      obtain ⟨r', hl⟩ := runLoop_withRefresh r p _ _ 0 m.entered fun y => h y hs hlt
      have he : (m.withRefresh r p).entered = m.entered.withRefresh r p := rfl
      have hd : (m.withRefresh r p).cpu.odometer = m.cpu.odometer := rfl
      refine ⟨r', ?_⟩
      rw [run_of_lt (m := m.withRefresh r p) hs (by rw [hd]; exact hlt), run_of_lt hs hlt, he,
        hd, hl, elim_mapState, mapState_elim]
      rfl
  · -- a faulted or running CPU is refused on entry
    cases he : (enter : Exec β Unit) m with
    | ok u y => exact absurd (enter_ok he).2 hs
    | error e y =>
      refine ⟨r, ?_⟩
      simp only [Cpu.run, bind_apply, enter_withRefresh, he, mapState_error, elim_error]

end Exec

/-! ## Host calls -/

/-- What a call answers: its reply, or the refusal or fault that stopped it. -/
def Exec.answer {β α : Type} : EStateM.Result Abort (Machine β) α → Except Abort α
  | .ok a _ => .ok a
  | .error e _ => .error e

namespace Exec

variable {β α : Type} (g : Machine β → Machine β) (x : EStateM.Result Abort (Machine β) α)

@[simp] theorem answer_mapState : answer (mapState g x) = answer x := by
  cases x <;> rfl

@[simp] theorem after_mapState : after (mapState g x) = g (after x) := by
  cases x <;> rfl

end Exec

namespace HostOp

open Exec

variable {β : Type} [Bus β] (r : UInt8) (p : RefreshMode)

/-- The machines at which the call `op` from `m` begins a step: a single step begins one at
the machine it enters, and a run that gets in with a budget above the debt begins one
wherever its loop does. -/
inductive Visits : HostOp β → Machine β → Machine β → Prop where
  | step {b : Int64} {m y : Machine β} : (enter : Exec β Unit) m = .ok () y → Visits (.step b) m y
  | run {b : UInt32} {m y : Machine β} :
      (m.cpu.regs.status = .idle ∨ m.cpu.regs.status = .halted) → m.cpu.odometer.debt < b.toUInt64 →
      Exec.LoopVisits ((b.toUInt64 - m.cpu.odometer.debt).toInt64.toInt.toNat + 1)
        (b.toUInt64 - m.cpu.odometer.debt).toInt64 m.entered y →
      Visits (.run b) m y

omit [Bus β] in
theorem change_withRefresh {f : Cpu → Cpu} {m : Machine β} {r' : UInt8}
    (hf : f (m.cpu.withRefresh r p) = (f m.cpu).withRefresh r' p) :
    (change f : Exec β Reply) (m.withRefresh r p) = mapState (·.withRefresh r' p) (change f m) := by
  simp only [change, Machine.withRefresh_cpu, hf, mapState_ok]
  rfl

omit [Bus β] in
/-- A call that may be refused leaves R at `r'` when it goes through, and alone when it is
refused. -/
theorem attempt_withRefresh {f : Cpu → Except Error Cpu} {m : Machine β} {r' : UInt8}
    (hf : f (m.cpu.withRefresh r p) = (f m.cpu).map (·.withRefresh r' p)) :
    ∃ r'', (attempt f : Exec β Reply) (m.withRefresh r p) =
      mapState (·.withRefresh r'' p) (attempt f m) := by
  simp only [attempt, Machine.withRefresh_cpu, hf]
  cases f m.cpu with
  | ok c => exact ⟨r', rfl⟩
  | error e => exact ⟨r, rfl⟩

/-- A call none of whose steps executes LD A,R does from a machine whose R and mode were
replaced what it does from the original, and leaves R at a value of its own: the value the
call writes to R, if it writes one. -/
theorem exec_withRefresh (op : HostOp β) (m : Machine β)
    (h : ∀ y, op.Visits m y → y.readsR = false) :
    ∃ r', op.exec (m.withRefresh r p) = mapState (·.withRefresh r' p) (op.exec m) := by
  cases op with
  | run b =>
    obtain ⟨r', hr⟩ := Exec.run_withRefresh r p b m fun y hs hb hy => h y (.run hs hb hy)
    refine ⟨r', ?_⟩
    simp only [exec, map_apply, hr, elim_mapState, mapState_elim]
    rfl
  | step b =>
    obtain ⟨r', hs⟩ := Exec.step_withRefresh r p b m fun y hy => h y (.step hy)
    refine ⟨r', ?_⟩
    simp only [exec, map_apply, hs, elim_mapState, mapState_elim]
    rfl
  | addCycles n => exact ⟨r, change_withRefresh (f := (·.addCycles n)) r p rfl⟩
  | clearOdometer => exact ⟨r, change_withRefresh (f := Cpu.clearOdometer) r p rfl⟩
  | hardReset => exact ⟨0, change_withRefresh r p (Cpu.hardReset_withRefresh _ _ _)⟩
  | softReset => exact ⟨0, change_withRefresh r p (Cpu.softReset_withRefresh _ _ _)⟩
  | clearFault => exact ⟨r, change_withRefresh r p (Cpu.clearFault_withRefresh _ _ _)⟩
  | set reg v => exact attempt_withRefresh (f := (·.set reg v)) r p (Cpu.set_withRefresh _ _ _ _ _)
  | restore snap =>
    exact attempt_withRefresh (f := (·.restore snap)) r p (Cpu.restore_withRefresh _ _ _ _)
  | raiseNmi => exact ⟨r, change_withRefresh (f := Cpu.raiseNmi) r p rfl⟩
  | raiseInt v => exact ⟨r, change_withRefresh (f := (·.raiseInt v)) r p rfl⟩
  | clearInt => exact ⟨r, change_withRefresh (f := Cpu.clearInt) r p rfl⟩
  | addRegion data => exact ⟨r, rfl⟩
  | mapFetch first last region offset =>
    exact attempt_withRefresh (f := (·.mapFetch first last region offset)) r p
      (Cpu.mapFetch_withRefresh _ _ _ _ _ _ _)
  | unmapFetch first last =>
    exact attempt_withRefresh (f := (·.unmapFetch first last)) r p
      (Cpu.unmapFetch_withRefresh _ _ _ _ _)
  | modifyRegion id edit =>
    exact ⟨r, change_withRefresh (f := (·.modifyRegion id edit.apply)) r p rfl⟩
  | useBus f => exact ⟨r, rfl⟩

/-! ## Sessions -/

/-- The answers to a sequence of calls from `m`, and the machine they leave. A call that is
refused or stopped by a bus fault answers with its error, and the next call goes on from
the machine it left. -/
def replay : List (HostOp β) → Machine β → List (Except Abort Reply) × Machine β
  | [], m => ([], m)
  | op :: ops, m =>
    let rest := replay ops (after (op.exec m))
    (answer (op.exec m) :: rest.1, rest.2)

/-- The machines at which a sequence of calls from `m` begins a step. -/
inductive SessionVisits : List (HostOp β) → Machine β → Machine β → Prop where
  | head {op : HostOp β} {ops : List (HostOp β)} {m y : Machine β} :
      op.Visits m y → SessionVisits (op :: ops) m y
  | tail {op : HostOp β} {ops : List (HostOp β)} {m y : Machine β} :
      SessionVisits ops (after (op.exec m)) y → SessionVisits (op :: ops) m y

/-- A session none of whose steps executes LD A,R answers the same from a machine whose R
and mode were replaced, and the machines the two leave differ only in R and the mode. -/
theorem replay_withRefresh (ops : List (HostOp β)) (m : Machine β)
    (h : ∀ y, SessionVisits ops m y → y.readsR = false) :
    (replay ops (m.withRefresh r p)).1 = (replay ops m).1 ∧
      ∃ r', (replay ops (m.withRefresh r p)).2 = (replay ops m).2.withRefresh r' p := by
  induction ops generalizing m r with
  | nil => exact ⟨rfl, r, rfl⟩
  | cons op ops ih =>
    obtain ⟨r₁, hop⟩ := exec_withRefresh r p op m fun y hy => h y (.head hy)
    obtain ⟨hrest, r', hm⟩ := ih r₁ (after (op.exec m)) fun y hy => h y (.tail hy)
    simp only [replay, hop, answer_mapState, after_mapState]
    exact ⟨by rw [hrest], r', hm⟩

end HostOp

/-- The refresh mode affects nothing but R. Two machines that differ only in their
configured refresh mode, driven through the same session of host calls none of whose
steps executes LD A,R, get the same answers, and the machines they end in differ only in R
and the mode: the same registers otherwise, memory, fast RAM, fetch map, odometer, refresh
clock and bus. -/
theorem refreshMode_noninterference {β : Type} [Bus β] (p : RefreshMode) (ops : List (HostOp β))
    (m : Machine β) (h : ∀ y, HostOp.SessionVisits ops m y → y.readsR = false) :
    (HostOp.replay ops { m with cpu := { m.cpu with config := { m.cpu.config with refresh := p } } }).1 =
        (HostOp.replay ops m).1 ∧
      ∃ r, (HostOp.replay ops
          { m with cpu := { m.cpu with config := { m.cpu.config with refresh := p } } }).2 =
        (HostOp.replay ops m).2.withRefresh r p :=
  HostOp.replay_withRefresh m.cpu.regs.r p ops m h

/-- A CPU fresh from power-on steps through the HALT at 0000, gets an NMI and steps into
its acknowledgment; counting R by fetches or by cycles changes nothing else. -/
theorem refreshMode_noninterference_poweredOn :
    (HostOp.replay [.step 4, .raiseNmi, .step 4]
        (⟨{ regs := {}, fetch := FetchMap.empty 0x76, fastRam := none, odometer := {},
            config := { refresh := .cycleDerived }, eiShadow := false, refreshClock := 0,
            rWrittenAt := 0 }, SimpleBus.empty⟩ : Machine SimpleBus)).1 =
        (HostOp.replay [.step 4, .raiseNmi, .step 4]
          (⟨{ regs := {}, fetch := FetchMap.empty 0x76, fastRam := none, odometer := {},
              config := {}, eiShadow := false, refreshClock := 0, rWrittenAt := 0 },
            SimpleBus.empty⟩ : Machine SimpleBus)).1 ∧
      ∃ r, (HostOp.replay [.step 4, .raiseNmi, .step 4]
          (⟨{ regs := {}, fetch := FetchMap.empty 0x76, fastRam := none, odometer := {},
              config := { refresh := .cycleDerived }, eiShadow := false, refreshClock := 0,
              rWrittenAt := 0 }, SimpleBus.empty⟩ : Machine SimpleBus)).2 =
        (HostOp.replay [.step 4, .raiseNmi, .step 4]
          (⟨{ regs := {}, fetch := FetchMap.empty 0x76, fastRam := none, odometer := {},
              config := {}, eiShadow := false, refreshClock := 0, rWrittenAt := 0 },
            SimpleBus.empty⟩ : Machine SimpleBus)).2.withRefresh r .cycleDerived := by
  refine refreshMode_noninterference .cycleDerived [.step 4, .raiseNmi, .step 4]
    ⟨{ regs := {}, fetch := FetchMap.empty 0x76, fastRam := none, odometer := {}, config := {},
       eiShadow := false, refreshClock := 0, rWrittenAt := 0 }, SimpleBus.empty⟩ fun y hy => ?_
  -- the two steps begin at the machines the step calls enter; the NMI call begins none
  cases hy with
  | head hv =>
    cases hv with
    | step he =>
      obtain ⟨rfl, -⟩ := Exec.enter_ok he
      decide
  | tail hy =>
    cases hy with
    | head hv => cases hv
    | tail hy =>
      cases hy with
      | head hv =>
        cases hv with
        | step he =>
          obtain ⟨rfl, -⟩ := Exec.enter_ok he
          decide
      | tail hy => cases hy

end Z80
