import Z80.Proofs.HaltFrame

/-!
# Machines that read R alike

In `cycleDerived` mode R is not simply a stored value: it is read from the value last
written and the cycles counted since (`Cpu.refreshValue`). Two machines can therefore hold R
differently, with a different stored value and a different time of the last write, and still
read the same R now and after any number of cycles (`Cpu.liveR`). `Machine.Twin` relates such
machines: alike in every other part, the bus included, and alike in the value R reads at every
later cycle. In `perFetch` mode the time of the last write plays no part, and twins store the
same R.

Nothing a host or a step does tells twins apart. A step counts the same opcode fetches and the
same cycles on both (`executeOne_withRefreshAt`); LD A,R reads the value both read alike
(`executeOne_withRefreshAt_of_ldAR`); and LD R,A, like every host call that writes R, writes
the same value at the same time into both, which makes them equal. So every computation of a
session respects the relation (`Exec.Respects`): from twins it gives the same answer and
leaves twins. `executeOne_twin` is the step lemma; the run loop follows by induction on its
fuel (`runLoop_twin`), a session by induction on its calls (`replay_twin`), and twins show a
host the same registers, R included (`Twin.registers`).
-/

namespace Z80

/-! ## Holding R -/

/-- The CPU with R stored as `r`, counted in mode `p` and last written at clock `w`. -/
def Cpu.withRefreshAt (c : Cpu) (r : UInt8) (p : RefreshMode) (w : Nat) : Cpu :=
  { c.withRefresh r p with rWrittenAt := w }

/-- The machine with R stored as `r`, counted in mode `p` and last written at clock `w`. -/
def Machine.withRefreshAt {β : Type} (m : Machine β) (r : UInt8) (p : RefreshMode) (w : Nat) :
    Machine β :=
  { m with cpu := m.cpu.withRefreshAt r p w }

/-- The value R reads `n` cycles from now, if no opcode fetch is counted and nothing writes R
in between. -/
def Cpu.liveR (c : Cpu) (n : Nat) : UInt8 :=
  { c with refreshClock := c.refreshClock + n }.refreshValue

/-- Two machines alike but in how they hold R: the stored value and the time of its last
write may differ, the value R reads may not, now or after any number of cycles. -/
def Machine.Twin {β : Type} (m m' : Machine β) : Prop :=
  ∃ r w, m' = m.withRefreshAt r m.cpu.config.refresh w ∧ ∀ n, m.cpu.liveR n = m'.cpu.liveR n

@[simp] theorem RefreshMode.countFetches_zero (p : RefreshMode) (r : UInt8) :
    p.countFetches r 0 = r := by
  cases p
  · show (({ r } : Registers).advanceR 0).r = r
    rw [Registers.advanceR_zero]
  · rfl

namespace Cpu

variable (c : Cpu) (r : UInt8) (p : RefreshMode) (w : Nat)

@[simp] theorem withRefreshAt_self : c.withRefreshAt c.regs.r c.config.refresh c.rWrittenAt = c :=
  rfl

@[simp] theorem withRefreshAt_regs : (c.withRefreshAt r p w).regs = { c.regs with r } := rfl

@[simp] theorem withRefreshAt_refresh : (c.withRefreshAt r p w).config.refresh = p := rfl

@[simp] theorem withRefreshAt_rWrittenAt : (c.withRefreshAt r p w).rWrittenAt = w := rfl

@[simp] theorem withRefreshAt_refreshClock :
    (c.withRefreshAt r p w).refreshClock = c.refreshClock := rfl

theorem liveR_zero : c.liveR 0 = c.refreshValue := rfl

variable {c}

theorem liveR_of_perFetch (h : c.config.refresh = .perFetch) (n : Nat) : c.liveR n = c.regs.r := by
  simp only [liveR, refreshValue, h]

/-- A CPU that holds R as `c` does, `d` cycles later, reads now what `c` reads then. -/
theorem liveR_shift {c₁ : Cpu} {d : Nat} (hd : c₁.refreshClock = c.refreshClock + d)
    (hp : c₁.config.refresh = c.config.refresh) (hr : c₁.regs.r = c.regs.r)
    (hw : c₁.rWrittenAt = c.rWrittenAt) (n : Nat) : c₁.liveR n = c.liveR (d + n) := by
  simp only [liveR, refreshValue, hp, hr, hw, hd, Nat.add_assoc]

/-- Counting the same opcode fetches and the same cycles on two CPUs that read R alike keeps
them reading alike. -/
theorem liveR_count {c₁ : Cpu} {k d : Nat}
    (h : ∀ n, c.liveR n = (c.withRefreshAt r c.config.refresh w).liveR n)
    (hp : c₁.config.refresh = c.config.refresh)
    (hr : c₁.regs.r = c.config.refresh.countFetches c.regs.r k) (hw : c₁.rWrittenAt = c.rWrittenAt)
    (hd : c₁.refreshClock = c.refreshClock + d) (n : Nat) :
    c₁.liveR n = (c₁.withRefreshAt (c.config.refresh.countFetches r k) c.config.refresh w).liveR n := by
  cases hm : c.config.refresh
  case perFetch =>
    -- counting by fetches, R is the stored value, so twins store the same R
    have h0 : c.regs.r = r := by
      have := h 0
      rwa [liveR_of_perFetch hm, liveR_of_perFetch (by rw [withRefreshAt_refresh, hm])] at this
    rw [liveR_of_perFetch (hp.trans hm), liveR_of_perFetch rfl, hr, hm, h0]
    rfl
  case cycleDerived =>
    -- fetches leave R alone, so both read now what they read `d` cycles earlier
    have hr' : c₁.regs.r = c.regs.r := by rw [hr, hm]; rfl
    have hk : RefreshMode.cycleDerived.countFetches r k = r := rfl
    have hd' : (c₁.withRefreshAt r .cycleDerived w).refreshClock =
        (c.withRefreshAt r .cycleDerived w).refreshClock + d := hd
    rw [hk, liveR_shift hd hp hr' hw, liveR_shift hd' rfl rfl rfl, h (d + n), hm]

end Cpu

namespace Machine

variable {β : Type} (m : Machine β) (r : UInt8) (p : RefreshMode) (w : Nat)

@[simp] theorem withRefreshAt_self :
    m.withRefreshAt m.cpu.regs.r m.cpu.config.refresh m.cpu.rWrittenAt = m := rfl

@[simp] theorem withRefreshAt_cpu : (m.withRefreshAt r p w).cpu = m.cpu.withRefreshAt r p w := rfl

@[simp] theorem withRefreshAt_bus : (m.withRefreshAt r p w).bus = m.bus := rfl

theorem withRefreshAt_eq_rebook :
    m.withRefreshAt r p w = (m.withRefresh r p).rebook id fun _ => w := rfl

variable {m r p w}

/-- A machine that storing R as `r`, counted in mode `p` and written at `w`, leaves as it is,
holds R so already. -/
theorem holds_of_withRefreshAt (h : m = m.withRefreshAt r p w) :
    m.cpu.regs.r = r ∧ m.cpu.config.refresh = p ∧ m.cpu.rWrittenAt = w := by
  refine ⟨?_, ?_, ?_⟩ <;> rw [h] <;> rfl

theorem Twin.refl (m : Machine β) : m.Twin m := ⟨m.cpu.regs.r, m.cpu.rWrittenAt, rfl, fun _ => rfl⟩

/-- What counts `k` opcode fetches and some cycles, and holds R as it found it otherwise,
leaves twins of twins. -/
theorem Twin.of_count {y : Machine β} {k d : Nat}
    (h : ∀ n, m.cpu.liveR n = (m.withRefreshAt r m.cpu.config.refresh w).cpu.liveR n)
    (hy : y = y.withRefreshAt (m.cpu.config.refresh.countFetches m.cpu.regs.r k)
      m.cpu.config.refresh m.cpu.rWrittenAt)
    (hd : y.cpu.refreshClock = m.cpu.refreshClock + d) :
    y.Twin (y.withRefreshAt (m.cpu.config.refresh.countFetches r k) m.cpu.config.refresh w) := by
  obtain ⟨hr, hp, hw⟩ := holds_of_withRefreshAt hy
  exact ⟨_, w, by rw [hp], Cpu.liveR_count r w h hp hr hw hd⟩

theorem Twin.wakePending {m' : Machine β} (h : m.Twin m') :
    m'.cpu.wakePending = m.cpu.wakePending := by
  obtain ⟨r, w, rfl, -⟩ := h
  rfl

end Machine

/-! ## Computations that respect a relation -/

namespace Exec

section Respects

variable {β α γ : Type} {R : Machine β → Machine β → Prop}

/-- Two results that give the same answer and end in machines related by `R`. -/
def Alike (R : Machine β → Machine β → Prop) (y y' : EStateM.Result Abort (Machine β) α) : Prop :=
  answer y' = answer y ∧ R (after y) (after y')

/-- From machines related by `R`, the computation gives alike results. -/
def Respects (R : Machine β → Machine β → Prop) (x : Exec β α) : Prop :=
  ∀ ⦃m m' : Machine β⦄, R m m' → Alike R (x m) (x m')

theorem Alike.elim {y y' : EStateM.Result Abort (Machine β) α}
    {k : α → Machine β → EStateM.Result Abort (Machine β) γ}
    {h : Abort → Machine β → EStateM.Result Abort (Machine β) γ} (hy : Alike R y y')
    (hk : ∀ a ⦃s s' : Machine β⦄, R s s' → Alike R (k a s) (k a s'))
    (hh : ∀ e ⦃s s' : Machine β⦄, R s s' → Alike R (h e s) (h e s')) :
    Alike R (elim y k h) (elim y' k h) := by
  obtain ⟨ha, hs⟩ := hy
  cases y with
  | ok a s =>
    cases y' with
    | ok a' s' =>
      cases ha
      exact hk a hs
    | error e' s' => cases ha
  | error e s =>
    cases y' with
    | ok a' s' => cases ha
    | error e' s' =>
      cases ha
      exact hh e hs

theorem Respects.bind {x : Exec β α} {f : α → Exec β γ} (hx : Respects R x)
    (hf : ∀ a, Respects R (f a)) : Respects R (x >>= f) := by
  intro m m' hm
  rw [bind_apply, bind_apply]
  exact (hx hm).elim (fun a _ _ hs => hf a hs) (fun _ _ _ hs => ⟨rfl, hs⟩)

theorem Respects.pure (a : α) : Respects R (Pure.pure a : Exec β α) := fun _ _ hm => ⟨rfl, hm⟩

theorem Respects.map {x : Exec β α} (f : α → γ) (hx : Respects R x) : Respects R (f <$> x) := by
  intro m m' hm
  rw [map_apply, map_apply]
  exact (hx hm).elim (fun _ _ _ hs => ⟨rfl, hs⟩) (fun _ _ _ hs => ⟨rfl, hs⟩)

theorem after_eq_of_mapState {y : EStateM.Result Abort (Machine β) α} {g : Machine β → Machine β}
    (h : y = mapState g y) : after y = g (after y) := by
  conv_lhs => rw [h]
  exact after_mapState g y

end Respects

section Twin

variable {β α : Type}

/-- A computation that does the same whatever R is held as, counting `k` opcode fetches and
some cycles, respects twins. -/
theorem Respects.of_withRefreshAt {x : Exec β α} (k : Machine β → Nat)
    (hx : ∀ m r w, x (m.withRefreshAt r m.cpu.config.refresh w) =
      mapState (·.withRefreshAt (m.cpu.config.refresh.countFetches r (k m)) m.cpu.config.refresh w)
        (x m))
    (hd : ∀ m, ∃ d, (after (x m)).cpu.refreshClock = m.cpu.refreshClock + d) :
    Respects Machine.Twin x := by
  rintro m _ ⟨r, w, rfl, h⟩
  have hself := hx m m.cpu.regs.r m.cpu.rWrittenAt
  rw [Machine.withRefreshAt_self] at hself
  obtain ⟨d, hd⟩ := hd m
  refine ⟨by rw [hx, answer_mapState], ?_⟩
  rw [hx, after_mapState]
  exact Machine.Twin.of_count h (after_eq_of_mapState hself) hd

/-- A computation that does the same whatever R is held as, counting no fetch. -/
theorem Respects.of_frame {x : Exec β α}
    (hx : ∀ m r w, x (m.withRefreshAt r m.cpu.config.refresh w) =
      mapState (·.withRefreshAt r m.cpu.config.refresh w) (x m))
    (hd : ∀ m, ∃ d, (after (x m)).cpu.refreshClock = m.cpu.refreshClock + d) :
    Respects Machine.Twin x :=
  Respects.of_withRefreshAt (fun _ => 0)
    (fun m r w => by rw [RefreshMode.countFetches_zero]; exact hx m r w) hd

end Twin

end Exec

/-! ## A step -/

/-- The opcode fetches a step counts in R: one for an acknowledgment or a halted idle, those
of the instruction at PC otherwise. -/
def Machine.refreshFetches {β : Type} (m : Machine β) : Nat :=
  if m.control.stepKind = .instruction then m.cpu.nextInstr.fetches else 1

namespace Control

theorem sample_refreshClock (c : Control) : c.sample.refreshClock = c.refreshClock := by
  unfold sample
  split <;> rfl

theorem step_refreshClock (c : Control) (i : Instr) : (c.step i).refreshClock = c.refreshClock := by
  unfold step
  split
  · rw [← sample_refreshClock c]
    cases i <;> rfl
  · exact sample_refreshClock c

end Control

namespace Machine

variable {β : Type}

theorem idle_rebook (g : Nat → Nat) (x : Machine β) (n : Nat) :
    (x.rebook id g).idle n = (x.idle n).rebook id g := by
  simp only [Machine.idle, Cpu.refreshBy_eq]
  rfl

theorem fetched_rebook (g : Nat → Nat) (x : Machine β) :
    (x.rebook id g).fetched = x.fetched.rebook id g := by
  simp only [Machine.fetched, Cpu.refreshBy_eq]
  rfl

theorem fetched_withRefreshAt (m : Machine β) (r : UInt8) (p : RefreshMode) (w : Nat) :
    (m.withRefreshAt r p w).fetched =
      m.fetched.withRefreshAt (p.countFetches r m.cpu.nextInstr.fetches) p w := by
  rw [withRefreshAt_eq_rebook, fetched_rebook, Exec.fetched_withRefresh]
  rfl

theorem idle_withRefreshAt (m : Machine β) (r : UInt8) (p : RefreshMode) (w n : Nat) :
    (m.withRefreshAt r p w).idle n = (m.idle n).withRefreshAt (p.countFetches r n) p w := by
  rw [withRefreshAt_eq_rebook, idle_rebook, idle_withRefresh]
  rfl

end Machine

namespace Exec

section Step

variable {β : Type} [Bus β]

theorem taken_of_serviceInterrupts {m s : Machine β}
    (h : (serviceInterrupts : Exec β (Option StepResult)) m = .ok none s) :
    m.control.taken = none := by
  obtain ⟨hr, -, -⟩ := ok_of_triple (serviceInterrupts_spec m) rfl h
  exact Option.map_eq_none_iff.mp hr.symm

/-- A step other than LD A,R and LD R,A neither reads nor writes the time R was last
written. -/
theorem executeOne_rebook_stamp (g : Nat → Nat) {x : Machine β}
    (hA : x.control.stepKind = .instruction → x.cpu.nextInstr.instr ≠ .ldAR)
    (hR : x.control.stepKind = .instruction → x.cpu.nextInstr.instr ≠ .ldRA) :
    (executeOne : Exec β StepResult) (x.rebook id g) = mapState (·.rebook id g) (executeOne x) := by
  have hs := serviceInterrupts_rebook id g x
  rcases h : (serviceInterrupts : Exec β (Option StepResult)) x with ⟨_ | ack, s⟩ | ⟨e, s⟩ <;>
    simp only [h, mapState_ok, mapState_error] at hs
  · -- no request taken: a halted idle or the instruction at PC
    have hn : x.control.taken = none := taken_of_serviceInterrupts h
    have hn' : (x.rebook id g).control.taken = none := hn
    cases hh : x.cpu.regs.halted
    case true =>
      rw [executeOne_of_halted hh hn, executeOne_of_halted (x := x.rebook id g) hh hn', mapState_ok,
        ← Machine.idle_rebook g]
      rfl
    case false =>
      have hk : x.control.stepKind = .instruction := by
        rw [Control.stepKind_of_taken_none hn]
        simp [Machine.control, hh]
      have hnext : (x.rebook id g).cpu.nextInstr = x.cpu.nextInstr := rfl
      rw [executeOne_of_instruction hn hh, executeOne_of_instruction (m := x.rebook id g) hn' hh,
        hnext, Machine.fetched_rebook, exec_rebook id g (hA hk) (hR hk)]
      simp only [elim_mapState, mapState_elim, mapState_ok, mapState_error]
      rfl
  · rw [executeOne_of_ack h, executeOne_of_ack hs, mapState_ok]
    rfl
  · rw [executeOne_of_ack_error h, executeOne_of_ack_error hs, mapState_error]

/-- A step that neither executes LD A,R nor LD R,A does the same whatever R is held as, and
counts its opcode fetches in R. -/
theorem executeOne_withRefreshAt {x : Machine β} (hA : x.readsR = false)
    (hR : x.control.stepKind = .instruction → x.cpu.nextInstr.instr ≠ .ldRA) (r : UInt8)
    (p : RefreshMode) (w : Nat) :
    (executeOne : Exec β StepResult) (x.withRefreshAt r p w) =
      mapState (·.withRefreshAt (p.countFetches r x.refreshFetches) p w) (executeOne x) := by
  have hA' : x.control.stepKind = .instruction → x.cpu.nextInstr.instr ≠ .ldAR := fun hk hi => by
    simp [Machine.readsR, hk, hi] at hA
  have hmap : ∀ r', mapState (·.rebook id fun _ => w)
      (mapState (·.withRefresh r' p) ((executeOne : Exec β StepResult) x)) =
        mapState (·.withRefreshAt r' p w) (executeOne x) := fun r' => by
    cases (executeOne : Exec β StepResult) x <;> rfl
  rw [Machine.withRefreshAt_eq_rebook, executeOne_rebook_stamp (x := x.withRefresh r p) _ hA' hR,
    Machine.refreshFetches]
  by_cases hk : x.control.stepKind = .instruction
  · obtain ⟨ht, hh⟩ := Control.stepKind_eq_instruction hk
    rw [executeOne_withRefresh_of_instruction r p ht hh (hA' hk) (hR hk), if_pos hk, hmap]
  · rw [if_neg hk, ← hmap]
    cases ht : x.control.taken with
    | some k => rw [executeOne_withRefresh_of_taken r p (by simp [ht])]
    | none =>
      -- with no request to take, a step that executes no instruction is a halted idle
      have hh : x.cpu.regs.halted = true := by
        rw [Control.stepKind_of_taken_none ht] at hk
        cases hh : x.cpu.regs.halted
        · simp [Machine.control, hh] at hk
        · rfl
      rw [executeOne_withRefresh_of_halted r p ht hh]

/-- LD A,R reads R through the live value, so it does the same whatever R is held as, if it
reads the same value. -/
theorem exec_ldAR_withRefreshAt {y : Machine β} {r : UInt8} {p : RefreshMode} {w : Nat}
    (hv : (y.cpu.withRefreshAt r p w).refreshValue = y.cpu.refreshValue) :
    (Instr.ldAR.exec : Exec β Nat) (y.withRefreshAt r p w) =
      mapState (·.withRefreshAt r p w) (Instr.ldAR.exec y) := by
  simp only [Instr.exec, bind_apply, modifyCpu, elim_ok, pure_apply, mapState_ok,
    Machine.withRefreshAt_cpu, hv]
  rfl

theorem exec_ldRA_withRefreshAt {y : Machine β} {r : UInt8} {p : RefreshMode} {w : Nat}
    (hp : y.cpu.config.refresh = p) :
    (Instr.ldRA.exec : Exec β Nat) (y.withRefreshAt r p w) = Instr.ldRA.exec y := by
  subst hp
  rfl

/-- LD A,R does the same whatever R is held as, if R reads alike once the instruction is
fetched. -/
theorem executeOne_withRefreshAt_of_ldAR {x : Machine β} (hk : x.control.stepKind = .instruction)
    (hA : x.cpu.nextInstr.instr = .ldAR) (r : UInt8) (p : RefreshMode) (w : Nat)
    (hv : (x.fetched.cpu.withRefreshAt (p.countFetches r x.cpu.nextInstr.fetches) p w).refreshValue =
      x.fetched.cpu.refreshValue) :
    (executeOne : Exec β StepResult) (x.withRefreshAt r p w) =
      mapState (·.withRefreshAt (p.countFetches r x.refreshFetches) p w) (executeOne x) := by
  obtain ⟨ht, hh⟩ := Control.stepKind_eq_instruction hk
  have hnext : (x.withRefreshAt r p w).cpu.nextInstr = x.cpu.nextInstr := rfl
  rw [executeOne_of_instruction ht hh, executeOne_of_instruction (m := x.withRefreshAt r p w) ht hh,
    hnext, Machine.fetched_withRefreshAt, hA, exec_ldAR_withRefreshAt hv, Machine.refreshFetches,
    if_pos hk]
  simp only [elim_mapState, mapState_elim, mapState_ok, mapState_error]
  rfl

/-- LD R,A makes the step the same whatever R was held as. -/
theorem executeOne_withRefreshAt_of_ldRA {x : Machine β} (hk : x.control.stepKind = .instruction)
    (hR : x.cpu.nextInstr.instr = .ldRA) (r : UInt8) (w : Nat) :
    (executeOne : Exec β StepResult) (x.withRefreshAt r x.cpu.config.refresh w) = executeOne x := by
  obtain ⟨ht, hh⟩ := Control.stepKind_eq_instruction hk
  have hnext : (x.withRefreshAt r x.cpu.config.refresh w).cpu.nextInstr = x.cpu.nextInstr := rfl
  have hp : x.fetched.cpu.config.refresh = x.cpu.config.refresh := by
    simp only [Machine.fetched, Cpu.refreshBy_eq]
  rw [executeOne_of_instruction ht hh, executeOne_of_instruction (m := x.withRefreshAt r _ w) ht hh,
    hnext, Machine.fetched_withRefreshAt, hR, exec_ldRA_withRefreshAt hp]

theorem executeOne_refreshClock (x : Machine β) :
    ∃ d, (after ((executeOne : Exec β StepResult) x)).cpu.refreshClock = x.cpu.refreshClock + d := by
  rcases hx : (executeOne : Exec β StepResult) x with ⟨s, x₁⟩ | ⟨e, x₁⟩
  · have hc := congrArg Control.refreshClock (executeOne_ok hx).2.2
    simp only [Control.count, Control.step_refreshClock] at hc
    exact ⟨s.cycles, hc⟩
  · have hc := congrArg Control.refreshClock (executeOne_error hx).1
    rw [Control.sample_refreshClock] at hc
    exact ⟨0, hc⟩

/-- A step other than LD R,A does the same whatever R is held as, as long as R reads alike
from then on: it counts the same fetches on both, and LD A,R reads R alike. -/
theorem executeOne_withRefreshAt_of_live {x : Machine β}
    (hR : ¬(x.control.stepKind = .instruction ∧ x.cpu.nextInstr.instr = .ldRA)) {r : UInt8} {w : Nat}
    (hl : ∀ n, x.cpu.liveR n = (x.withRefreshAt r x.cpu.config.refresh w).cpu.liveR n) :
    (executeOne : Exec β StepResult) (x.withRefreshAt r x.cpu.config.refresh w) =
      mapState (·.withRefreshAt (x.cpu.config.refresh.countFetches r x.refreshFetches)
        x.cpu.config.refresh w) (executeOne x) := by
  cases hA : x.readsR
  case false => exact executeOne_withRefreshAt hA (fun hk hi => hR ⟨hk, hi⟩) r _ w
  case true =>
    have hi : x.control.stepKind = .instruction ∧ x.cpu.nextInstr.instr = .ldAR := by
      simpa [Machine.readsR] using hA
    refine executeOne_withRefreshAt_of_ldAR hi.1 hi.2 r _ w ?_
    -- fetching counts the same opcodes on both, so R reads alike once it is done
    have hf := Machine.fetched_withRefreshAt x x.cpu.regs.r x.cpu.config.refresh x.cpu.rWrittenAt
    rw [Machine.withRefreshAt_self] at hf
    obtain ⟨hr, hp, hw⟩ := Machine.holds_of_withRefreshAt hf
    have hd : x.fetched.cpu.refreshClock = x.cpu.refreshClock + 0 := by
      simp only [Machine.fetched, Cpu.refreshBy_eq, Nat.add_zero]
    exact (Cpu.liveR_count r w hl hp hr hw hd 0).symm

/-- A step other than LD R,A counts its opcode fetches in R and keeps the time R was
written. -/
theorem executeOne_holdsR {x : Machine β}
    (hR : ¬(x.control.stepKind = .instruction ∧ x.cpu.nextInstr.instr = .ldRA)) :
    after ((executeOne : Exec β StepResult) x) =
      (after (executeOne x)).withRefreshAt
        (x.cpu.config.refresh.countFetches x.cpu.regs.r x.refreshFetches) x.cpu.config.refresh
        x.cpu.rWrittenAt := by
  have hself := executeOne_withRefreshAt_of_live hR (r := x.cpu.regs.r) (w := x.cpu.rWrittenAt)
    fun _ => rfl
  rw [Machine.withRefreshAt_self] at hself
  exact after_eq_of_mapState hself

/-- A step from twins gives the same answer and leaves twins. -/
theorem executeOne_twin : Respects Machine.Twin (executeOne : Exec β StepResult) := by
  rintro x _ ⟨r, w, rfl, h⟩
  by_cases hR : x.control.stepKind = .instruction ∧ x.cpu.nextInstr.instr = .ldRA
  · -- LD R,A writes the same R at the same time into both
    rw [executeOne_withRefreshAt_of_ldRA hR.1 hR.2]
    exact ⟨rfl, Machine.Twin.refl _⟩
  obtain ⟨d, hd⟩ := executeOne_refreshClock x
  refine ⟨by rw [executeOne_withRefreshAt_of_live hR h, answer_mapState], ?_⟩
  rw [executeOne_withRefreshAt_of_live hR h, after_mapState]
  exact Machine.Twin.of_count h (executeOne_holdsR hR) hd

/-! ## Runs -/

omit [Bus β] in
/-- A change of the machine that does the same whatever R is held as, and counts no cycle,
keeps twins twins. -/
theorem twin_frame {f : Machine β → Machine β}
    (hf : ∀ (y : Machine β) r w,
      f (y.withRefreshAt r y.cpu.config.refresh w) = (f y).withRefreshAt r y.cpu.config.refresh w)
    (hc : ∀ y, (f y).cpu.refreshClock = y.cpu.refreshClock) {m m' : Machine β} (h : m.Twin m') :
    (f m).Twin (f m') := by
  obtain ⟨r, w, rfl, hl⟩ := h
  have hself := hf m m.cpu.regs.r m.cpu.rWrittenAt
  rw [Machine.withRefreshAt_self] at hself
  have ht := Machine.Twin.of_count (k := 0) hl (by rwa [RefreshMode.countFetches_zero])
    ((hc m).trans (Nat.add_zero _).symm)
  rwa [RefreshMode.countFetches_zero, ← hf] at ht

omit [Bus β] in
theorem idleHalted_twin (rem : Int64) : Respects Machine.Twin (idleHalted rem : Exec β Nat) :=
  Respects.of_withRefreshAt (fun _ => (rem.toInt.toNat + 3) / 4)
    (fun m r w => by rw [idleHalted_apply, idleHalted_apply, Machine.idle_withRefreshAt]; rfl)
    (fun m => ⟨(rem.toInt.toNat + 3) / 4 * Timing.halted, by rw [idleHalted_apply]; rfl⟩)

/-- The run loop from twins gives the same answer and leaves twins. The induction is on the
fuel; each round is one step, which keeps twins twins, and the idles of the halted fast path,
which count the same fetches and cycles on both. -/
theorem runLoop_twin (fuel : Nat) :
    ∀ (rem : Int64) (c : Nat), Respects Machine.Twin (runLoop fuel rem c : Exec β (Int64 × Nat)) := by
  induction fuel with
  | zero => exact fun rem c => Respects.pure (rem, c)
  | succ fuel ih =>
    intro rem c x x' h
    by_cases hr : rem ≤ 0
    · rw [runLoop_of_nonpos hr, runLoop_of_nonpos hr]
      exact ⟨rfl, h⟩
    have hs := executeOne_twin h
    simp only [runLoop, if_neg hr]
    rcases hx : (executeOne : Exec β StepResult) x with ⟨s, x₁⟩ | ⟨e, x₁⟩ <;>
      rcases hx' : (executeOne : Exec β StepResult) x' with ⟨s', x₁'⟩ | ⟨e', x₁'⟩ <;>
      rw [hx, hx'] at hs <;> obtain ⟨ha, h₁⟩ := hs <;> cases ha
    · -- both steps finished alike: both take the halted fast path or neither does
      change x₁.Twin x₁' at h₁
      simp only [h₁.wakePending]
      split_ifs
      · have hi := (idleHalted_twin (β := β) (rem - s.cycles.toInt64) h₁).2
        simp only [idleHalted_apply] at hi ⊢
        exact ih _ _ hi
      · exact ih _ _ h₁
    · exact ⟨rfl, h₁⟩

omit [Bus β] in
theorem enter_withRefreshAt (m : Machine β) (r : UInt8) (p : RefreshMode) (w : Nat) :
    (enter : Exec β Unit) (m.withRefreshAt r p w) = mapState (·.withRefreshAt r p w) (enter m) := by
  cases hs : m.cpu.regs.status <;>
    simp [enter, bind, EStateM.bind, regs, modifyRegs, modifyCpu, hs, throw, throwThe,
      MonadExceptOf.throw, EStateM.throw, Machine.withRefreshAt, Cpu.withRefreshAt, Cpu.withRefresh]

omit [Bus β] in
theorem enter_refreshClock (m : Machine β) :
    (after ((enter : Exec β Unit) m)).cpu.refreshClock = m.cpu.refreshClock + 0 := by
  cases hs : m.cpu.regs.status <;>
    simp [enter, bind, EStateM.bind, regs, modifyRegs, modifyCpu, hs, throw, throwThe,
      MonadExceptOf.throw, EStateM.throw, after]

omit [Bus β] in
theorem enter_twin : Respects Machine.Twin (enter : Exec β Unit) :=
  Respects.of_frame (fun m r w => enter_withRefreshAt m r _ w) fun m => ⟨0, enter_refreshClock m⟩

omit [Bus β] in
theorem settle_twin : Respects Machine.Twin (Exec.settle : Exec β Unit) :=
  Respects.of_frame (fun _ _ _ => rfl) fun _ => ⟨0, rfl⟩

theorem step_twin (b : Int64) : Respects Machine.Twin (Cpu.step b : Exec β (StepResult × Int64)) :=
  enter_twin.bind fun _ => executeOne_twin.bind fun s => settle_twin.bind fun _ =>
    Respects.pure (s, b - s.cycles.toInt64)

end Step

end Exec

namespace Machine.Twin

variable {β : Type} {m m' : Machine β}

theorem setBook (h : m.Twin m') (d : UInt64) (r : Int64) : (m.setBook d r).Twin (m'.setBook d r) :=
  Exec.twin_frame (f := (·.setBook d r)) (fun _ _ _ => rfl) (fun _ => rfl) h

theorem settled (h : m.Twin m') : m.settled.Twin m'.settled :=
  Exec.twin_frame (f := Machine.settled) (fun _ _ _ => rfl) (fun _ => rfl) h

theorem entered (h : m.Twin m') : m.entered.Twin m'.entered :=
  Exec.twin_frame (f := Machine.entered) (fun _ _ _ => rfl) (fun _ => rfl) h

end Machine.Twin

namespace Exec

section Step

variable {β : Type} [Bus β]

/-- A run from twins gives the same answer and leaves twins. -/
theorem run_twin (b : UInt32) : Respects Machine.Twin (Cpu.run b : Exec β RunOutcome) := by
  intro m m' h
  by_cases hs : m.cpu.regs.status = .idle ∨ m.cpu.regs.status = .halted
  · have hs' : m'.cpu.regs.status = .idle ∨ m'.cpu.regs.status = .halted := by
      obtain ⟨r, w, rfl, -⟩ := h
      exact hs
    have hd : m'.cpu.odometer = m.cpu.odometer := by
      obtain ⟨r, w, rfl, -⟩ := h
      rfl
    by_cases hb : b.toUInt64 ≤ m.cpu.odometer.debt
    · -- the debt covers the budget: no step, only the bookkeeping
      rw [run_of_le_entered hs' (by rw [hd]; exact hb), run_of_le_entered hs hb, hd]
      exact ⟨rfl, (h.setBook _ _).settled⟩
    · rw [run_of_lt hs' (by rw [hd]; exact UInt64.not_le.mp hb), run_of_lt hs (UInt64.not_le.mp hb), hd]
      exact (runLoop_twin _ _ _ h.entered).elim
        (fun _ _ _ hy => ⟨rfl, hy.settled.setBook _ _⟩)
        (fun _ _ _ hy => ⟨rfl, hy.setBook _ _⟩)
  · -- a faulted or running CPU is refused on entry, the same on both
    obtain ⟨ha, h₁⟩ := enter_twin h
    cases he : (enter : Exec β Unit) m with
    | ok u y => exact absurd (enter_ok he).2 hs
    | error e y =>
      cases he' : (enter : Exec β Unit) m' with
      | ok u' y' => rw [he, he'] at ha; cases ha
      | error e' y' =>
        rw [he, he'] at ha h₁
        cases ha
        rw [run_of_enter_error he, run_of_enter_error he']
        exact ⟨rfl, h₁⟩

end Step

end Exec

/-! ## Host calls -/

namespace Cpu

variable (c : Cpu) (r : UInt8) (p : RefreshMode) (w : Nat)

theorem clearFault_withRefreshAt :
    (c.withRefreshAt r p w).clearFault = c.clearFault.withRefreshAt r p w := by
  by_cases h : c.regs.status = .faulted
  · simp only [clearFault, withRefreshAt_regs, h, if_true]
    rfl
  · simp only [clearFault, withRefreshAt_regs, h, if_false]

theorem set_r_withRefreshAt (v : UInt16) :
    (c.withRefreshAt r c.config.refresh w).set .r v = c.set .r v := rfl

/-- A host write of another register does the same whatever R is held as. -/
theorem set_withRefreshAt {reg : Reg} (h : reg ≠ .r) (v : UInt16) :
    (c.withRefreshAt r p w).set reg v = (c.set reg v).map (·.withRefreshAt r p w) := by
  by_cases hs : c.regs.status = .running
  · simp [set, Registers.set, hs, bind, Except.bind, Except.map]
  · by_cases hv : v > reg.maxValue
    · simp [set, Registers.set, hs, hv, bind, Except.bind, Except.map]
    · simp only [set, Registers.set, withRefreshAt_regs, hs, hv, if_false, h, bind, Except.bind,
        pure, Except.pure, Except.map, Registers.write_withR]
      rfl

theorem restore_withRefreshAt (snap : Registers) :
    (c.withRefreshAt r c.config.refresh w).restore snap = c.restore snap := rfl

theorem mapFetch_withRefreshAt (first last : UInt8) (region : RegionId) (offset : Nat) :
    (c.withRefreshAt r p w).mapFetch first last region offset =
      (c.mapFetch first last region offset).map (·.withRefreshAt r p w) := by
  have hf : (c.withRefreshAt r p w).fetch = c.fetch := rfl
  simp only [mapFetch, bind, Except.bind, pure, Except.pure, Except.map, hf]
  cases c.fetch.map first last region offset <;> rfl

theorem unmapFetch_withRefreshAt (first last : UInt8) :
    (c.withRefreshAt r p w).unmapFetch first last =
      (c.unmapFetch first last).map (·.withRefreshAt r p w) := by
  have hf : (c.withRefreshAt r p w).fetch = c.fetch := rfl
  simp only [unmapFetch, bind, Except.bind, pure, Except.pure, Except.map, hf]
  cases c.fetch.unmap first last <;> rfl

variable {c}

theorem set_refreshClock {c' : Cpu} {reg : Reg} {v : UInt16} (h : c.set reg v = .ok c') :
    c'.refreshClock = c.refreshClock := by
  obtain ⟨-, -, rfl⟩ := set_eq_ok_iff.mp h
  rfl

end Cpu

namespace HostOp

open Exec

variable {β : Type} [Bus β]

omit [Bus β] in
/-- A change of the CPU that does the same whatever R is held as respects twins. -/
theorem change_twin {f : Cpu → Cpu}
    (hf : ∀ (c : Cpu) r w,
      f (c.withRefreshAt r c.config.refresh w) = (f c).withRefreshAt r c.config.refresh w)
    (hd : ∀ c, ∃ d, (f c).refreshClock = c.refreshClock + d) :
    Respects Machine.Twin (change f : Exec β Reply) :=
  Respects.of_frame (fun m r w => by simp only [change, Machine.withRefreshAt_cpu, hf, mapState_ok]; rfl)
    fun m => hd m.cpu

omit [Bus β] in
/-- A change of the CPU that writes R and its time afresh makes twins equal. -/
theorem change_twin_of_rewrites {f : Cpu → Cpu}
    (hf : ∀ (c : Cpu) r w, f (c.withRefreshAt r c.config.refresh w) = f c) :
    Respects Machine.Twin (change f : Exec β Reply) := by
  rintro m _ ⟨r, w, rfl, -⟩
  have he : (change f : Exec β Reply) (m.withRefreshAt r m.cpu.config.refresh w) = change f m := by
    simp only [change, Machine.withRefreshAt_cpu, hf]
    rfl
  rw [he]
  exact ⟨rfl, Machine.Twin.refl _⟩

omit [Bus β] in
/-- A change of the CPU that may be refused, does the same whatever R is held as and counts no
cycle, respects twins. -/
theorem attempt_twin {f : Cpu → Except Error Cpu}
    (hf : ∀ (c : Cpu) r w,
      f (c.withRefreshAt r c.config.refresh w) = (f c).map (·.withRefreshAt r c.config.refresh w))
    (hd : ∀ c c', f c = .ok c' → c'.refreshClock = c.refreshClock) :
    Respects Machine.Twin (attempt f : Exec β Reply) := by
  refine Respects.of_frame (fun m r w => ?_) fun m => ⟨0, ?_⟩
  · simp only [attempt, Machine.withRefreshAt_cpu, hf]
    cases f m.cpu <;> rfl
  · simp only [attempt]
    cases h : f m.cpu with
    | ok c => exact hd _ _ h
    | error e => rfl

omit [Bus β] in
/-- A change of the CPU that may be refused and writes R and its time afresh makes twins
equal, or is refused on both. -/
theorem attempt_twin_of_rewrites {f : Cpu → Except Error Cpu}
    (hf : ∀ (c : Cpu) r w, f (c.withRefreshAt r c.config.refresh w) = f c) :
    Respects Machine.Twin (attempt f : Exec β Reply) := by
  rintro m _ ⟨r, w, rfl, hl⟩
  simp only [attempt, Machine.withRefreshAt_cpu, hf]
  cases f m.cpu with
  | ok c => exact ⟨rfl, Machine.Twin.refl _⟩
  | error e => exact ⟨rfl, r, w, rfl, hl⟩

/-- Every host call from twins gives the same answer and leaves twins. -/
theorem exec_twin (op : HostOp β) : Respects Machine.Twin op.exec := by
  cases op with
  | run b => exact Respects.map _ (run_twin b)
  | step b => exact Respects.map _ (step_twin b)
  | addCycles n =>
    exact change_twin (f := (·.addCycles n)) (fun _ _ _ => rfl) fun _ => ⟨n.toNat, rfl⟩
  | clearOdometer =>
    exact change_twin (f := Cpu.clearOdometer) (fun _ _ _ => rfl) fun _ => ⟨0, rfl⟩
  | hardReset => exact change_twin_of_rewrites (f := Cpu.hardReset) fun _ _ _ => rfl
  | softReset => exact change_twin_of_rewrites (f := Cpu.softReset) fun _ _ _ => rfl
  | clearFault =>
    refine change_twin (f := Cpu.clearFault) (fun c r w => Cpu.clearFault_withRefreshAt c r _ w)
      fun c => ⟨0, ?_⟩
    unfold Cpu.clearFault
    split <;> rfl
  | set reg v =>
    by_cases hreg : reg = .r
    · subst hreg
      exact attempt_twin_of_rewrites (f := (·.set .r v)) fun c r w => Cpu.set_r_withRefreshAt c r w v
    · exact attempt_twin (f := (·.set reg v)) (fun c r w => Cpu.set_withRefreshAt c r _ w hreg v)
        fun _ _ h => Cpu.set_refreshClock h
  | restore snap =>
    exact attempt_twin_of_rewrites (f := (·.restore snap))
      fun c r w => Cpu.restore_withRefreshAt c r w snap
  | raiseNmi => exact change_twin (f := Cpu.raiseNmi) (fun _ _ _ => rfl) fun _ => ⟨0, rfl⟩
  | raiseInt v => exact change_twin (f := (·.raiseInt v)) (fun _ _ _ => rfl) fun _ => ⟨0, rfl⟩
  | clearInt => exact change_twin (f := Cpu.clearInt) (fun _ _ _ => rfl) fun _ => ⟨0, rfl⟩
  | addRegion data => exact Respects.of_frame (fun _ _ _ => rfl) fun _ => ⟨0, rfl⟩
  | mapFetch first last region offset =>
    exact attempt_twin (f := (·.mapFetch first last region offset))
      (fun c r w => Cpu.mapFetch_withRefreshAt c r _ w first last region offset)
      fun _ _ h => by rw [Cpu.mapFetch_ok h]
  | unmapFetch first last =>
    exact attempt_twin (f := (·.unmapFetch first last))
      (fun c r w => Cpu.unmapFetch_withRefreshAt c r _ w first last)
      fun _ _ h => by rw [Cpu.unmapFetch_ok h]
  | modifyRegion id g =>
    exact change_twin (f := (·.modifyRegion id g.apply)) (fun _ _ _ => rfl) fun _ => ⟨0, rfl⟩
  | useBus g => exact Respects.of_frame (fun _ _ _ => rfl) fun _ => ⟨0, rfl⟩

/-- A session from twins gets the same answers and leaves twins. The induction is on the
calls, each of which keeps twins twins. -/
theorem replay_twin (ops : List (HostOp β)) {m m' : Machine β} (h : m.Twin m') :
    (replay ops m').1 = (replay ops m).1 ∧ (replay ops m).2.Twin (replay ops m').2 := by
  induction ops generalizing m m' with
  | nil => exact ⟨rfl, h⟩
  | cons op ops ih =>
    obtain ⟨ha, h₁⟩ := exec_twin op h
    obtain ⟨hrest, h₂⟩ := ih h₁
    simp only [replay]
    exact ⟨by rw [ha, hrest], h₂⟩

end HostOp

/-! ## What a host sees of twins -/

theorem Cpu.get_eq_registers (c : Cpu) (reg : Reg) : c.get reg = c.registers.get reg := by
  by_cases hs : c.regs.status = .running
  · simp [Cpu.get, Registers.get, Cpu.registers, hs, bind, Except.bind]
  · simp only [Cpu.get, Registers.get, Cpu.registers, hs, if_false, bind, Except.bind, pure,
      Except.pure]
    cases reg <;> rfl

namespace Machine

variable {β : Type} {m m' : Machine β}

/-- Twins show a host the same registers, R read live included. -/
theorem Twin.registers (h : m.Twin m') : m'.cpu.registers = m.cpu.registers := by
  obtain ⟨r, w, rfl, hl⟩ := h
  have h0 := hl 0
  rw [Cpu.liveR_zero, Cpu.liveR_zero, withRefreshAt_cpu] at h0
  show ({ (m.cpu.withRefreshAt r _ w).regs with r := (m.cpu.withRefreshAt r _ w).refreshValue } :
    Registers) = { m.cpu.regs with r := m.cpu.refreshValue }
  rw [← h0]
  rfl

/-- Twins look the same to a host: every register it reads, R included, the save state it
takes, the status, the HALT line, the interrupt state, the odometer, the fetch map, fast RAM and
the bus. -/
theorem Twin.observe (h : m.Twin m') :
    (∀ reg, m'.cpu.get reg = m.cpu.get reg) ∧ m'.cpu.snapshot = m.cpu.snapshot ∧
      m'.cpu.regs.status = m.cpu.regs.status ∧ m'.cpu.regs.halted = m.cpu.regs.halted ∧
      m'.cpu.interruptState = m.cpu.interruptState ∧ m'.cpu.odometer = m.cpu.odometer ∧
      m'.cpu.fetch = m.cpu.fetch ∧ m'.cpu.fastRam = m.cpu.fastRam ∧ m'.bus = m.bus := by
  have hr := h.registers
  obtain ⟨r, w, rfl, -⟩ := h
  refine ⟨fun reg => by rw [Cpu.get_eq_registers, Cpu.get_eq_registers, hr], ?_, rfl, rfl, rfl,
    rfl, rfl, rfl, rfl⟩
  simp only [Cpu.snapshot, hr]
  rfl

end Machine

end Z80
