import Z80.Proofs.Bookkeeping

/-!
# Idling through HALT

A halted CPU with no interrupt it could take spends each step on one idle: R counts an
opcode fetch and four cycles are counted. The run loop charges what is left of its
budget in one go instead (`idleHalted`): `n` fetches in R and `4n` cycles at once. This
module proves the two agree.

R counts fetches in its low seven bits and keeps bit 7. `Registers.advanceR` is
characterised by what it does to each part (`advanceR_r_high`, `advanceR_r_low`), and
from there fetches counted in two goes are fetches counted in one (`advanceR_add`), in
both refresh modes (`Cpu.refreshBy_add`). `Machine.idle` is the machine after `n` idles:
one halted step is `Machine.idle 1` (`executeOne_idle`), idles compose (`idle_add`), and
the run loop's charge is `Machine.idle n` for the number of idles that use up the
budget (`idleHalted_apply`).
-/

namespace Z80

/-! ## Counting fetches in R -/

namespace UInt8

/-- A byte is determined by its bit 7 and its low seven bits. -/
theorem eq_of_high_low {x y : UInt8} (hh : x &&& 0x80 = y &&& 0x80)
    (hl : x.toNat % 128 = y.toNat % 128) : x = y := by
  have split : ∀ z : UInt8, z.toNat = (z &&& 0x80).toNat + z.toNat % 128 := by
    intro z
    obtain ⟨b⟩ := z
    revert b
    decide
  apply UInt8.toNat_inj.mp
  rw [split x, split y, hh, hl]

/-- Bit 7 and the low seven bits of a byte put together from two. -/
theorem high_low_join (x z : UInt8) :
    ((x &&& 0x80) ||| (z &&& 0x7F)) &&& 0x80 = x &&& 0x80 ∧
      ((x &&& 0x80) ||| (z &&& 0x7F)).toNat % 128 = z.toNat % 128 := by
  have hx : x &&& 0x80 = 0 ∨ x &&& 0x80 = 0x80 := by
    obtain ⟨b⟩ := x
    revert b
    decide
  -- with bit 7 fixed, what is left is a statement about `z` alone
  rcases hx with hx | hx <;> rw [hx] <;> obtain ⟨b⟩ := z <;> revert b <;> decide

theorem low_add_masked (x a : UInt8) :
    ((x &&& 0x7F) + a).toNat % 128 = (x.toNat + a.toNat) % 128 := by
  have hm : (x &&& 0x7F).toNat = x.toNat % 128 := by
    obtain ⟨b⟩ := x
    revert b
    decide
  rw [UInt8.toNat_add, hm]
  omega

end UInt8

namespace Registers

@[simp] theorem advanceR_r_high (rs : Registers) (n : Nat) :
    (rs.advanceR n).r &&& 0x80 = rs.r &&& 0x80 :=
  (UInt8.high_low_join _ _).1

theorem advanceR_r_low (rs : Registers) (n : Nat) :
    (rs.advanceR n).r.toNat % 128 = (rs.r.toNat + n) % 128 := by
  have hn : (n % 128).toUInt8.toNat = n % 128 := by
    simp only [Nat.toUInt8_eq, UInt8.toNat_ofNat']
    omega
  simp only [advanceR]
  rw [(UInt8.high_low_join _ _).2, UInt8.low_add_masked, hn]
  omega

/-- Fetches counted in two goes are counted in one. -/
theorem advanceR_add (rs : Registers) (a b : Nat) :
    (rs.advanceR a).advanceR b = rs.advanceR (a + b) := by
  have hr : ((rs.advanceR a).advanceR b).r = (rs.advanceR (a + b)).r := by
    apply UInt8.eq_of_high_low
    · simp only [advanceR_r_high]
    · simp only [advanceR_r_low]
      rw [Nat.add_mod, advanceR_r_low]
      omega
  -- `advanceR` writes R and nothing else
  simp only [advanceR] at hr ⊢
  rw [hr]

@[simp] theorem advanceR_zero (rs : Registers) : rs.advanceR 0 = rs := by
  have hr : (rs.advanceR 0).r = rs.r := by
    apply UInt8.eq_of_high_low
    · simp only [advanceR_r_high]
    · simp only [advanceR_r_low, Nat.add_zero]
  simp only [advanceR] at hr ⊢
  rw [hr]

end Registers

theorem Cpu.refreshBy_add (c : Cpu) (a b : Nat) :
    (c.refreshBy a).refreshBy b = c.refreshBy (a + b) := by
  cases h : c.config.refresh <;> simp [Cpu.refreshBy, h, Registers.advanceR_add]

@[simp] theorem Cpu.refreshBy_zero (c : Cpu) : c.refreshBy 0 = c := by
  cases h : c.config.refresh <;> simp [Cpu.refreshBy, h]

/-! ## Counting cycles -/

theorem Odometer.advance_add (o : Odometer) (a b : Nat) :
    (o.advance a).advance b = o.advance (a + b) := by
  simp only [advance, Nat.toUInt64_eq, UInt64.ofNat_add]
  change ({ o with total := ⟨o.total.count + _ + _⟩ } : Odometer) =
    { o with total := ⟨o.total.count + (_ + _)⟩ }
  rw [UInt64.add_assoc]

@[simp] theorem Odometer.advance_zero (o : Odometer) : o.advance 0 = o := by
  simp only [advance]
  change ({ o with total := ⟨o.total.count + 0⟩ } : Odometer) = o
  simp

/-! ## Idles -/

/-- The machine after `n` idles while halted: `n` opcode fetches counted in R and four
cycles each counted on the odometer and the refresh clock. -/
def Machine.idle {β : Type} (x : Machine β) (n : Nat) : Machine β :=
  { x with cpu := { x.cpu.refreshBy n with
    odometer := x.cpu.odometer.advance (n * Timing.halted),
    refreshClock := x.cpu.refreshClock + n * Timing.halted } }

namespace Machine

variable {β : Type}

@[simp] theorem idle_zero (x : Machine β) : x.idle 0 = x := by
  simp only [idle, Cpu.refreshBy_zero, Nat.zero_mul, Odometer.advance_zero, Nat.add_zero]

/-- Idles compose. -/
theorem idle_add (x : Machine β) (a b : Nat) : (x.idle a).idle b = x.idle (a + b) := by
  cases h : x.cpu.config.refresh <;>
    simp [idle, Cpu.refreshBy, h, Registers.advanceR_add, Odometer.advance_add, Nat.add_mul,
      Nat.add_assoc]

@[simp] theorem idle_control (x : Machine β) (n : Nat) :
    (x.idle n).control = x.control.count (n * Timing.halted) := by
  simp [idle, Machine.control, Control.count]

/-- Idles write R and the counts, nothing else of the registers. -/
@[simp] theorem idle_cpu (x : Machine β) (n : Nat) :
    (x.idle n).cpu.regs = { x.cpu.regs with r := x.cpu.fetchedR n } ∧
      (x.idle n).cpu.eiShadow = x.cpu.eiShadow := by
  simp [idle]

@[simp] theorem idle_bus (x : Machine β) (n : Nat) : (x.idle n).bus = x.bus := rfl

end Machine

namespace Exec

variable {β : Type} [Bus β]

omit [Bus β] in
/-- The run loop's charge for a halted CPU: the idles that use up the remainder `rem`,
rounded up to whole idles. -/
theorem idleHalted_apply (rem : Int64) (x : Machine β) :
    (idleHalted rem : Exec β Nat) x =
      .ok ((rem.toInt.toNat + 3) / 4 * Timing.halted) (x.idle ((rem.toInt.toNat + 3) / 4)) := by
  have hn : (rem.toInt.toNat + Timing.halted - 1) / Timing.halted = (rem.toInt.toNat + 3) / 4 := by
    simp only [Timing.halted]
    omega
  simp only [idleHalted, account, bind, EStateM.bind, modifyCpu, pure, EStateM.pure, hn,
    Machine.idle, Cpu.refreshBy_eq]

/-- A halted step with no request to take consumes the EI shadow and idles once. -/
theorem executeOne_of_halted {x : Machine β} (hh : x.cpu.regs.halted = true)
    (hn : x.control.taken = none) :
    (executeOne : Exec β StepResult) x =
      .ok ⟨.halted, Timing.halted⟩ (Machine.idle { x with cpu := { x.cpu with eiShadow := false } } 1) := by
  simp only [executeOne, account, bind, EStateM.bind, serviceInterrupts_of_taken_none hn, regs, hh,
    if_true, modifyCpu, pure, EStateM.pure, Cpu.refresh_eq, Machine.idle, Cpu.refreshBy_eq,
    Nat.one_mul]

/-- One halted step with no request to take and the shadow clear is one idle. -/
theorem executeOne_idle {x : Machine β} (hh : x.cpu.regs.halted = true)
    (hn : x.control.taken = none) (he : x.cpu.eiShadow = false) :
    (executeOne : Exec β StepResult) x = .ok ⟨.halted, Timing.halted⟩ (x.idle 1) := by
  have hs : ({ x with cpu := { x.cpu with eiShadow := false } } : Machine β) = x := by
    rw [← he]
  rw [executeOne_of_halted hh hn, hs]

end Exec

end Z80
