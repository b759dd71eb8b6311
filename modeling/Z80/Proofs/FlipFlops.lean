import Z80.Proofs.Session

/-!
# The interrupt flip-flops

IFF1 enables maskable interrupts; IFF2 holds the copy that RETN restores and that
LD A,I and LD A,R read into P/V. A step writes the pair in one of five ways
(`IffWrite`): an NMI acknowledgment clears IFF1 only, an INT acknowledgment and DI clear
both, EI sets both, RETN, RETI and their mirrors copy IFF2 into IFF1, and every other
step keeps them.

`IffWrite.ofBytes` reads the write off the bytes at PC as the instruction set lays it
out: DI is F3, EI is FB and the RETN group is every ED opcode 01yyy101, each also after
a DD or FD prefix, which they ignore. `decode_iffWrite` proves that the decoder agrees
across every prefix family, and `executeOne_iffs` that every step, from every state,
writes the flip-flops as `Control.iffWrite` says.

Every kind of write keeps "IFF1 implies IFF2" (`IffWrite.apply_ordered`). So does
everything around the steps, and every single step and every run keep it, finished or
stopped (`step_iffOrdered`, `run_iffOrdered`); both resets establish it.
-/

open Std.Do

set_option mvcgen.warning false

namespace Z80

/-! ## Writes of the flip-flops -/

/-- How a step writes the interrupt flip-flops IFF1 and IFF2. -/
inductive IffWrite where
  /-- Both kept. -/
  | keep
  /-- Both cleared: DI, and an INT acknowledgment. -/
  | clearBoth
  /-- Both set: EI. -/
  | setBoth
  /-- IFF1 cleared and IFF2 kept: an NMI acknowledgment. -/
  | clearFirst
  /-- IFF1 restored from IFF2: RETN, RETI and their mirrors. -/
  | restoreFirst
deriving DecidableEq

namespace IffWrite

/-- The flip-flops `(IFF1, IFF2)` after the write. -/
def apply : IffWrite → Bool × Bool → Bool × Bool
  | keep, p => p
  | clearBoth, _ => (false, false)
  | setBoth, _ => (true, true)
  | clearFirst, (_, iff2) => (false, iff2)
  | restoreFirst, (_, iff2) => (iff2, iff2)

/-- Every write keeps "IFF1 implies IFF2". -/
theorem apply_ordered (w : IffWrite) {p : Bool × Bool} (h : p.1 = true → p.2 = true) :
    (w.apply p).1 = true → (w.apply p).2 = true := by
  obtain ⟨iff1, iff2⟩ := p
  cases w <;> simp_all [apply]

/-- How the instruction whose bytes are `code 0, code 1, …` writes the flip-flops. -/
def ofBytes (code : Nat → UInt8) : IffWrite :=
  -- DI, EI and the ED group ignore an index prefix in front of them
  let b : Nat → UInt8 := if code 0 = 0xDD ∨ code 0 = 0xFD then fun k => code (k + 1) else code
  if b 0 = 0xF3 then clearBoth
  else if b 0 = 0xFB then setBoth
  else if b 0 = 0xED ∧ b 1 >>> 6 = 1 ∧ b 1 &&& 7 = 5 then restoreFirst
  else keep

end IffWrite

/-! ## Decoding -/

/-- How an instruction writes the flip-flops. -/
def Instr.iffWrite : Instr → IffWrite
  | .di => .clearBoth
  | .ei => .setBoth
  | .retn => .restoreFirst
  | _ => .keep

theorem Instr.control_iffs (i : Instr) (c : Control) :
    ((i.control c).iff1, (i.control c).iff2) = i.iffWrite.apply (c.iff1, c.iff2) := by
  cases i <;> rfl

namespace UInt8

theorem eq_F3_of_fields {op : UInt8} (h0 : ¬op >>> 6 = 0) (h1 : ¬op >>> 6 = 1)
    (h2 : ¬op >>> 6 = 2) (hz : op &&& 7 = 3) (hy : (op >>> 3) &&& 7 = 6) : op = 0xF3 := by
  revert h0 h1 h2 hz hy
  obtain ⟨b⟩ := op
  revert b
  decide

theorem eq_FB_of_fields {op : UInt8} (h0 : ¬op >>> 6 = 0) (h1 : ¬op >>> 6 = 1)
    (h2 : ¬op >>> 6 = 2) (hz : op &&& 7 = 3) (hy : (op >>> 3) &&& 7 = 7) : op = 0xFB := by
  revert h0 h1 h2 hz hy
  obtain ⟨b⟩ := op
  revert b
  decide

end UInt8

namespace Decode

/-- In the unprefixed table (and after DD or FD) only F3 and FB write the flip-flops. -/
theorem main_iffWrite (x : Option Index) (op : UInt8) (arg : Nat → UInt8) :
    (main x op arg).1.iffWrite =
      if op = 0xF3 then .clearBoth else if op = 0xFB then .setBoth else .keep := by
  by_cases hdi : op = 0xF3
  · subst hdi
    rfl
  by_cases hei : op = 0xFB
  · subst hei
    rfl
  rw [if_neg hdi, if_neg hei]
  simp only [main]
  -- every leaf of the table but DI and EI keeps them; those two leaves name F3 and FB
  repeat' split
  all_goals first
    | rfl
    | exact absurd (UInt8.eq_F3_of_fields ‹_› ‹_› ‹_› ‹_› ‹_›) hdi
    | exact absurd (UInt8.eq_FB_of_fields ‹_› ‹_› ‹_› ‹_› ‹_›) hei

/-- In the ED group only the opcodes 01yyy101 write the flip-flops. -/
theorem ed_iffWrite (op : UInt8) (arg : Nat → UInt8) :
    (ed op arg).1.iffWrite = if op >>> 6 = 1 ∧ op &&& 7 = 5 then .restoreFirst else .keep := by
  by_cases h : op >>> 6 = 1 ∧ op &&& 7 = 5
  · simp only [ed, h.1, h.2]
    rfl
  rw [if_neg h]
  simp only [ed]
  repeat' split
  all_goals first
    | rfl
    | exact absurd ⟨‹_›, ‹_›⟩ h

theorem bitOp_iffWrite (op : UInt8) (o : Operand) (copy : Option Reg8) :
    (bitOp op o copy).iffWrite = .keep := by
  unfold bitOp
  split <;> rfl

end Decode

open Decode in
/-- The decoder writes the flip-flops as the bytes say, in every prefix family. -/
theorem decode_iffWrite (code : Nat → UInt8) :
    (decode code).instr.iffWrite = IffWrite.ofBytes code := by
  by_cases hp : code 0 = 0xDD ∨ code 0 = 0xFD
  · -- after an index prefix the next byte decides
    simp only [decode, IffWrite.ofBytes, hp, if_true]
    by_cases hn : code 1 = 0xDD ∨ code 1 = 0xFD
    · rcases hn with hn | hn <;> simp [hn, Instr.iffWrite]
    by_cases hcb : code 1 = 0xCB
    · simp [hcb, indexedCb, bitOp_iffWrite]
    by_cases hed : code 1 = 0xED
    · rcases he : ed (code 2) (fun k => code (k + 3)) with ⟨i, n⟩
      have hi := ed_iffWrite (code 2) (fun k => code (k + 3))
      rw [he] at hi
      simp [hed, hi]
    · rcases hm : main (some (if code 0 = 0xDD then .ix else .iy)) (code 1)
          (fun k => code (k + 2)) with ⟨i, n⟩
      have hi := main_iffWrite (some (if code 0 = 0xDD then .ix else .iy)) (code 1)
        (fun k => code (k + 2))
      rw [hm] at hi
      simp [hn, hcb, hed, hi]
  · simp only [decode, IffWrite.ofBytes, hp, if_false]
    by_cases hcb : code 0 = 0xCB
    · simp [hcb, cb, bitOp_iffWrite]
    by_cases hed : code 0 = 0xED
    · rcases he : ed (code 1) (fun k => code (k + 2)) with ⟨i, n⟩
      have hi := ed_iffWrite (code 1) (fun k => code (k + 2))
      rw [he] at hi
      simp [hed, hi]
    · rcases hm : main none (code 0) (fun k => code (k + 1)) with ⟨i, n⟩
      have hi := main_iffWrite none (code 0) (fun k => code (k + 1))
      rw [hm] at hi
      simp [hcb, hed, hi]

/-- RETI after an FD prefix, and LD A,I, which only reads IFF2. -/
example : (decode fun k => [0xFD, 0xED, 0x4D].getD k 0).instr.iffWrite = .restoreFirst ∧
    (decode fun k => [0xED, 0x57].getD k 0).instr.iffWrite = .keep := by
  decide

/-! ## One step -/

namespace Control

/-- How a step from control state `c` writes the flip-flops, when `w` is how the
instruction at PC writes them: an acknowledgment or a halted idle decides alone. -/
def iffWrite (c : Control) (w : IffWrite) : IffWrite :=
  match c.taken with
  | some .nmi => .clearFirst
  | some _ => .clearBoth
  | none => if c.halted then .keep else w

/-- Sampling the requests writes the flip-flops as a step whose instruction keeps them. -/
theorem sample_iffs (c : Control) :
    (c.sample.iff1, c.sample.iff2) = (c.iffWrite .keep).apply (c.iff1, c.iff2) := by
  unfold sample iffWrite
  rcases h : c.taken with _ | k
  · cases c.halted <;> rfl
  · rcases taken_eq_some h with rfl | rfl <;> rfl

theorem step_iffs (c : Control) (i : Instr) :
    ((c.step i).iff1, (c.step i).iff2) = (c.iffWrite i.iffWrite).apply (c.iff1, c.iff2) := by
  unfold step stepKind
  rcases h : c.taken with _ | k
  · -- no request: a halted idle keeps them, an instruction writes them
    cases hh : c.halted
    · simp only [Option.getD_none, Bool.false_eq_true, ↓reduceIte]
      rw [Instr.control_iffs]
      simp [sample, iffWrite, h, hh]
    · simp only [Option.getD_none, ↓reduceIte]
      rw [if_neg (by decide), sample_iffs]
      simp [iffWrite, h, hh]
  · rcases taken_eq_some h with rfl | rfl <;>
      simp only [Option.getD_some, reduceCtorEq, ↓reduceIte] <;>
      rw [sample_iffs] <;> simp [iffWrite, h]

end Control

/-- The bytes at PC, as the fetch map presents them. -/
def Cpu.opcodes (c : Cpu) : Nat → UInt8 := fun k => c.fetch.fetch (c.regs.pc + k.toUInt16)

theorem Cpu.nextInstr_eq (c : Cpu) : c.nextInstr = decode c.opcodes := rfl

namespace Exec

variable {β : Type} [Bus β]

/-- Every step writes the flip-flops as its kind and the bytes at PC say. -/
theorem executeOne_iffs {m m' : Machine β} {s : StepResult}
    (h : (executeOne : Exec β StepResult) m = .ok s m') :
    (m'.cpu.regs.iff1, m'.cpu.regs.iff2) =
      (m.control.iffWrite (IffWrite.ofBytes m.cpu.opcodes)).apply
        (m.cpu.regs.iff1, m.cpu.regs.iff2) := by
  obtain ⟨-, -, hc⟩ := executeOne_ok h
  have hm' : (m'.cpu.regs.iff1, m'.cpu.regs.iff2) = (m'.control.iff1, m'.control.iff2) := rfl
  rw [hm', hc, ← decode_iffWrite, ← Cpu.nextInstr_eq]
  exact Control.step_iffs _ _

/-- A single step writes the flip-flops as the step it executes: entering and settling
leave them alone. -/
theorem step_iffs {m m' : Machine β} {r r' : Int64} {s : StepResult}
    (h : (Cpu.step r : Exec β (StepResult × Int64)) m = .ok (s, r') m') :
    (m'.cpu.regs.iff1, m'.cpu.regs.iff2) =
      (m.control.iffWrite (IffWrite.ofBytes m.cpu.opcodes)).apply
        (m.cpu.regs.iff1, m.cpu.regs.iff2) := by
  obtain ⟨x', hx, rfl, -⟩ := executeOne_of_step h
  -- settling and entering touch only the status
  have hw := executeOne_iffs hx
  exact hw

end Exec

/-! ## IFF1 implies IFF2 -/

/-- IFF1 is set only when IFF2 is. -/
def Registers.IffOrdered (rs : Registers) : Prop := rs.iff1 = true → rs.iff2 = true

theorem Registers.IffOrdered.of_apply {rs rs' : Registers} (w : IffWrite) (h : rs.IffOrdered)
    (hw : (rs'.iff1, rs'.iff2) = w.apply (rs.iff1, rs.iff2)) : rs'.IffOrdered := by
  have hord := w.apply_ordered (p := (rs.iff1, rs.iff2)) h
  rw [← hw] at hord
  exact hord

/-- A hard reset clears both flip-flops. -/
theorem Cpu.hardReset_iffOrdered (c : Cpu) : c.hardReset.regs.IffOrdered := by
  simp [Cpu.hardReset, Registers.IffOrdered]

/-- A soft reset clears both flip-flops. -/
theorem Cpu.softReset_iffOrdered (c : Cpu) : c.softReset.regs.IffOrdered := by
  simp [Cpu.softReset, Registers.softReset, Registers.IffOrdered]

namespace Exec

variable {β : Type} [Bus β]

omit [Bus β] in
/-- A computation that keeps `P` from every start, finished or stopped, as a triple. -/
theorem keeps_triple {α : Type} {P : Machine β → Prop} {x : Exec β α}
    (h : ∀ m, P m → P (Exec.after (x m))) :
    ⦃fun m => ⌜P m⌝⦄ x ⦃post⟨fun _ m => ⌜P m⌝, fun _ m => ⌜P m⌝⟩⦄ := by
  simp only [Triple.iff]
  intro m hm
  have hx := h m hm
  rw [wp_apply]
  cases hxm : x m <;> rw [hxm] at hx <;> exact hx

omit [Bus β] in
/-- A triple of that form, read at the outcome. -/
theorem after_of_keeps {α : Type} {P : Machine β → Prop} {x : Exec β α}
    (hT : ⦃fun m => ⌜P m⌝⦄ x ⦃post⟨fun _ m => ⌜P m⌝, fun _ m => ⌜P m⌝⟩⦄)
    {m : Machine β} (hm : P m) : P (Exec.after (x m)) := by
  cases hx : x m with
  | ok a m' => exact ok_of_triple hT hm hx
  | error e m' => exact error_of_triple hT hm hx

/-- What every step keeps, finished or stopped, and every batch of idles keeps, the run
loop keeps. -/
theorem runLoop_invariant {P : Machine β → Prop}
    (hstep : ∀ x, P x → P (Exec.after ((executeOne : Exec β StepResult) x)))
    (hidle : ∀ x n, P x → P (x.idle n)) (fuel : Nat) :
    ∀ (rem : Int64) (c : Nat) (x : Machine β), P x →
      P (Exec.after ((runLoop fuel rem c : Exec β (Int64 × Nat)) x)) := by
  induction fuel with
  | zero => exact fun _ _ _ h => h
  | succ fuel ih =>
    intro rem c x h
    have hs := hstep x h
    simp only [runLoop]
    split
    · exact h
    · rcases hx : (executeOne : Exec β StepResult) x with ⟨s, x₁⟩ | ⟨e, x₁⟩ <;> rw [hx] at hs
      · simp only
        split
        · rw [idleHalted_apply]
          exact ih _ _ _ (hidle _ _ hs)
        · exact ih _ _ _ hs
      · exact hs

/-- What every step keeps and is blind to the status, a single step keeps, finished or
stopped: entering and settling write only the status. -/
theorem step_invariant {P : Machine β → Prop}
    (hstep : ∀ x, P x → P (Exec.after ((executeOne : Exec β StepResult) x)))
    (hstatus : ∀ x s, P x → P { x with cpu := { x.cpu with regs := { x.cpu.regs with status := s } } })
    (r : Int64) {m : Machine β} (h : P m) :
    P (Exec.after ((Cpu.step r : Exec β (StepResult × Int64)) m)) := by
  have hx := keeps_triple hstep
  have hT : ⦃fun m : Machine β => ⌜P m⌝⦄ (Cpu.step r : Exec β (StepResult × Int64))
      ⦃post⟨fun _ m => ⌜P m⌝, fun _ m => ⌜P m⌝⟩⦄ := by
    mvcgen [Cpu.step, enter, Exec.settle, hx]
    all_goals exact hstatus _ _ ‹P _›
  exact after_of_keeps hT h

/-- What the run loop keeps and is blind to the status and the odometer, a run keeps,
finished or stopped. -/
theorem run_invariant {P : Machine β → Prop}
    (hrun : ∀ fuel rem c x, P x → P (Exec.after ((runLoop fuel rem c : Exec β (Int64 × Nat)) x)))
    (hstatus : ∀ x s, P x → P { x with cpu := { x.cpu with regs := { x.cpu.regs with status := s } } })
    (hodometer : ∀ x o, P x → P { x with cpu := { x.cpu with odometer := o } })
    (b : UInt32) {m : Machine β} (h : P m) :
    P (Exec.after ((Cpu.run b : Exec β RunOutcome) m)) := by
  have hloop : ∀ fuel rem c, ⦃fun m : Machine β => ⌜P m⌝⦄
      (runLoop fuel rem c : Exec β (Int64 × Nat)) ⦃post⟨fun _ m => ⌜P m⌝, fun _ m => ⌜P m⌝⟩⦄ :=
    fun fuel rem c => keeps_triple (hrun fuel rem c)
  have hT : ⦃fun m : Machine β => ⌜P m⌝⦄ (Cpu.run b : Exec β RunOutcome)
      ⦃post⟨fun _ m => ⌜P m⌝, fun _ m => ⌜P m⌝⟩⦄ := by
    mvcgen [Cpu.run, enter, Exec.settle, hloop]
    -- entering marks the status; a run opens and closes the odometer and settling marks the
    -- status again, which a single update of each covers
    all_goals first
      | exact hstatus _ _ ‹P _›
      | exact hodometer _ _ (hstatus _ _ ‹P _›)
  exact after_of_keeps hT h

/-- A step keeps IFF1 → IFF2, finished or stopped. -/
theorem executeOne_iffOrdered {m : Machine β} (h : m.cpu.regs.IffOrdered) :
    (Exec.after ((executeOne : Exec β StepResult) m)).cpu.regs.IffOrdered := by
  rcases hx : (executeOne : Exec β StepResult) m with ⟨s, m'⟩ | ⟨e, m'⟩
  · exact h.of_apply _ (executeOne_iffs hx)
  · -- an aborted step has only sampled the requests
    have hw := Control.sample_iffs m.control
    rw [← (executeOne_error hx).1] at hw
    exact h.of_apply _ hw

/-- The run loop keeps IFF1 → IFF2: its steps do, and its idles leave the flip-flops
alone. -/
theorem runLoop_iffOrdered (fuel : Nat) : ∀ (rem : Int64) (c : Nat) (x : Machine β),
    x.cpu.regs.IffOrdered →
      (Exec.after ((runLoop fuel rem c : Exec β (Int64 × Nat)) x)).cpu.regs.IffOrdered :=
  runLoop_invariant (fun _ h => executeOne_iffOrdered h)
    (fun x n h => by rw [Registers.IffOrdered, (Machine.idle_cpu x n).1]; exact h) fuel

/-- A single step keeps IFF1 → IFF2, finished or stopped. -/
theorem step_iffOrdered (r : Int64) {m : Machine β} (h : m.cpu.regs.IffOrdered) :
    (Exec.after ((Cpu.step r : Exec β (StepResult × Int64)) m)).cpu.regs.IffOrdered :=
  step_invariant (P := fun m : Machine β => m.cpu.regs.IffOrdered)
    (fun _ h => executeOne_iffOrdered h) (fun _ _ h => h) r h

/-- A run keeps IFF1 → IFF2, finished or stopped. -/
theorem run_iffOrdered (b : UInt32) {m : Machine β} (h : m.cpu.regs.IffOrdered) :
    (Exec.after ((Cpu.run b : Exec β RunOutcome) m)).cpu.regs.IffOrdered :=
  run_invariant (P := fun m : Machine β => m.cpu.regs.IffOrdered) runLoop_iffOrdered
    (fun _ _ h => h) (fun _ _ h => h) b h

end Exec

/-! ## The discipline -/

open Exec in
/-- Every step, from every state, writes IFF1 and IFF2 as its kind and the bytes at PC
say: an NMI acknowledgment clears IFF1 only, an INT acknowledgment clears both, a halted
idle keeps both, and an instruction writes them as `IffWrite.ofBytes` reads off its
bytes (DI clears both, EI sets both, ED 01yyy101 copies IFF2 into IFF1, all else keeps
both). So every step, single step and run keeps "IFF1 implies IFF2", finished or
stopped, and both resets establish it. -/
theorem iff_write_discipline {β : Type} [Bus β] :
    (∀ (m m' : Machine β) (s : StepResult), (executeOne : Exec β StepResult) m = .ok s m' →
      (m'.cpu.regs.iff1, m'.cpu.regs.iff2) =
        (m.control.iffWrite (IffWrite.ofBytes m.cpu.opcodes)).apply
          (m.cpu.regs.iff1, m.cpu.regs.iff2)) ∧
    (∀ (m m' : Machine β) (r r' : Int64) (s : StepResult),
      (Cpu.step r : Exec β (StepResult × Int64)) m = .ok (s, r') m' →
      (m'.cpu.regs.iff1, m'.cpu.regs.iff2) =
        (m.control.iffWrite (IffWrite.ofBytes m.cpu.opcodes)).apply
          (m.cpu.regs.iff1, m.cpu.regs.iff2)) ∧
    (∀ m : Machine β, m.cpu.regs.IffOrdered →
      (Exec.after ((executeOne : Exec β StepResult) m)).cpu.regs.IffOrdered) ∧
    (∀ (m : Machine β) (r : Int64), m.cpu.regs.IffOrdered →
      (Exec.after ((Cpu.step r : Exec β (StepResult × Int64)) m)).cpu.regs.IffOrdered) ∧
    (∀ (m : Machine β) (b : UInt32), m.cpu.regs.IffOrdered →
      (Exec.after ((Cpu.run b : Exec β RunOutcome) m)).cpu.regs.IffOrdered) ∧
    (∀ c : Cpu, c.hardReset.regs.IffOrdered ∧ c.softReset.regs.IffOrdered) :=
  ⟨fun _ _ _ h => executeOne_iffs h,
   fun _ _ _ _ _ h => step_iffs h,
   fun _ h => executeOne_iffOrdered h,
   fun _ r h => step_iffOrdered r h,
   fun _ b h => run_iffOrdered b h,
   fun c => ⟨c.hardReset_iffOrdered, c.softReset_iffOrdered⟩⟩

end Z80
