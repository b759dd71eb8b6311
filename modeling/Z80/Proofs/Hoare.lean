import Mathlib
import Std.Tactic.Do
import Z80.Cpu.Step

/-!
# Hoare triples for executions against a bus

Facts about every instruction are proved with `mvcgen`: the verification-condition
generator walks an `Exec` program, replaces each primitive by its specification and
leaves first-order goals about the final machine. This module gives it what it needs.

* `wp_apply`: the weakest precondition of an `Exec` computation is its postcondition
  at the outcome, finished or stopped.
* Specifications of the primitives that read and change the CPU, and of port I/O. They
  are schematic in the postcondition, so `mvcgen` can use them at any point of a program.
* `readByte_eq`: a data read written as a program that looks at the machine and then
  branches on the fast RAM window and on the bus's answer. A read has three outcomes
  (fast RAM, a bus byte, a refused read), and `mvcgen` splits on them, so a condition
  on the refused read is stated where it arises.
* `writeByte_spec`: a write always finishes, in the machine `Machine.write` names; its
  field lemmas say that it reaches only the bus or the fast RAM bytes.
-/

open Std.Do

namespace Z80

namespace Exec

/-- A postcondition of an `Exec` computation: one for its result, one for an abort. -/
abbrev Post (α β : Type) := PostCond α (.except Abort (.arg (Machine β) .pure))

section State

variable {β : Type}

/-- The weakest precondition of a computation is its postcondition at the outcome. -/
theorem wp_apply {α : Type} (x : Exec β α) (Q : Post α β) (m : Machine β) :
    wp⟦x⟧ Q m = match x m with
      | .ok a m' => Q.1 a m'
      | .error e m' => Q.2.1 e m' := by
  cases h : x m <;> simp only [WP.wp, PredTrans.apply, EStateM.run, h]

@[spec] theorem regs_spec {Q : Post Registers β} :
    ⦃fun m => Q.1 m.cpu.regs m⦄ (regs : Exec β Registers) ⦃Q⦄ := by
  simp only [Triple.iff]
  intro m h
  rw [wp_apply]
  exact h

@[spec] theorem cpu_spec {Q : Post Cpu β} :
    ⦃fun m => Q.1 m.cpu m⦄ (cpu : Exec β Cpu) ⦃Q⦄ := by
  simp only [Triple.iff]
  intro m h
  rw [wp_apply]
  exact h

@[spec] theorem modifyCpu_spec {f : Cpu → Cpu} {Q : Post Unit β} :
    ⦃fun m => Q.1 () { m with cpu := f m.cpu }⦄ (modifyCpu f : Exec β Unit) ⦃Q⦄ := by
  simp only [Triple.iff]
  intro m h
  rw [wp_apply]
  exact h

@[spec] theorem modifyRegs_spec {f : Registers → Registers} {Q : Post Unit β} :
    ⦃fun m => Q.1 () { m with cpu := { m.cpu with regs := f m.cpu.regs } }⦄
      (modifyRegs f : Exec β Unit) ⦃Q⦄ := by
  simp only [Triple.iff]
  intro m h
  rw [wp_apply]
  exact h

/-- A triple with pure pre- and postconditions, read at a finished run. -/
theorem ok_of_triple {α : Type} {P : Machine β → Prop} {R : α → Machine β → Prop}
    {E : Abort → Machine β → Prop} {x : Exec β α}
    (hT : ⦃fun m => ⌜P m⌝⦄ x ⦃post⟨fun a m => ⌜R a m⌝, fun e m => ⌜E e m⌝⟩⦄)
    {m m' : Machine β} {a : α} (hm : P m) (h : x m = .ok a m') : R a m' := by
  have hw := (Triple.iff.mp hT) m hm
  rw [wp_apply, h] at hw
  exact hw

/-- A triple with pure pre- and postconditions, read at an aborted run. -/
theorem error_of_triple {α : Type} {P : Machine β → Prop} {R : α → Machine β → Prop}
    {E : Abort → Machine β → Prop} {x : Exec β α}
    (hT : ⦃fun m => ⌜P m⌝⦄ x ⦃post⟨fun a m => ⌜R a m⌝, fun e m => ⌜E e m⌝⟩⦄)
    {m m' : Machine β} {e : Abort} (hm : P m) (h : x m = .error e m') : E e m' := by
  have hw := (Triple.iff.mp hT) m hm
  rw [wp_apply, h] at hw
  exact hw

/-- A triple whose abort postcondition is false: the computation finishes. -/
theorem exists_ok_of_triple {α : Type} {P : Machine β → Prop} {R : α → Machine β → Prop}
    {x : Exec β α} (hT : ⦃fun m => ⌜P m⌝⦄ x ⦃post⟨fun a m => ⌜R a m⌝, fun _ _ => ⌜False⌝⟩⦄)
    {m : Machine β} (hm : P m) : ∃ a m', x m = .ok a m' ∧ R a m' := by
  have hw := (Triple.iff.mp hT) m hm
  rw [wp_apply] at hw
  cases h : x m with
  | ok a m' => rw [h] at hw; exact ⟨a, m', rfl, hw⟩
  | error e m' => rw [h] at hw; exact hw.elim

end State

variable {β : Type} [Bus β]

/-! ## Ports -/

@[spec] theorem input_spec {p : UInt16} {Q : Post UInt8 β} :
    ⦃fun m => Q.1 (Bus.input m.bus p).1 ⟨m.cpu, (Bus.input m.bus p).2⟩⦄
      (input p : Exec β UInt8) ⦃Q⦄ := by
  simp only [Triple.iff]
  intro m h
  rw [wp_apply]
  exact h

@[spec] theorem output_spec {p : UInt16} {v : UInt8} {Q : Post Unit β} :
    ⦃fun m => Q.1 () ⟨m.cpu, Bus.output m.bus p v⟩⦄ (output p v : Exec β Unit) ⦃Q⦄ := by
  simp only [Triple.iff]
  intro m h
  rw [wp_apply]
  exact h

/-! ## Data reads and writes -/

end Exec

/-- The machine a data write leaves; a write always finishes. -/
def Machine.write {β : Type} [Bus β] (m : Machine β) (a : UInt16) (v : UInt8) : Machine β :=
  match (Exec.writeByte a v : Exec β Unit) m with
  | .ok _ m' => m'
  | .error _ m' => m'

/-- The machine a push leaves: SP lowered by two, the high byte written at SP-1 and the
low byte at SP-2. -/
def Machine.push {β : Type} [Bus β] (m : Machine β) (v : UInt16) : Machine β :=
  let sp := m.cpu.regs.sp
  let m₁ : Machine β := { m with cpu := { m.cpu with regs := { m.cpu.regs with sp := sp - 1 } } }
  let m₂ := m₁.write (sp - 1) (hiByte v)
  let m₃ : Machine β := { m₂ with cpu := { m₂.cpu with regs := { m₂.cpu.regs with sp := sp - 2 } } }
  m₃.write (sp - 2) (loByte v)

/-- The instruction at PC, as the fetch map presents its bytes. -/
def Cpu.nextInstr (c : Cpu) : Decoded :=
  decode fun k => c.fetch.fetch (c.regs.pc + k.toUInt16)

namespace Exec

variable {β : Type} [Bus β]

theorem readByte_eq (a : UInt16) : (readByte a : Exec β UInt8) = (do
    let m ← get
    match m.cpu.fastSlot a with
    | some (id, off) => pure (fastByte m.cpu id off)
    | none =>
      let (v, bus) := Bus.read m.bus a
      set (⟨m.cpu, bus⟩ : Machine β)
      match v with
      | some v => pure v
      | none => throw (.busFault a)) := by
  funext m
  simp only [readByte, bind, EStateM.bind, get, getThe, MonadStateOf.get, EStateM.get]
  rcases m.cpu.fastSlot a with _ | ⟨id, off⟩
  · rcases Bus.read m.bus a with ⟨_ | v, bus⟩ <;> rfl
  · rfl

theorem writeByte_apply (a : UInt16) (v : UInt8) (m : Machine β) :
    (writeByte a v : Exec β Unit) m = .ok () (m.write a v) := by
  simp only [Machine.write, writeByte]
  rcases m.cpu.fastSlot a with _ | ⟨id, off⟩ <;> rfl

@[spec] theorem writeByte_spec {a : UInt16} {v : UInt8} {Q : Post Unit β} :
    ⦃fun m => Q.1 () (m.write a v)⦄ (writeByte a v : Exec β Unit) ⦃Q⦄ := by
  simp only [Triple.iff]
  intro m h
  rw [wp_apply, writeByte_apply]
  exact h

/-- A write reaches the bus or the fast RAM bytes, nothing else of the CPU. -/
@[simp] theorem write_cpu (m : Machine β) (a : UInt16) (v : UInt8) :
    (m.write a v).cpu.regs = m.cpu.regs ∧ (m.write a v).cpu.fastRam = m.cpu.fastRam ∧
      (m.write a v).cpu.odometer = m.cpu.odometer ∧ (m.write a v).cpu.config = m.cpu.config ∧
      (m.write a v).cpu.eiShadow = m.cpu.eiShadow ∧
      (m.write a v).cpu.refreshClock = m.cpu.refreshClock ∧
      (m.write a v).cpu.rWrittenAt = m.cpu.rWrittenAt := by
  simp only [Machine.write, writeByte]
  rcases m.cpu.fastSlot a with _ | ⟨id, off⟩ <;> exact ⟨rfl, rfl, rfl, rfl, rfl, rfl, rfl⟩

theorem push_apply (v : UInt16) (m : Machine β) :
    (Exec.push v : Exec β Unit) m = .ok () (m.push v) := by
  have h : ∀ sp : UInt16, sp - 1 - 1 = sp - 2 := fun _ => by grind
  simp only [Exec.push, Machine.push, bind, EStateM.bind, modifyRegs, modifyCpu, regs,
    writeByte_apply, write_cpu, h]

@[spec] theorem push_spec {v : UInt16} {Q : Post Unit β} :
    ⦃fun m => Q.1 () (m.push v)⦄ (Exec.push v : Exec β Unit) ⦃Q⦄ := by
  simp only [Triple.iff]
  intro m h
  rw [wp_apply, push_apply]
  exact h

/-- A push lowers SP by two and writes memory, nothing else of the CPU. -/
@[simp] theorem push_cpu (m : Machine β) (v : UInt16) :
    (m.push v).cpu.regs = { m.cpu.regs with sp := m.cpu.regs.sp - 2 } ∧
      (m.push v).cpu.fastRam = m.cpu.fastRam ∧ (m.push v).cpu.odometer = m.cpu.odometer ∧
      (m.push v).cpu.config = m.cpu.config ∧ (m.push v).cpu.eiShadow = m.cpu.eiShadow ∧
      (m.push v).cpu.refreshClock = m.cpu.refreshClock ∧
      (m.push v).cpu.rWrittenAt = m.cpu.rWrittenAt := by
  simp [Machine.push]

omit [Bus β] in
@[spec] theorem fetchInstr_spec {Q : Post Decoded β} :
    ⦃fun m =>
      let d := m.cpu.nextInstr
      let regs := { m.cpu.regs with pc := m.cpu.regs.pc + d.length.toUInt16 }
      Q.1 d { m with cpu := ({ m.cpu with regs } : Cpu).refreshBy d.fetches }⦄
      (fetchInstr : Exec β Decoded) ⦃Q⦄ := by
  simp only [Triple.iff]
  intro m h
  rw [wp_apply]
  exact h

end Exec

end Z80
