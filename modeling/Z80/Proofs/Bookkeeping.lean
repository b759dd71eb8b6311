import Z80.Proofs.Step

/-!
# Steps never look at the run bookkeeping

A run keeps its bookkeeping in the odometer: the debt owed by earlier runs and the
budget remaining in this one. Nothing a step does reads or writes either of them. So a
step taken from a machine whose bookkeeping was replaced (`Machine.setBook`) is the
step taken from the original machine, with the bookkeeping replaced afterwards
(`executeOne_setBook`), whether the step finishes or aborts. This is what lets the
run loop, which pays the debt at its start and counts its own remainder, be compared
with the steps a host takes one at a time under its own budget.

The same holds of the time R was last written, which only LD A,R reads and only LD R,A
writes. The lemmas are stated for `Machine.rebook`, which rewrites the odometer and that
time together: every instruction other than those two commutes with it
(`exec_rebook`), and with the time left alone every step does (`executeOne_rebook_odometer`).

The proofs evaluate a computation symbolically. `elim` continues a result, with one
continuation for a finished computation and one for an aborted one, and `mapState`
applies a function to the state a result ends in. The simp lemmas below turn a bind
into `elim`, push `mapState` through `elim` and through the primitives, and so move
the rewriting of the bookkeeping from the start of a computation to its end.
-/

namespace Z80

/-- The machine with the run bookkeeping replaced: debt `d`, remaining budget `r`. -/
def Machine.setBook {β : Type} (m : Machine β) (d : UInt64) (r : Int64) : Machine β :=
  { m with cpu := { m.cpu with odometer := { m.cpu.odometer with debt := d, remaining := r } } }

/-- The machine with the fields a step only counts on or overwrites rewritten: the odometer by
`f` and the time R was last written by `g`. -/
def Machine.rebook {β : Type} (m : Machine β) (f : Odometer → Odometer) (g : Nat → Nat) :
    Machine β :=
  { m with cpu := { m.cpu with odometer := f m.cpu.odometer, rWrittenAt := g m.cpu.rWrittenAt } }

namespace Exec

/-! ## Evaluating a computation -/

section Evaluation

variable {ε σ α γ δ : Type}

/-- Continues a result: `k` after a finished computation, `h` after an aborted one. -/
def elim (r : EStateM.Result ε σ α) (k : α → σ → EStateM.Result ε σ γ)
    (h : ε → σ → EStateM.Result ε σ γ) : EStateM.Result ε σ γ :=
  match r with
  | .ok a s => k a s
  | .error e s => h e s

/-- Applies `g` to the state a result ends in. -/
def mapState (g : σ → σ) : EStateM.Result ε σ α → EStateM.Result ε σ α
  | .ok a s => .ok a (g s)
  | .error e s => .error e (g s)

@[simp] theorem elim_ok (a : α) (s : σ) (k : α → σ → EStateM.Result ε σ γ)
    (h : ε → σ → EStateM.Result ε σ γ) : elim (.ok a s) k h = k a s := rfl

@[simp] theorem elim_error (e : ε) (s : σ) (k : α → σ → EStateM.Result ε σ γ)
    (h : ε → σ → EStateM.Result ε σ γ) : elim (.error e s : EStateM.Result ε σ α) k h = h e s :=
  rfl

@[simp] theorem mapState_ok (g : σ → σ) (a : α) (s : σ) :
    (mapState g (.ok a s : EStateM.Result ε σ α)) = .ok a (g s) := rfl

@[simp] theorem mapState_error (g : σ → σ) (e : ε) (s : σ) :
    (mapState g (.error e s : EStateM.Result ε σ α)) = .error e (g s) := rfl

@[simp] theorem elim_elim (r : EStateM.Result ε σ α)
    (k : α → σ → EStateM.Result ε σ γ) (h : ε → σ → EStateM.Result ε σ γ)
    (k' : γ → σ → EStateM.Result ε σ δ) (h' : ε → σ → EStateM.Result ε σ δ) :
    elim (elim r k h) k' h' =
      elim r (fun a s => elim (k a s) k' h') (fun e s => elim (h e s) k' h') := by
  cases r <;> rfl

@[simp] theorem elim_mapState (g : σ → σ) (r : EStateM.Result ε σ α)
    (k : α → σ → EStateM.Result ε σ γ) (h : ε → σ → EStateM.Result ε σ γ) :
    elim (mapState g r) k h = elim r (fun a s => k a (g s)) (fun e s => h e (g s)) := by
  cases r <;> rfl

@[simp] theorem mapState_elim (g : σ → σ) (r : EStateM.Result ε σ α)
    (k : α → σ → EStateM.Result ε σ γ) (h : ε → σ → EStateM.Result ε σ γ) :
    mapState g (elim r k h) =
      elim r (fun a s => mapState g (k a s)) (fun e s => mapState g (h e s)) := by
  cases r <;> rfl

@[simp] theorem mapState_ite (g : σ → σ) (c : Prop) [Decidable c]
    (x y : EStateM.Result ε σ α) :
    mapState g (if c then x else y) = if c then mapState g x else mapState g y := by
  split <;> rfl

end Evaluation

section Apply

variable {β α γ : Type}

@[simp] theorem bind_apply (x : Exec β α) (f : α → Exec β γ) (m : Machine β) :
    (x >>= f) m = elim (x m) (fun a s => f a s) (fun e s => .error e s) := rfl

@[simp] theorem pure_apply (a : α) (m : Machine β) : (Pure.pure a : Exec β α) m = .ok a m := rfl

@[simp] theorem map_apply (f : α → γ) (x : Exec β α) (m : Machine β) :
    (f <$> x) m = elim (x m) (fun a s => .ok (f a) s) (fun e s => .error e s) := rfl

@[simp] theorem ite_apply (c : Prop) [Decidable c] (x y : Exec β α) (m : Machine β) :
    (if c then x else y) m = if c then x m else y m := by
  split <;> rfl

/-! The state primitives always finish, so a continuation after them runs at once. -/

theorem elim_cpu (m : Machine β) (k : Cpu → Machine β → EStateM.Result Abort (Machine β) γ)
    (h : Abort → Machine β → EStateM.Result Abort (Machine β) γ) :
    elim ((Exec.cpu : Exec β Cpu) m) k h = k m.cpu m := rfl

theorem elim_regs (m : Machine β)
    (k : Registers → Machine β → EStateM.Result Abort (Machine β) γ)
    (h : Abort → Machine β → EStateM.Result Abort (Machine β) γ) :
    elim ((regs : Exec β Registers) m) k h = k m.cpu.regs m := rfl

theorem elim_modifyCpu (f : Cpu → Cpu) (m : Machine β)
    (k : Unit → Machine β → EStateM.Result Abort (Machine β) γ)
    (h : Abort → Machine β → EStateM.Result Abort (Machine β) γ) :
    elim ((modifyCpu f : Exec β Unit) m) k h = k () { m with cpu := f m.cpu } := rfl

theorem elim_modifyRegs (f : Registers → Registers) (m : Machine β)
    (k : Unit → Machine β → EStateM.Result Abort (Machine β) γ)
    (h : Abort → Machine β → EStateM.Result Abort (Machine β) γ) :
    elim ((modifyRegs f : Exec β Unit) m) k h =
      k () { m with cpu := { m.cpu with regs := f m.cpu.regs } } := rfl

end Apply

/-! ## The primitives -/

section Primitives

variable {β α : Type} [Bus β] (f : Odometer → Odometer) (g : Nat → Nat)

omit [Bus β] in
@[simp] theorem setBook_cpu (d : UInt64) (r : Int64) (m : Machine β) :
    (m.setBook d r).cpu.regs = m.cpu.regs ∧ (m.setBook d r).cpu.fetch = m.cpu.fetch ∧
      (m.setBook d r).cpu.fastRam = m.cpu.fastRam ∧ (m.setBook d r).cpu.config = m.cpu.config ∧
      (m.setBook d r).cpu.eiShadow = m.cpu.eiShadow ∧
      (m.setBook d r).cpu.refreshClock = m.cpu.refreshClock ∧
      (m.setBook d r).cpu.rWrittenAt = m.cpu.rWrittenAt ∧
      (m.setBook d r).cpu.odometer.total = m.cpu.odometer.total ∧
      (m.setBook d r).cpu.odometer.debt = d ∧ (m.setBook d r).cpu.odometer.remaining = r ∧
      (m.setBook d r).bus = m.bus :=
  ⟨rfl, rfl, rfl, rfl, rfl, rfl, rfl, rfl, rfl, rfl, rfl⟩

omit [Bus β] in
/-- A machine whose bookkeeping was written field by field. -/
theorem setBook_fold (d : UInt64) (r : Int64) (m : Machine β) :
    ({ m with cpu := { m.cpu with odometer := { m.cpu.odometer with debt := d, remaining := r } } }
      : Machine β) = m.setBook d r := rfl

omit [Bus β] in
@[simp] theorem rebook_frame (m : Machine β) :
    (m.rebook f g).cpu.regs = m.cpu.regs ∧ (m.rebook f g).cpu.fetch = m.cpu.fetch ∧
      (m.rebook f g).cpu.fastRam = m.cpu.fastRam ∧ (m.rebook f g).cpu.config = m.cpu.config ∧
      (m.rebook f g).cpu.eiShadow = m.cpu.eiShadow ∧
      (m.rebook f g).cpu.refreshClock = m.cpu.refreshClock ∧ (m.rebook f g).bus = m.bus :=
  ⟨rfl, rfl, rfl, rfl, rfl, rfl, rfl⟩

omit [Bus β] in
@[simp] theorem regs_rebook (m : Machine β) :
    (regs : Exec β Registers) (m.rebook f g) = mapState (·.rebook f g) (regs m) := rfl

omit [Bus β] in
@[simp] theorem modifyRegs_rebook (h : Registers → Registers) (m : Machine β) :
    (modifyRegs h : Exec β Unit) (m.rebook f g) = mapState (·.rebook f g) (modifyRegs h m) :=
  rfl

theorem write_rebook (m : Machine β) (a : UInt16) (v : UInt8) :
    (m.rebook f g).write a v = (m.write a v).rebook f g := by
  simp only [Machine.write, writeByte]
  have h : (m.rebook f g).cpu.fastSlot a = m.cpu.fastSlot a := rfl
  rw [h]
  rcases m.cpu.fastSlot a with _ | ⟨id, off⟩ <;> rfl

@[simp] theorem writeByte_rebook (a : UInt16) (v : UInt8) (m : Machine β) :
    (writeByte a v : Exec β Unit) (m.rebook f g) = mapState (·.rebook f g) (writeByte a v m) := by
  simp only [writeByte_apply, write_rebook, mapState_ok]

@[simp] theorem readByte_rebook (a : UInt16) (m : Machine β) :
    (readByte a : Exec β UInt8) (m.rebook f g) = mapState (·.rebook f g) (readByte a m) := by
  have h : (m.rebook f g).cpu.fastSlot a = m.cpu.fastSlot a := rfl
  have hb : (m.rebook f g).bus = m.bus := rfl
  simp only [readByte, h, hb]
  cases m.cpu.fastSlot a with
  | some p => rfl
  | none => rcases Bus.read m.bus a with ⟨_ | v, b⟩ <;> rfl

@[simp] theorem input_rebook (p : UInt16) (m : Machine β) :
    (input p : Exec β UInt8) (m.rebook f g) = mapState (·.rebook f g) (input p m) := rfl

@[simp] theorem output_rebook (p : UInt16) (v : UInt8) (m : Machine β) :
    (output p v : Exec β Unit) (m.rebook f g) = mapState (·.rebook f g) (output p v m) := rfl

end Primitives

/-! ## Instructions -/

section Instructions

variable {β : Type} [Bus β] (f : Odometer → Odometer) (g : Nat → Nat)

omit [Bus β] in
@[simp] theorem locate_rebook (o : Operand) (m : Machine β) :
    (locate o : Exec β Loc) (m.rebook f g) = mapState (·.rebook f g) (locate o m) := by
  cases o <;> rfl

@[simp] theorem load_rebook (l : Loc) (m : Machine β) :
    (load l : Exec β UInt8) (m.rebook f g) = mapState (·.rebook f g) (load l m) := by
  cases l <;> simp [load]

@[simp] theorem store_rebook (l : Loc) (v : UInt8) (m : Machine β) :
    (store l v : Exec β Unit) (m.rebook f g) = mapState (·.rebook f g) (store l v m) := by
  cases l <;> simp [store]

@[simp] theorem source_rebook (o : Source) (m : Machine β) :
    (source o : Exec β UInt8) (m.rebook f g) = mapState (·.rebook f g) (source o m) := by
  cases o <;> simp [source]

omit [Bus β] in
@[simp] theorem pointer_rebook (p : Pointer) (m : Machine β) :
    (pointer p : Exec β UInt16) (m.rebook f g) = mapState (·.rebook f g) (pointer p m) := by
  cases p <;> rfl

@[simp] theorem rewrite_rebook (o : Operand) (copy : Option Reg8) (h : UInt8 → UInt8)
    (m : Machine β) :
    (rewrite o copy h : Exec β UInt8) (m.rebook f g) =
      mapState (·.rebook f g) (rewrite o copy h m) := by
  cases copy <;> simp [rewrite]

theorem block_rebook (op : BlockOp) (up repeats : Bool) (m : Machine β) :
    (Exec.block op up repeats : Exec β Nat) (m.rebook f g) =
      mapState (·.rebook f g) (Exec.block op up repeats m) := by
  cases op <;> simp only [Exec.block, blockLoad, blockCompare, blockIn, blockOut, repeatBlock,
    bind_apply, pure_apply, ite_apply, elim_mapState, mapState_elim, mapState_ok,
    mapState_error, mapState_ite, regs_rebook, modifyRegs_rebook, readByte_rebook,
    writeByte_rebook, input_rebook, output_rebook]

/-- An instruction other than LD A,R and LD R,A reads neither the odometer nor the time R was
last written, and writes neither. -/
theorem exec_rebook {i : Instr} (hA : i ≠ .ldAR) (hR : i ≠ .ldRA) (m : Machine β) :
    (i.exec : Exec β Nat) (m.rebook f g) = mapState (·.rebook f g) (i.exec m) := by
  cases i
  case ldAR => exact absurd rfl hA
  case ldRA => exact absurd rfl hR
  all_goals simp only [Instr.exec, readWord, writeWord, Exec.push, Exec.pop, setWZ, setPC,
    setF, setAFrom, jumpRelative, writeBack, bind_apply, pure_apply, ite_apply,
    elim_elim, elim_ok, elim_error, elim_mapState, mapState_elim, mapState_ok, mapState_error,
    mapState_ite, regs_rebook, modifyRegs_rebook, readByte_rebook, writeByte_rebook,
    input_rebook, output_rebook, locate_rebook, load_rebook, store_rebook, source_rebook,
    pointer_rebook, rewrite_rebook, block_rebook, rebook_frame, modifyCpu]
  all_goals rfl

/-- Every instruction, LD A,R and LD R,A included, leaves the odometer alone. -/
theorem exec_rebook_odometer (i : Instr) (m : Machine β) :
    (i.exec : Exec β Nat) (m.rebook f id) = mapState (·.rebook f id) (i.exec m) := by
  by_cases hA : i = .ldAR
  · subst hA
    rfl
  by_cases hR : i = .ldRA
  · subst hR
    rfl
  exact exec_rebook f id hA hR m

end Instructions

/-! ## Steps -/

section Steps

variable {β : Type} [Bus β] (f : Odometer → Odometer) (g : Nat → Nat)

omit [Bus β] in
/-- Setting the registers commutes with rewriting the bookkeeping. -/
theorem setRegs_rebook (m : Machine β) (rs : Registers) :
    ({ m.rebook f g with cpu := { (m.rebook f g).cpu with regs := rs } } : Machine β) =
      ({ m with cpu := { m.cpu with regs := rs } } : Machine β).rebook f g := rfl

theorem push_rebook (m : Machine β) (v : UInt16) :
    (m.rebook f g).push v = (m.push v).rebook f g := by
  simp only [Machine.push, setRegs_rebook, write_rebook]
  rfl

@[simp] theorem acknowledge_rebook (m : Machine β) :
    (acknowledge : Exec β Unit) (m.rebook f g) = mapState (·.rebook f g) (acknowledge m) := by
  rw [acknowledge_apply, acknowledge_apply, mapState_ok, ← push_rebook]
  rfl

omit [Bus β] in
@[simp] theorem clearShadow_rebook (m : Machine β) :
    (modifyCpu (fun c => { c with eiShadow := false }) : Exec β Unit) (m.rebook f g) =
      mapState (·.rebook f g) (modifyCpu (fun c => { c with eiShadow := false }) m) := rfl

omit [Bus β] in
@[simp] theorem refresh_rebook (m : Machine β) :
    (modifyCpu Cpu.refresh : Exec β Unit) (m.rebook f g) =
      mapState (·.rebook f g) (modifyCpu Cpu.refresh m) := by
  simp only [modifyCpu, Cpu.refresh_eq, Cpu.refreshBy_eq, mapState_ok]
  rfl

omit [Bus β] in
/-- Counting cycles commutes with a rewriting of the odometer that commutes with it. -/
theorem account_rebook (hf : ∀ o n, f (o.advance n) = (f o).advance n) (n : Nat) (m : Machine β) :
    (account n : Exec β Unit) (m.rebook f g) = mapState (·.rebook f g) (account n m) := by
  simp only [account, modifyCpu, mapState_ok, Machine.rebook, hf]

omit [Bus β] in
@[simp] theorem fetchInstr_rebook (m : Machine β) :
    (fetchInstr : Exec β Decoded) (m.rebook f g) = mapState (·.rebook f g) (fetchInstr m) := by
  simp only [fetchInstr, Cpu.refreshBy_eq, mapState_ok]
  rfl

theorem serviceInterrupts_rebook (m : Machine β) :
    (serviceInterrupts : Exec β (Option StepResult)) (m.rebook f g) =
      mapState (·.rebook f g) (serviceInterrupts m) := by
  -- the shadow is cleared on the rewritten machine before the evaluation lemmas can see it
  cases him : InterruptMode.ofUInt8 m.cpu.regs.im <;>
    simp only [serviceInterrupts, bind_apply, elim_cpu, clearShadow_rebook] <;>
    simp only [readWord, bind_apply, pure_apply, ite_apply, elim_elim, elim_ok, elim_error,
      elim_mapState, mapState_elim, mapState_ok, mapState_error, mapState_ite,
      modifyRegs_rebook, readByte_rebook, acknowledge_rebook, elim_regs, elim_modifyCpu,
      rebook_frame, him]

/-- A step neither reads nor writes the odometer beyond counting its cycles, so it commutes
with a rewriting of the odometer that commutes with the count. -/
theorem executeOne_rebook_odometer (hf : ∀ o n, f (o.advance n) = (f o).advance n)
    (m : Machine β) :
    (executeOne : Exec β StepResult) (m.rebook f id) =
      mapState (·.rebook f id) (executeOne m) := by
  -- the acknowledgment decides the branch, so its outcome is split on first
  rcases h : (serviceInterrupts : Exec β (Option StepResult)) m with ⟨_ | ack, s⟩ | ⟨e, s⟩ <;>
    simp only [executeOne, bind_apply, pure_apply, ite_apply, elim_ok, elim_error,
      elim_mapState, mapState_elim, mapState_ok, mapState_error, mapState_ite,
      serviceInterrupts_rebook, h, regs_rebook, refresh_rebook, fetchInstr_rebook,
      exec_rebook_odometer, account_rebook f id hf]

/-- A step neither reads nor writes the run bookkeeping. -/
theorem executeOne_setBook (d : UInt64) (r : Int64) (m : Machine β) :
    (executeOne : Exec β StepResult) (m.setBook d r) =
      mapState (·.setBook d r) (executeOne m) :=
  executeOne_rebook_odometer (fun o => { o with debt := d, remaining := r }) (fun _ _ => rfl) m

end Steps

end Exec

end Z80
