import Z80.Proofs.Fetch

/-!
# Index registers are reached only through their prefix

A DD prefix makes the instruction after it use IX where it would use HL, H, L or (HL), and an FD
prefix IY; of a run of prefixes only the last one counts, and ED drops the prefix.
`Encoding.indexPrefix` reads off the bytes which index register, if any, the prefix of the
instruction at PC selects, and `Machine.stepIndex` that of a step, which is none for an
acknowledgment or a halted idle.

`Instr.names` says whether an instruction names an index register: as a 16-bit operand, through
one of its halves, or as the base of an (IX+d) operand. The decoder names only the index register
of the prefix (`decode_names`), an instruction leaves alone each index register it does not name
(`exec_indexRegs`), and an acknowledgment leaves both alone (`serviceInterrupts_indexRegs`). So a
step changes IX only when it executes an instruction behind DD, and IY only behind FD
(`executeOne_index`).

Where an instruction has an (IX+d) or (IY+d) operand, its register operands are the main
registers B, C, D, E, H, L and A, never a half of an index register (`decode_displaced`). These
are the loads LD r,(IX+d) and LD (IX+d),r, and DD CB d op, which copies its result into register
z. Such an instruction changes H or L only when it names that register
(`executeOne_hl_of_displaced`). `index_registers_prefixed_only` collects these facts.
-/

open Std.Do

set_option mvcgen.warning false

namespace Z80

/-! ## The index register an operand names -/

/-- The index register an 8-bit register operand is a half of. -/
def Reg8.index? : Reg8 → Option Index
  | .ixh | .ixl => some .ix
  | .iyh | .iyl => some .iy
  | .b | .c | .d | .e | .h | .l | .a => none

/-- The index register a 16-bit register operand is. -/
def Reg16.index? : Reg16 → Option Index
  | .ix => some .ix
  | .iy => some .iy
  | .bc | .de | .hl | .sp | .af => none

/-- The index register an operand reads or writes: through a half, or as the base of a
displaced operand. -/
@[simp] def Operand.index? : Operand → Option Index
  | .reg r => r.index?
  | .memHL => none
  | .indexed x _ => some x

@[simp] def Source.index? : Source → Option Index
  | .operand o => o.index?
  | .imm _ => none

/-- Whether an instruction names the index register `x` among its operands. -/
def Instr.names (x : Index) : Instr → Bool
  | .ld dst src => dst.index? == some x || src.index? == some x
  | .ldImm16 rr _ | .loadWord rr _ | .storeWord rr _ | .ldSP rr | .inc16 rr | .dec16 rr
  | .exSP rr | .jpInd rr | .push rr | .pop rr | .adc16 rr | .sbc16 rr => rr.index? == some x
  | .add16 dst src => dst.index? == some x || src.index? == some x
  | .inc8 o | .dec8 o | .bit _ o => o.index? == some x
  | .alu _ src => src.index? == some x
  | .shift _ o copy | .res _ o copy | .set _ o copy =>
    o.index? == some x || copy.bind Reg8.index? == some x
  | .inC r | .outC r => r.bind Reg8.index? == some x
  | _ => false

/-- The index register `x` of a register file. -/
def Registers.index (rs : Registers) : Index → UInt16
  | .ix => rs.ix
  | .iy => rs.iy

/-! ## Displaced operands -/

/-- Whether an operand is `(IX+d)` or `(IY+d)`. -/
def Operand.isIndexed : Operand → Bool
  | .indexed _ _ => true
  | .reg _ | .memHL => false

def Source.isIndexed : Source → Bool
  | .operand o => o.isIndexed
  | .imm _ => false

/-- The register an operand names, if it is one. -/
def Operand.reg? : Operand → Option Reg8
  | .reg r => some r
  | .memHL | .indexed _ _ => none

def Source.reg? : Source → Option Reg8
  | .operand o => o.reg?
  | .imm _ => none

/-- Whether an instruction has an (IX+d) or (IY+d) operand. -/
def Instr.displaced : Instr → Bool
  | .ld dst src => dst.isIndexed || src.isIndexed
  | .inc8 o | .dec8 o | .bit _ o | .shift _ o _ | .res _ o _ | .set _ o _ => o.isIndexed
  | .alu _ src => src.isIndexed
  | _ => false

/-- The 8-bit registers an instruction names as operands, the register a result is copied into
included. -/
def Instr.regs8 : Instr → List Reg8
  | .ld dst src => dst.reg?.toList ++ src.reg?.toList
  | .inc8 o | .dec8 o | .bit _ o => o.reg?.toList
  | .alu _ src => src.reg?.toList
  | .shift _ o copy | .res _ o copy | .set _ o copy => o.reg?.toList ++ copy.toList
  | .inC r | .outC r => r.toList
  | _ => []

/-! ## The prefix of a step -/

namespace Encoding

/-- The index register the prefix of the instruction at the start of `code` selects: DD for IX
and FD for IY, unless another prefix or ED follows it. -/
def indexPrefix (code : Nat → UInt8) : Option Index :=
  if code 1 = 0xDD ∨ code 1 = 0xFD ∨ code 1 = 0xED then none
  else if code 0 = 0xDD then some .ix
  else if code 0 = 0xFD then some .iy
  else none

end Encoding

/-- The index register the prefix of the step from `m` selects; none for an acknowledgment or
a halted idle. -/
def Machine.stepIndex {β : Type} (m : Machine β) : Option Index :=
  if m.control.taken = none ∧ m.cpu.regs.halted = false then Encoding.indexPrefix m.cpu.opcodes
  else none

/-! ## Decoding -/

namespace Decode

/-! Each operand the decoder builds names the index register of the prefix, if any. The
equations are given to `simp` as pre-lemmas (`↓`): unfolded first, `index?` would become a match
on the decoder's choice. -/

theorem hlOf_index? (x : Option Index) : (hlOf x).index? = x := by
  rcases x with _ | _ | _ <;> rfl

theorem pair_index? (x : Option Index) (p : UInt8) :
    (pair x p).index? = if p &&& 3 = 2 then x else none := by
  unfold pair
  split <;> simp_all [↓hlOf_index?, Reg16.index?]

theorem stackPair_index? (x : Option Index) (p : UInt8) :
    (stackPair x p).index? = if p &&& 3 = 2 then x else none := by
  unfold stackPair
  split <;> simp_all [↓hlOf_index?, Reg16.index?]

theorem reg8_index? (x : Option Index) (r : UInt8) :
    (reg8 x r).index? = if r &&& 7 = 4 ∨ r &&& 7 = 5 then x else none := by
  rcases x with _ | _ | _ <;> unfold reg8 <;> split <;> simp_all [Reg8.index?]

theorem memory_index? (x : Option Index) (arg : Nat → UInt8) : (memory x arg).1.index? = x := by
  rcases x with _ | _ | _ <;> rfl

theorem operand_index? (x : Option Index) (arg : Nat → UInt8) (r : UInt8) :
    (operand x arg r).1.index? =
      if r &&& 7 = 4 ∨ r &&& 7 = 5 ∨ r &&& 7 = 6 then x else none := by
  unfold operand
  split <;> simp_all [↓memory_index?, ↓reg8_index?]

/-- The main table names an index register only as the one its prefix selects. -/
theorem main_names {x : Option Index} {op : UInt8} {arg : Nat → UInt8} {y : Index}
    (h : (main x op arg).1.names y = true) : x = some y := by
  simp only [main] at h
  repeat' split at h
  -- each instruction names the index register through the operands the prefix selects
  all_goals
    simp_all [Instr.names, ↓hlOf_index?, ↓pair_index?, ↓stackPair_index?, ↓reg8_index?,
      ↓operand_index?, ↓memory_index?] <;> tauto

theorem ed_names (op : UInt8) (arg : Nat → UInt8) (y : Index) :
    (ed op arg).1.names y = false := by
  simp only [ed]
  repeat' split
  all_goals simp [Instr.names, ↓pair_index?, ↓reg8_index?]

theorem bitOp_names {op : UInt8} {o : Operand} {copy : Option Reg8} {y : Index}
    (h : (bitOp op o copy).names y = true) :
    o.index? = some y ∨ copy.bind Reg8.index? = some y := by
  simp only [bitOp] at h
  split at h <;> simp_all [Instr.names]

/-- DD CB d op names only the base of its operand: the copy goes to a main register. -/
theorem indexedCb_names {x y : Index} {disp op : UInt8} (h : (indexedCb x disp op).names y = true) :
    x = y := by
  have hx := bitOp_names h
  split at hx
  · simpa using hx
  · rw [Option.bind_some, reg8_index?, ite_self] at hx
    simpa using hx

/-- Where the main table builds a displaced operand, its register operand is a main
register: the other side of LD r,(IX+d) and LD (IX+d),r is read with no prefix. -/
theorem main_displaced (x : Option Index) (op : UInt8) (arg : Nat → UInt8) :
    (main x op arg).1.displaced = true → ∀ r ∈ (main x op arg).1.regs8, r.index? = none := by
  simp only [main]
  repeat' split
  all_goals
    simp +contextual [Instr.displaced, Instr.regs8, Source.isIndexed, Source.reg?,
      Operand.isIndexed, Operand.reg?, ↓reg8_index?]
  -- an operand of a three-bit field is displaced only as a memory operand, which is no register
  all_goals split <;> simp_all [↓reg8_index?]

theorem indexedCb_regs8 (x : Index) (disp op : UInt8) :
    ∀ r ∈ (indexedCb x disp op).regs8, r.index? = none := by
  unfold indexedCb
  generalize hc : (if op &&& 7 = 6 then none else some (reg8 none op)) = copy
  -- the copy goes to a register read with no prefix
  have hcopy : ∀ r ∈ copy.toList, r.index? = none := by
    subst hc
    split <;> simp [↓reg8_index?]
  unfold bitOp
  split <;> simp [Instr.regs8, Operand.reg?] <;> simpa using hcopy

theorem cb_displaced (op : UInt8) : (cb op).displaced = false := by
  have ho : (operand none (fun _ => 0) op).1.isIndexed = false := by
    unfold operand memory
    split <;> rfl
  unfold cb bitOp
  split <;> simp [Instr.displaced, ho]

theorem ed_displaced (op : UInt8) (arg : Nat → UInt8) : (ed op arg).1.displaced = false := by
  simp only [ed]
  repeat' split
  all_goals rfl

end Decode

open Decode in
/-- Every decoded instruction comes from one of the decoder's tables: the NOP of a prefix
followed by another, a CB or ED table, DD CB d op or FD CB d op under the index register of its
prefix, or the main table under the index register the prefix selects, none without one. -/
theorem decode_instr_cases {motive : Instr → Prop} (code : Nat → UInt8) (hnop : motive .nop)
    (hcb : ∀ op, motive (cb op)) (hed : ∀ op arg, motive (ed op arg).1)
    (hindexedCb : ∀ x disp op, Encoding.indexPrefix code = some x → motive (indexedCb x disp op))
    (hmain : ∀ op arg, motive (main (Encoding.indexPrefix code) op arg).1) :
    motive (decode code).instr := by
  by_cases hp : code 0 = 0xDD ∨ code 0 = 0xFD
  · by_cases hq : code 1 = 0xDD ∨ code 1 = 0xFD
    · simpa [decode, hp, hq] using hnop
    by_cases he : code 1 = 0xED
    · simpa [decode, hp, he] using hed (code 2) fun k => code (k + 3)
    -- past the prefixes, the first one selects the index register
    have hx : Encoding.indexPrefix code = some (if code 0 = 0xDD then .ix else .iy) := by
      rcases hp with h0 | h0 <;> simp [Encoding.indexPrefix, h0, hq, he]
    by_cases hc : code 1 = 0xCB
    · simpa [decode, hp, hc] using hindexedCb _ (code 2) (code 3) hx
    · simpa [decode, hp, hq, hc, he, hx] using hmain (code 1) fun k => code (k + 2)
  · have hx : Encoding.indexPrefix code = none := by
      rw [not_or] at hp
      simp [Encoding.indexPrefix, hp.1, hp.2]
    by_cases hc : code 0 = 0xCB
    · simpa [decode, hc] using hcb (code 1)
    by_cases he : code 0 = 0xED
    · simpa [decode, he] using hed (code 1) fun k => code (k + 2)
    · simpa [decode, hp, hc, he, hx] using hmain (code 0) fun k => code (k + 1)

open Decode in
/-- The decoder names an index register only as the one the prefix of the instruction
selects. -/
theorem decode_names {code : Nat → UInt8} {x : Index} (h : (decode code).instr.names x = true) :
    Encoding.indexPrefix code = some x := by
  refine decode_instr_cases
    (motive := fun i => i.names x = true → Encoding.indexPrefix code = some x) code ?_ ?_ ?_ ?_
    ?_ h
  · intro h
    simp [Instr.names] at h
  · -- a CB operand is never displaced, so it names no index register
    intro op h
    have hx := bitOp_names h
    simp [↓operand_index?] at hx
  · intro op arg h
    simp [ed_names] at h
  · intro y disp op hy h
    rw [hy, indexedCb_names h]
  · intro op arg h
    exact main_names h

open Decode in
/-- In every decoded instruction with an (IX+d) or (IY+d) operand, the register operands are
main registers, never a half of an index register. -/
theorem decode_displaced {code : Nat → UInt8} (h : (decode code).instr.displaced = true) :
    ∀ r ∈ (decode code).instr.regs8, r.index? = none := by
  refine decode_instr_cases
    (motive := fun i => i.displaced = true → ∀ r ∈ i.regs8, r.index? = none) code ?_ ?_ ?_ ?_
    ?_ h
  · intro _ r hr
    simp [Instr.regs8] at hr
  · intro op h
    simp [cb_displaced] at h
  · intro op arg h
    simp [ed_displaced] at h
  · intro y disp op _ _
    exact indexedCb_regs8 y disp op
  · intro op arg h
    exact main_displaced _ _ _ h

/-! ## Execution -/

/-- What an instruction started from the registers `rs` leaves of them in `rs'`: each index
register it does not name, and, where it has a displaced operand, H and L unless it names
them. -/
def Instr.Frames (i : Instr) (rs rs' : Registers) : Prop :=
  (i.names .ix = false → rs'.ix = rs.ix) ∧ (i.names .iy = false → rs'.iy = rs.iy) ∧
    (i.displaced = true → (.h ∉ i.regs8 → rs'.h = rs.h) ∧ (.l ∉ i.regs8 → rs'.l = rs.l))

namespace Registers

variable (rs : Registers)

theorem setReg8_ix {r : Reg8} (h : r.index? ≠ some .ix) (v : UInt8) :
    (rs.setReg8 r v).ix = rs.ix := by
  cases r <;> simp_all [setReg8, Reg8.index?]

theorem setReg8_iy {r : Reg8} (h : r.index? ≠ some .iy) (v : UInt8) :
    (rs.setReg8 r v).iy = rs.iy := by
  cases r <;> simp_all [setReg8, Reg8.index?]

theorem setReg8_h {r : Reg8} (h : .h ≠ r) (v : UInt8) : (rs.setReg8 r v).h = rs.h := by
  cases r <;> simp_all [setReg8]

theorem setReg8_l {r : Reg8} (h : .l ≠ r) (v : UInt8) : (rs.setReg8 r v).l = rs.l := by
  cases r <;> simp_all [setReg8]

theorem setReg16_ix {rr : Reg16} (h : rr.index? ≠ some .ix) (v : UInt16) :
    (rs.setReg16 rr v).ix = rs.ix := by
  cases rr <;> simp_all [setReg16, setBC, setDE, setHL, setAF, Reg16.index?]

theorem setReg16_iy {rr : Reg16} (h : rr.index? ≠ some .iy) (v : UInt16) :
    (rs.setReg16 rr v).iy = rs.iy := by
  cases rr <;> simp_all [setReg16, setBC, setDE, setHL, setAF, Reg16.index?]

end Registers

namespace Exec

variable {β : Type} [Bus β]

/-- An instruction, finished or aborted, keeps what `Instr.Frames` says it keeps. -/
theorem exec_frames (i : Instr) (rs : Registers) :
    ⦃fun m : Machine β => ⌜m.cpu.regs = rs⌝⦄ (i.exec : Exec β Nat)
    ⦃post⟨fun _ m => ⌜i.Frames rs m.cpu.regs⌝, fun _ m => ⌜i.Frames rs m.cpu.regs⌝⟩⦄ := by
  cases i
  -- IN r,(C) picks its destination by a match inside the register update
  case inC dst =>
    cases dst <;> mvcgen -trivial [Instr.exec] <;> subst_vars <;>
      simp_all +contextual [Instr.Frames, Instr.names, Instr.displaced, Registers.setReg8_ix,
        Registers.setReg8_iy]
  all_goals mvcgen -trivial [Instr.exec, readWord, writeWord, Exec.push, Exec.pop, setWZ, setPC,
    setF, locate, load, store, source, setAFrom, pointer, jumpRelative, rewrite, writeBack,
    Exec.block, blockLoad, blockCompare, blockIn, blockOut, repeatBlock, readByte_eq]
  all_goals
    subst_vars
    simp_all +contextual [Instr.Frames, Instr.names, Instr.displaced, Instr.regs8,
      Operand.isIndexed, Source.isIndexed, Operand.reg?, Source.reg?, Registers.setHL,
      Registers.setDE, Registers.setBC, Registers.setAF, Registers.setXY,
      Registers.swapAF, Registers.swapMain, Cpu.writeRefresh, Registers.setReg8_ix,
      Registers.setReg8_iy, Registers.setReg8_h, Registers.setReg8_l, Registers.setReg16_ix,
      Registers.setReg16_iy]

/-- An acknowledgment, finished or aborted, leaves both index registers alone. -/
theorem serviceInterrupts_indexRegs (rs : Registers) :
    ⦃fun m : Machine β => ⌜m.cpu.regs = rs⌝⦄ (serviceInterrupts : Exec β (Option StepResult))
    ⦃post⟨fun _ m => ⌜m.cpu.regs.ix = rs.ix ∧ m.cpu.regs.iy = rs.iy⌝,
      fun _ m => ⌜m.cpu.regs.ix = rs.ix ∧ m.cpu.regs.iy = rs.iy⌝⟩⦄ := by
  mvcgen -trivial [serviceInterrupts, readWord, readByte_eq]
  all_goals
    subst_vars
    simp_all +zetaDelta [Machine.push]

omit [Bus β] in
theorem frames_fetched {i : Instr} {m : Machine β} {rs : Registers}
    (h : i.Frames m.fetched.cpu.regs rs) : i.Frames m.cpu.regs rs := by
  simpa [Instr.Frames, Machine.fetched, Cpu.refreshBy_eq] using h

/-- A step that executes an instruction keeps what `Instr.Frames` says the instruction
keeps. -/
theorem executeOne_frames {m : Machine β} (hn : m.control.taken = none)
    (hh : m.cpu.regs.halted = false) :
    m.cpu.nextInstr.instr.Frames m.cpu.regs
      (after ((executeOne : Exec β StepResult) m)).cpu.regs := by
  rw [executeOne_of_instruction hn hh]
  apply frames_fetched
  -- counting the cycles leaves the registers alone
  cases hx : (m.cpu.nextInstr.instr.exec : Exec β Nat) m.fetched with
  | ok n y =>
    -- elaborated on its own first: against the goal the postcondition does not unify
    have hy := ok_of_triple (exec_frames _ _) rfl hx
    exact hy
  | error e y => exact error_of_triple (exec_frames _ _) rfl hx

/-- A step changes an index register only when it executes an instruction behind that
register's prefix. -/
theorem executeOne_index {m : Machine β} {x : Index} (h : m.stepIndex ≠ some x) :
    (after ((executeOne : Exec β StepResult) m)).cpu.regs.index x = m.cpu.regs.index x := by
  by_cases hn : m.control.taken = none
  · cases hh : m.cpu.regs.halted
    · -- the instruction at PC names `x` only behind its prefix
      have hx : m.cpu.nextInstr.instr.names x = false := by
        by_contra hx
        rw [Cpu.nextInstr_eq, Bool.not_eq_false] at hx
        exact h (by simp [Machine.stepIndex, hn, hh, decode_names hx])
      have hf := executeOne_frames hn hh
      cases x
      · exact hf.1 hx
      · exact hf.2.1 hx
    · rw [executeOne_of_halted hh hn]
      cases x <;> simp [Registers.index, after]
  · -- an acknowledgment leaves both alone
    have hs := serviceInterrupts_indexRegs (β := β) m.cpu.regs
    cases hk : (serviceInterrupts : Exec β (Option StepResult)) m with
    | ok r y =>
      obtain ⟨hr, -, -⟩ := ok_of_triple (serviceInterrupts_spec m) rfl hk
      obtain ⟨k, hk'⟩ := Option.ne_none_iff_exists'.mp hn
      rw [hk', Option.map_some] at hr
      rw [hr] at hk
      have hy := ok_of_triple hs rfl hk
      rw [executeOne_of_ack hk]
      cases x <;> simp [Registers.index, Machine.counted, after, hy]
    | error e y =>
      have hy := error_of_triple hs rfl hk
      rw [executeOne_of_ack_error hk]
      cases x <;> simp [Registers.index, after, hy]

/-- A step that executes an instruction with a displaced operand changes H or L only when the
instruction names that register. -/
theorem executeOne_hl_of_displaced {m : Machine β} (hn : m.control.taken = none)
    (hh : m.cpu.regs.halted = false) (hd : m.cpu.nextInstr.instr.displaced = true) :
    ((after ((executeOne : Exec β StepResult) m)).cpu.regs.h ≠ m.cpu.regs.h →
        .h ∈ m.cpu.nextInstr.instr.regs8) ∧
      ((after ((executeOne : Exec β StepResult) m)).cpu.regs.l ≠ m.cpu.regs.l →
        .l ∈ m.cpu.nextInstr.instr.regs8) := by
  obtain ⟨hH, hL⟩ := (executeOne_frames hn hh).2.2 hd
  exact ⟨not_imp_comm.mp hH, not_imp_comm.mp hL⟩

end Exec

open Exec in
/-- Index registers are reached only through their own prefix. A step changes IX only when it
executes an instruction behind DD, and IY only behind FD: unprefixed, CB and ED steps, DD ED and
FD ED included, acknowledgments and halted idles change neither. In an instruction with an
(IX+d) or (IY+d) operand the other register operands are the main registers B, C, D, E, H, L
and A, never a half of an index register, and the step that executes it changes H or L only
when it names that register. -/
theorem index_registers_prefixed_only {β : Type} [Bus β] :
    (∀ (m : Machine β) (x : Index),
      (after ((executeOne : Exec β StepResult) m)).cpu.regs.index x ≠ m.cpu.regs.index x →
        m.stepIndex = some x) ∧
    (∀ code : Nat → UInt8, (decode code).instr.displaced = true →
      ∀ r ∈ (decode code).instr.regs8, r.index? = none) ∧
    (∀ m : Machine β, m.control.taken = none → m.cpu.regs.halted = false →
      m.cpu.nextInstr.instr.displaced = true →
      ((after ((executeOne : Exec β StepResult) m)).cpu.regs.h ≠ m.cpu.regs.h →
          .h ∈ m.cpu.nextInstr.instr.regs8) ∧
        ((after ((executeOne : Exec β StepResult) m)).cpu.regs.l ≠ m.cpu.regs.l →
          .l ∈ m.cpu.nextInstr.instr.regs8)) :=
  ⟨fun _ _ => not_imp_comm.mp executeOne_index, fun _ h => decode_displaced h,
    fun _ hn hh hd => executeOne_hl_of_displaced hn hh hd⟩

/-- LD IX,1234h changes IX behind DD; LD H,(IX+5) names the real H, which is the only one of H
and L it may change. -/
theorem index_registers_prefixed_only_loaded :
    (Machine.loaded [0xDD, 0x21, 0x34, 0x12]).stepIndex = some .ix ∧
      (∀ r ∈ (decode fun k => [0xDD, 0x66, 0x05].getD k 0).instr.regs8, r.index? = none) ∧
      ((Exec.after ((Exec.executeOne : Exec SimpleBus StepResult)
          (Machine.loaded [0xDD, 0x66, 0x05]))).cpu.regs.l =
        (Machine.loaded [0xDD, 0x66, 0x05]).cpu.regs.l) := by
  have h := @index_registers_prefixed_only SimpleBus _
  exact ⟨h.1 _ .ix (by decide +kernel), h.2.1 _ (by decide),
    not_not.mp fun hl =>
      absurd ((h.2.2 (Machine.loaded [0xDD, 0x66, 0x05]) rfl rfl (by decide)).2 hl) (by decide)⟩

end Z80
