import Z80.Proofs.RefreshMode
import Z80.Proofs.WideArithmetic

open Std.Do

set_option mvcgen.warning false

/-!
# What fetching an instruction consumes

`Encoding` states, apart from the decoder, how long each instruction is and how many of its
bytes are opcode fetches, from the opcode tables of the instruction set: one byte for the
opcode and one for each prefix, one more for an immediate byte, two for an immediate word or
address, and one for the displacement of an `(IX+d)` or `(IY+d)` operand; an opcode fetch
(an M1 cycle) for every prefix and opcode, except the operation byte of DD CB d op, which
is read as an operand. A DD or FD followed by another is an instruction of its own.

The decoder agrees with both (`decode_length`, `decode_fetches`). So a step that executes an
instruction that does not transfer control leaves PC just past its bytes
(`executeOne_pc`), and in `perFetch` mode every step advances the low seven bits of R by its
opcode fetches and keeps bit 7 (`executeOne_refresh`), LD R,A apart, which loads all of R from
A. LD A,R reads R with the fetches of its own step counted.
-/

namespace Z80

/-! ## The encoding of an instruction -/

namespace Encoding

/-- Opcodes followed by an immediate byte: LD r,n, the ALU operations of A with n,
OUT (n),A, IN A,(n), and DJNZ and JR with their offset. -/
def immediateByte (op : UInt8) : Bool :=
  op ∈ [0x06, 0x0E, 0x16, 0x1E, 0x26, 0x2E, 0x36, 0x3E, 0xC6, 0xCE, 0xD6, 0xDE, 0xE6, 0xEE,
    0xF6, 0xFE, 0xD3, 0xDB, 0x10, 0x18, 0x20, 0x28, 0x30, 0x38]

/-- Opcodes followed by an immediate word or an address: LD rr,nn, LD (nn),HL, LD HL,(nn),
LD (nn),A, LD A,(nn), JP nn and JP cc,nn, CALL nn and CALL cc,nn. -/
def immediateWord (op : UInt8) : Bool :=
  op ∈ [0x01, 0x11, 0x21, 0x31, 0x22, 0x2A, 0x32, 0x3A, 0xC3, 0xC2, 0xCA, 0xD2, 0xDA, 0xE2,
    0xEA, 0xF2, 0xFA, 0xCD, 0xC4, 0xCC, 0xD4, 0xDC, 0xE4, 0xEC, 0xF4, 0xFC]

/-- Opcodes after ED followed by an address: LD (nn),rr and LD rr,(nn). -/
def edImmediateWord (op : UInt8) : Bool :=
  op ∈ [0x43, 0x53, 0x63, 0x73, 0x4B, 0x5B, 0x6B, 0x7B]

/-- Opcodes with an `(HL)` operand, which becomes `(IX+d)` or `(IY+d)` behind a prefix:
INC (HL), DEC (HL), LD (HL),n, LD r,(HL), LD (HL),r and the ALU operations of A with (HL). -/
def memoryOperand (op : UInt8) : Bool :=
  op ∈ [0x34, 0x35, 0x36, 0x46, 0x4E, 0x56, 0x5E, 0x66, 0x6E, 0x7E, 0x70, 0x71, 0x72, 0x73,
    0x74, 0x75, 0x77, 0x86, 0x8E, 0x96, 0x9E, 0xA6, 0xAE, 0xB6, 0xBE]

/-- The immediate bytes that follow an opcode. -/
def immediates (op : UInt8) : Nat :=
  (if immediateByte op then 1 else 0) + (if immediateWord op then 2 else 0)

/-- The immediate bytes that follow an opcode after ED. -/
def edImmediates (op : UInt8) : Nat :=
  if edImmediateWord op then 2 else 0

/-- The length of the instruction at the start of `code`: the opcode, each prefix applied,
the immediates and the displacement. -/
def length (code : Nat → UInt8) : Nat :=
  if code 0 = 0xDD ∨ code 0 = 0xFD then
    -- a prefix that another prefix supersedes is an instruction of one byte
    if code 1 = 0xDD ∨ code 1 = 0xFD then 1
    -- prefix, CB, displacement and operation
    else if code 1 = 0xCB then 4
    else if code 1 = 0xED then 3 + edImmediates (code 2)
    else 2 + immediates (code 1) + (if memoryOperand (code 1) then 1 else 0)
  else if code 0 = 0xCB then 2
  else if code 0 = 0xED then 2 + edImmediates (code 1)
  else 1 + immediates (code 0)

/-- The opcode fetches of the instruction at the start of `code`: each prefix and the
opcode, the operation byte of DD CB d op being an operand. -/
def opcodeFetches (code : Nat → UInt8) : Nat :=
  if code 0 = 0xDD ∨ code 0 = 0xFD then
    if code 1 = 0xDD ∨ code 1 = 0xFD then 1
    else if code 1 = 0xED then 3
    else 2
  else if code 0 = 0xCB ∨ code 0 = 0xED then 2
  else 1

/-- The opcode after ED, when the instruction at the start of `code` is one of the ED group,
behind a DD or FD or not. -/
def edOpcode (code : Nat → UInt8) : Option UInt8 :=
  if code 0 = 0xDD ∨ code 0 = 0xFD then
    if code 1 = 0xED then some (code 2) else none
  else if code 0 = 0xED then some (code 1) else none

end Encoding

/-! ## The decoder agrees -/

namespace Decode

open Encoding

/-- The operand bytes of an opcode in the main table: its immediates, and the displacement
that replaces `(HL)` behind a prefix. -/
theorem main_length (x : Option Index) (op : UInt8) (arg : Nat → UInt8) :
    (main x op arg).2 = immediates op + (if x.isSome && memoryOperand op then 1 else 0) := by
  induction op using byte_cases with
  | h n hn =>
    -- opcode by opcode; behind a prefix the displacement's count does not depend on which
    cases x with
    | none => interval_cases n <;> rfl
    | some i => interval_cases n <;> rfl

theorem ed_length (op : UInt8) (arg : Nat → UInt8) : (ed op arg).2 = edImmediates op := by
  induction op using byte_cases with
  | h n hn => interval_cases n <;> rfl

/-! LD R,A and LD A,R are in the ED group only. -/

theorem main_ne_refresh (x : Option Index) (op : UInt8) (arg : Nat → UInt8) :
    (main x op arg).1 ≠ .ldRA ∧ (main x op arg).1 ≠ .ldAR := by
  simp only [main]
  repeat' split
  all_goals simp

theorem bitOp_ne_refresh (op : UInt8) (o : Operand) (copy : Option Reg8) :
    bitOp op o copy ≠ .ldRA ∧ bitOp op o copy ≠ .ldAR := by
  simp only [bitOp]
  split <;> simp

theorem ed_refresh (op : UInt8) (arg : Nat → UInt8) :
    ((ed op arg).1 = .ldRA ↔ op = 0x4F) ∧ ((ed op arg).1 = .ldAR ↔ op = 0x5F) := by
  have low : ∀ n : Nat, n &&& 7 = n % 8 := fun n => Nat.and_two_pow_sub_one_eq_mod n 3
  refine ⟨⟨?_, by rintro rfl; rfl⟩, ⟨?_, by rintro rfl; rfl⟩⟩ <;>
  · simp only [ed]
    repeat' split
    all_goals simp
    -- the branch left has x = 1 and z = 7, and y picks the instruction
    simp only [← UInt8.toNat_inj, UInt8.toNat_and, UInt8.toNat_shiftRight] at *
    simp only [UInt8.reduceToNat, Nat.reduceMod, low, Nat.shiftRight_eq_div_pow, Nat.reducePow,
      imp_false] at *
    omega

end Decode

open Decode Encoding in
/-- The decoder takes exactly the instruction's encoded bytes. -/
theorem decode_length (code : Nat → UInt8) : (decode code).length = Encoding.length code := by
  by_cases hp : code 0 = 0xDD ∨ code 0 = 0xFD
  · by_cases hq : code 1 = 0xDD ∨ code 1 = 0xFD
    · simp [decode, Encoding.length, hp, hq]
    by_cases hcb : code 1 = 0xCB
    · simp [decode, Encoding.length, hp, hcb]
    by_cases hed : code 1 = 0xED
    · simp [decode, Encoding.length, hp, hed, ed_length]
    · simp [decode, Encoding.length, hp, hq, hcb, hed, main_length]
      omega
  · by_cases hcb : code 0 = 0xCB
    · simp [decode, Encoding.length, hcb]
    by_cases hed : code 0 = 0xED
    · simp [decode, Encoding.length, hed, ed_length]
    · simp [decode, Encoding.length, hp, hcb, hed, main_length]

open Encoding in
/-- The decoder counts exactly the instruction's opcode fetches. -/
theorem decode_fetches (code : Nat → UInt8) :
    (decode code).fetches = Encoding.opcodeFetches code := by
  by_cases hp : code 0 = 0xDD ∨ code 0 = 0xFD
  · by_cases hq : code 1 = 0xDD ∨ code 1 = 0xFD
    · simp [decode, opcodeFetches, hp, hq]
    by_cases hcb : code 1 = 0xCB
    · simp [decode, opcodeFetches, hp, hcb]
    by_cases hed : code 1 = 0xED
    · simp [decode, opcodeFetches, hp, hed]
    · simp [decode, opcodeFetches, hp, hq, hcb, hed]
  · by_cases hcb : code 0 = 0xCB
    · simp [decode, opcodeFetches, hcb]
    by_cases hed : code 0 = 0xED
    · simp [decode, opcodeFetches, hed]
    · simp [decode, opcodeFetches, hp, hcb, hed]

open Decode Encoding in
/-- The decoder reads LD R,A from ED 4F and LD A,R from ED 5F, behind a DD or FD or not, and
from nothing else. -/
theorem decode_refresh (code : Nat → UInt8) :
    ((decode code).instr = .ldRA ↔ edOpcode code = some 0x4F) ∧
      ((decode code).instr = .ldAR ↔ edOpcode code = some 0x5F) := by
  by_cases hp : code 0 = 0xDD ∨ code 0 = 0xFD
  · by_cases hq : code 1 = 0xDD ∨ code 1 = 0xFD
    · have hed : code 1 ≠ 0xED := by rcases hq with h | h <;> simp [h]
      simp [decode, edOpcode, hp, hq, hed]
    by_cases hcb : code 1 = 0xCB
    · simp [decode, edOpcode, hp, hcb, indexedCb, bitOp_ne_refresh]
    by_cases hed : code 1 = 0xED
    · simp [decode, edOpcode, hp, hed, ed_refresh]
    · simp [decode, edOpcode, hp, hq, hcb, hed, main_ne_refresh]
  · by_cases hcb : code 0 = 0xCB
    · simp [decode, edOpcode, hcb, cb, bitOp_ne_refresh]
    by_cases hed : code 0 = 0xED
    · simp [decode, edOpcode, hed, ed_refresh]
    · simp [decode, edOpcode, hp, hcb, hed, main_ne_refresh]

/-! ## Where control goes -/

/-- Whether a block instruction that left the registers `rs` goes round again: its counter is
still non-zero and, for CPIR and CPDR, the byte compared was not A. -/
def BlockOp.goesRound : BlockOp → Registers → Bool
  | .load, rs => rs.bc != 0
  | .compare, rs => rs.bc != 0 && rs.f &&& Flag.z == 0
  | .input, rs | .output, rs => rs.b != 0

/-- Whether an instruction that started from the registers `rs` and left `rs'` transferred
control: a jump, call or return whose condition held in `rs`, DJNZ with B still non-zero,
RST, JP (HL), RETN, HALT, and a repeating block instruction that goes round again. -/
def Instr.transfers (rs rs' : Registers) : Instr → Bool
  | .jp cc _ | .jr cc _ | .call cc _ | .ret cc => rs.taken cc
  | .djnz _ => rs'.b != 0
  | .jpInd _ | .rst _ | .retn | .halt => true
  | .block op _ repeats => repeats && op.goesRound rs'
  | _ => false

namespace Registers

theorem setReg8_pc (rs : Registers) (r : Reg8) (v : UInt8) : (rs.setReg8 r v).pc = rs.pc := by
  cases r <;> rfl

theorem setReg16_pc (rs : Registers) (rr : Reg16) (v : UInt16) :
    (rs.setReg16 rr v).pc = rs.pc := by
  cases rr <;> rfl

theorem taken_setWZ (rs : Registers) (v : UInt16) (cc : Option Cond) :
    ({ rs with wz := v } : Registers).taken cc = rs.taken cc := rfl

/-- A condition reads F alone. -/
theorem taken_of_f {rs₁ rs₂ : Registers} (h : rs₁.f = rs₂.f) (cc : Option Cond) :
    rs₁.taken cc = rs₂.taken cc := by
  rcases cc with _ | cc
  · rfl
  · cases cc <;> simp [taken, holds, h]

end Registers

theorem Instr.transfers_of_f {rs₁ rs₂ : Registers} (h : rs₁.f = rs₂.f) (rs' : Registers)
    (i : Instr) : i.transfers rs₁ rs' = i.transfers rs₂ rs' := by
  cases i <;> simp only [Instr.transfers.eq_def, Registers.taken_of_f h]

/-- CPI and CPD set Z exactly when the byte compared is A. -/
theorem Alu.blockCompareFlags_z (a v : UInt8) (nz : Bool) (f : UInt8) :
    blockCompareFlags a v nz f &&& Flag.z = Flag.when (a == v) Flag.z := by
  apply UInt8.toBitVec_inj.mp
  -- Z is bit 6, and only the `sz53` part of the flags reaches it
  cases nz <;> cases h : (a == v) <;>
    simp_all [blockCompareFlags, sz53, Flag.s, Flag.xy, Flag.z, Flag.c, Flag.n, Flag.h, Flag.x,
      Flag.y, Flag.pv, BitVec.and_or_distrib_right, BitVec.and_assoc, Flag.when, sub_eq_zero]

theorem Alu.blockCompareFlags_z_eq_zero (a v : UInt8) (nz : Bool) (f : UInt8) :
    blockCompareFlags a v nz f &&& Flag.z = 0 ↔ v ≠ a := by
  rw [blockCompareFlags_z]
  by_cases h : a = v
  · subst h
    simp only [beq_self_eq_true, Flag.when, if_true, ne_eq, not_true_eq_false, iff_false]
    decide
  · simp [Flag.when, h, Ne.symm h]

namespace Exec

variable {β : Type} [Bus β]

/-- An instruction that does not transfer control leaves PC where the fetch put it, and an
aborted one leaves it there too. -/
theorem exec_pc (i : Instr) (rs : Registers) :
    ⦃fun m : Machine β => ⌜m.cpu.regs = rs⌝⦄ (i.exec : Exec β Nat)
    ⦃post⟨fun _ m => ⌜i.transfers rs m.cpu.regs = false → m.cpu.regs.pc = rs.pc⌝,
      fun _ m => ⌜m.cpu.regs.pc = rs.pc⌝⟩⦄ := by
  cases i
  -- IN r,(C) picks its destination by a match inside the register update
  case inC dst =>
    cases dst <;> mvcgen -trivial [Instr.exec] <;> subst_vars <;> simp [Registers.setReg8_pc]
  all_goals mvcgen -trivial [Instr.exec, readWord, writeWord, Exec.push, Exec.pop, setWZ, setPC,
    setF, locate, load, store, source, setAFrom, pointer, jumpRelative, rewrite, writeBack,
    Exec.block, blockLoad, blockCompare, blockIn, blockOut, repeatBlock, readByte_eq]
  all_goals
    subst_vars
    simp_all +zetaDelta [Instr.transfers.eq_def, BlockOp.goesRound, Registers.setHL,
      Registers.setDE, Registers.setBC, Registers.setAF, Registers.setXY, Registers.swapAF,
      Registers.swapMain, Cpu.writeRefresh, Alu.blockCompareFlags_z_eq_zero,
      Registers.setReg8_pc, Registers.setReg16_pc, Registers.taken_setWZ, Registers.bc]

omit [Bus β] in
theorem fetched_pc_f (m : Machine β) :
    m.fetched.cpu.regs.pc = m.cpu.regs.pc + m.cpu.nextInstr.length.toUInt16 ∧
      m.fetched.cpu.regs.f = m.cpu.regs.f := by
  simp [Machine.fetched]

/-- A step that executes an instruction which does not transfer control leaves PC just past the
instruction's bytes, finished or stopped. -/
theorem executeOne_pc {m : Machine β} (hn : m.control.taken = none)
    (hh : m.cpu.regs.halted = false)
    (ht : m.cpu.nextInstr.instr.transfers m.cpu.regs
      (after ((executeOne : Exec β StepResult) m)).cpu.regs = false) :
    (after ((executeOne : Exec β StepResult) m)).cpu.regs.pc =
      m.cpu.regs.pc + (Encoding.length m.cpu.opcodes).toUInt16 := by
  obtain ⟨hpc, hf⟩ := fetched_pc_f m
  rw [← decode_length, ← Cpu.nextInstr_eq, ← hpc]
  rw [executeOne_of_instruction hn hh] at ht ⊢
  cases hx : (m.cpu.nextInstr.instr.exec : Exec β Nat) m.fetched with
  | ok n x =>
    have hpc' := ok_of_triple (exec_pc _ _) rfl hx
    rw [hx] at ht
    -- counting the cycles leaves the registers alone
    exact hpc' ((Instr.transfers_of_f hf _ _).trans ht)
  | error e x => exact error_of_triple (exec_pc _ _) rfl hx

end Exec

open Exec in
/-- The decoder consumes exactly each instruction's encoded bytes: it takes the length the
encoding gives, and a step that executes an instruction which does not transfer control
leaves PC just past those bytes. -/
theorem fetch_consumes_encoding {β : Type} [Bus β] :
    (∀ code, (decode code).length = Encoding.length code) ∧
    ∀ m : Machine β, m.cpu.regs.halted = false → m.control.taken = none →
      m.cpu.nextInstr.instr.transfers m.cpu.regs
        (after ((executeOne : Exec β StepResult) m)).cpu.regs = false →
      (after ((executeOne : Exec β StepResult) m)).cpu.regs.pc =
        m.cpu.regs.pc + (Encoding.length m.cpu.opcodes).toUInt16 :=
  ⟨decode_length, fun _ hh hn ht => executeOne_pc hn hh ht⟩

open Exec in
/-- LD (IX+5),42 from power-on is four bytes long, and the step leaves PC at 4. -/
theorem fetch_consumes_encoding_loaded :
    (Machine.loaded [0xDD, 0x36, 0x05, 0x42]).cpu.regs.pc +
        (Encoding.length (Machine.loaded [0xDD, 0x36, 0x05, 0x42]).cpu.opcodes).toUInt16 = 4 ∧
      (after ((executeOne : Exec SimpleBus StepResult)
        (Machine.loaded [0xDD, 0x36, 0x05, 0x42]))).cpu.regs.pc =
        (Machine.loaded [0xDD, 0x36, 0x05, 0x42]).cpu.regs.pc +
          (Encoding.length (Machine.loaded [0xDD, 0x36, 0x05, 0x42]).cpu.opcodes).toUInt16 :=
  ⟨by decide, fetch_consumes_encoding.2 _ rfl (by decide) (by decide)⟩

/-! ## Counting fetches in R -/

/-- The opcode fetches of the step from `m`: one for an acknowledgment or a halted idle, the
instruction's own otherwise. -/
def Machine.stepFetches {β : Type} (m : Machine β) : Nat :=
  if m.control.taken = none ∧ m.cpu.regs.halted = false then Encoding.opcodeFetches m.cpu.opcodes
  else 1

/-- Whether the step from `m` executes the instruction at PC, and that instruction is ED `op`,
behind a DD or FD or not. -/
def Machine.executesEd {β : Type} (m : Machine β) (op : UInt8) : Prop :=
  m.control.taken = none ∧ m.cpu.regs.halted = false ∧ Encoding.edOpcode m.cpu.opcodes = some op

theorem Machine.withRefresh_self {β : Type} (m : Machine β) :
    m.withRefresh m.cpu.regs.r m.cpu.config.refresh = m := rfl

namespace Exec

variable {β : Type} [Bus β] {m : Machine β}

/-- A step that commutes with replacing R leaves R at the value it moves R to. -/
theorem after_r_of_withRefresh {p : RefreshMode} {v : UInt8} (hp : m.cpu.config.refresh = p)
    (h : (executeOne : Exec β StepResult) (m.withRefresh m.cpu.regs.r p) =
      mapState (·.withRefresh v p) (executeOne m)) :
    (after ((executeOne : Exec β StepResult) m)).cpu.regs.r = v := by
  subst hp
  rw [Machine.withRefresh_self] at h
  rw [h, after_mapState]
  rfl

/-- LD A,R leaves R where the fetch put it and loads A with the value R reads there. -/
theorem after_executeOne_ldAR (hn : m.control.taken = none) (hh : m.cpu.regs.halted = false)
    (hA : m.cpu.nextInstr.instr = .ldAR) :
    (after ((executeOne : Exec β StepResult) m)).cpu.regs.r = m.fetched.cpu.regs.r ∧
      (after ((executeOne : Exec β StepResult) m)).cpu.regs.a = m.fetched.cpu.refreshValue := by
  rw [executeOne_of_instruction hn hh, hA]
  exact ⟨rfl, rfl⟩

omit [Bus β] in
theorem fetched_r (hp : m.cpu.config.refresh = .perFetch) :
    m.fetched.cpu.regs.r = RefreshMode.perFetch.countFetches m.cpu.regs.r m.cpu.nextInstr.fetches := by
  simp [Machine.fetched, Cpu.fetchedR, hp, RefreshMode.countFetches, Registers.advanceR]

/-- In `perFetch` mode a step other than LD R,A advances R by its opcode fetches. -/
theorem executeOne_r (hp : m.cpu.config.refresh = .perFetch) (h : ¬ m.executesEd 0x4F) :
    (after ((executeOne : Exec β StepResult) m)).cpu.regs.r =
      RefreshMode.perFetch.countFetches m.cpu.regs.r m.stepFetches := by
  by_cases ht : m.control.taken = none
  case neg =>
    have hs : m.stepFetches = 1 := by simp [Machine.stepFetches, ht]
    rw [hs]
    exact after_r_of_withRefresh hp (executeOne_withRefresh_of_taken _ _ ht)
  by_cases hh : m.cpu.regs.halted = false
  case neg =>
    have hs : m.stepFetches = 1 := by simp [Machine.stepFetches, hh]
    rw [hs]
    exact after_r_of_withRefresh hp (executeOne_withRefresh_of_halted _ _ ht (by simpa using hh))
  -- an instruction: its fetches are those the decoder counts, and it is not LD R,A
  have hs : m.stepFetches = m.cpu.nextInstr.fetches := by
    simp [Machine.stepFetches, ht, hh, Cpu.nextInstr_eq, decode_fetches]
  have hR : m.cpu.nextInstr.instr ≠ .ldRA := by
    rw [Cpu.nextInstr_eq, Ne, (decode_refresh _).1]
    exact fun he => h ⟨ht, hh, he⟩
  rw [hs]
  by_cases hA : m.cpu.nextInstr.instr = .ldAR
  · rw [(after_executeOne_ldAR ht hh hA).1, fetched_r hp]
  · exact after_r_of_withRefresh hp (executeOne_withRefresh_of_instruction _ _ ht hh hA hR)

/-- LD R,A leaves R holding A, all eight bits. -/
theorem executeOne_r_ldRA (h : m.executesEd 0x4F) :
    (after ((executeOne : Exec β StepResult) m)).cpu.regs.r = m.cpu.regs.a := by
  obtain ⟨ht, hh, he⟩ := h
  have hR : m.cpu.nextInstr.instr = .ldRA := by
    rw [Cpu.nextInstr_eq, (decode_refresh _).1]
    exact he
  have hm := executeOne_withRefresh_of_ldRA m.cpu.regs.r m.cpu.config.refresh ht hh hR
  exact after_r_of_withRefresh rfl hm

/-- LD A,R loads A with R after both of its own fetches, which is R after the step. -/
theorem executeOne_a_ldAR (hp : m.cpu.config.refresh = .perFetch) (h : m.executesEd 0x5F) :
    (after ((executeOne : Exec β StepResult) m)).cpu.regs.a =
      (after ((executeOne : Exec β StepResult) m)).cpu.regs.r := by
  obtain ⟨ht, hh, he⟩ := h
  have hA : m.cpu.nextInstr.instr = .ldAR := by
    rw [Cpu.nextInstr_eq, (decode_refresh _).2]
    exact he
  have hv : m.fetched.cpu.refreshValue = m.fetched.cpu.regs.r := by
    simp [Cpu.refreshValue, Machine.fetched, hp]
  rw [(after_executeOne_ldAR ht hh hA).1, (after_executeOne_ldAR ht hh hA).2, hv]

end Exec

open Exec in
/-- Refresh counting in `perFetch` mode. Every step keeps bit 7 of R and advances its low seven
bits by the step's opcode fetches, except LD R,A, which leaves R holding A; LD A,R loads A
with R as the step leaves it. -/
theorem refresh_counts_opcode_fetches {β : Type} [Bus β] (m : Machine β)
    (hp : m.cpu.config.refresh = .perFetch) :
    (m.executesEd 0x4F →
      (after ((executeOne : Exec β StepResult) m)).cpu.regs.r = m.cpu.regs.a) ∧
    (¬ m.executesEd 0x4F →
      (after ((executeOne : Exec β StepResult) m)).cpu.regs.r &&& 0x80 = m.cpu.regs.r &&& 0x80 ∧
      (after ((executeOne : Exec β StepResult) m)).cpu.regs.r.toNat % 128 =
        (m.cpu.regs.r.toNat + m.stepFetches) % 128) ∧
    (m.executesEd 0x5F →
      (after ((executeOne : Exec β StepResult) m)).cpu.regs.a =
        (after ((executeOne : Exec β StepResult) m)).cpu.regs.r) := by
  refine ⟨executeOne_r_ldRA, fun h => ?_, executeOne_a_ldAR hp⟩
  rw [executeOne_r hp h]
  -- counting from R alone: the other registers play no part
  exact ⟨Registers.advanceR_r_high { r := m.cpu.regs.r } _,
    Registers.advanceR_r_low { r := m.cpu.regs.r } _⟩

open Exec in
/-- One iteration of LDIR from power-on counts its two opcode fetches in R. -/
theorem refresh_counts_opcode_fetches_loaded :
    (Machine.loaded [0xED, 0xB0]).cpu.config.refresh = .perFetch ∧
      (after ((executeOne : Exec SimpleBus StepResult)
        (Machine.loaded [0xED, 0xB0]))).cpu.regs.r.toNat % 128 = 2 :=
  ⟨rfl, ((refresh_counts_opcode_fetches _ rfl).2.1
    (by unfold Machine.executesEd; decide)).2.trans (by decide)⟩

end Z80
