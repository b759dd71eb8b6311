import Z80.Proofs.Control

/-!
# Cycle costs

The tables give every opcode its documented cost, and the four prefix bytes of the
unprefixed table hold 0 there: the decoder never charges those entries, since it sends
CB, DD, ED and FD to the prefix paths, and every path charges at least the four cycles
of one opcode fetch. So every decoded instruction costs at least four cycles, which is
what makes runs finish: each step takes at least four cycles off the budget.

An instruction costs its table cost plus what `Instr.exec` returns: the extra of a taken
CALL cc, RET cc, JR cc or DJNZ, of a repeating block instruction that goes round, or of
CPIR and CPDR when they stop. `Instr.extraBound` is the most each instruction can add
(`exec_extra`), and the tables bound the sum (`decode_cost`): at most 25 cycles. So a
budget that a step's cost is taken from never wraps while it is positive.
-/

open Std.Do

set_option mvcgen.warning false

namespace Z80

/-! ## At least one opcode fetch -/

/-- Every unprefixed opcode that is not a prefix byte costs at least four cycles. -/
theorem Timing.four_le_base {op : UInt8} (hdd : op ≠ 0xDD) (hfd : op ≠ 0xFD)
    (hcb : op ≠ 0xCB) (hed : op ≠ 0xED) : 4 ≤ Timing.base op := by
  obtain ⟨b⟩ := op
  revert b
  -- the 256 table entries, with the four prefix slots excluded
  set_option maxRecDepth 20000 in decide

/-- Every instruction costs at least one opcode fetch's four cycles. -/
theorem four_le_decode_cycles (code : Nat → UInt8) : 4 ≤ (decode code).cycles := by
  by_cases hpre : code 0 = 0xDD ∨ code 0 = 0xFD
  · -- after an index prefix every path charges the prefix
    simp only [decode, hpre, if_true]
    repeat' split
    all_goals
      simp only [Timing.prefixByte]
      omega
  · by_cases hcb : code 0 = 0xCB
    · simp [decode, hcb, Timing.prefixByte]
    · by_cases hed : code 0 = 0xED
      · simp [decode, hed, Timing.prefixByte]
      · simp only [decode, hpre, hcb, hed, if_false]
        exact Timing.four_le_base (fun h => hpre (.inl h)) (fun h => hpre (.inr h)) hcb hed

/-! ## The extra cycles of an instruction -/

/-- The most an instruction can cost beyond its table cost: a taken CALL cc, RET cc, JR cc or
DJNZ, and a repeating block instruction that goes round (CPIR and CPDR pay less when they
stop). -/
def Instr.extraBound : Instr → Nat
  | .call (some _) _ => Timing.callTaken
  | .ret (some _) => Timing.retTaken
  | .jr (some _) _ => Timing.jrTaken
  | .djnz _ => Timing.jrTaken
  | .block _ _ true => Timing.blockRepeat
  | _ => 0

namespace Exec

variable {β : Type} [Bus β]

/-- An instruction costs at most `extraBound` beyond its table cost. -/
theorem exec_extra (i : Instr) :
    ⦃fun _ : Machine β => ⌜True⌝⦄ (i.exec : Exec β Nat)
    ⦃post⟨fun n _ => ⌜n ≤ i.extraBound⌝, fun _ _ => ⌜True⌝⟩⦄ := by
  cases i
  case call cc t =>
    cases cc with
    | none => mvcgen [Instr.exec, Exec.push, setWZ, setPC]
    | some cond =>
      mvcgen [Instr.exec, Exec.push, setWZ, setPC]
      -- the condition failed: no extra
      exact Nat.zero_le _
  case ret cc =>
    cases cc with
    | none => mvcgen [Instr.exec, Exec.pop, readWord, readByte_eq]
    | some cond =>
      mvcgen [Instr.exec, Exec.pop, readWord, readByte_eq]
      exact Nat.zero_le _
  case jr cc d =>
    cases cc with
    | none => mvcgen [Instr.exec, jumpRelative]
    | some cond =>
      mvcgen [Instr.exec, jumpRelative]
      exact Nat.zero_le _
  case block op up repeats =>
    cases repeats <;> cases op <;>
      mvcgen [Instr.exec, Exec.block, blockLoad, blockCompare, blockIn, blockOut, repeatBlock,
        readByte_eq] <;> simp_all [Instr.extraBound, Timing.blockRepeat, Timing.blockCompareExit]
  case inC dst => cases dst <;> mvcgen [Instr.exec]
  all_goals mvcgen -trivial [Instr.exec, readWord, writeWord, Exec.push, Exec.pop, setWZ, setPC,
    setF, locate, load, store, source, setAFrom, pointer, jumpRelative, rewrite, writeBack,
    readByte_eq]
  all_goals simp [Instr.extraBound, Timing.jrTaken]

end Exec

/-! ## At most 25 cycles -/

namespace Decode

/-- A fact about every opcode, checked on `UInt8.ofNat n` for each `n < 256`. -/
theorem byte_cases {motive : UInt8 → Prop} (h : ∀ n < 256, motive (UInt8.ofNat n))
    (op : UInt8) : motive op := by
  have hop : op = UInt8.ofNat op.toNat := by simp
  rw [hop]
  exact h _ op.toNat_lt

set_option maxRecDepth 20000 in
/-- Behind a prefix or not, an opcode of the main table with its extra costs at most 21. -/
theorem main_cost (x : Option Index) (op : UInt8) (arg : Nat → UInt8) :
    Timing.indexed op + (main x op arg).1.extraBound ≤ 21 := by
  induction op using byte_cases with
  | h n hn =>
    cases x with
    | none => interval_cases n <;> exact Nat.le_of_ble_eq_true rfl
    | some i => interval_cases n <;> exact Nat.le_of_ble_eq_true rfl

set_option maxRecDepth 20000 in
/-- An opcode after ED with its extra costs at most 17. -/
theorem ed_cost (op : UInt8) (arg : Nat → UInt8) :
    Timing.ed op + (ed op arg).1.extraBound ≤ 17 := by
  induction op using byte_cases with
  | h n hn => interval_cases n <;> exact Nat.le_of_ble_eq_true rfl

theorem bitOp_extraBound (op : UInt8) (o : Operand) (copy : Option Reg8) :
    (bitOp op o copy).extraBound = 0 := by
  unfold bitOp
  split <;> rfl

end Decode

theorem Timing.base_le_indexed (op : UInt8) : Timing.base op ≤ Timing.indexed op :=
  Nat.le_add_right _ _

theorem Timing.cb_le (op : UInt8) : Timing.cb op ≤ 11 := by
  unfold Timing.cb
  split_ifs <;> decide

theorem Timing.indexedCb_le (op : UInt8) : Timing.indexedCb op ≤ 15 := by
  unfold Timing.indexedCb
  split_ifs <;> decide

open Decode in
/-- Every instruction, prefixes and extras included, costs at most 25 cycles. -/
theorem decode_cost (code : Nat → UInt8) :
    (decode code).cycles + (decode code).instr.extraBound ≤ 25 := by
  by_cases hp : code 0 = 0xDD ∨ code 0 = 0xFD
  · by_cases hq : code 1 = 0xDD ∨ code 1 = 0xFD
    · simp [decode, hp, hq, Instr.extraBound, Timing.prefixByte]
    by_cases hcb : code 1 = 0xCB
    · have := Timing.indexedCb_le (code 3)
      simp [decode, hp, hcb, indexedCb, bitOp_extraBound, Timing.prefixByte]
      omega
    by_cases hed : code 1 = 0xED
    · have := ed_cost (code 2) (fun k => code (k + 3))
      simp [decode, hp, hed, Timing.prefixByte]
      omega
    · have := main_cost (some (if code 0 = 0xDD then .ix else .iy)) (code 1) (fun k => code (k + 2))
      simp only [decode, hp, hq, hcb, hed, if_true, if_false, Timing.prefixByte]
      omega
  · by_cases hcb : code 0 = 0xCB
    · have := Timing.cb_le (code 1)
      simp [decode, hcb, cb, bitOp_extraBound, Timing.prefixByte]
      omega
    by_cases hed : code 0 = 0xED
    · have := ed_cost (code 1) (fun k => code (k + 2))
      simp [decode, hed, Timing.prefixByte]
      omega
    · have := main_cost none (code 0) (fun k => code (k + 1))
      have := Timing.base_le_indexed (code 0)
      simp only [decode, hp, hcb, hed, if_false]
      omega

end Z80
