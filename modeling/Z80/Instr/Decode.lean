import Z80.Instr.Basic
import Z80.Timing

/-!
# Instruction decoding

`decode code` reads one instruction from the bytes `code 0, code 1, …` that start at
the program counter. Besides the instruction it reports how many bytes it takes, how
many of them are opcode fetches (M1 cycles, each of which advances R) and its cost
before any taken branch or block repeat.

Opcodes split into fields `x` (bits 7-6), `y` (bits 5-3) and `z` (bits 2-0), with
`p = y / 2` and `q = y mod 2`. Prefixes:

* DD or FD selects IX or IY for HL; a displacement follows the opcode wherever `(HL)`
  becomes `(IX+d)`. When another DD or FD follows, the first prefix is a 4-cycle
  instruction of its own and only the last one counts.
* CB selects the shifts and bit operations; after DD or FD it is followed by the
  displacement and then the operation byte, which is read as an operand.
* ED selects the extended group and drops any index prefix before it.
-/

namespace Z80

/-- An instruction as read from memory. -/
structure Decoded where
  instr : Instr
  /-- Bytes taken, prefixes included. -/
  length : Nat
  /-- Opcode fetches (M1 cycles) among them. -/
  fetches : Nat
  /-- Cost in T-states, not counting a taken branch or a block repeat. -/
  cycles : Nat

namespace Decode

/-- HL, or the index register that replaces it. -/
def hlOf : Option Index → Reg16
  | none => .hl
  | some .ix => .ix
  | some .iy => .iy

/-- The register pair of a two-bit field: BC, DE, HL, SP. -/
def pair (x : Option Index) (p : UInt8) : Reg16 :=
  match p &&& 3 with
  | 0 => .bc | 1 => .de | 2 => hlOf x | _ => .sp

/-- The register pair of PUSH and POP: BC, DE, HL, AF. -/
def stackPair (x : Option Index) (p : UInt8) : Reg16 :=
  match p &&& 3 with
  | 0 => .bc | 1 => .de | 2 => hlOf x | _ => .af

/-- The register of a three-bit field other than 6: B, C, D, E, H, L, A, with H and L
replaced by the halves of the index register. -/
def reg8 (x : Option Index) (r : UInt8) : Reg8 :=
  match r &&& 7, x with
  | 0, _ => .b | 1, _ => .c | 2, _ => .d | 3, _ => .e
  | 4, none => .h | 4, some .ix => .ixh | 4, some .iy => .iyh
  | 5, none => .l | 5, some .ix => .ixl | 5, some .iy => .iyl
  | _, _ => .a

/-- The condition of a three-bit field. -/
def cond (y : UInt8) : Cond :=
  match y &&& 7 with
  | 0 => .nz | 1 => .z | 2 => .nc | 3 => .c
  | 4 => .po | 5 => .pe | 6 => .p | _ => .m

/-- The little-endian word at `arg k`, `arg (k + 1)`. -/
def imm16 (arg : Nat → UInt8) (k : Nat) : UInt16 :=
  word (arg (k + 1)) (arg k)

/-- The memory operand `(HL)`, or `(IX+d)` with its displacement at `arg 0`; with the
number of bytes it takes. -/
def memory (x : Option Index) (arg : Nat → UInt8) : Operand × Nat :=
  match x with
  | none => (.memHL, 0)
  | some i => (.indexed i (arg 0), 1)

/-- The operand of a three-bit field: a register, or the memory operand for 6. -/
def operand (x : Option Index) (arg : Nat → UInt8) (r : UInt8) : Operand × Nat :=
  if r &&& 7 = 6 then memory x arg else (.reg (reg8 x r), 0)

/-- An unprefixed opcode, or one after DD or FD, with its operand bytes `arg`. Returns
the instruction and the number of operand bytes. -/
def main (x : Option Index) (op : UInt8) (arg : Nat → UInt8) : Instr × Nat :=
  let y := (op >>> 3) &&& 7
  let z := op &&& 7
  let p := y >>> 1
  let q := y &&& 1
  match op >>> 6 with
  | 0 =>
    match z with
    | 0 =>
      match y with
      | 0 => (.nop, 0)
      | 1 => (.exAF, 0)
      | 2 => (.djnz (arg 0), 1)
      | 3 => (.jr none (arg 0), 1)
      | _ => (.jr (some (cond (y - 4))) (arg 0), 1)
    | 1 => if q = 0 then (.ldImm16 (pair x p) (imm16 arg 0), 2) else (.add16 (hlOf x) (pair x p), 0)
    | 2 =>
      match q, p with
      | 0, 0 => (.storeA .bc, 0)
      | 0, 1 => (.storeA .de, 0)
      | 0, 2 => (.storeWord (hlOf x) (imm16 arg 0), 2)
      | 0, _ => (.storeA (.abs (imm16 arg 0)), 2)
      | _, 0 => (.loadA .bc, 0)
      | _, 1 => (.loadA .de, 0)
      | _, 2 => (.loadWord (hlOf x) (imm16 arg 0), 2)
      | _, _ => (.loadA (.abs (imm16 arg 0)), 2)
    | 3 => if q = 0 then (.inc16 (pair x p), 0) else (.dec16 (pair x p), 0)
    | 4 => let (o, n) := operand x arg y; (.inc8 o, n)
    | 5 => let (o, n) := operand x arg y; (.dec8 o, n)
    | 6 => let (o, n) := operand x arg y; (.ld o (.imm (arg n)), n + 1)
    | _ =>
      match y with
      | 0 => (.rotateA .rlc, 0)
      | 1 => (.rotateA .rrc, 0)
      | 2 => (.rotateA .rl, 0)
      | 3 => (.rotateA .rr, 0)
      | 4 => (.daa, 0)
      | 5 => (.cpl, 0)
      | 6 => (.scf, 0)
      | _ => (.ccf, 0)
  | 1 =>
    if op = 0x76 then (.halt, 0)
    -- a memory operand keeps the real H and L on the other side
    else if z = 6 then let (o, n) := memory x arg; (.ld (.reg (reg8 none y)) (.operand o), n)
    else if y = 6 then let (o, n) := memory x arg; (.ld o (.operand (.reg (reg8 none z))), n)
    else (.ld (.reg (reg8 x y)) (.operand (.reg (reg8 x z))), 0)
  | 2 => let (o, n) := operand x arg z; (.alu (AluOp.ofBits y) (.operand o), n)
  | _ =>
    match z with
    | 0 => (.ret (some (cond y)), 0)
    | 1 =>
      if q = 0 then (.pop (stackPair x p), 0)
      else match p with
        | 0 => (.ret none, 0)
        | 1 => (.exx, 0)
        | 2 => (.jpInd (hlOf x), 0)
        | _ => (.ldSP (hlOf x), 0)
    | 2 => (.jp (some (cond y)) (imm16 arg 0), 2)
    | 3 =>
      match y with
      | 0 => (.jp none (imm16 arg 0), 2)
      | 2 => (.outImm (arg 0), 1)
      | 3 => (.inImm (arg 0), 1)
      | 4 => (.exSP (hlOf x), 0)
      | 5 => (.exDEHL, 0)
      | 6 => (.di, 0)
      | 7 => (.ei, 0)
      | _ => (.nop, 0)
    | 4 => (.call (some (cond y)) (imm16 arg 0), 2)
    | 5 =>
      if q = 0 then (.push (stackPair x p), 0)
      else if p = 0 then (.call none (imm16 arg 0), 2)
      else (.nop, 0)
    | 6 => (.alu (AluOp.ofBits y) (.imm (arg 0)), 1)
    | _ => (.rst (y * 8), 0)

/-- The operation of a CB sub-opcode on an operand; `copy` receives a written result. -/
def bitOp (op : UInt8) (o : Operand) (copy : Option Reg8) : Instr :=
  let y := (op >>> 3) &&& 7
  match op >>> 6 with
  | 0 => .shift (Shift.ofBits y) o copy
  | 1 => .bit y o
  | 2 => .res y o copy
  | _ => .set y o copy

/-- The instruction of a CB sub-opcode. -/
def cb (op : UInt8) : Instr :=
  bitOp op (operand none (fun _ => 0) op).1 none

/-- The instruction of DD CB d op or FD CB d op: the operand is always `(IX+d)`, and
a register field other than 6 also receives a written result. -/
def indexedCb (x : Index) (disp op : UInt8) : Instr :=
  bitOp op (.indexed x disp) (if op &&& 7 = 6 then none else some (reg8 none op))

/-- The interrupt mode set by IM, by bits 4-3 of its opcode; the 0/1 encoding is
mode 0. -/
def imMode (y : UInt8) : InterruptMode :=
  match y &&& 3 with
  | 0 => .im0 | 1 => .im0 | 2 => .im1 | _ => .im2

/-- An opcode after ED, with its operand bytes `arg`. -/
def ed (op : UInt8) (arg : Nat → UInt8) : Instr × Nat :=
  let y := (op >>> 3) &&& 7
  let z := op &&& 7
  let p := y >>> 1
  let q := y &&& 1
  let io : Option Reg8 := if y = 6 then none else some (reg8 none y)
  match op >>> 6 with
  | 1 =>
    match z with
    | 0 => (.inC io, 0)
    | 1 => (.outC io, 0)
    | 2 => (if q = 0 then .sbc16 (pair none p) else .adc16 (pair none p), 0)
    | 3 =>
      if q = 0 then (.storeWord (pair none p) (imm16 arg 0), 2)
      else (.loadWord (pair none p) (imm16 arg 0), 2)
    | 4 => (.neg, 0)
    | 5 => (.retn, 0)
    | 6 => (.im (imMode y), 0)
    | _ =>
      match y with
      | 0 => (.ldIA, 0)
      | 1 => (.ldRA, 0)
      | 2 => (.ldAI, 0)
      | 3 => (.ldAR, 0)
      | 4 => (.rrd, 0)
      | 5 => (.rld, 0)
      | _ => (.nop, 0)
  | 2 =>
    if z ≤ 3 ∧ 4 ≤ y then
      let family : BlockOp := match z with
        | 0 => .load | 1 => .compare | 2 => .input | _ => .output
      (.block family (y &&& 1 = 0) (6 ≤ y), 0)
    else (.nop, 0)
  | _ => (.nop, 0)

end Decode

open Decode in
/-- The instruction whose bytes are `code 0, code 1, …`. -/
def decode (code : Nat → UInt8) : Decoded :=
  let op := code 0
  if op = 0xDD ∨ op = 0xFD then
    let x : Index := if op = 0xDD then .ix else .iy
    let next := code 1
    if next = 0xDD ∨ next = 0xFD then
      { instr := .nop, length := 1, fetches := 1, cycles := Timing.prefixByte }
    else if next = 0xCB then
      { instr := indexedCb x (code 2) (code 3), length := 4, fetches := 2,
        cycles := 2 * Timing.prefixByte + Timing.indexedCb (code 3) }
    else if next = 0xED then
      let (i, n) := ed (code 2) (fun k => code (k + 3))
      { instr := i, length := 3 + n, fetches := 3,
        cycles := 2 * Timing.prefixByte + Timing.ed (code 2) }
    else
      let (i, n) := main (some x) next (fun k => code (k + 2))
      { instr := i, length := 2 + n, fetches := 2,
        cycles := Timing.prefixByte + Timing.indexed next }
  else if op = 0xCB then
    { instr := cb (code 1), length := 2, fetches := 2,
      cycles := Timing.prefixByte + Timing.cb (code 1) }
  else if op = 0xED then
    let (i, n) := ed (code 1) (fun k => code (k + 2))
    { instr := i, length := 2 + n, fetches := 2, cycles := Timing.prefixByte + Timing.ed (code 1) }
  else
    let (i, n) := main none op (fun k => code (k + 1))
    { instr := i, length := 1 + n, fetches := 1, cycles := Timing.base op }

end Z80
