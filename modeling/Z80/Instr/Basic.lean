import Z80.Alu.Basic
import Z80.Alu.Shift
import Z80.Registers.Basic

/-!
# Decoded instructions

`Instr` is a Z80 instruction with its operands resolved: what the opcode bytes, any
DD/FD index prefix, displacement and immediates select. An index prefix shows up in the
operands, as IX or IY in place of HL, as the halves IXh, IXl, IYh, IYl in place of H and
L, and as `(IX+d)` in place of `(HL)`. The undocumented forms are ordinary instructions
here: `SLL`, the index-register halves, `IN (C)` that only sets flags, `OUT (C),0`, and
the DD CB / FD CB operations that also copy their result into a register (`copy`).

Undefined ED opcodes, and a DD or FD prefix that a second prefix supersedes, decode to
`nop`.
-/

namespace Z80

/-- An index register, selected by a DD or FD prefix. -/
inductive Index where
  | ix | iy
deriving DecidableEq

/-- An 8-bit register operand: the main registers and the halves of IX and IY. -/
inductive Reg8 where
  | b | c | d | e | h | l | a | ixh | ixl | iyh | iyl
deriving DecidableEq

/-- A 16-bit register operand. -/
inductive Reg16 where
  | bc | de | hl | sp | af | ix | iy
deriving DecidableEq

/-- An 8-bit operand that is read and may be written. -/
inductive Operand where
  /-- A register. -/
  | reg (r : Reg8)
  /-- The byte at HL. -/
  | memHL
  /-- The byte at IX or IY plus a signed displacement. -/
  | indexed (x : Index) (disp : UInt8)
deriving DecidableEq

/-- An 8-bit source: an operand or an immediate byte. -/
inductive Source where
  | operand (o : Operand)
  | imm (n : UInt8)
deriving DecidableEq

/-- A branch condition on the flags. -/
inductive Cond where
  | nz | z | nc | c | po | pe | p | m
deriving DecidableEq

/-- Where LD A,(…) and LD (…),A find their address. -/
inductive Pointer where
  | bc | de
  | abs (addr : UInt16)
deriving DecidableEq

/-- The four block instruction families. -/
inductive BlockOp where
  /-- LDI, LDD, LDIR, LDDR. -/
  | load
  /-- CPI, CPD, CPIR, CPDR. -/
  | compare
  /-- INI, IND, INIR, INDR. -/
  | input
  /-- OUTI, OUTD, OTIR, OTDR. -/
  | output
deriving DecidableEq

/-- A decoded instruction. -/
inductive Instr where
  | nop
  /-- LD of a byte, between registers, memory and immediates. -/
  | ld (dst : Operand) (src : Source)
  /-- LD rr,nn. -/
  | ldImm16 (rr : Reg16) (nn : UInt16)
  /-- LD A,(BC), LD A,(DE), LD A,(nn). -/
  | loadA (p : Pointer)
  /-- LD (BC),A, LD (DE),A, LD (nn),A. -/
  | storeA (p : Pointer)
  /-- LD rr,(nn). -/
  | loadWord (rr : Reg16) (addr : UInt16)
  /-- LD (nn),rr. -/
  | storeWord (rr : Reg16) (addr : UInt16)
  /-- LD SP,HL (or IX, IY). -/
  | ldSP (rr : Reg16)
  | inc16 (rr : Reg16)
  | dec16 (rr : Reg16)
  | inc8 (o : Operand)
  | dec8 (o : Operand)
  /-- RLCA, RRCA, RLA, RRA. -/
  | rotateA (op : Shift)
  /-- EX AF,AF'. -/
  | exAF
  | exx
  /-- EX DE,HL. -/
  | exDEHL
  /-- EX (SP),HL (or IX, IY). -/
  | exSP (rr : Reg16)
  /-- ADD HL,rr (or IX, IY). -/
  | add16 (dst src : Reg16)
  /-- ADC HL,rr. -/
  | adc16 (src : Reg16)
  /-- SBC HL,rr. -/
  | sbc16 (src : Reg16)
  | djnz (disp : UInt8)
  /-- JR e, or JR cc,e. -/
  | jr (cc : Option Cond) (disp : UInt8)
  /-- JP nn, or JP cc,nn. -/
  | jp (cc : Option Cond) (target : UInt16)
  /-- JP (HL) (or IX, IY). -/
  | jpInd (rr : Reg16)
  /-- CALL nn, or CALL cc,nn. -/
  | call (cc : Option Cond) (target : UInt16)
  /-- RET, or RET cc. -/
  | ret (cc : Option Cond)
  | rst (target : UInt8)
  | daa
  | cpl
  | scf
  | ccf
  | halt
  | di
  | ei
  /-- ADD, ADC, SUB, SBC, AND, XOR, OR or CP with A. -/
  | alu (op : AluOp) (src : Source)
  | push (rr : Reg16)
  | pop (rr : Reg16)
  /-- OUT (n),A. -/
  | outImm (n : UInt8)
  /-- IN A,(n). -/
  | inImm (n : UInt8)
  /-- A CB shift or rotate; `copy` also receives the result. -/
  | shift (op : Shift) (o : Operand) (copy : Option Reg8)
  /-- BIT n. -/
  | bit (n : UInt8) (o : Operand)
  /-- RES n; `copy` also receives the result. -/
  | res (n : UInt8) (o : Operand) (copy : Option Reg8)
  /-- SET n; `copy` also receives the result. -/
  | set (n : UInt8) (o : Operand) (copy : Option Reg8)
  /-- IN r,(C), or IN (C) setting only the flags. -/
  | inC (dst : Option Reg8)
  /-- OUT (C),r, or OUT (C),0. -/
  | outC (src : Option Reg8)
  | neg
  /-- RETN, RETI and their mirrors. -/
  | retn
  | im (mode : InterruptMode)
  /-- LD I,A. -/
  | ldIA
  /-- LD R,A. -/
  | ldRA
  /-- LD A,I. -/
  | ldAI
  /-- LD A,R. -/
  | ldAR
  | rrd
  | rld
  /-- A block instruction: its family, direction and whether it repeats. -/
  | block (op : BlockOp) (up : Bool) (repeats : Bool)
deriving DecidableEq

end Z80
