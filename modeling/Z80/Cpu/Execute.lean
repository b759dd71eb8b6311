import Z80.Cpu.Block
import Z80.Alu.Wide
import Z80.Alu.Accumulator

/-!
# Instruction semantics

`Instr.exec` performs a decoded instruction whose bytes have been fetched, so PC
already points past it. It returns the cycles the instruction costs beyond its table
cost: a taken conditional branch, a repeat of a block instruction.

WZ, the internal address latch, follows the documented MEMPTR rules: it holds the
address after a word load or store (`nn + 1`), the target of jumps, calls and returns,
`A:(addr + 1)` after storing A through a pointer, the port plus one after I/O through
C and the effective address of `(IX+d)`. BIT on a memory operand leaks its high byte
into flags 5 and 3; BIT on a register leaks the register.
-/

namespace Z80

namespace Exec

variable {β : Type} [Bus β]

/-- The address of a pointer operand. -/
def pointer (p : Pointer) : Exec β UInt16 := do
  match p with
  | .bc => pure (← regs).bc
  | .de => pure (← regs).de
  | .abs addr => pure addr

/-- A relative jump by a displacement. -/
def jumpRelative (d : UInt8) : Exec β Unit :=
  modifyRegs fun rs => let pc := displace rs.pc d; { rs with pc, wz := pc }

/-- Reads an operand and writes `g` of it back, and to `copy` if given; returns the
byte read. -/
def rewrite (o : Operand) (copy : Option Reg8) (g : UInt8 → UInt8) : Exec β UInt8 := do
  let l ← locate o
  let v ← load l
  store l (g v)
  match copy with
  | some reg => modifyRegs fun rs => rs.setReg8 reg (g v)
  | none => pure ()
  pure v

/-- A read-modify-write that also sets F from its result. -/
def writeBack (o : Operand) (copy : Option Reg8) (f : UInt8 → Alu.Result) : Exec β Unit := do
  let v ← rewrite o copy fun v => (f v).value
  setF (f v).flags

end Exec

open Exec in
/-- Performs an instruction; the extra cycles it costs. -/
def Instr.exec {β : Type} [Bus β] : Instr → Exec β Nat
  | .nop => pure 0
  | .ld dst src => do
    let v ← source src
    store (← locate dst) v
    pure 0
  | .ldImm16 rr nn => do modifyRegs (·.setReg16 rr nn); pure 0
  | .loadA p => do
    let addr ← pointer p
    let v ← readByte addr
    modifyRegs fun rs => { rs with a := v, wz := addr + 1 }
    pure 0
  | .storeA p => do
    let addr ← pointer p
    let a := (← regs).a
    writeByte addr a
    setWZ (word a (loByte (addr + 1)))
    pure 0
  | .loadWord rr addr => do
    let v ← readWord addr
    modifyRegs fun rs => { rs.setReg16 rr v with wz := addr + 1 }
    pure 0
  | .storeWord rr addr => do
    writeWord addr ((← regs).reg16 rr)
    setWZ (addr + 1)
    pure 0
  | .ldSP rr => do modifyRegs (fun rs => { rs with sp := rs.reg16 rr }); pure 0
  | .inc16 rr => do modifyRegs (fun rs => rs.setReg16 rr (rs.reg16 rr + 1)); pure 0
  | .dec16 rr => do modifyRegs (fun rs => rs.setReg16 rr (rs.reg16 rr - 1)); pure 0
  | .inc8 o => do
    let f := (← regs).f
    writeBack o none (Alu.inc8 · f)
    pure 0
  | .dec8 o => do
    let f := (← regs).f
    writeBack o none (Alu.dec8 · f)
    pure 0
  | .rotateA op => do
    let rs ← regs
    setAFrom (op.applyAccumulator rs.a rs.f)
    pure 0
  | .exAF => do modifyRegs Registers.swapAF; pure 0
  | .exx => do modifyRegs Registers.swapMain; pure 0
  | .exDEHL => do modifyRegs (fun rs => (rs.setDE rs.hl).setHL rs.de); pure 0
  | .exSP rr => do
    let rs ← regs
    let v ← readWord rs.sp
    writeWord rs.sp (rs.reg16 rr)
    modifyRegs fun rs => { rs.setReg16 rr v with wz := v }
    pure 0
  | .add16 dst src => do
    let rs ← regs
    let hl := rs.reg16 dst
    let (v, f) := Alu.add16 hl (rs.reg16 src) rs.f
    modifyRegs fun rs => { rs.setReg16 dst v with f, wz := hl + 1 }
    pure 0
  | .adc16 src => do
    let rs ← regs
    let (v, f) := Alu.adc16 rs.hl (rs.reg16 src) rs.f
    modifyRegs fun r => { r.setHL v with f, wz := rs.hl + 1 }
    pure 0
  | .sbc16 src => do
    let rs ← regs
    let (v, f) := Alu.sbc16 rs.hl (rs.reg16 src) rs.f
    modifyRegs fun r => { r.setHL v with f, wz := rs.hl + 1 }
    pure 0
  | .djnz d => do
    modifyRegs fun rs => { rs with b := rs.b - 1 }
    if (← regs).b != 0 then jumpRelative d; pure Timing.jrTaken else pure 0
  | .jr cc d => do
    if (← regs).taken cc then
      jumpRelative d
      pure (if cc.isSome then Timing.jrTaken else 0)
    else pure 0
  | .jp cc target => do
    let go := (← regs).taken cc
    modifyRegs fun rs => { rs with wz := target, pc := if go then target else rs.pc }
    pure 0
  | .jpInd rr => do modifyRegs (fun rs => { rs with pc := rs.reg16 rr }); pure 0
  | .call cc target => do
    setWZ target
    if (← regs).taken cc then
      Exec.push (← regs).pc
      setPC target
      pure (if cc.isSome then Timing.callTaken else 0)
    else pure 0
  | .ret cc => do
    if (← regs).taken cc then
      let pc ← Exec.pop
      modifyRegs fun rs => { rs with pc, wz := pc }
      pure (if cc.isSome then Timing.retTaken else 0)
    else pure 0
  | .rst target => do
    Exec.push (← regs).pc
    modifyRegs fun rs => { rs with pc := target.toUInt16, wz := target.toUInt16 }
    pure 0
  | .daa => do
    let rs ← regs
    setAFrom (Alu.daa rs.a rs.f)
    pure 0
  | .cpl => do
    let rs ← regs
    setAFrom (Alu.cpl rs.a rs.f)
    pure 0
  | .scf => do modifyRegs (fun rs => { rs with f := Alu.scf rs.a rs.f }); pure 0
  | .ccf => do modifyRegs (fun rs => { rs with f := Alu.ccf rs.a rs.f }); pure 0
  | .halt => do
    -- PC stays on the HALT opcode until an interrupt is acknowledged
    modifyRegs fun rs => { rs with pc := rs.pc - 1, halted := true }
    pure 0
  | .di => do modifyRegs (fun rs => { rs with iff1 := false, iff2 := false }); pure 0
  | .ei => do
    modifyCpu fun c => { c with regs := { c.regs with iff1 := true, iff2 := true },
                                eiShadow := true }
    pure 0
  | .alu op src => do
    let v ← source src
    let rs ← regs
    setAFrom (op.apply rs.a v rs.f)
    pure 0
  | .push rr => do Exec.push ((← regs).reg16 rr); pure 0
  | .pop rr => do
    let v ← Exec.pop
    modifyRegs (·.setReg16 rr v)
    pure 0
  | .outImm n => do
    let a := (← regs).a
    output (word a n) a
    setWZ (word a (n + 1))
    pure 0
  | .inImm n => do
    let port := word (← regs).a n
    let v ← input port
    modifyRegs fun rs => { rs with a := v, wz := port + 1 }
    pure 0
  | .shift op o copy => do
    let f := (← regs).f
    writeBack o copy (op.apply · f)
    pure 0
  | .bit n o => do
    let l ← locate o
    let v ← load l
    modifyRegs fun rs =>
      let leak := match o with
        | .reg _ => v
        | _ => hiByte rs.wz
      ({ rs with f := Alu.bit n v rs.f }).setXY leak
    pure 0
  | .res n o copy => do
    let _ ← rewrite o copy fun v => v &&& ~~~((1 : UInt8) <<< n)
    pure 0
  | .set n o copy => do
    let _ ← rewrite o copy fun v => v ||| ((1 : UInt8) <<< n)
    pure 0
  | .inC dst => do
    let port := (← regs).bc
    let v ← input port
    modifyRegs fun rs =>
      let rs := match dst with
        | some r => rs.setReg8 r v
        | none => rs
      { rs with f := sz53p v ||| (rs.f &&& Flag.c), wz := port + 1 }
    pure 0
  | .outC src => do
    let rs ← regs
    let v := match src with
      | some r => rs.reg8 r
      | none => 0
    output rs.bc v
    setWZ (rs.bc + 1)
    pure 0
  | .neg => do
    setAFrom (Alu.sub8 0 (← regs).a false)
    pure 0
  | .retn => do
    let pc ← Exec.pop
    modifyRegs fun rs => { rs with pc, wz := pc, iff1 := rs.iff2 }
    pure 0
  | .im mode => do modifyRegs (fun rs => { rs with im := mode.toUInt8 }); pure 0
  | .ldIA => do modifyRegs (fun rs => { rs with i := rs.a }); pure 0
  | .ldRA => do modifyCpu (fun c => c.writeRefresh c.regs.a); pure 0
  | .ldAI => do
    modifyRegs fun rs => { rs with a := rs.i, f := Alu.ldAIR rs.i rs.iff2 rs.f }
    pure 0
  | .ldAR => do
    modifyCpu fun c =>
      let v := c.refreshValue
      { c with regs := { c.regs with a := v, f := Alu.ldAIR v c.regs.iff2 c.regs.f } }
    pure 0
  | .rrd => do
    let rs ← regs
    let v ← readByte rs.hl
    writeByte rs.hl ((rs.a <<< 4) ||| (v >>> 4))
    let a : UInt8 := (rs.a &&& 0xF0) ||| (v &&& 0x0F)
    modifyRegs fun r => { r with a, f := sz53p a ||| (r.f &&& Flag.c), wz := rs.hl + 1 }
    pure 0
  | .rld => do
    let rs ← regs
    let v ← readByte rs.hl
    writeByte rs.hl ((v <<< 4) ||| (rs.a &&& 0x0F))
    let a : UInt8 := (rs.a &&& 0xF0) ||| (v >>> (4 : UInt8))
    modifyRegs fun r => { r with a, f := sz53p a ||| (r.f &&& Flag.c), wz := rs.hl + 1 }
    pure 0
  | .block op up repeats => Exec.block op up repeats

end Z80
