import Z80.Proofs.IndexPrefix

/-!
# Sixteen-bit arithmetic against integers

ADC HL,rr, SBC HL,rr and ADD HL,rr compute their flags with tricks on words: the half
carry is bit 12 of `a ^ b ^ r`, the overflow compares sign bits, the zero test looks at
the word. `Wide.adc`, `Wide.sbc` and `Wide.add` say what the three compute on integers:
the exact sum or difference of the operands and the incoming carry, taken modulo 2^16,
with S and bits 5 and 3 read off the result, Z its test for zero, H the carry out of (or
borrow into) the low twelve bits, P/V the overflow of the two's-complement values and C
the carry or borrow of the exact value. ADD keeps S, Z and P/V.

The ALU agrees with them for every pair of operands and every incoming F
(`Alu.adc16_eq_wide`, `Alu.sbc16_eq_wide`, `Alu.add16_eq_wide`). Each flag is read off
the bits in a lemma of its own (`halfCarry_add`, `overflow_sub`, ...), where the
word is split at bit 12 or bit 15 and `omega` settles each case.

`wideArithmetic_reference` carries this to the instructions: the step that executes
ED 4A, 5A, 6A or 7A (ADC HL,rr), ED 42, 52, 62 or 72 (SBC HL,rr), or 09, 19, 29 or 39
(ADD HL,rr, also behind DD or FD for IX and IY) writes the reference result and flags,
sets WZ to the first operand plus one and changes nothing else.
-/

namespace Z80

/-! ## Flag bytes -/

namespace Flag

/-- The flag byte with each flag given, from S (bit 7) down to C (bit 0). -/
def ofBits (s z y h x pv n c : Bool) : UInt8 :=
  when s Flag.s ||| when z Flag.z ||| when y Flag.y ||| when h Flag.h ||| when x Flag.x |||
    when pv Flag.pv ||| when n Flag.n ||| when c Flag.c

@[simp] theorem when_false (m : UInt8) : when false m = 0 := rfl

@[simp] theorem when_true (m : UInt8) : when true m = m := rfl

/-! Masks of a byte, written as the flags they keep. Each is checked over all bytes. -/

theorem and_szpv (v : UInt8) :
    v &&& (s ||| z ||| pv) =
      when (v &&& s != 0) s ||| when (v &&& z != 0) z ||| when (v &&& pv != 0) pv := by
  obtain ⟨b⟩ := v
  revert b
  decide

theorem and_xy (v : UInt8) :
    v &&& xy = when (v.toNat.testBit 5) y ||| when (v.toNat.testBit 3) x := by
  obtain ⟨b⟩ := v
  revert b
  decide

theorem and_sxy (v : UInt8) :
    v &&& (s ||| xy) =
      when (128 ≤ v.toNat) s ||| when (v.toNat.testBit 5) y ||| when (v.toNat.testBit 3) x := by
  obtain ⟨b⟩ := v
  revert b
  decide

end Flag

/-! ## Bits of words -/

namespace UInt16

/-- A one-bit mask tests that bit. -/
theorem and_ne_zero_eq_testBit (v : UInt16) {m : UInt16} {i : Nat} (hm : m.toNat = 2 ^ i) :
    (v &&& m != 0) = v.toNat.testBit i := by
  have h : (v &&& m).toNat = (v.toNat.testBit i).toNat * 2 ^ i := by
    rw [UInt16.toNat_and, hm, Nat.and_two_pow]
  cases hb : v.toNat.testBit i
  · have : v &&& m = 0 := UInt16.toNat_inj.mp (by simp [h, hb])
    simp [this]
  · have : v &&& m ≠ 0 := fun h0 => by
      simp [h0, hb] at h
      exact (Nat.two_pow_pos i).ne h
    simp [this]

theorem beq_zero (r : UInt16) : (r == 0) = decide (r.toNat = 0) := by
  rw [Bool.eq_iff_iff]
  simp [← UInt16.toNat_inj]

/-- Bit `i` of the high byte is bit `i + 8` of the word. -/
theorem testBit_hiByte (r : UInt16) (i : Nat) :
    (r >>> 8).toUInt8.toNat.testBit i = r.toNat.testBit (i + 8) := by
  have hv : (r >>> 8).toUInt8.toNat = r.toNat / 2 ^ 8 := by
    have := r.toNat_lt
    simp only [UInt16.toNat_toUInt8, UInt16.toNat_shiftRight]
    simp
    omega
  rw [hv, Nat.testBit_div_two_pow]

end UInt16

/-- The sign bit of a word is set exactly from 32768 up. -/
theorem testBit_fifteen {v : Nat} (hv : v < 65536) : v.testBit 15 = decide (32768 ≤ v) := by
  rw [Nat.testBit_eq_decide_div_mod_eq]
  exact decide_eq_decide.mpr (by omega)

/-- Bit 12 of three words xored, read off their values. -/
theorem testBit12_xor (a b r : UInt16) :
    ((a ^^^ b ^^^ r) &&& 0x1000 != 0) =
      ((decide (a.toNat / 4096 % 2 = 1) ^^ decide (b.toNat / 4096 % 2 = 1)) ^^
        decide (r.toNat / 4096 % 2 = 1)) := by
  rw [UInt16.and_ne_zero_eq_testBit _ (m := 0x1000) (i := 12) rfl, UInt16.toNat_xor,
    UInt16.toNat_xor, Nat.testBit_xor, Nat.testBit_xor, Nat.testBit_eq_decide_div_mod_eq,
    Nat.testBit_eq_decide_div_mod_eq, Nat.testBit_eq_decide_div_mod_eq]

/-- The sign bits of `a ^ b` and of `a ^ r`. -/
theorem signBits_xor (a b r : UInt16) :
    ((a ^^^ b) &&& 0x8000 != 0) = (decide (32768 ≤ a.toNat) ^^ decide (32768 ≤ b.toNat)) ∧
      ((a ^^^ r) &&& 0x8000 != 0) = (decide (32768 ≤ a.toNat) ^^ decide (32768 ≤ r.toNat)) := by
  refine ⟨?_, ?_⟩ <;>
    simp only [UInt16.and_ne_zero_eq_testBit _ (m := 0x8000) (i := 15) rfl, UInt16.toNat_xor,
      Nat.testBit_xor, testBit_fifteen a.toNat_lt, testBit_fifteen b.toNat_lt,
      testBit_fifteen r.toNat_lt]

/-- The high byte's sign and bits 5 and 3 are bits 15, 13 and 11 of the word. -/
theorem hiByte_and_sxy (r : UInt16) :
    (r >>> 8).toUInt8 &&& (Flag.s ||| Flag.xy) =
      Flag.when (32768 ≤ r.toNat) Flag.s ||| Flag.when (r.toNat.testBit 13) Flag.y |||
        Flag.when (r.toNat.testBit 11) Flag.x := by
  have hs : decide (128 ≤ (r >>> 8).toUInt8.toNat) = decide (32768 ≤ r.toNat) := by
    have := r.toNat_lt
    simp only [UInt16.toNat_toUInt8, UInt16.toNat_shiftRight, decide_eq_decide]
    simp
    omega
  rw [Flag.and_sxy, hs, UInt16.testBit_hiByte, UInt16.testBit_hiByte]

/-! ## Arithmetic on integers -/

namespace Wide

/-- The value of a word read as a two's-complement number. -/
def signed (a : Nat) : Int := if 32768 ≤ a then a - 65536 else a

/-- Whether a signed result lies outside the range of a word. -/
def overflows (v : Int) : Bool := decide (v < -32768 ∨ 32767 < v)

/-- ADC HL,rr on integers: the sum `a + b + c` modulo 2^16, with every flag read off the
exact numbers. -/
def adc (a b c : Nat) : UInt16 × UInt8 :=
  let sum := a + b + c
  let r := sum % 65536
  (r.toUInt16, Flag.ofBits (32768 ≤ r) (r = 0) (r.testBit 13) (4095 < a % 4096 + b % 4096 + c)
    (r.testBit 11) (overflows (signed a + signed b + c)) false (65535 < sum))

/-- SBC HL,rr on integers: the difference `a - b - c` modulo 2^16, with every flag read off
the exact numbers. -/
def sbc (a b c : Nat) : UInt16 × UInt8 :=
  let r := (((a : Int) - b - c) % 65536).toNat
  (r.toUInt16, Flag.ofBits (32768 ≤ r) (r = 0) (r.testBit 13) (a % 4096 < b % 4096 + c)
    (r.testBit 11) (overflows (signed a - signed b - c)) true (a < b + c))

/-- ADD HL,rr on integers: the sum `a + b` modulo 2^16 with its half carry, carry and bits
5 and 3; S, Z and P/V stay as they are in `f`. -/
def add (a b : Nat) (f : UInt8) : UInt16 × UInt8 :=
  let sum := a + b
  let r := sum % 65536
  (r.toUInt16, Flag.ofBits (f &&& Flag.s != 0) (f &&& Flag.z != 0) (r.testBit 13)
    (4095 < a % 4096 + b % 4096) (r.testBit 11) (f &&& Flag.pv != 0) false (65535 < sum))

end Wide

/-! ## Carries and overflow read off the bits -/

section Carries

variable {a b r : UInt16} {c : Nat}

/-- Bit 12 of `a ^ b ^ r` is the carry out of bit 11 of the sum. -/
theorem halfCarry_add (hc : c ≤ 1) (hr : r.toNat = (a.toNat + b.toNat + c) % 65536) :
    ((a ^^^ b ^^^ r) &&& 0x1000 != 0) = decide (4095 < a.toNat % 4096 + b.toNat % 4096 + c) := by
  rw [testBit12_xor, hr]
  -- three bit 12s, each split, and the residues modulo 4096 do the rest
  by_cases h1 : a.toNat / 4096 % 2 = 1 <;> by_cases h2 : b.toNat / 4096 % 2 = 1 <;>
    by_cases h3 : (a.toNat + b.toNat + c) % 65536 / 4096 % 2 = 1 <;>
    simp [h1, h2, h3] <;> omega

/-- Bit 12 of `a ^ b ^ r` is the borrow into bit 11 of the difference. -/
theorem halfBorrow_sub (hc : c ≤ 1) (hr : r.toNat = (a.toNat + 131072 - b.toNat - c) % 65536) :
    ((a ^^^ b ^^^ r) &&& 0x1000 != 0) = decide (a.toNat % 4096 < b.toNat % 4096 + c) := by
  have hb := b.toNat_lt
  rw [testBit12_xor, hr]
  by_cases h1 : a.toNat / 4096 % 2 = 1 <;> by_cases h2 : b.toNat / 4096 % 2 = 1 <;>
    by_cases h3 : (a.toNat + 131072 - b.toNat - c) % 65536 / 4096 % 2 = 1 <;>
    simp [h1, h2, h3] <;> omega

/-- Operands of one sign and a result of the other: the signed sum overflows. -/
theorem overflow_add (hc : c ≤ 1) (hr : r.toNat = (a.toNat + b.toNat + c) % 65536) :
    ((a ^^^ b) &&& 0x8000 == 0 && (a ^^^ r) &&& 0x8000 != 0) =
      Wide.overflows (Wide.signed a.toNat + Wide.signed b.toNat + c) := by
  have ha := a.toNat_lt
  have hb := b.toNat_lt
  have hz : ((a ^^^ b) &&& 0x8000 == 0) = !((a ^^^ b) &&& 0x8000 != 0) := (Bool.not_not _).symm
  rw [hz, (signBits_xor a b r).1, (signBits_xor a b r).2, hr]
  simp only [Wide.overflows, Wide.signed]
  by_cases h1 : 32768 ≤ a.toNat <;> by_cases h2 : 32768 ≤ b.toNat <;>
    by_cases h3 : 32768 ≤ (a.toNat + b.toNat + c) % 65536 <;>
    simp [h1, h2, h3] <;> omega

/-- Operands of opposite signs and a result of the subtrahend's sign: the signed difference
overflows. -/
theorem overflow_sub (hc : c ≤ 1) (hr : r.toNat = (a.toNat + 131072 - b.toNat - c) % 65536) :
    ((a ^^^ b) &&& 0x8000 != 0 && (a ^^^ r) &&& 0x8000 != 0) =
      Wide.overflows (Wide.signed a.toNat - Wide.signed b.toNat - c) := by
  have ha := a.toNat_lt
  have hb := b.toNat_lt
  rw [(signBits_xor a b r).1, (signBits_xor a b r).2, hr]
  simp only [Wide.overflows, Wide.signed]
  by_cases h1 : 32768 ≤ a.toNat <;> by_cases h2 : 32768 ≤ b.toNat <;>
    by_cases h3 : 32768 ≤ (a.toNat + 131072 - b.toNat - c) % 65536 <;>
    simp [h1, h2, h3] <;> omega

end Carries

/-! ## The ALU -/

/-- The incoming carry is a bit. -/
theorem carry_le_one (f : UInt8) : (f &&& Flag.c).toNat ≤ 1 := by
  simp only [Flag.c, UInt8.toNat_and]
  simp
  omega

namespace Alu

theorem adc16_eq_wide (a b : UInt16) (f : UInt8) :
    adc16 a b f = Wide.adc a.toNat b.toNat (f &&& Flag.c).toNat := by
  simp only [adc16, wideSz53, hiByte_and_sxy]
  have hc := carry_le_one f
  generalize (f &&& Flag.c).toNat = c at hc ⊢
  have hr : (a.toNat + b.toNat + c).toUInt16.toNat = (a.toNat + b.toNat + c) % 65536 := by simp
  generalize (a.toNat + b.toNat + c).toUInt16 = r at hr ⊢
  have hrv : r = ((a.toNat + b.toNat + c) % 65536).toUInt16 :=
    eq_toUInt16_of_toNat_eq hr (Nat.mod_lt _ (by norm_num))
  rw [halfCarry_add hc hr, overflow_add hc hr]
  simp only [Wide.adc, Flag.ofBits, UInt16.beq_zero, hr, ← hrv, Flag.when_false, UInt8.or_zero,
    gt_iff_lt]
  ac_rfl

theorem sbc16_eq_wide (a b : UInt16) (f : UInt8) :
    sbc16 a b f = Wide.sbc a.toNat b.toNat (f &&& Flag.c).toNat := by
  simp only [sbc16, wideSz53, hiByte_and_sxy]
  have hc := carry_le_one f
  generalize (f &&& Flag.c).toNat = c at hc ⊢
  have ha := a.toNat_lt
  have hb := b.toNat_lt
  have hr : (a.toNat + 0x20000 - b.toNat - c).toUInt16.toNat =
      (a.toNat + 131072 - b.toNat - c) % 65536 := by simp
  generalize (a.toNat + 0x20000 - b.toNat - c).toUInt16 = r at hr ⊢
  -- the word arithmetic adds 2^17 to stay in `Nat`; on integers it is the plain difference
  have hri : (a.toNat + 131072 - b.toNat - c) % 65536 =
      (((a.toNat : Int) - b.toNat - c) % 65536).toNat := by
    omega
  have hrv : r = ((((a.toNat : Int) - b.toNat - c) % 65536).toNat).toUInt16 :=
    eq_toUInt16_of_toNat_eq (hr.trans hri) (by omega)
  rw [halfBorrow_sub hc hr, overflow_sub hc hr]
  simp only [Wide.sbc, Flag.ofBits, UInt16.beq_zero, hr, hri, ← hrv, Flag.when_true]
  ac_rfl

theorem add16_eq_wide (a b : UInt16) (f : UInt8) :
    add16 a b f = Wide.add a.toNat b.toNat f := by
  simp only [add16, Flag.and_szpv, Flag.and_xy, UInt16.testBit_hiByte]
  have hr : (a.toNat + b.toNat).toUInt16.toNat = (a.toNat + b.toNat + 0) % 65536 := by simp
  generalize (a.toNat + b.toNat).toUInt16 = r at hr ⊢
  have hrv : r = ((a.toNat + b.toNat) % 65536).toUInt16 :=
    eq_toUInt16_of_toNat_eq hr (Nat.mod_lt _ (by norm_num))
  rw [halfCarry_add (Nat.zero_le 1) hr]
  simp only [Wide.add, Flag.ofBits, hr, ← hrv, Nat.add_zero, Flag.when_false, UInt8.or_zero,
    gt_iff_lt]
  ac_rfl

end Alu

/-! ## The instructions -/

/-- The machine with its register file changed by `g`. -/
def Machine.mapRegs {β : Type} (m : Machine β) (g : Registers → Registers) : Machine β :=
  { m with cpu := { m.cpu with regs := g m.cpu.regs } }

/-- The prefix byte that selects an index register. -/
def Index.prefixByte : Index → UInt8
  | .ix => 0xDD
  | .iy => 0xFD

section Decoding

variable {c : Cpu} {rr : Reg16} {op : UInt8}

theorem nextInstr_adc16 (hop : (rr, op) ∈ [(.bc, 0x4A), (.de, 0x5A), (.hl, 0x6A), (.sp, 0x7A)])
    (h0 : c.opcodes 0 = 0xED) (h1 : c.opcodes 1 = op) :
    c.nextInstr = ⟨.adc16 rr, 2, 2, 15⟩ := by
  simp only [List.mem_cons, Prod.mk.injEq, List.not_mem_nil, or_false] at hop
  rw [Cpu.nextInstr_eq]
  rcases hop with ⟨rfl, rfl⟩ | ⟨rfl, rfl⟩ | ⟨rfl, rfl⟩ | ⟨rfl, rfl⟩ <;>
    simp only [decode, h0, h1] <;> rfl

theorem nextInstr_sbc16 (hop : (rr, op) ∈ [(.bc, 0x42), (.de, 0x52), (.hl, 0x62), (.sp, 0x72)])
    (h0 : c.opcodes 0 = 0xED) (h1 : c.opcodes 1 = op) :
    c.nextInstr = ⟨.sbc16 rr, 2, 2, 15⟩ := by
  simp only [List.mem_cons, Prod.mk.injEq, List.not_mem_nil, or_false] at hop
  rw [Cpu.nextInstr_eq]
  rcases hop with ⟨rfl, rfl⟩ | ⟨rfl, rfl⟩ | ⟨rfl, rfl⟩ | ⟨rfl, rfl⟩ <;>
    simp only [decode, h0, h1] <;> rfl

/-- ADD HL,rr costs 11 cycles, and as many again after the index prefix's four. -/
theorem Timing.add16_cost :
    ∀ op ∈ [(0x09 : UInt8), 0x19, 0x29, 0x39], Timing.base op = 11 ∧ Timing.indexed op = 11 := by
  -- a lookup in the 256-entry tables
  set_option maxRecDepth 2000 in decide

theorem nextInstr_add16 (hop : (rr, op) ∈ [(.bc, 0x09), (.de, 0x19), (.hl, 0x29), (.sp, 0x39)])
    (h0 : c.opcodes 0 = op) :
    c.nextInstr = ⟨.add16 .hl rr, 1, 1, 11⟩ := by
  have hcost := (Timing.add16_cost op (by simpa using List.mem_map_of_mem (f := Prod.snd) hop)).1
  rw [← hcost]
  simp only [List.mem_cons, Prod.mk.injEq, List.not_mem_nil, or_false] at hop
  rw [Cpu.nextInstr_eq]
  rcases hop with ⟨rfl, rfl⟩ | ⟨rfl, rfl⟩ | ⟨rfl, rfl⟩ | ⟨rfl, rfl⟩ <;>
    simp only [decode, h0] <;> rfl

theorem nextInstr_add16_indexed {x : Index}
    (hop : (rr, op) ∈ [(.bc, 0x09), (.de, 0x19), (Decode.hlOf (some x), 0x29), (.sp, 0x39)])
    (h0 : c.opcodes 0 = x.prefixByte) (h1 : c.opcodes 1 = op) :
    c.nextInstr = ⟨.add16 (Decode.hlOf (some x)) rr, 2, 2, 15⟩ := by
  have hcost := (Timing.add16_cost op (by simpa using List.mem_map_of_mem (f := Prod.snd) hop)).2
  rw [show 15 = Timing.prefixByte + Timing.indexed op by rw [hcost]; rfl]
  simp only [List.mem_cons, Prod.mk.injEq, List.not_mem_nil, or_false] at hop
  rw [Cpu.nextInstr_eq]
  cases x <;>
    rcases hop with ⟨rfl, rfl⟩ | ⟨rfl, rfl⟩ | ⟨rfl, rfl⟩ | ⟨rfl, rfl⟩ <;>
    simp only [decode, h0, h1, Index.prefixByte] <;> rfl

end Decoding

namespace Exec

variable {β : Type} [Bus β]

/-- A step that takes no request and is not halted executes the instruction at PC; when that
instruction finishes without extra cost, the step costs the decoded cycles. -/
theorem executeOne_of_exec {m x : Machine β} {d : Decoded} (hn : m.control.taken = none)
    (hh : m.cpu.regs.halted = false) (hd : m.cpu.nextInstr = d)
    (he : (d.instr.exec : Exec β Nat) m.fetched = .ok 0 x) :
    (executeOne : Exec β StepResult) m = .ok ⟨.instruction, d.cycles⟩ (x.counted d.cycles) := by
  rw [executeOne_of_instruction hn hh, hd, he]
  rfl

variable {m : Machine β} {rr : Reg16} {op : UInt8}

/-- ADC HL,rr writes the sum and flags of `Wide.adc`, and HL plus one into WZ. -/
theorem executeOne_adc16 (hop : (rr, op) ∈ [(.bc, 0x4A), (.de, 0x5A), (.hl, 0x6A), (.sp, 0x7A)])
    (hn : m.control.taken = none) (hh : m.cpu.regs.halted = false)
    (h0 : m.cpu.opcodes 0 = 0xED) (h1 : m.cpu.opcodes 1 = op) :
    (executeOne : Exec β StepResult) m =
      .ok ⟨.instruction, 15⟩ ((m.fetched.mapRegs fun rs =>
        let r := Wide.adc rs.hl.toNat (rs.reg16 rr).toNat (rs.f &&& Flag.c).toNat
        { rs.setHL r.1 with f := r.2, wz := rs.hl + 1 }).counted 15) := by
  refine executeOne_of_exec hn hh (nextInstr_adc16 hop h0 h1) ?_
  simp only [Instr.exec, ← Alu.adc16_eq_wide]
  rfl

/-- SBC HL,rr writes the difference and flags of `Wide.sbc`, and HL plus one into WZ. -/
theorem executeOne_sbc16 (hop : (rr, op) ∈ [(.bc, 0x42), (.de, 0x52), (.hl, 0x62), (.sp, 0x72)])
    (hn : m.control.taken = none) (hh : m.cpu.regs.halted = false)
    (h0 : m.cpu.opcodes 0 = 0xED) (h1 : m.cpu.opcodes 1 = op) :
    (executeOne : Exec β StepResult) m =
      .ok ⟨.instruction, 15⟩ ((m.fetched.mapRegs fun rs =>
        let r := Wide.sbc rs.hl.toNat (rs.reg16 rr).toNat (rs.f &&& Flag.c).toNat
        { rs.setHL r.1 with f := r.2, wz := rs.hl + 1 }).counted 15) := by
  refine executeOne_of_exec hn hh (nextInstr_sbc16 hop h0 h1) ?_
  simp only [Instr.exec, ← Alu.sbc16_eq_wide]
  rfl

/-- ADD HL,rr writes the sum and flags of `Wide.add`, and HL plus one into WZ. -/
theorem executeOne_add16 (hop : (rr, op) ∈ [(.bc, 0x09), (.de, 0x19), (.hl, 0x29), (.sp, 0x39)])
    (hn : m.control.taken = none) (hh : m.cpu.regs.halted = false) (h0 : m.cpu.opcodes 0 = op) :
    (executeOne : Exec β StepResult) m =
      .ok ⟨.instruction, 11⟩ ((m.fetched.mapRegs fun rs =>
        let r := Wide.add rs.hl.toNat (rs.reg16 rr).toNat rs.f
        { rs.setHL r.1 with f := r.2, wz := rs.hl + 1 }).counted 11) := by
  refine executeOne_of_exec hn hh (nextInstr_add16 hop h0) ?_
  simp only [Instr.exec, ← Alu.add16_eq_wide]
  rfl

/-- ADD IX,rr and ADD IY,rr write the sum and flags of `Wide.add` to the index register, and
its old value plus one into WZ. -/
theorem executeOne_add16_indexed {x : Index}
    (hop : (rr, op) ∈ [(.bc, 0x09), (.de, 0x19), (Decode.hlOf (some x), 0x29), (.sp, 0x39)])
    (hn : m.control.taken = none) (hh : m.cpu.regs.halted = false)
    (h0 : m.cpu.opcodes 0 = x.prefixByte) (h1 : m.cpu.opcodes 1 = op) :
    (executeOne : Exec β StepResult) m =
      .ok ⟨.instruction, 15⟩ ((m.fetched.mapRegs fun rs =>
        let v := rs.reg16 (Decode.hlOf (some x))
        let r := Wide.add v.toNat (rs.reg16 rr).toNat rs.f
        { rs.setReg16 (Decode.hlOf (some x)) r.1 with f := r.2, wz := v + 1 }).counted 15) := by
  refine executeOne_of_exec hn hh (nextInstr_add16_indexed hop h0 h1) ?_
  simp only [Instr.exec, ← Alu.add16_eq_wide]
  rfl

end Exec

open Exec in
/-- Sixteen-bit arithmetic agrees with integers for every pair of operands and every
incoming F. ADC HL,rr (ED 4A, 5A, 6A, 7A) and SBC HL,rr (ED 42, 52, 62, 72) leave in HL the
sum or difference with the carry modulo 2^16 and in F the flags `Wide.adc` and `Wide.sbc`
read off the exact numbers; ADD HL,rr (09, 19, 29, 39) and ADD IX,rr and ADD IY,rr (the
same behind DD or FD) write the sum of `Wide.add`, which keeps S, Z and P/V. Each sets WZ to
its first operand plus one and changes no other register. The operand may be HL (or the
index register) itself. -/
theorem wideArithmetic_reference {β : Type} [Bus β] :
    (∀ (m : Machine β) (rr : Reg16) (op : UInt8),
      (rr, op) ∈ [(.bc, 0x4A), (.de, 0x5A), (.hl, 0x6A), (.sp, 0x7A)] →
      m.control.taken = none → m.cpu.regs.halted = false →
      m.cpu.opcodes 0 = 0xED → m.cpu.opcodes 1 = op →
      (executeOne : Exec β StepResult) m =
        .ok ⟨.instruction, 15⟩ ((m.fetched.mapRegs fun rs =>
          let r := Wide.adc rs.hl.toNat (rs.reg16 rr).toNat (rs.f &&& Flag.c).toNat
          { rs.setHL r.1 with f := r.2, wz := rs.hl + 1 }).counted 15)) ∧
    (∀ (m : Machine β) (rr : Reg16) (op : UInt8),
      (rr, op) ∈ [(.bc, 0x42), (.de, 0x52), (.hl, 0x62), (.sp, 0x72)] →
      m.control.taken = none → m.cpu.regs.halted = false →
      m.cpu.opcodes 0 = 0xED → m.cpu.opcodes 1 = op →
      (executeOne : Exec β StepResult) m =
        .ok ⟨.instruction, 15⟩ ((m.fetched.mapRegs fun rs =>
          let r := Wide.sbc rs.hl.toNat (rs.reg16 rr).toNat (rs.f &&& Flag.c).toNat
          { rs.setHL r.1 with f := r.2, wz := rs.hl + 1 }).counted 15)) ∧
    (∀ (m : Machine β) (rr : Reg16) (op : UInt8),
      (rr, op) ∈ [(.bc, 0x09), (.de, 0x19), (.hl, 0x29), (.sp, 0x39)] →
      m.control.taken = none → m.cpu.regs.halted = false → m.cpu.opcodes 0 = op →
      (executeOne : Exec β StepResult) m =
        .ok ⟨.instruction, 11⟩ ((m.fetched.mapRegs fun rs =>
          let r := Wide.add rs.hl.toNat (rs.reg16 rr).toNat rs.f
          { rs.setHL r.1 with f := r.2, wz := rs.hl + 1 }).counted 11)) ∧
    (∀ (m : Machine β) (x : Index) (rr : Reg16) (op : UInt8),
      (rr, op) ∈ [(.bc, 0x09), (.de, 0x19), (Decode.hlOf (some x), 0x29), (.sp, 0x39)] →
      m.control.taken = none → m.cpu.regs.halted = false →
      m.cpu.opcodes 0 = x.prefixByte → m.cpu.opcodes 1 = op →
      (executeOne : Exec β StepResult) m =
        .ok ⟨.instruction, 15⟩ ((m.fetched.mapRegs fun rs =>
          let v := rs.reg16 (Decode.hlOf (some x))
          let r := Wide.add v.toNat (rs.reg16 rr).toNat rs.f
          { rs.setReg16 (Decode.hlOf (some x)) r.1 with f := r.2, wz := v + 1 }).counted 15)) :=
  ⟨fun _ _ _ hop hn hh h0 h1 => executeOne_adc16 hop hn hh h0 h1,
    fun _ _ _ hop hn hh h0 h1 => executeOne_sbc16 hop hn hh h0 h1,
    fun _ _ _ hop hn hh h0 => executeOne_add16 hop hn hh h0,
    fun _ _ _ _ hop hn hh h0 h1 => executeOne_add16_indexed hop hn hh h0 h1⟩

open Exec in
/-- ADC HL,HL from 8000 with carry: HL = 1 with P/V and C set. SBC HL,DE from 0 with DE = 1:
FFFF, with S, 5, H, 3, N and C set. ADD HL,BC from 0FFF with BC = 1 and Z set: 1000 with Z
kept and H set. ADD IX,IX from 8000: 0 with only C set. -/
theorem wideArithmetic_reference_loaded :
    (∃ m', (executeOne : Exec SimpleBus StepResult)
        ((Machine.loaded [0xED, 0x6A]).mapRegs fun rs => { rs.setHL 0x8000 with f := 0x01 }) =
        .ok ⟨.instruction, 15⟩ m' ∧ m'.cpu.regs.hl = 0x0001 ∧ m'.cpu.regs.f = 0x05) ∧
    (∃ m', (executeOne : Exec SimpleBus StepResult)
        ((Machine.loaded [0xED, 0x52]).mapRegs fun rs => rs.setDE 0x0001) =
        .ok ⟨.instruction, 15⟩ m' ∧ m'.cpu.regs.hl = 0xFFFF ∧ m'.cpu.regs.f = 0xBB) ∧
    (∃ m', (executeOne : Exec SimpleBus StepResult)
        ((Machine.loaded [0x09]).mapRegs fun rs => { (rs.setHL 0x0FFF).setBC 0x0001 with f := 0x40 }) =
        .ok ⟨.instruction, 11⟩ m' ∧ m'.cpu.regs.hl = 0x1000 ∧ m'.cpu.regs.f = 0x50) ∧
    (∃ m', (executeOne : Exec SimpleBus StepResult)
        ((Machine.loaded [0xDD, 0x29]).mapRegs fun rs => { rs with ix := 0x8000 }) =
        .ok ⟨.instruction, 15⟩ m' ∧ m'.cpu.regs.ix = 0 ∧ m'.cpu.regs.f = 0x01) :=
  ⟨⟨_, wideArithmetic_reference.1 _ .hl 0x6A (by simp) rfl rfl (by decide) (by decide),
      by decide, by decide⟩,
    ⟨_, wideArithmetic_reference.2.1 _ .de 0x52 (by simp) rfl rfl (by decide) (by decide),
      by decide, by decide⟩,
    ⟨_, wideArithmetic_reference.2.2.1 _ .bc 0x09 (by simp) rfl rfl (by decide),
      by decide, by decide⟩,
    ⟨_, wideArithmetic_reference.2.2.2 _ .ix .ix 0x29 (by simp [Decode.hlOf]) rfl rfl
      (by decide) (by decide), by decide, by decide⟩⟩

end Z80
