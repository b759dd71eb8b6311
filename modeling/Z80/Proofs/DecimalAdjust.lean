import Z80.Proofs.WideArithmetic

/-!
# Decimal adjustment

DAA turns the binary sum or difference of two packed-BCD bytes into their decimal sum or
difference. It reads only the result and the flags the arithmetic left: H, the carry out of
(or borrow into) the low nibble, C, the carry out of the byte, and N, which says whether the
arithmetic subtracted. From these it adds or takes away 6 for the low digit and 60 for the high
one, and sets C to the decimal carry.

For packed-BCD operands `a` and `b` and a carry `c`, ADD and ADC followed by DAA leave in A the
packed-BCD byte of `(a + b + c) mod 100` and set C exactly when the decimal sum reaches 100; SUB
and SBC followed by DAA leave `(a - b - c) mod 100` and set C exactly when the decimal
difference is negative (`Alu.daa_add8`, `Alu.daa_sub8`). Either way N is the one the arithmetic
left, and S, Z, 5, 3 and P/V are read off the new A (`Alu.daa_flags`).

The proof reads each flag back from the bytes (`Alu.add8_flags`, `halfCarry8_add`, ...) and
then observes that everything DAA computes depends on the operands only through their digit
sums, the high digits summed and the low ones with the carry: 19 × 20 cases, checked in
`Bcd.adjust_add` and `Bcd.adjust_sub`. `daa_corrects_bcd` carries this to the instructions.
-/

open Std.Do

set_option mvcgen.warning false

namespace Z80

/-! ## Packed decimal -/

namespace Bcd

/-- Both digits of a packed-BCD byte are decimal. -/
def Valid (v : UInt8) : Prop := v.toNat / 16 ≤ 9 ∧ v.toNat % 16 ≤ 9

instance (v : UInt8) : Decidable (Valid v) := inferInstanceAs (Decidable (_ ∧ _))

/-- The number a packed-BCD byte stands for. -/
def value (v : UInt8) : Nat := v.toNat / 16 * 10 + v.toNat % 16

/-- The packed-BCD byte of a number below 100. -/
def encode (n : Nat) : UInt8 := (n / 10 * 16 + n % 10).toUInt8

theorem encode_toNat {n : Nat} (h : n < 100) : (encode n).toNat = n / 10 * 16 + n % 10 := by
  simp only [encode, Nat.toUInt8_eq, UInt8.toNat_ofNat']
  omega

/-! The adjustment of a sum whose high digits add up to `h` and whose low digits and carry add
up to `l`: the binary sum is `16 * h + l` and the decimal one `10 * h + l`. The correction DAA
makes from the binary sum and its carries gives the decimal one modulo 100, and its carry is the
decimal carry. A difference is the same with `h` and `l` offset to stay natural: the binary
difference is `16 * h + l - 154` and the decimal one `10 * h + l - 100`. -/

theorem adjust_add : ∀ h < 19, ∀ l < 20,
    ((16 * h + l) % 256 +
        ((if 15 < l ∨ 9 < (16 * h + l) % 256 % 16 then 6 else 0) +
          (if 255 < 16 * h + l ∨ 153 < (16 * h + l) % 256 then 96 else 0))) % 256 =
      (10 * h + l) % 100 / 10 * 16 + (10 * h + l) % 100 % 10 ∧
    (255 < 16 * h + l ∨ 153 < (16 * h + l) % 256 ↔ 100 ≤ 10 * h + l) := by
  decide

theorem adjust_sub : ∀ h < 19, ∀ l < 20,
    ((16 * h + l + 358) % 256 + 256 -
        ((if l < 10 ∨ 9 < (16 * h + l + 358) % 256 % 16 then 6 else 0) +
          (if 16 * h + l < 154 ∨ 153 < (16 * h + l + 358) % 256 then 96 else 0))) % 256 =
      (10 * h + l) % 100 / 10 * 16 + (10 * h + l) % 100 % 10 ∧
    (16 * h + l < 154 ∨ 153 < (16 * h + l + 358) % 256 ↔ 10 * h + l < 100) := by
  decide

end Bcd

/-! ## Flag bytes -/

namespace Flag

/-- DAA's flags without H: S, Z, 5, 3 and parity of the result `r`, N kept from `f` and C
when `c`. -/
theorem daa_bits (r f : UInt8) (half c : Bool) :
    (sz53p r ||| (f &&& Flag.n) ||| when half Flag.h ||| when c Flag.c) &&& ~~~Flag.h =
      sz53p r ||| (f &&& Flag.n) ||| when c Flag.c := by
  apply UInt8.toBitVec_inj.mp
  cases half <;> cases c <;> cases hp : parity r <;> cases hz : r == 0 <;>
    simp [sz53p, sz53, hp, hz, when, s, xy, z, h, pv, Flag.c, n, BitVec.and_or_distrib_right,
      BitVec.and_assoc]

theorem when_ne_zero {b : Bool} {m : UInt8} (hm : m ≠ 0) : (when b m != 0) = b := by
  cases b <;> simp [when, hm]

/-- The two corrections of DAA occupy different digits. -/
theorem when_or_when (x y : Bool) : when x 0x06 ||| when y 0x60 = when x 0x06 + when y 0x60 := by
  cases x <;> cases y <;> decide

theorem toNat_when (b : Bool) (m : UInt8) : (when b m).toNat = if b then m.toNat else 0 := by
  cases b <;> rfl

end Flag

namespace UInt8

/-- A one-bit mask tests that bit. -/
theorem and_ne_zero_eq_testBit (v : UInt8) {m : UInt8} {i : Nat} (hm : m.toNat = 2 ^ i) :
    (v &&& m != 0) = v.toNat.testBit i := by
  have h : (v &&& m).toNat = (v.toNat.testBit i).toNat * 2 ^ i := by
    rw [UInt8.toNat_and, hm, Nat.and_two_pow]
  cases hb : v.toNat.testBit i
  · have : v &&& m = 0 := UInt8.toNat_inj.mp (by simp [h, hb])
    simp [this]
  · have : v &&& m ≠ 0 := fun h0 => by
      simp [h0, hb] at h
      exact (Nat.two_pow_pos i).ne h
    simp [this]

end UInt8

/-- Bit 4 of three bytes xored, read off their values. -/
theorem testBit4_xor (a b r : UInt8) :
    ((a ^^^ b ^^^ r) &&& 0x10 != 0) =
      ((decide (a.toNat / 16 % 2 = 1) ^^ decide (b.toNat / 16 % 2 = 1)) ^^
        decide (r.toNat / 16 % 2 = 1)) := by
  rw [UInt8.and_ne_zero_eq_testBit _ (m := 0x10) (i := 4) rfl, UInt8.toNat_xor,
    UInt8.toNat_xor, Nat.testBit_xor, Nat.testBit_xor, Nat.testBit_eq_decide_div_mod_eq,
    Nat.testBit_eq_decide_div_mod_eq, Nat.testBit_eq_decide_div_mod_eq]

section HalfCarry

variable {a b r : UInt8} {c : Nat}

/-- Bit 4 of `a ^ b ^ r` is the carry out of the low nibbles of the sum. -/
theorem halfCarry8_add (hr : r.toNat = (a.toNat + b.toNat + c) % 256) (hc : c ≤ 1) :
    ((a ^^^ b ^^^ r) &&& 0x10 != 0) = decide (15 < a.toNat % 16 + b.toNat % 16 + c) := by
  rw [testBit4_xor, hr]
  -- three bit 4s, each split, and the residues modulo 16 do the rest
  by_cases h1 : a.toNat / 16 % 2 = 1 <;> by_cases h2 : b.toNat / 16 % 2 = 1 <;>
    by_cases h3 : (a.toNat + b.toNat + c) % 256 / 16 % 2 = 1 <;>
    simp [h1, h2, h3] <;> omega

/-- Bit 4 of `a ^ b ^ r` is the borrow into the low nibble of the difference. -/
theorem halfBorrow8_sub (hr : r.toNat = (a.toNat + 512 - b.toNat - c) % 256) (hc : c ≤ 1) :
    ((a ^^^ b ^^^ r) &&& 0x10 != 0) = decide (a.toNat % 16 < b.toNat % 16 + c) := by
  have hb := b.toNat_lt
  rw [testBit4_xor, hr]
  by_cases h1 : a.toNat / 16 % 2 = 1 <;> by_cases h2 : b.toNat / 16 % 2 = 1 <;>
    by_cases h3 : (a.toNat + 512 - b.toNat - c) % 256 / 16 % 2 = 1 <;>
    simp [h1, h2, h3] <;> omega

end HalfCarry

/-! ## The ALU -/

namespace Alu

theorem add8_value (a b : UInt8) (c : Bool) :
    (add8 a b c).value.toNat = (a.toNat + b.toNat + c.toNat) % 256 := by
  cases c <;> simp [add8]

theorem sub8_value (a b : UInt8) (c : Bool) :
    (sub8 a b c).value.toNat = (a.toNat + 512 - b.toNat - c.toNat) % 256 := by
  cases c <;> simp [sub8]

/-- Addition sets H from bit 4 of `a ^ b ^ r`, C for a sum past 255, and clears N. -/
theorem add8_flags (a b : UInt8) (c : Bool) :
    (add8 a b c).flags &&& Flag.h = (a ^^^ b ^^^ (add8 a b c).value) &&& Flag.h ∧
      (add8 a b c).flags &&& Flag.c = Flag.when (255 < a.toNat + b.toNat + c.toNat) Flag.c ∧
      (add8 a b c).flags &&& Flag.n = 0 := by
  have hc : (if c then 1 else 0) = c.toNat := by cases c <;> rfl
  simp only [add8, sz53, Flag.when, hc]
  refine ⟨?_, ?_, ?_⟩ <;> split_ifs <;> apply UInt8.toBitVec_inj.mp <;>
    simp [Flag.s, Flag.xy, Flag.z, Flag.h, Flag.pv, Flag.c, Flag.n, BitVec.and_or_distrib_right,
      BitVec.and_assoc]

/-- Subtraction sets H from bit 4 of `a ^ b ^ r`, C for a borrow, and sets N. -/
theorem sub8_flags (a b : UInt8) (c : Bool) :
    (sub8 a b c).flags &&& Flag.h = (a ^^^ b ^^^ (sub8 a b c).value) &&& Flag.h ∧
      (sub8 a b c).flags &&& Flag.c = Flag.when (a.toNat < b.toNat + c.toNat) Flag.c ∧
      (sub8 a b c).flags &&& Flag.n = Flag.n := by
  have hc : (if c then 1 else 0) = c.toNat := by cases c <;> rfl
  simp only [sub8, sz53, Flag.when, hc]
  refine ⟨?_, ?_, ?_⟩ <;> split_ifs <;> apply UInt8.toBitVec_inj.mp <;>
    simp [Flag.s, Flag.xy, Flag.z, Flag.h, Flag.pv, Flag.c, Flag.n, BitVec.and_or_distrib_right,
      BitVec.and_assoc]

/-- DAA keeps N, sets C for the decimal carry, and reads S, Z, 5, 3 and parity off its
result. -/
theorem daa_flags (a f : UInt8) :
    (daa a f).flags &&& ~~~Flag.h =
      sz53p (daa a f).value ||| (f &&& Flag.n) |||
        Flag.when (f &&& Flag.c != 0 || a > 0x99) Flag.c :=
  Flag.daa_bits _ f _ _

/-- DAA adds, or after a subtraction takes away, 6 for the low digit and 60 for the high one. -/
theorem daa_value (a f : UInt8) :
    (daa a f).value.toNat =
      let corr := (if f &&& Flag.h != 0 || 9 < a.toNat % 16 then 6 else 0) +
        (if f &&& Flag.c != 0 || 153 < a.toNat then 96 else 0)
      if f &&& Flag.n != 0 then (a.toNat + 256 - corr) % 256 else (a.toNat + corr) % 256 := by
  have hlow : (a &&& 0x0F).toNat = a.toNat % 16 := by
    rw [UInt8.toNat_and]
    exact Nat.and_two_pow_sub_one_eq_mod a.toNat 4
  have hcorr : (Flag.when (f &&& Flag.h != 0 || a &&& 0x0F > 9) 0x06 |||
      Flag.when (f &&& Flag.c != 0 || a > 0x99) 0x60).toNat =
      (if f &&& Flag.h != 0 || 9 < a.toNat % 16 then 6 else 0) +
        (if f &&& Flag.c != 0 || 153 < a.toNat then 96 else 0) := by
    rw [Flag.when_or_when, UInt8.toNat_add, Flag.toNat_when, Flag.toNat_when]
    simp only [gt_iff_lt, UInt8.lt_iff_toNat_lt, hlow]
    split_ifs <;> simp_all
  simp only [daa]
  split
  · have ha := a.toNat_lt
    simp only [UInt8.toNat_sub, hcorr]
    split_ifs <;> omega
  · simp only [UInt8.toNat_add, hcorr]

section Decimal

variable {a b : UInt8} (ha : Bcd.Valid a) (hb : Bcd.Valid b) (c : Bool)

include ha hb in
/-- ADD or ADC of two packed-BCD bytes, then DAA: the decimal sum modulo 100, C for a sum of
100 or more, N clear. -/
theorem daa_add8 :
    (daa (add8 a b c).value (add8 a b c).flags).value =
        Bcd.encode ((Bcd.value a + Bcd.value b + c.toNat) % 100) ∧
      (daa (add8 a b c).value (add8 a b c).flags).flags &&& ~~~Flag.h =
        sz53p (daa (add8 a b c).value (add8 a b c).flags).value |||
          Flag.when (100 ≤ Bcd.value a + Bcd.value b + c.toNat) Flag.c := by
  obtain ⟨hh, hc, hn⟩ := add8_flags a b c
  have hv := add8_value a b c
  have hc1 := Bool.toNat_le c
  unfold Bcd.Valid at ha hb
  -- the flags DAA reads, as numbers
  have hH : ((add8 a b c).flags &&& Flag.h != 0) =
      decide (15 < a.toNat % 16 + b.toNat % 16 + c.toNat) := by
    rw [hh]
    exact halfCarry8_add hv hc1
  have hC : ((add8 a b c).flags &&& Flag.c != 0) = decide (255 < a.toNat + b.toNat + c.toNat) := by
    rw [hc, Flag.when_ne_zero (by decide)]
  have hN : ((add8 a b c).flags &&& Flag.n != 0) = false := by
    rw [hn]
    rfl
  -- everything depends on the digit sums alone
  obtain ⟨hsum, hcarry⟩ := Bcd.adjust_add (a.toNat / 16 + b.toNat / 16) (by omega)
    (a.toNat % 16 + b.toNat % 16 + c.toNat) (by omega)
  have hx : a.toNat + b.toNat + c.toNat =
      16 * (a.toNat / 16 + b.toNat / 16) + (a.toNat % 16 + b.toNat % 16 + c.toNat) := by omega
  have hs : Bcd.value a + Bcd.value b + c.toNat =
      10 * (a.toNat / 16 + b.toNat / 16) + (a.toNat % 16 + b.toNat % 16 + c.toNat) := by
    simp only [Bcd.value]
    omega
  refine ⟨UInt8.toNat_inj.mp ?_, ?_⟩
  · rw [daa_value, hN, hH, hC, hv, Bcd.encode_toNat (Nat.mod_lt _ (by decide)), hs, hx]
    simpa only [Bool.false_eq_true, if_false, Bool.or_eq_true, decide_eq_true_eq] using hsum
  · rw [daa_flags, hn, UInt8.or_zero, hC, ← Bool.decide_or, hs]
    congr 2
    simp only [gt_iff_lt, UInt8.lt_iff_toNat_lt, hv, UInt8.reduceToNat, hx]
    exact decide_eq_decide.mpr hcarry

include ha hb in
/-- SUB or SBC of two packed-BCD bytes, then DAA: the decimal difference modulo 100, C for a
negative difference, N set. -/
theorem daa_sub8 :
    (daa (sub8 a b c).value (sub8 a b c).flags).value =
        Bcd.encode ((100 + Bcd.value a - Bcd.value b - c.toNat) % 100) ∧
      (daa (sub8 a b c).value (sub8 a b c).flags).flags &&& ~~~Flag.h =
        sz53p (daa (sub8 a b c).value (sub8 a b c).flags).value ||| Flag.n |||
          Flag.when (Bcd.value a < Bcd.value b + c.toNat) Flag.c := by
  obtain ⟨hh, hc, hn⟩ := sub8_flags a b c
  have hv := sub8_value a b c
  have hc1 := Bool.toNat_le c
  unfold Bcd.Valid at ha hb
  have hH : ((sub8 a b c).flags &&& Flag.h != 0) =
      decide (a.toNat % 16 < b.toNat % 16 + c.toNat) := by
    rw [hh]
    exact halfBorrow8_sub hv hc1
  have hC : ((sub8 a b c).flags &&& Flag.c != 0) = decide (a.toNat < b.toNat + c.toNat) := by
    rw [hc, Flag.when_ne_zero (by decide)]
  have hN : ((sub8 a b c).flags &&& Flag.n != 0) = true := by
    rw [hn]
    rfl
  -- the digit differences, offset by 9 and 10 to stay natural
  obtain ⟨hsum, hcarry⟩ := Bcd.adjust_sub (a.toNat / 16 + 9 - b.toNat / 16) (by omega)
    (a.toNat % 16 + 10 - b.toNat % 16 - c.toNat) (by omega)
  have hx : a.toNat + 512 - b.toNat - c.toNat =
      16 * (a.toNat / 16 + 9 - b.toNat / 16) + (a.toNat % 16 + 10 - b.toNat % 16 - c.toNat) +
        358 := by omega
  have hs : 100 + Bcd.value a - Bcd.value b - c.toNat =
      10 * (a.toNat / 16 + 9 - b.toNat / 16) + (a.toNat % 16 + 10 - b.toNat % 16 - c.toNat) := by
    simp only [Bcd.value]
    omega
  have hl : a.toNat % 16 < b.toNat % 16 + c.toNat ↔
      a.toNat % 16 + 10 - b.toNat % 16 - c.toNat < 10 := by omega
  have hb' : a.toNat < b.toNat + c.toNat ↔
      16 * (a.toNat / 16 + 9 - b.toNat / 16) + (a.toNat % 16 + 10 - b.toNat % 16 - c.toNat) <
        154 := by omega
  have hd : Bcd.value a < Bcd.value b + c.toNat ↔
      10 * (a.toNat / 16 + 9 - b.toNat / 16) + (a.toNat % 16 + 10 - b.toNat % 16 - c.toNat) <
        100 := by
    simp only [Bcd.value]
    omega
  refine ⟨UInt8.toNat_inj.mp ?_, ?_⟩
  · rw [daa_value, hN, hH, hC, hv, Bcd.encode_toNat (Nat.mod_lt _ (by decide)), hs, hx]
    simpa only [if_true, Bool.or_eq_true, decide_eq_true_eq, hl, hb'] using hsum
  · rw [daa_flags, hn, hC, ← Bool.decide_or]
    congr 2
    simp only [gt_iff_lt, UInt8.lt_iff_toNat_lt, hv, UInt8.reduceToNat, hx]
    exact decide_eq_decide.mpr (by rw [hd, hb']; exact hcarry)

end Decimal

end Alu

/-! ## The instructions -/

/-- The carry an operation takes in: C for ADC and SBC, none for the others. -/
def AluOp.carryIn (op : AluOp) (f : UInt8) : Bool :=
  (op == .adc || op == .sbc) && f &&& Flag.c != 0

theorem AluOp.apply_of_adds {op : AluOp} (hop : op = .add ∨ op = .adc) (a v f : UInt8) :
    op.apply a v f = Alu.add8 a v (op.carryIn f) := by
  rcases hop with rfl | rfl <;> rfl

theorem AluOp.apply_of_subtracts {op : AluOp} (hop : op = .sub ∨ op = .sbc) (a v f : UInt8) :
    op.apply a v f = Alu.sub8 a v (op.carryIn f) := by
  rcases hop with rfl | rfl <;> rfl

namespace Exec

variable {β : Type} [Bus β]

/-- Reading a source writes at most WZ: A and F stay. -/
theorem source_af (src : Source) (rs : Registers) :
    ⦃fun m : Machine β => ⌜m.cpu.regs = rs⌝⦄ (source src : Exec β UInt8)
    ⦃post⟨fun _ m => ⌜m.cpu.regs.a = rs.a ∧ m.cpu.regs.f = rs.f⌝, fun _ _ => ⌜True⌝⟩⦄ := by
  mvcgen -trivial [source, locate, load, setWZ, readByte_eq]
  all_goals
    subst_vars
    simp_all

/-- An 8-bit ALU instruction writes the result and flags of its operation on A and the byte
its source reads. -/
theorem exec_alu (op : AluOp) (src : Source) {m m₁ : Machine β} {v : UInt8}
    (hs : (source src : Exec β UInt8) m = .ok v m₁) :
    ((Instr.alu op src).exec : Exec β Nat) m =
      .ok 0 (m₁.mapRegs fun rs =>
        { rs with a := (op.apply rs.a v rs.f).value, f := (op.apply rs.a v rs.f).flags }) := by
  simp only [Instr.exec, bind_apply, hs, elim_ok]
  rfl

theorem exec_daa (m : Machine β) :
    (Instr.daa.exec : Exec β Nat) m =
      .ok 0 (m.mapRegs fun rs =>
        { rs with a := (Alu.daa rs.a rs.f).value, f := (Alu.daa rs.a rs.f).flags }) := rfl

variable {m m₁ : Machine β} {op : AluOp} {src : Source} {v : UInt8}

/-- ADD A,s or ADC A,s on packed-BCD bytes, then DAA. -/
theorem alu_daa_of_adds (hop : op = .add ∨ op = .adc)
    (hs : (source src : Exec β UInt8) m = .ok v m₁) (ha : Bcd.Valid m.cpu.regs.a)
    (hv : Bcd.Valid v) :
    ∃ m₂ m₃, ((Instr.alu op src).exec : Exec β Nat) m = .ok 0 m₂ ∧
      (Instr.daa.exec : Exec β Nat) m₂ = .ok 0 m₃ ∧
      m₃.cpu.regs.a = Bcd.encode ((Bcd.value m.cpu.regs.a + Bcd.value v +
        (op.carryIn m.cpu.regs.f).toNat) % 100) ∧
      m₃.cpu.regs.f &&& ~~~Flag.h = sz53p m₃.cpu.regs.a |||
        Flag.when (100 ≤ Bcd.value m.cpu.regs.a + Bcd.value v +
          (op.carryIn m.cpu.regs.f).toNat) Flag.c := by
  obtain ⟨hA, hF⟩ := ok_of_triple (source_af src m.cpu.regs) rfl hs
  refine ⟨_, _, exec_alu op src hs, exec_daa _, ?_⟩
  simp only [Machine.mapRegs, hA, hF, AluOp.apply_of_adds hop]
  exact Alu.daa_add8 ha hv _

/-- SUB s or SBC A,s on packed-BCD bytes, then DAA. -/
theorem alu_daa_of_subtracts (hop : op = .sub ∨ op = .sbc)
    (hs : (source src : Exec β UInt8) m = .ok v m₁) (ha : Bcd.Valid m.cpu.regs.a)
    (hv : Bcd.Valid v) :
    ∃ m₂ m₃, ((Instr.alu op src).exec : Exec β Nat) m = .ok 0 m₂ ∧
      (Instr.daa.exec : Exec β Nat) m₂ = .ok 0 m₃ ∧
      m₃.cpu.regs.a = Bcd.encode ((100 + Bcd.value m.cpu.regs.a - Bcd.value v -
        (op.carryIn m.cpu.regs.f).toNat) % 100) ∧
      m₃.cpu.regs.f &&& ~~~Flag.h = sz53p m₃.cpu.regs.a ||| Flag.n |||
        Flag.when (Bcd.value m.cpu.regs.a < Bcd.value v +
          (op.carryIn m.cpu.regs.f).toNat) Flag.c := by
  obtain ⟨hA, hF⟩ := ok_of_triple (source_af src m.cpu.regs) rfl hs
  refine ⟨_, _, exec_alu op src hs, exec_daa _, ?_⟩
  simp only [Machine.mapRegs, hA, hF, AluOp.apply_of_subtracts hop]
  exact Alu.daa_sub8 ha hv _

end Exec

open Exec in
/-- DAA corrects every packed-BCD sum and difference. For packed-BCD A and operand `v`, read
from any source, and the carry `c` ADC and SBC take in: ADD A,v or ADC A,v followed by DAA
leaves in A the packed-BCD byte of `(A + v + c) mod 100` and sets C exactly when the decimal sum
is 100 or more; SUB v or SBC A,v followed by DAA leaves `(A - v - c) mod 100` and sets C exactly
when the decimal difference is negative. N is the one the arithmetic left, clear after an
addition and set after a subtraction, and S, Z, 5, 3 and P/V are those of the new A. -/
theorem daa_corrects_bcd {β : Type} [Bus β] :
    (∀ (m m₁ : Machine β) (op : AluOp) (src : Source) (v : UInt8),
      op = .add ∨ op = .adc → (source src : Exec β UInt8) m = .ok v m₁ →
      Bcd.Valid m.cpu.regs.a → Bcd.Valid v →
      ∃ m₂ m₃, ((Instr.alu op src).exec : Exec β Nat) m = .ok 0 m₂ ∧
        (Instr.daa.exec : Exec β Nat) m₂ = .ok 0 m₃ ∧
        m₃.cpu.regs.a = Bcd.encode ((Bcd.value m.cpu.regs.a + Bcd.value v +
          (op.carryIn m.cpu.regs.f).toNat) % 100) ∧
        m₃.cpu.regs.f &&& ~~~Flag.h = sz53p m₃.cpu.regs.a |||
          Flag.when (100 ≤ Bcd.value m.cpu.regs.a + Bcd.value v +
            (op.carryIn m.cpu.regs.f).toNat) Flag.c) ∧
    (∀ (m m₁ : Machine β) (op : AluOp) (src : Source) (v : UInt8),
      op = .sub ∨ op = .sbc → (source src : Exec β UInt8) m = .ok v m₁ →
      Bcd.Valid m.cpu.regs.a → Bcd.Valid v →
      ∃ m₂ m₃, ((Instr.alu op src).exec : Exec β Nat) m = .ok 0 m₂ ∧
        (Instr.daa.exec : Exec β Nat) m₂ = .ok 0 m₃ ∧
        m₃.cpu.regs.a = Bcd.encode ((100 + Bcd.value m.cpu.regs.a - Bcd.value v -
          (op.carryIn m.cpu.regs.f).toNat) % 100) ∧
        m₃.cpu.regs.f &&& ~~~Flag.h = sz53p m₃.cpu.regs.a ||| Flag.n |||
          Flag.when (Bcd.value m.cpu.regs.a < Bcd.value v +
            (op.carryIn m.cpu.regs.f).toNat) Flag.c) :=
  ⟨fun _ _ _ _ _ hop hs ha hv => alu_daa_of_adds hop hs ha hv,
    fun _ _ _ _ _ hop hs ha hv => alu_daa_of_subtracts hop hs ha hv⟩

/-- The machine fresh from power-on with A and F given. -/
def Machine.withAF (a f : UInt8) : Machine SimpleBus :=
  (Machine.loaded []).mapRegs fun rs => { rs with a, f }

/-- 45 + 38 with ADD A,38h gives 83; 05 - 09 with SBC A,09h and the carry set gives 95 with a
borrow. -/
theorem daa_corrects_bcd_examples :
    (∃ m₂ m₃ : Machine SimpleBus,
      ((Instr.alu .add (.imm 0x38)).exec : Exec SimpleBus Nat) (Machine.withAF 0x45 0) =
        .ok 0 m₂ ∧ (Instr.daa.exec : Exec SimpleBus Nat) m₂ = .ok 0 m₃ ∧
      m₃.cpu.regs.a = 0x83 ∧ m₃.cpu.regs.f &&& Flag.c = 0) ∧
    (∃ m₂ m₃ : Machine SimpleBus,
      ((Instr.alu .sbc (.imm 0x09)).exec : Exec SimpleBus Nat) (Machine.withAF 0x05 0x01) =
        .ok 0 m₂ ∧ (Instr.daa.exec : Exec SimpleBus Nat) m₂ = .ok 0 m₃ ∧
      m₃.cpu.regs.a = 0x95 ∧ m₃.cpu.regs.f &&& Flag.c = Flag.c) := by
  have h := @daa_corrects_bcd SimpleBus _
  obtain ⟨m₂, m₃, h₁, h₂, ha, hf⟩ :=
    h.1 (Machine.withAF 0x45 0) _ .add (.imm 0x38) 0x38 (Or.inl rfl) rfl (by decide) (by decide)
  obtain ⟨n₂, n₃, k₁, k₂, ka, kf⟩ :=
    h.2 (Machine.withAF 0x05 0x01) _ .sbc (.imm 0x09) 0x09 (Or.inr rfl) rfl (by decide) (by decide)
  -- C is read through the mask that clears H
  have hC : ∀ x : UInt8, x &&& ~~~Flag.h &&& Flag.c = x &&& Flag.c := fun x => by
    rw [UInt8.and_assoc]
    exact congrArg (x &&& ·) (by decide)
  refine ⟨⟨m₂, m₃, h₁, h₂, ha.trans (by decide), ?_⟩,
    ⟨n₂, n₃, k₁, k₂, ka.trans (by decide), ?_⟩⟩
  · rw [← hC, hf, ha]
    decide
  · rw [← hC, kf, ka]
    decide

end Z80
