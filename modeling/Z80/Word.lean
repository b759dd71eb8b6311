/-!
# Bytes and words

The Z80 stores a 16-bit word as two bytes, low byte first, and forms relative
addresses by adding a signed 8-bit displacement. Words wrap modulo 2^16 throughout.

A word is its high byte times 256 plus its low byte. The main statements: a word is
its two halves put back together (`word_hiByte_loByte`), and the halves of a word put
together are the bytes it was made of (`hiByte_word`, `loByte_word`). `displace a d`
moves `a` by the two's-complement value of `d`; `stepBy` is the one-place move of the
block instructions, forward or backward.
-/

namespace Z80

/-- The word with high byte `hi` and low byte `lo`. -/
def word (hi lo : UInt8) : UInt16 :=
  hi.toUInt16 * 256 + lo.toUInt16

/-- The high byte of a word. -/
def hiByte (w : UInt16) : UInt8 :=
  (w / 256).toUInt8

/-- The low byte of a word. -/
def loByte (w : UInt16) : UInt8 :=
  w.toUInt8

/-- The address `a` moved by the signed displacement `d` (-128 to 127), wrapping. -/
def displace (a : UInt16) (d : UInt8) : UInt16 :=
  if d < 0x80 then a + d.toUInt16 else a + d.toUInt16 - 0x100

/-- The address `a` moved one place forward, or backward when `up` is false. -/
def stepBy (up : Bool) (a : UInt16) : UInt16 :=
  if up then a + 1 else a - 1

theorem toNat_word (hi lo : UInt8) : (word hi lo).toNat = hi.toNat * 256 + lo.toNat := by
  simp only [word, UInt16.toNat_add, UInt16.toNat_mul, UInt8.toNat_toUInt16]
  have := hi.toNat_lt
  have := lo.toNat_lt
  simp
  omega

theorem toNat_hiByte (w : UInt16) : (hiByte w).toNat = w.toNat / 256 := by
  simp only [hiByte, UInt16.toNat_toUInt8, UInt16.toNat_div]
  have := w.toNat_lt
  simp
  omega

theorem toNat_loByte (w : UInt16) : (loByte w).toNat = w.toNat % 256 := by
  simp [loByte]

@[simp] theorem word_hiByte_loByte (w : UInt16) : word (hiByte w) (loByte w) = w := by
  apply UInt16.toNat_inj.mp
  rw [toNat_word, toNat_hiByte, toNat_loByte]
  omega

@[simp] theorem hiByte_word (hi lo : UInt8) : hiByte (word hi lo) = hi := by
  apply UInt8.toNat_inj.mp
  rw [toNat_hiByte, toNat_word]
  have := lo.toNat_lt
  omega

@[simp] theorem loByte_word (hi lo : UInt8) : loByte (word hi lo) = lo := by
  apply UInt8.toNat_inj.mp
  rw [toNat_loByte, toNat_word]
  have := lo.toNat_lt
  omega

theorem mod_256_of_toNat_le {v : UInt16} (h : v.toNat ≤ 255) : v % 256 = v := by
  apply UInt16.toNat_inj.mp
  rw [UInt16.toNat_mod]
  simp
  omega

theorem eq_toUInt16_of_toNat_eq {v : UInt16} {n : Nat} (h : v.toNat = n) (hn : n < 65536) :
    v = n.toUInt16 := by
  apply UInt16.toNat_inj.mp
  simp [h]
  omega

end Z80
