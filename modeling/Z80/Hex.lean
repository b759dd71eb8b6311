/-!
# Hexadecimal text

Lowercase hexadecimal numerals as they appear in diagnostics (`0x0100`, `0x2001`),
and the two-digits-per-byte text of memory dumps (`3e05`).

A numeral is written most significant digit first with no leading zeros, then padded
on the left to a least number of digits; the `0x` form puts the mark in front. Byte
text is read back by `ofText?`, which accepts exactly the even-length strings of hex
digits, so `ofText? (toText bs) = some bs`.
-/

namespace Z80.Hex

/-- The lowercase hexadecimal digit of a value below 16. -/
def digit (n : Nat) : Char :=
  if n < 10 then Char.ofNat (48 + n) else Char.ofNat (87 + n)

/-- The hexadecimal digits of `n`, most significant first, with no leading zeros
(zero has the single digit `0`). -/
def digits (n : Nat) : List Char :=
  if n < 16 then [digit n] else digits (n / 16) ++ [digit (n % 16)]
termination_by n
decreasing_by omega

/-- The digits of `n`, padded on the left with zeros to at least `width` digits. -/
def padded (width n : Nat) : String :=
  let ds := digits n
  String.ofList (List.replicate (width - ds.length) '0' ++ ds)

/-- The marked numeral `0x…` with at least `width` digits after the mark. -/
def marked (width n : Nat) : String :=
  "0x" ++ padded width n

/-- The value of a hexadecimal digit of either case. -/
def digitValue? (c : Char) : Option Nat :=
  if '0' ≤ c ∧ c ≤ '9' then some (c.toNat - 48)
  else if 'a' ≤ c ∧ c ≤ 'f' then some (c.toNat - 87)
  else if 'A' ≤ c ∧ c ≤ 'F' then some (c.toNat - 55)
  else none

/-- Two digits per byte, in order. -/
def toText (bs : ByteArray) : String :=
  bs.foldl (fun s b => s ++ padded 2 b.toNat) ""

/-- Reads digit pairs onto `acc`; refuses an odd digit left over or a non-digit. -/
def bytesOfChars (acc : Array UInt8) : List Char → Option (Array UInt8)
  | [] => some acc
  | hi :: lo :: rest =>
      match digitValue? hi, digitValue? lo with
      | some h, some l => bytesOfChars (acc.push (h * 16 + l).toUInt8) rest
      | _, _ => none
  | [_] => none

/-- The bytes spelled by a text of digit pairs. -/
def ofText? (s : String) : Option ByteArray :=
  (bytesOfChars #[] s.toList).map ByteArray.mk

end Z80.Hex
