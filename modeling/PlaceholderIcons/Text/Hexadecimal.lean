import PlaceholderIcons.Text.Bytes

/-!
Base sixteen with the digits `0-9a-f`: numbers written with a fixed number of
digits, and the value of a digit in either case.
-/

namespace PlaceholderIcons

namespace Hexadecimal

def digit (n : Nat) : UInt8 :=
  if n < 10 then UInt8.ofNat (0x30 + n) else UInt8.ofNat (0x57 + n)

/-- The lowest `width` digits of a number, most significant first. -/
def fixed : (width : Nat) → Nat → Bytes
  | 0, _ => []
  | width + 1, n => fixed width (n / 16) ++ [digit (n % 16)]

def value? (b : UInt8) : Option Nat :=
  if 0x30 ≤ b ∧ b ≤ 0x39 then some (b.toNat - 0x30)
  else if 0x61 ≤ b ∧ b ≤ 0x66 then some (b.toNat - 0x57)
  else if 0x41 ≤ b ∧ b ≤ 0x46 then some (b.toNat - 0x37)
  else none

end Hexadecimal

end PlaceholderIcons
