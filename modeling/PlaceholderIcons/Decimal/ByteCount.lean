import PlaceholderIcons.Decimal.Integer
import PlaceholderIcons.Text.Utf8

/-!
Sizes of files for a reader: plain bytes below one KB, then KB and MB with one
decimal. The count is first taken to binary64, which is exact below `2 ^ 53`,
and the quotient is rounded to tenths with ties to the even digit.
-/

namespace PlaceholderIcons

namespace Decimal

/-- The nearest integer to `numerator / denominator`, a tie going to the even one. -/
def divToEven (numerator denominator : Nat) : Nat :=
  let quotient := numerator / denominator
  let twice := 2 * (numerator % denominator)
  if twice < denominator then quotient
  else if denominator < twice then quotient + 1
  else quotient + quotient % 2

/-- The nearest integer of at most 53 significant bits. -/
def toBinary64 (n : Nat) : Nat :=
  let unit := twoTo (n.log2 - 52)
  divToEven n unit * unit

/-- A count of tenths with one decimal. -/
def ofTenths (n : Nat) : Bytes :=
  ofNat (n / 10) ++ [0x2E, digit (n % 10)]

end Decimal

/-- The bytes in one KB. -/
def kilobyte : Nat := 1024

/-- The bytes in one MB. -/
def megabyte : Nat := 1048576

/-- The tenths of `unit` in a count of bytes. -/
def byteTenths (unit count : Nat) : Nat :=
  Decimal.divToEven (10 * Decimal.toBinary64 count) unit

/-- A count of bytes in the largest unit that it reaches. -/
def byteCount (count : Int64) : Bytes :=
  let n := count.toInt
  if megabyte ≤ n then Decimal.ofTenths (byteTenths megabyte n.toNat) ++ utf8 " MB"
  else if kilobyte ≤ n then Decimal.ofTenths (byteTenths kilobyte n.toNat) ++ utf8 " KB"
  else Decimal.ofInt n ++ utf8 " B"

end PlaceholderIcons
