import PlaceholderIcons.Text.Bytes

/-!
Integers in base ten: the shortest text of a number, a minus sign in front of
a negative one, and the value of such a text.
-/

namespace PlaceholderIcons

namespace Decimal

/-- A power of ten. -/
def tenTo (k : Nat) : Nat :=
  Nat.pow 10 k

/-- A power of two. -/
def twoTo (k : Nat) : Nat :=
  Nat.pow 2 k

/-- The word of a number that a signed 64-bit word holds. -/
def int64? (n : Int) : Option Int64 :=
  if Int64.minValue.toInt ≤ n ∧ n ≤ Int64.maxValue.toInt then some (Int64.ofInt n) else none

def digit (n : Nat) : UInt8 :=
  UInt8.ofNat (0x30 + n)

def isDigit (b : UInt8) : Bool :=
  0x30 ≤ b && b ≤ 0x39

/-- The digits of `n` for any bound above `n`. -/
def digitsBelow : (bound : Nat) → Nat → Bytes
  | 0, _ => []
  | bound + 1, n =>
      if n < 10 then [digit n] else digitsBelow bound (n / 10) ++ [digit (n % 10)]

def ofNat (n : Nat) : Bytes :=
  digitsBelow (n + 1) n

def ofInt : Int → Bytes
  | .ofNat n => ofNat n
  | .negSucc n => 0x2D :: ofNat (n + 1)

def ofInt64 (n : Int64) : Bytes :=
  ofInt n.toInt

/-- The value of a string of digits, leading zeros allowed. -/
def value (s : Bytes) : Nat :=
  s.foldl (fun n b => 10 * n + (b.toNat - 0x30)) 0

/-- The value of a string of digits with at most a minus sign in front, if a
signed 64-bit word holds it. -/
def toInt64? (s : Bytes) : Option Int64 :=
  let (negative, digits) :=
    match s with
    | 0x2D :: rest => (true, rest)
    | _ => (false, s)
  if digits.isEmpty || !digits.all isDigit then
    none
  else
    int64? (if negative then -value digits else value digits)

end Decimal

end PlaceholderIcons
