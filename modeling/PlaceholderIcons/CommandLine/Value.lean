import PlaceholderIcons.Decimal.Integer
import PlaceholderIcons.Text.Quoted

/-!
Values of flags. A switch takes a word for true or false. A number may have a
sign, a base mark `0x`, `0o`, `0b` or a leading zero for base eight, and
underscores between digits.
-/

namespace PlaceholderIcons

namespace CommandLine

/-- Why a flag refuses a value. -/
inductive ValueFault where
  | notSwitch
  | notNumber
  | outOfRange
  deriving DecidableEq

/-- The fault as a message names it, with the value it is about. -/
def ValueFault.message (value : Bytes) : ValueFault → Bytes
  | .notSwitch => utf8 "strconv.ParseBool: parsing " ++ quoted value ++ utf8 ": invalid syntax"
  | .notNumber => utf8 "strconv.ParseInt: parsing " ++ quoted value ++ utf8 ": invalid syntax"
  | .outOfRange => utf8 "strconv.ParseInt: parsing " ++ quoted value ++ utf8 ": value out of range"

def trueWords : List Bytes :=
  ["1", "t", "T", "true", "TRUE", "True"].map utf8

def falseWords : List Bytes :=
  ["0", "f", "F", "false", "FALSE", "False"].map utf8

def readSwitch (s : Bytes) : Except ValueFault Bool :=
  if trueWords.contains s then .ok true
  else if falseWords.contains s then .ok false
  else .error .notSwitch

/-- The value of a digit in bases up to 36. -/
def digitValue? (b : UInt8) : Option Nat :=
  if 0x30 ≤ b ∧ b ≤ 0x39 then some (b.toNat - 0x30)
  else if 0x61 ≤ b ∧ b ≤ 0x7A then some (b.toNat - 0x57)
  else if 0x41 ≤ b ∧ b ≤ 0x5A then some (b.toNat - 0x37)
  else none

def underscore : UInt8 := 0x5F

/-- Reads digits from the left on top of `n`; a number that leaves 64 bits is out
of range whatever follows. -/
def readDigits (base : Nat) : Nat → Bytes → Except ValueFault Nat
  | n, [] => .ok n
  | n, b :: s =>
      if b == underscore then
        readDigits base n s
      else
        match digitValue? b with
        | none => .error .notNumber
        | some d =>
            if base ≤ d then .error .notNumber
            else if UInt64.size ≤ n * base + d then .error .outOfRange
            else readDigits base (n * base + d) s

/-- Whether every underscore has a digit on both sides; `afterDigit` says whether
one stands in front of the text. -/
def underscoresSeparate : (afterDigit : Bool) → Bytes → Bool
  | afterDigit, [] => afterDigit
  | afterDigit, b :: s =>
      if b == underscore then afterDigit && underscoresSeparate false s
      else underscoresSeparate true s

/-- The base of an unsigned number, its digits, and whether a mark that counts as
a digit stands in front of them. -/
def splitBase (s : Bytes) : Nat × Bytes × Bool :=
  match s with
  | 0x30 :: mark :: first :: rest =>
      if mark == 0x62 || mark == 0x42 then (2, first :: rest, true)
      else if mark == 0x6F || mark == 0x4F then (8, first :: rest, true)
      else if mark == 0x78 || mark == 0x58 then (16, first :: rest, true)
      else (8, mark :: first :: rest, true)
  | 0x30 :: rest => (8, rest, true)
  | _ => (10, s, false)

def readMagnitude (s : Bytes) : Except ValueFault Nat := do
  if s.isEmpty then
    .error .notNumber
  else
    let (base, digits, marked) := splitBase s
    let n ← readDigits base 0 digits
    if digits.contains underscore && !underscoresSeparate marked digits then .error .notNumber
    else .ok n

/-- A signed 64-bit number. -/
def readNumber (s : Bytes) : Except ValueFault Int64 := do
  let (negative, magnitude) :=
    match s with
    | 0x2B :: rest => (false, rest)
    | 0x2D :: rest => (true, rest)
    | _ => (false, s)
  let n ← readMagnitude magnitude
  match Decimal.int64? (if negative then -n else n) with
  | some word => .ok word
  | none => .error .outOfRange

end CommandLine

end PlaceholderIcons
