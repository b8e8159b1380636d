import PlaceholderIcons.Decimal.Integer
import PlaceholderIcons.Text.Hexadecimal
import PlaceholderIcons.Text.Utf8

/-!
The two kinds of literal with a grammar of their own: numbers, and the inside
of strings. A string is read as characters, so a malformed byte and half of a
surrogate pair both come out as U+FFFD.
-/

namespace PlaceholderIcons

namespace Json

/-- An optional fraction and an optional exponent with at least one digit each,
and nothing else. -/
def isNumberTail (s : Bytes) : Bool :=
  let afterFraction :=
    match s with
    | 0x2E :: rest =>
        if (rest.takeWhile Decimal.isDigit).isEmpty then none
        else some (rest.dropWhile Decimal.isDigit)
    | _ => some s
  match afterFraction with
  | none => false
  | some [] => true
  | some (mark :: rest) =>
      let digits :=
        match rest with
        | sign :: digits => if sign == 0x2B || sign == 0x2D then digits else rest
        | [] => rest
      (mark == 0x65 || mark == 0x45) && !digits.isEmpty && digits.all Decimal.isDigit

/-- Whether a text is a number: no plus sign and no leading zero. -/
def isNumber (s : Bytes) : Bool :=
  let magnitude :=
    match s with
    | 0x2D :: rest => rest
    | _ => s
  let whole := magnitude.takeWhile Decimal.isDigit
  !whole.isEmpty && (whole == [0x30] || whole.head? != some 0x30) &&
    isNumberTail (magnitude.dropWhile Decimal.isDigit)

/-- An element of a string literal: a character, or the number behind `\u`. -/
inductive Element where
  | char (c : Char)
  | unit (n : Nat)

def hexValue? (a b c d : Char) : Option Nat := do
  let digit (x : Char) := if x.toNat < 0x80 then Hexadecimal.value? (UInt8.ofNat x.toNat) else none
  return (← digit a) * 4096 + (← digit b) * 256 + (← digit c) * 16 + (← digit d)

/-- The character that a backslash and this letter stand for. -/
def escaped? (letter : Char) : Option Char :=
  match letter with
  | '"' => some '"'
  | '\\' => some '\\'
  | '/' => some '/'
  | 'b' => some (Char.ofNat 8)
  | 'f' => some (Char.ofNat 12)
  | 'n' => some '\n'
  | 'r' => some '\r'
  | 't' => some '\t'
  | _ => none

/-- The elements of the text between the quotes, if all escapes are known. -/
def elements? : List Char → Option (List Element)
  | [] => some []
  | '\\' :: 'u' :: a :: b :: c :: d :: rest => do
      let n ← hexValue? a b c d
      return .unit n :: (← elements? rest)
  | '\\' :: letter :: rest => do
      let c ← escaped? letter
      return .char c :: (← elements? rest)
  | '\\' :: [] => none
  | c :: rest => do
      return .char c :: (← elements? rest)

def isHighSurrogate (n : Nat) : Bool :=
  0xD800 ≤ n && n < 0xDC00

def isLowSurrogate (n : Nat) : Bool :=
  0xDC00 ≤ n && n < 0xE000

/-- The character of a number that stands alone. -/
def unitChar (n : Nat) : Char :=
  if n.isValidChar then Char.ofNat n else Utf8.replacement

/-- The characters of a string literal: a high and a low surrogate in a row are
one character. -/
def characters : List Element → List Char
  | [] => []
  | .char c :: rest => c :: characters rest
  | .unit high :: .unit low :: rest =>
      if isHighSurrogate high && isLowSurrogate low then
        Char.ofNat (0x10000 + (high - 0xD800) * 1024 + (low - 0xDC00)) :: characters rest
      else
        unitChar high :: characters (.unit low :: rest)
  | .unit n :: rest => unitChar n :: characters rest

/-- The value of the bytes between two quotes. -/
def stringValue? (body : Bytes) : Option Bytes := do
  let elements ← elements? ((Utf8.decode body).map Utf8.Piece.shown)
  return Utf8.encode (characters elements)

end Json

end PlaceholderIcons
