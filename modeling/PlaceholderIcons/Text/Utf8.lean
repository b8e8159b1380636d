import PlaceholderIcons.Text.Bytes

/-!
UTF-8 over byte strings that may be malformed. Decoding never fails: a byte
that starts no well-formed sequence becomes a stray piece of its own and
decoding goes on behind it. Every rule of the program that counts, replaces
or prints characters is a rule on these pieces.
-/

namespace PlaceholderIcons

namespace Utf8

/-- What decoding yields: a character, or one byte that belongs to none. -/
inductive Piece where
  | char (c : Char)
  | stray (b : UInt8)
  deriving DecidableEq

/-- The one to four bytes of a character. -/
def encodeChar (c : Char) : Bytes :=
  let n := c.toNat
  if n < 0x80 then
    [UInt8.ofNat n]
  else if n < 0x800 then
    [UInt8.ofNat (0xC0 + n / 64), UInt8.ofNat (0x80 + n % 64)]
  else if n < 0x10000 then
    [UInt8.ofNat (0xE0 + n / 4096), UInt8.ofNat (0x80 + n / 64 % 64),
      UInt8.ofNat (0x80 + n % 64)]
  else
    [UInt8.ofNat (0xF0 + n / 262144), UInt8.ofNat (0x80 + n / 4096 % 64),
      UInt8.ofNat (0x80 + n / 64 % 64), UInt8.ofNat (0x80 + n % 64)]

def encode (cs : List Char) : Bytes :=
  cs.flatMap encodeChar

/-- The six low bits of a continuation byte. -/
def continuation? (b : UInt8) : Option Nat :=
  if 0x80 ≤ b ∧ b < 0xC0 then some (b.toNat - 0x80) else none

/-- A character number is taken if no shorter sequence could write it and it is
a scalar value. -/
def scalar? (least n : Nat) : Option Char :=
  if least ≤ n ∧ n.isValidChar then some (Char.ofNat n) else none

def one? (a : UInt8) : Option Char :=
  if a < 0x80 then some (Char.ofNat a.toNat) else none

def two? (a b : UInt8) : Option Char :=
  if 0xC0 ≤ a ∧ a < 0xE0 then do
    let y ← continuation? b
    scalar? 0x80 ((a.toNat - 0xC0) * 64 + y)
  else none

def three? (a b c : UInt8) : Option Char :=
  if 0xE0 ≤ a ∧ a < 0xF0 then do
    let y ← continuation? b
    let z ← continuation? c
    scalar? 0x800 ((a.toNat - 0xE0) * 4096 + y * 64 + z)
  else none

def four? (a b c d : UInt8) : Option Char :=
  if 0xF0 ≤ a ∧ a < 0xF8 then do
    let x ← continuation? b
    let y ← continuation? c
    let z ← continuation? d
    scalar? 0x10000 ((a.toNat - 0xF0) * 262144 + x * 4096 + y * 64 + z)
  else none

/-- The pieces of a byte string from left to right. -/
def decode : Bytes → List Piece
  | [] => []
  | a :: s =>
      match one? a with
      | some x => .char x :: decode s
      | none =>
          match s with
          | [] => [.stray a]
          | b :: t =>
              match two? a b with
              | some x => .char x :: decode t
              | none =>
                  match t with
                  | [] => .stray a :: decode [b]
                  | c :: u =>
                      match three? a b c with
                      | some x => .char x :: decode u
                      | none =>
                          match u with
                          | [] => .stray a :: decode [b, c]
                          | d :: v =>
                              match four? a b c d with
                              | some x => .char x :: decode v
                              | none => .stray a :: decode (b :: c :: d :: v)

/-- The number of characters, a stray byte counting as one. -/
def count (s : Bytes) : Nat :=
  (decode s).length

/-- U+FFFD, which stands for what is not a character. -/
def replacement : Char := Char.ofNat 0xFFFD

/-- The character that a piece is shown as. -/
def Piece.shown : Piece → Char
  | .char c => c
  | .stray _ => replacement

/-- Every stray byte replaced by U+FFFD. -/
def clean (s : Bytes) : Bytes :=
  encode ((decode s).map Piece.shown)

def Piece.isChar : Piece → Bool
  | .char _ => true
  | .stray _ => false

/-- Well-formed UTF-8. -/
def wellFormed (s : Bytes) : Bool :=
  (decode s).all Piece.isChar

end Utf8

/-- A text of the program as bytes. -/
def utf8 (s : String) : Bytes :=
  Utf8.encode s.toList

end PlaceholderIcons
