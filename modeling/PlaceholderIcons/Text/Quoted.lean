import PlaceholderIcons.Text.Hexadecimal
import PlaceholderIcons.Text.Printable
import PlaceholderIcons.Text.Utf8

/-!
Texts as messages quote them. Printing characters stand for themselves, the
quote and the backslash take a backslash, common control characters have a
letter, and everything else is shown by its number: `\x` and two digits for
ASCII controls and stray bytes, `\u` and four or `\U` and eight digits for
other characters.
-/

namespace PlaceholderIcons

namespace Quoted

/-- The letter behind the backslash for a control character that has one. -/
def controlLetter? (n : Nat) : Option UInt8 :=
  match n with
  | 7 => some 0x61
  | 8 => some 0x62
  | 9 => some 0x74
  | 10 => some 0x6E
  | 11 => some 0x76
  | 12 => some 0x66
  | 13 => some 0x72
  | _ => none

/-- A character by its number. -/
def numbered (n : Nat) : Bytes :=
  if n < 0x20 ∨ n = 0x7F then utf8 "\\x" ++ Hexadecimal.fixed 2 n
  else if n < 0x10000 then utf8 "\\u" ++ Hexadecimal.fixed 4 n
  else utf8 "\\U" ++ Hexadecimal.fixed 8 n

/-- A character between two quotes `mark`. -/
def char (mark c : Char) : Bytes :=
  if c = mark ∨ c = '\\' then utf8 "\\" ++ Utf8.encodeChar c
  else if isPrintable c then Utf8.encodeChar c
  else
    match controlLetter? c.toNat with
    | some letter => utf8 "\\" ++ [letter]
    | none => numbered c.toNat

def piece : Utf8.Piece → Bytes
  | .char c => char '"' c
  | .stray b => utf8 "\\x" ++ Hexadecimal.fixed 2 b.toNat

end Quoted

/-- The text in double quotes. -/
def quoted (s : Bytes) : Bytes :=
  utf8 "\"" ++ (Utf8.decode s).flatMap Quoted.piece ++ utf8 "\""

/-- One character in single quotes. -/
def quotedChar (c : Char) : Bytes :=
  utf8 "'" ++ Quoted.char '\'' c ++ utf8 "'"

end PlaceholderIcons
