import PlaceholderIcons.Json.Value
import PlaceholderIcons.Text.Hexadecimal
import PlaceholderIcons.Text.Utf8

/-!
JSON text with one member or item to a line, indented by two blanks per level.
Strings are written so that they can stand inside markup: angle brackets, the
ampersand and the two line separators are escaped, and a malformed byte is
written as U+FFFD.
-/

namespace PlaceholderIcons

namespace Json

def escapeNumber (n : Nat) : Bytes :=
  utf8 "\\u" ++ Hexadecimal.fixed 4 n

def escapeChar (c : Char) : Bytes :=
  match c with
  | '"' => utf8 "\\\""
  | '\\' => utf8 "\\\\"
  | '\n' => utf8 "\\n"
  | '\r' => utf8 "\\r"
  | '\t' => utf8 "\\t"
  | '<' => escapeNumber 0x3C
  | '>' => escapeNumber 0x3E
  | '&' => escapeNumber 0x26
  | c =>
      let n := c.toNat
      if n = 8 then utf8 "\\b"
      else if n = 12 then utf8 "\\f"
      else if n < 0x20 ∨ n = 0x2028 ∨ n = 0x2029 then escapeNumber n
      else Utf8.encodeChar c

/-- The literal of a string. -/
def stringLiteral (s : Bytes) : Bytes :=
  utf8 "\"" ++ (Utf8.decode s).flatMap (fun p => escapeChar p.shown) ++ utf8 "\""

def newline (level : Nat) : Bytes :=
  0x0A :: List.replicate (2 * level) 0x20

mutual

/-- The text of a value whose first line is already indented to `level`. -/
def print (level : Nat) : Json → Bytes
  | .null => utf8 "null"
  | .bool true => utf8 "true"
  | .bool false => utf8 "false"
  | .number literal => literal
  | .string s => stringLiteral s
  | .array [] => utf8 "[]"
  | .array (item :: items) =>
      utf8 "[" ++ newline (level + 1) ++ print (level + 1) item ++
        printItems (level + 1) items ++ newline level ++ utf8 "]"
  | .object [] => utf8 "\x7b\x7d"
  | .object ((name, value) :: members) =>
      utf8 "\x7b" ++ newline (level + 1) ++ stringLiteral name ++ utf8 ": " ++
        print (level + 1) value ++ printMembers (level + 1) members ++ newline level ++ utf8 "\x7d"

/-- The items behind the first one. -/
def printItems (level : Nat) : List Json → Bytes
  | [] => []
  | item :: items =>
      utf8 "," ++ newline level ++ print level item ++ printItems level items

/-- The members behind the first one. -/
def printMembers (level : Nat) : List (Bytes × Json) → Bytes
  | [] => []
  | (name, value) :: members =>
      utf8 "," ++ newline level ++ stringLiteral name ++ utf8 ": " ++ print level value ++
        printMembers level members

end

/-- The text of a value. -/
def render (value : Json) : Bytes :=
  print 0 value

end Json

end PlaceholderIcons
