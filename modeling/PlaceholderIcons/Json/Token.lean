import PlaceholderIcons.Json.Literal

/-!
JSON text as tokens. The text is scanned byte by byte; what has been seen of an
unfinished token is the scanner's whole memory.
-/

namespace PlaceholderIcons

namespace Json

inductive Token where
  | openObject
  | closeObject
  | openArray
  | closeArray
  | colon
  | comma
  | null
  | bool (value : Bool)
  | number (literal : Bytes)
  | string (value : Bytes)
  deriving DecidableEq

/-- What the scanner is in the middle of. Collected bytes stand in reverse. -/
inductive Scan where
  | between
  | word (collected : Bytes)
  | string (collected : Bytes)
  | escape (collected : Bytes)

/-- The scanner between two bytes; finished tokens stand in reverse. -/
structure Scanner where
  tokens : List Token
  scan : Scan

def Scanner.start : Scanner :=
  ⟨[], .between⟩

def isBlank (b : UInt8) : Bool :=
  b == 0x20 || b == 0x09 || b == 0x0A || b == 0x0D

/-- The bytes of which numbers, `true`, `false` and `null` consist. -/
def isWordByte (b : UInt8) : Bool :=
  Decimal.isDigit b || (0x61 ≤ b && b ≤ 0x7A) || (0x41 ≤ b && b ≤ 0x5A) ||
    b == 0x2B || b == 0x2D || b == 0x2E

def punctuation? (b : UInt8) : Option Token :=
  match b with
  | 0x7B => some .openObject
  | 0x7D => some .closeObject
  | 0x5B => some .openArray
  | 0x5D => some .closeArray
  | 0x3A => some .colon
  | 0x2C => some .comma
  | _ => none

def wordToken? (word : Bytes) : Option Token :=
  if word = utf8 "null" then some .null
  else if word = utf8 "true" then some (.bool true)
  else if word = utf8 "false" then some (.bool false)
  else if isNumber word then some (.number word)
  else none

/-- A byte behind a finished token. -/
def Scanner.begin (tokens : List Token) (b : UInt8) : Option Scanner :=
  if isBlank b then some ⟨tokens, .between⟩
  else if b == 0x22 then some ⟨tokens, .string []⟩
  else if isWordByte b then some ⟨tokens, .word [b]⟩
  else (punctuation? b).map fun token => ⟨token :: tokens, .between⟩

def Scanner.step (s : Scanner) (b : UInt8) : Option Scanner :=
  match s.scan with
  | .between => begin s.tokens b
  | .word collected =>
      if isWordByte b then
        some { s with scan := .word (b :: collected) }
      else do
        begin ((← wordToken? collected.reverse) :: s.tokens) b
  | .string collected =>
      if b == 0x22 then do
        some ⟨.string (← stringValue? collected.reverse) :: s.tokens, .between⟩
      else if b == 0x5C then
        some { s with scan := .escape (b :: collected) }
      else if b < 0x20 then
        none
      else
        some { s with scan := .string (b :: collected) }
  | .escape collected =>
      some { s with scan := .string (b :: collected) }

/-- The tokens at the end of the text; a string must have been closed. -/
def Scanner.finish (s : Scanner) : Option (List Token) :=
  match s.scan with
  | .between => some s.tokens.reverse
  | .word collected => do
      return ((← wordToken? collected.reverse) :: s.tokens).reverse
  | _ => none

def tokens? (text : Bytes) : Option (List Token) := do
  (← text.foldlM Scanner.step Scanner.start).finish

end Json

end PlaceholderIcons
