import PlaceholderIcons.Text.Utf8

/-!
Columns of a listing. Widths count characters, a stray byte counting as one,
and a text wider than its column is kept whole.
-/

namespace PlaceholderIcons

namespace Column

def blanks (width : Nat) (s : Bytes) : Bytes :=
  List.replicate (width - Utf8.count s) 0x20

/-- The text at the left edge of its column. -/
def left (width : Nat) (s : Bytes) : Bytes :=
  s ++ blanks width s

/-- The text at the right edge of its column. -/
def right (width : Nat) (s : Bytes) : Bytes :=
  blanks width s ++ s

end Column

end PlaceholderIcons
