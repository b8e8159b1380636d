import PlaceholderIcons.Text.Bytes

/-!
JSON as a tree. Object members keep their order and may repeat, and a number
keeps the text it was written with, because whether it counts as an integer
depends on that text.
-/

namespace PlaceholderIcons

inductive Json where
  | null
  | bool (value : Bool)
  | number (literal : Bytes)
  | string (value : Bytes)
  | array (items : List Json)
  | object (members : List (Bytes × Json))

end PlaceholderIcons
