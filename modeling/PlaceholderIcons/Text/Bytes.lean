/-!
Byte strings. Labels, paths and manifest texts reach the program as raw bytes
and need not be well-formed UTF-8, so every text of this library is a list of
bytes. The cuts at a separator that paths and dotted names need stand here.
-/

namespace PlaceholderIcons

abbrev Bytes := List UInt8

namespace Bytes

instance transOrd : Std.TransOrd Bytes := inferInstance

instance lawfulEqOrd : Std.LawfulEqOrd Bytes := inferInstance

/-- Cuts behind the last `mark`: the first part ends in `mark` or is empty, and
the second part is free of it. -/
def splitAfterLast (mark : UInt8) : Bytes → Bytes × Bytes
  | [] => ([], [])
  | b :: s =>
      let (head, tail) := splitAfterLast mark s
      if head.isEmpty && b != mark then ([], b :: tail) else (b :: head, tail)

/-- The pieces between the marks, empty ones included; there is always one
piece more than there are marks. -/
def splitOn (mark : UInt8) : Bytes → List Bytes
  | [] => [[]]
  | b :: s =>
      if b == mark then
        [] :: splitOn mark s
      else
        match splitOn mark s with
        | [] => [[b]]
        | piece :: pieces => (b :: piece) :: pieces

/-- The pieces with `mark` between neighbours. -/
def joinWith (mark : UInt8) : List Bytes → Bytes
  | [] => []
  | [piece] => piece
  | piece :: pieces => piece ++ mark :: joinWith mark pieces

/-- The text in front of the first `mark`, and the text behind it if there is one. -/
def splitFirst (mark : UInt8) : Bytes → Bytes × Option Bytes
  | [] => ([], none)
  | b :: s =>
      if b == mark then
        ([], some s)
      else
        let (front, rest) := splitFirst mark s
        (b :: front, rest)

end Bytes

end PlaceholderIcons
