import PlaceholderIcons.Text.Utf8

/-!
An estimate of how wide a label is drawn. Every character advances by seven
pixels of a face that is thirteen pixels high, and the result is scaled to the
font size; that is coarse, but it finds labels that clearly overflow.
-/

namespace PlaceholderIcons

namespace Label

/-- The advance of one character, in 64ths of a pixel. -/
def characterAdvance : Int32 := 448

/-- The height of the measured face in pixels. -/
def faceHeight : Float := 13

/-- The advance of a label in 64ths of a pixel, in 32-bit arithmetic. -/
def advance (label : Bytes) : Int32 :=
  (Utf8.decode label).foldl (fun sum _ => sum + characterAdvance) 0

/-- The estimated width at a font size. -/
def width (label : Bytes) (fontSize : Float) : Float :=
  Float.ofInt (advance label).toInt / 64 * fontSize / faceHeight

/-- Whether a label set at `scale` times the canvas size stays on the canvas. -/
def fits (label : Bytes) (size : Int64) (scale : Float) : Bool :=
  let s := Float.ofInt size.toInt
  width label (s * scale) ≤ s

end Label

end PlaceholderIcons
