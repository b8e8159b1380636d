import PlaceholderIcons.Decimal.Shortest
import PlaceholderIcons.FilePath
import PlaceholderIcons.Icon.Markup

/-!
The icon itself: an SVG document with a square in the accent colour and a bold
white label, centred. The document is a head that depends on the size alone,
the escaped label, and a fixed end.
-/

namespace PlaceholderIcons

namespace Document

def accentColor : Bytes := utf8 "#0066cc"

/-- The height of the label's letters, in parts of the icon's size. -/
def fontScale : Float := 0.35

/-- The height of the label's baseline, in parts of the icon's size. -/
def baselineScale : Float := 0.65

/-- A coordinate: thousandths at most, in the shortest form. -/
def coordinate (x : Float) : Bytes :=
  Decimal.ofFloat (Decimal.roundThousandths x)

/-- An attribute with the blank in front of it. -/
def attr (name : String) (value : Bytes) : Bytes :=
  utf8 " " ++ utf8 name ++ utf8 "=\"" ++ value ++ utf8 "\""

/-- The square canvas. -/
def frame (size : Int64) : Bytes :=
  utf8 "<?xml version=\"1.0\"?>\n<!-- Generated by SVGo -->\n<svg" ++
    attr "width" (Decimal.ofInt64 size) ++ attr "height" (Decimal.ofInt64 size) ++
    utf8 "\n     xmlns=\"http://www.w3.org/2000/svg\"" ++
    utf8 "\n     xmlns:xlink=\"http://www.w3.org/1999/xlink\">\n"

def background (size : Int64) : Bytes :=
  utf8 "<rect" ++ attr "x" (utf8 "0") ++ attr "y" (utf8 "0") ++
    attr "width" (Decimal.ofInt64 size) ++ attr "height" (Decimal.ofInt64 size) ++
    attr "fill" accentColor ++ utf8 " />\n"

/-- The tag in front of the label. -/
def labelStart (size : Int64) : Bytes :=
  let s := Float.ofInt size.toInt
  utf8 "<text" ++ attr "x" (coordinate (s / 2)) ++
    attr "y" (coordinate (s * baselineScale)) ++
    attr "font-family" (utf8 "Arial") ++
    attr "font-size" (coordinate (s * fontScale)) ++
    attr "font-weight" (utf8 "bold") ++ attr "fill" (utf8 "white") ++
    attr "text-anchor" (utf8 "middle") ++ utf8 ">"

/-- All that stands in front of the label. -/
def head (size : Int64) : Bytes :=
  frame size ++ background size ++ labelStart size

/-- All that stands behind the label. -/
def foot : Bytes :=
  utf8 "</text>\n</svg>\n"

/-- The document of an icon. -/
def render (size : Int64) (label : Bytes) : Bytes :=
  head size ++ Markup.escape label ++ foot

/-- The suffix of the file name from its last dot on, or nothing if it has none. -/
def extension (path : Bytes) : Bytes :=
  let name := path.reverse.takeWhile (· != FilePath.slash)
  if name.contains 0x2E then 0x2E :: (name.takeWhile (· != 0x2E)).reverse else []

/-- Where the document that stands in for a raster target is stored. -/
def path (target : Bytes) : Bytes :=
  target.take (target.length - (extension target).length) ++ utf8 ".svg"

end Document

end PlaceholderIcons
