import PlaceholderIcons.Decimal.ByteCount
import PlaceholderIcons.Manifest.Basic
import PlaceholderIcons.Text.Column
import PlaceholderIcons.Text.Quoted

/-!
What a manifest says, for a reader: its head, a line for each icon, the snippet
to paste into the extension's own manifest, and a warning for each label that
may overflow its icon.
-/

namespace PlaceholderIcons

namespace Manifest

def summaryLine (icon : IconRecord) : Bytes :=
  utf8 "    " ++ Column.right 4 (Decimal.ofInt64 icon.size) ++ utf8 "px  " ++
    Column.left 6 icon.label ++ utf8 " " ++ Column.left 28 icon.path ++ utf8 " " ++
    Column.right 8 (byteCount icon.bytes) ++ utf8 "  " ++ icon.hash ++ utf8 "\n"

def overflowWarning (icon : IconRecord) : Bytes :=
  utf8 "    ⚠ label " ++ quoted icon.label ++ utf8 " may overflow " ++ icon.path ++ utf8 "\n"

def warnings (icons : List IconRecord) : Bytes :=
  let overflowing := icons.filter (!·.fits)
  if overflowing.isEmpty then []
  else
    utf8 "\n  Warnings (" ++ Decimal.ofNat overflowing.length ++ utf8 "):\n" ++
      overflowing.flatMap overflowWarning

def summary (m : Manifest) : Bytes :=
  let icons := m.listing.ranked.map (·.2)
  utf8 "\n  Manifest version: " ++ Decimal.ofInt64 m.version ++
    utf8 "\n  Generated:        " ++ m.generatedAt ++
    utf8 "\n  Set:              " ++ m.set ++
    utf8 "\n  Icons:            " ++ Decimal.ofInt64 m.totals.icons ++ utf8 " (" ++
    byteCount m.totals.bytes ++ utf8 ")\n\n  Icons:\n" ++ icons.flatMap summaryLine ++
    utf8 "\n  manifest.json:\n" ++ m.listing.snippet ++ utf8 "\n" ++ warnings icons ++ utf8 "\n"

end Manifest

end PlaceholderIcons
