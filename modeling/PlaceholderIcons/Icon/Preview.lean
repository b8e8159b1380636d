import PlaceholderIcons.Base64
import PlaceholderIcons.Text.Utf8

/-!
Documents as data URLs for the console. A limit above zero cuts the base64
text, and a cut URL ends in three dots.
-/

namespace PlaceholderIcons

namespace Preview

/-- The limit that is used when none is asked for. -/
def defaultLimit : Int64 := 100

/-- The base64 text of a document, cut to `limit` symbols if that is positive. -/
def encode (document : Bytes) (limit : Int64) : Bytes :=
  let symbols := Base64.encode document
  if 0 < limit ∧ limit.toInt < symbols.length then symbols.take limit.toInt.toNat else symbols

def dataUrl (document : Bytes) (limit : Int64) : Bytes :=
  let url := utf8 "data:image/svg+xml;base64," ++ encode document limit
  if 0 < limit ∧ limit.toInt < Base64.encodedLength document.length then url ++ utf8 "..."
  else url

end Preview

end PlaceholderIcons
