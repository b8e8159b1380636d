import PlaceholderIcons.Text.Utf8

/-!
Text inside markup. Characters that could end the text or start a tag become
references, line breaks and tabs become numeric references, and what XML does
not allow becomes U+FFFD.
-/

namespace PlaceholderIcons

namespace Markup

/-- The characters that XML 1.0 allows. -/
def isAllowed (c : Char) : Bool :=
  let n := c.toNat
  n == 0x09 || n == 0x0A || n == 0x0D || (0x20 ≤ n && n ≤ 0xD7FF) ||
    (0xE000 ≤ n && n ≤ 0xFFFD) || 0x10000 ≤ n

/-- The reference that a character has to be written as. -/
def reference? (c : Char) : Option Bytes :=
  match c with
  | '"' => some (utf8 "&#34;")
  | '\'' => some (utf8 "&#39;")
  | '&' => some (utf8 "&amp;")
  | '<' => some (utf8 "&lt;")
  | '>' => some (utf8 "&gt;")
  | '\t' => some (utf8 "&#x9;")
  | '\n' => some (utf8 "&#xA;")
  | '\r' => some (utf8 "&#xD;")
  | _ => none

/-- The character that markup shows for a piece of text. -/
def shown (piece : Utf8.Piece) : Char :=
  if isAllowed piece.shown then piece.shown else Utf8.replacement

def escapeChar (c : Char) : Bytes :=
  (reference? c).getD (Utf8.encodeChar c)

/-- A text as markup content. -/
def escape (s : Bytes) : Bytes :=
  (Utf8.decode s).flatMap fun piece => escapeChar (shown piece)

end Markup

end PlaceholderIcons
