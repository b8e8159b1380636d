import PlaceholderIcons.Manifest.Basic

/-!
The JSON form that a manifest is written in. Member names and their order are
fixed, and icons stand by increasing target.
-/

namespace PlaceholderIcons

def Json.ofInt64 (n : Int64) : Json :=
  .number (Decimal.ofInt64 n)

def IconRecord.toJson (icon : IconRecord) : Json :=
  .object
    [(utf8 "path", .string icon.path),
      (utf8 "size", .ofInt64 icon.size),
      (utf8 "label", .string icon.label),
      (utf8 "bytes", .ofInt64 icon.bytes),
      (utf8 "hash", .string icon.hash),
      (utf8 "label_fits", .bool icon.fits)]

def Totals.toJson (totals : Totals) : Json :=
  .object
    [(utf8 "total_icons", .ofInt64 totals.icons),
      (utf8 "total_bytes", .ofInt64 totals.bytes)]

def Manifest.iconsToJson : Option (Table Bytes IconRecord) → Json
  | none => .null
  | some table => .object (table.entries.map fun (target, icon) => (target, icon.toJson))

def Manifest.toJson (m : Manifest) : Json :=
  .object
    [(utf8 "version", .ofInt64 m.version),
      (utf8 "generated_at", .string m.generatedAt),
      (utf8 "set", .string m.set),
      (utf8 "root", .string m.root),
      (utf8 "icons", Manifest.iconsToJson m.icons),
      (utf8 "stats", m.totals.toJson)]

/-- The text of a manifest file. -/
def Manifest.text (m : Manifest) : Bytes :=
  m.toJson.render ++ utf8 "\n"

end PlaceholderIcons
