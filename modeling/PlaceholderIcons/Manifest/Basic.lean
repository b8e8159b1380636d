import PlaceholderIcons.Decimal.Integer
import PlaceholderIcons.Json.Printer
import PlaceholderIcons.Table

/-!
The manifest of a generate run: which icons were written for which raster
targets, and totals over them. Everything that looks at all icons is a
function of their listing. The order of the listing shows only in a snippet of
icons that share a size and have different documents.
-/

namespace PlaceholderIcons

/-- What a manifest records of one icon. -/
structure IconRecord where
  /-- The document's path, seen from the manifest's directory. -/
  path : Bytes
  size : Int64
  label : Bytes
  /-- The length of the document. -/
  bytes : Int64
  hash : Bytes
  /-- Whether the label stays on the canvas. -/
  fits : Bool
  deriving DecidableEq

structure Totals where
  icons : Int64
  bytes : Int64
  deriving DecidableEq

/-- A manifest; `icons` is keyed by raster target and may be absent. -/
structure Manifest where
  version : Int64
  generatedAt : Bytes
  set : Bytes
  root : Bytes
  icons : Option (Table Bytes IconRecord)
  totals : Totals
  deriving DecidableEq

/-- Targets with their records. -/
abbrev IconListing := List (Bytes × IconRecord)

namespace IconListing

/-- The number of icons and the sum of their lengths, in 64-bit arithmetic. -/
def totals (listing : IconListing) : Totals :=
  { icons := Int64.ofNat listing.length
    bytes := listing.foldl (fun sum e => sum + e.2.bytes) 0 }

/-- Larger icons first; icons of one size by target. -/
def ranksBefore (a b : Bytes × IconRecord) : Bool :=
  if a.2.size ≠ b.2.size then decide (b.2.size < a.2.size) else decide (a.1 ≤ b.1)

def ranked (listing : IconListing) : IconListing :=
  listing.mergeSort ranksBefore

/-- The targets, those of larger icons first. -/
def targets (listing : IconListing) : List Bytes :=
  listing.ranked.map (·.1)

/-- The member `icons` of an extension's own manifest: documents by size. -/
def snippet (listing : IconListing) : Bytes :=
  let bySize := Table.ofList (listing.map fun e => (Decimal.ofInt64 e.2.size, e.2.path))
  let members := bySize.entries.map fun (size, path) => (size, Json.string path)
  Json.render (.object [(utf8 "icons", .object members)])

end IconListing

namespace Manifest

/-- The version that this library writes and checks. -/
def supportedVersion : Int64 := 1

/-- The name of the manifest file in the output directory. -/
def fileName : Bytes := utf8 "exticons.manifest.json"

/-- A manifest without icons. -/
def new (now set root : Bytes) : Manifest :=
  { version := supportedVersion
    generatedAt := now
    set := set
    root := root
    icons := some Table.empty
    totals := ⟨0, 0⟩ }

/-- The icons by increasing target. -/
def listing (m : Manifest) : IconListing :=
  match m.icons with
  | some table => table.entries
  | none => []

/-- The manifest with totals that agree with its icons. -/
def refresh (m : Manifest) : Manifest :=
  { m with totals := m.listing.totals }

/-- Adds an icon or replaces the one of the same target. -/
def insertIcon (m : Manifest) (target : Bytes) (icon : IconRecord) : Manifest :=
  { m with icons := some ((m.icons.getD Table.empty).insert target icon) }

def eraseIcon (m : Manifest) (target : Bytes) : Manifest :=
  { m with icons := m.icons.map (·.erase target) }

end Manifest

end PlaceholderIcons
