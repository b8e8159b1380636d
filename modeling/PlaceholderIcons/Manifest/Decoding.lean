import PlaceholderIcons.Json.Reader
import PlaceholderIcons.Manifest.Basic

/-!
Manifests from JSON. Members are taken in turn and each one overwrites its
field, so the last of a repeated member counts, while repeated totals and
repeated icons add to what is there. Member names match regardless of case,
unknown members are skipped, and `null` leaves a field as it was. A member of
the wrong type fails the whole manifest.
-/

namespace PlaceholderIcons

/-- Simple case folding, as far as it leads to ASCII: besides the capitals, the
long s folds to `s` and the Kelvin sign to `k`. -/
def foldCase (c : Char) : Char :=
  if c.isUpper then c.toLower
  else if c.toNat = 0x17F then 's'
  else if c.toNat = 0x212A then 'k'
  else c

/-- Whether a member name is that of a field, which is given in lower case. -/
def isField (field : String) (name : Bytes) : Bool :=
  (Utf8.decode name).map (fun piece => foldCase piece.shown) == field.toList

namespace Json

/-- A string member on top of the field's earlier value. -/
def asText (old : Bytes) : Json → Option Bytes
  | .null => some old
  | .string s => some s
  | _ => none

/-- An integer member: neither point nor exponent, and within 64 bits. -/
def asInt64 (old : Int64) : Json → Option Int64
  | .null => some old
  | .number literal => Decimal.toInt64? literal
  | _ => none

def asBool (old : Bool) : Json → Option Bool
  | .null => some old
  | .bool b => some b
  | _ => none

/-- An object member, taken in member by member. -/
def asObject {α : Type} (update : α → Bytes × Json → Option α) (old : α) : Json → Option α
  | .null => some old
  | .object members => members.foldlM update old
  | _ => none

end Json

/-- The record in which nothing has been set. -/
def IconRecord.zero : IconRecord :=
  ⟨[], 0, [], 0, [], false⟩

def IconRecord.update (icon : IconRecord) (member : Bytes × Json) : Option IconRecord :=
  let (name, value) := member
  if isField "path" name then
    (value.asText icon.path).map fun path => { icon with path := path }
  else if isField "size" name then
    (value.asInt64 icon.size).map fun size => { icon with size := size }
  else if isField "label" name then
    (value.asText icon.label).map fun label => { icon with label := label }
  else if isField "bytes" name then
    (value.asInt64 icon.bytes).map fun bytes => { icon with bytes := bytes }
  else if isField "hash" name then
    (value.asText icon.hash).map fun hash => { icon with hash := hash }
  else if isField "label_fits" name then
    (value.asBool icon.fits).map fun fits => { icon with fits := fits }
  else
    some icon

def Totals.update (totals : Totals) (member : Bytes × Json) : Option Totals :=
  let (name, value) := member
  if isField "total_icons" name then
    (value.asInt64 totals.icons).map fun icons => { totals with icons := icons }
  else if isField "total_bytes" name then
    (value.asInt64 totals.bytes).map fun bytes => { totals with bytes := bytes }
  else
    some totals

/-- One icon on top of a table; a record is always read anew. -/
def Manifest.addIcon (table : Table Bytes IconRecord) (member : Bytes × Json) :
    Option (Table Bytes IconRecord) :=
  let (target, value) := member
  (value.asObject IconRecord.update IconRecord.zero).map fun icon => table.insert target icon

/-- Icons on top of the earlier ones; `null` takes the table away. -/
def Manifest.readIcons (old : Option (Table Bytes IconRecord)) :
    Json → Option (Option (Table Bytes IconRecord))
  | .null => some none
  | .object members => (members.foldlM Manifest.addIcon (old.getD Table.empty)).map some
  | _ => none

def Manifest.update (m : Manifest) (member : Bytes × Json) : Option Manifest :=
  let (name, value) := member
  if isField "version" name then
    (value.asInt64 m.version).map fun version => { m with version := version }
  else if isField "generated_at" name then
    (value.asText m.generatedAt).map fun time => { m with generatedAt := time }
  else if isField "set" name then
    (value.asText m.set).map fun set => { m with set := set }
  else if isField "root" name then
    (value.asText m.root).map fun root => { m with root := root }
  else if isField "icons" name then
    (Manifest.readIcons m.icons value).map fun icons => { m with icons := icons }
  else if isField "stats" name then
    (value.asObject Totals.update m.totals).map fun totals => { m with totals := totals }
  else
    some m

/-- The manifest in which nothing has been set. -/
def Manifest.zero : Manifest :=
  ⟨0, [], [], [], none, ⟨0, 0⟩⟩

/-- The manifest that a JSON value describes, unless a member has a wrong type. -/
def Manifest.ofJson? (value : Json) : Option Manifest :=
  value.asObject Manifest.update Manifest.zero

/-- Why a text is no manifest. -/
inductive ManifestDefect where
  | notJson
  | wrongType
  deriving DecidableEq

/-- The manifest that a text holds. A text that is not JSON is refused as such,
whatever types its members have. -/
def Manifest.parse (text : Bytes) : Except ManifestDefect Manifest :=
  match Json.parse? text with
  | none => .error .notJson
  | some value =>
      match Manifest.ofJson? value with
      | none => .error .wrongType
      | some m => .ok m

end PlaceholderIcons
