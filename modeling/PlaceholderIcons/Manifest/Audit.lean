import PlaceholderIcons.Checksum.Text
import PlaceholderIcons.FileTree.Access
import PlaceholderIcons.Manifest.Basic
import PlaceholderIcons.Text.Quoted

/-!
Checking a manifest against the files it describes. Icons are checked in rank
order and every fault is reported, except that an icon without a path or
without a file is not looked at further.
-/

namespace PlaceholderIcons

/-- The bytes that one read of a file returns at most. -/
def readLength : Nat := 32768

/-- The reads that deliver `data`. -/
def readsOf : (count : Nat) → (data : Bytes) → List Bytes
  | 0, _ => []
  | count + 1, data => data.take readLength :: readsOf count (data.drop readLength)

/-- A file as a source of its reads. -/
def fileSource (content : Bytes) : Checksum.Source FileFault :=
  ⟨readsOf (content.length / readLength + 1) content, none⟩

/-- The checksum of a file, computed read by read. -/
def hashFile {m : Type → Type} [Monad m] [FileAccess m] (path : Bytes) :
    m (Except FileFault Bytes) := do
  match ← FileAccess.read path with
  | .ok content => return sourceHash (fileSource content)
  | .error fault => return .error fault

/-- A file that could be opened but not read is named once more in front. -/
def hashFaultMessage (fault : FileFault) : Bytes :=
  match fault.action with
  | .readFile => utf8 "hash " ++ fault.path ++ utf8 ": " ++ fault.message
  | _ => fault.message

/-- What can be wrong with one icon. -/
inductive IconFault where
  | invalidSize (size : Int64)
  | missingHash
  | missingPath
  | duplicatePath (path : Bytes)
  | fileNotFound (path : Bytes)
  | sizeMismatch (recorded found : Int64)
  | unreadable (fault : FileFault)
  | hashMismatch (recorded found : Bytes)
  deriving DecidableEq

def IconFault.message : IconFault → Bytes
  | .invalidSize size => utf8 "invalid size " ++ Decimal.ofInt64 size
  | .missingHash => utf8 "missing hash"
  | .missingPath => utf8 "missing path"
  | .duplicatePath path => utf8 "duplicate path " ++ quoted path
  | .fileNotFound path => utf8 "file not found: " ++ path
  | .sizeMismatch recorded found =>
      utf8 "size mismatch: manifest=" ++ Decimal.ofInt64 recorded ++ utf8 ", disk=" ++
        Decimal.ofInt64 found
  | .unreadable fault => hashFaultMessage fault
  | .hashMismatch recorded found =>
      utf8 "hash mismatch: manifest=" ++ recorded ++ utf8 ", disk=" ++ found

/-- What can be wrong with a manifest. -/
inductive AuditFault where
  | unsupportedVersion (version : Int64)
  | icon (target : Bytes) (fault : IconFault)
  | iconTotal (recorded found : Int64)
  | byteTotal (recorded found : Int64)
  deriving DecidableEq

def AuditFault.message : AuditFault → Bytes
  | .unsupportedVersion version =>
      utf8 "unsupported manifest version: " ++ Decimal.ofInt64 version
  | .icon target fault => utf8 "icon " ++ quoted target ++ utf8 ": " ++ fault.message
  | .iconTotal recorded found =>
      utf8 "stats.total_icons mismatch: " ++ Decimal.ofInt64 recorded ++ utf8 " != " ++
        Decimal.ofInt64 found
  | .byteTotal recorded found =>
      utf8 "stats.total_bytes mismatch: " ++ Decimal.ofInt64 recorded ++ utf8 " != " ++
        Decimal.ofInt64 found

namespace Manifest

variable {m : Type → Type} [Monad m] [FileAccess m]

/-- A fault that is there if the condition holds. -/
def faultIf {α : Type} (condition : Bool) (fault : α) : List α :=
  if condition then [fault] else []

/-- The faults of the file at `location` as an icon's document. -/
def auditFile (location : Bytes) (icon : IconRecord) : m (List IconFault) := do
  match ← FileAccess.status location with
  | .error _ => return [.fileNotFound icon.path]
  | .ok status =>
      let length := faultIf (status.size != icon.bytes) (.sizeMismatch icon.bytes status.size)
      match ← hashFile location with
      | .error fault => return length ++ [.unreadable fault]
      | .ok hash =>
          return length ++
            faultIf (!icon.hash.isEmpty && hash != icon.hash) (.hashMismatch icon.hash hash)

/-- The faults of one icon, given the paths of the icons in front of it. -/
def auditIcon (base : Bytes) (seen : List Bytes) (icon : IconRecord) : m (List IconFault) := do
  let fields := faultIf (decide (icon.size ≤ 0)) (.invalidSize icon.size) ++
    faultIf icon.hash.isEmpty .missingHash
  if icon.path.isEmpty then
    return fields ++ [.missingPath]
  else
    let repeated := faultIf (seen.contains icon.path) (.duplicatePath icon.path)
    return fields ++ repeated ++ (← auditFile (FilePath.join base icon.path) icon)

/-- The faults of icons in the order of the listing. -/
def auditIcons (base : Bytes) : (seen : List Bytes) → IconListing → m (List AuditFault)
  | _, [] => return []
  | seen, (target, icon) :: rest => do
      let faults ← auditIcon base seen icon
      return faults.map (.icon target) ++ (← auditIcons base (icon.path :: seen) rest)

/-- The faults of a manifest of this version and these recorded totals, for icons
whose paths start at `base`. The icons are listed twice, once to be ranked and
once to be added up. -/
def auditListing (version : Int64) (recorded : Totals) (ranking adding : IconListing)
    (base : Bytes) : m (List AuditFault) := do
  let icons ← auditIcons base [] ranking.ranked
  let found := adding.totals
  return faultIf (version != supportedVersion) (.unsupportedVersion version) ++ icons ++
    faultIf (recorded.icons != found.icons) (.iconTotal recorded.icons found.icons) ++
    faultIf (recorded.bytes != found.bytes) (.byteTotal recorded.bytes found.bytes)

/-- All faults of a manifest whose icon paths start at `base`. -/
def audit (manifest : Manifest) (base : Bytes) : m (List AuditFault) :=
  auditListing manifest.version manifest.totals manifest.listing manifest.listing base

end Manifest

end PlaceholderIcons
