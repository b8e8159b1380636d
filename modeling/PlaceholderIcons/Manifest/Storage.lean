import PlaceholderIcons.FileTree.Access
import PlaceholderIcons.Manifest.Decoding
import PlaceholderIcons.Manifest.Encoding

/-!
Manifest files. A manifest is written with fresh totals, so what a file says
of its icons always adds up.
-/

namespace PlaceholderIcons

/-- Why a manifest cannot be loaded. -/
inductive LoadFault where
  | unreadable (fault : FileFault)
  | defective (defect : ManifestDefect)
  deriving DecidableEq

def LoadFault.message : LoadFault → Bytes
  | .unreadable fault => utf8 "read manifest: " ++ fault.message
  | .defective .notJson => utf8 "parse manifest: <json syntax error>"
  | .defective .wrongType => utf8 "parse manifest: <json type error>"

namespace Manifest

variable {m : Type → Type} [Monad m] [FileAccess m]

def load (path : Bytes) : m (Except LoadFault Manifest) := do
  match ← FileAccess.read path with
  | .error fault => return .error (.unreadable fault)
  | .ok text => return (Manifest.parse text).mapError .defective

/-- Writes the refreshed manifest. -/
def save (manifest : Manifest) (path : Bytes) : m (Except FileFault Unit) :=
  FileAccess.write path manifest.refresh.text

end Manifest

end PlaceholderIcons
