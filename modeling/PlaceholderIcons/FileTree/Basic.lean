import PlaceholderIcons.FilePath
import PlaceholderIcons.Table
import PlaceholderIcons.Text.Utf8

/-!
The file system as a value: directories and regular files, no links, and a
working directory. Paths are followed name by name, so a step through a
missing directory fails even if a later `..` would leave it again. A file is
stored as a whole or not at all, and storing creates no directory.
-/

namespace PlaceholderIcons

/-- Why an operation on a path fails. -/
inductive Cause where
  | notFound
  | isDirectory
  | notDirectory
  | nameTooLong
  | invalid
  | alreadyExists
  | notEmpty
  /-- A failure that no file tree of this library shows, in the system's words. -/
  | other (description : Bytes)
  deriving DecidableEq

def Cause.message : Cause → Bytes
  | .notFound => utf8 "no such file or directory"
  | .isDirectory => utf8 "is a directory"
  | .notDirectory => utf8 "not a directory"
  | .nameTooLong => utf8 "file name too long"
  | .invalid => utf8 "invalid argument"
  | .alreadyExists => utf8 "file exists"
  | .notEmpty => utf8 "directory not empty"
  | .other description => description

/-- What was attempted on a path. -/
inductive Action where
  | openFile
  | readFile
  | status
  | makeDirectory
  | unlink
  | removeAll
  deriving DecidableEq

def Action.message : Action → Bytes
  | .openFile => utf8 "open"
  | .readFile => utf8 "read"
  | .status => utf8 "stat"
  | .makeDirectory => utf8 "mkdir"
  | .unlink => utf8 "unlinkat"
  | .removeAll => utf8 "RemoveAll"

/-- A failed operation on a path. -/
structure FileFault where
  action : Action
  path : Bytes
  cause : Cause
  deriving DecidableEq

def FileFault.message (fault : FileFault) : Bytes :=
  fault.action.message ++ utf8 " " ++ fault.path ++ utf8 ": " ++ fault.cause.message

/-- A place in the tree: the names that lead there from the root, innermost
first. The root is the empty list. -/
abbrev Location := List Bytes

instance Location.transOrd : Std.TransOrd Location := inferInstance

instance Location.lawfulEqOrd : Std.LawfulEqOrd Location := inferInstance

inductive Entry where
  | directory
  | file (content : Bytes)
  deriving DecidableEq

/-- What is known of an entry without reading it. -/
structure Status where
  isDirectory : Bool
  size : Int64

/-- The size that a directory reports. -/
def Status.directorySize : Int64 := 4096

def Entry.status : Entry → Status
  | .directory => ⟨true, Status.directorySize⟩
  | .file content => ⟨false, Int64.ofNat content.length⟩

/-- The entries by location, and the working directory. The root itself is
always a directory and has no entry. -/
structure FileTree where
  entries : Table Location Entry
  workingDirectory : Location

namespace FileTree

def entry? (tree : FileTree) : Location → Option Entry
  | [] => some .directory
  | location => tree.entries.get? location

/-- The longest name of one entry. -/
def maxName : Nat := 255

/-- The longest path that is looked at, in bytes. -/
def maxPath : Nat := 4095

/-- Follows names from a location. Every location that a step starts from has to
be a directory; the last one reached need not exist. -/
def walk (tree : FileTree) : Location → List Bytes → Except Cause Location
  | location, [] => .ok location
  | location, name :: rest =>
      match tree.entry? location with
      | none => .error .notFound
      | some (.file _) => .error .notDirectory
      | some .directory =>
          if name == FilePath.here then walk tree location rest
          else if name == FilePath.above then walk tree location.tail rest
          else if maxName < name.length then .error .nameTooLong
          else walk tree (name :: location) rest

/-- Where the names of a path start. -/
def origin (tree : FileTree) (path : Bytes) : Location :=
  if FilePath.isRooted path then [] else tree.workingDirectory

/-- Paths that are refused before any name is looked at. -/
def refuse (path : Bytes) : Except Cause Unit :=
  if path.contains 0 then .error .invalid
  else if path.isEmpty then .error .notFound
  else if maxPath < path.length then .error .nameTooLong
  else .ok ()

def endsInSlash (path : Bytes) : Bool :=
  path.getLast? == some FilePath.slash

/-- The location that a path names. A slash at the end asks for a directory. -/
def locate (tree : FileTree) (path : Bytes) : Except Cause Location := do
  refuse path
  let rest := if endsInSlash path then [FilePath.here] else []
  tree.walk (tree.origin path) (FilePath.names path ++ rest)

/-- The entry that a path names. -/
def find (tree : FileTree) (path : Bytes) : Except Cause Entry := do
  match tree.entry? (← tree.locate path) with
  | some entry => .ok entry
  | none => .error .notFound

def status (tree : FileTree) (path : Bytes) : Except FileFault Status :=
  match tree.find path with
  | .ok entry => .ok entry.status
  | .error cause => .error ⟨.status, path, cause⟩

/-- The content of a file. A directory can be opened, and fails when read. -/
def read (tree : FileTree) (path : Bytes) : Except FileFault Bytes :=
  match tree.find path with
  | .ok (.file content) => .ok content
  | .ok .directory => .error ⟨.readFile, path, .isDirectory⟩
  | .error cause => .error ⟨.openFile, path, cause⟩

/-- The location of the file that is created or replaced when a path is opened
for writing. -/
def writable (tree : FileTree) (path : Bytes) : Except Cause Location := do
  refuse path
  match (FilePath.names path).reverse with
  | [] => .error .isDirectory
  | name :: parents =>
      let parent ← tree.walk (tree.origin path) (parents.reverse ++ [FilePath.here])
      if name == FilePath.here || name == FilePath.above || endsInSlash path then
        .error .isDirectory
      else if maxName < name.length then
        .error .nameTooLong
      else if tree.entry? (name :: parent) = some .directory then
        .error .isDirectory
      else
        .ok (name :: parent)

/-- The tree with a file of this content at a location. -/
def put (tree : FileTree) (location : Location) (content : Bytes) : FileTree :=
  { tree with entries := tree.entries.insert location (.file content) }

/-- Stores a file, replacing what it held before. On failure nothing changes. -/
def write (tree : FileTree) (path content : Bytes) : Except FileFault Unit × FileTree :=
  match tree.writable path with
  | .ok location => (.ok (), tree.put location content)
  | .error cause => (.error ⟨.openFile, path, cause⟩, tree)

end FileTree

end PlaceholderIcons
