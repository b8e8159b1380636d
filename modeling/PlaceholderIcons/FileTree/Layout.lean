import PlaceholderIcons.FileTree.Basic

/-!
Arranging a file tree: making directories with their parents, removing entries
with all below them, and listing what lies below the working directory.
-/

namespace PlaceholderIcons

namespace FileTree

/-- The tree that holds only its working directory and the directories above it. -/
def fresh (workingDirectory : Location) : FileTree :=
  let depths := List.range workingDirectory.length
  { entries := Table.ofList (depths.map fun n => (workingDirectory.drop n, .directory))
    workingDirectory := workingDirectory }

/-- The paths that lead to the names of a path one by one, outermost first, each
without the slash in front of the next name. The path itself is the last. -/
def leadingPaths (path : Bytes) : List Bytes :=
  let ends := (List.range path.length).filter fun i =>
    i != 0 && path[i]? == some FilePath.slash && path[i + 1]?.any (· != FilePath.slash)
  ends.map path.take ++ [path]

/-- Makes one directory. Its parent has to exist, and nothing else may have its
name; the names `.` and `..` stand for directories that are there already. -/
def makeDirectory (tree : FileTree) (path : Bytes) : Except Cause FileTree := do
  refuse path
  match (FilePath.names path).reverse with
  | [] => .ok tree
  | name :: parents =>
      let parent ← tree.walk (tree.origin path) (parents.reverse ++ [FilePath.here])
      if name == FilePath.here || name == FilePath.above then
        .ok tree
      else if maxName < name.length then
        .error .nameTooLong
      else
        match tree.entry? (name :: parent) with
        | some .directory => .ok tree
        | some (.file _) => .error .alreadyExists
        | none => .ok { tree with entries := tree.entries.insert (name :: parent) .directory }

/-- Makes directories in turn up to the first failure. What was made before it
stays. -/
def makeEach (tree : FileTree) : List Bytes → Except FileFault Unit × FileTree
  | [] => (.ok (), tree)
  | path :: rest =>
      match tree.makeDirectory path with
      | .ok next => makeEach next rest
      | .error cause => (.error ⟨.makeDirectory, path, cause⟩, tree)

/-- Makes a directory and the missing ones above it. Which of them are missing is
settled before the first is made. -/
def makeDirectories (tree : FileTree) (path : Bytes) : Except FileFault Unit × FileTree :=
  let (present, missing) := (leadingPaths path).span fun p => (tree.find p).isOk
  match present.find? fun p => tree.find p matches .ok (.file _) with
  | some file => (.error ⟨.makeDirectory, file, .notDirectory⟩, tree)
  | none => tree.makeEach missing

/-- A path cut at its last name, slashes at the end ignored: the path of the
directory that holds the name, and the name. -/
def cutLastName (path : Bytes) : Bytes × Bytes :=
  let trimmed := (path.reverse.dropWhile (· == FilePath.slash)).reverse
  let (front, name) := Bytes.splitAfterLast FilePath.slash trimmed
  if front.isEmpty then (FilePath.here, name)
  else if front == [FilePath.slash] then (front, name)
  else (front.dropLast, name)

/-- The tree without the entries below a location. -/
def clear (tree : FileTree) (location : Location) : FileTree :=
  { tree with
    entries := tree.entries.filterKeys fun l => l == location || !location.isSuffixOf l }

/-- The tree without a location and the entries below it. -/
def prune (tree : FileTree) (location : Location) : FileTree :=
  { tree with entries := tree.entries.filterKeys fun l => !location.isSuffixOf l }

/-- Removes a name from a directory, with all below it; a missing one is no
failure. A directory called `.` or `..` is emptied and stays, which is a
failure. -/
def removeName (tree : FileTree) (directory : Location) (name : Bytes) :
    Except Cause Unit × FileTree :=
  match (do refuse name; tree.walk directory [name]) with
  | .error .notFound => (.ok (), tree)
  | .error cause => (.error cause, tree)
  | .ok location =>
      if name == FilePath.here then (.error .invalid, tree.clear location)
      else if name == FilePath.above then (.error .notEmpty, tree.clear location)
      else (.ok (), tree.prune location)

/-- Removes an entry and all below it; a missing one is no failure. The path may
not end in the name `.`, and what holds the entry has to be a directory. -/
def removeAll (tree : FileTree) (path : Bytes) : Except FileFault Unit × FileTree :=
  if path.isEmpty then
    (.ok (), tree)
  else if (FilePath.names path).getLast? == some FilePath.here && !endsInSlash path then
    (.error ⟨.removeAll, path, .invalid⟩, tree)
  else
    let (front, name) := cutLastName path
    match (do discard (tree.find front); tree.locate front) with
    | .error .notFound => (.ok (), tree)
    | .error cause => (.error ⟨.openFile, front, cause⟩, tree)
    | .ok directory =>
        match tree.removeName directory name with
        | (.ok (), next) => (.ok (), next)
        | (.error cause, next) =>
            (.error ⟨.unlink, front ++ FilePath.slash :: name, cause⟩, next)

/-- Paths of all entries below the working directory, directories with a slash
at the end, by increasing bytes. -/
def listing (tree : FileTree) : List Bytes :=
  let depth := tree.workingDirectory.length
  let below := tree.entries.entries.filter fun (location, _) =>
    depth < location.length && tree.workingDirectory.isSuffixOf location
  let paths := below.map fun (location, entry) =>
    let path := Bytes.joinWith FilePath.slash (location.take (location.length - depth)).reverse
    if entry = .directory then path ++ [FilePath.slash] else path
  paths.mergeSort fun a b => decide (a ≤ b)

end FileTree

end PlaceholderIcons
