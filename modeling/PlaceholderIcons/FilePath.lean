import PlaceholderIcons.Text.Bytes

/-!
Paths as texts with slashes. Cleaning is lexical: it never looks at the file
system, so `missing/../x` is `x`. What a path names is the file tree's matter.
-/

namespace PlaceholderIcons

namespace FilePath

def slash : UInt8 := 0x2F

/-- The name of the directory itself. -/
def here : Bytes := [0x2E]

/-- The name of the directory above. -/
def above : Bytes := [0x2E, 0x2E]

def isRooted (path : Bytes) : Bool :=
  path.head? == some slash

/-- The names between the slashes, empty ones dropped. -/
def names (path : Bytes) : List Bytes :=
  (Bytes.splitOn slash path).filter (!·.isEmpty)

/-- One name on top of settled names, innermost first. A step up takes back the
last name; at the root it goes nowhere, and in front of a relative path it
stays. -/
def push (rooted : Bool) (settled : List Bytes) (name : Bytes) : List Bytes :=
  if name == here then
    settled
  else if name == above then
    match settled with
    | [] => if rooted then [] else [above]
    | last :: rest => if last == above then above :: settled else rest
  else
    name :: settled

/-- The names that are left of a path, innermost first. -/
def settle (path : Bytes) : List Bytes :=
  (names path).foldl (push (isRooted path)) []

/-- The shortest path of the same lexical meaning; the empty path is `.`. -/
def clean (path : Bytes) : Bytes :=
  let body := Bytes.joinWith slash (settle path).reverse
  if isRooted path then slash :: body
  else if body.isEmpty then here
  else body

/-- The path of `path` as seen from `base`, cleaned. Two empty paths join to the
empty path. -/
def join (base path : Bytes) : Bytes :=
  if base.isEmpty then
    if path.isEmpty then [] else clean path
  else
    clean (base ++ slash :: path)

/-- The directory that a path lies in, cleaned. -/
def directory (path : Bytes) : Bytes :=
  clean (Bytes.splitAfterLast slash path).1

end FilePath

end PlaceholderIcons
