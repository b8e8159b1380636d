import PlaceholderIcons.CommandLine.Program
import PlaceholderIcons.Decimal.Shortest
import Std.Time.DateTime

/-!
The command line on a real machine: the operating system provides the files,
the clock and the streams. Arguments and paths pass through as UTF-8.
-/

namespace PlaceholderIcons

namespace Machine

/-- The cause that the operating system reports by number; some calls give the
number negated. -/
def causeOfCode (code : UInt32) (details : String) : Cause :=
  match if code < 0x80000000 then code else 0 - code with
  | 2 => .notFound
  | 17 => .alreadyExists
  | 20 => .notDirectory
  | 21 => .isDirectory
  | 22 => .invalid
  | 36 => .nameTooLong
  | _ => .other (utf8 details)

def causeOf : IO.Error → Cause
  | .noFileOrDirectory _ code details => causeOfCode code details
  | .invalidArgument _ code details => causeOfCode code details
  | .permissionDenied _ code details => causeOfCode code details
  | .resourceExhausted _ code details => causeOfCode code details
  | .inappropriateType _ code details => causeOfCode code details
  | .noSuchThing _ code details => causeOfCode code details
  | .alreadyExists _ code details => causeOfCode code details
  | .otherError code details => causeOfCode code details
  | e => .other (utf8 (toString e))

/-- Runs an operation on a path that the system can be given. -/
def onPath {α : Type} (action : Action) (path : Bytes) (run : String → IO α) :
    IO (Except FileFault α) := do
  if path.contains 0 then
    return .error ⟨action, path, .invalid⟩
  match String.fromUTF8? ⟨path.toArray⟩ with
  | none => return .error ⟨action, path, .other (utf8 "path is not UTF-8")⟩
  | some name =>
      try
        return .ok (← run name)
      catch e =>
        return .error ⟨action, path, causeOf e⟩

/-- A directory can be opened for reading, so its failure is one of reading. -/
def read (path : Bytes) : IO (Except FileFault Bytes) := do
  match ← onPath .openFile path (fun name => IO.FS.readBinFile name) with
  | .ok content => return .ok content.toList
  | .error fault =>
      if fault.cause = .isDirectory then
        return .error { fault with action := .readFile }
      else
        return .error fault

def write (path content : Bytes) : IO (Except FileFault Unit) :=
  onPath .openFile path fun name => IO.FS.writeBinFile name ⟨content.toArray⟩

/-- Kind and size of an entry, found by opening and reading it. -/
def status (path : Bytes) : IO (Except FileFault Status) := do
  match ← read path with
  | .ok content => return .ok ⟨false, Int64.ofNat content.length⟩
  | .error fault =>
      if fault.action = .readFile then
        return .ok ⟨true, Status.directorySize⟩
      else
        return .error { fault with action := .status }

instance : FileAccess IO where
  read := read
  write := write
  status := status

/-- A date and a time of day with two digits a part and a `Z` for universal time. -/
def timeText (t : Std.Time.PlainDateTime) : Bytes :=
  let part (width : Nat) (n : Int) := Decimal.fixedDigits width n.toNat
  part 4 t.year.toInt ++ utf8 "-" ++ part 2 t.month.toInt ++ utf8 "-" ++ part 2 t.day.toInt ++
    utf8 "T" ++ part 2 t.hour.toInt ++ utf8 ":" ++ part 2 t.minute.toInt ++ utf8 ":" ++
    part 2 t.second.toInt ++ utf8 "Z"

def host : IO CommandLine.Host := do
  let now ← Std.Time.Timestamp.now
  return {
    now := timeText (Std.Time.PlainDateTime.ofWallTime (.ofTimestamp now .zero))
    platform := utf8 "linux/amd64"
    toolchain := utf8 "Lean" }

end Machine

end PlaceholderIcons

open PlaceholderIcons in
/-- Runs the program on the arguments of the process. -/
def main (arguments : List String) : IO UInt32 := do
  let response ← CommandLine.execute (← Machine.host) (arguments.map utf8)
  (← IO.getStdout).write ⟨response.stdout.toArray⟩
  let errors ← IO.getStderr
  errors.write ⟨response.stderr.toArray⟩
  match response.failure with
  | none => return 0
  | some failure =>
      errors.write ⟨(utf8 "exticons: " ++ failure.message ++ utf8 "\n").toArray⟩
      return 1
