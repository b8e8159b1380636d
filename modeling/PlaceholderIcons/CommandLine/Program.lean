import PlaceholderIcons.CommandLine.Help
import PlaceholderIcons.Generation
import PlaceholderIcons.Manifest.Audit
import PlaceholderIcons.Manifest.Storage
import PlaceholderIcons.Manifest.Summary

/-!
The program: from arguments to what it prints and how it ends. Files are only
reached through `FileAccess`, so a run is a function of the arguments, the host
and the files.
-/

namespace PlaceholderIcons

namespace CommandLine

/-- Why a command fails. -/
inductive Failure where
  | usage (fault : UsageFault)
  | writeIcon (path : Bytes) (fault : FileFault)
  | writeManifest (fault : FileFault)
  | load (fault : LoadFault)
  | status (fault : FileFault)
  | invalidManifest (faults : Nat)
  | noScript (shell : Shell)
  deriving DecidableEq

def Failure.message : Failure → Bytes
  | .usage fault => fault.message
  | .writeIcon path fault => utf8 "write " ++ path ++ utf8 ": " ++ fault.message
  | .writeManifest fault => utf8 "write manifest: " ++ fault.message
  | .load fault => fault.message
  | .status fault => utf8 "stat " ++ fault.path ++ utf8 ": " ++ fault.message
  | .invalidManifest faults =>
      utf8 "validation failed with " ++ Decimal.ofNat faults ++ utf8 " errors"
  | .noScript shell => utf8 "no completion script for " ++ shell.name

/-- What a run prints, and its failure if it does not succeed. -/
structure Response where
  stdout : Bytes
  stderr : Bytes := []
  failure : Option Failure := none

/-- What the program learns from the machine that runs it. -/
structure Host where
  /-- The current time, as manifests record it. -/
  now : Bytes
  /-- Operating system and processor. -/
  platform : Bytes
  /-- The release of the tools that built the program. -/
  toolchain : Bytes

def version : Bytes := utf8 "0.1.0"

def Host.versionLine (host : Host) : Bytes :=
  Command.programName ++ utf8 " " ++ version ++ utf8 " (" ++ host.platform ++ utf8 ", " ++
    host.toolchain ++ utf8 ")\n"

/-- Diagnostics that are printed only on request. -/
def Options.log (o : Options) (lines : List Bytes) : Bytes :=
  if o.verbose then lines.flatMap Log.line else []

/-- The sizes of a set in brackets. -/
def bracketedSizes (set : IconSet) : Bytes :=
  utf8 "sizes=[" ++ set.sizeList ++ utf8 "]"

/-- A built-in set with its icons. -/
def setLines (set : IconSet) : Bytes :=
  utf8 "  " ++ Column.left 18 set.name ++ utf8 " " ++ bracketedSizes set ++ utf8 "\n" ++
    set.specs.flatMap fun spec =>
      utf8 "    " ++ Column.left 24 spec.target ++ utf8 " " ++
        Column.right 4 (Decimal.ofInt64 spec.size) ++ utf8 "px  " ++ spec.label ++ utf8 "\n"

section

variable {m : Type → Type} [Monad m] [FileAccess m]

/-- The diagnostics in front of a run. -/
def generateLog (o : Options) (set : IconSet) : Bytes :=
  o.log ((if IconSet.isKnown o.set then [] else
      [utf8 "unknown set " ++ quoted o.set ++ utf8 ", using " ++ IconSet.defaultName ++
        utf8 " specs"]) ++
    [utf8 "root:    " ++ o.root,
      utf8 "set:     " ++ set.name ++ utf8 " (" ++ bracketedSizes set ++ utf8 ")"])

/-- Where `generate` writes its manifest. -/
def manifestPath (root : Bytes) : Bytes :=
  FilePath.join root Manifest.fileName

def runGenerate (now : Bytes) (o : Options) : m Response := do
  let set := IconSet.named o.set
  let run ← generate now
    { root := o.root
      set := set
      previewLimit := if o.previewLimit ≤ 0 then -1 else o.previewLimit
      verbose := o.verbose }
  let log := generateLog o set ++ run.log
  match run.result with
  | .error (path, fault) =>
      return { stdout := run.report, stderr := log, failure := some (.writeIcon path fault) }
  | .ok manifest =>
      if o.manifest then
        let path := manifestPath o.root
        match ← manifest.save path with
        | .error fault =>
            return { stdout := run.report, stderr := log, failure := some (.writeManifest fault) }
        | .ok () =>
            let written := o.log
              [utf8 "manifest: " ++ path ++ utf8 " (" ++ Decimal.ofInt64 manifest.totals.icons ++
                utf8 " icons)"]
            return { stdout := run.report, stderr := log ++ written }
      else
        return { stdout := run.report, stderr := log }

def runSets : m Response :=
  return { stdout := IconSet.builtIn.flatMap setLines }

def showManifest (path : Bytes) : m Response := do
  match ← Manifest.load path with
  | .error fault => return { stdout := [], failure := some (.load fault) }
  | .ok manifest => return { stdout := manifest.summary }

/-- Shows a manifest, which may be named by its directory. -/
def runStats (path : Bytes) : m Response := do
  match ← FileAccess.status path with
  | .error fault => return { stdout := [], failure := some (.status fault) }
  | .ok status =>
      if status.isDirectory then
        showManifest (FilePath.join path Manifest.fileName)
      else
        showManifest path

/-- What `validate` prints for a manifest and its faults. -/
def auditReport (manifest : Manifest) (faults : List AuditFault) : Bytes :=
  if faults.isEmpty then
    utf8 "  ✓ Manifest is valid\n  ✓ " ++ Decimal.ofInt64 manifest.totals.icons ++
      utf8 " icons, " ++ byteCount manifest.totals.bytes ++
      utf8 " — all files present and unchanged\n"
  else
    utf8 "  ✗ Manifest has " ++ Decimal.ofNat faults.length ++ utf8 " error(s):\n" ++
      faults.flatMap fun fault => utf8 "    • " ++ fault.message ++ utf8 "\n"

/-- Checks a manifest and the icons beside it. -/
def runValidate (o : Options) (path : Bytes) : m Response := do
  match ← Manifest.load path with
  | .error fault => return { stdout := [], failure := some (.load fault) }
  | .ok manifest =>
      let base := FilePath.directory path
      let faults ← manifest.audit base
      return {
        stdout := auditReport manifest faults
        stderr := o.log
          [utf8 "validating " ++ Decimal.ofNat manifest.listing.length ++ utf8 " icons under " ++
            base]
        failure := if faults.isEmpty then none else some (.invalidManifest faults.length) }

/-- The page of the command that operands lead to. -/
def runHelp (operands : List Bytes) : m Response :=
  return { stdout := helpPage (Command.find operands).1 }

/-- Runs a command on operands whose number it accepts. -/
def Command.run (host : Host) (command : Command) (o : Options) (operands : List Bytes) :
    m Response :=
  match command, operands with
  | .main, _ | .generate, _ => runGenerate host.now o
  | .sets, _ => runSets
  | .stats, path :: _ => runStats path
  | .validate, path :: _ => runValidate o path
  | .help, operands => runHelp operands
  | .script shell, _ => return { stdout := [], failure := some (.noScript shell) }
  | command, _ => return { stdout := helpPage command }

/-- Runs the program. Flags are read first; a request for help or for the version
is answered before operands are looked at. -/
def execute (host : Host) (arguments : List Bytes) : m Response := do
  let (command, rest) := Command.find arguments
  match readArguments command.flags {} rest with
  | .error fault => return { stdout := [], failure := some (.usage fault) }
  | .ok (o, operands) =>
      if o.help then
        return { stdout := helpPage command }
      else if o.version then
        return { stdout := host.versionLine }
      else if !command.isRunnable then
        return { stdout := helpPage command }
      else
        match command.checkOperands operands with
        | .error fault => return { stdout := [], failure := some (.usage fault) }
        | .ok () => command.run host o operands

end

end CommandLine

end PlaceholderIcons
