import PlaceholderIcons.Checksum.Text
import PlaceholderIcons.FileTree.Access
import PlaceholderIcons.Icon.Document
import PlaceholderIcons.Icon.Label
import PlaceholderIcons.Icon.Preview
import PlaceholderIcons.Icon.Set
import PlaceholderIcons.Manifest.Basic
import PlaceholderIcons.Text.Quoted

/-!
Generating the icons of a set. Icons are drawn, announced and written in order,
and report, log and manifest grow icon by icon. The first write that fails ends
the run; what has been written stays.
-/

namespace PlaceholderIcons

/-- What to generate and how to report it. -/
structure RunSettings where
  /-- The directory that targets are resolved against. -/
  root : Bytes
  set : IconSet
  /-- How many base64 symbols a preview shows: zero stands for the default and
  less than zero for all. -/
  previewLimit : Int64
  verbose : Bool

/-- Settings with the empty root and the preview limit zero replaced by their
defaults. -/
def RunSettings.withDefaults (s : RunSettings) : RunSettings :=
  { s with
    root := if s.root.isEmpty then FilePath.here else s.root
    previewLimit := if s.previewLimit = 0 then Preview.defaultLimit else s.previewLimit }

/-- A drawn icon. -/
structure Drawing where
  target : Bytes
  document : Bytes
  record : IconRecord

def IconSpec.draw (spec : IconSpec) : Drawing :=
  let document := Document.render spec.size spec.label
  { target := spec.target
    document := document
    record :=
      { path := Document.path spec.target
        size := spec.size
        label := spec.label
        bytes := Int64.ofNat document.length
        hash := contentHash document
        fits := Label.fits spec.label spec.size Document.fontScale } }

/-- Where an icon is stored. -/
def Drawing.location (root : Bytes) (drawing : Drawing) : Bytes :=
  FilePath.join root drawing.record.path

/-- A run with all that it shows. -/
structure Run where
  report : Bytes
  log : Bytes
  /-- The manifest, or the path of the icon that could not be written and why. -/
  result : Except (Bytes × FileFault) Manifest

namespace Report

def line (text : Bytes) : Bytes :=
  text ++ utf8 "\n"

/-- How to turn the documents into raster images. -/
def instructions (set : IconSet) : Bytes :=
  line (utf8 "SVG icon templates created. To convert to PNG:") ++
    line (utf8 "1. Use an online SVG to PNG converter") ++
    line (utf8 "2. Or install ImageMagick/Inkscape and run:") ++
    line (utf8 "   for i in " ++ set.sizeList ++ utf8 "; do") ++
    line (utf8 "     convert icon$\x7bi\x7d.svg extension/icon$\x7bi\x7d.png") ++
    line (utf8 "   done") ++
    line [] ++
    line (utf8 "Or use this data URL in Chrome (saves as icon*.svg):")

/-- The path and the preview of an icon about to be written. -/
def preview (limit : Int64) (drawing : Drawing) : Bytes :=
  line [] ++ line (drawing.record.path ++ utf8 ":") ++
    line (Preview.dataUrl drawing.document (if limit < 0 then 0 else limit))

def saved (drawing : Drawing) : Bytes :=
  line (utf8 "Saved: " ++ drawing.record.path)

def closing : Bytes :=
  line [] ++ line (utf8 "Note: Chrome extensions can use SVG icons directly in manifest v3!") ++
    line (utf8 "You can update manifest.json to use .svg files instead of .png")

end Report

namespace Log

/-- A line of diagnostics. -/
def line (text : Bytes) : Bytes :=
  utf8 "[exticons] " ++ text ++ utf8 "\n"

def started (s : RunSettings) : Bytes :=
  line (utf8 "set " ++ s.set.name ++ utf8 ": " ++ Decimal.ofNat s.set.specs.length ++
    utf8 " icons into " ++ s.root)

/-- The warning for a label that leaves its canvas. -/
def overflow (drawing : Drawing) : Bytes :=
  if drawing.record.fits then []
  else
    line (utf8 "warn: label " ++ quoted drawing.record.label ++ utf8 " likely overflows " ++
      Decimal.ofInt64 drawing.record.size ++ utf8 "px icon " ++ drawing.record.path)

def wrote (drawing : Drawing) : Bytes :=
  line (utf8 "wrote " ++ drawing.record.path ++ utf8 " (" ++
    Decimal.ofInt64 drawing.record.bytes ++ utf8 " bytes, hash " ++ drawing.record.hash ++
    utf8 ")")

end Log

/-- What is added to the log, which is kept only on request. -/
def RunSettings.logged (s : RunSettings) (lines : Bytes) : Bytes :=
  if s.verbose then lines else []

/-- A run under way: what it has shown and recorded so far. -/
structure RunProgress where
  report : Bytes
  log : Bytes
  manifest : Manifest

namespace RunProgress

def start (now : Bytes) (s : RunSettings) : RunProgress :=
  { report := Report.instructions s.set
    log := s.logged (Log.started s)
    manifest := Manifest.new now s.set.name s.root }

/-- An icon is shown before it is written. -/
def announce (progress : RunProgress) (s : RunSettings) (drawing : Drawing) : RunProgress :=
  { progress with
    report := progress.report ++ Report.preview s.previewLimit drawing
    log := progress.log ++ s.logged (Log.overflow drawing) }

/-- An icon that has been written is reported and recorded. -/
def record (progress : RunProgress) (s : RunSettings) (drawing : Drawing) : RunProgress :=
  { report := progress.report ++ Report.saved drawing
    log := progress.log ++ s.logged (Log.wrote drawing)
    manifest := progress.manifest.insertIcon drawing.target drawing.record }

/-- The run that has written all its icons. -/
def finish (progress : RunProgress) : Run :=
  { report := progress.report ++ Report.closing
    log := progress.log
    result := .ok progress.manifest.refresh }

/-- The run that ends at an icon that cannot be written. -/
def stop (progress : RunProgress) (drawing : Drawing) (fault : FileFault) : Run :=
  { report := progress.report
    log := progress.log
    result := .error (drawing.record.path, fault) }

end RunProgress

section

variable {m : Type → Type} [Monad m] [FileAccess m]

/-- Draws, announces and writes icons in order until one cannot be written. -/
def generateFrom (s : RunSettings) : List IconSpec → RunProgress → m Run
  | [], progress => return progress.finish
  | spec :: rest, progress => do
      let drawing := spec.draw
      let announced := progress.announce s drawing
      match ← FileAccess.write (drawing.location s.root) drawing.document with
      | .error fault => return announced.stop drawing fault
      | .ok () => generateFrom s rest (announced.record s drawing)

/-- Generates the icons of a set. -/
def generate (now : Bytes) (settings : RunSettings) : m Run :=
  let s := settings.withDefaults
  generateFrom s s.set.specs (.start now s)

end

end PlaceholderIcons
