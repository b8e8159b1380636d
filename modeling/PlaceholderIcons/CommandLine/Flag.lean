import PlaceholderIcons.CommandLine.Value
import PlaceholderIcons.FilePath
import PlaceholderIcons.Icon.Preview
import PlaceholderIcons.Icon.Set
import PlaceholderIcons.Manifest.Basic

/-!
The flags of the program and the options that they set.
-/

namespace PlaceholderIcons

namespace CommandLine

inductive Flag where
  | help
  | manifest
  | noDescriptions
  | previewLength
  | root
  | set
  | verbose
  | version
  deriving DecidableEq

/-- What a flag is given: nothing, a text or a number. -/
inductive FlagKind where
  | switch
  | text
  | number
  deriving DecidableEq

namespace Flag

def name : Flag → Bytes
  | .help => utf8 "help"
  | .manifest => utf8 "manifest"
  | .noDescriptions => utf8 "no-descriptions"
  | .previewLength => utf8 "preview-len"
  | .root => utf8 "root"
  | .set => utf8 "set"
  | .verbose => utf8 "verbose"
  | .version => utf8 "version"

/-- The letter that a flag can be given by. -/
def letter? : Flag → Option UInt8
  | .help => some 0x68
  | .root => some 0x72
  | .set => some 0x73
  | .verbose => some 0x76
  | _ => none

def kind : Flag → FlagKind
  | .previewLength => .number
  | .root | .set => .text
  | _ => .switch

/-- Whether the flag stands without a value. -/
def isSwitch (flag : Flag) : Bool :=
  flag.kind == .switch

/-- The flag as messages name it. -/
def title (flag : Flag) : Bytes :=
  match flag.letter? with
  | some letter => utf8 "-" ++ [letter] ++ utf8 ", --" ++ flag.name
  | none => utf8 "--" ++ flag.name

end Flag

/-- What the flags of a command line ask for. -/
structure Options where
  root : Bytes := FilePath.here
  set : Bytes := IconSet.defaultName
  previewLimit : Int64 := Preview.defaultLimit
  manifest : Bool := false
  verbose : Bool := false
  help : Bool := false
  version : Bool := false

/-- The options with the value of one flag set. -/
def Options.assign (o : Options) (flag : Flag) (value : Bytes) : Except ValueFault Options :=
  match flag with
  | .root => .ok { o with root := value }
  | .set => .ok { o with set := value }
  | .previewLength => (readNumber value).map fun n => { o with previewLimit := n }
  | .manifest => (readSwitch value).map fun b => { o with manifest := b }
  | .verbose => (readSwitch value).map fun b => { o with verbose := b }
  | .help => (readSwitch value).map fun b => { o with help := b }
  | .version => (readSwitch value).map fun b => { o with version := b }
  | .noDescriptions => (readSwitch value).map fun _ => o

end CommandLine

end PlaceholderIcons
