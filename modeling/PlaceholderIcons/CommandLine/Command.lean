import PlaceholderIcons.CommandLine.Arguments

/-!
The commands of the program and how arguments select one. Commands form a tree
under the bare program. A command is looked for before its flags are read, so
what counts as a flag with a value is decided by the flags of the command found
so far; any flag that is not known to be a switch is taken to have one.
-/

namespace PlaceholderIcons

namespace CommandLine

/-- The shells for which completion is described. -/
inductive Shell where
  | bash
  | fish
  | powershell
  | zsh
  deriving DecidableEq

def Shell.name : Shell → Bytes
  | .bash => utf8 "bash"
  | .fish => utf8 "fish"
  | .powershell => utf8 "powershell"
  | .zsh => utf8 "zsh"

inductive Command where
  | main
  | completion
  | script (shell : Shell)
  | generate
  | help
  | sets
  | stats
  | validate
  deriving DecidableEq

/-- The operands that a command takes. -/
inductive Operands where
  | none
  | one
  | any

namespace Command

def programName : Bytes := utf8 "exticons"

def name : Command → Bytes
  | .main => programName
  | .completion => utf8 "completion"
  | .script shell => shell.name
  | .generate => utf8 "generate"
  | .help => utf8 "help"
  | .sets => utf8 "sets"
  | .stats => utf8 "stats"
  | .validate => utf8 "validate"

/-- The commands below a command, by increasing name. -/
def children : Command → List Command
  | .main => [.completion, .generate, .help, .sets, .stats, .validate]
  | .completion => [.script .bash, .script .fish, .script .powershell, .script .zsh]
  | _ => []

/-- The names that lead to a command. -/
def path : Command → Bytes
  | .main => programName
  | .script shell => programName ++ utf8 " completion " ++ shell.name
  | command => programName ++ utf8 " " ++ command.name

/-- Flags of the command alone; the bare program shares those of `generate`. -/
def ownFlags : Command → List Flag
  | .main | .generate => [.manifest, .previewLength, .root, .set]
  | .script _ => [.noDescriptions]
  | _ => []

/-- The flags by which a command is told from the values in front of it. -/
def lookupFlags (command : Command) : List Flag :=
  command.ownFlags ++ [.verbose]

/-- All flags of a command. -/
def flags (command : Command) : List Flag :=
  command.lookupFlags ++ [.help] ++ if command = .main then [.version] else []

def operands : Command → Operands
  | .stats | .validate => .one
  | .help => .any
  | _ => .none

/-- Whether an argument is taken to be followed by a value. -/
def awaitsValue (command : Command) (argument : Bytes) : Bool :=
  if argument.contains equalsSign then
    false
  else
    match argument with
    | 0x2D :: 0x2D :: name =>
        !(command.lookupFlags.any fun flag => flag.name == name && flag.isSwitch)
    | 0x2D :: letter :: [] =>
        !(command.lookupFlags.any fun flag => flag.letter? == some letter && flag.isSwitch)
    | _ => false

def isDashed (argument : Bytes) : Bool :=
  argument.head? == some dash

/-- The first argument that is neither a flag nor taken to be a value. A flag
with only one argument left behind it hides that argument. -/
def firstOperand? (command : Command) : List Bytes → Option Bytes
  | [] => none
  | argument :: rest =>
      if argument == terminator then
        none
      else if command.awaitsValue argument then
        match rest with
        | _ :: next :: more => firstOperand? command (next :: more)
        | _ => none
      else if argument.isEmpty || isDashed argument then
        firstOperand? command rest
      else
        some argument

/-- The arguments without the first one that is `name` and not a value. -/
def removeOperand (command : Command) (name : Bytes) : List Bytes → List Bytes
  | [] => []
  | argument :: rest =>
      if argument == terminator then
        argument :: rest
      else if command.awaitsValue argument then
        match rest with
        | [] => [argument]
        | value :: more => argument :: value :: removeOperand command name more
      else if argument == name then
        rest
      else
        argument :: removeOperand command name rest

/-- One step down the tree, if the first operand names a child. -/
def descend (found : Command × List Bytes) : Command × List Bytes :=
  let (command, arguments) := found
  match command.firstOperand? arguments with
  | none => found
  | some name =>
      match command.children.find? (·.name == name) with
      | none => found
      | some child => (child, command.removeOperand name arguments)

/-- The command that arguments select, and the arguments left for it. No command
lies more than two steps below the program. -/
def find (arguments : List Bytes) : Command × List Bytes :=
  descend (descend (.main, arguments))

/-- Whether a command does something by itself. -/
def isRunnable : Command → Bool
  | .completion => false
  | _ => true

def checkOperands (command : Command) (operands : List Bytes) : Except UsageFault Unit :=
  match command.operands, operands with
  | .none, name :: _ => .error (.unknownCommand name command.path)
  | .one, operands =>
      if operands.length = 1 then .ok () else .error (.operandCount 1 operands.length)
  | _, _ => .ok ()

end Command

end CommandLine

end PlaceholderIcons
