import PlaceholderIcons.CommandLine.Flag

/-!
Arguments as options and operands. A long flag takes its value behind `=` or,
unless it is a switch, from the next argument. Letters may share an argument;
the first one that takes a value takes the rest of the argument, or the next
one if nothing is left. `--` ends the flags, and a single dash is an operand.
-/

namespace PlaceholderIcons

namespace CommandLine

/-- Why arguments are refused. -/
inductive UsageFault where
  | badFlag (argument : Bytes)
  | unknownFlag (name : Bytes)
  | unknownLetter (letter : UInt8) (letters : Bytes)
  | missingValue (argument : Bytes)
  | missingLetterValue (letter : UInt8) (letters : Bytes)
  | invalidValue (value : Bytes) (flag : Flag) (fault : ValueFault)
  | unknownCommand (name : Bytes) (command : Bytes)
  | operandCount (expected received : Nat)
  deriving DecidableEq

/-- A letter of a flag by itself; letters are single bytes. -/
def quotedLetter (letter : UInt8) : Bytes :=
  quotedChar (Char.ofNat letter.toNat)

def UsageFault.message : UsageFault → Bytes
  | .badFlag argument => utf8 "bad flag syntax: " ++ argument
  | .unknownFlag name => utf8 "unknown flag: --" ++ name
  | .unknownLetter letter letters =>
      utf8 "unknown shorthand flag: " ++ quotedLetter letter ++ utf8 " in -" ++ letters
  | .missingValue argument => utf8 "flag needs an argument: " ++ argument
  | .missingLetterValue letter letters =>
      utf8 "flag needs an argument: " ++ quotedLetter letter ++ utf8 " in -" ++ letters
  | .invalidValue value flag fault =>
      utf8 "invalid argument " ++ quoted value ++ utf8 " for " ++ quoted flag.title ++
        utf8 " flag: " ++ fault.message value
  | .unknownCommand name command =>
      utf8 "unknown command " ++ quoted name ++ utf8 " for " ++ quoted command
  | .operandCount expected received =>
      utf8 "accepts " ++ Decimal.ofNat expected ++ utf8 " arg(s), received " ++
        Decimal.ofNat received

def dash : UInt8 := 0x2D

def equalsSign : UInt8 := 0x3D

/-- The argument behind which nothing is a flag. -/
def terminator : Bytes := [dash, dash]

/-- The value of a switch that stands alone. -/
def switchedOn : Bytes := utf8 "true"

def Options.set? (o : Options) (flag : Flag) (value : Bytes) : Except UsageFault Options :=
  (o.assign flag value).mapError (.invalidValue value flag)

/-- Letters in this spelling belong to a test runner and are passed over. -/
def passedOver : Bytes := utf8 "test."

/-- Reads the letters of one argument. A last letter that still lacks its value is
returned with the options. -/
def readLetters (flags : List Flag) :
    Options → Bytes → Except UsageFault (Options × Option (Flag × UInt8))
  | o, [] => .ok (o, none)
  | o, letter :: rest =>
      if passedOver.isPrefixOf (letter :: rest) then
        .ok (o, none)
      else
        match flags.find? (·.letter? == some letter) with
        | none => .error (.unknownLetter letter (letter :: rest))
        | some flag =>
            if rest.head? == some equalsSign && 1 < rest.length then
              (o.set? flag rest.tail).map (·, none)
            else if flag.isSwitch then do
              readLetters flags (← o.set? flag switchedOn) rest
            else if rest.isEmpty then
              .ok (o, some (flag, letter))
            else
              (o.set? flag rest).map (·, none)

/-- What a single argument is. -/
inductive Argument where
  | operand
  | terminator
  /-- A long flag and the value behind its `=`. -/
  | long (name : Bytes) (value : Option Bytes)
  | letters (letters : Bytes)

def Argument.ofBytes (argument : Bytes) : Argument :=
  match argument with
  | 0x2D :: 0x2D :: [] => .terminator
  | 0x2D :: 0x2D :: rest =>
      let (name, value) := Bytes.splitFirst equalsSign rest
      .long name value
  | 0x2D :: letter :: rest => .letters (letter :: rest)
  | _ => .operand

/-- The flag of a long name. -/
def findLong (flags : List Flag) (argument name : Bytes) : Except UsageFault Flag :=
  if name.isEmpty || name.head? == some dash then
    .error (.badFlag argument)
  else
    match flags.find? (·.name == name) with
    | some flag => .ok flag
    | none => .error (.unknownFlag name)

/-- Reads arguments on top of options; operands keep their order. -/
def readArguments (flags : List Flag) :
    Options → List Bytes → Except UsageFault (Options × List Bytes)
  | o, [] => .ok (o, [])
  | o, argument :: rest =>
      match Argument.ofBytes argument with
      | .operand => do
          let (o, operands) ← readArguments flags o rest
          return (o, argument :: operands)
      | .terminator => .ok (o, rest)
      | .long name value => do
          let flag ← findLong flags argument name
          match value with
          | some value => readArguments flags (← o.set? flag value) rest
          | none =>
              if flag.isSwitch then
                readArguments flags (← o.set? flag switchedOn) rest
              else
                match rest with
                | [] => .error (.missingValue argument)
                | value :: rest => readArguments flags (← o.set? flag value) rest
      | .letters letters => do
          match ← readLetters flags o letters with
          | (o, none) => readArguments flags o rest
          | (o, some (flag, letter)) =>
              match rest with
              | [] => .error (.missingLetterValue letter [letter])
              | value :: rest => readArguments flags (← o.set? flag value) rest

end CommandLine

end PlaceholderIcons
