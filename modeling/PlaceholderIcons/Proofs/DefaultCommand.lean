import PlaceholderIcons.CommandLine.Program
import PlaceholderIcons.FileTree.Layout
import PlaceholderIcons.Proofs.PathNames

/-!
The bare program as a shorthand for `generate`. Arguments are first searched for
a command by a rule that only guesses where values lie, and then read. On
arguments made of the flags of `generate` both agree on every value, whatever it
looks like, so no value is taken for a command, and the two commands read the
same options.
-/

namespace PlaceholderIcons

namespace CommandLine

/-- The flags that `generate` takes, its help apart. -/
def generateFlags : List Flag :=
  [.manifest, .previewLength, .root, .set, .verbose]

/-- A flag of `generate` by its long name. -/
def Flag.longName (flag : Flag) : Bytes :=
  terminator ++ flag.name

/-- Letters of one argument that take nothing from the next one: switches, the
last of which may be given a value behind `=`, or switches and then a flag with
its value. -/
inductive SelfContained : Bytes → Prop where
  | switch {flag : Flag} {letter : UInt8} (hflag : flag ∈ generateFlags)
      (hletter : flag.letter? = some letter) (hswitch : flag.isSwitch = true) :
      SelfContained [letter]
  | switches {flag : Flag} {letter : UInt8} {rest : Bytes} (hflag : flag ∈ generateFlags)
      (hletter : flag.letter? = some letter) (hswitch : flag.isSwitch = true)
      (hrest : SelfContained rest) : SelfContained (letter :: rest)
  | assigned {flag : Flag} {letter : UInt8} (hflag : flag ∈ generateFlags)
      (hletter : flag.letter? = some letter) (hswitch : flag.isSwitch = true) (value : Bytes) :
      SelfContained (letter :: equalsSign :: value)
  | valued {flag : Flag} {letter : UInt8} {value : Bytes} (hflag : flag ∈ generateFlags)
      (hletter : flag.letter? = some letter) (hswitch : flag.isSwitch = false)
      (hvalue : value ≠ []) : SelfContained (letter :: value)

/-- An argument that is a flag with a value to come, by its name or its letter. -/
inductive Awaiting : Flag → Bytes → Prop where
  | long (flag : Flag) : Awaiting flag flag.longName
  | letter {flag : Flag} {letter : UInt8} (hletter : flag.letter? = some letter) :
      Awaiting flag [dash, letter]

/-- Arguments made only of flags of `generate`, with arbitrary values. -/
inductive GenerateArguments : List Bytes → Prop where
  | nil : GenerateArguments []
  | assigned {flag : Flag} {rest : List Bytes} (hflag : flag ∈ generateFlags) (value : Bytes)
      (hrest : GenerateArguments rest) :
      GenerateArguments ((flag.longName ++ equalsSign :: value) :: rest)
  | switch {flag : Flag} {rest : List Bytes} (hflag : flag ∈ generateFlags)
      (hswitch : flag.isSwitch = true) (hrest : GenerateArguments rest) :
      GenerateArguments (flag.longName :: rest)
  | letters {letters : Bytes} {rest : List Bytes} (hletters : SelfContained letters)
      (hrest : GenerateArguments rest) : GenerateArguments ((dash :: letters) :: rest)
  | valued {flag : Flag} {argument : Bytes} {rest : List Bytes} (hflag : flag ∈ generateFlags)
      (hswitch : flag.isSwitch = false) (hargument : Awaiting flag argument) (value : Bytes)
      (hrest : GenerateArguments rest) : GenerateArguments (argument :: value :: rest)
  | valueless {flag : Flag} {argument : Bytes} (hflag : flag ∈ generateFlags)
      (hswitch : flag.isSwitch = false) (hargument : Awaiting flag argument) :
      GenerateArguments [argument]

/-- The commands that generate icons. -/
def generators : List Command :=
  [.main, .generate]

/-- The names of the flags are neither empty nor begin with a dash or hold an
equals sign. -/
theorem Flag.name_plain : ∀ flag ∈ generateFlags,
    flag.name ≠ [] ∧ flag.name.head? ≠ some dash ∧ equalsSign ∉ flag.name := by
  decide

/-- What has been checked for the letters of all flags. -/
theorem of_all_letters {p : Flag → UInt8 → Bool}
    (h : generateFlags.all (fun flag => flag.letter?.all (p flag)) = true) {flag : Flag}
    (hflag : flag ∈ generateFlags) {letter : UInt8} (hletter : flag.letter? = some letter) :
    p flag letter = true := by
  have hall := List.all_eq_true.1 h flag hflag
  rw [hletter] at hall
  exact hall

/-- The letters of the flags are neither a dash nor an equals sign, and none of
them begins the letters that are passed over. -/
theorem Flag.letter_plain {flag : Flag} (hflag : flag ∈ generateFlags) {letter : UInt8}
    (hletter : flag.letter? = some letter) :
    letter ≠ dash ∧ letter ≠ equalsSign ∧ passedOver.head? ≠ some letter :=
  of_decide_eq_true (of_all_letters
    (p := fun _ letter => letter ≠ dash ∧ letter ≠ equalsSign ∧ passedOver.head? ≠ some letter)
    (by decide) hflag hletter)

theorem Flag.longName_append_ne_terminator {flag : Flag} (hflag : flag ∈ generateFlags)
    (rest : Bytes) : flag.longName ++ rest ≠ terminator := by
  intro heq
  rw [longName, List.append_assoc, List.append_right_eq_self, List.append_eq_nil_iff] at heq
  exact (Flag.name_plain flag hflag).1 heq.1

theorem SelfContained.exists_letter {letters : Bytes} (h : SelfContained letters) :
    ∃ flag ∈ generateFlags, ∃ letter ∈ flag.letter?, ∃ rest, letters = letter :: rest := by
  cases h with
  | switch hflag hletter hswitch => exact ⟨_, hflag, _, hletter, _, rfl⟩
  | switches hflag hletter hswitch hrest => exact ⟨_, hflag, _, hletter, _, rfl⟩
  | assigned hflag hletter hswitch value => exact ⟨_, hflag, _, hletter, _, rfl⟩
  | valued hflag hletter hswitch hvalue => exact ⟨_, hflag, _, hletter, _, rfl⟩

namespace Command

/-- The search for a command knows which flags of `generate` take a value. -/
theorem awaitsValue_of_awaiting {command : Command} (hcommand : command ∈ generators) {flag : Flag}
    (hflag : flag ∈ generateFlags) {argument : Bytes} (h : Awaiting flag argument) :
    command.awaitsValue argument = !flag.isSwitch := by
  have hlong : ∀ command ∈ generators, ∀ flag ∈ generateFlags,
      command.awaitsValue flag.longName = !flag.isSwitch := by decide
  have hletters : (generators.all fun command => generateFlags.all fun flag =>
      flag.letter?.all fun letter =>
        command.awaitsValue [dash, letter] == !flag.isSwitch) = true := by decide
  cases h with
  | long => exact hlong command hcommand flag hflag
  | letter hletter =>
    exact eq_of_beq (of_all_letters (List.all_eq_true.1 hletters command hcommand) hflag hletter)

theorem awaitsValue_of_equalsSign {argument : Bytes} (h : equalsSign ∈ argument)
    (command : Command) : command.awaitsValue argument = false := by
  unfold awaitsValue
  rw [if_pos (List.contains_iff_mem.2 h)]

/-- Several letters in one argument are never taken to be followed by a value. -/
theorem awaitsValue_letters {first second : UInt8} (h : first ≠ dash) (rest : Bytes)
    (command : Command) : command.awaitsValue (dash :: first :: second :: rest) = false := by
  unfold awaitsValue
  split
  · rfl
  · split
    next heq => exact absurd (List.cons.inj (List.cons.inj heq).2).1 h
    next heq => cases heq
    next => rfl

theorem awaitsValue_of_selfContained {command : Command} (hcommand : command ∈ generators)
    {letters : Bytes} (h : SelfContained letters) :
    command.awaitsValue (dash :: letters) = false := by
  cases h with
  | switch hflag hletter hswitch =>
    rw [awaitsValue_of_awaiting hcommand hflag (.letter hletter), hswitch]
    rfl
  | switches hflag hletter hswitch hrest =>
    obtain ⟨-, -, second, -, rest, rfl⟩ := hrest.exists_letter
    exact awaitsValue_letters (Flag.letter_plain hflag hletter).1 rest command
  | assigned hflag hletter hswitch value =>
    exact awaitsValue_letters (Flag.letter_plain hflag hletter).1 value command
  | valued hflag hletter hswitch hvalue =>
    obtain ⟨second, rest, rfl⟩ := List.exists_cons_of_ne_nil hvalue
    exact awaitsValue_letters (Flag.letter_plain hflag hletter).1 rest command

/-- A dashed argument without a value to come is passed over in the search. -/
theorem firstOperand?_cons_of_dashed {command : Command} {argument : Bytes}
    (hterminator : argument ≠ terminator) (hdashed : isDashed argument = true)
    (hvalue : command.awaitsValue argument = false) (rest : List Bytes) :
    command.firstOperand? (argument :: rest) = command.firstOperand? rest := by
  rw [firstOperand?.eq_def]
  simp [hterminator, hdashed, hvalue]

/-- An argument with a value to come hides what stands behind it. -/
theorem firstOperand?_cons_of_awaiting {command : Command} {argument : Bytes} {rest : List Bytes}
    (hvalue : command.awaitsValue argument = true) (hrest : command.firstOperand? rest.tail = none) :
    command.firstOperand? (argument :: rest) = none := by
  unfold firstOperand?
  simp only [hvalue, if_true]
  split
  · rfl
  · split
    · exact hrest
    · rfl

/-- The search finds no operand among the flags of `generate`: what it takes for a
value is one. -/
theorem firstOperand?_of_generateArguments {command : Command} (hcommand : command ∈ generators)
    {arguments : List Bytes} (h : GenerateArguments arguments) :
    command.firstOperand? arguments = none := by
  induction h with
  | nil => rfl
  | assigned hflag value hrest ih =>
    rw [firstOperand?_cons_of_dashed (Flag.longName_append_ne_terminator hflag _) rfl
      (awaitsValue_of_equalsSign (by simp) command)]
    exact ih
  | @switch flag rest hflag hswitch hrest ih =>
    have hterminator := Flag.longName_append_ne_terminator hflag []
    rw [List.append_nil] at hterminator
    have hvalue := awaitsValue_of_awaiting hcommand hflag (.long flag)
    rw [hswitch] at hvalue
    rw [firstOperand?_cons_of_dashed hterminator rfl hvalue]
    exact ih
  | letters hletters hrest ih =>
    obtain ⟨flag, hflag, letter, hletter, rest, rfl⟩ := hletters.exists_letter
    have hterminator : dash :: letter :: rest ≠ terminator := by
      intro heq
      exact (Flag.letter_plain hflag hletter).1
        (List.cons.inj (List.cons.inj heq).2).1
    rw [firstOperand?_cons_of_dashed hterminator rfl
      (awaitsValue_of_selfContained hcommand hletters)]
    exact ih
  | valued hflag hswitch hargument value hrest ih =>
    have hvalue := awaitsValue_of_awaiting hcommand hflag hargument
    rw [hswitch] at hvalue
    exact firstOperand?_cons_of_awaiting hvalue ih
  | valueless hflag hswitch hargument =>
    have hvalue := awaitsValue_of_awaiting hcommand hflag hargument
    rw [hswitch] at hvalue
    exact firstOperand?_cons_of_awaiting hvalue rfl

theorem descend_of_generateArguments {command : Command} (hcommand : command ∈ generators)
    {arguments : List Bytes} (h : GenerateArguments arguments) :
    descend (command, arguments) = (command, arguments) := by
  simp only [descend, firstOperand?_of_generateArguments hcommand h]

theorem find_of_generateArguments {arguments : List Bytes} (h : GenerateArguments arguments) :
    find arguments = (.main, arguments) := by
  have hmain : Command.main ∈ generators := by decide
  rw [find, descend_of_generateArguments hmain h, descend_of_generateArguments hmain h]

theorem find_generate_cons {arguments : List Bytes} (h : GenerateArguments arguments) :
    find (Command.generate.name :: arguments) = (.generate, arguments) := by
  have hgenerate : Command.generate ∈ generators := by decide
  have hdescend : descend (.main, Command.generate.name :: arguments) = (.generate, arguments) := by
    have hoperand : Command.main.firstOperand? (Command.generate.name :: arguments) =
        some Command.generate.name := by
      rw [firstOperand?.eq_def]
      rfl
    have hremove : Command.main.removeOperand Command.generate.name
        (Command.generate.name :: arguments) = arguments := by
      rw [removeOperand.eq_def]
      rfl
    rw [descend, hoperand]
    exact congrArg (Prod.mk Command.generate) hremove
  rw [find, hdescend, descend_of_generateArguments hgenerate h]

end Command

/-- Flags among which those of `generate` are found, and none by an equals sign. -/
structure Knows (flags : List Flag) : Prop where
  find_name : ∀ flag ∈ generateFlags, flags.find? (·.name == flag.name) = some flag
  find_letter : ∀ flag ∈ generateFlags, ∀ letter ∈ flag.letter?,
    flags.find? (·.letter? == some letter) = some flag
  find_equalsSign : flags.find? (·.letter? == some equalsSign) = none

theorem knows_of_generator {command : Command} (hcommand : command ∈ generators) :
    Knows command.flags := by
  have hnames : ∀ command ∈ generators, ∀ flag ∈ generateFlags,
      command.flags.find? (·.name == flag.name) = some flag := by decide
  have hletters : (generators.all fun command => generateFlags.all fun flag =>
      flag.letter?.all fun letter =>
        command.flags.find? (·.letter? == some letter) == some flag) = true := by decide
  have hequalsSign : ∀ command ∈ generators,
      command.flags.find? (·.letter? == some equalsSign) = none := by decide
  refine ⟨hnames command hcommand, ?_, hequalsSign command hcommand⟩
  intro flag hflag letter hletter
  exact eq_of_beq (of_all_letters (List.all_eq_true.1 hletters command hcommand) hflag hletter)

theorem Knows.findLong {flags : List Flag} (h : Knows flags) {flag : Flag}
    (hflag : flag ∈ generateFlags) (argument : Bytes) :
    findLong flags argument flag.name = .ok flag := by
  obtain ⟨hne, hdash, -⟩ := Flag.name_plain flag hflag
  simp [CommandLine.findLong, hne, hdash, h.find_name flag hflag]

/-- Options that ask for icons and not for a page. -/
structure Options.ForIcons (o : Options) : Prop where
  help : o.help = false
  version : o.version = false

theorem exists_of_map_eq_ok {ε α β : Type} {x : Except ε α} {f : α → β} {b : β}
    (h : x.map f = .ok b) : ∃ a, f a = b := by
  cases x with
  | error e => cases h
  | ok a => exact ⟨a, Except.ok.inj h⟩

theorem Options.ForIcons.set? {o next : Options} (ho : o.ForIcons) {flag : Flag}
    (hflag : flag ∈ generateFlags) {value : Bytes} (h : o.set? flag value = .ok next) :
    next.ForIcons := by
  unfold Options.set? at h
  cases hassign : o.assign flag value with
  | error fault =>
    rw [hassign] at h
    cases h
  | ok other =>
    rw [hassign] at h
    obtain rfl : other = next := Except.ok.inj h
    simp only [generateFlags, List.mem_cons, List.not_mem_nil, or_false] at hflag
    rcases hflag with rfl | rfl | rfl | rfl | rfl
    · obtain ⟨_, rfl⟩ := exists_of_map_eq_ok hassign
      exact ⟨ho.help, ho.version⟩
    · obtain ⟨_, rfl⟩ := exists_of_map_eq_ok hassign
      exact ⟨ho.help, ho.version⟩
    · cases hassign
      exact ⟨ho.help, ho.version⟩
    · cases hassign
      exact ⟨ho.help, ho.version⟩
    · obtain ⟨_, rfl⟩ := exists_of_map_eq_ok hassign
      exact ⟨ho.help, ho.version⟩

theorem exists_set?_switchedOn {flag : Flag} (hflag : flag ∈ generateFlags)
    (hswitch : flag.isSwitch = true) (o : Options) :
    ∃ next, o.set? flag switchedOn = .ok next := by
  simp only [generateFlags, List.mem_cons, List.not_mem_nil, or_false] at hflag
  rcases hflag with rfl | rfl | rfl | rfl | rfl
  · exact ⟨_, rfl⟩
  · cases hswitch
  · cases hswitch
  · cases hswitch
  · exact ⟨_, rfl⟩

/-- How the letter of a flag is read, with what stands behind it. -/
theorem Knows.readLetters_cons {flags : List Flag} (h : Knows flags) {flag : Flag}
    (hflag : flag ∈ generateFlags) {letter : UInt8} (hletter : flag.letter? = some letter)
    (o : Options) (rest : Bytes) :
    readLetters flags o (letter :: rest) =
      if rest.head? == some equalsSign && 1 < rest.length then
        (o.set? flag rest.tail).map (·, none)
      else if flag.isSwitch then do
        readLetters flags (← o.set? flag switchedOn) rest
      else if rest.isEmpty then
        .ok (o, some (flag, letter))
      else
        (o.set? flag rest).map (·, none) := by
  have hpassed : passedOver.isPrefixOf (letter :: rest) = false := by
    have hfirst := (Flag.letter_plain hflag hletter).2.2
    have hcons : passedOver = passedOver.head (by decide) :: passedOver.tail := rfl
    rw [hcons, List.isPrefixOf_cons_cons, Bool.and_eq_false_iff, beq_eq_false_iff_ne]
    refine .inl fun heq => hfirst ?_
    rw [← heq]
    rfl
  rw [readLetters, hpassed, h.find_letter flag hflag letter hletter]
  rfl

/-- Letters that take nothing from the next argument are read alike by all flags
that know those of `generate`. -/
theorem readLetters_of_selfContained {letters : Bytes} (h : SelfContained letters) {o : Options}
    (ho : o.ForIcons) :
    ∃ result : Except UsageFault Options,
      (∀ flags, Knows flags → readLetters flags o letters = result.map (·, none)) ∧
      ∀ next, result = .ok next → next.ForIcons := by
  induction h generalizing o with
  | @switch flag letter hflag hletter hswitch =>
    refine ⟨o.set? flag switchedOn, ?_, fun next hnext => ho.set? hflag hnext⟩
    intro flags hflags
    rw [hflags.readLetters_cons hflag hletter, hswitch]
    cases o.set? flag switchedOn <;> rfl
  | @switches flag letter rest hflag hletter hswitch hrest ih =>
    obtain ⟨other, hother, second, hsecond, more, rfl⟩ := hrest.exists_letter
    have hassign : ((second :: more).head? == some equalsSign) = false := by
      simpa using (Flag.letter_plain hother hsecond).2.1
    obtain ⟨middle, hset⟩ := exists_set?_switchedOn hflag hswitch o
    obtain ⟨result, hresult, hicons⟩ := ih (ho.set? hflag hset)
    refine ⟨result, ?_, hicons⟩
    intro flags hflags
    rw [hflags.readLetters_cons hflag hletter, hassign, hswitch, hset]
    exact hresult flags hflags
  | @assigned flag letter hflag hletter hswitch value =>
    cases value with
    | nil =>
      -- With nothing behind it, the equals sign is read as a letter.
      obtain ⟨middle, hset⟩ := exists_set?_switchedOn hflag hswitch o
      refine ⟨.error (.unknownLetter equalsSign [equalsSign]), ?_, fun next hnext => by cases hnext⟩
      intro flags hflags
      have hequals : readLetters flags middle [equalsSign] =
          .error (.unknownLetter equalsSign [equalsSign]) := by
        rw [readLetters, hflags.find_equalsSign]
        rfl
      rw [hflags.readLetters_cons hflag hletter, hswitch, hset]
      exact hequals
    | cons b value =>
      refine ⟨o.set? flag (b :: value), ?_, fun next hnext => ho.set? hflag hnext⟩
      intro flags hflags
      rw [hflags.readLetters_cons hflag hletter]
      simp
  | @valued flag letter value hflag hletter hswitch hvalue =>
    have hnonempty : value.isEmpty = false := by simpa using hvalue
    by_cases hassign : (value.head? == some equalsSign && 1 < value.length) = true
    · refine ⟨o.set? flag value.tail, ?_, fun next hnext => ho.set? hflag hnext⟩
      intro flags hflags
      rw [hflags.readLetters_cons hflag hletter, if_pos hassign]
    · refine ⟨o.set? flag value, ?_, fun next hnext => ho.set? hflag hnext⟩
      intro flags hflags
      rw [hflags.readLetters_cons hflag hletter, if_neg hassign, hswitch, hnonempty]
      rfl

namespace Argument

theorem ofBytes_cons_cons {b : UInt8} {rest : Bytes} :
    ofBytes (dash :: dash :: b :: rest) =
      .long (Bytes.splitFirst equalsSign (b :: rest)).1
        (Bytes.splitFirst equalsSign (b :: rest)).2 := rfl

theorem ofBytes_assigned {flag : Flag} (hflag : flag ∈ generateFlags) (value : Bytes) :
    ofBytes (flag.longName ++ equalsSign :: value) = .long flag.name (some value) := by
  obtain ⟨hne, -, hequals⟩ := Flag.name_plain flag hflag
  have hsplit := Bytes.splitFirst_append hequals value
  obtain ⟨b, rest, hname⟩ := List.exists_cons_of_ne_nil hne
  change ofBytes (dash :: dash :: (flag.name ++ equalsSign :: value)) = _
  rw [hname] at hsplit ⊢
  rw [List.cons_append] at hsplit ⊢
  rw [ofBytes_cons_cons, hsplit]

theorem ofBytes_longName {flag : Flag} (hflag : flag ∈ generateFlags) :
    ofBytes flag.longName = .long flag.name none := by
  obtain ⟨hne, -, hequals⟩ := Flag.name_plain flag hflag
  have hsplit := Bytes.splitFirst_of_not_mem hequals
  obtain ⟨b, rest, hname⟩ := List.exists_cons_of_ne_nil hne
  change ofBytes (dash :: dash :: flag.name) = _
  rw [hname] at hsplit ⊢
  rw [ofBytes_cons_cons, hsplit]

theorem ofBytes_letters {letter : UInt8} (h : letter ≠ dash) (rest : Bytes) :
    ofBytes (dash :: letter :: rest) = .letters (letter :: rest) := by
  unfold ofBytes
  split
  next heq => exact absurd (List.cons.inj (List.cons.inj heq).2).1 h
  next heq => exact absurd (List.cons.inj (List.cons.inj heq).2).1 h
  next heq =>
    obtain ⟨-, htail⟩ := List.cons.inj heq
    rw [htail]
  next hnone => exact absurd rfl (hnone letter rest)

end Argument

namespace Knows

variable {flags : List Flag} {flag : Flag}

theorem readArguments_assigned (h : Knows flags) (hflag : flag ∈ generateFlags) (o : Options)
    (value : Bytes) (rest : List Bytes) :
    readArguments flags o ((flag.longName ++ equalsSign :: value) :: rest) =
      o.set? flag value >>= fun next => readArguments flags next rest := by
  rw [readArguments.eq_def]
  simp only [Argument.ofBytes_assigned hflag, h.findLong hflag]
  rfl

theorem readArguments_longName (h : Knows flags) (hflag : flag ∈ generateFlags) (o : Options)
    (rest : List Bytes) :
    readArguments flags o (flag.longName :: rest) =
      if flag.isSwitch then
        o.set? flag switchedOn >>= fun next => readArguments flags next rest
      else
        match rest with
        | [] => .error (.missingValue flag.longName)
        | value :: rest => o.set? flag value >>= fun next => readArguments flags next rest := by
  rw [readArguments.eq_def]
  simp only [Argument.ofBytes_longName hflag, h.findLong hflag]
  rfl

theorem readArguments_letter (h : Knows flags) (hflag : flag ∈ generateFlags)
    (hswitch : flag.isSwitch = false) {letter : UInt8} (hletter : flag.letter? = some letter)
    (o : Options) (rest : List Bytes) :
    readArguments flags o ([dash, letter] :: rest) =
      match rest with
      | [] => .error (.missingLetterValue letter [letter])
      | value :: rest => o.set? flag value >>= fun next => readArguments flags next rest := by
  have hread : readLetters flags o [letter] = .ok (o, some (flag, letter)) := by
    rw [h.readLetters_cons hflag hletter, hswitch]
    rfl
  rw [readArguments.eq_def]
  simp only [Argument.ofBytes_letters (Flag.letter_plain hflag hletter).1, hread]
  rfl

theorem readArguments_valued (h : Knows flags) (hflag : flag ∈ generateFlags)
    (hswitch : flag.isSwitch = false) {argument : Bytes} (hargument : Awaiting flag argument)
    (o : Options) (value : Bytes) (rest : List Bytes) :
    readArguments flags o (argument :: value :: rest) =
      o.set? flag value >>= fun next => readArguments flags next rest := by
  cases hargument with
  | long => rw [h.readArguments_longName hflag, hswitch, if_neg Bool.false_ne_true]
  | letter hletter => rw [h.readArguments_letter hflag hswitch hletter]

end Knows

theorem readArguments_selfContained {flags : List Flag} {letters : Bytes}
    (hletters : SelfContained letters) {o : Options} {result : Except UsageFault Options}
    (hread : readLetters flags o letters = result.map (·, none)) (rest : List Bytes) :
    readArguments flags o ((dash :: letters) :: rest) =
      result >>= fun next => readArguments flags next rest := by
  obtain ⟨flag, hflag, letter, hletter, more, rfl⟩ := hletters.exists_letter
  have hdash := (Flag.letter_plain hflag hletter).1
  rw [readArguments.eq_def]
  simp only [Argument.ofBytes_letters hdash, hread]
  cases result with
  | error fault => rfl
  | ok next => rfl

/-- Arguments come to the same for all flags that know those of `generate`: one
fault, or options that ask for icons and no operand. -/
def ReadAlike (o : Options) (arguments : List Bytes) : Prop :=
  ∃ result : Except UsageFault Options,
    (∀ flags, Knows flags → readArguments flags o arguments = result.map (·, [])) ∧
    ∀ next, result = .ok next → next.ForIcons

theorem ReadAlike.of_error {o : Options} {arguments : List Bytes} {fault : UsageFault}
    (hread : ∀ flags, Knows flags → readArguments flags o arguments = .error fault) :
    ReadAlike o arguments := by
  refine ⟨.error fault, hread, ?_⟩
  intro next hnext
  cases hnext

/-- What is read in two parts is read alike if each part is. -/
theorem ReadAlike.of_bind {o : Options} {arguments rest : List Bytes}
    {first : Except UsageFault Options}
    (hread : ∀ flags, Knows flags → readArguments flags o arguments =
      first >>= fun next => readArguments flags next rest)
    (hrest : ∀ next, first = .ok next → ReadAlike next rest) : ReadAlike o arguments := by
  cases first with
  | error fault => exact .of_error hread
  | ok next =>
    obtain ⟨result, hresult, hicons⟩ := hrest next rfl
    exact ⟨result, fun flags hflags => (hread flags hflags).trans (hresult flags hflags), hicons⟩

theorem readAlike_of_generateArguments {arguments : List Bytes} (h : GenerateArguments arguments)
    {o : Options} (ho : o.ForIcons) : ReadAlike o arguments := by
  induction h generalizing o with
  | nil => exact ⟨.ok o, fun _ _ => rfl, fun next hnext => Except.ok.inj hnext ▸ ho⟩
  | assigned hflag value hrest ih =>
    exact .of_bind (fun flags hflags => hflags.readArguments_assigned hflag o value _)
      fun next hnext => ih (ho.set? hflag hnext)
  | switch hflag hswitch hrest ih =>
    exact .of_bind (fun flags hflags =>
      (hflags.readArguments_longName hflag o _).trans (if_pos hswitch))
      fun next hnext => ih (ho.set? hflag hnext)
  | letters hletters hrest ih =>
    obtain ⟨result, hresult, hicons⟩ := readLetters_of_selfContained hletters ho
    exact .of_bind (fun flags hflags =>
      readArguments_selfContained hletters (hresult flags hflags) _)
      fun next hnext => ih (hicons next hnext)
  | valued hflag hswitch hargument value hrest ih =>
    exact .of_bind (fun flags hflags =>
      hflags.readArguments_valued hflag hswitch hargument o value _)
      fun next hnext => ih (ho.set? hflag hnext)
  | valueless hflag hswitch hargument =>
    cases hargument with
    | long =>
      apply ReadAlike.of_error
      intro flags hflags
      rw [hflags.readArguments_longName hflag, hswitch, if_neg Bool.false_ne_true]
    | letter hletter =>
      apply ReadAlike.of_error
      intro flags hflags
      rw [hflags.readArguments_letter hflag hswitch hletter]

section

variable {m : Type → Type} [Monad m] [FileAccess m]

/-- What a command that generates icons answers to what has been read. -/
def answer (host : Host) : Except UsageFault Options → m Response
  | .error fault => return { stdout := [], failure := some (.usage fault) }
  | .ok o => runGenerate host.now o

theorem execute_eq_answer {command : Command} (hcommand : command ∈ generators) (host : Host)
    {arguments rest : List Bytes} (hfind : Command.find arguments = (command, rest))
    {result : Except UsageFault Options}
    (hread : readArguments command.flags {} rest = result.map (·, []))
    (hicons : ∀ o, result = .ok o → o.ForIcons) :
    (execute host arguments : m Response) = answer host result := by
  unfold execute
  simp only [hfind, hread]
  cases result with
  | error fault => rfl
  | ok o =>
    obtain ⟨hhelp, hversion⟩ := hicons o rfl
    simp only [generators, List.mem_cons, List.not_mem_nil, or_false] at hcommand
    rcases hcommand with rfl | rfl <;>
      simp [Except.map, hhelp, hversion, Command.isRunnable, Command.checkOperands,
        Command.operands, Command.run, answer]

end

/-- The bare program behaves like `generate` on the flags of `generate`, with any
values: it prints the same, fails in the same way and leaves the same tree. Both
either refuse the arguments and touch nothing, or generate icons under options
that the arguments ask for. -/
theorem execute_bare (host : Host) (tree : FileTree) {arguments : List Bytes}
    (h : GenerateArguments arguments) :
    (execute host arguments : FileTreeM Response).run tree =
        (execute host (Command.generate.name :: arguments) : FileTreeM Response).run tree ∧
      ((∃ fault, (execute host arguments : FileTreeM Response).run tree =
          ({ stdout := [], failure := some (.usage fault) }, tree)) ∨
        ∃ o, (execute host arguments : FileTreeM Response).run tree =
          (runGenerate host.now o : FileTreeM Response).run tree) := by
  have hmain : Command.main ∈ generators := by decide
  have hgenerate : Command.generate ∈ generators := by decide
  obtain ⟨result, hresult, hicons⟩ :=
    readAlike_of_generateArguments h (o := {}) ⟨rfl, rfl⟩
  have hbare : (execute host arguments : FileTreeM Response) = answer host result :=
    execute_eq_answer hmain host (Command.find_of_generateArguments h)
      (hresult _ (knows_of_generator hmain)) hicons
  have hnamed : (execute host (Command.generate.name :: arguments) : FileTreeM Response) =
      answer host result :=
    execute_eq_answer hgenerate host (Command.find_generate_cons h)
      (hresult _ (knows_of_generator hgenerate)) hicons
  rw [hbare, hnamed]
  refine ⟨rfl, ?_⟩
  cases result with
  | error fault => exact .inl ⟨fault, rfl⟩
  | ok o => exact .inr ⟨o, rfl⟩

/-- Values that look like a command, a flag and the end of the flags. -/
def misleadingArguments : List Bytes :=
  ["--set", "validate", "-vvr=help", "--preview-len=0x10", "-v=T", "-s", "--manifest", "--root",
    "--"].map utf8

theorem execute_bare_misleading :
    GenerateArguments misleadingArguments ∧
    (execute ⟨[], [], []⟩ misleadingArguments : FileTreeM Response).run (FileTree.fresh [utf8 "w"]) =
      (execute ⟨[], [], []⟩ (utf8 "generate" :: misleadingArguments) : FileTreeM Response).run
        (FileTree.fresh [utf8 "w"]) := by
  have hset : Flag.set ∈ generateFlags := by decide
  have hroot : Flag.root ∈ generateFlags := by decide
  have hverbose : Flag.verbose ∈ generateFlags := by decide
  have hlength : Flag.previewLength ∈ generateFlags := by decide
  have hletters : SelfContained (utf8 "vvr=help") :=
    .switches hverbose rfl rfl (.switches hverbose rfl rfl (.valued hroot rfl rfl (by decide)))
  have harguments : GenerateArguments misleadingArguments :=
    .valued hset rfl (.long .set) _ (.letters hletters (.assigned hlength (utf8 "0x10")
      (.letters (.assigned hverbose rfl rfl (utf8 "T")) (.valued hset rfl (.letter rfl) _
        (.valued hroot rfl (.long .root) _ .nil)))))
  exact ⟨harguments, (execute_bare ⟨[], [], []⟩ (FileTree.fresh [utf8 "w"]) harguments).1⟩

end CommandLine

end PlaceholderIcons
