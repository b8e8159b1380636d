import PlaceholderIcons.CommandLine.Command
import PlaceholderIcons.Text.Column

/-!
Help pages: what a command does, how it is called, the commands below it and
its flags, each list in columns.
-/

namespace PlaceholderIcons

namespace CommandLine

def Shell.description : Shell → String
  | .bash =>
      "Generate the autocompletion script for the bash shell.

This script depends on the 'bash-completion' package.
If it is not installed already, you can install it via your OS's package manager.

To load completions in your current shell session:

	source <(exticons completion bash)

To load completions for every new session, execute once:

#### Linux:

	exticons completion bash > /etc/bash_completion.d/exticons

#### macOS:

	exticons completion bash > $(brew --prefix)/etc/bash_completion.d/exticons

You will need to start a new shell for this setup to take effect."
  | .fish =>
      "Generate the autocompletion script for the fish shell.

To load completions in your current shell session:

	exticons completion fish | source

To load completions for every new session, execute once:

	exticons completion fish > ~/.config/fish/completions/exticons.fish

You will need to start a new shell for this setup to take effect."
  | .powershell =>
      "Generate the autocompletion script for powershell.

To load completions in your current shell session:

	exticons completion powershell | Out-String | Invoke-Expression

To load completions for every new session, add the output of the above command
to your powershell profile."
  | .zsh =>
      "Generate the autocompletion script for the zsh shell.

If shell completion is not already enabled in your environment you will need
to enable it.  You can execute the following once:

	echo \"autoload -U compinit; compinit\" >> ~/.zshrc

To load completions in your current shell session:

	source <(exticons completion zsh)

To load completions for every new session, execute once:

#### Linux:

	exticons completion zsh > \"$\x7bfpath[1]\x7d/_exticons\"

#### macOS:

	exticons completion zsh > $(brew --prefix)/share/zsh/site-functions/_exticons

You will need to start a new shell for this setup to take effect."

namespace Command

/-- One line on a command, as lists of commands show it. -/
def summary : Command → Bytes
  | .main => utf8 "Generate placeholder SVG icons for a browser extension"
  | .completion => utf8 "Generate the autocompletion script for the specified shell"
  | .script shell => utf8 "Generate the autocompletion script for " ++ shell.name
  | .generate => utf8 "Write the SVG icons of an icon set"
  | .help => utf8 "Help about any command"
  | .sets => utf8 "List built-in icon sets"
  | .stats => utf8 "Display the icons recorded in a manifest"
  | .validate => utf8 "Validate an exticons manifest and check the icons on disk"

/-- What the help page of a command opens with. -/
def description : Command → Bytes
  | .main =>
      utf8 "exticons writes placeholder icons for a browser extension as SVG:
a solid accent square with a short bold label, one file per icon size.

Run without a subcommand to generate the default icon set into ./extension.
PNG conversion is left to external tools; the run prints instructions."
  | .completion =>
      utf8 "Generate the autocompletion script for exticons for the specified shell.
See each sub-command's help for details on how to use the generated script."
  | .script shell => utf8 shell.description
  | .generate =>
      utf8 "Renders every icon of the selected set and writes it next to its PNG
target, e.g. extension/icon48.png becomes extension/icon48.svg under --root.
Existing files are overwritten. The output directory must already exist.

Each icon is previewed as a truncated base64 data URL."
  | .help =>
      utf8 "Help provides help for any command in the application.
Simply type exticons help [path to command] for full details."
  | command => command.summary

/-- How a command is called. -/
def callLine (command : Command) : Bytes :=
  let operands :=
    match command with
    | .help => utf8 " [command]"
    | .stats => utf8 " <root_or_manifest>"
    | .validate => utf8 " <manifest_path>"
    | _ => []
  let flags := if command = .script .bash then [] else utf8 " [flags]"
  command.path ++ operands ++ flags

end Command

/-- What a flag does, on the page of a command. -/
def Flag.usage (command : Command) : Flag → Bytes
  | .help => utf8 "help for " ++ command.name
  | .manifest => utf8 "write " ++ Manifest.fileName ++ utf8 " into --root"
  | .noDescriptions => utf8 "disable completion descriptions"
  | .previewLength =>
      utf8 "base64 preview length (<= 0 = full) (default " ++
        Decimal.ofInt64 Preview.defaultLimit ++ utf8 ")"
  | .root =>
      utf8 "directory icon targets are resolved against (default " ++ quoted FilePath.here ++
        utf8 ")"
  | .set => utf8 "icon set to generate (default " ++ quoted IconSet.defaultName ++ utf8 ")"
  | .verbose => utf8 "verbose output"
  | .version => utf8 "version for " ++ command.name

/-- The left column of a flag: how it is given. -/
def Flag.form (flag : Flag) : Bytes :=
  let lead := if flag.letter?.isSome then utf8 "  " else utf8 "      "
  let value :=
    match flag.kind with
    | .switch => []
    | .text => utf8 " string"
    | .number => utf8 " int"
  lead ++ flag.title ++ value

/-- The flags of a page in columns, by increasing name. -/
def flagLines (command : Command) (flags : List Flag) : Bytes :=
  let sorted := flags.mergeSort fun a b => decide (a.name ≤ b.name)
  let width := (sorted.map (·.form.length)).foldl max 0
  sorted.flatMap fun flag =>
    utf8 "\n" ++ Column.left width flag.form ++ utf8 "   " ++ flag.usage command

/-- The page of a command. -/
def helpPage (command : Command) : Bytes :=
  let children := command.children
  let inherited := if command = .main then [] else [Flag.verbose]
  let shown := command.flags.filter (!inherited.contains ·)
  command.description ++ utf8 "\n\nUsage:" ++
    (if command.isRunnable then utf8 "\n  " ++ command.callLine else []) ++
    (if children.isEmpty then [] else
      utf8 "\n  " ++ command.path ++ utf8 " [command]" ++
        utf8 "\n\nAvailable Commands:" ++
        children.flatMap fun child =>
          utf8 "\n  " ++ Column.left 11 child.name ++ utf8 " " ++ child.summary) ++
    utf8 "\n\nFlags:" ++ flagLines command shown ++
    (if inherited.isEmpty then [] else
      utf8 "\n\nGlobal Flags:" ++ flagLines command inherited) ++
    (if children.isEmpty then [] else
      utf8 "\n\nUse \"" ++ command.path ++
        utf8 " [command] --help\" for more information about a command.") ++
    utf8 "\n"

end CommandLine

end PlaceholderIcons
