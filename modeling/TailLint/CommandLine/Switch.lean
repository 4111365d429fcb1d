import TailLint.Policy.Basic
import TailLint.Text.Quoted

/-!
# Commands and switches

The program has two commands, and three sets of switches: its own and those of each
command.  A set of switches belongs to a `Scope`, which is the program itself or a
command.  The order of switches and of their names is the order in which messages list
them.
-/

namespace TailLint.CommandLine

/-- The commands of the program. -/
inductive Command where
  | lint
  | parse
  deriving DecidableEq

namespace Command

/-- All commands. -/
def all : List Command := [.lint, .parse]

/-- The word for a command. -/
def word : Command → String
  | .lint => "lint"
  | .parse => "parse"

/-- The command that a word stands for. -/
def ofWord? (text : String) : Option Command := all.find? (·.word = text)

end Command

/-- The two formats of diagnostics. -/
inductive Format where
  | compiler
  | json
  deriving DecidableEq

namespace Format

/-- All formats. -/
def all : List Format := [.compiler, .json]

/-- The word for a format. -/
def word : Format → String
  | .compiler => "gcc"
  | .json => "json"

/-- The format that a word stands for. -/
def ofWord? (text : String) : Option Format := all.find? (·.word = text)

end Format

/-- The switches of the program and its commands. -/
inductive Switch where
  | help
  | version
  | verbose
  | config
  | returnStyle
  | noImplicitElse
  | returnFunction
  | except
  | format
  deriving DecidableEq

namespace Switch

/-- The names of a switch, the short one first. -/
def names : Switch → List String
  | .help => ["-h", "--help"]
  | .version => ["--version"]
  | .verbose => ["-v", "--verbose"]
  | .config => ["--config"]
  | .returnStyle => ["--return-style"]
  | .noImplicitElse => ["--no-implicit-else"]
  | .returnFunction => ["--return-function"]
  | .except => ["--except"]
  | .format => ["-f", "--format"]

/-- All names of a switch, as messages give them. -/
def title (s : Switch) : String := "/".intercalate s.names

/-- Whether a value comes with the switch. -/
def takesValue : Switch → Bool
  | .help | .version | .verbose | .noImplicitElse => false
  | .config | .returnStyle | .returnFunction | .except | .format => true

/-- The values that a switch accepts, if not all. -/
def choices? : Switch → Option (List String)
  | .returnStyle => some (ReturnStyle.all.map ReturnStyle.word)
  | .format => some (Format.all.map Format.word)
  | _ => none

end Switch

/-- Whose switches are meant: those of a command, or those of the program itself. -/
abbrev Scope := Option Command

namespace Scope

/-- The switches of a scope, in order. -/
def switches : Scope → List Switch
  | none => [.help, .version, .verbose]
  | some .lint =>
    [.help, .config, .returnStyle, .noImplicitElse, .returnFunction, .except, .format]
  | some .parse => [.help]

/-- The names of all switches of a scope, in order, each with its switch. -/
def named (scope : Scope) : List (String × Switch) :=
  (switches scope).flatMap fun s => s.names.map (·, s)

/-- The switch with a name. -/
def switch? (scope : Scope) (name : String) : Option Switch :=
  ((named scope).find? (·.1 = name)).map (·.2)

/-- What the program is called in the messages of a scope. -/
def program : Scope → String
  | none => "returnlint"
  | some command => "returnlint " ++ command.word

end Scope

/-! ## Faults in the use of the program -/

/-- Why a command line is refused. -/
inductive UsageError where
  | ambiguous (argument : String) (candidates : List String)
  | ignoredValue (switch : Switch) (value : String)
  | missingValue (switch : Switch)
  | badChoice (switch : Switch) (value : String) (choices : List String)
  | badCommand (word : String)
  | missingFile
  | unrecognized (arguments : List String)

namespace UsageError

/-- A list of accepted values. -/
def choicesText (choices : List String) : String :=
  ", ".intercalate (choices.map Text.quoted)

/-- The wording of a refusal. -/
def text : UsageError → String
  | .ambiguous argument candidates =>
    s!"ambiguous option: {argument} could match " ++ ", ".intercalate candidates
  | .ignoredValue switch value =>
    s!"argument {switch.title}: ignored explicit argument " ++ Text.quoted value
  | .missingValue switch => s!"argument {switch.title}: expected one argument"
  | .badChoice switch value choices =>
    s!"argument {switch.title}: invalid choice: " ++ Text.quoted value
      ++ s!" (choose from {choicesText choices})"
  | .badCommand word =>
    let commands := Command.all.map Command.word
    "argument \x7b" ++ ",".intercalate commands ++ "\x7d: invalid choice: " ++ Text.quoted word
      ++ s!" (choose from {choicesText commands})"
  | .missingFile => "the following arguments are required: FILE"
  | .unrecognized arguments => "unrecognized arguments: " ++ " ".intercalate arguments

end UsageError

end TailLint.CommandLine
