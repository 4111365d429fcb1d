import TailLint.CommandLine.Switch

/-!
# Usage and help texts
-/

namespace TailLint.CommandLine

/-- The version of the program. -/
def version : String := "0.1.0"

/-- What is printed on a request for the version. -/
def versionText : String := "returnlint " ++ version ++ "\n"

/-- Lines, each with a newline at its end. -/
def lines (texts : List String) : String := String.join (texts.map (· ++ "\n"))

/-- The usage of a scope. -/
def usage : Scope → String
  | none => lines ["usage: returnlint [-h] [--version] [-v] \x7blint,parse\x7d ..."]
  | some .lint => lines
    ["usage: returnlint lint [-h] [--config JSON]",
      "                       [--return-style \x7bimplicit,explicit\x7d]",
      "                       [--no-implicit-else] [--return-function NAME]",
      "                       [--except NAME] [-f \x7bgcc,json\x7d]",
      "                       FILE [FILE ...]"]
  | some .parse => lines ["usage: returnlint parse [-h] FILE"]

/-- The help text of a scope. -/
def help (scope : Scope) : String :=
  usage scope ++ (match scope with
    | none => lines
      ["",
        "Check terminal return style in function bodies.",
        "",
        "options:",
        "  -h, --help     show this help message and exit",
        "  --version      show program's version number and exit",
        "  -v, --verbose  Increase log verbosity (-v info, -vv debug).",
        "",
        "commands:",
        "  \x7blint,parse\x7d",
        "    lint         Lint S-expression tree files.",
        "    parse        Load a tree file and print it back."]
    | some .lint => lines
      ["",
        "positional arguments:",
        "  FILE                  Tree file(s).",
        "",
        "options:",
        "  -h, --help            show this help message and exit",
        "  --config JSON         JSON policy configuration file.",
        "  --return-style \x7bimplicit,explicit\x7d",
        "                        Return style to enforce (default: implicit).",
        "  --no-implicit-else    Require an else clause on terminal if statements.",
        "  --return-function NAME",
        "                        Extra callee accepted as an explicit exit",
        "                        (repeatable).",
        "  --except NAME         Function name that is never checked (repeatable).",
        "  -f \x7bgcc,json\x7d, --format \x7bgcc,json\x7d",
        "                        Diagnostic format (default: gcc)."]
    | some .parse => lines
      ["",
        "positional arguments:",
        "  FILE        Tree file.",
        "",
        "options:",
        "  -h, --help  show this help message and exit"])

/-- What is printed when a command line is refused. -/
def usageErrorText (scope : Scope) (cause : UsageError) : String :=
  usage scope ++ s!"{scope.program}: error: {cause.text}\n"

end TailLint.CommandLine
