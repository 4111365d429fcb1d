import TailLint.Json.Writer
import TailLint.Span

/-!
# Findings, as they are reported

A diagnostic says what is wrong, where, how badly, in which file and in which function.
It is printed in one of two forms: the form that compilers use, with the place before
the message, and one JSON object per line.

The four things that the linter can find each have a stock message and a severity
(`Rule`).
-/

namespace TailLint

/-- How bad a finding is. -/
inductive Severity where
  | style
  | warning
  deriving DecidableEq

namespace Severity

/-- All severities. -/
def all : List Severity := [.style, .warning]

/-- The word for a severity. -/
def word : Severity → String
  | .style => "style"
  | .warning => "warning"

/-- The severity that a word stands for. -/
def ofWord? (text : String) : Option Severity := all.find? (·.word = text)

end Severity

/-- What the linter can find. -/
inductive Rule where
  /-- An explicit return under the implicit style. -/
  | explicitReturnNotNeeded
  /-- The same, as the last stage of a chain of pipes. -/
  | pipeReturn
  /-- No explicit exit under the explicit style. -/
  | explicitReturnMissing
  /-- A terminal `if` without an `else`. -/
  | implicitElse
  deriving DecidableEq

namespace Rule

/-- All rules, in their usual order. -/
def all : List Rule :=
  [.explicitReturnNotNeeded, .pipeReturn, .explicitReturnMissing, .implicitElse]

/-- The stable identifier of a rule. -/
def id : Rule → String
  | .explicitReturnNotNeeded => "explicitReturnNotNeeded"
  | .pipeReturn => "pipeReturn"
  | .explicitReturnMissing => "explicitReturnMissing"
  | .implicitElse => "implicitElse"

/-- The stock message of a rule. -/
def message : Rule → String
  | .explicitReturnNotNeeded =>
    "Use implicit return behavior; explicit return() is not needed."
  | .pipeReturn =>
    "Avoid return() as the final step of a pipeline; use implicit return behavior instead."
  | .explicitReturnMissing => "All functions must have an explicit return()."
  | .implicitElse =>
    "All functions with terminal if statements must have a corresponding terminal else clause."

/-- The severity of a rule. -/
def severity : Rule → Severity
  | .explicitReturnNotNeeded | .pipeReturn => .style
  | .explicitReturnMissing | .implicitElse => .warning

/-- The rule with an identifier. -/
def ofId? (text : String) : Option Rule := all.find? (·.id = text)

@[simp] theorem ofId?_id (rule : Rule) : ofId? rule.id = some rule := by
  cases rule <;> rfl

end Rule

/-- Where a finding belongs: a file and, if it has a name, a function. -/
structure Origin where
  file : String := ""
  function : Option String := none
  deriving DecidableEq

/-- A finding, ready to be reported. -/
structure Diagnostic where
  span : Span
  message : String
  severity : Severity
  errorId : String := ""
  file : String := ""
  function : Option String := none
  deriving DecidableEq

namespace Diagnostic

/-- The diagnostic of a rule at a place. -/
def ofRule (origin : Origin) (rule : Rule) (span : Span) : Diagnostic :=
  ⟨span, rule.message, rule.severity, rule.id, origin.file, origin.function⟩

/-- The members of the JSON object of a diagnostic, in their order. -/
def toMembers (d : Diagnostic) : List (String × Json) :=
  [("file", .string d.file),
    ("line", .integer d.span.start.line),
    ("column", .integer d.span.start.column),
    ("end_line", .integer d.span.stop.line),
    ("end_column", .integer d.span.stop.column),
    ("severity", .string d.severity.word),
    ("message", .string d.message),
    ("errorId", .string d.errorId),
    ("function", d.function.elim .null .string)]

/-- The JSON object of a diagnostic. -/
def toJson (d : Diagnostic) : Json := .object d.toMembers

/-- The diagnostic as one line of JSON. -/
def jsonLine (d : Diagnostic) : String := d.toJson.render

/-- The diagnostic as compilers print theirs; a text that comes from no file is named
as such. -/
def compilerLine (d : Diagnostic) : String :=
  let file := if d.file.isEmpty then "<string>" else d.file
  s!"{file}:{d.span.start.line}:{d.span.start.column}: {d.severity.word}: {d.message}"
    ++ (if d.errorId.isEmpty then "" else s!" [{d.errorId}]")

end Diagnostic

end TailLint
