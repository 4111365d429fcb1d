/-!
# The log

What a run does is told in lines of three levels.  How many of them reach the user
depends on how often the user asked for more: errors always do, progress on the first
request, everything on the second.

The clock is no business of the linter.  A line is rendered with whatever time the
outer layer puts in front of it.
-/

namespace TailLint.Log

/-- The levels of log lines, the least urgent first. -/
inductive Level where
  | debug
  | info
  | error
  deriving DecidableEq

namespace Level

/-- The name of a level, five characters wide. -/
def name : Level → String
  | .debug => "DEBUG"
  | .info => "INFO "
  | .error => "ERROR"

/-- Whether lines of a level are shown after so many requests for more. -/
def isShown (level : Level) (verbosity : Nat) : Bool :=
  match level with
  | .error => true
  | .info => 1 ≤ verbosity
  | .debug => 2 ≤ verbosity

end Level

/-- The parts of the program that write to the log. -/
inductive Channel where
  | program
  | loader
  | policy
  | terminals
  | linter
  deriving DecidableEq

/-- The name of a part in the log. -/
def Channel.name : Channel → String
  | .program => "returnlint"
  | .loader => "returnlint.parser"
  | .policy => "returnlint.policy"
  | .terminals => "returnlint.terminals"
  | .linter => "returnlint.linter"

/-- A line of the log: its level, the part of the program it comes from, and its
text. -/
structure Line where
  level : Level
  channel : Channel
  message : String
  deriving DecidableEq

namespace Line

/-- A line that tells every detail. -/
def debug (channel : Channel) (message : String) : Line := ⟨.debug, channel, message⟩

/-- A line that tells progress. -/
def info (channel : Channel) (message : String) : Line := ⟨.info, channel, message⟩

/-- A line that tells a failure. -/
def error (channel : Channel) (message : String) : Line := ⟨.error, channel, message⟩

/-- The rendered line. -/
def render (time : String) (line : Line) : String :=
  s!"{time} [{line.level.name}] {line.channel.name}: {line.message}\n"

end Line

/-- The rendered log, without the lines that nobody asked for. -/
def render (time : String) (verbosity : Nat) (lines : List Line) : String :=
  String.join ((lines.filter (·.level.isShown verbosity)).map (Line.render time))

end TailLint.Log
