import TailLint.CommandLine.Arguments
import TailLint.CommandLine.Help
import TailLint.Lint
import TailLint.Tree.Printer

/-!
# Runs of the program

A run is a function of the arguments and of what can be read from the disk.  It gives
back what is printed, the log, and how it ended: by returning an exit code, by leaving
early with one (help, version, faults in the arguments), or by a breakdown that nobody
catches.

The exit code of a command is 0 when there was nothing to report, 1 when there were
diagnostics, and 2 when the configuration or a file could not be loaded.  Files are
linted one after the other, and the first one that cannot be loaded ends the run; what
the files before it gave is already printed.
-/

namespace TailLint.CommandLine

/-- Nothing to report. -/
def exitClean : Nat := 0

/-- There were diagnostics. -/
def exitFindings : Nat := 1

/-- Something could not be loaded. -/
def exitFailure : Nat := 2

/-! ## Requests -/

/-- The arguments of the command that lints.  A configuration file without a name is the
same as none. -/
structure LintRequest where
  files : List String := []
  config : Option String := none
  style : Option Value := none
  noImplicitElse : Bool := false
  returnFunctions : List Value := []
  excepts : List Value := []
  format : Format := .compiler

namespace LintRequest

/-- The request after one more event.  Of several values for one switch the last counts,
except for names, which add up. -/
def add (r : LintRequest) : Event → LintRequest
  | .values files => { r with files }
  | .switch .config value => { r with config := value }
  | .switch .returnStyle value => { r with style := some value }
  | .switch .noImplicitElse _ => { r with noImplicitElse := true }
  | .switch .returnFunction value => { r with returnFunctions := r.returnFunctions ++ [value] }
  | .switch .except value => { r with excepts := r.excepts ++ [value] }
  | .switch .format value => { r with format := (value.bind Format.ofWord?).getD .compiler }
  | _ => r

/-- The request that events make. -/
def ofEvents (events : List Event) : LintRequest := events.foldl add {}

end LintRequest

/-- What the user wants. -/
inductive Request where
  | nothing
  | lint (request : LintRequest)
  | parse (file : String)

/-- The values among events. -/
def valuesIn (events : List Event) : List String :=
  events.flatMap fun
    | .values values => values
    | _ => []

/-- The extra arguments among events. -/
def extrasIn (events : List Event) : List String :=
  events.filterMap fun
    | .extra argument => some argument
    | _ => none

/-- How often more was asked for. -/
def verbosityIn (events : List Event) : Nat :=
  events.countP fun
    | .switch .verbose _ => true
    | _ => false

/-- Extra arguments are a fault of the program's scope, once everything else is right. -/
def withoutExtras {α : Type} (extras : List String) (result : α) : Except (Scope × Stop) α :=
  if extras.isEmpty then .ok result else .error (none, .refused (.unrecognized extras))

/-- The verbosity and the request of a command line; or the reason why there is none, and
the scope that says so. -/
def readRequest (arguments : List String) : Except (Scope × Stop) (Nat × Request) := do
  let own ← (readArguments none arguments).mapError (none, ·)
  let verbosity := verbosityIn own
  match valuesIn own with
  | [] => withoutExtras (extrasIn own) (verbosity, .nothing)
  | word :: rest =>
    match Command.ofWord? word with
    | none => .error (none, .refused (.badCommand word))
    | some command =>
      let scope : Scope := some command
      let events ← (readArguments scope rest).mapError (scope, ·)
      match valuesIn events with
      | [] => .error (scope, .refused .missingFile)
      | file :: _ =>
        withoutExtras (extrasIn own ++ extrasIn events) (verbosity,
          match command with
          | .lint => .lint (.ofEvents events)
          | .parse => .parse file)

/-! ## The policy of a request -/

/-- The value of a switch as a configuration has it: a text, or an empty array if there is
no value. -/
def Value.toJson : Value → Json
  | some text => .string text
  | none => .array []

/-- The configuration of a request: that of the policy from the file, if there is one,
with the switches put over it. -/
def mergedConfig (loaded : Option Policy) (r : LintRequest) : Json :=
  let members := (loaded.map Policy.toMembers).getD []
  let members := match r.style with
    | some style => Json.put "return_style" style.toJson members
    | none => members
  let members := if r.noImplicitElse
    then Json.put "allow_implicit_else" (.boolean false) members else members
  let withNames := fun (key : String) (names : List Value) (members : List (String × Json)) =>
    if names.isEmpty then members
    else
      let before := ((Json.lookup? key members).bind Settings.listed?).getD []
      Json.put key (.array (before ++ names.map Value.toJson)) members
  .object (withNames "except" r.excepts (withNames "return_functions" r.returnFunctions members))

/-- The policy from the configuration file of a request.  A file without a name is no
file. -/
def loadedPolicy (disk : Disk) (r : LintRequest) : Except (Fault PolicyError) (Option Policy) :=
  match r.config with
  | none | some "" => .ok none
  | some path => (Policy.parseFile disk path).map some

/-- The policy of a request. -/
def requestPolicy (disk : Disk) (r : LintRequest) : Except (Fault PolicyError) Policy := do
  let loaded ← loadedPolicy disk r
  Policy.ofConfig (mergedConfig loaded r)

/-! ## Commands -/

/-- How a run ended. -/
inductive Ending where
  /-- With an exit code. -/
  | returned (code : Nat)
  /-- With an exit code, before any command was run. -/
  | left (code : Nat)
  /-- By a breakdown. -/
  | broken (cause : Breakdown)
  deriving DecidableEq

/-- What a run printed, what it logged, and how it ended.  `notes` is what it printed
beside the log to the stream of the log. -/
structure Outcome where
  ending : Ending
  output : String := ""
  notes : String := ""
  log : List Log.Line := []
  verbosity : Nat := 0

namespace Outcome

/-- Everything on the stream of the log. -/
def errors (time : String) (o : Outcome) : String :=
  Log.render time o.verbosity o.log ++ o.notes

/-- The outcome with something printed and logged before it. -/
def after (output : String) (log : List Log.Line) (o : Outcome) : Outcome :=
  { o with output := output ++ o.output, log := log ++ o.log }

end Outcome

/-- The outcome of a fault: a refusal is logged, a breakdown is not. -/
def faultOutcome {ε : Type} (text : ε → String) : Fault ε → Outcome
  | .refused cause =>
    { ending := .returned exitFailure, log := [.error .program (text cause)] }
  | .broken cause => { ending := .broken cause }

/-- Diagnostics, one per line. -/
def printed (format : Format) (diagnostics : List Diagnostic) : String :=
  lines (diagnostics.map (match format with
    | .compiler => Diagnostic.compilerLine
    | .json => Diagnostic.jsonLine))

/-- The log of loading a tree from a file. -/
def loadedLog (path : String) : Log.Line :=
  .debug .loader ("Loaded tree from " ++ Path.normal path)

/-- Lints files in order; `total` diagnostics have been found before. -/
def lintFiles (disk : Disk) (policy : Policy) (format : Format) (total : Nat) :
    List String → Outcome
  | [] => { ending := .returned (if total = 0 then exitClean else exitFindings) }
  | path :: rest =>
    match Tree.parseFile disk path with
    | .error fault => faultOutcome LoadError.text fault
    | .ok tree =>
      let diagnostics := tree.lint policy path
      (lintFiles disk policy format (total + diagnostics.length) rest).after
        (printed format diagnostics) (loadedLog path :: tree.lintLog policy path)

/-- The log of loading a policy from a file. -/
def policyLog (disk : Disk) (r : LintRequest) : List Log.Line :=
  match r.config, loadedPolicy disk r with
  | some path, .ok (some policy) =>
    [.debug .policy
      s!"Loaded policy from {Path.normal path}: {policy.toConfig.display}"]
  | _, _ => []

/-- Runs the command that lints. -/
def runLint (disk : Disk) (r : LintRequest) : Outcome :=
  (match requestPolicy disk r with
    | .error fault => faultOutcome (fun e => "Invalid configuration: " ++ PolicyError.text e) fault
    | .ok policy =>
      (lintFiles disk policy r.format 0 r.files).after ""
        [.info .program s!"Linting {r.files.length} file(s) with {checkerText policy}"]).after
    "" (policyLog disk r)

/-- Runs the command that prints a tree back. -/
def runParse (disk : Disk) (path : String) : Outcome :=
  match Tree.parseFile disk path with
  | .error fault => faultOutcome LoadError.text fault
  | .ok tree =>
    { ending := .returned exitClean
      output := String.ofList (tree.print true {}) ++ "\n"
      log := [loadedLog path] }

/-! ## The program -/

/-- The outcome of a command line that stops early. -/
def stopOutcome (scope : Scope) : Stop → Outcome
  | .help => { ending := .left exitClean, output := help scope }
  | .version => { ending := .left exitClean, output := versionText }
  | .refused cause => { ending := .left exitFailure, notes := usageErrorText scope cause }

/-- A run of the program. -/
def run (disk : Disk) (arguments : List String) : Outcome :=
  match readRequest arguments with
  | .error (scope, stop) => stopOutcome scope stop
  | .ok (verbosity, request) =>
    let outcome : Outcome := match request with
      | .nothing => { ending := .returned exitFailure, notes := help none }
      | .lint r => runLint disk r
      | .parse file => runParse disk file
    { outcome with verbosity }

/-- The paths that a run may read. -/
def pathsRead (arguments : List String) : List String :=
  match readRequest arguments with
  | .ok (_, .lint r) => r.config.toList ++ r.files
  | .ok (_, .parse file) => [file]
  | _ => []

end TailLint.CommandLine
