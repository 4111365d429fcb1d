import TailLint.CommandLine.Run

/-!
# The program on a real machine

Everything is decided by `CommandLine.run`.  What is left for this layer is to fetch the
files that the run may read, to print what it printed, and to leave with its exit code.
Times in the log count from the start of the run.
-/

namespace TailLint

/-- The reason why a file could not be read, in the terms of a `Disk`. -/
def fileErrorOf (path : String) : IO.Error → FileError
  | .noFileOrDirectory .. => .notFound path
  | .inappropriateType _ 21 _ => .isDirectory path
  | .inappropriateType .. => .notDirectory path
  | .permissionDenied .. => ⟨13, "Permission denied", path⟩
  | e => ⟨5, e.toString, path⟩

/-- Two digits of a clock. -/
def twoDigits (n : Nat) : String :=
  String.ofList [Text.digitChar (n / 10 % 10), Text.digitChar (n % 10)]

/-- A time of so many seconds, as log lines show it. -/
def clockText (seconds : Nat) : String :=
  s!"{twoDigits (seconds / 3600)}:{twoDigits (seconds / 60 % 60)}:{twoDigits (seconds % 60)}"

/-- The bytes behind a path, or why there are none. -/
def fetch (path : String) : IO (Except FileError (List UInt8)) := do
  let path := Path.normal path
  try
    return .ok (← IO.FS.readBinFile path).toList
  catch e =>
    return .error (fileErrorOf path e)

/-- What the paths of a run lead to. -/
def fetchAll (paths : List String) : IO Disk := do
  let found ← paths.mapM fun path => return (path, ← fetch path)
  return fun path => (found.lookup path).getD (.error (.notFound (Path.normal path)))

end TailLint

open TailLint in
/-- Runs the program. -/
def main (arguments : List String) : IO UInt32 := do
  let start ← IO.monoMsNow
  let disk ← fetchAll (CommandLine.pathsRead arguments)
  let outcome := CommandLine.run disk arguments
  let elapsed := ((← IO.monoMsNow) - start) / 1000
  IO.print outcome.output
  IO.eprint (outcome.errors (clockText elapsed))
  match outcome.ending with
  | .returned code | .left code => return code.toUInt32
  | .broken cause =>
    IO.eprintln cause.text
    return 1
