import TailLint.Text.Newline
import TailLint.Text.Utf8

/-!
# Files

What the linter needs of a file system is small: given a path, the bytes behind it or
the reason why there are none (`Disk`).  A listing of files in memory is one such
thing (`Files.disk`); the command line builds another one from what it finds on the
machine.

Messages show paths in a normal form, in which dots and doubled slashes are gone and
steps to the parent directory stay (`Path.normal`).
-/

namespace TailLint

/-! ## Paths -/

namespace Path

/-- The steps of a path: what stands between its slashes, without the empty steps and
the steps that stay where they are. -/
def steps (path : String) : List String :=
  (path.splitOn "/").filter fun step => !(step = "" || step = ".")

/-- What an absolute path starts with.  Two slashes, and no more than two, are kept. -/
def root (path : String) : String :=
  match (path.toList.takeWhile (· = '/')).length with
  | 0 => ""
  | 2 => "//"
  | _ => "/"

/-- The normal form of a path.  A path without steps is the directory it starts
from. -/
def normal (path : String) : String :=
  match root path ++ "/".intercalate (steps path) with
  | "" => "."
  | text => text

end Path

/-! ## Reading -/

/-- Why there are no bytes behind a path: the number and the wording of the cause, and
the path in its normal form. -/
structure FileError where
  code : Nat
  reason : String
  path : String
  deriving DecidableEq

namespace FileError

/-- Nothing has this name. -/
def notFound (path : String) : FileError := ⟨2, "No such file or directory", path⟩

/-- A step of the path leads through something that is no directory. -/
def notDirectory (path : String) : FileError := ⟨20, "Not a directory", path⟩

/-- The path leads to a directory. -/
def isDirectory (path : String) : FileError := ⟨21, "Is a directory", path⟩

/-- The path or a step of it is longer than names can be. -/
def nameTooLong (path : String) : FileError := ⟨36, "File name too long", path⟩

/-- The wording of an error. -/
def text (e : FileError) : String :=
  s!"[Errno {e.code}] {e.reason}: " ++ Text.quoted e.path

end FileError

/-- The bytes behind each path, or the reason why there are none. -/
abbrev Disk := String → Except FileError (List UInt8)

/-- Why there is no text behind a path. -/
inductive TextError where
  /-- The path holds the character that ends names, so no file can be asked for. -/
  | nullInPath
  | unreadable (cause : FileError)
  | undecodable (cause : Text.Utf8.DecodeError)
  deriving DecidableEq

/-- The text behind a path, with newlines as its only line ends. -/
def Disk.readText (disk : Disk) (path : String) : Except TextError String :=
  if path.toList.contains '\x00' then
    .error .nullInPath
  else
    match disk path with
    | .error cause => .error (.unreadable cause)
    | .ok bytes =>
      match Text.Utf8.decode bytes with
      | .error cause => .error (.undecodable cause)
      | .ok chars => .ok (String.ofList (Text.normalNewlines chars))

/-! ## Listings in memory -/

/-- What a path of a listing leads to. -/
inductive Entry where
  | file (bytes : List UInt8)
  | directory
  deriving DecidableEq

/-- A listing: paths, as lists of steps, and what they lead to. -/
structure Files where
  entries : List (List String × Entry) := []

namespace Files

/-- A listing from paths as texts. -/
def ofList (entries : List (String × Entry)) : Files :=
  ⟨entries.map fun (path, entry) => (Path.steps path, entry)⟩

/-- What stands at a place of the listing.  Every directory on the way to an entry is
there too. -/
def entry? (files : Files) (place : List String) : Option Entry :=
  match files.entries.find? (·.1 = place) with
  | some (_, entry) => some entry
  | none => if files.entries.any fun (path, _) => place.isPrefixOf path then some .directory else none

/-- The most bytes that one step of a path may have. -/
def maxStepBytes : Nat := 255

/-- The most bytes that a whole path may have. -/
def maxPathBytes : Nat := 4095

/-- Follows steps from a directory of the listing, or from outside of it, where there
is nothing but directories without a name. -/
def follow (files : Files) (path : String) :
    Option (List String) → List String → Except FileError (List UInt8)
  | _, [] => .error (.isDirectory path)
  | none, step :: rest =>
    if step = ".." then follow files path none rest
    else if maxStepBytes < step.utf8ByteSize then .error (.nameTooLong path)
    else .error (.notFound path)
  | some here, step :: rest =>
    if step = ".." then
      follow files path (if here.isEmpty then none else some here.dropLast) rest
    else if maxStepBytes < step.utf8ByteSize then
      .error (.nameTooLong path)
    else
      match files.entry? (here ++ [step]) with
      | none => .error (.notFound path)
      | some .directory => follow files path (some (here ++ [step])) rest
      | some (.file bytes) => if rest.isEmpty then .ok bytes else .error (.notDirectory path)

/-- A listing as something to read from. -/
def disk (files : Files) : Disk := fun path =>
  let shown := Path.normal path
  if maxPathBytes < shown.utf8ByteSize then .error (.nameTooLong shown)
  else files.follow shown (if Path.root path = "" then some [] else none) (Path.steps path)

end Files

end TailLint
