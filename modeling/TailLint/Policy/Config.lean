import TailLint.Breakdown
import TailLint.Files
import TailLint.Notice
import TailLint.Policy.Basic

/-!
# Policies and configurations

A configuration is a JSON object with up to four entries.

    return_style          "implicit" (default) or "explicit"
    allow_implicit_else   true (default) or false
    return_functions      further calls that count as exits
    except                further functions that are never checked

The last two are arrays of names; an object stands for the array of its keys, and
`null` for no names at all.  Reading a configuration (`Policy.ofConfig`) reports the
first fault in a fixed order, and writing one (`Policy.toConfig`) leaves the fixed
names out, so that a policy and its configuration determine each other.

A refusal of an entry shows its value, or the items of it that are no names.  If these
hold an integer that cannot be written, there is no refusal but a breakdown.
-/

namespace TailLint

/-! ## Faults -/

/-- The two entries that hold names. -/
inductive NameEntry where
  | returnFunctions
  | except
  deriving DecidableEq

/-- The key of an entry. -/
def NameEntry.key : NameEntry → String
  | .returnFunctions => "return_functions"
  | .except => "except"

/-- The keys of a configuration, in increasing order. -/
def configKeys : List String :=
  ["allow_implicit_else", "except", "return_functions", "return_style"]

/-- Why a configuration is refused. -/
inductive PolicyError where
  | cannotRead (path : String) (cause : FileError)
  | notJson (path cause : String)
  | notMapping (value : Json)
  | unknownKeys (first : String) (others : List String)
  | badStyle (value : Json)
  | badFlag (value : Json)
  | notNames (entry : NameEntry) (value : Json)
  | badNames (entry : NameEntry) (bad : List Json) (value : Json)

namespace PolicyError

/-- What the user is told about a refused configuration. -/
def notice : PolicyError → Notice
  | .cannotRead path cause =>
    .policy s!"Cannot read policy file {path}: {cause.text}" none "None" ""
  | .notJson path cause =>
    .policy s!"Invalid JSON in policy file {path}: {cause}" none "None" ""
  | .notMapping value =>
    .policy s!"Policy configuration must be a mapping, got {value.kindWord}" none "None" ""
  | .unknownKeys first others =>
    .policy ("Unknown configuration key(s): " ++ ", ".intercalate (first :: others))
      (some first) "None" ("valid keys: " ++ ", ".intercalate configKeys)
  | .badStyle value =>
    .policy s!"Invalid return_style: {value.display}" (some "return_style") value.display
      ("expected one of: "
        ++ ", ".intercalate (ReturnStyle.all.map fun style => Text.quoted style.word))
  | .badFlag value =>
    .policy s!"allow_implicit_else must be a boolean, got {value.display}"
      (some "allow_implicit_else") value.display ""
  | .notNames entry value =>
    .policy s!"{entry.key} must be a list of function names, got {value.display}"
      (some entry.key) value.display ""
  | .badNames entry bad value =>
    .policy s!"{entry.key} must contain non-empty strings, got {(Json.array bad).display}"
      (some entry.key) value.display ""

/-- The offending entry, if there is one. -/
def key? (e : PolicyError) : Option String :=
  match e.notice with
  | .policy _ key _ _ => key
  | _ => none

/-- The whole text of a refusal. -/
def text (e : PolicyError) : String := e.notice.text

/-- Whether all integers that the message shows can be written. -/
def Writable : PolicyError → Prop
  | .badStyle value | .badFlag value | .notNames _ value => value.Short
  | .badNames _ bad _ => Json.ShortItems bad
  | _ => True

instance : (e : PolicyError) → Decidable e.Writable
  | .badStyle value | .badFlag value | .notNames _ value => inferInstanceAs (Decidable value.Short)
  | .badNames _ bad _ => inferInstanceAs (Decidable (Json.ShortItems bad))
  | .cannotRead .. | .notJson .. | .notMapping _ | .unknownKeys .. => .isTrue trivial

/-- The refusal of a configuration. -/
def refuse {α : Type} (e : PolicyError) : Except (Fault PolicyError) α :=
  .error (.ofRefusal e e.Writable)

@[simp] theorem refuse_ne_ok {α : Type} (e : PolicyError) (a : α) : e.refuse ≠ .ok a := nofun

end PolicyError

/-! ## Settings -/

/-- The four entries of a configuration as they are given, with what stands for each
when it is not. -/
structure Settings where
  style : Json := .string "implicit"
  allowImplicitElse : Json := .boolean true
  returnFunctions : Json := .null
  except : Json := .null

namespace Settings

/-- The return style that a value stands for. -/
def readStyle (value : Json) : Except (Fault PolicyError) ReturnStyle :=
  match value with
  | .string text =>
    match ReturnStyle.ofWord? text with
    | some style => .ok style
    | none => PolicyError.refuse (.badStyle value)
  | _ => PolicyError.refuse (.badStyle value)

/-- The truth value that a value is. -/
def readFlag (value : Json) : Except (Fault PolicyError) Bool :=
  match value with
  | .boolean flag => .ok flag
  | _ => PolicyError.refuse (.badFlag value)

/-- The candidates for names that a value lists, if it lists anything. -/
def listed? : Json → Option (List Json)
  | .null => some []
  | .array items => some items
  | .object members => some (members.map fun (key, _) => .string key)
  | _ => none

/-- The name that a value is: a string that is not empty. -/
def name? : Json → Option String
  | .string text => if text.isEmpty then none else some text
  | _ => none

/-- The set of names that a value lists. -/
def readNames (entry : NameEntry) (value : Json) : Except (Fault PolicyError) NameSet :=
  match listed? value with
  | none => PolicyError.refuse (.notNames entry value)
  | some items =>
    match items.filter fun item => (name? item).isNone with
    | [] => .ok (.ofList (items.filterMap name?))
    | bad => PolicyError.refuse (.badNames entry bad value)

/-- The settings among the members of an object. -/
def ofMembers (members : List (String × Json)) : Settings :=
  let default : Settings := {}
  { style := (Json.lookup? "return_style" members).getD default.style
    allowImplicitElse :=
      (Json.lookup? "allow_implicit_else" members).getD default.allowImplicitElse
    returnFunctions := (Json.lookup? "return_functions" members).getD default.returnFunctions
    except := (Json.lookup? "except" members).getD default.except }

end Settings

namespace Policy

/-! ## Reading -/

/-- The policy of some settings.  The flag is looked at after everything else. -/
def build (settings : Settings) : Except (Fault PolicyError) Policy := do
  let style ← Settings.readStyle settings.style
  let returns ← Settings.readNames .returnFunctions settings.returnFunctions
  let excepts ← Settings.readNames .except settings.except
  let flag ← Settings.readFlag settings.allowImplicitElse
  return .of style flag returns excepts

/-- The policy of some settings, with the flag looked at before the names. -/
def buildFlagFirst (settings : Settings) : Except (Fault PolicyError) Policy := do
  let style ← Settings.readStyle settings.style
  let flag ← Settings.readFlag settings.allowImplicitElse
  let returns ← Settings.readNames .returnFunctions settings.returnFunctions
  let excepts ← Settings.readNames .except settings.except
  return .of style flag returns excepts

/-- The keys of an object that no configuration has, in increasing order. -/
def unknownKeys (members : List (String × Json)) : List String :=
  (NameSet.ofList (members.map (·.1))).names.filter fun key => !configKeys.contains key

/-- The policy of a configuration. -/
def ofConfig (config : Json) : Except (Fault PolicyError) Policy :=
  match config with
  | .object members =>
    match unknownKeys members with
    | first :: others => PolicyError.refuse (.unknownKeys first others)
    | [] => build (Settings.ofMembers members)
  | value => PolicyError.refuse (.notMapping value)

/-! ## Writing -/

/-- The return functions that are not fixed, in increasing order. -/
def extraReturns (p : Policy) : List String := p.returnFunctions.without baseReturnFunctions

/-- The exempt functions that are not fixed, in increasing order. -/
def extraExcepts (p : Policy) : List String := p.exceptFunctions.without lifecycleHooks

/-- The members of the configuration of a policy. -/
def toMembers (p : Policy) : List (String × Json) :=
  [("return_style", .string p.style.word),
    ("allow_implicit_else", .boolean p.allowImplicitElse),
    ("return_functions", .array (p.extraReturns.map .string)),
    ("except", .array (p.extraExcepts.map .string))]

/-- The configuration of a policy. -/
def toConfig (p : Policy) : Json := .object p.toMembers

/-! ## Files -/

/-- The policy whose configuration a file holds.  Refusals name the file by its path in
normal form.  An integer with too many digits is no fault of the notation and is not
reported as one. -/
def parseFile (disk : Disk) (path : String) : Except (Fault PolicyError) Policy :=
  match disk.readText path with
  | .error (.unreadable cause) => .error (.refused (.cannotRead (Path.normal path) cause))
  | .error .nullInPath => .error (.broken .nullInPath)
  | .error (.undecodable cause) => .error (.broken (.undecodable cause))
  | .ok text =>
    match Json.parse text with
    | .error (.hugeInteger digits) => .error (.broken (.hugeInteger digits))
    | .error cause => .error (.refused (.notJson (Path.normal path) cause.text))
    | .ok config => ofConfig config

end Policy

end TailLint
