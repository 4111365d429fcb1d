import TailLint.CommandLine.Switch
import TailLint.Text.DecimalDigit

/-!
# Reading the arguments of a scope

The arguments are read in two passes.  The first marks each of them as a switch, a value
or the separator `--`, after which everything is a value (`mark`).  A long name may be
cut short as long as it stays unique; short names may be written together in one
argument; a text may be attached to a name, directly or after an equals sign.  What starts
with a dash and is no switch is still marked as one unless it has the look of a negative
number or holds a space.

The second pass goes through the marked arguments from left to right and turns them into
events (`events`).  The files of a command are the first group of values in a row; the
command of the program is the first value, and everything after it is its own affair.
Arguments that fit nowhere are kept as extra ones.  A request for help or for the version
ends the reading as soon as it is met, and so does the first fault.
-/

namespace TailLint.CommandLine

/-! ## Marking -/

/-- A switch in an argument, and the text attached to it if there is one.  There may be no
switch of that name; `isShort` says whether it has a single dash. -/
structure Occurrence where
  switch? : Option Switch
  isShort : Bool := false
  attached? : Option (List Char) := none

/-- What an argument is. -/
inductive Mark where
  | value
  | separator
  | switch (occurrence : Occurrence)

/-- An argument and what it is. -/
abbrev Item := String × Mark

/-- The text before the first equals sign, and the text after it if there is one. -/
def splitEquals (argument : List Char) : List Char × Option (List Char) :=
  match argument.span (· ≠ '=') with
  | (name, '=' :: value) => (name, some value)
  | (name, _) => (name, none)

/-- Whether a text is a dash and a number: digits, or digits around a point with at least
one digit after it.  A newline at the end is overlooked. -/
def looksNegative : List Char → Bool
  | '-' :: body =>
    let isDigit := fun c : Char => (Text.digitValue? c).isSome
    let body := if body.getLast? = some '\n' then body.dropLast else body
    match body.span isDigit with
    | (whole, []) => !whole.isEmpty
    | (_, '.' :: fraction) => !fraction.isEmpty && fraction.all isDigit
    | _ => false
  | _ => false

/-- The switches whose long name starts with the given one. -/
def byLongName (scope : Scope) (name : List Char) : List (String × Switch) :=
  scope.named.filter fun (full, _) => name.isPrefixOf full.toList

/-- The switch with a short name of one letter. -/
def byLetter? (scope : Scope) (letter : Char) : Option Switch :=
  scope.switch? (String.ofList ['-', letter])

/-- Whether a name has one dash and not two. -/
def hasShortName (name : List Char) : Bool :=
  match name with
  | '-' :: '-' :: _ => false
  | _ => true

/-- The switch in an argument that starts with a dash and is longer than that, and that
is not the exact name of a switch.  Nothing if the argument is a value. -/
def occurrence? (scope : Scope) (argument : String) : Except UsageError (Option Occurrence) :=
  let chars := argument.toList
  let (name, attached?) := splitEquals chars
  match attached?, scope.switch? (String.ofList name) with
  | some _, some switch => .ok (some ⟨some switch, hasShortName name, attached?⟩)
  | _, _ =>
    let unknown :=
      if looksNegative chars || chars.contains ' ' then none else some ⟨none, false, none⟩
    match chars with
    | '-' :: '-' :: _ =>
      match byLongName scope name with
      | [] => .ok unknown
      | [(_, switch)] => .ok (some ⟨some switch, false, attached?⟩)
      | candidates => .error (.ambiguous argument (candidates.map (·.1)))
    | '-' :: letter :: value =>
      match byLetter? scope letter with
      | none => .ok unknown
      | some switch => .ok (some ⟨some switch, true, some value⟩)
    | _ => .ok unknown

/-- What an argument other than the separator is. -/
def markOne (scope : Scope) (argument : String) : Except UsageError Mark :=
  match argument.toList with
  | '-' :: _ :: _ =>
    match scope.switch? argument with
    | some switch => .ok (.switch ⟨some switch, hasShortName argument.toList, none⟩)
    | none =>
      match occurrence? scope argument with
      | .error e => .error e
      | .ok none => .ok .value
      | .ok (some occurrence) => .ok (.switch occurrence)
  | _ => .ok .value

/-- The arguments with their marks. -/
def mark (scope : Scope) : List String → Except UsageError (List Item)
  | [] => .ok []
  | argument :: rest =>
    if argument = "--" then
      .ok ((argument, .separator) :: rest.map (·, .value))
    else
      match markOne scope argument with
      | .error e => .error e
      | .ok found => (mark scope rest).map ((argument, found) :: ·)

/-! ## Events -/

/-- The value that comes with a switch.  There is none if the switch takes none, and if the
text attached to the switch is the separator, which is never a value. -/
abbrev Value := Option String

/-- The value in a text that is attached to a switch. -/
def Value.ofAttached (text : List Char) : Value :=
  if text = ['-', '-'] then none else some (String.ofList text)

/-- What the arguments say. -/
inductive Event where
  | switch (switch : Switch) (value : Value)
  | values (values : List String)
  | extra (argument : String)

/-- Why the reading of arguments ended before their end. -/
inductive Stop where
  | refused (cause : UsageError)
  | help
  | version

/-- Whether an argument is marked as a switch. -/
def isSwitch : Item → Bool
  | (_, .switch _) => true
  | _ => false

/-- Whether an argument is marked as a value. -/
def isValue : Item → Bool
  | (_, .value) => true
  | _ => false

/-- Whether an argument is the separator. -/
def isSeparator : Item → Bool
  | (_, .separator) => true
  | _ => false

/-- How many of the arguments, from the first one on, are the values that a scope waits
for: the command and everything after it, a row of files, or one file.  Separators around
values are part of the row. -/
def valueCount (scope : Scope) (items : List Item) : Nat :=
  let leading := (items.takeWhile isSeparator).length
  match items.drop leading with
  | [] => 0
  | first :: rest =>
    if isValue first then
      leading + 1 + (match scope with
        | none => rest.length
        | some .lint => (rest.takeWhile (!isSwitch ·)).length
        | some .parse => (rest.takeWhile isSeparator).length)
    else
      0

/-- The event of a row of values.  The first separator is no value of a command. -/
def valuesEvent (scope : Scope) (items : List Item) : Event :=
  let values := items.map (·.1)
  match scope with
  | none => .values values
  | some _ => .values (values.erase "--")

/-- A switch without an attached value; its value is the next argument.  The number says
how many arguments after the switch were used. -/
def bare (switch : Switch) (rest : List Item) : Except UsageError (Event × Nat) :=
  if switch.takesValue then
    match rest with
    | (value, .value) :: _ => .ok (.switch switch (some value), 1)
    | _ => .error (.missingValue switch)
  else
    .ok (.switch switch none, 0)

/-- A switch with an attached text.  If the switch takes no value, the text has to be the
letters of further short switches, the last of which may have a value attached in turn or
take the next argument. -/
def attachedEvents (scope : Scope) (rest : List Item) (switch : Switch) (isShort : Bool) :
    List Char → Except UsageError (List Event × Nat)
  | [] =>
    if switch.takesValue then .ok ([.switch switch (.ofAttached [])], 0)
    else .error (.ignoredValue switch "")
  | letter :: more =>
    if switch.takesValue then .ok ([.switch switch (.ofAttached (letter :: more))], 0)
    else
      match if isShort then byLetter? scope letter else none with
      | none => .error (.ignoredValue switch (String.ofList (letter :: more)))
      | some next =>
        let later :=
          if more.isEmpty then (bare next rest).map fun (event, used) => ([event], used)
          else attachedEvents scope rest next true more
        later.map fun (events, used) => (.switch switch none :: events, used)

/-- The events of one argument that is marked as a switch. -/
def switchEvents (scope : Scope) (argument : String) (occurrence : Occurrence)
    (rest : List Item) : Except UsageError (List Event × Nat) :=
  match occurrence.switch? with
  | none => .ok ([.extra argument], 0)
  | some switch =>
    match occurrence.attached? with
    | none => (bare switch rest).map fun (event, used) => ([event], used)
    | some text => attachedEvents scope rest switch occurrence.isShort text

/-- Acts on events in order: a request for help or for the version ends the reading, and so
does a value that its switch does not accept. -/
def act : List Event → Except Stop Unit
  | [] => .ok ()
  | .switch .help _ :: _ => .error .help
  | .switch .version _ :: _ => .error .version
  | .switch switch value :: rest =>
    match switch.choices?, value with
    | some choices, some text =>
      if choices.contains text then act rest
      else .error (.refused (.badChoice switch text choices))
    | _, _ => act rest
  | _ :: rest => act rest

/-- The events of marked arguments.  `waiting` says whether the values of the scope are
still to come. -/
def events (scope : Scope) (waiting : Bool) (items : List Item) : Except Stop (List Event) :=
  match items with
  | [] => .ok []
  | (argument, found) :: rest =>
    match found with
    | .switch occurrence => do
      let (now, used) ← (switchEvents scope argument occurrence rest).mapError .refused
      act now
      let later ← events scope waiting (rest.drop used)
      return now ++ later
    | _ =>
      match (if waiting then valueCount scope ((argument, found) :: rest) else 0) with
      | 0 => (events scope waiting rest).map (.extra argument :: ·)
      | count + 1 =>
        (events scope false (rest.drop count)).map
          (valuesEvent scope ((argument, found) :: rest.take count) :: ·)
termination_by items.length
decreasing_by all_goals simp only [List.length_drop, List.length_cons]; omega

/-- The events of the arguments of a scope. -/
def readArguments (scope : Scope) (arguments : List String) : Except Stop (List Event) :=
  match mark scope arguments with
  | .error e => .error (.refused e)
  | .ok items => events scope true items

end TailLint.CommandLine
