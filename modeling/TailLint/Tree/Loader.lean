import TailLint.Breakdown
import TailLint.Files
import TailLint.Form.Reader
import TailLint.Notice
import TailLint.Tree.Basic

/-!
# Loading trees from forms

A list whose head is one of the tags below is a node of a tree; every other form is a
leaf or is refused.

    (block statement ...)                 statements headed by `comment` are dropped
    (if condition [consequent [alternative]])
    (call name argument ...)
    (pipe source stage [operator])
    (function [name] (parameter ...) [body])
    (lambda (parameter ...) [body])
    (<- target value)                     likewise = <<- and, reversed, -> ->>
    (expr text operand ...)
    (at line column line column form)

Spans are inherited.  An `at` gives its span to the form inside, and every other form
takes the span of the nearest `at` around it.  Since an `at` must lie inside the one
around it, the span of a node contains the spans of all nodes below it as soon as
there is an `at` around it at all; the context remembers whether there is.

A function without a name of its own that is the value of an assignment to a leaf
takes the text of that leaf for its name, without the quotes around it.

All checks of one list come before its children are loaded, and the children are
loaded from left to right, so the first fault in reading order is the one reported.

A leaf holds the text of its number, and most refusals show the form or the span at fault.
Both have to be written, and an integer that is too long for that ends the loading
(`Breakdown.unwritableInteger`), whether the form is a tree or not.
-/

namespace TailLint

/-! ## Faults -/

/-- Why a form is no tree. -/
inductive LoadReason where
  | notAForm (cause : ReadError)
  | cannotRead (cause : FileError)
  | emptyList
  | expectedSymbol (found : Form)
  | expectedName (found : Form)
  | expectedInteger (found : Form)
  | expectedParameters (found : Form)
  | notLoadable (found : Form)
  | unknownTag (name : String)
  | argumentCount (name : String) (low : Nat) (high : Option Nat) (found : Nat)
  | endsBeforeStart (span : Span)
  | outsideParent (span parent : Span)
  | unknownOperator (operator : String)
  | noParameters
  | bodyCount (found : Nat)

namespace LoadReason

/-- How many arguments a form takes, in words. -/
def countText (low : Nat) : Option Nat → String
  | none => s!"at least {low}"
  | some high => if high = low then s!"{low}" else s!"{low} to {high}"

/-- The wording of each reason. -/
def text : LoadReason → String
  | .notAForm cause => "S-expression syntax error: " ++ cause.text
  | .cannotRead cause => "Cannot read tree file: " ++ cause.text
  | .emptyList => "Unexpected empty list"
  | .expectedSymbol found => s!"Expected symbol, got {found.kindWord}: {found.display}"
  | .expectedName found => s!"Expected name, got {found.kindWord}: {found.display}"
  | .expectedInteger found => s!"Expected integer, got {found.kindWord}: {found.display}"
  | .expectedParameters found => s!"Expected parameter list, got {found.display}"
  | .notLoadable found => s!"Cannot load {found.kindWord}: {found.display}"
  | .unknownTag name => s!"Unknown form: ({name} ...)"
  | .argumentCount name low high found =>
    s!"({name} ...) takes {countText low high} argument(s), got {found}"
  | .endsBeforeStart span => s!"Span ends before it starts: {span.text}"
  | .outsideParent span parent =>
    s!"Span {span.text} is not contained in parent span {parent.text}"
  | .unknownOperator operator => "Unknown pipe operator: " ++ Text.quoted operator
  | .noParameters => "(function ...) requires a parameter list"
  | .bodyCount found => s!"(function ...) takes one body form, got {found}"

/-- Whether all integers that the wording shows can be written. -/
def Writable : LoadReason → Prop
  | .expectedSymbol found | .expectedName found | .expectedInteger found
  | .expectedParameters found | .notLoadable found => found.Short
  | .endsBeforeStart span => span.Short
  | .outsideParent span parent => span.Short ∧ parent.Short
  | _ => True

instance : (reason : LoadReason) → Decidable reason.Writable
  | .expectedSymbol found | .expectedName found | .expectedInteger found
  | .expectedParameters found | .notLoadable found => inferInstanceAs (Decidable found.Short)
  | .endsBeforeStart span => inferInstanceAs (Decidable span.Short)
  | .outsideParent span parent => inferInstanceAs (Decidable (span.Short ∧ parent.Short))
  | .notAForm _ | .cannotRead _ | .emptyList | .unknownTag _ | .argumentCount ..
  | .unknownOperator _ | .noParameters | .bodyCount _ => .isTrue trivial

end LoadReason

/-- A refused form: why, which form, and in which file it stands. -/
structure LoadError where
  reason : LoadReason
  form : Form
  file : String

namespace LoadError

/-- What the user is told about a refused form. -/
def notice (e : LoadError) : Notice :=
  .tree e.reason.text (if e.form.isMissing then none else some e.form.display) e.file

/-- The whole text of a refusal. -/
def text (e : LoadError) : String := e.notice.text

end LoadError

/-! ## Tags -/

/-- What the symbol at the head of a list can stand for. -/
inductive Tag where
  | located
  | block
  | conditional
  | call
  | pipe
  | function
  | lambda
  | expr
  | assignment (arrow : Arrow)
  deriving DecidableEq

namespace Tag

/-- The tag that a symbol is. -/
def ofSymbol? (name : String) : Option Tag :=
  match name with
  | "at" => some .located
  | "block" => some .block
  | "if" => some .conditional
  | "call" => some .call
  | "pipe" => some .pipe
  | "function" => some .function
  | "lambda" => some .lambda
  | "expr" => some .expr
  | name => (Arrow.ofSymbol? name).map .assignment

/-- The least and, where there is one, the greatest number of arguments. -/
def arity : Tag → Nat × Option Nat
  | .located => (5, some 5)
  | .block => (0, none)
  | .conditional => (1, some 3)
  | .call => (1, none)
  | .pipe => (2, some 3)
  | .function => (1, some 3)
  | .lambda => (1, some 2)
  | .expr => (1, none)
  | .assignment _ => (2, some 2)

end Tag

/-- The operators of a pipe. -/
def pipeOperators : List String := ["%>%", "|>"]

/-! ## Contexts -/

/-- What the forms around a form decide: the file, the inherited span, and whether the
span comes from an `at`. -/
structure Context where
  file : String := "<string>"
  span : Span := {}
  spanned : Bool := false

namespace Context

/-- The refusal of a form. -/
def refuse {α : Type} (context : Context) (reason : LoadReason) (form : Form) :
    Except (Fault LoadError) α :=
  .error (.ofRefusal ⟨reason, form, context.file⟩ reason.Writable)

/-- The context inside an `at` with the given span. -/
def inside (context : Context) (span : Span) : Context :=
  { context with span, spanned := true }

/-- The name that a form is: a symbol, a string, or one of the numbers that are not
finite, whose spellings are names in the source language. -/
def name (context : Context) : Form → Except (Fault LoadError) String
  | .symbol name => .ok name
  | .string text => .ok text
  | .float value =>
    if value.isFinite then context.refuse (.expectedName (.float value)) (.float value)
    else .ok (Form.numberText value)
  | form => context.refuse (.expectedName form) form

/-- The names in a row of forms. -/
def names (context : Context) : List Form → Except (Fault LoadError) (List String)
  | [] => .ok []
  | form :: rest => do
    let name ← context.name form
    let names ← names context rest
    return name :: names

/-- The names in a parameter list. -/
def parameters (context : Context) : Form → Except (Fault LoadError) (List String)
  | .list forms => context.names forms
  | form => context.refuse (.expectedParameters form) form

/-- The integer that a form is. -/
def integer (context : Context) : Form → Except (Fault LoadError) Int
  | .integer value => .ok value
  | form => context.refuse (.expectedInteger form) form

/-- The span of an `at` with the given four numbers; `whole` is the `at` itself. -/
def readSpan (context : Context) (whole line₁ column₁ line₂ column₂ : Form) :
    Except (Fault LoadError) Span := do
  let line₁ ← context.integer line₁
  let column₁ ← context.integer column₁
  let line₂ ← context.integer line₂
  let column₂ ← context.integer column₂
  let span := Span.of line₁ column₁ line₂ column₂
  if ¬ span.WellPlaced then
    context.refuse (.endsBeforeStart span) whole
  else if context.spanned ∧ ¬ context.span.Contains span then
    context.refuse (.outsideParent span context.span) whole
  else
    return span

/-- The operator of a pipe that names one; `whole` is the pipe itself. -/
def operator (context : Context) (whole form : Form) : Except (Fault LoadError) String := do
  let operator ← context.name form
  if pipeOperators.contains operator then
    return operator
  else
    context.refuse (.unknownOperator operator) whole

end Context

namespace Tree

/-! ## Assigned functions -/

/-- A text without the double quotes and backticks at its two ends. -/
def unquoted (text : String) : String :=
  let isQuote := fun c : Char => c = '"' || c = '`'
  String.ofList ((text.toList.dropWhile isQuote).reverse.dropWhile isQuote).reverse

/-- The value of an assignment to a target: a function without a name takes that of a
leaf. -/
def named (target value : Tree) : Tree :=
  match value, target with
  | .function parameters body none isLambda span, .expr text [] _ =>
    .function parameters body (some (unquoted text)) isLambda span
  | value, _ => value

/-- The node of an assignment with the given two sides. -/
def assigned (arrow : Arrow) (left right : Tree) (span : Span) : Tree :=
  if arrow.pointsRight then .expr arrow.symbol [named right left, right] span
  else .expr arrow.symbol [left, named left right] span

/-! ## Loading -/

mutual

/-- The tree of a form. -/
def load (context : Context) : Form → Except (Fault LoadError) Tree
  | .symbol name => .ok (.expr name [] context.span)
  | .string text => .ok (.expr ("\"" ++ text ++ "\"") [] context.span)
  | .integer value =>
    match writtenInt value with
    | .ok text => .ok (.expr text [] context.span)
    | .error cause => .error (.broken cause)
  | .float value => .ok (.expr (Form.numberText value) [] context.span)
  | .list [] => context.refuse .emptyList (.list [])
  | .list (.symbol name :: arguments) =>
    match Tag.ofSymbol? name with
    | none => context.refuse (.unknownTag name) (.list (.symbol name :: arguments))
    | some .block => do
      let statements ← loadStatements context arguments
      return .block statements context.span
    | some tag => loadTagged context tag name arguments
  | .list (head :: _) => context.refuse (.expectedSymbol head) head
  | form => context.refuse (.notLoadable form) form

/-- The tree of a list that is headed by the symbol `name`, which is a tag other than
that of a block.  Whatever none of the shapes fits has the wrong number of
arguments. -/
def loadTagged (context : Context) (tag : Tag) (name : String) (arguments : List Form) :
    Except (Fault LoadError) Tree :=
  let whole := Form.list (.symbol name :: arguments)
  match tag, arguments with
  | .located, [line₁, column₁, line₂, column₂, form] => do
    let span ← context.readSpan whole line₁ column₁ line₂ column₂
    load (context.inside span) form
  | .conditional, [condition] => do
    let condition ← load context condition
    return .conditional condition .missing .missing context.span
  | .conditional, [condition, consequent] => do
    let condition ← load context condition
    let consequent ← load context consequent
    return .conditional condition consequent .missing context.span
  | .conditional, [condition, consequent, alternative] => do
    let condition ← load context condition
    let consequent ← load context consequent
    let alternative ← load context alternative
    return .conditional condition consequent alternative context.span
  | .call, callee :: arguments => do
    let callee ← context.name callee
    let arguments ← loadAll context arguments
    return .call callee arguments context.span
  | .pipe, [source, stage] => do
    let source ← load context source
    let stage ← load context stage
    return .pipe source stage "%>%" context.span
  | .pipe, [source, stage, operator] => do
    let operator ← context.operator whole operator
    let source ← load context source
    let stage ← load context stage
    return .pipe source stage operator context.span
  | .function, [.list parameters] => do
    let parameters ← context.names parameters
    return .function parameters .missing none false context.span
  | .function, [.list parameters, body] => do
    let parameters ← context.names parameters
    let body ← load context body
    return .function parameters body none false context.span
  | .function, [.list _, _, _] => context.refuse (.bodyCount 2) whole
  | .function, [name] => do
    let _ ← context.name name
    context.refuse .noParameters whole
  | .function, [name, parameters] => do
    let name ← context.name name
    let parameters ← context.parameters parameters
    return .function parameters .missing (some name) false context.span
  | .function, [name, parameters, body] => do
    let name ← context.name name
    let parameters ← context.parameters parameters
    let body ← load context body
    return .function parameters body (some name) false context.span
  | .lambda, [parameters] => do
    let parameters ← context.parameters parameters
    return .function parameters .missing none true context.span
  | .lambda, [parameters, body] => do
    let parameters ← context.parameters parameters
    let body ← load context body
    return .function parameters body none true context.span
  | .assignment arrow, [left, right] => do
    let left ← load context left
    let right ← load context right
    return assigned arrow left right context.span
  | .expr, text :: operands => do
    let text ← context.name text
    let operands ← loadAll context operands
    return .expr text operands context.span
  | tag, arguments =>
    context.refuse (.argumentCount name tag.arity.1 tag.arity.2 arguments.length) whole

/-- The trees of a row of forms. -/
def loadAll (context : Context) : List Form → Except (Fault LoadError) (List Tree)
  | [] => .ok []
  | form :: rest => do
    let tree ← load context form
    let trees ← loadAll context rest
    return tree :: trees

/-- The trees of the statements of a block, without the comments. -/
def loadStatements (context : Context) : List Form → Except (Fault LoadError) (List Tree)
  | [] => .ok []
  | form :: rest =>
    if form.isComment then loadStatements context rest
    else do
      let tree ← load context form
      let trees ← loadStatements context rest
      return tree :: trees

end

/-! ## Texts and files -/

/-- The tree that a text holds; `file` is named in refusals. -/
def parse (file text : String) : Except (Fault LoadError) Tree :=
  match Form.read text with
  | .error cause => .error (.refused ⟨.notAForm cause, .missing, file⟩)
  | .ok form => load { file } form

/-- The tree that a file holds.  Refusals name the file by its path in normal form. -/
def parseFile (disk : Disk) (path : String) : Except (Fault LoadError) Tree :=
  match disk.readText path with
  | .error (.unreadable cause) =>
    .error (.refused ⟨.cannotRead cause, .missing, Path.normal path⟩)
  | .error .nullInPath => .error (.broken .nullInPath)
  | .error (.undecodable cause) => .error (.broken (.undecodable cause))
  | .ok text => parse (Path.normal path) text

end Tree

end TailLint
