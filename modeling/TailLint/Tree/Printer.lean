import TailLint.Tree.Basic
import TailLint.Text.DecimalDigit

/-!
# Printing trees

A tree is printed in the notation in which tree files are written.  Two things are
left out because reading puts them back: the span of a node that has the span of its
parent, and the name of a function that is an operand of an assignment, which takes
its name from the target.

A name is written bare unless it is empty or holds a character that would end it
(`needsQuotes`).  The text of a leaf that starts with a double quote is already a
string literal and is written as it is.  The numbers of a span are written in digits,
of which a span that was read from a text never has too many (`Span.Short`).

`Tree.print` is total.  What it writes for a value that is no node is of no interest,
because `Tree.unprintable?` finds the first such value that printing would reach, and
`Tree.unparse` refuses the tree for it.
-/

namespace TailLint.Tree

/-- Whether a name has to be written between quotes. -/
def needsQuotes (name : List Char) : Bool :=
  name.isEmpty || name.any fun c => [' ', '(', ')', '"', '\'', '[', ']', ';'].contains c

/-- A name between quotes: a backslash before each backslash and each quote. -/
def quoteName (name : List Char) : List Char :=
  '"' :: name.flatMap (fun c => if c = '\\' || c = '"' then ['\\', c] else [c]) ++ ['"']

/-- A name as it is written. -/
def printName (name : String) : List Char :=
  if needsQuotes name.toList then quoteName name.toList else name.toList

/-- Names with a space between each two. -/
def printNames : List String → List Char
  | [] => []
  | [name] => printName name
  | name :: rest => printName name ++ ' ' :: printNames rest

/-- The four numbers of a span, with a space between each two. -/
def printSpan (span : Span) : List Char :=
  Text.intText span.start.line ++ ' ' :: Text.intText span.start.column
    ++ ' ' :: Text.intText span.stop.line ++ ' ' :: Text.intText span.stop.column

/-- The text of a node with its span, which is left out if it is the outer one. -/
def located (outer span : Span) (body : List Char) : List Char :=
  if span = outer then body else "(at ".toList ++ printSpan span ++ ' ' :: body ++ [')']

/-- The text of an expression without operands. -/
def printLeaf (text : String) : List Char :=
  if text.toList.head? = some '"' then text.toList else printName text

/-- The operator at the end of a pipe; the usual one is left out. -/
def printOperator (operator : String) : List Char :=
  if operator = "%>%" then [] else ' ' :: '"' :: operator.toList ++ ['"']

/-- The head of a function; `named` says whether its name is written. -/
def functionHead (named : Bool) (name : Option String) (isLambda : Bool) : List Char :=
  if isLambda then "(lambda".toList
  else
    match named, name with
    | true, some name => "(function ".toList ++ printName name
    | _, _ => "(function".toList

mutual

/-- The text of a tree inside a node with the span `outer`.  `named` says whether a
function at the root of the tree writes its name. -/
def print (named : Bool) (outer : Span) : Tree → List Char
  | .missing | .foreign _ => []
  | .block statements span =>
    located outer span ("(block".toList ++ printAll true span statements ++ [')'])
  | .conditional condition consequent alternative span =>
    located outer span ("(if ".toList
      ++ (if condition.isMissing then "TRUE".toList else print true span condition)
      ++ (if consequent.isMissing then []
        else ' ' :: print true span consequent
          ++ (if alternative.isMissing then [] else ' ' :: print true span alternative))
      ++ [')'])
  | .call callee arguments span =>
    located outer span
      ("(call ".toList ++ printName callee ++ printAll true span arguments ++ [')'])
  | .pipe source stage operator span =>
    located outer span ("(pipe ".toList ++ print true span source ++ ' ' :: print true span stage
      ++ printOperator operator ++ [')'])
  | .expr text operands span =>
    located outer span
      (if (assignment? (.expr text operands span)).isSome then
        '(' :: text.toList ++ printAll false span operands ++ [')']
      else if operands.isEmpty then printLeaf text
      else "(expr ".toList ++ printName text ++ printAll true span operands ++ [')'])
  | .function parameters body name isLambda span =>
    located outer span (functionHead named name isLambda ++ " (".toList ++ printNames parameters
      ++ ')' :: (if body.isMissing then [] else ' ' :: print true span body) ++ [')'])

/-- The texts of a row of trees, each after a space. -/
def printAll (named : Bool) (outer : Span) : List Tree → List Char
  | [] => []
  | t :: rest => ' ' :: print named outer t ++ printAll named outer rest

end

mutual

/-- The first value that is no node and that printing would reach.  The alternative
of a conditional without a consequent is not printed. -/
def unprintable? : Tree → Option Foreign
  | .missing => none
  | .foreign value => some value
  | .block statements _ => unprintableAll? statements
  | .conditional condition consequent alternative _ =>
    (unprintable? condition).or ((unprintable? consequent).or
      (if consequent.isMissing then none else unprintable? alternative))
  | .call _ arguments _ => unprintableAll? arguments
  | .pipe source stage _ _ => (unprintable? source).or (unprintable? stage)
  | .expr _ operands _ => unprintableAll? operands
  | .function _ body _ _ _ => unprintable? body

/-- The first such value in a row of trees. -/
def unprintableAll? : List Tree → Option Foreign
  | [] => none
  | t :: rest => (unprintable? t).or (unprintableAll? rest)

end

/-- The text of a tree inside a node with the span `outer`, or the value in it that
cannot be written. -/
def unparse (outer : Span) (t : Tree) : Except Foreign String :=
  match unprintable? t with
  | some value => .error value
  | none => .ok (String.ofList (print true outer t))

end TailLint.Tree
