import TailLint.Span

/-!
# Syntax trees of function bodies

The tree of a function body has six kinds of nodes.  A tree need not be well formed:
in the place of any child there may be nothing at all (`Tree.missing`) or a value that
is no node (`Tree.foreign`), and every operation on trees has an answer for those
too.  An absent branch of a conditional and an absent function body are missing
children; there is no second way to say that something is not there.

An expression node carries a text --- a symbol, a constant or an operator --- and
operands.  It is an assignment when its text is one of the five arrows and it has
exactly two operands (`Tree.assignment?`); two of the arrows point to the right, and
then the value stands before the target.

`Tree.children` lists the children that a traversal visits.  It leaves out the absent
branches of a conditional and the absent body of a function, and keeps missing nodes
everywhere else, where they are holes in a list of things that ought to be there.
-/

namespace TailLint

/-- A value that stands where a node should stand and is no node. -/
inductive Foreign where
  | text (value : String)
  | number (value : Int)
  deriving DecidableEq, Inhabited

/-- The word by which messages name the kind of a foreign value. -/
def Foreign.kindWord : Foreign → String
  | .text _ => "str"
  | .number _ => "int"

/-- A syntax tree, or what stands in the place of one. -/
inductive Tree where
  /-- Nothing. -/
  | missing
  /-- Something that is no node. -/
  | foreign (value : Foreign)
  /-- A braced sequence of statements. -/
  | block (statements : List Tree) (span : Span)
  /-- An `if`; either branch may be missing. -/
  | conditional (condition consequent alternative : Tree) (span : Span)
  /-- A call of a named function. -/
  | call (callee : String) (arguments : List Tree) (span : Span)
  /-- One stage of a pipe: the value of `source` is fed to `stage`. -/
  | pipe (source stage : Tree) (operator : String) (span : Span)
  /-- Any other expression. -/
  | expr (text : String) (operands : List Tree) (span : Span)
  /-- A function definition; its body may be missing. -/
  | function (parameters : List String) (body : Tree) (name : Option String) (isLambda : Bool)
      (span : Span)
  deriving Inhabited

/-- The kinds of nodes. -/
inductive Kind where
  | block
  | conditional
  | call
  | pipe
  | function
  | expr
  deriving DecidableEq

namespace Kind

/-- All kinds, in their usual order. -/
def all : List Kind := [.block, .conditional, .call, .pipe, .function, .expr]

/-- The name of a kind. -/
def name : Kind → String
  | .block => "block"
  | .conditional => "conditional"
  | .call => "call"
  | .pipe => "pipe"
  | .function => "function"
  | .expr => "expr"

end Kind

/-! ## Assignments -/

/-- The five assignment operators. -/
inductive Arrow where
  | left
  | equals
  | farLeft
  | right
  | farRight
  deriving DecidableEq

namespace Arrow

/-- All arrows. -/
def all : List Arrow := [.left, .equals, .farLeft, .right, .farRight]

/-- How an arrow is written. -/
def symbol : Arrow → String
  | .left => "<-"
  | .equals => "="
  | .farLeft => "<<-"
  | .right => "->"
  | .farRight => "->>"

/-- The arrow that a text is. -/
def ofSymbol? (text : String) : Option Arrow := all.find? (·.symbol = text)

/-- Whether the value stands on the left and the target on the right. -/
def pointsRight : Arrow → Bool
  | .right | .farRight => true
  | _ => false

@[simp] theorem ofSymbol?_symbol (arrow : Arrow) : ofSymbol? arrow.symbol = some arrow := by
  cases arrow <;> rfl

/-- Only the text of an arrow is read as that arrow. -/
theorem symbol_of_ofSymbol? {text : String} {arrow : Arrow} (h : ofSymbol? text = some arrow) :
    arrow.symbol = text := by
  simpa using List.find?_some h

end Arrow

/-- An assignment: its arrow and the two sides of it as they are written. -/
structure Assignment where
  arrow : Arrow
  left : Tree
  right : Tree

namespace Assignment

/-- What is assigned. -/
def value (a : Assignment) : Tree := if a.arrow.pointsRight then a.left else a.right

/-- What it is assigned to. -/
def target (a : Assignment) : Tree := if a.arrow.pointsRight then a.right else a.left

end Assignment

/-! ## Definitions -/

/-- A function definition, apart from the tree it stands in. -/
structure Definition where
  parameters : List String := []
  body : Tree := .missing
  name : Option String := none
  isLambda : Bool := false
  span : Span := {}

namespace Tree

/-! ## Views of a node -/

/-- Whether there is nothing here. -/
def isMissing : Tree → Bool
  | .missing => true
  | _ => false

/-- The kind of a node. -/
def kind? : Tree → Option Kind
  | .missing | .foreign _ => none
  | .block .. => some .block
  | .conditional .. => some .conditional
  | .call .. => some .call
  | .pipe .. => some .pipe
  | .expr .. => some .expr
  | .function .. => some .function

/-- The span of a node. -/
def span? : Tree → Option Span
  | .missing | .foreign _ => none
  | .block _ span | .conditional _ _ _ span | .call _ _ span | .pipe _ _ _ span
  | .expr _ _ span | .function _ _ _ _ span => some span

/-- The text that tells nodes of one kind apart: a callee, an operator, the text of
an expression or the name of a function. -/
def label? : Tree → Option String
  | .missing | .foreign _ | .block .. | .conditional .. => none
  | .call callee .. => some callee
  | .pipe _ _ operator _ => some operator
  | .expr text .. => some text
  | .function _ _ name _ _ => name

/-- The children that a traversal visits, in order. -/
def children : Tree → List Tree
  | .missing | .foreign _ => []
  | .block statements _ => statements
  | .conditional condition consequent alternative _ =>
    [condition, consequent, alternative].filter (!·.isMissing)
  | .call _ arguments _ => arguments
  | .pipe source stage _ _ => [source, stage]
  | .expr _ operands _ => operands
  | .function _ body _ _ _ => [body].filter (!·.isMissing)

/-- The definition that a function node is. -/
def definition? : Tree → Option Definition
  | .function parameters body name isLambda span => some ⟨parameters, body, name, isLambda, span⟩
  | _ => none

/-- The assignment that an expression node is. -/
def assignment? : Tree → Option Assignment
  | .expr text [left, right] _ => (Arrow.ofSymbol? text).map (⟨·, left, right⟩)
  | _ => none

/-- The node of a definition. -/
def ofDefinition (d : Definition) : Tree :=
  .function d.parameters d.body d.name d.isLambda d.span

@[simp] theorem definition?_ofDefinition (d : Definition) :
    (ofDefinition d).definition? = some d := rfl

/-- Only function nodes are definitions. -/
theorem eq_ofDefinition {t : Tree} {d : Definition} (h : t.definition? = some d) :
    t = ofDefinition d := by
  cases t with
  | function => cases h; rfl
  | _ => cases h

/-! ## Size -/

mutual

/-- The number of places in a tree, the missing ones included. -/
def size : Tree → Nat
  | .missing | .foreign _ => 1
  | .block statements _ => 1 + sizeAll statements
  | .conditional condition consequent alternative _ =>
    1 + condition.size + consequent.size + alternative.size
  | .call _ arguments _ => 1 + sizeAll arguments
  | .pipe source stage _ _ => 1 + source.size + stage.size
  | .expr _ operands _ => 1 + sizeAll operands
  | .function _ body _ _ _ => 1 + body.size

/-- The number of places in a list of trees. -/
def sizeAll : List Tree → Nat
  | [] => 0
  | t :: rest => t.size + sizeAll rest

end

@[simp] theorem sizeAll_nil : sizeAll [] = 0 := rfl

@[simp] theorem sizeAll_cons (t : Tree) (rest : List Tree) :
    sizeAll (t :: rest) = t.size + sizeAll rest := rfl

@[simp] theorem sizeAll_append (ts us : List Tree) :
    sizeAll (ts ++ us) = sizeAll ts + sizeAll us := by
  induction ts with
  | nil => simp
  | cons t rest ih => simp [ih, Nat.add_assoc]

/-- Leaving trees out of a list makes it no larger. -/
theorem sizeAll_filter_le (p : Tree → Bool) (ts : List Tree) :
    sizeAll (ts.filter p) ≤ sizeAll ts := by
  induction ts with
  | nil => exact Nat.le_refl _
  | cons t rest ih =>
    by_cases h : p t = true
    · simp [h]; omega
    · simp [h]; omega

/-- The children of a tree are smaller than the tree, all of them together. -/
theorem sizeAll_children_lt (t : Tree) : sizeAll t.children < t.size := by
  cases t with
  | missing => simp [children, size]
  | foreign => simp [children, size]
  | block statements => simp [children, size]
  | conditional condition consequent alternative =>
    have := sizeAll_filter_le (fun t => !t.isMissing) [condition, consequent, alternative]
    simp only [sizeAll_cons, sizeAll_nil] at this
    simp only [children, size]
    omega
  | call => simp [children, size]
  | pipe => simp [children, size]
  | expr => simp [children, size]
  | function _ body =>
    have := sizeAll_filter_le (fun t => !t.isMissing) [body]
    simp only [sizeAll_cons, sizeAll_nil] at this
    simp only [children, size]
    omega

end Tree

end TailLint
