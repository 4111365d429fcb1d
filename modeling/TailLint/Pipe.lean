import TailLint.Tree.Basic

/-!
# Pipe chains

The value of a chain of pipes is the value of its last stage, however the stages are
nested.  Whoever asks what a statement calls has to look there, and has to look
through one assignment on the way: a chain whose value is assigned still ends in its
last stage.
-/

namespace TailLint.Tree

/-- Whether the node is a pipe. -/
def isPipe : Tree → Bool
  | .pipe .. => true
  | _ => false

/-- The pipe that a node evaluates to: the node itself, or the value of the assignment
that it is. -/
def pipeOperand? (t : Tree) : Option Tree :=
  if t.isPipe then some t
  else t.assignment?.bind fun a => if a.value.isPipe then some a.value else none

/-- The last stage of a chain; a node that is no pipe is its own last stage. -/
def finalStage : Tree → Tree
  | .pipe _ stage _ _ => finalStage stage
  | t => t

/-- The node whose call decides about a statement. -/
def callTarget (t : Tree) : Tree :=
  match t.pipeOperand? with
  | some chain => chain.finalStage
  | none => t

/-- Whether a statement ends in a chain of pipes. -/
def endsInPipe (t : Tree) : Bool := t.pipeOperand?.isSome

/-- The name that a call calls. -/
def callee? : Tree → Option String
  | .call callee .. => some callee
  | _ => none

end TailLint.Tree
