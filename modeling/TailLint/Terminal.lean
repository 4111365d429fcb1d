import TailLint.Policy.Basic
import TailLint.Tree.Basic

/-!
# Terminal positions

A terminal position of a function body is a node whose value can become the value of
the function: the last statement of a block, or the block itself when it is empty; both
branches of a conditional; and any other node as it stands.  A conditional without an
alternative is terminal itself, before its branches, because when its condition fails
the value comes from nowhere else.

Missing nodes and values that are no nodes contribute nothing.  What the finder came
across on its way is kept as a list of notes for the log.
-/

namespace TailLint

/-- A terminal node, and whether a missing `else` is to be reported there. -/
structure Terminal where
  node : Tree
  checkElse : Bool

namespace Tree

mutual

/-- The terminal nodes of a body, in the order of the walk. -/
def terminals : Tree → List Tree
  | .missing | .foreign _ => []
  | .block [] span => [.block [] span]
  | .block statements _ => lastTerminals statements
  | .conditional condition consequent alternative span =>
    (if alternative.isMissing then [.conditional condition consequent alternative span] else [])
      ++ terminals consequent ++ terminals alternative
  | t => [t]

/-- The terminal nodes of the last statement of a row. -/
def lastTerminals : List Tree → List Tree
  | [] => []
  | [last] => terminals last
  | _ :: next :: rest => lastTerminals (next :: rest)

end

end Tree

/-! ### Terminal nodes are nodes -/

namespace Tree

mutual

/-- A terminal node has a place in the source. -/
theorem isSome_span?_of_mem_terminals :
    ∀ (body : Tree) {node : Tree}, node ∈ body.terminals → node.span?.isSome = true
  | .missing, _, h => by simp [terminals] at h
  | .foreign _, _, h => by simp [terminals] at h
  | .block [] span, _, h => by
    simp only [terminals, List.mem_singleton] at h
    rw [h]
    rfl
  | .block (first :: rest) _, _, h => isSome_span?_of_mem_lastTerminals (first :: rest) h
  | .conditional condition consequent alternative span, _, h => by
    simp only [terminals, List.mem_append] at h
    rcases h with (h | h) | h
    · split at h
      · rw [List.mem_singleton.mp h]
        rfl
      · exact absurd h List.not_mem_nil
    · exact isSome_span?_of_mem_terminals consequent h
    · exact isSome_span?_of_mem_terminals alternative h
  | .call _ _ _, _, h => by rw [List.mem_singleton.mp h]; rfl
  | .pipe _ _ _ _, _, h => by rw [List.mem_singleton.mp h]; rfl
  | .expr _ _ _, _, h => by rw [List.mem_singleton.mp h]; rfl
  | .function _ _ _ _ _, _, h => by rw [List.mem_singleton.mp h]; rfl

/-- A terminal node of a last statement has a place in the source. -/
theorem isSome_span?_of_mem_lastTerminals :
    ∀ (statements : List Tree) {node : Tree}, node ∈ lastTerminals statements →
      node.span?.isSome = true
  | [], _, h => by simp [lastTerminals] at h
  | [last], _, h => isSome_span?_of_mem_terminals last h
  | _ :: next :: rest, _, h => isSome_span?_of_mem_lastTerminals (next :: rest) h

end

end Tree

/-! ## Notes -/

/-- What the finder came across. -/
inductive TerminalNote where
  | exempt (name : Option String)
  | noBody (name : Option String)
  | noConsequent (span : Span)
  | notANode (value : Foreign)

/-- A name for the log; a function without a name is anonymous. -/
def shownName (name : Option String) : String :=
  match name with
  | some "" | none => "<anonymous>"
  | some name => name

namespace TerminalNote

/-- The wording of each note. -/
def text : TerminalNote → String
  | .exempt name => s!"Function {name.getD default} is exempt; not checked"
  | .noBody name => s!"Function {shownName name} has no body"
  | .noConsequent span => s!"Conditional at {span.text} has no 'then' branch"
  | .notANode value => s!"Skipping unknown node type {value.kindWord}"

end TerminalNote

namespace Tree

mutual

/-- What the finder comes across in a body, in order. -/
def terminalNotes : Tree → List TerminalNote
  | .foreign value => [.notANode value]
  | .block statements _ => lastNotes statements
  | .conditional _ consequent alternative span =>
    (if consequent.isMissing then [.noConsequent span] else [])
      ++ terminalNotes consequent ++ terminalNotes alternative
  | _ => []

/-- What the finder comes across in the last statement of a row. -/
def lastNotes : List Tree → List TerminalNote
  | [] => []
  | [last] => terminalNotes last
  | _ :: next :: rest => lastNotes (next :: rest)

end

end Tree

namespace Terminal

/-- The terminal positions of a body, all with the same flag. -/
def find (checkElse : Bool) (body : Tree) : List Terminal :=
  body.terminals.map (⟨·, checkElse⟩)

/-- Whether a policy keeps its hands off a function. -/
def isSkipped (policy : Policy) (d : Definition) : Bool :=
  policy.consultsExemptions && policy.isExempt d.name

/-- The terminal positions of a function under a policy. -/
def ofDefinition (policy : Policy) (d : Definition) : List Terminal :=
  if isSkipped policy d then [] else find (!policy.allowImplicitElse) d.body

/-- What the finder comes across in a function under a policy. -/
def notes (policy : Policy) (d : Definition) : List TerminalNote :=
  if isSkipped policy d then [.exempt d.name]
  else if d.body.isMissing then [.noBody d.name]
  else d.body.terminalNotes

end Terminal

end TailLint
