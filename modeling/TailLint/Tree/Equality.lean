import TailLint.Tree.Basic

/-!
# Equality of trees

Two trees are equal when they agree in every field at every place, spans included.
The comparison is a structural recursion on both trees (`Tree.same`), and
`Tree.same_iff` says that it decides equality.
-/

namespace TailLint.Tree

mutual

/-- Whether two trees agree everywhere. -/
def same : Tree → Tree → Bool
  | .missing, .missing => true
  | .foreign value, .foreign value' => value = value'
  | .block statements span, .block statements' span' =>
    sameAll statements statements' && span = span'
  | .conditional condition consequent alternative span,
      .conditional condition' consequent' alternative' span' =>
    same condition condition' && same consequent consequent' && same alternative alternative'
      && span = span'
  | .call callee arguments span, .call callee' arguments' span' =>
    callee = callee' && sameAll arguments arguments' && span = span'
  | .pipe source stage operator span, .pipe source' stage' operator' span' =>
    same source source' && same stage stage' && operator = operator' && span = span'
  | .expr text operands span, .expr text' operands' span' =>
    text = text' && sameAll operands operands' && span = span'
  | .function parameters body name isLambda span,
      .function parameters' body' name' isLambda' span' =>
    parameters = parameters' && same body body' && name = name' && isLambda = isLambda'
      && span = span'
  | _, _ => false

/-- Whether two rows of trees agree everywhere. -/
def sameAll : List Tree → List Tree → Bool
  | [], [] => true
  | t :: rest, t' :: rest' => same t t' && sameAll rest rest'
  | _, _ => false

end

mutual

/-- The comparison decides equality. -/
theorem same_iff : ∀ t u : Tree, same t u = true ↔ t = u
  | .missing, u => by cases u <;> simp [same]
  | .foreign value, u => by cases u <;> simp [same]
  | .block statements span, u => by
    cases u <;> simp [same, sameAll_iff statements]
  | .conditional condition consequent alternative span, u => by
    cases u <;> simp [same, same_iff condition, same_iff consequent, same_iff alternative, and_assoc]
  | .call callee arguments span, u => by
    cases u <;> simp [same, sameAll_iff arguments, and_assoc]
  | .pipe source stage operator span, u => by
    cases u <;> simp [same, same_iff source, same_iff stage, and_assoc]
  | .expr text operands span, u => by
    cases u <;> simp [same, sameAll_iff operands, and_assoc]
  | .function parameters body name isLambda span, u => by
    cases u <;> simp [same, same_iff body, and_assoc]

/-- The comparison of rows decides equality. -/
theorem sameAll_iff : ∀ ts us : List Tree, sameAll ts us = true ↔ ts = us
  | [], us => by cases us <;> simp [sameAll]
  | t :: rest, us => by cases us <;> simp [sameAll, same_iff t, sameAll_iff rest]

end

instance : DecidableEq Tree := fun t u => decidable_of_iff (same t u = true) (same_iff t u)

end TailLint.Tree
