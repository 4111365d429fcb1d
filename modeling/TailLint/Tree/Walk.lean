import TailLint.Tree.Basic

/-!
# Walking a tree

Every place of a tree is visited once: a node before what is below it, and the
children of a node from left to right.  The walk that the linter uses keeps a list of
the trees that are still to be visited and takes the next one from its front, so it
never recurses into the tree.  Beside it stands the same listing by plain recursion
on the tree (`Tree.preorder`).

A missing tree as a whole has no place to visit; a missing child is a place.

* `Tree.walk` --- the worklist.
* `Tree.preorder` --- the recursive listing.
* `Tree.walkAll_eq_preorderAll`, `Tree.walk_eq` --- the two agree on every row of trees, and
  on every tree.
* `Tree.definitions` --- the function definitions met by the walk.
-/

namespace TailLint.Tree

/-- The places of the trees in a worklist, the first tree of the list first. -/
def walkAll (pending : List Tree) : List Tree :=
  match pending with
  | [] => []
  | t :: rest => t :: walkAll (t.children ++ rest)
termination_by sizeAll pending
decreasing_by
  have := sizeAll_children_lt t
  simp only [sizeAll_append, sizeAll_cons]
  omega

@[simp] theorem walkAll_nil : walkAll [] = [] := by
  rw [walkAll]

theorem walkAll_cons (t : Tree) (rest : List Tree) :
    walkAll (t :: rest) = t :: walkAll (t.children ++ rest) := by
  rw [walkAll]

/-- All places of a tree, by a worklist that starts with the tree alone. -/
def walk (t : Tree) : List Tree :=
  if t.isMissing then [] else walkAll [t]

mutual

/-- All places of a tree, by recursion: the tree itself, then the listings of its
children from left to right. -/
def preorder : Tree → List Tree
  | .missing => [.missing]
  | .foreign value => [.foreign value]
  | .block statements span => .block statements span :: preorderAll statements
  | .conditional condition consequent alternative span =>
    .conditional condition consequent alternative span
      :: ((if condition.isMissing then [] else preorder condition)
        ++ (if consequent.isMissing then [] else preorder consequent)
        ++ (if alternative.isMissing then [] else preorder alternative))
  | .call callee arguments span => .call callee arguments span :: preorderAll arguments
  | .pipe source stage operator span =>
    .pipe source stage operator span :: (preorder source ++ preorder stage)
  | .expr text operands span => .expr text operands span :: preorderAll operands
  | .function parameters body name isLambda span =>
    .function parameters body name isLambda span
      :: (if body.isMissing then [] else preorder body)

/-- The listings of a row of trees, one after the other. -/
def preorderAll : List Tree → List Tree
  | [] => []
  | t :: rest => preorder t ++ preorderAll rest

end

theorem preorderAll_append (ts us : List Tree) :
    preorderAll (ts ++ us) = preorderAll ts ++ preorderAll us := by
  induction ts with
  | nil => simp [preorderAll]
  | cons t rest ih => simp [preorderAll, ih]

/-- A tree is listed before its children, and those from left to right. -/
theorem preorder_eq_cons (t : Tree) : t.preorder = t :: preorderAll t.children := by
  cases t with
  | conditional condition consequent alternative span =>
    by_cases hc : condition.isMissing <;> by_cases ht : consequent.isMissing <;>
      by_cases he : alternative.isMissing <;>
      simp [preorder, children, preorderAll, hc, ht, he]
  | pipe => simp [preorder, children, preorderAll]
  | function _ body => by_cases h : body.isMissing <;> simp [preorder, children, preorderAll, h]
  | _ => simp [preorder, children, preorderAll]

/-- The worklist lists its trees one after the other, each by recursion. -/
theorem walkAll_eq_preorderAll (pending : List Tree) : walkAll pending = preorderAll pending := by
  fun_induction walkAll pending with
  | case1 => rfl
  | case2 t rest ih => rw [ih, preorderAll_append, preorderAll, preorder_eq_cons, List.cons_append]

/-- The walk lists a tree by recursion, unless there is no tree. -/
theorem walk_eq (t : Tree) : t.walk = if t.isMissing then [] else t.preorder := by
  rw [walk, walkAll_eq_preorderAll, preorderAll, preorderAll, List.append_nil]

/-- The function definitions anywhere in a tree, in the order of the walk. -/
def definitions (t : Tree) : List Definition :=
  t.walk.filterMap definition?

end TailLint.Tree
