import Mathlib.Logic.Relation
import TailLint.Lint
import TailLint.Proofs.Place

/-!
# The walk, its stack and its parts

`Tree.walk` takes the next tree from the front of a list and puts its children in the place of it.
As a loop over a stack this reads differently: the next tree is the *last* one, and its children
are pushed in reverse, so that the first of them ends up on top.  The loop lists one tree in each
turn and is over when the stack is empty.  Whoever takes the trees from it one by one sees it
between two turns, so what it has listed by then matters as much as what it lists in the end.

Two facts carry all of it.

## 1.  What a turn keeps

A turn moves one tree from the stack to the list, and its children take its place.  The listing of
a tree by recursion is the tree and then the listings of its children, so what has been listed,
followed by the listings of what is on the stack, is the same before and after
(`Traversal.listing_turn`).  Along a whole run it is the listing of the tree
(`Traversal.Reaches.listing_eq`).

## 2.  The worklist is the stack upside down

Turn by turn the loop does what the worklist does (`Traversal.reaches_walkAll`).  That the loop
comes to its end is not shown again: it is the recursion of the worklist, whose trees become
smaller together.

A tree is a value and may stand in several places, so that it is listed *once* is said of places.
`Tree.Occurs` says which there are: a missing child is one, but for the absent branches of a
conditional and the absent body of a function (`Tree.mem_spots_iff_occurs`).

Since the listing of a tree is made of those of its children, so are its functions and, with them,
its diagnostics (`Tree.lint_eq_append`).
-/

namespace TailLint

/-! ## The loop -/

/-- The walk between two turns: what it has listed, and the stack of what it has yet to visit.  The
top of the stack is its last entry. -/
structure Traversal where
  listed : List Tree
  stack : List Tree

namespace Traversal

/-- The walk over a tree before its first turn. -/
def ofTree (t : Tree) : Traversal := ⟨[], if t.isMissing then [] else [t]⟩

/-- One turn: the top is taken off the stack and listed, and its children are pushed, the last of
them first.  There is none when the stack is empty. -/
def turn? (v : Traversal) : Option Traversal :=
  v.stack.getLast?.map fun t => ⟨v.listed ++ [t], v.stack.dropLast ++ t.children.reverse⟩

/-- The walk comes from one point to another in some number of turns. -/
def Reaches : Traversal → Traversal → Prop :=
  Relation.ReflTransGen fun v w => v.turn? = some w

/-- What has been listed, and then the listings of what is on the stack, the top first. -/
def listing (v : Traversal) : List Tree := v.listed ++ v.stack.reverse.flatMap Tree.preorder

theorem turn?_eq_some_iff {v w : Traversal} :
    v.turn? = some w ↔ ∃ below t, v.stack = below ++ [t]
      ∧ w = ⟨v.listed ++ [t], below ++ t.children.reverse⟩ := by
  unfold turn?
  rw [Option.map_eq_some_iff]
  constructor
  · rintro ⟨t, htop, rfl⟩
    obtain ⟨below, hstack⟩ := List.getLast?_eq_some_iff.mp htop
    exact ⟨below, t, hstack, by rw [hstack, List.dropLast_concat]⟩
  · rintro ⟨below, t, hstack, rfl⟩
    exact ⟨t, by rw [hstack, List.getLast?_concat], by rw [hstack, List.dropLast_concat]⟩

/-- A turn does not change what will have been listed in the end. -/
theorem listing_turn {v w : Traversal} (h : v.turn? = some w) : w.listing = v.listing := by
  obtain ⟨below, t, hstack, rfl⟩ := turn?_eq_some_iff.mp h
  have hpushed : (below ++ t.children.reverse).reverse = t.children ++ below.reverse := by
    rw [List.reverse_append, List.reverse_reverse]
  have hstack' : v.stack.reverse = t :: below.reverse := by
    rw [hstack, List.reverse_concat]
  rw [listing, listing, hpushed, hstack', List.flatMap_append, List.flatMap_cons,
    Tree.preorder_eq_cons, Tree.preorderAll_eq_flatMap]
  simp only [List.append_assoc, List.cons_append, List.nil_append]

/-- Nor do any number of turns. -/
theorem Reaches.listing_eq {v w : Traversal} (h : v.Reaches w) : w.listing = v.listing := by
  induction h with
  | refl => rfl
  | tail _ hturn ih => rw [listing_turn hturn, ih]

/-- The worklist lists what the loop lists from the worklist as a stack, the first tree on top. -/
theorem reaches_walkAll (listed pending : List Tree) :
    Reaches ⟨listed, pending.reverse⟩ ⟨listed ++ Tree.walkAll pending, []⟩ := by
  induction pending using Tree.walkAll.induct generalizing listed with
  | case1 =>
    rw [Tree.walkAll_nil, List.append_nil]
    exact .refl
  | case2 t rest ih =>
    have hturn : turn? ⟨listed, (t :: rest).reverse⟩
        = some ⟨listed ++ [t], (t.children ++ rest).reverse⟩ := by
      refine turn?_eq_some_iff.mpr ⟨rest.reverse, t, List.reverse_cons, ?_⟩
      rw [List.reverse_append]
    have hrest := ih (listed ++ [t])
    rw [List.append_assoc, List.singleton_append, ← Tree.walkAll_cons] at hrest
    exact .head hturn hrest

/-- The loop comes to an empty stack, and then it has listed what the walk lists. -/
theorem reaches_walk (t : Tree) : (ofTree t).Reaches ⟨t.walk, []⟩ := by
  unfold ofTree Tree.walk
  split
  · exact .refl
  · exact reaches_walkAll [] [t]

end Traversal

namespace Tree

/-! ## Occurrences -/

/-- A tree stands at a place of another.  Every child that is there is a place, and so is a missing
one, if it is neither a branch nor a body. -/
inductive Occurs : Tree → Path → Tree → Prop
  | root (t : Tree) : Occurs t [] t
  | child {t child u : Tree} {i : Nat} {path : Path} (hslot : t.slots[i]? = some child)
      (hplace : child.isMissing = false ∨ t.keepsMissing = true) (h : Occurs child path u) :
      Occurs t (i :: path) u

/-- The walk visits these places and no others. -/
theorem mem_spots_iff_occurs {t u : Tree} {path : Path} :
    ⟨path, u⟩ ∈ t.spots ↔ t.Occurs path u := by
  constructor
  · intro h
    induction t using spots.induct generalizing path u with
    | _ t ih =>
      rw [spots_eq] at h
      rcases List.mem_cons.mp h with h | h
      · cases h
        exact .root t
      · obtain ⟨visit, hvisit, h⟩ := List.mem_flatMap.mp h
        obtain ⟨below, hbelow, h⟩ := List.mem_map.mp h
        cases h
        obtain ⟨hslot, hplace⟩ := mem_visits_iff.mp hvisit
        exact .child hslot hplace (ih ⟨visit, hvisit⟩ hbelow)
  · intro h
    induction h with
    | root t =>
      rw [spots_eq]
      exact List.mem_cons_self
    | child hslot hplace _ ih =>
      have hvisit := mem_visits_iff.mpr ⟨hslot, hplace⟩
      rw [spots_eq]
      refine List.mem_cons_of_mem _ (List.mem_flatMap.mpr ⟨_, hvisit, ?_⟩)
      exact List.mem_map.mpr ⟨_, ih, rfl⟩

/-! ## The parts of a tree -/

/-- The functions of a tree are the tree itself, if it is one, and then those of its children. -/
theorem definitions_eq_append (t : Tree) :
    t.definitions = t.definition?.toList ++ t.children.flatMap definitions := by
  rw [definitions_eq, filterMap_preorder]
  simp only [← definitions_eq]

/-- The diagnostics of a tree are its own, if it is a function, and then those of its children. -/
theorem lint_eq_append (policy : Policy) (file : String) (t : Tree) :
    t.lint policy file = t.definition?.elim [] (Definition.lint policy file)
      ++ t.children.flatMap (lint policy file) := by
  have hown : t.definition?.toList.flatMap (Definition.lint policy file)
      = t.definition?.elim [] (Definition.lint policy file) := by
    cases t.definition? with
    | none => rfl
    | some d => exact List.flatMap_singleton _ _
  rw [lint, definitions_eq_append, List.flatMap_append, hown, List.flatMap_assoc]
  rfl

/-- The loop over the stack comes to its end, and lists the tree by recursion: the tree, then the
listings of its children from left to right.  At each turn it has listed a beginning of this, and
the rest is what the trees on the stack amount to.  Each place is listed once, a missing child of a
row and a value that is no node among them.  So the diagnostics of a tree are its own, if it is a
function, and then those of its children. -/
theorem walk_lint_compositional (t : Tree) :
    (Traversal.ofTree t).Reaches ⟨t.walk, []⟩
      ∧ (∀ v, (Traversal.ofTree t).Reaches v → v.listing = t.walk)
      ∧ t.walk = (if t.isMissing then [] else t.preorder)
      ∧ (∀ u : Tree, u.preorder = u :: u.children.flatMap preorder)
      ∧ t.preorder = t.spots.map Spot.node ∧ (t.spots.map Spot.path).Nodup
      ∧ (∀ path u, ⟨path, u⟩ ∈ t.spots ↔ t.Occurs path u)
      ∧ ∀ policy file, t.lint policy file
          = t.definition?.elim [] (Definition.lint policy file)
            ++ t.children.flatMap (lint policy file) := by
  have hend := Traversal.reaches_walk t
  refine ⟨hend, fun v hv => ?_, walk_eq t, fun u => ?_, preorder_eq_map_spots t,
    nodup_path_spots t, fun path u => mem_spots_iff_occurs,
    fun policy file => lint_eq_append policy file t⟩
  · calc v.listing = (Traversal.ofTree t).listing := hv.listing_eq
      _ = Traversal.listing ⟨t.walk, []⟩ := hend.listing_eq.symm
      _ = t.walk := List.append_nil _
  · rw [preorder_eq_cons, preorderAll_eq_flatMap]

/-- The missing statement is listed, the missing branches are not. -/
example :
    (Tree.block [.missing, .conditional (.foreign (.text "p")) .missing .missing {}]
      {}).preorder.map kind? = [some .block, none, some .conditional, none] := rfl

end Tree

end TailLint
