import Mathlib.Data.List.Nodup
import TailLint.Tree.Walk

/-!
# Places in a tree

A tree is a value, and equal subtrees may stand in several places of it.  Statements that
tell occurrences apart therefore speak of places: a place is the path that leads to it from
the root, as a list of child positions.  The positions of a node are fixed by its kind
(`Tree.slots`).  The branches of a conditional are positions one and two whether or not the
other branch is there, so that a path does not change its meaning when a branch is missing.

The walk visits places, although it lists only what stands there.  `Tree.spots` is the same
walk with the paths kept.

* `Tree.preorder_eq_map_spots` --- forgetting the paths gives the walk;
* `Tree.at?_of_mem_spots`, `Tree.mem_spots` --- the walk visits every place where something
  stands, and what it lists stands where it says;
* `Tree.nodup_path_spots` --- it visits no place twice;
* `Tree.everywhere_iff` --- what holds at every place holds at the root and below;
* `Tree.mem_definitions` --- the linter judges exactly the functions that stand somewhere;
* `Tree.filterMap_preorder` --- they are the root, if it is one, and those of its children.
-/

namespace TailLint

/-- The way from the root of a tree to a place in it: the positions of the children that are
entered, from the root down. -/
abbrev Path := List Nat

/-- What stands at a place. -/
structure Spot where
  path : Path
  node : Tree

/-- A place in the child at position `i`, as a place in the parent. -/
def Spot.under (i : Nat) (s : Spot) : Spot := ⟨i :: s.path, s.node⟩

@[simp] theorem Spot.path_under (i : Nat) (s : Spot) : (s.under i).path = i :: s.path := rfl

@[simp] theorem Spot.node_under (i : Nat) (s : Spot) : (s.under i).node = s.node := rfl

namespace Tree

/-! ## Children in their positions -/

/-- What stands in the positions of a node, absent branches and bodies included. -/
def slots : Tree → List Tree
  | .missing | .foreign _ => []
  | .block statements _ => statements
  | .conditional condition consequent alternative _ => [condition, consequent, alternative]
  | .call _ arguments _ => arguments
  | .pipe source stage _ _ => [source, stage]
  | .expr _ operands _ => operands
  | .function _ body _ _ _ => [body]

/-- What stands in a position of a tree is a smaller tree. -/
theorem sizeOf_lt_of_mem_slots {t child : Tree} (h : child ∈ t.slots) :
    sizeOf child < sizeOf t := by
  cases t with
  | missing => exact absurd h List.not_mem_nil
  | foreign => exact absurd h List.not_mem_nil
  | block statements span =>
    have : sizeOf child < sizeOf statements := List.sizeOf_lt_of_mem h
    rw [Tree.block.sizeOf_spec]
    omega
  | conditional condition consequent alternative span =>
    rw [Tree.conditional.sizeOf_spec]
    simp only [slots, List.mem_cons, List.not_mem_nil, or_false] at h
    rcases h with rfl | rfl | rfl <;> omega
  | call callee arguments span =>
    have : sizeOf child < sizeOf arguments := List.sizeOf_lt_of_mem h
    rw [Tree.call.sizeOf_spec]
    omega
  | pipe source stage operator span =>
    rw [Tree.pipe.sizeOf_spec]
    simp only [slots, List.mem_cons, List.not_mem_nil, or_false] at h
    rcases h with rfl | rfl <;> omega
  | expr text operands span =>
    have : sizeOf child < sizeOf operands := List.sizeOf_lt_of_mem h
    rw [Tree.expr.sizeOf_spec]
    omega
  | function parameters body name isLambda span =>
    rw [Tree.function.sizeOf_spec]
    obtain rfl := List.mem_singleton.mp h
    omega

/-- What holds of a tree as soon as it holds of whatever stands in its positions holds of all
trees. -/
theorem induction_on_slots {P : Tree → Prop}
    (step : ∀ t, (∀ child ∈ t.slots, P child) → P t) (t : Tree) : P t := by
  refine step t fun child hchild => ?_
  have hlt := sizeOf_lt_of_mem_slots hchild
  exact induction_on_slots step child
termination_by sizeOf t

/-- Only one tree is missing. -/
theorem eq_missing {t : Tree} (h : t.isMissing = true) : t = .missing := by
  cases t with
  | missing => rfl
  | _ => cases h

/-- What stands in a position is a child. -/
theorem mem_children {t child : Tree} (h : child ∈ t.slots) (hchild : child.isMissing = false) :
    child ∈ t.children := by
  cases t with
  | conditional => exact List.mem_filter.mpr ⟨h, by simp [hchild]⟩
  | function => exact List.mem_filter.mpr ⟨h, by simp [hchild]⟩
  | _ => exact h

/-- A child stands in a position. -/
theorem mem_slots {t child : Tree} (h : child ∈ t.children) : child ∈ t.slots := by
  cases t with
  | conditional => exact (List.mem_filter.mp h).1
  | function => exact (List.mem_filter.mp h).1
  | _ => exact h

/-- An assignment is an expression with the symbol of its arrow, and its two sides stand in the
positions of the operands. -/
theorem eq_expr_of_assignment? {t : Tree} {a : Assignment} (h : t.assignment? = some a) :
    ∃ span, t = .expr a.arrow.symbol [a.left, a.right] span := by
  unfold assignment? at h
  split at h
  · obtain ⟨arrow, harrow, rfl⟩ := Option.map_eq_some_iff.mp h
    obtain rfl := Arrow.symbol_of_ofSymbol? harrow
    exact ⟨_, rfl⟩
  · cases h

/-- The children that a traversal visits, with their positions. -/
def visits : Tree → List (Tree × Nat)
  | .conditional condition consequent alternative _ =>
    [condition, consequent, alternative].zipIdx.filter (!·.1.isMissing)
  | .function _ body _ _ _ => [body].zipIdx.filter (!·.1.isMissing)
  | t => t.slots.zipIdx

theorem map_fst_filter_zipIdx (ts : List Tree) (i : Nat) :
    ((ts.zipIdx i).filter (!·.1.isMissing)).map Prod.fst = ts.filter (!·.isMissing) := by
  induction ts generalizing i with
  | nil => rfl
  | cons t rest ih =>
    rw [List.zipIdx_cons, List.filter_cons, List.filter_cons]
    cases t.isMissing with
    | false => simpa using ih (i + 1)
    | true => simpa using ih (i + 1)

theorem map_fst_visits (t : Tree) : t.visits.map Prod.fst = t.children := by
  cases t with
  | conditional => exact map_fst_filter_zipIdx _ 0
  | function => exact map_fst_filter_zipIdx _ 0
  | _ => simp [visits, slots, children]

/-- Whether a missing child of a node is a place of its own.  An absent branch of a conditional
and an absent body are not; anywhere else a missing child is a hole in a row. -/
def keepsMissing : Tree → Bool
  | .conditional .. | .function .. => false
  | _ => true

/-- What is visited stands in its position and is there, or is a hole. -/
theorem mem_visits_iff {t child : Tree} {i : Nat} :
    (child, i) ∈ t.visits ↔
      t.slots[i]? = some child ∧ (child.isMissing = false ∨ t.keepsMissing = true) := by
  rw [← List.mk_mem_zipIdx_iff_getElem?]
  cases t <;> simp [visits, slots, keepsMissing]

/-- What is visited stands in its position. -/
theorem slots_of_mem_visits {t child : Tree} {i : Nat} (h : (child, i) ∈ t.visits) :
    t.slots[i]? = some child :=
  (mem_visits_iff.mp h).1

/-- What stands in a position is visited. -/
theorem mem_visits {t child : Tree} {i : Nat} (h : t.slots[i]? = some child)
    (hchild : child.isMissing = false) : (child, i) ∈ t.visits :=
  mem_visits_iff.mpr ⟨h, Or.inl hchild⟩

/-- No position is visited twice. -/
theorem nodup_snd_visits (t : Tree) : (t.visits.map Prod.snd).Nodup := by
  have hall (ts : List Tree) : (ts.zipIdx.map Prod.snd).Nodup := by
    rw [List.zipIdx_map_snd]
    exact List.nodup_range'
  have hsome (ts : List Tree) : ((ts.zipIdx.filter (!·.1.isMissing)).map Prod.snd).Nodup :=
    (hall ts).sublist (List.filter_sublist.map Prod.snd)
  cases t with
  | conditional => exact hsome _
  | function => exact hsome _
  | _ => exact hall _

/-- A child is smaller than its parent. -/
theorem size_lt_of_mem_children {t child : Tree} (h : child ∈ t.children) :
    child.size < t.size := by
  have hle : child.size ≤ sizeAll t.children := by
    generalize t.children = ts at h
    induction ts with
    | nil => exact absurd h List.not_mem_nil
    | cons u rest ih =>
      rw [sizeAll_cons]
      rcases List.mem_cons.mp h with rfl | h
      · omega
      · have := ih h
        omega
  have := sizeAll_children_lt t
  omega

theorem size_lt_of_mem_visits {t : Tree} {visit : Tree × Nat} (h : visit ∈ t.visits) :
    visit.1.size < t.size := by
  refine size_lt_of_mem_children ?_
  rw [← map_fst_visits]
  exact List.mem_map_of_mem h

/-! ## Following a path -/

/-- What stands at the end of a path. -/
def at? (t : Tree) : Path → Option Tree
  | [] => some t
  | i :: path => t.slots[i]?.bind (·.at? path)

@[simp] theorem at?_nil (t : Tree) : t.at? [] = some t := rfl

theorem at?_cons {t u : Tree} {i : Nat} {path : Path} :
    t.at? (i :: path) = some u ↔ ∃ child, t.slots[i]? = some child ∧ child.at? path = some u :=
  Option.bind_eq_some_iff

/-- A path leads through what stands on it. -/
theorem at?_append (t : Tree) (path rest : Path) :
    t.at? (path ++ rest) = (t.at? path).bind (·.at? rest) := by
  induction path generalizing t with
  | nil => rfl
  | cons i path ih =>
    rw [List.cons_append, at?, at?]
    cases t.slots[i]? with
    | none => rfl
    | some child => exact ih child

/-- Nothing stands below where nothing stands. -/
theorem eq_missing_of_at?_missing {path : Path} {u : Tree}
    (h : Tree.missing.at? path = some u) : u = .missing := by
  cases path with
  | nil => exact (Option.some.inj h).symm
  | cons => cases h

/-! ## The walk with its paths -/

/-- The places that the walk visits, and what stands there. -/
def spots (t : Tree) : List Spot :=
  ⟨[], t⟩ :: t.visits.attach.flatMap fun visit =>
    visit.val.1.spots.map (Spot.under visit.val.2)
termination_by t.size
decreasing_by exact size_lt_of_mem_visits visit.property

theorem spots_eq (t : Tree) :
    t.spots
      = ⟨[], t⟩ :: t.visits.flatMap fun visit => visit.1.spots.map (Spot.under visit.2) := by
  rw [spots]
  congr 1
  conv_rhs => rw [← List.attach_map_subtype_val t.visits, List.flatMap_map]

theorem preorderAll_eq_flatMap (ts : List Tree) : preorderAll ts = ts.flatMap preorder := by
  induction ts with
  | nil => rfl
  | cons t rest ih => rw [preorderAll, ih, List.flatMap_cons]

/-- Without its paths, the walk is the plain listing. -/
theorem preorder_eq_map_spots (t : Tree) : t.preorder = t.spots.map Spot.node := by
  induction t using spots.induct with
  | _ t ih =>
    rw [preorder_eq_cons, spots_eq, preorderAll_eq_flatMap, ← map_fst_visits, List.flatMap_map,
      List.map_cons, List.map_flatMap]
    congr 1
    refine List.flatMap_congr fun visit hvisit => ?_
    rw [ih ⟨visit, hvisit⟩, List.map_map]
    rfl

/-- What the walk lists stands where it says. -/
theorem at?_of_mem_spots {t : Tree} {s : Spot} (h : s ∈ t.spots) : t.at? s.path = some s.node := by
  induction t using spots.induct generalizing s with
  | _ t ih =>
    rw [spots_eq] at h
    rcases List.mem_cons.mp h with rfl | h
    · rfl
    · obtain ⟨visit, hvisit, h⟩ := List.mem_flatMap.mp h
      obtain ⟨below, hbelow, rfl⟩ := List.mem_map.mp h
      exact at?_cons.mpr ⟨visit.1, slots_of_mem_visits hvisit, ih ⟨visit, hvisit⟩ hbelow⟩

/-- The walk visits every place where something stands. -/
theorem mem_spots {t u : Tree} {path : Path} (h : t.at? path = some u)
    (hu : u.isMissing = false) : ⟨path, u⟩ ∈ t.spots := by
  induction path generalizing t with
  | nil =>
    obtain rfl : t = u := Option.some.inj h
    rw [spots_eq]
    exact List.mem_cons_self
  | cons i path ih =>
    obtain ⟨child, hslot, hchild⟩ := at?_cons.mp h
    have hthere : child.isMissing = false := by
      -- nothing stands below a missing child, not even at the end of an empty path
      cases child with
      | missing =>
        cases path with
        | nil => cases hchild; exact hu
        | cons => cases hchild
      | _ => rfl
    rw [spots_eq]
    refine List.mem_cons_of_mem _ (List.mem_flatMap.mpr ⟨_, mem_visits hslot hthere, ?_⟩)
    exact List.mem_map.mpr ⟨_, ih hchild, rfl⟩

/-- The walk visits no place twice. -/
theorem nodup_path_spots (t : Tree) : (t.spots.map Spot.path).Nodup := by
  induction t using spots.induct with
  | _ t ih =>
    rw [spots_eq, List.map_cons, List.map_flatMap, List.nodup_cons]
    refine ⟨fun h => ?_, List.nodup_flatMap.mpr ⟨fun visit hvisit => ?_, ?_⟩⟩
    · obtain ⟨visit, -, h⟩ := List.mem_flatMap.mp h
      simp at h
    · have hinj : Function.Injective (visit.2 :: · : Path → Path) :=
        fun _ _ => List.tail_eq_of_cons_eq
      have := (ih ⟨visit, hvisit⟩).map hinj
      rwa [List.map_map] at this ⊢
    · have hpositions : t.visits.Pairwise (fun v w => v.2 ≠ w.2) :=
        List.pairwise_map.mp (nodup_snd_visits t)
      refine hpositions.imp fun {v w} hne path hv hw => ?_
      simp only [List.map_map, List.mem_map, Function.comp_apply, Spot.path_under] at hv hw
      obtain ⟨_, -, rfl⟩ := hv
      obtain ⟨_, -, heq⟩ := hw
      exact hne (List.head_eq_of_cons_eq heq).symm

/-! ## Every place -/

/-- Whether something holds at every place of a tree. -/
def Everywhere (P : Tree → Prop) (t : Tree) : Prop := ∀ u ∈ t.preorder, P u

/-- Something holds everywhere if it holds at the root and everywhere below. -/
theorem everywhere_iff {P : Tree → Prop} {t : Tree} :
    Everywhere P t ↔ P t ∧ ∀ child ∈ t.children, Everywhere P child := by
  unfold Everywhere
  rw [preorder_eq_cons, preorderAll_eq_flatMap, List.forall_mem_cons, List.forall_mem_flatMap]

theorem Everywhere.of_mem_slots {P : Tree → Prop} {t child : Tree} (h : Everywhere P t)
    (hslot : child ∈ t.slots) : child = .missing ∨ Everywhere P child := by
  cases hchild : child.isMissing with
  | true => exact Or.inl (eq_missing hchild)
  | false => exact Or.inr ((everywhere_iff.mp h).2 child (mem_children hslot hchild))

/-- What holds everywhere in a tree holds everywhere in each part of it. -/
theorem Everywhere.parts {P : Tree → Prop} {t : Tree} (h : Everywhere P t) :
    Everywhere (Everywhere P) t := by
  induction t using spots.induct with
  | _ t ih =>
    refine everywhere_iff.mpr ⟨h, fun child hchild => ?_⟩
    rw [← map_fst_visits] at hchild
    obtain ⟨visit, hvisit, rfl⟩ := List.mem_map.mp hchild
    refine ih ⟨visit, hvisit⟩ ((everywhere_iff.mp h).2 visit.1 ?_)
    rw [← map_fst_visits]
    exact List.mem_map_of_mem hvisit

/-! ## Functions and their places -/

/-- The walk meets the functions of the plain listing. -/
theorem definitions_eq (t : Tree) : t.definitions = t.preorder.filterMap definition? := by
  rw [definitions, walk_eq]
  cases t with
  | missing => rfl
  | _ => rfl

/-- The functions of a tree are its root, if that is one, and those of its children. -/
theorem filterMap_preorder (t : Tree) :
    t.preorder.filterMap definition?
      = t.definition?.toList ++ t.children.flatMap fun child =>
        child.preorder.filterMap definition? := by
  rw [preorder_eq_cons, preorderAll_eq_flatMap, ← List.filterMap_flatMap]
  cases h : t.definition? with
  | none =>
    rw [List.filterMap_cons_none h]
    rfl
  | some d =>
    rw [List.filterMap_cons_some h]
    rfl

/-- The functions of a tree are what stands as a function at some place of it. -/
theorem mem_definitions {t : Tree} {d : Definition} :
    d ∈ t.definitions ↔ ∃ path, t.at? path = some (ofDefinition d) := by
  rw [definitions_eq, preorder_eq_map_spots]
  constructor
  · intro h
    obtain ⟨u, hu, hd⟩ := List.mem_filterMap.mp h
    obtain ⟨s, hs, rfl⟩ := List.mem_map.mp hu
    refine ⟨s.path, ?_⟩
    rw [← eq_ofDefinition hd]
    exact at?_of_mem_spots hs
  · rintro ⟨path, h⟩
    have hspot := mem_spots h rfl
    exact List.mem_filterMap.mpr
      ⟨_, List.mem_map.mpr ⟨_, hspot, rfl⟩, definition?_ofDefinition d⟩

end Tree

end TailLint
