import TailLint.Proofs.Reload

/-!
# The functions that come back, and their names

When a tree is printed and loaded again, its functions come back one by one, in the same order
and with the same bodies up to names further inside.  Only the names of functions that are
operands of an assignment can change, and there the name that comes back does not depend on the
name that was there: it is that of the target for the value, and none for the target.

So a function in a tree has a name and a name that it comes back with, and `Tree.comebacks` lists
the functions of a tree together with the latter.  The list is made by going down the tree and
telling each child what will become of its name (`Tree.heirs`).

* `Tree.map_fst_comebacks` --- these are the functions of the tree;
* `Tree.definitions_reloaded` --- and these are the functions of the tree that comes back;
* `Tree.forall_comebacks` --- something holds of all functions and the names they come back
  with if and only if it holds at every assignment and where the name is kept.
-/

namespace TailLint

namespace Assignment

/-- The name that a function on the left of an assignment comes back with. -/
def leftName? (a : Assignment) : Option String :=
  if a.arrow.pointsRight then a.targetName? else none

/-- The name that a function on the right of an assignment comes back with. -/
def rightName? (a : Assignment) : Option String :=
  if a.arrow.pointsRight then none else a.targetName?

end Assignment

/-- A function as it comes back under a name. -/
def Definition.restored (d : Definition) (name : Option String) : Definition :=
  { d with body := d.body.reloaded true, name := name }

namespace Tree

/-! ## Names handed down -/

/-- The children of a node, each with what becomes of the name of a function there. -/
def heirs (t : Tree) : List (Tree × (Option String → Option String)) :=
  match t.assignment? with
  | some a => [(a.left, fun _ => a.leftName?), (a.right, fun _ => a.rightName?)]
  | none => t.children.map (·, id)

theorem map_fst_heirs (t : Tree) : t.heirs.map Prod.fst = t.children := by
  unfold heirs
  cases h : t.assignment? with
  | none => exact (List.map_map).trans (List.map_id _)
  | some a =>
    obtain ⟨span, rfl⟩ := eq_expr_of_assignment? h
    rfl

theorem fst_mem_children {t : Tree} {heir : Tree × (Option String → Option String)}
    (h : heir ∈ t.heirs) : heir.1 ∈ t.children := by
  rw [← map_fst_heirs]
  exact List.mem_map_of_mem h

/-- The functions in a tree, each with the name that it comes back with; `rename` says what
becomes of the name of a function at the root. -/
def comebacks (rename : Option String → Option String) (t : Tree) :
    List (Definition × Option String) :=
  (t.definition?.map fun d => (d, rename d.name)).toList
    ++ t.heirs.attach.flatMap fun heir => heir.val.1.comebacks heir.val.2
termination_by t.size
decreasing_by exact size_lt_of_mem_children (fst_mem_children heir.property)

theorem comebacks_eq (rename : Option String → Option String) (t : Tree) :
    t.comebacks rename = (t.definition?.map fun d => (d, rename d.name)).toList
      ++ t.heirs.flatMap fun heir => heir.1.comebacks heir.2 := by
  rw [comebacks]
  congr 1
  conv_rhs => rw [← List.attach_map_subtype_val t.heirs, List.flatMap_map]

/-- Without the names they come back with, these are the functions that the linter judges. -/
theorem map_fst_comebacks (rename : Option String → Option String) (t : Tree) :
    (t.comebacks rename).map Prod.fst = t.definitions := by
  rw [definitions_eq]
  induction rename, t using comebacks.induct with
  | _ rename t ih =>
    rw [comebacks_eq, filterMap_preorder, ← map_fst_heirs, List.flatMap_map, List.map_append,
      List.map_flatMap]
    congr 1
    · cases t.definition? with
      | none => rfl
      | some d => rfl
    · exact List.flatMap_congr fun heir hheir => ih ⟨heir, hheir⟩

/-- What is asked of the children and of what becomes of their names is asked of the operands
of an assignment only, since everywhere else the name is kept. -/
theorem forall_heirs {Q : Definition → Option String → Prop} (hkept : ∀ d, Q d d.name) (t : Tree) :
    (∀ heir ∈ t.heirs, ∀ d, heir.1.definition? = some d → Q d (heir.2 d.name)) ↔
      ∀ a, t.assignment? = some a →
        (∀ d, a.left.definition? = some d → Q d a.leftName?)
          ∧ ∀ d, a.right.definition? = some d → Q d a.rightName? := by
  unfold heirs
  cases t.assignment? with
  | none =>
    refine ⟨fun _ => nofun, fun _ heir hheir d _ => ?_⟩
    obtain ⟨child, -, rfl⟩ := List.mem_map.mp hheir
    exact hkept d
  | some a =>
    constructor
    · intro h _ ha
      cases ha
      exact ⟨h _ List.mem_cons_self, h _ (List.mem_cons_of_mem _ List.mem_cons_self)⟩
    · intro h heir hheir
      obtain ⟨hleft, hright⟩ := h a rfl
      rcases List.mem_cons.mp hheir with rfl | hheir
      · exact hleft
      · rw [List.mem_singleton.mp hheir]
        exact hright

/-- Something holds of all functions of a tree and the names they come back with if and only
if it holds of the root and of the operands of each assignment. -/
theorem forall_comebacks {Q : Definition → Option String → Prop} (hkept : ∀ d, Q d d.name)
    (rename : Option String → Option String) (t : Tree) :
    (∀ x ∈ t.comebacks rename, Q x.1 x.2) ↔
      (∀ d, t.definition? = some d → Q d (rename d.name))
        ∧ Everywhere (fun u => ∀ a, u.assignment? = some a →
          (∀ d, a.left.definition? = some d → Q d a.leftName?)
            ∧ ∀ d, a.right.definition? = some d → Q d a.rightName?) t := by
  induction rename, t using comebacks.induct with
  | _ rename t ih =>
    have hroot : (∀ x ∈ (t.definition?.map fun d => (d, rename d.name)).toList, Q x.1 x.2)
        ↔ ∀ d, t.definition? = some d → Q d (rename d.name) := by
      cases t.definition? with
      | none => simp
      | some d => simp
    rw [comebacks_eq, List.forall_mem_append, List.forall_mem_flatMap, hroot, everywhere_iff,
      ← forall_heirs hkept t, ← map_fst_heirs, List.forall_mem_map]
    refine and_congr_right fun _ => ?_
    constructor
    · intro h
      exact ⟨fun heir hheir => ((ih ⟨heir, hheir⟩).mp (h heir hheir)).1,
        fun heir hheir => ((ih ⟨heir, hheir⟩).mp (h heir hheir)).2⟩
    · rintro ⟨hnames, hbelow⟩ heir hheir
      exact (ih ⟨heir, hheir⟩).mpr ⟨hnames heir hheir, hbelow heir hheir⟩

/-! ## What comes back -/

/-- What comes back of a tree, where `rename` says what becomes of the name of a function at
its root. -/
def restored (rename : Option String → Option String) : Tree → Tree
  | .function parameters body name isLambda span =>
    .function parameters (reloaded true body) (rename name) isLambda span
  | t => reloaded true t

/-- A loaded tree outside assignments keeps the name at its root. -/
theorem Loaded.restored_id {spanned : Bool} {outer : Span} {t : Tree}
    (h : Loaded true spanned outer t) : t.restored id = reloaded true t := by
  cases t with
  | function parameters body name isLambda span =>
    cases isLambda with
    | false => rfl
    | true =>
      obtain rfl : name = none := h.2.1 rfl rfl
      rfl
  | _ => rfl

theorem restored_none (t : Tree) : t.restored (fun _ => none) = reloaded false t := by
  cases t with
  | function => rfl
  | expr => rfl
  | _ => rfl

/-- An expression comes back as an expression with as many operands. -/
theorem exists_reloaded_expr (named : Bool) (text : String) (operands : List Tree) (span : Span) :
    ∃ operands', reloaded named (.expr text operands span) = .expr text operands' span
      ∧ (operands' = [] ↔ operands = []) := by
  rcases assignment?_cases text operands span with ⟨arrow, left, right, rfl, rfl⟩ | hnone
  · rw [reloaded_assignment]
    unfold assigned
    split
    · exact ⟨_, rfl, by simp⟩
    · exact ⟨_, rfl, by simp⟩
  · rw [reloaded_expr named hnone]
    refine ⟨_, rfl, ?_⟩
    cases operands with
    | nil => simp [reloadedAll]
    | cons => simp [reloadedAll]

/-- The value of an assignment comes back with the name of the target. -/
theorem named_reloaded (target value : Tree) :
    named (reloaded false target) (reloaded false value)
      = value.restored fun _ => target.leafName? := by
  cases value with
  | function parameters body name isLambda span =>
    cases target with
    | expr text operands span' =>
      obtain ⟨operands', hback, hempty⟩ := exists_reloaded_expr false text operands span'
      rw [hback]
      cases operands with
      | nil =>
        obtain rfl := hempty.mpr rfl
        rfl
      | cons =>
        cases operands' with
        | nil => exact absurd (hempty.mp rfl) (List.cons_ne_nil _ _)
        | cons => rfl
    | _ => rfl
  | expr text operands span =>
    have hsame : (Tree.expr text operands span).restored (fun _ => none)
        = reloaded false (.expr text operands span) := restored_none _
    obtain ⟨operands', hback, -⟩ := exists_reloaded_expr false text operands span
    rw [hback] at hsame ⊢
    exact hsame.symm
  | _ => rfl

@[simp] theorem isMissing_reloaded (named : Bool) (t : Tree) :
    (reloaded named t).isMissing = t.isMissing := by
  cases t with
  | expr text operands span =>
    obtain ⟨operands', hback, -⟩ := exists_reloaded_expr named text operands span
    rw [hback]
    rfl
  | _ => rfl

theorem reloadedAll_eq_map (named : Bool) (ts : List Tree) :
    reloadedAll named ts = ts.map (reloaded named) := by
  induction ts with
  | nil => rfl
  | cons t rest ih => rw [reloadedAll, ih, List.map_cons]

/-- Where something is missing, nothing comes back. -/
theorem filter_isMissing_reloaded (ts : List Tree) :
    (ts.map (reloaded true)).filter (!·.isMissing)
      = (ts.filter (!·.isMissing)).map (reloaded true) := by
  rw [List.filter_map]
  congr 2
  funext t
  exact congrArg Bool.not (isMissing_reloaded true t)

/-- The children of a node that is no assignment come back with the names they write. -/
theorem children_reloaded {t : Tree} (h : t.assignment? = none) :
    (reloaded true t).children = t.children.map (reloaded true) := by
  cases t with
  | missing => rfl
  | foreign => rfl
  | block statements span => exact reloadedAll_eq_map true statements
  | conditional condition consequent alternative span =>
    exact filter_isMissing_reloaded [condition, consequent, alternative]
  | call callee arguments span => exact reloadedAll_eq_map true arguments
  | pipe => rfl
  | expr text operands span =>
    rw [reloaded_expr true h]
    exact reloadedAll_eq_map true operands
  | function parameters body name isLambda span => exact filter_isMissing_reloaded [body]

/-- What is loaded as part of a tree is loaded; the operands of an assignment are where a lambda
may have a name. -/
theorem Loaded.of_mem_children {named spanned : Bool} {outer : Span} {t child : Tree}
    (h : Loaded named spanned outer t) (hchild : child ∈ t.children) :
    ∃ spanned outer, Loaded t.assignment?.isNone spanned outer child := by
  cases t with
  | missing => exact absurd h id
  | foreign => exact absurd h id
  | block statements span => exact ⟨_, _, loadedAll_iff.mp h.2 child hchild⟩
  | conditional condition consequent alternative span =>
    obtain ⟨-, hcondition, hconsequent, halternative, -⟩ := h
    obtain ⟨hmem, hthere⟩ := List.mem_filter.mp hchild
    have hne : child ≠ .missing := by
      rintro rfl
      cases hthere
    simp only [List.mem_cons, List.not_mem_nil, or_false] at hmem
    rcases hmem with rfl | rfl | rfl
    · exact ⟨_, _, hcondition⟩
    · exact ⟨_, _, hconsequent.resolve_left hne⟩
    · exact ⟨_, _, halternative.resolve_left hne⟩
  | call callee arguments span => exact ⟨_, _, loadedAll_iff.mp h.2 child hchild⟩
  | pipe source stage operator span =>
    obtain ⟨-, -, hsource, hstage⟩ := h
    simp only [children, List.mem_cons, List.not_mem_nil, or_false] at hchild
    rcases hchild with rfl | rfl
    · exact ⟨_, _, hsource⟩
    · exact ⟨_, _, hstage⟩
  | expr text operands span => exact ⟨_, _, loadedAll_iff.mp h.2 child hchild⟩
  | function parameters body name isLambda span =>
    obtain ⟨hmem, hthere⟩ := List.mem_filter.mp hchild
    obtain rfl := List.mem_singleton.mp hmem
    refine ⟨_, _, h.2.2.resolve_left ?_⟩
    rintro rfl
    cases hthere

/-- The operands of an assignment come back with the names that it hands down. -/
theorem reloaded_of_assignment? {t : Tree} {a : Assignment} (h : t.assignment? = some a) :
    ∃ span, reloaded true t = .expr a.arrow.symbol
      [a.left.restored fun _ => a.leftName?, a.right.restored fun _ => a.rightName?] span := by
  obtain ⟨span, rfl⟩ := eq_expr_of_assignment? h
  refine ⟨span, ?_⟩
  rw [reloaded_assignment]
  unfold assigned Assignment.leftName? Assignment.rightName? Assignment.targetName?
    Assignment.target
  cases a.arrow.pointsRight with
  | false => simp [named_reloaded, restored_none]
  | true => simp [named_reloaded, restored_none]

theorem children_restored {named spanned : Bool} {outer : Span} {t : Tree}
    (h : Loaded named spanned outer t) (rename : Option String → Option String) :
    (t.restored rename).children = t.heirs.map fun heir => heir.1.restored heir.2 := by
  have hroot : (t.restored rename).children = (reloaded true t).children := by
    cases t with
    | function => rfl
    | _ => rfl
  rw [hroot]
  unfold heirs
  cases ha : t.assignment? with
  | none =>
    rw [children_reloaded ha, List.map_map]
    refine List.map_congr_left fun child hchild => ?_
    obtain ⟨spanned, outer, hloaded⟩ := h.of_mem_children hchild
    rw [ha] at hloaded
    exact hloaded.restored_id.symm
  | some a =>
    obtain ⟨span, hback⟩ := reloaded_of_assignment? ha
    rw [hback]
    rfl

theorem definition?_restored (rename : Option String → Option String) (t : Tree) :
    (t.restored rename).definition? = t.definition?.map fun d => d.restored (rename d.name) := by
  cases t with
  | expr text operands span =>
    obtain ⟨operands', hback, -⟩ := exists_reloaded_expr true text operands span
    show (reloaded true (.expr text operands span)).definition? = none
    rw [hback]
    rfl
  | _ => rfl

/-- The functions of a loaded tree come back one by one, each with the name listed for it. -/
theorem filterMap_preorder_restored {named spanned : Bool} {outer : Span} {t : Tree}
    (h : Loaded named spanned outer t) (rename : Option String → Option String) :
    (t.restored rename).preorder.filterMap definition?
      = (t.comebacks rename).map fun x => x.1.restored x.2 := by
  induction rename, t using comebacks.induct generalizing named spanned outer with
  | _ rename t ih =>
    rw [filterMap_preorder, comebacks_eq, children_restored h, definition?_restored,
      List.flatMap_map, List.map_append, List.map_flatMap]
    congr 1
    · cases t.definition? with
      | none => rfl
      | some d => rfl
    · refine List.flatMap_congr fun heir hheir => ?_
      obtain ⟨spanned, outer, hloaded⟩ := h.of_mem_children (fst_mem_children hheir)
      exact ih ⟨heir, hheir⟩ hloaded

/-- The functions of the tree that comes back. -/
theorem definitions_reloaded {spanned : Bool} {outer : Span} {t : Tree}
    (h : Loaded true spanned outer t) :
    (reloaded true t).definitions = (t.comebacks id).map fun x => x.1.restored x.2 := by
  rw [definitions_eq, ← h.restored_id]
  exact filterMap_preorder_restored h id

end Tree

end TailLint
