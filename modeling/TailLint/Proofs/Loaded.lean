import TailLint.Proofs.Loading

/-!
# What every loaded tree satisfies

A tree that was loaded from a text is far from arbitrary.  There are no holes in it except
where the notation allows something to be left out, its pipes have one of the two known
operators, and only an assignment gives a name to a lambda.  The subtle part are the spans.

A node has the span of the nearest `at` around it, and an `at` is only checked against the
nearest `at` around *that*, if there is one.  So whether the span of a node has to lie
inside the span of its parent depends on whether some `at` stands around the parent, and
this cannot be seen from the tree: a parent with the default span may have inherited it
from nowhere, or from an `at` that says so.  The invariant therefore carries a flag beside
the outer span (`spanned`), which is raised as soon as a span changes on the way down
(`within`).  It may be lower than the flag of the run that loaded the tree, and that does no
harm, because a lowered flag asks for less (`Loaded.widen`).

* `Tree.Loaded` --- the invariant.
* `Tree.loaded_of_load` --- what is loaded from a form with short numbers has it.
* `Tree.loaded_of_parse` --- what is loaded from a text has it.
-/

namespace TailLint

/-! ## The checks of the loader, as predicates -/

namespace Context

theorem integer_eq_ok_iff {context : Context} {form : Form} {n : Int} :
    context.integer form = .ok n ↔ form = .integer n := by
  constructor
  · intro h
    cases form with
    | integer => cases h; rfl
    | _ => cases h
  · rintro rfl
    rfl

/-- An `at` is accepted if its numbers are integers, it does not end before it starts, and
it lies inside the span around it, if there is one. -/
theorem readSpan_eq_ok_iff {context : Context} {whole line₁ column₁ line₂ column₂ : Form}
    {span : Span} :
    context.readSpan whole line₁ column₁ line₂ column₂ = .ok span
      ↔ (line₁ = .integer span.start.line ∧ column₁ = .integer span.start.column
          ∧ line₂ = .integer span.stop.line ∧ column₂ = .integer span.stop.column)
        ∧ span.WellPlaced ∧ (context.spanned = true → context.span.Contains span) := by
  simp only [readSpan, bind_eq_ok_iff, integer_eq_ok_iff]
  constructor
  · rintro ⟨l₁, rfl, c₁, rfl, l₂, rfl, c₂, rfl, h⟩
    split at h
    · cases h
    · next hplaced =>
      split at h
      · cases h
      · next hinside =>
        cases h
        refine ⟨⟨rfl, rfl, rfl, rfl⟩, Decidable.not_not.mp hplaced, fun hspanned => ?_⟩
        exact Decidable.not_not.mp fun hc => hinside ⟨hspanned, hc⟩
  · rintro ⟨⟨rfl, rfl, rfl, rfl⟩, hplaced, hinside⟩
    refine ⟨_, rfl, _, rfl, _, rfl, _, rfl, ?_⟩
    have heq : Span.of span.start.line span.start.column span.stop.line span.stop.column = span :=
      rfl
    rw [heq, if_neg (fun hc => hc hplaced), if_neg (fun hc => hc.2 (hinside hc.1))]
    rfl

theorem operator_eq_ok_iff {context : Context} {whole form : Form} {operator : String} :
    context.operator whole form = .ok operator
      ↔ context.name form = .ok operator ∧ operator ∈ pipeOperators := by
  rw [Context.operator, bind_eq_ok_iff]
  constructor
  · rintro ⟨name, hname, h⟩
    split at h
    · next hmem =>
      cases h
      exact ⟨hname, List.contains_iff_mem.mp hmem⟩
    · cases h
  · rintro ⟨hname, hmem⟩
    refine ⟨operator, hname, ?_⟩
    rw [if_pos (List.contains_iff_mem.mpr hmem)]
    rfl

end Context

namespace Tree

/-! ## The invariant -/

/-- Whether a node with the given span may stand inside the outer span.  It may share it;
a span of its own is well placed and, below an `at`, lies inside the outer one. -/
def Admits (spanned : Bool) (outer span : Span) : Prop :=
  span = outer ∨ span.WellPlaced ∧ span.Short ∧ (spanned = true → outer.Contains span)

/-- Whether the children of a node stand below an `at`, as far as can be seen from the
spans: they do if the node does, or if its span is not the outer one. -/
def within (spanned : Bool) (outer span : Span) : Bool := spanned || decide (span ≠ outer)

@[simp] theorem within_self (spanned : Bool) (outer : Span) :
    within spanned outer outer = spanned := by
  simp [within]

mutual

/-- What every loaded tree satisfies inside a node with the span `outer`.  The flag
`spanned` says whether an `at` stands around that node, and `named` whether a function at
the root of the tree writes its own name. -/
def Loaded (named spanned : Bool) (outer : Span) : Tree → Prop
  | .missing | .foreign _ => False
  | .block statements span =>
    Admits spanned outer span ∧ LoadedAll true (within spanned outer span) span statements
  | .conditional condition consequent alternative span =>
    Admits spanned outer span ∧ Loaded true (within spanned outer span) span condition
      ∧ (consequent = .missing ∨ Loaded true (within spanned outer span) span consequent)
      ∧ (alternative = .missing ∨ Loaded true (within spanned outer span) span alternative)
      ∧ (consequent = .missing → alternative = .missing)
  | .call _ arguments span =>
    Admits spanned outer span ∧ LoadedAll true (within spanned outer span) span arguments
  | .pipe source stage operator span =>
    Admits spanned outer span ∧ operator ∈ pipeOperators
      ∧ Loaded true (within spanned outer span) span source
      ∧ Loaded true (within spanned outer span) span stage
  | .expr text operands span =>
    Admits spanned outer span
      ∧ LoadedAll (assignment? (.expr text operands span)).isNone
          (within spanned outer span) span operands
  | .function _ body name isLambda span =>
    Admits spanned outer span ∧ (named = true → isLambda = true → name = none)
      ∧ (body = .missing ∨ Loaded true (within spanned outer span) span body)

/-- What every loaded row of trees satisfies. -/
def LoadedAll (named spanned : Bool) (outer : Span) : List Tree → Prop
  | [] => True
  | t :: rest => Loaded named spanned outer t ∧ LoadedAll named spanned outer rest

end

theorem loadedAll_iff {named spanned : Bool} {outer : Span} {ts : List Tree} :
    LoadedAll named spanned outer ts ↔ ∀ t ∈ ts, Loaded named spanned outer t := by
  induction ts with
  | nil => simp [LoadedAll]
  | cons t rest ih => simp [LoadedAll, ih]

/-- A span that was accepted inside an accepted span is accepted outside it. -/
theorem Admits.widen {spanned : Bool} {outer middle span : Span} (hplaced : middle.WellPlaced)
    (hshort : middle.Short) (hinside : spanned = true → outer.Contains middle)
    (h : Admits true middle span) :
    (span.WellPlaced ∧ span.Short) ∧ Admits spanned outer span := by
  rcases h with rfl | ⟨hspan, hspanShort, hcontains⟩
  · exact ⟨⟨hplaced, hshort⟩, Or.inr ⟨hplaced, hshort, hinside⟩⟩
  · refine ⟨⟨hspan, hspanShort⟩, Or.inr ⟨hspan, hspanShort, fun hspanned => ?_⟩⟩
    exact (hinside hspanned).trans (hcontains rfl)

mutual

/-- A tree inside an `at` also fits into what is around the `at`. -/
theorem Loaded.widen {named spanned : Bool} {outer middle : Span} :
    ∀ {t : Tree}, middle.WellPlaced → middle.Short → (spanned = true → outer.Contains middle) →
      Loaded named true middle t → Loaded named spanned outer t
  | .missing, _, _, _, h => h
  | .foreign _, _, _, _, h => h
  | .block statements span, hplaced, hshort, hinside, ⟨hadmits, hstatements⟩ => by
    obtain ⟨hspan, hadmits⟩ := hadmits.widen hplaced hshort hinside
    exact ⟨hadmits, LoadedAll.relax hspan.1 hspan.2 hstatements⟩
  | .conditional condition consequent alternative span, hplaced, hshort, hinside,
      ⟨hadmits, hcondition, hconsequent, halternative, hbranches⟩ => by
    obtain ⟨hspan, hadmits⟩ := hadmits.widen hplaced hshort hinside
    refine ⟨hadmits, ?_, hconsequent.imp_right fun h => ?_, halternative.imp_right fun h => ?_,
      hbranches⟩
    · exact Loaded.widen hspan.1 hspan.2 (fun _ => .refl span) hcondition
    · exact Loaded.widen hspan.1 hspan.2 (fun _ => .refl span) h
    · exact Loaded.widen hspan.1 hspan.2 (fun _ => .refl span) h
  | .call _ arguments span, hplaced, hshort, hinside, ⟨hadmits, harguments⟩ => by
    obtain ⟨hspan, hadmits⟩ := hadmits.widen hplaced hshort hinside
    exact ⟨hadmits, LoadedAll.relax hspan.1 hspan.2 harguments⟩
  | .pipe source stage operator span, hplaced, hshort, hinside,
      ⟨hadmits, hoperator, hsource, hstage⟩ => by
    obtain ⟨hspan, hadmits⟩ := hadmits.widen hplaced hshort hinside
    refine ⟨hadmits, hoperator, ?_, ?_⟩
    · exact Loaded.widen hspan.1 hspan.2 (fun _ => .refl span) hsource
    · exact Loaded.widen hspan.1 hspan.2 (fun _ => .refl span) hstage
  | .expr _ operands span, hplaced, hshort, hinside, ⟨hadmits, hoperands⟩ => by
    obtain ⟨hspan, hadmits⟩ := hadmits.widen hplaced hshort hinside
    exact ⟨hadmits, LoadedAll.relax hspan.1 hspan.2 hoperands⟩
  | .function _ body _ _ span, hplaced, hshort, hinside, ⟨hadmits, hname, hbody⟩ => by
    obtain ⟨hspan, hadmits⟩ := hadmits.widen hplaced hshort hinside
    refine ⟨hadmits, hname, hbody.imp_right fun h => ?_⟩
    exact Loaded.widen hspan.1 hspan.2 (fun _ => .refl span) h

/-- A row of trees below an `at` also fits where the `at` is not known of. -/
theorem LoadedAll.relax {named spanned : Bool} {span : Span} :
    ∀ {ts : List Tree}, span.WellPlaced → span.Short → LoadedAll named true span ts →
      LoadedAll named spanned span ts
  | [], _, _, _ => trivial
  | _ :: _, hplaced, hshort, ⟨h, hrest⟩ =>
    ⟨Loaded.widen hplaced hshort (fun _ => .refl span) h, LoadedAll.relax hplaced hshort hrest⟩

end

/-! ## Names -/

/-- What may write its name may also leave it out. -/
theorem Loaded.unnamed {named spanned : Bool} {outer : Span} {t : Tree}
    (h : Loaded named spanned outer t) : Loaded false spanned outer t := by
  cases t with
  | function parameters body name isLambda span =>
    obtain ⟨hadmits, -, hbody⟩ := h
    exact ⟨hadmits, nofun, hbody⟩
  | _ => exact h

/-- The name that an assignment gives does not matter inside the assignment. -/
theorem Loaded.named {spanned : Bool} {outer : Span} (target : Tree) {t : Tree}
    (h : Loaded false spanned outer t) : Loaded false spanned outer (named target t) := by
  unfold Tree.named
  split
  · obtain ⟨hadmits, -, hbody⟩ := h
    exact ⟨hadmits, nofun, hbody⟩
  · exact h

/-! ## Loading -/

theorem loaded_leaf {named spanned : Bool} (text : String) (span : Span) :
    Loaded named spanned span (.expr text [] span) :=
  ⟨Or.inl rfl, trivial⟩

/-- An expression with the text of an arrow and two operands is an assignment. -/
theorem assignment?_arrow (arrow : Arrow) (left right : Tree) (span : Span) :
    (Tree.expr arrow.symbol [left, right] span).assignment? = some ⟨arrow, left, right⟩ := by
  simp [assignment?]

theorem loaded_assigned {spanned : Bool} {span : Span} (arrow : Arrow) {left right : Tree}
    (hleft : Loaded true spanned span left) (hright : Loaded true spanned span right) :
    Loaded true spanned span (assigned arrow left right span) := by
  unfold assigned
  split
  · rw [Loaded, assignment?_arrow, within_self]
    exact ⟨Or.inl rfl, hleft.unnamed.named right, hright.unnamed, trivial⟩
  · rw [Loaded, assignment?_arrow, within_self]
    exact ⟨Or.inl rfl, hleft.unnamed, hright.unnamed.named left, trivial⟩

/-- A row of loaded trees, one for each form. -/
theorem loadedAll_of_forall₂ {context : Context} {forms : List Form} {ts : List Tree}
    (hrow : List.Forall₂ (fun form t => load context form = .ok t) forms ts)
    (hforms : ∀ form ∈ forms, ∀ t, load context form = .ok t →
      Loaded true context.spanned context.span t) :
    LoadedAll true context.spanned context.span ts := by
  induction hrow with
  | nil => trivial
  | cons hload _ ih =>
    exact ⟨hforms _ List.mem_cons_self _ hload,
      ih fun form hform => hforms form (List.mem_cons_of_mem _ hform)⟩

/-- What is loaded from a form whose whole numbers are short satisfies the invariant. -/
theorem loaded_of_load {form : Form} {context : Context} {t : Tree} (hshort : form.Short)
    (h : load context form = .ok t) : Loaded true context.spanned context.span t := by
  induction form using Form.induction_on_items generalizing context t with
  | step form ih =>
    have hitem {items : List Form} (hform : form = .list items) {item : Form}
        (hmem : item ∈ items) {c : Context} {u : Tree} (hu : load c item = .ok u) :
        Loaded true c.spanned c.span u := by
      rw [hform] at hshort
      exact ih items hform item hmem (Form.shortAll_iff.mp hshort item hmem) hu
    cases loads_of_load h with
    | symbol => exact loaded_leaf _ _
    | string => exact loaded_leaf _ _
    | integer => exact loaded_leaf _ _
    | float => exact loaded_leaf _ _
    | located hspan hform =>
      -- the only place where spans change: the tree fits into the `at`, and the `at` fits
      obtain ⟨⟨rfl, rfl, rfl, rfl⟩, hplaced, hinside⟩ := Context.readSpan_eq_ok_iff.mp hspan
      have hnumbers : _ ∧ ShortInt _ ∧ ShortInt _ ∧ ShortInt _ ∧ ShortInt _ ∧ _ := hshort
      obtain ⟨-, hline₁, hcolumn₁, hline₂, hcolumn₂, -⟩ := hnumbers
      exact (hitem rfl (by simp) hform).widen hplaced ⟨hline₁, hcolumn₁, hline₂, hcolumn₂⟩ hinside
    | block hstatements =>
      rw [loadStatements_eq, loadAll_eq_ok_iff] at hstatements
      rw [Loaded, within_self]
      refine ⟨Or.inl rfl, loadedAll_of_forall₂ hstatements fun item hmem _ hu => ?_⟩
      exact hitem rfl (List.mem_cons_of_mem _ (List.mem_filter.mp hmem).1) hu
    | condition hcondition =>
      rw [Loaded, within_self]
      exact ⟨Or.inl rfl, hitem rfl (by simp) hcondition, Or.inl rfl, Or.inl rfl, fun _ => rfl⟩
    | consequent hcondition hconsequent =>
      rw [Loaded, within_self]
      exact ⟨Or.inl rfl, hitem rfl (by simp) hcondition, Or.inr (hitem rfl (by simp) hconsequent),
        Or.inl rfl, fun _ => rfl⟩
    | alternative hcondition hconsequent halternative =>
      rw [Loaded, within_self]
      have hpresent := hitem rfl (by simp) hconsequent
      refine ⟨Or.inl rfl, hitem rfl (by simp) hcondition, Or.inr hpresent,
        Or.inr (hitem rfl (by simp) halternative), ?_⟩
      rintro rfl
      exact absurd hpresent id
    | call _ harguments =>
      rw [loadAll_eq_ok_iff] at harguments
      rw [Loaded, within_self]
      refine ⟨Or.inl rfl, loadedAll_of_forall₂ harguments fun item hmem _ hu => ?_⟩
      exact hitem rfl (by simp [hmem]) hu
    | pipe hsource hstage =>
      rw [Loaded, within_self]
      exact ⟨Or.inl rfl, by decide, hitem rfl (by simp) hsource, hitem rfl (by simp) hstage⟩
    | pipeWith hoperator hsource hstage =>
      rw [Loaded, within_self]
      exact ⟨Or.inl rfl, (Context.operator_eq_ok_iff.mp hoperator).2, hitem rfl (by simp) hsource,
        hitem rfl (by simp) hstage⟩
    | header =>
      exact ⟨Or.inl rfl, fun _ _ => rfl, Or.inl rfl⟩
    | function _ hbody =>
      rw [Loaded, within_self]
      exact ⟨Or.inl rfl, fun _ _ => rfl, Or.inr (hitem rfl (by simp) hbody)⟩
    | namedHeader =>
      exact ⟨Or.inl rfl, nofun, Or.inl rfl⟩
    | namedFunction _ _ hbody =>
      rw [Loaded, within_self]
      exact ⟨Or.inl rfl, nofun, Or.inr (hitem rfl (by simp) hbody)⟩
    | lambdaHeader =>
      exact ⟨Or.inl rfl, fun _ _ => rfl, Or.inl rfl⟩
    | lambda _ hbody =>
      rw [Loaded, within_self]
      exact ⟨Or.inl rfl, fun _ _ => rfl, Or.inr (hitem rfl (by simp) hbody)⟩
    | assignment arrow hleft hright =>
      exact loaded_assigned arrow (hitem rfl (by simp) hleft) (hitem rfl (by simp) hright)
    | expr _ hoperands =>
      rw [Loaded, within_self]
      refine ⟨Or.inl rfl, ?_⟩
      have hrow : LoadedAll true context.spanned context.span _ :=
        loadedAll_of_forall₂ (loadAll_eq_ok_iff.mp hoperands) fun item hmem _ hu =>
          hitem rfl (by simp [hmem]) hu
      -- an assignment that is written as an expression leaves the names as they are
      exact loadedAll_iff.mpr fun u hu => by
        have := loadedAll_iff.mp hrow u hu
        cases (assignment? _).isNone with
        | true => exact this
        | false => exact this.unnamed

/-- What is loaded from a text satisfies the invariant. -/
theorem loaded_of_parse {file text : String} {t : Tree} (h : parse file text = .ok t) :
    Loaded true false {} t := by
  obtain ⟨form, hread, hload⟩ := parse_eq_ok_iff.mp h
  exact loaded_of_load (Form.short_of_read hread) hload

end Tree

end TailLint
