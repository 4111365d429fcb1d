import Mathlib
import TailLint.Proofs.Loaded
import TailLint.Proofs.TailStructure

/-!
# Spans do not influence what is said

An `at` gives the source span of the form inside it.  It may stand around any form: around a
function that is assigned, around the target of the assignment, around a stage of a pipe, or around
another `at`.  Taking all of them out of a form (`Form.unlocated`) must leave a form that is loaded
as the same tree without its spans, and nothing that the linter says may change except where it
points.

Not every list that begins with `at` is one.  The parameters of a function may be called `at`, and
comments may hold anything.  What keeps these apart is that an `at` has four whole numbers, and no
whole number is a name.

* `Tree.load_unlocated` --- whatever is loaded is loaded in every context once its `at`s are taken
  out, as the same tree with one span everywhere (`Tree.relocated`);
* `Tree.tailAlike_relocated` --- a tree has the same tail as the tree with other spans, as far as
  spans do not count;
* `Tree.definitions_relocated` --- and it has the same functions.
-/

namespace TailLint

/-! ## Forms without an `at` -/

namespace Form

mutual

/-- A form with every list `(at n n n n form)` in it, and it itself if it is one, replaced by the
form that it locates. -/
def unlocated : Form → Form
  | .list [.symbol "at", .integer _, .integer _, .integer _, .integer _, form] => unlocated form
  | .list items => .list (unlocatedAll items)
  | .brackets items => .brackets (unlocatedAll items)
  | .quoted form => .quoted (unlocated form)
  | form => form

/-- A row of forms, each without its `at`s. -/
def unlocatedAll : List Form → List Form
  | [] => []
  | form :: rest => unlocated form :: unlocatedAll rest

end

theorem unlocatedAll_eq_map (forms : List Form) : unlocatedAll forms = forms.map unlocated := by
  induction forms with
  | nil => rfl
  | cons form rest ih => rw [unlocatedAll, ih, List.map_cons]

theorem unlocated_located (line₁ column₁ line₂ column₂ : Int) (form : Form) :
    (Form.list [.symbol "at", .integer line₁, .integer column₁, .integer line₂, .integer column₂,
      form]).unlocated = form.unlocated := by
  rw [unlocated]

/-- A list with another symbol at its head is no `at`. -/
theorem unlocated_tagged {name : String} (hname : name ≠ "at") (arguments : List Form) :
    (Form.list (.symbol name :: arguments)).unlocated
      = .list (.symbol name :: arguments.map unlocated) := by
  rw [unlocated]
  · rw [unlocatedAll, unlocatedAll_eq_map]
    rfl
  · intro _ _ _ _ _ hlist
    exact hname (Form.symbol.inj (List.cons.inj hlist).1)

/-- A comment is still one. -/
theorem isComment_unlocated {form : Form} (h : form.isComment = true) :
    form.unlocated.isComment = true := by
  unfold isComment at h
  split at h
  · next name arguments =>
    obtain rfl : name = "comment" := of_decide_eq_true h
    rw [unlocated_tagged (by decide)]
    rfl
  · cases h

end Form

/-! ## Names and parameters -/

namespace Context

/-- What is a name in one context is one in every context. -/
theorem name_congr {context : Context} (context' : Context) {form : Form} {name : String}
    (h : context.name form = .ok name) : context'.name form = .ok name := by
  cases form with
  | symbol => exact h
  | string => exact h
  | float value =>
    unfold Context.name at h ⊢
    dsimp only at h ⊢
    split at h
    · cases h
    · next hfinite => rw [if_neg hfinite, h]
  | _ => cases h

/-- There is no `at` in a name. -/
theorem unlocated_of_name {context : Context} {form : Form} {name : String}
    (h : context.name form = .ok name) : form.unlocated = form := by
  cases form with
  | symbol => rfl
  | string => rfl
  | float => rfl
  | _ => cases h

theorem names_unlocated {context : Context} (context' : Context) {forms : List Form}
    {names : List String} (h : context.names forms = .ok names) :
    forms.map Form.unlocated = forms ∧ context'.names forms = .ok names := by
  induction forms generalizing names with
  | nil =>
    cases h
    exact ⟨rfl, rfl⟩
  | cons form rest ih =>
    obtain ⟨name, hname, h⟩ := bind_eq_ok_iff.mp h
    obtain ⟨names, hnames, h⟩ := bind_eq_ok_iff.mp h
    cases h
    obtain ⟨hsame, hrest⟩ := ih hnames
    refine ⟨by rw [List.map_cons, unlocated_of_name hname, hsame], ?_⟩
    rw [Context.names, name_congr context' hname, hrest]
    rfl

/-- A list of parameters is none of those that are taken out: a number is no parameter. -/
theorem unlocated_of_names {context : Context} {forms : List Form} {names : List String}
    (h : context.names forms = .ok names) : (Form.list forms).unlocated = .list forms := by
  rw [Form.unlocated]
  · rw [Form.unlocatedAll_eq_map, (names_unlocated context h).1]
  · rintro line₁ _ _ _ _ rfl
    obtain ⟨_, -, h⟩ := bind_eq_ok_iff.mp h
    obtain ⟨_, hnames, -⟩ := bind_eq_ok_iff.mp h
    obtain ⟨_, hnumber, -⟩ := bind_eq_ok_iff.mp hnames
    cases hnumber

theorem parameters_unlocated {context : Context} (context' : Context) {form : Form}
    {names : List String} (h : context.parameters form = .ok names) :
    context'.parameters form.unlocated = .ok names := by
  cases form with
  | list forms =>
    have hnames : context.names forms = .ok names := h
    rw [unlocated_of_names hnames]
    exact (names_unlocated context' hnames).2
  | _ => cases h

theorem name_unlocated {context : Context} (context' : Context) {form : Form} {name : String}
    (h : context.name form = .ok name) : context'.name form.unlocated = .ok name := by
  rw [unlocated_of_name h]
  exact name_congr context' h

end Context

/-! ## Trees with other spans -/

namespace Tree

mutual

/-- A tree with the same span everywhere. -/
def relocated (span : Span) : Tree → Tree
  | .missing => .missing
  | .foreign value => .foreign value
  | .block statements _ => .block (relocatedAll span statements) span
  | .conditional condition consequent alternative _ =>
    .conditional (relocated span condition) (relocated span consequent)
      (relocated span alternative) span
  | .call callee arguments _ => .call callee (relocatedAll span arguments) span
  | .pipe source stage operator _ =>
    .pipe (relocated span source) (relocated span stage) operator span
  | .expr text operands _ => .expr text (relocatedAll span operands) span
  | .function parameters body name isLambda _ =>
    .function parameters (relocated span body) name isLambda span

/-- A row of trees with the same span everywhere. -/
def relocatedAll (span : Span) : List Tree → List Tree
  | [] => []
  | t :: rest => relocated span t :: relocatedAll span rest

end

theorem relocatedAll_eq_map (span : Span) (ts : List Tree) :
    relocatedAll span ts = ts.map (relocated span) := by
  induction ts with
  | nil => rfl
  | cons t rest ih => rw [relocatedAll, ih, List.map_cons]

@[simp] theorem isMissing_relocated (span : Span) (t : Tree) :
    (t.relocated span).isMissing = t.isMissing := by
  cases t <;> rfl

@[simp] theorem isPipe_relocated (span : Span) (t : Tree) :
    (t.relocated span).isPipe = t.isPipe := by
  cases t <;> rfl

/-- Only the last of two spans is left. -/
theorem relocated_relocated (span span' : Span) (t : Tree) :
    (t.relocated span').relocated span = t.relocated span := by
  induction t using induction_on_slots with
  | step t ih =>
    have hall (ts : List Tree) (hslots : ∀ child ∈ ts, child ∈ t.slots) :
        relocatedAll span (relocatedAll span' ts) = relocatedAll span ts := by
      simp only [relocatedAll_eq_map, List.map_map]
      exact List.map_congr_left fun child hchild => ih child (hslots child hchild)
    cases t with
    | missing => rfl
    | foreign => rfl
    | block statements => simp only [relocated, hall statements fun _ => id]
    | conditional condition consequent alternative =>
      simp only [relocated, ih condition (by simp [slots]), ih consequent (by simp [slots]),
        ih alternative (by simp [slots])]
    | call callee arguments => simp only [relocated, hall arguments fun _ => id]
    | pipe source stage =>
      simp only [relocated, ih source (by simp [slots]), ih stage (by simp [slots])]
    | expr text operands => simp only [relocated, hall operands fun _ => id]
    | function parameters body => simp only [relocated, ih body (by simp [slots])]

/-- A function gets the same name from its assignment, wherever the two stand. -/
theorem named_relocated (span : Span) (target value : Tree) :
    (named target value).relocated span = named (target.relocated span) (value.relocated span) := by
  cases value with
  | function parameters body name isLambda span' =>
    cases name with
    | some name => rfl
    | none =>
      cases target with
      | expr text operands span'' =>
        cases operands with
        | nil => rfl
        | cons => rfl
      | _ => rfl
  | _ => rfl

theorem assigned_relocated (arrow : Arrow) (left right : Tree) (span span' : Span) :
    (assigned arrow left right span').relocated span
      = assigned arrow (left.relocated span) (right.relocated span) span := by
  unfold assigned
  split
  · simp only [relocated, relocatedAll, named_relocated]
  · simp only [relocated, relocatedAll, named_relocated]

/-! ## Loading without an `at` -/

/-- A comment is no tree. -/
theorem isComment_of_load {context : Context} {form : Form} {t : Tree}
    (h : load context form = .ok t) : form.isComment = false := by
  cases loads_of_load h with
  | assignment arrow => cases arrow <;> rfl
  | _ => rfl

theorem loadAll_unlocated {context context' : Context} {forms : List Form} {ts : List Tree}
    (h : loadAll context forms = .ok ts)
    (hforms : ∀ form ∈ forms, ∀ t, load context form = .ok t →
      load context' form.unlocated = .ok (t.relocated context'.span)) :
    loadAll context' (forms.map Form.unlocated) = .ok (relocatedAll context'.span ts) := by
  rw [relocatedAll_eq_map]
  rw [loadAll_eq_ok_iff] at h ⊢
  induction h with
  | nil => exact .nil
  | cons hload _ ih =>
    exact .cons (hforms _ List.mem_cons_self _ hload)
      (ih fun form hform => hforms form (List.mem_cons_of_mem _ hform))

/-- The statements of a block are loaded without their `at`s, and its comments are still left
out. -/
theorem loadStatements_unlocated {context context' : Context} {forms : List Form} {ts : List Tree}
    (h : loadStatements context forms = .ok ts)
    (hforms : ∀ form ∈ forms, ∀ t, load context form = .ok t →
      load context' form.unlocated = .ok (t.relocated context'.span)) :
    loadStatements context' (forms.map Form.unlocated) = .ok (relocatedAll context'.span ts) := by
  induction forms generalizing ts with
  | nil =>
    cases h
    rfl
  | cons form rest ih =>
    have hrest {us : List Tree} (hus : loadStatements context rest = .ok us) :=
      ih hus fun form hform => hforms form (List.mem_cons_of_mem _ hform)
    rw [loadStatements] at h
    rw [List.map_cons, loadStatements]
    split at h
    · next hcomment =>
      rw [if_pos (Form.isComment_unlocated hcomment)]
      exact hrest h
    · obtain ⟨t, ht, h⟩ := bind_eq_ok_iff.mp h
      obtain ⟨us, hus, h⟩ := bind_eq_ok_iff.mp h
      cases h
      have hload := hforms form List.mem_cons_self t ht
      rw [if_neg (Bool.eq_false_iff.mp (isComment_of_load hload)), hload, hrest hus]
      rfl

/-- Whatever is loaded is loaded in every context once its `at`s are taken out: all nodes then have
the span of the context. -/
theorem load_unlocated {context : Context} {form : Form} {t : Tree}
    (h : load context form = .ok t) (context' : Context) :
    load context' form.unlocated = .ok (t.relocated context'.span) := by
  induction form using Form.induction_on_items generalizing context t with
  | step form ih =>
    have hitem {items : List Form} (hform : form = .list items) {item : Form}
        (hmem : item ∈ items) {c : Context} {u : Tree} (hu : load c item = .ok u) :
        load context' item.unlocated = .ok (u.relocated context'.span) :=
      ih items hform item hmem hu
    cases loads_of_load h with
    | symbol => rfl
    | string => rfl
    | integer hshort => exact load_integer_of_short hshort
    | float => rfl
    | located hspan hform =>
      obtain ⟨⟨rfl, rfl, rfl, rfl⟩, -, -⟩ := Context.readSpan_eq_ok_iff.mp hspan
      rw [Form.unlocated_located]
      exact hitem rfl (by simp) hform
    | block hstatements =>
      rw [Form.unlocated_tagged (by decide)]
      refine load_of_loads (.block (loadStatements_unlocated hstatements fun item hmem _ hu => ?_))
      exact hitem rfl (List.mem_cons_of_mem _ hmem) hu
    | condition hcondition =>
      rw [Form.unlocated_tagged (by decide)]
      exact load_of_loads (.condition (hitem rfl (by simp) hcondition))
    | consequent hcondition hconsequent =>
      rw [Form.unlocated_tagged (by decide)]
      exact load_of_loads (.consequent (hitem rfl (by simp) hcondition)
        (hitem rfl (by simp) hconsequent))
    | alternative hcondition hconsequent halternative =>
      rw [Form.unlocated_tagged (by decide)]
      exact load_of_loads (.alternative (hitem rfl (by simp) hcondition)
        (hitem rfl (by simp) hconsequent) (hitem rfl (by simp) halternative))
    | call hcallee harguments =>
      rw [Form.unlocated_tagged (by decide)]
      refine load_of_loads (.call (Context.name_unlocated context' hcallee)
        (loadAll_unlocated harguments fun item hmem _ hu => ?_))
      exact hitem rfl (by simp [hmem]) hu
    | pipe hsource hstage =>
      rw [Form.unlocated_tagged (by decide)]
      exact load_of_loads (.pipe (hitem rfl (by simp) hsource) (hitem rfl (by simp) hstage))
    | pipeWith hoperator hsource hstage =>
      obtain ⟨hname, hknown⟩ := Context.operator_eq_ok_iff.mp hoperator
      rw [Form.unlocated_tagged (by decide)]
      exact load_of_loads (.pipeWith
        (Context.operator_eq_ok_iff.mpr ⟨Context.name_unlocated context' hname, hknown⟩)
        (hitem rfl (by simp) hsource) (hitem rfl (by simp) hstage))
    | header hparameters =>
      rw [Form.unlocated_tagged (by decide), List.map_singleton,
        Context.unlocated_of_names hparameters]
      exact load_of_loads (.header (Context.names_unlocated context' hparameters).2)
    | function hparameters hbody =>
      rw [Form.unlocated_tagged (by decide), List.map_cons, List.map_singleton,
        Context.unlocated_of_names hparameters]
      exact load_of_loads (.function (Context.names_unlocated context' hparameters).2
        (hitem rfl (by simp) hbody))
    | namedHeader hname hparameters =>
      rw [Form.unlocated_tagged (by decide)]
      exact load_of_loads (.namedHeader (Context.name_unlocated context' hname)
        (Context.parameters_unlocated context' hparameters))
    | namedFunction hname hparameters hbody =>
      rw [Form.unlocated_tagged (by decide)]
      exact load_of_loads (.namedFunction (Context.name_unlocated context' hname)
        (Context.parameters_unlocated context' hparameters) (hitem rfl (by simp) hbody))
    | lambdaHeader hparameters =>
      rw [Form.unlocated_tagged (by decide)]
      exact load_of_loads (.lambdaHeader (Context.parameters_unlocated context' hparameters))
    | lambda hparameters hbody =>
      rw [Form.unlocated_tagged (by decide)]
      exact load_of_loads (.lambda (Context.parameters_unlocated context' hparameters)
        (hitem rfl (by simp) hbody))
    | assignment arrow hleft hright =>
      have harrow : arrow.symbol ≠ "at" := by cases arrow <;> decide
      rw [Form.unlocated_tagged harrow, assigned_relocated]
      exact load_of_loads (.assignment arrow (hitem rfl (by simp) hleft)
        (hitem rfl (by simp) hright))
    | expr htext hoperands =>
      rw [Form.unlocated_tagged (by decide)]
      refine load_of_loads (.expr (Context.name_unlocated context' htext)
        (loadAll_unlocated hoperands fun item hmem _ hu => ?_))
      exact hitem rfl (by simp [hmem]) hu

/-! ## The tail of a tree with other spans -/

theorem EndsIn.relocated {stage t : Tree} (h : EndsIn stage t) (span : Span) :
    EndsIn (stage.relocated span) (t.relocated span) := by
  induction h with
  | here hstage => exact .here ((isPipe_relocated span stage).trans hstage)
  | pipe source operator span' _ ih => exact .pipe (source.relocated span) operator span ih

theorem Assigns.relocated {value t : Tree} (h : Assigns value t) (span : Span) :
    Assigns (value.relocated span) (t.relocated span) := by
  cases h with
  | leftward htext target span' => exact .leftward htext (target.relocated span) span
  | rightward htext target span' => exact .rightward htext (target.relocated span) span

/-- What is assigned with other spans is something that is assigned. -/
theorem exists_assigns_of_relocated {text : String} {operands : List Tree} {value : Tree}
    {span span' : Span} (h : Assigns value ((Tree.expr text operands span').relocated span)) :
    ∃ value', Assigns value' (.expr text operands span') ∧ value = value'.relocated span := by
  rcases operands with _ | ⟨left, _ | ⟨right, _ | ⟨third, others⟩⟩⟩
  · cases h
  · cases h
  · cases h with
    | leftward htext => exact ⟨right, .leftward htext left span', rfl⟩
    | rightward htext => exact ⟨left, .rightward htext right span', rfl⟩
  · cases h

section

variable {near : Span → Span → Prop} {span : Span} (hnear : ∀ s, near s span)

include hnear

theorem stageAlike_relocated (stage : Tree) : StageAlike near stage (stage.relocated span) := by
  cases stage with
  | call callee arguments span' => exact .call callee arguments _ (hnear span')
  | _ => exact .noCall rfl rfl

theorem chainAlike_relocated (chain : Tree) : ChainAlike near chain (chain.relocated span) := by
  have hstage := endsIn_finalStage chain
  exact ⟨chain.finalStage, chain.finalStage.relocated span, hstage, hstage.relocated span,
    stageAlike_relocated hnear chain.finalStage⟩

/-- A tree has the same tail as the tree with a span everywhere that every span is `near` to. -/
theorem tailAlike_relocated (t : Tree) : TailAlike near t (t.relocated span) := by
  induction t using induction_on_slots with
  | step t ih =>
    cases t with
    | missing => exact .noNode rfl rfl
    | foreign value => exact .noNode rfl rfl
    | block statements span' =>
      rcases List.eq_nil_or_concat' statements with rfl | ⟨before, last, rfl⟩
      · exact .emptyBlock (hnear span')
      · have hlast := ih last List.mem_concat_self
        have hrow : relocatedAll span (before ++ [last])
            = relocatedAll span before ++ [last.relocated span] := by
          simp only [relocatedAll_eq_map, List.map_append, List.map_singleton]
        rw [relocated, hrow]
        exact .block before _ span' span hlast
    | conditional condition consequent alternative span' =>
      have hconsequent := ih consequent (by simp [slots])
      have halternative := ih alternative (by simp [slots])
      cases hthere : alternative.isMissing with
      | true =>
        obtain rfl := eq_missing hthere
        exact .noAlternative condition _ hconsequent (hnear span')
      | false =>
        exact .conditional condition _ span' span hconsequent halternative hthere
          ((isMissing_relocated span alternative).trans hthere)
    | call callee arguments span' => exact .call callee arguments _ (hnear span')
    | pipe source stage operator span' =>
      exact .pipe (chainAlike_relocated hnear _) (hnear span')
    | expr text operands span' =>
      by_cases hchain : ∃ chain, Assigns chain (.expr text operands span') ∧ chain.isPipe = true
      · obtain ⟨chain, hassigns, hpipe⟩ := hchain
        exact .assignedChain hassigns (hassigns.relocated span) hpipe
          ((isPipe_relocated span chain).trans hpipe) (chainAlike_relocated hnear chain)
          (hnear span')
      · have hnone (value : Tree) (hvalue : Assigns value (.expr text operands span')) :
            value.isPipe = false :=
          Bool.eq_false_iff.mpr fun hpipe => hchain ⟨value, hvalue, hpipe⟩
        refine .expr hnone (fun value hvalue => ?_) (hnear span')
        obtain ⟨value', hvalue', rfl⟩ := exists_assigns_of_relocated hvalue
        exact (isPipe_relocated span value').trans (hnone value' hvalue')
    | function parameters body name isLambda span' =>
      exact .function parameters parameters body _ name name isLambda isLambda (hnear span')

end

/-! ## The functions of a tree with other spans -/

theorem children_relocated (span : Span) (t : Tree) :
    (t.relocated span).children = t.children.map (relocated span) := by
  have hthere (ts : List Tree) : (ts.map (relocated span)).filter (!·.isMissing)
      = (ts.filter (!·.isMissing)).map (relocated span) := by
    rw [List.filter_map]
    congr 2
    funext t
    exact congrArg Bool.not (isMissing_relocated span t)
  cases t with
  | missing => rfl
  | foreign => rfl
  | block statements => exact relocatedAll_eq_map span statements
  | conditional condition consequent alternative => exact hthere [condition, consequent, alternative]
  | call callee arguments => exact relocatedAll_eq_map span arguments
  | pipe => rfl
  | expr text operands => exact relocatedAll_eq_map span operands
  | function parameters body => exact hthere [body]

theorem preorder_relocated (span : Span) (t : Tree) :
    (t.relocated span).preorder = t.preorder.map (relocated span) := by
  induction t using induction_on_slots with
  | step t ih =>
    rw [preorder_eq_cons, preorder_eq_cons, children_relocated, preorderAll_eq_flatMap,
      preorderAll_eq_flatMap, List.flatMap_map, List.map_cons, List.map_flatMap]
    congr 1
    exact List.flatMap_congr fun child hchild => ih child (mem_slots hchild)

end Tree

/-- A function with the same span everywhere. -/
def Definition.relocated (span : Span) (d : Definition) : Definition :=
  { d with body := d.body.relocated span, span := span }

/-- The functions of a tree with other spans are its functions with other spans. -/
theorem Tree.definitions_relocated (span : Span) (t : Tree) :
    (t.relocated span).definitions = t.definitions.map (Definition.relocated span) := by
  rw [definitions_eq, definitions_eq, preorder_relocated, List.filterMap_map, List.map_filterMap]
  refine List.filterMap_congr fun u _ => ?_
  cases u <;> rfl

/-! ## What is said -/

/-- What a diagnostic says, apart from where it points and in which file. -/
def Diagnostic.verdict (d : Diagnostic) : String × Severity × String × Option String :=
  (d.errorId, d.severity, d.message, d.function)

theorem Diagnostic.Alike.verdict_eq {near : Span → Span → Prop} {d d' : Diagnostic}
    (h : Diagnostic.Alike near d d') : d.verdict = d'.verdict := by
  rw [← h.others]
  rfl

/-- Spans do not matter for what is said of a tree. -/
theorem Tree.map_verdict_lint_relocated (span : Span) (policy : Policy) (file : String)
    (t : Tree) :
    ((t.relocated span).lint policy file).map Diagnostic.verdict
      = (t.lint policy file).map Diagnostic.verdict := by
  unfold lint
  rw [definitions_relocated, List.flatMap_map, List.map_flatMap, List.map_flatMap]
  refine List.flatMap_congr fun d _ => ?_
  have htail : TailAlike (fun _ _ => True) d.body (d.relocated span).body :=
    tailAlike_relocated (fun _ => trivial) d.body
  have hname : d.name = (d.relocated span).name := rfl
  have hsame := List.rel_map (fun _ _ h => Diagnostic.Alike.verdict_eq h)
    (Definition.lint_alike hname htail policy file)
  rw [List.forall₂_eq_eq_eq] at hsame
  exact hsame.symm

/-- A form that is loaded is also loaded without its `at`s.  The two trees differ in their spans
only, and whatever the policy, the same is said of them in the same order. -/
theorem Tree.lint_unlocated {form : Form} {t : Tree} (h : load {} form = .ok t) :
    ∃ t', load {} form.unlocated = .ok t' ∧ t'.relocated {} = t.relocated {}
      ∧ ∀ policy file, (t'.lint policy file).map Diagnostic.verdict
          = (t.lint policy file).map Diagnostic.verdict := by
  refine ⟨t.relocated {}, load_unlocated h {}, relocated_relocated {} {} t, fun policy file => ?_⟩
  exact map_verdict_lint_relocated {} policy file t

/-- Two `at`s around a function that is assigned, one around the target and one around the last
stage, with a parameter that is called `at`.  The function is named as before, and what is said of it
no longer points anywhere. -/
theorem Tree.lint_unlocated_assigned :
    ∃ (form : Form) (t t' : Tree), load {} form = .ok t ∧ load {} form.unlocated = .ok t'
      ∧ t'.relocated {} = t.relocated {}
      ∧ (t'.lint .default "").map Diagnostic.verdict = (t.lint .default "").map Diagnostic.verdict
      ∧ (t.lint .default "").map (fun d => (d.function, d.errorId, d.span))
        = [(some "f", "pipeReturn", .of 3 5 3 9)] := by
  let located (line₁ column₁ line₂ column₂ : Int) (form : Form) : Form :=
    .list [.symbol "at", .integer line₁, .integer column₁, .integer line₂, .integer column₂, form]
  let stage : Form := located 3 5 3 9 (.list [.symbol "call", .symbol "return"])
  let form : Form := located 1 1 9 9 (.list [.symbol "<-", located 2 1 2 1 (.symbol "f"),
    located 2 3 8 9 (located 2 3 8 8 (.list [.symbol "function",
      .list [.symbol "at", .symbol "x"], .list [.symbol "pipe", .symbol "x", stage]]))])
  let t : Tree := .expr "<-" [.expr "f" [] (.of 2 1 2 1), .function ["at", "x"]
    (.pipe (.expr "x" [] (.of 2 3 8 8)) (.call "return" [] (.of 3 5 3 9)) "%>%" (.of 2 3 8 8))
    (some "f") false (.of 2 3 8 8)] (.of 1 1 9 9)
  have hload : load {} form = .ok t := by cbv
  obtain ⟨t', hload', hsame, hverdicts⟩ := lint_unlocated hload
  exact ⟨form, t, t', hload, hload', hsame, hverdicts .default "", by cbv⟩

end TailLint
