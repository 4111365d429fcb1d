import TailLint.Proofs.Refusals

/-!
# The grammar of trees

Which forms are trees can be said without saying which trees they are.  `Form.Grammatical` is that
grammar, one rule for each row of the notation, and apart from one matter the loader accepts what is
grammatical and refuses everything else.

The grammar is not free of context.  An `at` has to lie inside the `at` around it, so the rules
carry the span of the nearest `at` and a flag that says whether there is one.  Nothing else of the
context matters, the name of the file least of all.

The one matter is the size of integers.  An integer that stands as an expression becomes a leaf, a
leaf holds the text of its number, and an integer that is too long has none.  The loader breaks down
over it although nothing is wrong with the form.  So the rules are stated over a condition on these
integers (`Form.GrammaticalOver`): the grammar asks nothing of them, and what is accepted is the
grammar over short ones.  The integers of an `at` are compared and never written, so they may be as
long as they like, unless they have to be reported.

The loader checks things in an order of its own.  A name may be refused before or after the forms
beside it have been loaded, and a fault may lie anywhere below.  For what is accepted the order is
of no importance.  For what is not, it decides which fault comes first and thereby whether a long
integer is met before a refusal; but no refusal is ever unjust, and none names another file than
that of the context.

* `Form.Names` --- the forms that are names, and the names they are;
* `Form.GrammaticalOver` --- the grammar, over a condition on the integers that become leaves;
* `Tree.grammatical_of_load` --- what is loaded is grammatical over short integers;
* `Tree.overlong_of_grammatical` --- what is grammatical is loaded, unless it is too long in places.
-/

namespace TailLint

/-! ## The grammar -/

namespace Form

/-- A form that is a name, and the name it is: a symbol, a string, or a number that is not
finite. -/
inductive Names : Form → String → Prop
  | symbol (name : String) : Names (.symbol name) name
  | string (text : String) : Names (.string text) text
  | float {value : Binary64} (h : value.isFinite = false) :
      Names (.float value) (numberText value)

/-- Whether a form is a name. -/
def IsName (form : Form) : Prop := ∃ name, form.Names name

/-- Whether a form is a remark, that is, a list headed by `comment`. -/
def IsRemark (form : Form) : Prop := ∃ items, form = .list (.symbol "comment" :: items)

/-- The forms that are trees inside the given span, if `leaf` holds of the integers that stand in
them as expressions.  The flag says whether the span is that of an `at`, so that an `at` has to lie
inside it. -/
inductive GrammaticalOver (leaf : Int → Prop) : Bool → Span → Form → Prop
  | symbol {spanned : Bool} {span : Span} (name : String) :
      GrammaticalOver leaf spanned span (.symbol name)
  | string {spanned : Bool} {span : Span} (text : String) :
      GrammaticalOver leaf spanned span (.string text)
  | integer {spanned : Bool} {span : Span} {value : Int} (hvalue : leaf value) :
      GrammaticalOver leaf spanned span (.integer value)
  | float {spanned : Bool} {span : Span} (value : Binary64) :
      GrammaticalOver leaf spanned span (.float value)
  | block {spanned : Bool} {span : Span} {statements : List Form}
      (hstatements : ∀ form ∈ statements, ¬ form.IsRemark →
        GrammaticalOver leaf spanned span form) :
      GrammaticalOver leaf spanned span (.list (.symbol "block" :: statements))
  | conditional {spanned : Bool} {span : Span} {arguments : List Form}
      (hcount : 1 ≤ arguments.length ∧ arguments.length ≤ 3)
      (harguments : ∀ form ∈ arguments, GrammaticalOver leaf spanned span form) :
      GrammaticalOver leaf spanned span (.list (.symbol "if" :: arguments))
  | applied {spanned : Bool} {span : Span} {tag : String} (htag : tag ∈ ["call", "expr"])
      {name : Form} {arguments : List Form} (hname : name.IsName)
      (harguments : ∀ form ∈ arguments, GrammaticalOver leaf spanned span form) :
      GrammaticalOver leaf spanned span (.list (.symbol tag :: name :: arguments))
  | pipe {spanned : Bool} {span : Span} {source stage : Form} (operator : Option Form)
      (hsource : GrammaticalOver leaf spanned span source)
      (hstage : GrammaticalOver leaf spanned span stage)
      (hoperator : ∀ form ∈ operator, ∃ name ∈ ["%>%", "|>"], form.Names name) :
      GrammaticalOver leaf spanned span
        (.list (.symbol "pipe" :: source :: stage :: operator.toList))
  | function {spanned : Bool} {span : Span} (name : Option Form) {parameters : List Form}
      (body : Option Form) (hname : ∀ form ∈ name, form.IsName)
      (hparameters : ∀ form ∈ parameters, form.IsName)
      (hbody : ∀ form ∈ body, GrammaticalOver leaf spanned span form) :
      GrammaticalOver leaf spanned span
        (.list (.symbol "function" :: (name.toList ++ .list parameters :: body.toList)))
  | lambda {spanned : Bool} {span : Span} {parameters : List Form} (body : Option Form)
      (hparameters : ∀ form ∈ parameters, form.IsName)
      (hbody : ∀ form ∈ body, GrammaticalOver leaf spanned span form) :
      GrammaticalOver leaf spanned span
        (.list (.symbol "lambda" :: .list parameters :: body.toList))
  | assignment {spanned : Bool} {span : Span} {operator : String}
      (hoperator : operator ∈ ["<-", "=", "<<-", "->", "->>"]) {left right : Form}
      (hleft : GrammaticalOver leaf spanned span left)
      (hright : GrammaticalOver leaf spanned span right) :
      GrammaticalOver leaf spanned span (.list [.symbol operator, left, right])
  | located {spanned : Bool} {span inner : Span} {form : Form} (hplaced : inner.WellPlaced)
      (hinside : spanned = true → span.Contains inner)
      (hform : GrammaticalOver leaf true inner form) :
      GrammaticalOver leaf spanned span
        (.list [.symbol "at", .integer inner.start.line, .integer inner.start.column,
          .integer inner.stop.line, .integer inner.stop.column, form])

/-- The forms that are trees inside the given span. -/
def Grammatical (spanned : Bool) (span : Span) (form : Form) : Prop :=
  form.GrammaticalOver (fun _ => True) spanned span

/-- Whoever asks less of the integers has more forms. -/
theorem GrammaticalOver.mono {leaf leaf' : Int → Prop} {spanned : Bool} {span : Span} {form : Form}
    (h : form.GrammaticalOver leaf spanned span) (hleaf : ∀ n, leaf n → leaf' n) :
    form.GrammaticalOver leaf' spanned span := by
  induction h with
  | symbol name => exact .symbol name
  | string text => exact .string text
  | integer hvalue => exact .integer (hleaf _ hvalue)
  | float value => exact .float value
  | block _ ih => exact .block ih
  | conditional hcount _ ih => exact .conditional hcount ih
  | applied htag hname _ ih => exact .applied htag hname ih
  | pipe operator _ _ hoperator ihsource ihstage => exact .pipe operator ihsource ihstage hoperator
  | function name body hname hparameters _ ih => exact .function name body hname hparameters ih
  | lambda body hparameters _ ih => exact .lambda body hparameters ih
  | assignment hoperator _ _ ihleft ihright => exact .assignment hoperator ihleft ihright
  | located hplaced hinside _ ih => exact .located hplaced hinside ih

theorem isRemark_iff {form : Form} : form.IsRemark ↔ form.isComment = true := by
  constructor
  · rintro ⟨items, rfl⟩
    rfl
  · intro h
    unfold isComment at h
    split at h
    · next name items =>
      obtain rfl : name = "comment" := of_decide_eq_true h
      exact ⟨items, rfl⟩
    · cases h

end Form

/-! ## Rows -/

/-- Each member of a row has a partner if and only if the row has a row of partners. -/
theorem exists_forall₂_iff {α β : Type} {R : α → β → Prop} {row : List α} :
    (∃ partners, List.Forall₂ R row partners) ↔ ∀ a ∈ row, ∃ b, R a b := by
  induction row with
  | nil => exact iff_of_true ⟨[], .nil⟩ nofun
  | cons a row ih =>
    rw [List.forall_mem_cons, ← ih]
    constructor
    · rintro ⟨partners, h⟩
      obtain ⟨b, rest, hb, hrest, -⟩ := List.forall₂_cons_left_iff.mp h
      exact ⟨⟨b, hb⟩, rest, hrest⟩
    · rintro ⟨⟨b, hb⟩, rest, hrest⟩
      exact ⟨b :: rest, .cons hb hrest⟩

/-! ## Names and parameters -/

namespace Context

theorem name_eq_ok_iff {context : Context} {form : Form} {name : String} :
    context.name form = .ok name ↔ form.Names name := by
  constructor
  · intro h
    cases form with
    | symbol => cases h; exact .symbol _
    | string => cases h; exact .string _
    | float value =>
      rw [Context.name] at h
      split at h
      · cases h
      · next hfinite =>
        cases h
        exact .float (Bool.eq_false_iff.mpr hfinite)
    | _ => cases h
  · intro h
    cases h with
    | symbol => rfl
    | string => rfl
    | float hfinite => rw [Context.name, hfinite]; rfl

theorem names_eq_ok_iff {context : Context} {forms : List Form} {names : List String} :
    context.names forms = .ok names ↔ List.Forall₂ Form.Names forms names := by
  induction forms generalizing names with
  | nil =>
    rw [Context.names, List.forall₂_nil_left_iff]
    exact ⟨fun h => (Except.ok.inj h).symm, fun h => congrArg _ h.symm⟩
  | cons form rest ih =>
    simp only [Context.names, bind_eq_ok_iff, List.forall₂_cons_left_iff, name_eq_ok_iff, ih]
    constructor
    · rintro ⟨name, hname, others, hothers, h⟩
      exact ⟨name, others, hname, hothers, (Except.ok.inj h).symm⟩
    · rintro ⟨name, others, hname, hothers, rfl⟩
      exact ⟨name, hname, others, hothers, rfl⟩

theorem exists_names_iff {context : Context} {forms : List Form} :
    (∃ names, context.names forms = .ok names) ↔ ∀ form ∈ forms, form.IsName := by
  simp only [names_eq_ok_iff]
  exact exists_forall₂_iff

/-- Names pass, in whatever way a step may fail otherwise. -/
theorem failsOnly_name {P : Fault LoadError → Prop} {context : Context} {form : Form}
    (h : form.IsName) : FailsOnly P (context.name form) := by
  obtain ⟨name, hname⟩ := h
  exact failsOnly_of_eq_ok (name_eq_ok_iff.mpr hname)

theorem failsOnly_names {P : Fault LoadError → Prop} {context : Context} {forms : List Form}
    (h : ∀ form ∈ forms, form.IsName) : FailsOnly P (context.names forms) := by
  obtain ⟨names, hnames⟩ := exists_names_iff.mpr h
  exact failsOnly_of_eq_ok hnames

theorem failsOnly_operator {P : Fault LoadError → Prop} {context : Context} (whole : Form)
    {form : Form} {operator : String} (hname : form.Names operator)
    (hmem : operator ∈ pipeOperators) : FailsOnly P (context.operator whole form) :=
  failsOnly_of_eq_ok (operator_eq_ok_iff.mpr ⟨name_eq_ok_iff.mpr hname, hmem⟩)

theorem parameters_eq_ok_iff {context : Context} {form : Form} {names : List String} :
    context.parameters form = .ok names
      ↔ ∃ forms, form = .list forms ∧ List.Forall₂ Form.Names forms names := by
  constructor
  · intro h
    cases form with
    | list forms => exact ⟨forms, rfl, names_eq_ok_iff.mp h⟩
    | _ => cases h
  · rintro ⟨forms, rfl, h⟩
    exact names_eq_ok_iff.mpr h

theorem exists_parameters_iff {context : Context} {form : Form} :
    (∃ names, context.parameters form = .ok names)
      ↔ ∃ forms, form = .list forms ∧ ∀ form ∈ forms, form.IsName := by
  simp only [parameters_eq_ok_iff]
  constructor
  · rintro ⟨names, forms, rfl, h⟩
    exact ⟨forms, rfl, exists_forall₂_iff.mp ⟨names, h⟩⟩
  · rintro ⟨forms, rfl, h⟩
    obtain ⟨names, h⟩ := exists_forall₂_iff.mpr h
    exact ⟨names, forms, rfl, h⟩

end Context

namespace Tree

theorem exists_loadAll_iff {context : Context} {forms : List Form} :
    (∃ trees, loadAll context forms = .ok trees)
      ↔ ∀ form ∈ forms, ∃ t, load context form = .ok t := by
  simp only [loadAll_eq_ok_iff]
  exact exists_forall₂_iff

theorem exists_loadStatements_iff {context : Context} {forms : List Form} :
    (∃ trees, loadStatements context forms = .ok trees)
      ↔ ∀ form ∈ forms, ¬ form.IsRemark → ∃ t, load context form = .ok t := by
  rw [loadStatements_eq, exists_loadAll_iff]
  simp only [List.mem_filter, Bool.not_eq_true', Form.isRemark_iff, Bool.not_eq_true, and_imp]

/-! ## The loader and the grammar -/

/-- The five arrows are the operators of the grammar. -/
theorem mem_symbols_iff {operator : String} :
    operator ∈ ["<-", "=", "<<-", "->", "->>"] ↔ ∃ arrow : Arrow, operator = arrow.symbol := by
  constructor
  · intro h
    simp only [List.mem_cons, List.not_mem_nil, or_false] at h
    rcases h with rfl | rfl | rfl | rfl | rfl
    · exact ⟨.left, rfl⟩
    · exact ⟨.equals, rfl⟩
    · exact ⟨.farLeft, rfl⟩
    · exact ⟨.right, rfl⟩
    · exact ⟨.farRight, rfl⟩
  · rintro ⟨arrow, rfl⟩
    cases arrow with
    | _ => simp [Arrow.symbol]

/-- Whatever is loaded is grammatical, and the integers that became leaves can be written. -/
theorem grammatical_of_load {context : Context} {form : Form} {t : Tree}
    (h : load context form = .ok t) :
    form.GrammaticalOver ShortInt context.spanned context.span := by
  induction form using Form.induction_on_items generalizing context t with
  | step form ih =>
    have hitem {items : List Form} (hform : form = .list items) {item : Form}
        (hmem : item ∈ items) {c : Context} {u : Tree} (hu : load c item = .ok u) :
        item.GrammaticalOver ShortInt c.spanned c.span :=
      ih items hform item hmem hu
    cases loads_of_load h with
    | symbol name => exact .symbol name
    | string text => exact .string text
    | integer hshort => exact .integer hshort
    | float value => exact .float value
    | located hspan hform =>
      obtain ⟨⟨rfl, rfl, rfl, rfl⟩, hplaced, hinside⟩ := Context.readSpan_eq_ok_iff.mp hspan
      exact .located hplaced hinside (hitem rfl (by simp) hform)
    | block hstatements =>
      refine .block fun item hmem hremark => ?_
      obtain ⟨u, hu⟩ := exists_loadStatements_iff.mp ⟨_, hstatements⟩ item hmem hremark
      exact hitem rfl (List.mem_cons_of_mem _ hmem) hu
    | condition hcondition =>
      refine .conditional (by simp) ?_
      simp only [List.forall_mem_cons]
      exact ⟨hitem rfl (by simp) hcondition, nofun⟩
    | consequent hcondition hconsequent =>
      refine .conditional (by simp) ?_
      simp only [List.forall_mem_cons]
      exact ⟨hitem rfl (by simp) hcondition, hitem rfl (by simp) hconsequent, nofun⟩
    | alternative hcondition hconsequent halternative =>
      refine .conditional (by simp) ?_
      simp only [List.forall_mem_cons]
      exact ⟨hitem rfl (by simp) hcondition, hitem rfl (by simp) hconsequent,
        hitem rfl (by simp) halternative, nofun⟩
    | call hcallee harguments =>
      refine .applied (by simp) ⟨_, Context.name_eq_ok_iff.mp hcallee⟩ fun item hmem => ?_
      obtain ⟨u, hu⟩ := exists_loadAll_iff.mp ⟨_, harguments⟩ item hmem
      exact hitem rfl (by simp [hmem]) hu
    | expr htext hoperands =>
      refine .applied (by simp) ⟨_, Context.name_eq_ok_iff.mp htext⟩ fun item hmem => ?_
      obtain ⟨u, hu⟩ := exists_loadAll_iff.mp ⟨_, hoperands⟩ item hmem
      exact hitem rfl (by simp [hmem]) hu
    | pipe hsource hstage =>
      exact .pipe none (hitem rfl (by simp) hsource) (hitem rfl (by simp) hstage) nofun
    | @pipeWith _ _ form₃ _ _ operator hoperator hsource hstage =>
      refine .pipe (some form₃) (hitem rfl (by simp) hsource) (hitem rfl (by simp) hstage) ?_
      rintro _ ⟨⟩
      obtain ⟨hname, hmem⟩ := Context.operator_eq_ok_iff.mp hoperator
      exact ⟨operator, hmem, Context.name_eq_ok_iff.mp hname⟩
    | header hparameters =>
      exact .function none none nofun (Context.exists_names_iff.mp ⟨_, hparameters⟩) nofun
    | @function _ form _ _ hparameters hbody =>
      refine .function none (some form) nofun (Context.exists_names_iff.mp ⟨_, hparameters⟩) ?_
      rintro _ ⟨⟩
      exact hitem rfl (by simp) hbody
    | @namedHeader form₁ _ _ _ hname hparameters =>
      obtain ⟨forms, rfl, hforms⟩ := Context.exists_parameters_iff.mp ⟨_, hparameters⟩
      refine .function (some form₁) none ?_ hforms nofun
      rintro _ ⟨⟩
      exact ⟨_, Context.name_eq_ok_iff.mp hname⟩
    | @namedFunction form₁ _ form₃ _ _ _ hname hparameters hbody =>
      obtain ⟨forms, rfl, hforms⟩ := Context.exists_parameters_iff.mp ⟨_, hparameters⟩
      refine .function (some form₁) (some form₃) ?_ hforms ?_
      · rintro _ ⟨⟩
        exact ⟨_, Context.name_eq_ok_iff.mp hname⟩
      · rintro _ ⟨⟩
        exact hitem rfl (by simp) hbody
    | lambdaHeader hparameters =>
      obtain ⟨forms, rfl, hforms⟩ := Context.exists_parameters_iff.mp ⟨_, hparameters⟩
      exact .lambda none hforms nofun
    | @lambda _ form₂ _ _ hparameters hbody =>
      obtain ⟨forms, rfl, hforms⟩ := Context.exists_parameters_iff.mp ⟨_, hparameters⟩
      refine .lambda (some form₂) hforms ?_
      rintro _ ⟨⟩
      exact hitem rfl (by simp) hbody
    | assignment arrow hleft hright =>
      exact .assignment (mem_symbols_iff.mpr ⟨arrow, rfl⟩) (hitem rfl (by simp) hleft)
        (hitem rfl (by simp) hright)

/-- The breakdown over an integer that is too long to be written, where `leaf` admits one. -/
def Overlong (leaf : Int → Prop) (fault : Fault LoadError) : Prop :=
  fault = .broken .unwritableInteger ∧ ∃ n, leaf n ∧ ¬ ShortInt n

/-- Whatever is grammatical is loaded, in whatever file it stands, or else there is an integer in it
that is too long to become a leaf. -/
theorem overlong_of_grammatical {leaf : Int → Prop} {spanned : Bool} {span : Span} {form : Form}
    (h : form.GrammaticalOver leaf spanned span) (file : String) :
    FailsOnly (Overlong leaf) (load ⟨file, span, spanned⟩ form) := by
  induction h with
  | symbol => exact failsOnly_ok _
  | string => exact failsOnly_ok _
  | @integer _ _ value hvalue =>
    by_cases hshort : ShortInt value
    · rw [load_integer_of_short hshort]
      exact failsOnly_ok _
    · rw [load_integer_of_long hshort]
      exact failsOnly_error ⟨rfl, value, hvalue, hshort⟩
  | float => exact failsOnly_ok _
  | @block spanned span statements _ ih =>
    have hstatements :
        FailsOnly (Overlong leaf) (loadStatements ⟨file, span, spanned⟩ statements) := by
      rw [loadStatements_eq]
      refine failsOnly_loadAll fun form hmem => ?_
      rw [List.mem_filter, Bool.not_eq_true', ← Bool.not_eq_true, ← Form.isRemark_iff] at hmem
      exact ih form hmem.1 hmem.2
    exact hstatements.bind fun _ _ => failsOnly_ok _
  | @conditional _ _ arguments hcount _ ih =>
    change FailsOnly _ (loadTagged _ .conditional "if" arguments)
    match arguments, hcount, ih with
    | [], hcount, _ => exact absurd hcount.1 (by decide)
    | [form₁], _, ih => exact (ih form₁ (by simp)).bind fun _ _ => failsOnly_ok _
    | [form₁, form₂], _, ih =>
      exact (ih form₁ (by simp)).bind fun _ _ => (ih form₂ (by simp)).bind fun _ _ => failsOnly_ok _
    | [form₁, form₂, form₃], _, ih =>
      exact (ih form₁ (by simp)).bind fun _ _ => (ih form₂ (by simp)).bind fun _ _ =>
        (ih form₃ (by simp)).bind fun _ _ => failsOnly_ok _
    | _ :: _ :: _ :: _ :: _, hcount, _ =>
      simp only [List.length_cons] at hcount
      omega
  | applied htag hname _ ih =>
    have harguments := failsOnly_loadAll ih
    simp only [List.mem_cons, List.not_mem_nil, or_false] at htag
    rcases htag with rfl | rfl
    · exact (Context.failsOnly_name hname).bind fun _ _ => harguments.bind fun _ _ => failsOnly_ok _
    · exact (Context.failsOnly_name hname).bind fun _ _ => harguments.bind fun _ _ => failsOnly_ok _
  | pipe operator _ _ hoperator ihsource ihstage =>
    cases operator with
    | none => exact ihsource.bind fun _ _ => ihstage.bind fun _ _ => failsOnly_ok _
    | some form =>
      obtain ⟨name, hmem, hname⟩ := hoperator form rfl
      exact (Context.failsOnly_operator _ hname hmem).bind fun _ _ => ihsource.bind fun _ _ =>
        ihstage.bind fun _ _ => failsOnly_ok _
  | @function spanned span name parameters body hname hparameters _ ih =>
    -- a name before the parameters, then a body after them, each there or not
    cases name with
    | none =>
      cases body with
      | none => exact (Context.failsOnly_names hparameters).bind fun _ _ => failsOnly_ok _
      | some form =>
        exact (Context.failsOnly_names hparameters).bind fun _ _ =>
          (ih form rfl).bind fun _ _ => failsOnly_ok _
    | some nameForm =>
      obtain ⟨called, hcalled⟩ := hname nameForm rfl
      have hok : Context.name ⟨file, span, spanned⟩ nameForm = .ok called :=
        Context.name_eq_ok_iff.mpr hcalled
      cases body with
      | none =>
        change FailsOnly _ (loadTagged _ .function "function" [nameForm, .list parameters])
        rw [loadTagged]
        · exact (failsOnly_of_eq_ok hok).bind fun _ _ =>
            (Context.failsOnly_names hparameters).bind fun _ _ => failsOnly_ok _
        · exact ne_list_of_name hok
      | some form =>
        change FailsOnly _ (loadTagged _ .function "function" [nameForm, .list parameters, form])
        rw [loadTagged]
        · exact (failsOnly_of_eq_ok hok).bind fun _ _ =>
            (Context.failsOnly_names hparameters).bind fun _ _ =>
            (ih form rfl).bind fun _ _ => failsOnly_ok _
        · exact ne_list_of_name hok
  | lambda body hparameters _ ih =>
    cases body with
    | none => exact (Context.failsOnly_names hparameters).bind fun _ _ => failsOnly_ok _
    | some form =>
      exact (Context.failsOnly_names hparameters).bind fun _ _ =>
        (ih form rfl).bind fun _ _ => failsOnly_ok _
  | assignment hoperator _ _ ihleft ihright =>
    obtain ⟨arrow, rfl⟩ := mem_symbols_iff.mp hoperator
    rw [show arrow.symbol = (Tag.assignment arrow).symbol from rfl,
      load_tagged _ (.assignment arrow) Tag.noConfusion, loadTagged]
    exact ihleft.bind fun _ _ => ihright.bind fun _ _ => failsOnly_ok _
  | @located _ _ inner form hplaced hinside _ ih =>
    change FailsOnly _ (loadTagged _ .located "at" [.integer inner.start.line,
      .integer inner.start.column, .integer inner.stop.line, .integer inner.stop.column, form])
    rw [loadTagged]
    exact failsOnly_bind_of_ok
      (Context.readSpan_eq_ok_iff.mpr ⟨⟨rfl, rfl, rfl, rfl⟩, hplaced, hinside⟩) ih

/-- The loader accepts exactly the grammar over short integers. -/
theorem exists_load_iff {context : Context} {form : Form} :
    (∃ t, load context form = .ok t)
      ↔ form.GrammaticalOver ShortInt context.spanned context.span := by
  constructor
  · rintro ⟨t, h⟩
    exact grammatical_of_load h
  · intro h
    refine (overlong_of_grammatical h context.file).exists_ok fun fault hlong => ?_
    obtain ⟨-, n, hshort, hnot⟩ := hlong
    exact hnot hshort

/-- Nothing that is grammatical is refused. -/
theorem not_grammatical_of_refused {context : Context} {form : Form} {e : LoadError}
    (h : load context form = .error (.refused e)) :
    ¬ form.Grammatical context.spanned context.span := by
  intro hform
  obtain ⟨hbroken, -⟩ := overlong_of_grammatical hform context.file _ h
  cases hbroken

/-- What is accepted is grammatical over short integers, what is refused is not grammatical and is
refused in the name of the file of the context, and anything else is a breakdown over an integer
that cannot be written.  So where all integers can be written, the grammar is what is accepted, and
all other forms are refused. -/
theorem load_outcomes (context : Context) (form : Form) :
    ((∃ t, load context form = .ok t)
        ↔ form.GrammaticalOver ShortInt context.spanned context.span)
      ∧ (∀ e, load context form = .error (.refused e) →
          ¬ form.Grammatical context.spanned context.span ∧ e.file = context.file)
      ∧ (∀ cause, load context form = .error (.broken cause) →
          cause = .unwritableInteger ∧ ¬ (context.Short ∧ form.Short))
      ∧ (context.Short → form.Short →
          ((∃ t, load context form = .ok t) ↔ form.Grammatical context.spanned context.span)
            ∧ (¬ form.Grammatical context.spanned context.span →
              ∃ e, load context form = .error (.refused e) ∧ e.file = context.file)) := by
  have htold : FailsOnly (Fault.Accounted context.file (context.Short ∧ form.Short))
      (load context form) := accounted_load And.left And.right
  have hgrammatical {t : Tree} (h : load context form = .ok t) :
      form.Grammatical context.spanned context.span :=
    (grammatical_of_load h).mono fun _ _ => trivial
  refine ⟨exists_load_iff, fun e h => ⟨not_grammatical_of_refused h, htold _ h⟩,
    fun cause h => htold _ h, fun hcontext hform => ?_⟩
  cases hload : load context form with
  | ok t =>
    have ht := hgrammatical hload
    exact ⟨iff_of_true ⟨t, rfl⟩ ht, fun hnot => absurd ht hnot⟩
  | error fault =>
    cases fault with
    | refused e =>
      have hnot := not_grammatical_of_refused hload
      exact ⟨iff_of_false nofun hnot, fun _ => ⟨e, rfl, htold _ hload⟩⟩
    | broken cause => exact absurd ⟨hcontext, hform⟩ (htold _ hload).2

/-- An `at` that would be accepted by itself is refused below one that it leaves, in the name of the
file, although it stands in a block and is the body of a function. -/
theorem load_outcomes_outside :
    ∃ (context : Context) (inner whole : Form),
      context.file = "body.sexp" ∧ inner.Grammatical false {}
        ∧ whole = .list [.symbol "at", .integer 1, .integer 1, .integer 1, .integer 10,
            .list [.symbol "function", .list [], .list [.symbol "block", inner]]]
        ∧ ¬ whole.Grammatical context.spanned context.span
        ∧ ∃ e, load context whole = .error (.refused e) ∧ e.file = context.file := by
  let context : Context := { file := "body.sexp" }
  let inner : Form :=
    .list [.symbol "at", .integer 2, .integer 1, .integer 2, .integer 5, .symbol "x"]
  let whole : Form := .list [.symbol "at", .integer 1, .integer 1, .integer 1, .integer 10,
    .list [.symbol "function", .list [], .list [.symbol "block", inner]]]
  obtain ⟨-, -, -, hinner⟩ := load_outcomes {} inner
  obtain ⟨-, -, -, hwhole⟩ := load_outcomes context whole
  obtain ⟨haccepted, hrefused⟩ := hwhole nofun (by decide)
  have hnot : ¬ whole.Grammatical context.spanned context.span := by
    intro h
    obtain ⟨t, ht⟩ := haccepted.mpr h
    cases ht
  exact ⟨context, inner, whole, rfl,
    (hinner nofun (by decide)).1.mp ⟨.expr "x" [] (.of 2 1 2 5), rfl⟩, rfl, hnot, hrefused hnot⟩

/-- An integer that is one digit too long breaks down the loading where it is a leaf, which makes a
tree, and where it stands for a name, which makes none. -/
theorem load_overlong :
    (Form.Grammatical false {} (.integer (10 ^ 4300))
      ∧ load {} (.integer (10 ^ 4300)) = .error (.broken .unwritableInteger))
    ∧ ¬ Form.Grammatical false {} (.list [.symbol "call", .integer (10 ^ 4300)])
      ∧ load {} (.list [.symbol "call", .integer (10 ^ 4300)])
        = .error (.broken .unwritableInteger) := by
  have hlong : ¬ ShortInt (10 ^ 4300) := not_shortInt_ten_pow (Nat.le_refl _)
  have hname : Context.name {} (.integer (10 ^ 4300)) = .error (.broken .unwritableInteger) :=
    congrArg Except.error (if_neg hlong)
  refine ⟨⟨.integer trivial, load_integer_of_long hlong⟩, fun h => ?_, ?_⟩
  · generalize (10 : Int) ^ 4300 = n at h
    generalize hform : Form.list [.symbol "call", .integer n] = form at h
    cases h with
    | applied _ hname =>
      cases hform
      obtain ⟨_, ⟨⟩⟩ := hname
    | _ => simp at hform
  · change loadTagged {} .call "call" [.integer (10 ^ 4300)] = _
    rw [loadTagged, hname]
    rfl

end Tree

end TailLint
