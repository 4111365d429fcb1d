import Mathlib
import TailLint.Lint
import TailLint.Proofs.Grammar

/-!
# Comments leave no trace

A list headed by `comment` may stand among the statements of a block, and there alone.  Taking the
comments out of every list that is headed by `block`, at every depth (`Form.uncommented`), is a change
of the form that knows nothing of the loader.  The loader leaves a comment out only where it loads a
block, so the two have to be brought together: in a form that is loaded, everything that the change
touches is a block that is loaded, or stands inside a comment and is never looked at.

Not every list that is headed by `block` is a block.  The first parameter of a function may have that
name.  But parameters are names, and no comment is a name, so there is nothing to take out of them.

The argument is in two parts.  The first has nothing to do with comments: the loader makes the same
tree of a list when its arguments are replaced by forms that are as good in every place
(`Form.StandsFor`, `Tree.load_map`).  The second is that a form without its comments is as good as the
form (`Form.standsFor_uncommented`).
-/

namespace TailLint

/-! ## Replacing the arguments of a list -/

/-- Whether whatever the loader can make of a form, in whatever place it stands, it makes of another
one as well. -/
structure Form.StandsFor (other form : Form) : Prop where
  load : ∀ (context : Context) (t : Tree), Tree.load context form = .ok t →
    Tree.load context other = .ok t
  name : ∀ (context : Context) (name : String), context.name form = .ok name →
    context.name other = .ok name
  parameters : ∀ (context : Context) (names : List String), context.parameters form = .ok names →
    context.parameters other = .ok names
  integer : ∀ (context : Context) (value : Int), context.integer form = .ok value →
    context.integer other = .ok value

namespace Tree

variable {context : Context} {f : Form → Form}

theorem loadAll_map {forms : List Form} {ts : List Tree} (h : loadAll context forms = .ok ts)
    (hf : ∀ form ∈ forms, (f form).StandsFor form) : loadAll context (forms.map f) = .ok ts := by
  rw [loadAll_eq_ok_iff] at h ⊢
  induction h with
  | nil => exact .nil
  | cons hload _ ih =>
    obtain ⟨hform, hforms⟩ := List.forall_mem_cons.mp hf
    exact .cons (hform.load _ _ hload) (ih hforms)

/-- A list of names is replaced by a list of the same names. -/
theorem exists_names_of_standsFor {other : Form} {forms : List Form} {names : List String}
    (hother : other.StandsFor (.list forms)) (h : context.names forms = .ok names) :
    ∃ others, other = .list others ∧ context.names others = .ok names := by
  obtain ⟨others, rfl, hothers⟩ :=
    Context.parameters_eq_ok_iff.mp (hother.parameters context names h)
  exact ⟨others, rfl, Context.names_eq_ok_iff.mpr hothers⟩

/-- A list that is no block is loaded as the same tree when its arguments are replaced. -/
theorem load_map {name : String} (hname : name ≠ "block") {arguments : List Form} {t : Tree}
    (h : load context (.list (.symbol name :: arguments)) = .ok t)
    (hf : ∀ form ∈ arguments, (f form).StandsFor form) :
    load context (.list (.symbol name :: arguments.map f)) = .ok t := by
  have hload {form : Form} (hmem : form ∈ arguments) {c : Context} {u : Tree}
      (hu : load c form = .ok u) : load c (f form) = .ok u :=
    (hf form hmem).load c u hu
  cases loads_of_load h with
  | block => exact absurd rfl hname
  | located hspan hform =>
    obtain ⟨⟨rfl, rfl, rfl, rfl⟩, hrest⟩ := Context.readSpan_eq_ok_iff.mp hspan
    have hnumber (value : Int) (hmem : Form.integer value ∈ _) :
        f (.integer value) = .integer value :=
      Context.integer_eq_ok_iff.mp ((hf _ hmem).integer context value rfl)
    refine load_of_loads (.located (Context.readSpan_eq_ok_iff.mpr ⟨?_, hrest⟩)
      (hload (by simp) hform))
    exact ⟨hnumber _ (by simp), hnumber _ (by simp), hnumber _ (by simp), hnumber _ (by simp)⟩
  | condition hcondition => exact load_of_loads (.condition (hload (by simp) hcondition))
  | consequent hcondition hconsequent =>
    exact load_of_loads (.consequent (hload (by simp) hcondition) (hload (by simp) hconsequent))
  | alternative hcondition hconsequent halternative =>
    exact load_of_loads (.alternative (hload (by simp) hcondition) (hload (by simp) hconsequent)
      (hload (by simp) halternative))
  | call hcallee harguments =>
    obtain ⟨hhead, hrest⟩ := List.forall_mem_cons.mp hf
    exact load_of_loads (.call (hhead.name _ _ hcallee) (loadAll_map harguments hrest))
  | expr htext hoperands =>
    obtain ⟨hhead, hrest⟩ := List.forall_mem_cons.mp hf
    exact load_of_loads (.expr (hhead.name _ _ htext) (loadAll_map hoperands hrest))
  | pipe hsource hstage =>
    exact load_of_loads (.pipe (hload (by simp) hsource) (hload (by simp) hstage))
  | pipeWith hoperator hsource hstage =>
    obtain ⟨hoperator, hmem⟩ := Context.operator_eq_ok_iff.mp hoperator
    refine load_of_loads (.pipeWith (Context.operator_eq_ok_iff.mpr ⟨?_, hmem⟩)
      (hload (by simp) hsource) (hload (by simp) hstage))
    exact (hf _ (by simp)).name _ _ hoperator
  | header hparameters =>
    obtain ⟨others, hothers, hnames⟩ := exists_names_of_standsFor (hf _ (by simp)) hparameters
    rw [List.map_singleton, hothers]
    exact load_of_loads (.header hnames)
  | function hparameters hbody =>
    obtain ⟨others, hothers, hnames⟩ := exists_names_of_standsFor (hf _ (by simp)) hparameters
    rw [List.map_cons, hothers]
    exact load_of_loads (.function hnames (hload (by simp) hbody))
  | namedHeader hfunction hparameters =>
    exact load_of_loads (.namedHeader ((hf _ (by simp)).name _ _ hfunction)
      ((hf _ (by simp)).parameters _ _ hparameters))
  | namedFunction hfunction hparameters hbody =>
    exact load_of_loads (.namedFunction ((hf _ (by simp)).name _ _ hfunction)
      ((hf _ (by simp)).parameters _ _ hparameters) (hload (by simp) hbody))
  | lambdaHeader hparameters =>
    exact load_of_loads (.lambdaHeader ((hf _ (by simp)).parameters _ _ hparameters))
  | lambda hparameters hbody =>
    exact load_of_loads (.lambda ((hf _ (by simp)).parameters _ _ hparameters)
      (hload (by simp) hbody))
  | assignment arrow hleft hright =>
    exact load_of_loads (.assignment arrow (hload (by simp) hleft) (hload (by simp) hright))

end Tree

/-! ## Forms without comments -/

namespace Form

mutual

/-- A form with every comment taken out of every list in it that is headed by `block`. -/
def uncommented : Form → Form
  | .list (.symbol "block" :: items) => .list (.symbol "block" :: uncommentedStatements items)
  | .list items => .list (uncommentedAll items)
  | .brackets items => .brackets (uncommentedAll items)
  | .quoted form => .quoted (uncommented form)
  | form => form

/-- A row of forms, each without its comments. -/
def uncommentedAll : List Form → List Form
  | [] => []
  | form :: rest => uncommented form :: uncommentedAll rest

/-- The items of a list headed by `block` that are no comments, each without its comments. -/
def uncommentedStatements : List Form → List Form
  | [] => []
  | form :: rest =>
    if form.isComment then uncommentedStatements rest
    else uncommented form :: uncommentedStatements rest

end

theorem uncommentedAll_eq_map (forms : List Form) :
    uncommentedAll forms = forms.map uncommented := by
  induction forms with
  | nil => rfl
  | cons form rest ih => rw [uncommentedAll, ih, List.map_cons]

theorem uncommentedStatements_eq (forms : List Form) :
    uncommentedStatements forms = (forms.filter (!·.isComment)).map uncommented := by
  induction forms with
  | nil => rfl
  | cons form rest ih =>
    rw [uncommentedStatements, ih]
    by_cases h : form.isComment = true
    · rw [if_pos h, List.filter_cons_of_neg (by simp [h])]
    · rw [if_neg h, List.filter_cons_of_pos (by simp [h]), List.map_cons]

theorem uncommented_block (items : List Form) :
    (Form.list (.symbol "block" :: items)).uncommented
      = .list (.symbol "block" :: (items.filter (!·.isComment)).map uncommented) := by
  rw [uncommented, uncommentedStatements_eq]

/-- A list with another head keeps all its items. -/
theorem uncommented_list {items : List Form} (h : items.head? ≠ some (.symbol "block")) :
    (Form.list items).uncommented = .list (items.map uncommented) := by
  rw [uncommented]
  · rw [uncommentedAll_eq_map]
  · rintro others rfl
    exact h rfl

/-- Taking comments out makes no comment of anything. -/
theorem isComment_uncommented (form : Form) : form.uncommented.isComment = form.isComment := by
  cases form with
  | list items =>
    cases items with
    | nil => rfl
    | cons head rest =>
      by_cases hhead : head = .symbol "block"
      · rw [hhead, uncommented_block]
        rfl
      · rw [uncommented_list (by simpa using hhead), List.map_cons]
        cases head with
        | list items =>
          rw [uncommented.eq_def]
          split <;> simp_all [isComment]
        | _ => rfl
  | _ => rfl

/-- There are no comments in a name. -/
theorem IsName.uncommented {form : Form} (h : form.IsName) : form.uncommented = form := by
  obtain ⟨name, h⟩ := h
  cases h <;> rfl

theorem IsName.isComment {form : Form} (h : form.IsName) : form.isComment = false := by
  obtain ⟨name, h⟩ := h
  cases h <;> rfl

/-- Nor is there one among names, even if the first of them is `block`. -/
theorem uncommented_names {forms : List Form} (h : ∀ form ∈ forms, form.IsName) :
    (Form.list forms).uncommented = .list forms := by
  have hmap {row : List Form} (hrow : ∀ form ∈ row, form.IsName) :
      row.map Form.uncommented = row := by
    rw [List.map_congr_left fun form hform => (hrow form hform).uncommented, List.map_id']
  by_cases hhead : forms.head? = some (.symbol "block")
  · obtain ⟨rest, rfl⟩ := List.head?_eq_some_iff.mp hhead
    obtain ⟨-, hrest⟩ := List.forall_mem_cons.mp h
    have hkept : rest.filter (!·.isComment) = rest :=
      List.filter_eq_self.mpr fun form hform => by simp [(hrest form hform).isComment]
    rw [uncommented_block, hkept, hmap hrest]
  · rw [uncommented_list hhead, hmap h]

end Form

namespace Tree

/-- A block is loaded as the same tree without its comments, when its statements are. -/
theorem loadStatements_uncommented {context : Context} {forms : List Form} {ts : List Tree}
    (h : loadStatements context forms = .ok ts)
    (hforms : ∀ form ∈ forms, form.uncommented.StandsFor form) :
    loadStatements context ((forms.filter (!·.isComment)).map Form.uncommented) = .ok ts := by
  have hkept : ∀ form ∈ (forms.filter (!·.isComment)).map Form.uncommented,
      form.isComment = false := by
    intro _ hmem
    obtain ⟨form, hform, rfl⟩ := List.mem_map.mp hmem
    rw [Form.isComment_uncommented]
    simpa using (List.mem_filter.mp hform).2
  rw [loadStatements_eq] at h
  rw [loadStatements_eq, List.filter_eq_self.mpr fun form hform => by simp [hkept form hform]]
  exact loadAll_map h fun form hform => hforms form (List.mem_filter.mp hform).1

end Tree

/-- A form without its comments is as good as the form, wherever it stands. -/
theorem Form.standsFor_uncommented (form : Form) : form.uncommented.StandsFor form := by
  induction form using Form.induction_on_items with
  | step form ih =>
    refine ⟨fun context t h => ?_, fun context name h => ?_, fun context names h => ?_,
      fun context value h => ?_⟩
    · cases form with
      | list items =>
        match items, h with
        | [], h => cases h
        | .symbol name :: arguments, h =>
          have hitems : ∀ item ∈ arguments, item.uncommented.StandsFor item :=
            fun item hitem => ih _ rfl item (List.mem_cons_of_mem _ hitem)
          by_cases hname : name = "block"
          · subst hname
            obtain ⟨statements, hstatements, h⟩ := bind_eq_ok_iff.mp h
            cases h
            rw [uncommented_block]
            exact Tree.load_of_loads (.block (Tree.loadStatements_uncommented hstatements hitems))
          · rw [uncommented_list (by simpa using hname)]
            exact Tree.load_map hname h hitems
      | brackets => cases h
      | quoted => cases h
      | _ => exact h
    · rw [IsName.uncommented ⟨name, Context.name_eq_ok_iff.mp h⟩]
      exact h
    · obtain ⟨forms, rfl, hforms⟩ := Context.exists_parameters_iff.mp ⟨names, h⟩
      rw [uncommented_names hforms]
      exact h
    · obtain rfl := Context.integer_eq_ok_iff.mp h
      rfl

/-! ## Nothing is left -/

namespace Form

mutual

/-- Whether no list in a form that is headed by `block` has a comment among its items. -/
def isUncommented : Form → Bool
  | .list (.symbol "block" :: items) => areStatements items
  | .list items => areUncommented items
  | .brackets items => areUncommented items
  | .quoted form => isUncommented form
  | _ => true

/-- The same of a row of forms. -/
def areUncommented : List Form → Bool
  | [] => true
  | form :: rest => isUncommented form && areUncommented rest

/-- The same of the items of a list headed by `block`, none of which is to be a comment. -/
def areStatements : List Form → Bool
  | [] => true
  | form :: rest => !form.isComment && isUncommented form && areStatements rest

end

/-- Nothing else becomes a symbol. -/
theorem eq_symbol_of_uncommented {form : Form} {name : String}
    (h : form.uncommented = .symbol name) : form = .symbol name := by
  cases form with
  | list items =>
    rw [uncommented.eq_def] at h
    split at h <;> simp_all
  | brackets => cases h
  | quoted => cases h
  | _ => exact h

theorem isUncommented_list {items : List Form} (h : items.head? ≠ some (.symbol "block")) :
    (Form.list items).isUncommented = areUncommented items := by
  rw [isUncommented]
  rintro others rfl
  exact h rfl

mutual

theorem isUncommented_uncommented : ∀ form : Form, form.uncommented.isUncommented = true
  | .list items => by
    by_cases hhead : items.head? = some (.symbol "block")
    · obtain ⟨rest, rfl⟩ := List.head?_eq_some_iff.mp hhead
      rw [uncommented, isUncommented]
      exact areStatements_uncommentedStatements rest
    · have hkept : (items.map uncommented).head? ≠ some (.symbol "block") := by
        rw [List.head?_map]
        intro h
        obtain ⟨head, hitems, hsymbol⟩ := Option.map_eq_some_iff.mp h
        exact hhead (eq_symbol_of_uncommented hsymbol ▸ hitems)
      rw [uncommented_list hhead, isUncommented_list hkept, ← uncommentedAll_eq_map]
      exact areUncommented_uncommentedAll items
  | .brackets items => areUncommented_uncommentedAll items
  | .quoted form => isUncommented_uncommented form
  | .symbol _ | .string _ | .integer _ | .float _ | .boolean _ | .missing => rfl

theorem areUncommented_uncommentedAll : ∀ forms : List Form,
    areUncommented (uncommentedAll forms) = true
  | [] => rfl
  | form :: rest => by
    rw [uncommentedAll, areUncommented, isUncommented_uncommented form,
      areUncommented_uncommentedAll rest]
    rfl

theorem areStatements_uncommentedStatements : ∀ forms : List Form,
    areStatements (uncommentedStatements forms) = true
  | [] => rfl
  | form :: rest => by
    have hrest := areStatements_uncommentedStatements rest
    rw [uncommentedStatements]
    split
    · exact hrest
    · next hcomment =>
      rw [areStatements, isComment_uncommented, isUncommented_uncommented form, hrest]
      simp [hcomment]

end

end Form

/-- A form that is loaded is loaded as the same tree once its comments are taken out, all of them.  So
the terminal positions of its functions are the same, and so is all that the linter says. -/
theorem Tree.load_uncommented {context : Context} {form : Form} {t : Tree}
    (h : load context form = .ok t) :
    form.uncommented.isUncommented = true ∧ load context form.uncommented = .ok t
      ∧ ∀ (policy : Policy) (file : String),
        (load context form.uncommented).map (fun u =>
          (u.definitions.map (Terminal.ofDefinition policy), u.lint policy file))
        = .ok (t.definitions.map (Terminal.ofDefinition policy), t.lint policy file) := by
  have hload : load context form.uncommented = .ok t :=
    (Form.standsFor_uncommented form).load context t h
  refine ⟨Form.isUncommented_uncommented form, hload, fun policy file => ?_⟩
  rw [hload]
  rfl

/-- A function with a parameter called `block`, in a block whose only other statement is a comment.
The body of the function is a block of comments, one of them with a block in it. -/
def remarkable : Form :=
  .list [.symbol "block", .list [.symbol "comment", .string "first"],
    .list [.symbol "function", .symbol "f", .list [.symbol "block"],
      .list [.symbol "block", .list [.symbol "comment", .list [.symbol "block"]],
        .list [.symbol "comment"]]]]

/-- The body of the function is then empty, and the empty block is where the function ends. -/
theorem Tree.load_uncommented_emptied :
    remarkable.uncommented
        = .list [.symbol "block", .list [.symbol "function", .symbol "f", .list [.symbol "block"],
          .list [.symbol "block"]]]
      ∧ load {} remarkable.uncommented
        = .ok (.block [.function ["block"] (.block [] {}) (some "f") false {}] {})
      ∧ (load {} remarkable.uncommented).map (fun u =>
          u.definitions.map (Terminal.ofDefinition .default)) = .ok [[⟨.block [] {}, false⟩]] := by
  have hload : load {} remarkable
      = .ok (.block [.function ["block"] (.block [] {}) (some "f") false {}] {}) := rfl
  obtain ⟨-, hsame, -⟩ := load_uncommented hload
  refine ⟨rfl, hsame, ?_⟩
  rw [hsame]
  cbv

end TailLint
