import Mathlib.Data.List.Forall2
import TailLint.Proofs.Reading
import TailLint.Tree.Loader

/-!
# What loading a form can do

Loading is a mutual recursion over forms, rows of forms and tagged lists, with a check at
nearly every step.  Whoever wants to know something about loaded trees should not have to
walk through all of that again, so it is said once: `Tree.Loads` lists the ways in which
one form becomes one tree, one constructor for each shape of the notation.  All of them are
ways to be loaded (`Tree.load_of_loads`), and there are no others (`Tree.loads_of_load`).

`Loads` is not recursive.  It is one layer of the loader, and the forms inside are still
loaded by `load` itself.  An argument about all forms is therefore an induction on forms,
in which the forms inside a list are the smaller ones (`Form.induction_on_items`), followed
by a case distinction on `Loads`.

Rows are loaded item by item (`Tree.loadAll_eq_ok_iff`), and the statements of a block are
the row that is left when the comments are taken out (`Tree.loadStatements_eq`).
-/

namespace TailLint

/-! ## Induction on forms -/

/-- What holds of a form as soon as it holds of the items of it, if it is a list, holds of
all forms. -/
theorem Form.induction_on_items {P : Form → Prop}
    (step : ∀ form, (∀ items, form = .list items → ∀ item ∈ items, P item) → P form)
    (form : Form) : P form := by
  refine step form fun items hform item hitem => ?_
  have hlt : sizeOf item < sizeOf form := by
    have := List.sizeOf_lt_of_mem hitem
    rw [hform, Form.list.sizeOf_spec]
    omega
  exact Form.induction_on_items step item
termination_by sizeOf form

/-! ## Tags -/

namespace Tag

/-- How a tag is written. -/
def symbol : Tag → String
  | .located => "at"
  | .block => "block"
  | .conditional => "if"
  | .call => "call"
  | .pipe => "pipe"
  | .function => "function"
  | .lambda => "lambda"
  | .expr => "expr"
  | .assignment arrow => arrow.symbol

@[simp] theorem ofSymbol?_symbol (tag : Tag) : ofSymbol? tag.symbol = some tag := by
  cases tag with
  | assignment arrow => cases arrow <;> rfl
  | _ => rfl

/-- Only the text of a tag is read as that tag. -/
theorem symbol_of_ofSymbol? {name : String} {tag : Tag} (h : ofSymbol? name = some tag) :
    tag.symbol = name := by
  unfold ofSymbol? at h
  split at h
  all_goals try (cases h; rfl)
  obtain ⟨arrow, harrow, rfl⟩ := Option.map_eq_some_iff.mp h
  exact Arrow.symbol_of_ofSymbol? harrow

end Tag

namespace Tree

/-! ## Rows -/

theorem loadAll_eq_ok_iff {context : Context} {forms : List Form} {trees : List Tree} :
    loadAll context forms = .ok trees
      ↔ List.Forall₂ (fun form t => load context form = .ok t) forms trees := by
  induction forms generalizing trees with
  | nil =>
    rw [loadAll, List.forall₂_nil_left_iff]
    exact ⟨fun h => (Except.ok.inj h).symm, fun h => congrArg _ h.symm⟩
  | cons form rest ih =>
    rw [loadAll, bind_eq_ok_iff, List.forall₂_cons_left_iff]
    constructor
    · rintro ⟨t, ht, h⟩
      obtain ⟨ts, hts, h⟩ := bind_eq_ok_iff.mp h
      exact ⟨t, ts, ht, ih.mp hts, (Except.ok.inj h).symm⟩
    · rintro ⟨t, ts, ht, hts, rfl⟩
      exact ⟨t, ht, bind_eq_ok_iff.mpr ⟨ts, ih.mpr hts, rfl⟩⟩

/-- The statements of a block are the row without the comments. -/
theorem loadStatements_eq (context : Context) (forms : List Form) :
    loadStatements context forms = loadAll context (forms.filter (!·.isComment)) := by
  induction forms with
  | nil => rfl
  | cons form rest ih =>
    rw [loadStatements, ih]
    by_cases h : form.isComment = true
    · rw [if_pos h, List.filter_cons_of_neg (by simp [h])]
    · rw [if_neg h, List.filter_cons_of_pos (by simp [h]), loadAll]

/-! ## One layer of the loader -/

/-- The ways in which a form becomes a tree.  The forms inside are loaded by `load`. -/
inductive Loads (context : Context) : Form → Tree → Prop
  | symbol (name : String) : Loads context (.symbol name) (.expr name [] context.span)
  | string (text : String) :
      Loads context (.string text) (.expr ("\"" ++ text ++ "\"") [] context.span)
  | integer {value : Int} (hshort : ShortInt value) :
      Loads context (.integer value) (.expr (String.ofList (Text.intText value)) [] context.span)
  | float (value : Binary64) :
      Loads context (.float value) (.expr (Form.numberText value) [] context.span)
  | located {line₁ column₁ line₂ column₂ form : Form} {span : Span} {t : Tree}
      (hspan : context.readSpan (.list [.symbol "at", line₁, column₁, line₂, column₂, form])
        line₁ column₁ line₂ column₂ = .ok span)
      (hform : load (context.inside span) form = .ok t) :
      Loads context (.list [.symbol "at", line₁, column₁, line₂, column₂, form]) t
  | block {arguments : List Form} {statements : List Tree}
      (hstatements : loadStatements context arguments = .ok statements) :
      Loads context (.list (.symbol "block" :: arguments)) (.block statements context.span)
  | condition {form : Form} {condition : Tree} (hcondition : load context form = .ok condition) :
      Loads context (.list [.symbol "if", form])
        (.conditional condition .missing .missing context.span)
  | consequent {form₁ form₂ : Form} {condition consequent : Tree}
      (hcondition : load context form₁ = .ok condition)
      (hconsequent : load context form₂ = .ok consequent) :
      Loads context (.list [.symbol "if", form₁, form₂])
        (.conditional condition consequent .missing context.span)
  | alternative {form₁ form₂ form₃ : Form} {condition consequent alternative : Tree}
      (hcondition : load context form₁ = .ok condition)
      (hconsequent : load context form₂ = .ok consequent)
      (halternative : load context form₃ = .ok alternative) :
      Loads context (.list [.symbol "if", form₁, form₂, form₃])
        (.conditional condition consequent alternative context.span)
  | call {form : Form} {forms : List Form} {callee : String} {arguments : List Tree}
      (hcallee : context.name form = .ok callee)
      (harguments : loadAll context forms = .ok arguments) :
      Loads context (.list (.symbol "call" :: form :: forms)) (.call callee arguments context.span)
  | pipe {form₁ form₂ : Form} {source stage : Tree} (hsource : load context form₁ = .ok source)
      (hstage : load context form₂ = .ok stage) :
      Loads context (.list [.symbol "pipe", form₁, form₂]) (.pipe source stage "%>%" context.span)
  | pipeWith {form₁ form₂ form₃ : Form} {source stage : Tree} {operator : String}
      (hoperator : context.operator (.list [.symbol "pipe", form₁, form₂, form₃]) form₃
        = .ok operator)
      (hsource : load context form₁ = .ok source) (hstage : load context form₂ = .ok stage) :
      Loads context (.list [.symbol "pipe", form₁, form₂, form₃])
        (.pipe source stage operator context.span)
  | header {forms : List Form} {parameters : List String}
      (hparameters : context.names forms = .ok parameters) :
      Loads context (.list [.symbol "function", .list forms])
        (.function parameters .missing none false context.span)
  | function {forms : List Form} {form : Form} {parameters : List String} {body : Tree}
      (hparameters : context.names forms = .ok parameters) (hbody : load context form = .ok body) :
      Loads context (.list [.symbol "function", .list forms, form])
        (.function parameters body none false context.span)
  | namedHeader {form₁ form₂ : Form} {name : String} {parameters : List String}
      (hname : context.name form₁ = .ok name)
      (hparameters : context.parameters form₂ = .ok parameters) :
      Loads context (.list [.symbol "function", form₁, form₂])
        (.function parameters .missing (some name) false context.span)
  | namedFunction {form₁ form₂ form₃ : Form} {name : String} {parameters : List String}
      {body : Tree} (hname : context.name form₁ = .ok name)
      (hparameters : context.parameters form₂ = .ok parameters)
      (hbody : load context form₃ = .ok body) :
      Loads context (.list [.symbol "function", form₁, form₂, form₃])
        (.function parameters body (some name) false context.span)
  | lambdaHeader {form : Form} {parameters : List String}
      (hparameters : context.parameters form = .ok parameters) :
      Loads context (.list [.symbol "lambda", form])
        (.function parameters .missing none true context.span)
  | lambda {form₁ form₂ : Form} {parameters : List String} {body : Tree}
      (hparameters : context.parameters form₁ = .ok parameters)
      (hbody : load context form₂ = .ok body) :
      Loads context (.list [.symbol "lambda", form₁, form₂])
        (.function parameters body none true context.span)
  | assignment (arrow : Arrow) {form₁ form₂ : Form} {left right : Tree}
      (hleft : load context form₁ = .ok left) (hright : load context form₂ = .ok right) :
      Loads context (.list [.symbol arrow.symbol, form₁, form₂])
        (assigned arrow left right context.span)
  | expr {form : Form} {forms : List Form} {text : String} {operands : List Tree}
      (htext : context.name form = .ok text) (hoperands : loadAll context forms = .ok operands) :
      Loads context (.list (.symbol "expr" :: form :: forms)) (.expr text operands context.span)

/-- A tagged list that is loaded has one of the shapes. -/
theorem loads_of_loadTagged {context : Context} {tag : Tag} {arguments : List Form} {t : Tree}
    (h : loadTagged context tag tag.symbol arguments = .ok t) :
    Loads context (.list (.symbol tag.symbol :: arguments)) t := by
  unfold loadTagged at h
  split at h
  · -- at
    obtain ⟨span, hspan, h⟩ := bind_eq_ok_iff.mp h
    exact .located hspan h
  · -- if, with a condition and up to two branches
    obtain ⟨condition, hcondition, h⟩ := bind_eq_ok_iff.mp h
    cases h
    exact .condition hcondition
  · obtain ⟨condition, hcondition, h⟩ := bind_eq_ok_iff.mp h
    obtain ⟨consequent, hconsequent, h⟩ := bind_eq_ok_iff.mp h
    cases h
    exact .consequent hcondition hconsequent
  · obtain ⟨condition, hcondition, h⟩ := bind_eq_ok_iff.mp h
    obtain ⟨consequent, hconsequent, h⟩ := bind_eq_ok_iff.mp h
    obtain ⟨alternative, halternative, h⟩ := bind_eq_ok_iff.mp h
    cases h
    exact .alternative hcondition hconsequent halternative
  · -- call
    obtain ⟨callee, hcallee, h⟩ := bind_eq_ok_iff.mp h
    obtain ⟨arguments, harguments, h⟩ := bind_eq_ok_iff.mp h
    cases h
    exact .call hcallee harguments
  · -- pipe, without and with an operator
    obtain ⟨source, hsource, h⟩ := bind_eq_ok_iff.mp h
    obtain ⟨stage, hstage, h⟩ := bind_eq_ok_iff.mp h
    cases h
    exact .pipe hsource hstage
  · obtain ⟨operator, hoperator, h⟩ := bind_eq_ok_iff.mp h
    obtain ⟨source, hsource, h⟩ := bind_eq_ok_iff.mp h
    obtain ⟨stage, hstage, h⟩ := bind_eq_ok_iff.mp h
    cases h
    exact .pipeWith hoperator hsource hstage
  · -- function: without a name, then with too many forms or too few, then with a name
    obtain ⟨parameters, hparameters, h⟩ := bind_eq_ok_iff.mp h
    cases h
    exact .header hparameters
  · obtain ⟨parameters, hparameters, h⟩ := bind_eq_ok_iff.mp h
    obtain ⟨body, hbody, h⟩ := bind_eq_ok_iff.mp h
    cases h
    exact .function hparameters hbody
  · cases h
  · obtain ⟨name, hname, h⟩ := bind_eq_ok_iff.mp h
    cases h
  · obtain ⟨name, hname, h⟩ := bind_eq_ok_iff.mp h
    obtain ⟨parameters, hparameters, h⟩ := bind_eq_ok_iff.mp h
    cases h
    exact .namedHeader hname hparameters
  · obtain ⟨name, hname, h⟩ := bind_eq_ok_iff.mp h
    obtain ⟨parameters, hparameters, h⟩ := bind_eq_ok_iff.mp h
    obtain ⟨body, hbody, h⟩ := bind_eq_ok_iff.mp h
    cases h
    exact .namedFunction hname hparameters hbody
  · -- lambda
    obtain ⟨parameters, hparameters, h⟩ := bind_eq_ok_iff.mp h
    cases h
    exact .lambdaHeader hparameters
  · obtain ⟨parameters, hparameters, h⟩ := bind_eq_ok_iff.mp h
    obtain ⟨body, hbody, h⟩ := bind_eq_ok_iff.mp h
    cases h
    exact .lambda hparameters hbody
  · -- the arrows
    next arrow _ _ =>
    obtain ⟨left, hleft, h⟩ := bind_eq_ok_iff.mp h
    obtain ⟨right, hright, h⟩ := bind_eq_ok_iff.mp h
    cases h
    exact .assignment arrow hleft hright
  · -- expr
    obtain ⟨text, htext, h⟩ := bind_eq_ok_iff.mp h
    obtain ⟨operands, hoperands, h⟩ := bind_eq_ok_iff.mp h
    cases h
    exact .expr htext hoperands
  · cases h

/-- An integer is loaded if it can be written. -/
theorem load_integer_of_short {context : Context} {value : Int} (h : ShortInt value) :
    load context (.integer value)
      = .ok (.expr (String.ofList (Text.intText value)) [] context.span) := by
  rw [load, writtenInt_of_short h]

theorem load_integer_of_long {context : Context} {value : Int} (h : ¬ ShortInt value) :
    load context (.integer value) = .error (.broken .unwritableInteger) := by
  rw [load, writtenInt_of_long h]

/-- A form that is loaded has one of the shapes. -/
theorem loads_of_load {context : Context} {form : Form} {t : Tree}
    (h : load context form = .ok t) : Loads context form t := by
  unfold load at h
  split at h
  · cases h; exact .symbol _
  · cases h; exact .string _
  · next value =>
    by_cases hshort : ShortInt value
    · rw [writtenInt_of_short hshort] at h
      cases h
      exact .integer hshort
    · rw [writtenInt_of_long hshort] at h
      cases h
  · cases h; exact .float _
  · cases h
  · split at h
    · cases h
    · next name arguments htag =>
      obtain ⟨statements, hstatements, h⟩ := bind_eq_ok_iff.mp h
      cases h
      rw [← Tag.symbol_of_ofSymbol? htag]
      exact .block hstatements
    · next name arguments tag _ htag =>
      rw [← Tag.symbol_of_ofSymbol? htag] at h ⊢
      exact loads_of_loadTagged h
  · cases h
  · cases h

/-- A tag other than that of a block is loaded by its shape. -/
theorem load_tagged (context : Context) (tag : Tag) (htag : tag ≠ .block) (arguments : List Form) :
    load context (.list (.symbol tag.symbol :: arguments))
      = loadTagged context tag tag.symbol arguments := by
  rw [load, Tag.ofSymbol?_symbol]
  cases tag with
  | block => exact absurd rfl htag
  | _ => rfl

/-- No list is a name, so a name before the parameters is told from the parameters. -/
theorem ne_list_of_name {context : Context} {form : Form} {name : String}
    (h : context.name form = .ok name) (items : List Form) : form = .list items → False := by
  rintro rfl
  cases h

/-- Every shape is loaded. -/
theorem load_of_loads {context : Context} {form : Form} {t : Tree} (h : Loads context form t) :
    load context form = .ok t := by
  cases h with
  | symbol => rfl
  | string => rfl
  | integer hshort => exact load_integer_of_short hshort
  | float => rfl
  | block hstatements => exact bind_eq_ok_iff.mpr ⟨_, hstatements, rfl⟩
  | located hspan hform =>
    refine (load_tagged context .located (by decide) _).trans ?_
    rw [loadTagged]
    exact bind_eq_ok_iff.mpr ⟨_, hspan, hform⟩
  | condition hcondition =>
    refine (load_tagged context .conditional (by decide) _).trans ?_
    rw [loadTagged]
    exact bind_eq_ok_iff.mpr ⟨_, hcondition, rfl⟩
  | consequent hcondition hconsequent =>
    refine (load_tagged context .conditional (by decide) _).trans ?_
    rw [loadTagged, hcondition, hconsequent]
    rfl
  | alternative hcondition hconsequent halternative =>
    refine (load_tagged context .conditional (by decide) _).trans ?_
    rw [loadTagged, hcondition, hconsequent, halternative]
    rfl
  | call hcallee harguments =>
    refine (load_tagged context .call (by decide) _).trans ?_
    rw [loadTagged, hcallee, harguments]
    rfl
  | pipe hsource hstage =>
    refine (load_tagged context .pipe (by decide) _).trans ?_
    rw [loadTagged, hsource, hstage]
    rfl
  | pipeWith hoperator hsource hstage =>
    refine (load_tagged context .pipe (by decide) _).trans ?_
    rw [loadTagged, hsource, hstage]
    exact bind_eq_ok_iff.mpr ⟨_, hoperator, rfl⟩
  | header hparameters =>
    refine (load_tagged context .function (by decide) _).trans ?_
    rw [loadTagged, hparameters]
    rfl
  | function hparameters hbody =>
    refine (load_tagged context .function (by decide) _).trans ?_
    rw [loadTagged, hparameters, hbody]
    rfl
  | namedHeader hname hparameters =>
    refine (load_tagged context .function (by decide) _).trans ?_
    rw [loadTagged, hname, hparameters]
    · rfl
    · exact ne_list_of_name hname
  | namedFunction hname hparameters hbody =>
    refine (load_tagged context .function (by decide) _).trans ?_
    rw [loadTagged, hname, hparameters, hbody]
    · rfl
    · exact ne_list_of_name hname
  | lambdaHeader hparameters =>
    refine (load_tagged context .lambda (by decide) _).trans ?_
    rw [loadTagged, hparameters]
    rfl
  | lambda hparameters hbody =>
    refine (load_tagged context .lambda (by decide) _).trans ?_
    rw [loadTagged, hparameters, hbody]
    rfl
  | assignment arrow hleft hright =>
    refine (load_tagged context (.assignment arrow) Tag.noConfusion _).trans ?_
    rw [loadTagged, hleft, hright]
    rfl
  | expr htext hoperands =>
    refine (load_tagged context .expr (by decide) _).trans ?_
    rw [loadTagged, htext, hoperands]
    rfl

/-- A text is loaded as what its form is loaded as. -/
theorem parse_eq_ok_iff {file text : String} {t : Tree} :
    parse file text = .ok t ↔ ∃ form, Form.read text = .ok form ∧ load { file } form = .ok t := by
  unfold parse
  constructor
  · intro h
    split at h
    · cases h
    · next form hread => exact ⟨form, hread, h⟩
  · rintro ⟨form, hread, h⟩
    rw [hread]
    exact h

end Tree

end TailLint
