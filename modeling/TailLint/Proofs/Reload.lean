import Mathlib
import TailLint.Proofs.Place
import TailLint.Proofs.Writing

/-!
# Printing a loaded tree and loading it again

What comes back when a printed tree is loaded?  Everything that is written comes back, and
two things are not written: spans that are the outer ones, which are inherited again, and
the names of functions that are operands of an assignment, which the loader derives again
from the target.  The first loses nothing, thanks to the invariant of `Tree.Loaded`.  The
second loses whatever name the function had, so what comes back is in general another tree:
`Tree.reloaded` is that tree, with the names taken away where the printer leaves them out and
derived again where the loader derives them.

* `Tree.writes_print` --- a legible loaded tree is printed as a text of its reloaded tree;
* `Tree.parse_print` --- the same for whole texts;
* `Tree.reloaded_eq` --- the reloaded tree is the tree itself if every assigned function
  already has the name that the loader would give it.

Such a tree therefore comes back as it is, in every field and with all its spans.
-/

namespace TailLint

/-- The name that a leaf gives to what is assigned to it. -/
def Tree.leafName? : Tree → Option String
  | .expr text [] _ => some (Tree.unquoted text)
  | _ => none

namespace Assignment

/-- The name that the value of an assignment takes if it is a function without one. -/
def targetName? (a : Assignment) : Option String := a.target.leafName?

/-- Whether the functions in an assignment have the names that loading gives them: the value
that of the target, if the target is a leaf, and a function in the place of the target none. -/
def NamesAgree (a : Assignment) : Prop :=
  (∀ d, a.value.definition? = some d → d.name = a.targetName?)
    ∧ ∀ d, a.target.definition? = some d → d.name = none

end Assignment

namespace Tree

/-! ## Trees that can be read back -/

mutual

/-- Whether everything in a tree that is written as a name or as a leaf is legible.  The
flag `named` says whether a function at the root writes its name: the operands of an
assignment do not. -/
def Legible (named : Bool) : Tree → Prop
  | .missing | .foreign _ => True
  | .block statements _ => LegibleAll true statements
  | .conditional condition consequent alternative _ =>
    Legible true condition ∧ Legible true consequent ∧ Legible true alternative
  | .call callee arguments _ => LegibleName callee ∧ LegibleAll true arguments
  | .pipe source stage _ _ => Legible true source ∧ Legible true stage
  | .expr text operands span =>
    (if operands.isEmpty then LegibleLeaf text else LegibleName text)
      ∧ LegibleAll (assignment? (.expr text operands span)).isNone operands
  | .function parameters body name _ _ =>
    (∀ parameter ∈ parameters, LegibleName parameter)
      ∧ (named = true → ∀ n ∈ name, LegibleName n) ∧ Legible true body

/-- Whether everything in a row of trees is legible. -/
def LegibleAll (named : Bool) : List Tree → Prop
  | [] => True
  | t :: rest => Legible named t ∧ LegibleAll named rest

end

/-! ## What comes back -/

/-- The node that the loader makes of an assignment with these operands; other nodes stay
as they are. -/
def reassigned : Tree → Tree
  | .expr text [left, right] span =>
    match Arrow.ofSymbol? text with
    | some arrow => assigned arrow left right span
    | none => .expr text [left, right] span
  | t => t

mutual

/-- The tree that comes back when a tree is printed and loaded: what is not written of a
name is gone, and assignments give their names anew. -/
def reloaded (named : Bool) : Tree → Tree
  | .missing => .missing
  | .foreign value => .foreign value
  | .block statements span => .block (reloadedAll true statements) span
  | .conditional condition consequent alternative span =>
    .conditional (reloaded true condition) (reloaded true consequent) (reloaded true alternative)
      span
  | .call callee arguments span => .call callee (reloadedAll true arguments) span
  | .pipe source stage operator span =>
    .pipe (reloaded true source) (reloaded true stage) operator span
  | .expr text operands span =>
    reassigned (.expr text
      (reloadedAll (assignment? (.expr text operands span)).isNone operands) span)
  | .function parameters body name isLambda span =>
    .function parameters (reloaded true body) (writtenName named name isLambda) isLambda span

/-- What comes back of a row of trees. -/
def reloadedAll (named : Bool) : List Tree → List Tree
  | [] => []
  | t :: rest => reloaded named t :: reloadedAll named rest

end

/-- An expression is an assignment, or it is none. -/
theorem assignment?_cases (text : String) (operands : List Tree) (span : Span) :
    (∃ arrow : Arrow, ∃ left right, text = arrow.symbol ∧ operands = [left, right])
      ∨ (Tree.expr text operands span).assignment? = none := by
  cases h : (Tree.expr text operands span).assignment? with
  | none => exact Or.inr rfl
  | some a =>
    obtain ⟨_, heq⟩ := eq_expr_of_assignment? h
    cases heq
    exact Or.inl ⟨a.arrow, a.left, a.right, rfl, rfl⟩

theorem reloaded_assignment (named : Bool) (arrow : Arrow) (left right : Tree) (span : Span) :
    reloaded named (.expr arrow.symbol [left, right] span)
      = assigned arrow (reloaded false left) (reloaded false right) span := by
  simp [reloaded, assignment?_arrow, reloadedAll, reassigned]

theorem reloaded_expr (named : Bool) {text : String} {operands : List Tree} {span : Span}
    (h : (Tree.expr text operands span).assignment? = none) :
    reloaded named (.expr text operands span) = .expr text (reloadedAll true operands) span := by
  rw [reloaded, h]
  match operands, h with
  | [], _ => rfl
  | [_], _ => rfl
  | [left, right], h =>
    have harrow : Arrow.ofSymbol? text = none := Option.map_eq_none_iff.mp h
    simp [reloadedAll, reassigned, harrow]
  | _ :: _ :: _ :: _, _ => rfl

/-! ## Printing -/

@[simp] theorem isMissing_missing : Tree.missing.isMissing = true := rfl

/-- Where something was loaded, something stands. -/
theorem Loaded.isMissing {named spanned : Bool} {outer : Span} {t : Tree}
    (h : Loaded named spanned outer t) : t.isMissing = false := by
  cases t with
  | missing => exact absurd h id
  | _ => rfl

mutual

/-- A legible loaded tree is printed as a text of its reloaded tree. -/
theorem writes_print {named spanned : Bool} {outer : Span} :
    ∀ {t : Tree}, Loaded named spanned outer t → Legible named t →
      Writes spanned outer (print named outer t) (reloaded named t)
  | .missing, h, _ => absurd h id
  | .foreign _, h, _ => absurd h id
  | .block _ _, ⟨hspan, hstatements⟩, hlegible =>
    (writes_printAll hstatements hlegible).block.located hspan
  | .conditional condition consequent alternative span,
      ⟨hspan, hcondition, hconsequent, halternative, hbranches⟩, ⟨hl₁, hl₂, hl₃⟩ => by
    have hfirst := writes_print hcondition hl₁
    rw [print, reloaded, hcondition.isMissing]
    refine Writes.located hspan ?_
    rcases hconsequent with rfl | hconsequent
    · obtain rfl := hbranches rfl
      simpa [reloaded] using hfirst.condition
    · have hsecond := writes_print hconsequent hl₂
      rcases halternative with rfl | halternative
      · simpa [hconsequent.isMissing, reloaded] using hfirst.consequent hsecond
      · have hthird := writes_print halternative hl₃
        simpa [hconsequent.isMissing, halternative.isMissing] using
          hfirst.alternative hsecond hthird
  | .call _ _ _, ⟨hspan, harguments⟩, ⟨hname, hlegible⟩ =>
    ((writes_printAll harguments hlegible).call (survives_of_legibleName hname)).located hspan
  | .pipe _ _ _ _, ⟨hspan, hoperator, hsource, hstage⟩, ⟨hl₁, hl₂⟩ =>
    ((writes_print hsource hl₁).pipe (writes_print hstage hl₂) hoperator).located hspan
  | .expr text operands span, ⟨hspan, hoperands⟩, ⟨htext, hlegible⟩ => by
    have hrow := writes_printAll hoperands hlegible
    rw [print]
    refine Writes.located hspan ?_
    rcases assignment?_cases text operands span with ⟨arrow, left, right, rfl, rfl⟩ | hnone
    · rw [assignment?_arrow] at hrow ⊢
      rw [reloaded_assignment]
      exact hrow.assignment arrow
    · rw [hnone] at hrow ⊢
      rw [reloaded_expr named hnone]
      cases operands with
      | nil => exact writes_leaf htext
      | cons => exact hrow.expr (survives_of_legibleName htext)
  | .function parameters body name isLambda span, ⟨hspan, _, hbody⟩,
      ⟨hparameters, hname, hlegible⟩ => by
    rw [print, reloaded]
    refine Writes.located hspan (WritesBody.function named isLambda ?_ ?_ ?_)
    · intro n hn
      unfold writtenName at hn
      split at hn
      · next hwritten =>
        exact survives_of_legibleName (hname (Bool.and_eq_true_iff.mp hwritten).1 n hn)
      · cases hn
    · exact fun parameter hmem => survives_of_legibleName (hparameters parameter hmem)
    · rcases hbody with rfl | hbody
      · exact Or.inl ⟨rfl, rfl⟩
      · rw [hbody.isMissing]
        exact Or.inr ⟨_, rfl, writes_print hbody hlegible⟩

/-- A legible loaded row is printed as a text of its reloaded row. -/
theorem writes_printAll {named spanned : Bool} {outer : Span} :
    ∀ {ts : List Tree}, LoadedAll named spanned outer ts → LegibleAll named ts →
      WritesAll spanned outer (printAll named outer ts) (reloadedAll named ts)
  | [], _, _ => writesAll_nil
  | _ :: _, ⟨h, hrest⟩, ⟨hlegible, hlegibleRest⟩ =>
    (writes_print h hlegible).cons (writes_printAll hrest hlegibleRest)

end

mutual

/-- Nothing in a loaded tree cannot be printed. -/
theorem Loaded.unprintable? {named spanned : Bool} {outer : Span} :
    ∀ {t : Tree}, Loaded named spanned outer t → t.unprintable? = none
  | .missing, h => absurd h id
  | .foreign _, h => absurd h id
  | .block _ _, ⟨_, hstatements⟩ => hstatements.unprintableAll?
  | .conditional condition consequent alternative span,
      ⟨_, hcondition, hconsequent, halternative, _⟩ => by
    have hsecond : consequent.unprintable? = none := by
      rcases hconsequent with rfl | hconsequent
      · rfl
      · exact hconsequent.unprintable?
    have hthird : alternative.unprintable? = none := by
      rcases halternative with rfl | halternative
      · rfl
      · exact halternative.unprintable?
    simp [Tree.unprintable?, hcondition.unprintable?, hsecond, hthird]
  | .call _ _ _, ⟨_, harguments⟩ => harguments.unprintableAll?
  | .pipe _ _ _ _, ⟨_, _, hsource, hstage⟩ => by
    simp [Tree.unprintable?, hsource.unprintable?, hstage.unprintable?]
  | .expr _ _ _, ⟨_, hoperands⟩ => hoperands.unprintableAll?
  | .function _ body _ _ _, ⟨_, _, hbody⟩ => by
    rcases hbody with rfl | hbody
    · rfl
    · exact hbody.unprintable?

/-- Nothing in a loaded row cannot be printed. -/
theorem LoadedAll.unprintableAll? {named spanned : Bool} {outer : Span} :
    ∀ {ts : List Tree}, LoadedAll named spanned outer ts → Tree.unprintableAll? ts = none
  | [], _ => rfl
  | _ :: _, ⟨h, hrest⟩ => by
    simp [Tree.unprintableAll?, h.unprintable?, hrest.unprintableAll?]

end

/-- A legible tree that was loaded from a text can be printed, and loading what is printed
gives the reloaded tree. -/
theorem parse_print {file text : String} {t : Tree} (hload : parse file text = .ok t)
    (hlegible : Legible true t) :
    ∃ printed, unparse {} t = .ok printed
      ∧ ∀ file, parse file printed = .ok (reloaded true t) := by
  have hloaded := loaded_of_parse hload
  refine ⟨String.ofList (print true {} t), ?_, (writes_print hloaded hlegible).parse⟩
  rw [unparse, hloaded.unprintable?]

/-! ## Names that come back -/

/-- A tree without the name of the function at its root. -/
def unnamed : Tree → Tree
  | .function parameters body _ isLambda span => .function parameters body none isLambda span
  | t => t

/-- Taking away the name of an assigned function and deriving it again changes nothing if
it is the derived one. -/
theorem named_unnamed {target value : Tree}
    (h : ∀ d, value.definition? = some d → d.name = target.leafName?) :
    named target.unnamed value.unnamed = value := by
  cases value with
  | function parameters body name isLambda span =>
    obtain rfl := h _ rfl
    cases target with
    | expr text operands span => cases operands <;> rfl
    | _ => rfl
  | _ => rfl

theorem unnamed_eq_self {t : Tree} (h : ∀ d, t.definition? = some d → d.name = none) :
    t.unnamed = t := by
  cases t with
  | function parameters body name isLambda span =>
    obtain rfl := h _ rfl
    rfl
  | _ => rfl

/-- The sides of an assignment, without their names, make the assignment again. -/
theorem assigned_unnamed {arrow : Arrow} {left right : Tree} {span : Span}
    (h : Assignment.NamesAgree ⟨arrow, left, right⟩) :
    assigned arrow left.unnamed right.unnamed span = .expr arrow.symbol [left, right] span := by
  unfold assigned
  split
  · next hright =>
    obtain ⟨hvalue, htarget⟩ := h
    simp only [Assignment.targetName?, Assignment.value, Assignment.target, hright, if_true]
      at hvalue htarget
    rw [named_unnamed hvalue, unnamed_eq_self htarget]
  · next hright =>
    obtain ⟨hvalue, htarget⟩ := h
    simp only [Assignment.targetName?, Assignment.value, Assignment.target, hright,
      Bool.false_eq_true, if_false] at hvalue htarget
    rw [named_unnamed hvalue, unnamed_eq_self htarget]

mutual

/-- A loaded tree in which the names agree comes back as it is, or without the name at its
root if that is left out. -/
theorem reloaded_eq {named spanned : Bool} {outer : Span} :
    ∀ {t : Tree}, Loaded named spanned outer t →
      Everywhere (fun u => ∀ a, u.assignment? = some a → a.NamesAgree) t →
      reloaded named t = if named then t else t.unnamed
  | .missing, h, _ => absurd h id
  | .foreign _, h, _ => absurd h id
  | .block statements span, ⟨_, hstatements⟩, hnames => by
    have hrow := reloadedAll_eq hstatements (everywhere_iff.mp hnames).2
    rw [reloaded, hrow]
    cases named <;> simp [unnamed]
  | .conditional condition consequent alternative span,
      ⟨_, hcondition, hconsequent, halternative, _⟩, hnames => by
    have hchildren := (everywhere_iff.mp hnames).2
    have hfirst : reloaded true condition = condition :=
      reloaded_eq hcondition
        (hchildren condition (mem_children (by simp [slots]) hcondition.isMissing))
    have hsecond : reloaded true consequent = consequent := by
      rcases hconsequent with rfl | hconsequent
      · rfl
      · exact reloaded_eq hconsequent
          (hchildren consequent (mem_children (by simp [slots]) hconsequent.isMissing))
    have hthird : reloaded true alternative = alternative := by
      rcases halternative with rfl | halternative
      · rfl
      · exact reloaded_eq halternative
          (hchildren alternative (mem_children (by simp [slots]) halternative.isMissing))
    rw [reloaded, hfirst, hsecond, hthird]
    cases named <;> rfl
  | .call callee arguments span, ⟨_, harguments⟩, hnames => by
    have hrow := reloadedAll_eq harguments (everywhere_iff.mp hnames).2
    rw [reloaded, hrow]
    cases named <;> simp [unnamed]
  | .pipe source stage operator span, ⟨_, _, hsource, hstage⟩, hnames => by
    have hchildren := (everywhere_iff.mp hnames).2
    have hfirst : reloaded true source = source :=
      reloaded_eq hsource (hchildren source (by simp [children]))
    have hsecond : reloaded true stage = stage :=
      reloaded_eq hstage (hchildren stage (by simp [children]))
    rw [reloaded, hfirst, hsecond]
    cases named <;> rfl
  | .expr text operands span, ⟨_, hoperands⟩, hnames => by
    obtain ⟨hself, hchildren⟩ := everywhere_iff.mp hnames
    have hrow := reloadedAll_eq hoperands hchildren
    have hdone : reloaded named (.expr text operands span) = .expr text operands span := by
      rcases assignment?_cases text operands span with ⟨arrow, left, right, rfl, rfl⟩ | hnone
      · have hagree := hself _ (assignment?_arrow arrow left right span)
        rw [assignment?_arrow] at hrow
        simp only [reloadedAll, Option.isNone_some, List.map_cons, List.map_nil, List.cons.injEq,
          Bool.false_eq_true, if_false, and_true] at hrow
        rw [reloaded_assignment, hrow.1, hrow.2, assigned_unnamed hagree]
      · rw [hnone] at hrow
        simp only [Option.isNone_none, if_true, List.map_id'] at hrow
        rw [reloaded_expr named hnone, hrow]
    rw [hdone]
    cases named <;> rfl
  | .function parameters body name isLambda span, ⟨_, hlambda, hbody⟩, hnames => by
    have hbodyEq : reloaded true body = body := by
      rcases hbody with rfl | hbody
      · rfl
      · exact reloaded_eq hbody
          ((everywhere_iff.mp hnames).2 body (mem_children (by simp [slots]) hbody.isMissing))
    rw [reloaded, hbodyEq]
    cases named with
    | false => rfl
    | true =>
      cases isLambda with
      | false => rfl
      | true =>
        obtain rfl := hlambda rfl rfl
        rfl

/-- The same for a row. -/
theorem reloadedAll_eq {named spanned : Bool} {outer : Span} :
    ∀ {ts : List Tree}, LoadedAll named spanned outer ts →
      (∀ t ∈ ts, Everywhere (fun u => ∀ a, u.assignment? = some a → a.NamesAgree) t) →
      reloadedAll named ts = ts.map fun t => if named then t else t.unnamed
  | [], _, _ => rfl
  | t :: rest, ⟨h, hrest⟩, hnames => by
    rw [reloadedAll, reloaded_eq h (hnames t List.mem_cons_self),
      reloadedAll_eq hrest fun u hu => hnames u (List.mem_cons_of_mem t hu)]
    rfl

end

/-- A tree that was loaded from a text, is legible and has the names that the loader gives
can be printed, and loading what is printed gives the same tree. -/
theorem parse_unparse {file text : String} {t : Tree} (hload : parse file text = .ok t)
    (hlegible : Legible true t)
    (hnames : Everywhere (fun u => ∀ a, u.assignment? = some a → a.NamesAgree) t) :
    ∃ printed, unparse {} t = .ok printed ∧ ∀ file, parse file printed = .ok t := by
  obtain ⟨printed, hprinted, hback⟩ := parse_print hload hlegible
  have heq : reloaded true t = t := reloaded_eq (loaded_of_parse hload) hnames
  rw [heq] at hback
  exact ⟨printed, hprinted, hback⟩

/-- A function that takes its name from its target comes back with it, and so do its span, a
name between quotes, a string and a number. -/
theorem parse_unparse_assigned_function :
    ∃ t printed,
      parse "" "(at 1 1 2 9 (<- f (function (x) (call \"my call\" \"a b\" 42))))" = .ok t
        ∧ unparse {} t = .ok printed ∧ ∀ file, parse file printed = .ok t := by
  have hload : parse "" "(at 1 1 2 9 (<- f (function (x) (call \"my call\" \"a b\" 42))))"
      = .ok (.expr "<-" [.expr "f" [] (Span.of 1 1 2 9), .function ["x"]
          (.call "my call" [.expr "\"a b\"" [] (Span.of 1 1 2 9), .expr "42" [] (Span.of 1 1 2 9)]
            (Span.of 1 1 2 9)) (some "f") false (Span.of 1 1 2 9)] (Span.of 1 1 2 9)) := by
    cbv
  refine ⟨_, Exists.imp (fun printed h => ⟨hload, h⟩) (parse_unparse hload ?_ ?_)⟩
  · have harrow : LegibleName "<-" := Or.inr ⟨by simp [IsPlain], Or.inl rfl⟩
    have htarget : LegibleLeaf "f" := Or.inl ⟨rfl, by simp [IsPlain], rfl⟩
    have hparameter : LegibleName "x" := Or.inr ⟨by simp [IsPlain], Or.inl rfl⟩
    have hcallee : LegibleName "my call" := Or.inl rfl
    have hstring : LegibleLeaf "\"a b\"" :=
      Or.inr (Or.inr (Or.inr ⟨['a', ' ', 'b'], by decide, by simp⟩))
    have hnumber : LegibleLeaf "42" := Or.inr (Or.inr (Or.inl ⟨42, by decide, by decide⟩))
    exact ⟨harrow, ⟨htarget, trivial⟩, ⟨by simpa using hparameter,
      fun hnamed => absurd hnamed Bool.false_ne_true, hcallee, ⟨hstring, trivial⟩,
      ⟨hnumber, trivial⟩, trivial⟩, trivial⟩
  · intro u hu a ha
    simp only [preorder, preorderAll, isMissing, List.mem_cons, List.mem_append, List.not_mem_nil,
      or_false, Bool.false_eq_true, if_false] at hu
    rcases hu with rfl | rfl | rfl | rfl | rfl | rfl
    · cases ha
      refine ⟨fun d hd => ?_, fun d hd => ?_⟩
      · cases hd
        decide
      · cases hd
    all_goals cases ha

end Tree

end TailLint
