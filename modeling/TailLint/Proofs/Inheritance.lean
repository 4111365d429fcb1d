import Mathlib
import TailLint.Proofs.Reload

/-!
# Where the span of a node comes from

A node has no span of its own.  It has the span of the innermost `at` around the form that it was
read from, or the default span if there is none.  To say this, the form of a node has to be found,
and the `at`s around that form, which leave no other trace in the tree than the span.

`Form.source?` finds both.  It follows the path of a node through the form instead of the tree.  On
the way it takes off the `at`s around each form it enters, and keeps their spans, the innermost first
(`Form.unwrapped`), and then it goes on to the part of the form that became the child at the next
position of the path (`Form.parts`).  That it arrives at the right form is not left to good faith:
the form is loaded as the node, in the context that the `at`s make, up to the name that a function
may be given by an assignment after it was loaded.

The loader compares an `at` with the nearest one around it only.  The spans that are kept on the way
therefore lie inside each other all the way down (`Nested`), and this carries over to the nodes: a
node contains what is below it as soon as a single `at` stands around it.

* `Tree.load_unwrapped` --- taking off the `at`s around a form does not change what is loaded, and the
  spans lie inside each other;
* `Tree.node_of_load` --- what is no `at` becomes a node with the span of the context, and its parts
  become the children;
* `Tree.exists_source` --- every node of a loaded tree has its source, and its span from there.
-/

namespace TailLint

/-! ## Spans around spans -/

/-- Whether some spans, the innermost first, are well placed and lie inside each other. -/
def Nested (around : List Span) : Prop :=
  (∀ span ∈ around, span.WellPlaced) ∧ around.Pairwise fun inner outer => outer.Contains inner

theorem nested_nil : Nested [] := ⟨nofun, .nil⟩

/-- A span inside the innermost one lies inside all of them. -/
theorem Nested.cons {around : List Span} (h : Nested around) {span : Span}
    (hplaced : span.WellPlaced) (hinside : ∀ outer ∈ around.head?, outer.Contains span) :
    Nested (span :: around) := by
  refine ⟨List.forall_mem_cons.mpr ⟨hplaced, h.1⟩, List.pairwise_cons.mpr ⟨?_, h.2⟩⟩
  cases around with
  | nil => exact nofun
  | cons first others =>
    have hfirst : first.Contains span := hinside first rfl
    intro outer houter
    rcases List.mem_cons.mp houter with rfl | houter
    · exact hfirst
    · exact ((List.pairwise_cons.mp h.2).1 outer houter).trans hfirst

/-- Further in, the innermost span lies inside the innermost span further out. -/
theorem Nested.contains_headD {outer inner : List Span} (h : Nested inner) (hsuffix : outer <:+ inner)
    (hne : outer ≠ []) : (outer.headD {}).Contains (inner.headD {}) := by
  obtain ⟨before, rfl⟩ := hsuffix
  cases before with
  | nil => exact .refl _
  | cons span before =>
    cases outer with
    | nil => exact absurd rfl hne
    | cons first others => exact (List.pairwise_cons.mp h.2).1 first (by simp)

theorem Nested.wellPlaced_headD {around : List Span} (h : Nested around) :
    (around.headD {}).WellPlaced := by
  cases around with
  | nil => decide
  | cons span others => exact h.1 span List.mem_cons_self

/-! ## The source of a node -/

/-- The context that some `at`s make, given by their spans, the innermost first. -/
def Context.under (file : String) (around : List Span) : Context :=
  ⟨file, around.headD {}, !around.isEmpty⟩

/-- A form, and the spans of the `at`s around it, the innermost first. -/
structure Source where
  around : List Span
  form : Form

/-- The span of the innermost `at`, or the default one if there is none. -/
def Source.span (s : Source) : Span := s.around.headD {}

namespace Form

/-- A form without the `at`s around it, whose spans are put before the given ones. -/
def unwrapped (around : List Span) : Form → Source
  | .list [.symbol "at", .integer line₁, .integer column₁, .integer line₂, .integer column₂,
      form] => unwrapped (.of line₁ column₁ line₂ column₂ :: around) form
  | form => ⟨around, form⟩

/-- The parts of a form that become the children of its node, in their positions. -/
def parts : Form → List Form
  | .list (.symbol "block" :: statements) => statements.filter (!·.isComment)
  | .list (.symbol "if" :: arguments) => arguments
  | .list (.symbol "call" :: _ :: arguments) => arguments
  | .list (.symbol "expr" :: _ :: operands) => operands
  | .list (.symbol "pipe" :: source :: stage :: _) => [source, stage]
  | .list [.symbol "function", _, _, body] => [body]
  | .list [.symbol "function", .list _, body] => [body]
  | .list [.symbol "lambda", _, body] => [body]
  | .list [.symbol text, left, right] =>
    if (Arrow.ofSymbol? text).isSome then [left, right] else []
  | _ => []

/-- The source of the node at the end of a path. -/
def source? (around : List Span) (form : Form) : Path → Option Source
  | [] => some (form.unwrapped around)
  | i :: path =>
    (form.unwrapped around).form.parts[i]?.bind fun part =>
      part.source? (form.unwrapped around).around path

end Form

namespace Tree

/-! ## Taking off what is around a form -/

/-- An `at` is loaded as what is inside it, in its own span. -/
theorem load_located_iff {context : Context} (span : Span) {form : Form} {t : Tree} :
    load context (.list [.symbol "at", .integer span.start.line, .integer span.start.column,
        .integer span.stop.line, .integer span.stop.column, form]) = .ok t
      ↔ (span.WellPlaced ∧ (context.spanned = true → context.span.Contains span))
        ∧ load (context.inside span) form = .ok t := by
  change load context (.list (.symbol Tag.located.symbol :: _)) = _ ↔ _
  rw [load_tagged context .located (by decide), loadTagged, bind_eq_ok_iff]
  constructor
  · rintro ⟨⟨⟨line₁, column₁⟩, ⟨line₂, column₂⟩⟩, hspan, hform⟩
    obtain ⟨⟨hline₁, hcolumn₁, hline₂, hcolumn₂⟩, hfits⟩ := Context.readSpan_eq_ok_iff.mp hspan
    cases hline₁
    cases hcolumn₁
    cases hline₂
    cases hcolumn₂
    exact ⟨hfits, hform⟩
  · rintro ⟨hfits, hform⟩
    exact ⟨span, Context.readSpan_eq_ok_iff.mpr ⟨⟨rfl, rfl, rfl, rfl⟩, hfits⟩, hform⟩

/-- What is loaded from a form is loaded from the form without its `at`s, and the spans of these lie
inside each other if those around the form do. -/
theorem load_unwrapped {file : String} {around : List Span} {form : Form} {t : Tree}
    (h : load (.under file around) form = .ok t) (hnested : Nested around) :
    load (.under file (form.unwrapped around).around) (form.unwrapped around).form = .ok t
      ∧ Nested (form.unwrapped around).around ∧ around <:+ (form.unwrapped around).around := by
  fun_induction Form.unwrapped around form with
  | case1 around line₁ column₁ line₂ column₂ form ih =>
    obtain ⟨⟨hplaced, hinside⟩, hform⟩ :=
      (load_located_iff (.of line₁ column₁ line₂ column₂)).mp h
    have hinner : Nested (.of line₁ column₁ line₂ column₂ :: around) := by
      refine hnested.cons hplaced fun outer houter => ?_
      cases around with
      | nil => cases houter
      | cons first others =>
        obtain rfl : first = outer := Option.some.inj houter
        exact hinside rfl
    obtain ⟨hload, hnested, hsuffix⟩ := ih hform hinner
    exact ⟨hload, hnested, (List.suffix_cons _ around).trans hsuffix⟩
  | case2 around form hform => exact ⟨h, hnested, List.suffix_refl around⟩

/-- No `at` is left. -/
theorem unwrapped_ne_located (around : List Span) (form : Form)
    (line₁ column₁ line₂ column₂ : Int) (inside : Form) :
    (form.unwrapped around).form ≠ .list [.symbol "at", .integer line₁, .integer column₁,
      .integer line₂, .integer column₂, inside] := by
  fun_induction Form.unwrapped around form with
  | case1 around _ _ _ _ form ih => exact ih
  | case2 around form hform => exact hform _ _ _ _ _

/-! ## One node -/

/-- Whether a part of a form is loaded as a child, up to the name that the child may be given
afterwards. -/
def Becomes (context : Context) (part : Form) (child : Tree) : Prop :=
  ∃ u, load context part = .ok u ∧ u.unnamed = child.unnamed

section Unnamed

theorem unnamed_named (target value : Tree) : (named target value).unnamed = value.unnamed := by
  unfold named
  split
  · rfl
  · rfl

@[simp] theorem slots_unnamed (t : Tree) : t.unnamed.slots = t.slots := by
  cases t with
  | _ => rfl

@[simp] theorem span?_unnamed (t : Tree) : t.unnamed.span? = t.span? := by
  cases t with
  | _ => rfl

end Unnamed

theorem becomes_of_load {context : Context} {part : Form} {u : Tree}
    (h : load context part = .ok u) : Becomes context part u :=
  ⟨u, h, rfl⟩

theorem becomes_named {context : Context} {part : Form} {u : Tree} (target : Tree)
    (h : load context part = .ok u) : Becomes context part (named target u) :=
  ⟨u, h, (unnamed_named target u).symm⟩

/-- The two sides of an assignment become its operands, whichever of them is given a name. -/
theorem becomes_assigned {context : Context} (arrow : Arrow) {form₁ form₂ : Form}
    {left right : Tree} (hleft : load context form₁ = .ok left)
    (hright : load context form₂ = .ok right) :
    ∃ left' right', assigned arrow left right context.span
        = .expr arrow.symbol [left', right'] context.span
      ∧ Becomes context form₁ left' ∧ Becomes context form₂ right' := by
  unfold assigned
  split
  · exact ⟨_, _, rfl, becomes_named right hleft, becomes_of_load hright⟩
  · exact ⟨_, _, rfl, becomes_of_load hleft, becomes_named left hright⟩

/-- What is no `at` is loaded as a node with the span of the context.  Its parts become the children
in the first positions, and in the other positions nothing stands. -/
theorem node_of_load {context : Context} {form : Form} {t : Tree}
    (h : load context form = .ok t)
    (hform : ∀ line₁ column₁ line₂ column₂ inside, form ≠ .list [.symbol "at", .integer line₁,
      .integer column₁, .integer line₂, .integer column₂, inside]) :
    t.span? = some context.span
      ∧ ∃ children absent, t.slots = children ++ List.replicate absent .missing
        ∧ List.Forall₂ (Becomes context) form.parts children := by
  have hrow {forms : List Form} {ts : List Tree} (hts : loadAll context forms = .ok ts) :
      List.Forall₂ (Becomes context) forms ts :=
    (loadAll_eq_ok_iff.mp hts).imp fun _ _ => becomes_of_load
  cases loads_of_load h with
  | symbol => exact ⟨rfl, [], 0, rfl, .nil⟩
  | string => exact ⟨rfl, [], 0, rfl, .nil⟩
  | integer => exact ⟨rfl, [], 0, rfl, .nil⟩
  | float => exact ⟨rfl, [], 0, rfl, .nil⟩
  | located hspan =>
    obtain ⟨⟨rfl, rfl, rfl, rfl⟩, -⟩ := Context.readSpan_eq_ok_iff.mp hspan
    exact absurd rfl (hform _ _ _ _ _)
  | block hstatements =>
    rw [loadStatements_eq] at hstatements
    exact ⟨rfl, _, 0, (List.append_nil _).symm, hrow hstatements⟩
  | condition hcondition =>
    exact ⟨rfl, [_], 2, rfl, .cons (becomes_of_load hcondition) .nil⟩
  | consequent hcondition hconsequent =>
    exact ⟨rfl, [_, _], 1, rfl,
      .cons (becomes_of_load hcondition) (.cons (becomes_of_load hconsequent) .nil)⟩
  | alternative hcondition hconsequent halternative =>
    exact ⟨rfl, [_, _, _], 0, rfl, .cons (becomes_of_load hcondition)
      (.cons (becomes_of_load hconsequent) (.cons (becomes_of_load halternative) .nil))⟩
  | call _ harguments => exact ⟨rfl, _, 0, (List.append_nil _).symm, hrow harguments⟩
  | pipe hsource hstage =>
    exact ⟨rfl, [_, _], 0, rfl, .cons (becomes_of_load hsource)
      (.cons (becomes_of_load hstage) .nil)⟩
  | pipeWith _ hsource hstage =>
    exact ⟨rfl, [_, _], 0, rfl, .cons (becomes_of_load hsource)
      (.cons (becomes_of_load hstage) .nil)⟩
  | header => exact ⟨rfl, [], 1, rfl, .nil⟩
  | function _ hbody => exact ⟨rfl, [_], 0, rfl, .cons (becomes_of_load hbody) .nil⟩
  | @namedHeader form₁ _ _ _ hname =>
    -- the list of the parameters stands where a body would stand if there were no name
    refine ⟨rfl, [], 1, rfl, ?_⟩
    cases form₁ with
    | list => cases hname
    | _ => exact .nil
  | namedFunction _ _ hbody => exact ⟨rfl, [_], 0, rfl, .cons (becomes_of_load hbody) .nil⟩
  | lambdaHeader => exact ⟨rfl, [], 1, rfl, .nil⟩
  | lambda _ hbody => exact ⟨rfl, [_], 0, rfl, .cons (becomes_of_load hbody) .nil⟩
  | @assignment arrow form₁ form₂ _ _ hleft hright =>
    obtain ⟨left', right', heq, hleft', hright'⟩ := becomes_assigned arrow hleft hright
    have hparts : (Form.list [.symbol arrow.symbol, form₁, form₂]).parts = [form₁, form₂] := by
      cases arrow with
      | _ => rfl
    rw [heq, hparts]
    exact ⟨rfl, [left', right'], 0, rfl, .cons hleft' (.cons hright' .nil)⟩
  | expr _ hoperands => exact ⟨rfl, _, 0, (List.append_nil _).symm, hrow hoperands⟩

/-! ## Along a path -/

/-- The partner of an item stands in the same position. -/
theorem exists_getElem?_of_forall₂ {α β : Type} {R : α → β → Prop} {row : List α}
    {partners : List β} (h : List.Forall₂ R row partners) {i : Nat} {b : β}
    (hb : partners[i]? = some b) : ∃ a, row[i]? = some a ∧ R a b := by
  induction h generalizing i with
  | nil => cases hb
  | cons hab _ ih =>
    cases i with
    | zero =>
      cases hb
      exact ⟨_, rfl, hab⟩
    | succ i => exact ih hb

/-- Every node of a loaded tree has its source, and its span from there. -/
theorem exists_source {file : String} {path : Path} {around : List Span} {form : Form}
    {t node : Tree} (hnested : Nested around) (ht : Becomes (.under file around) form t)
    (hat : t.at? path = some node) (hnode : node ≠ .missing) :
    ∃ s, form.source? around path = some s ∧ around <:+ s.around ∧ Nested s.around
      ∧ Becomes (.under file s.around) s.form node ∧ node.span? = some s.span := by
  induction path generalizing around form t with
  | nil =>
    obtain rfl : t = node := Option.some.inj hat
    obtain ⟨u, hload, hu⟩ := ht
    obtain ⟨hinner, hnested', hsuffix⟩ := load_unwrapped hload hnested
    obtain ⟨hspan, -⟩ := node_of_load hinner (unwrapped_ne_located around form)
    refine ⟨form.unwrapped around, rfl, hsuffix, hnested', ⟨u, hinner, hu⟩, ?_⟩
    rw [← span?_unnamed, ← hu, span?_unnamed, hspan]
    rfl
  | cons i path ih =>
    obtain ⟨child, hslot, hat⟩ := at?_cons.mp hat
    obtain ⟨u, hload, hu⟩ := ht
    obtain ⟨hinner, hnested', hsuffix⟩ := load_unwrapped hload hnested
    obtain ⟨-, children, absent, hslots, hparts⟩ :=
      node_of_load hinner (unwrapped_ne_located around form)
    rw [← slots_unnamed, ← hu, slots_unnamed, hslots] at hslot
    -- the child is there, since the node is in it, so it is one of those that come from parts
    have hchild : children[i]? = some child := by
      rw [List.getElem?_append] at hslot
      split at hslot
      · exact hslot
      · obtain rfl := List.eq_of_mem_replicate (List.mem_of_getElem? hslot)
        exact absurd (eq_missing_of_at?_missing hat) hnode
    obtain ⟨part, hpart, hbecomes⟩ := exists_getElem?_of_forall₂ hparts hchild
    obtain ⟨s, hs, hsuffix', hrest⟩ := ih hnested' hbecomes hat
    refine ⟨s, ?_, hsuffix.trans hsuffix', hrest⟩
    rw [Form.source?, hpart]
    exact hs

/-- Each node of a tree that was loaded from a text has the span of the innermost `at` around the
form it was read from, or the default span if there is none.  No span ends before it starts, and the
span of a node contains those of all nodes below it as soon as an `at` stands around it. -/
theorem span_inherited {file text : String} {t : Tree} (hparse : parse file text = .ok t) :
    ∃ form, Form.read text = .ok form
      ∧ ∀ path node, t.at? path = some node → node ≠ .missing →
        ∃ source, form.source? [] path = some source
          ∧ Becomes (.under file source.around) source.form node
          ∧ node.span? = some source.span ∧ source.span.WellPlaced
          ∧ (source.around = [] ∧ source.span = {}
            ∨ ∀ below descendant inner, node.at? below = some descendant →
                descendant.span? = some inner → source.span.Contains inner) := by
  obtain ⟨form, hread, hload⟩ := parse_eq_ok_iff.mp hparse
  refine ⟨form, hread, fun path node hat hnode => ?_⟩
  obtain ⟨source, hsource, -, hnested, hbecomes, hspan⟩ :=
    exists_source nested_nil (becomes_of_load hload) hat hnode
  refine ⟨source, hsource, hbecomes, hspan, hnested.wellPlaced_headD, ?_⟩
  rcases eq_or_ne source.around [] with hnone | haround
  · left
    exact ⟨hnone, by rw [Source.span, hnone]; rfl⟩
  · right
    intro below descendant inner hbelow hinner
    have hpresent : descendant ≠ .missing := by
      rintro rfl
      cases hinner
    -- what is below the node has its source below that of the node
    obtain ⟨s, -, hsuffix, hnested', -, hspan'⟩ :=
      exists_source hnested hbecomes hbelow hpresent
    obtain rfl : s.span = inner := Option.some.inj (hspan'.symm.trans hinner)
    exact hnested'.contains_headD hsuffix haround

set_option maxRecDepth 1024 in
/-- A function that is given its name by an assignment, inside two `at`s and around a third.  It has
the span of the second, which contains that of the third; the block around all of them has the default
span, which contains neither. -/
theorem span_inherited_assigned :
    ∃ (text : String) (t node : Tree) (form : Form) (source : Source),
      parse "" text = .ok t ∧ t.span? = some {} ∧ t.at? [1, 1] = some node
        ∧ node.label? = some "f" ∧ Form.read text = .ok form
        ∧ form.source? [] [1, 1] = some source
        ∧ source.around = [.of 2 1 8 9, .of 1 1 9 9] ∧ node.span? = some source.span
        ∧ source.span.WellPlaced ∧ source.span.Contains (.of 3 1 3 5)
        ∧ ¬ ({} : Span).Contains (.of 3 1 3 5) := by
  let text := "(block x (at 1 1 9 9 (at 2 1 8 9 (<- f (function (a) (at 3 1 3 5 a))))))"
  let function : Tree := .function ["a"] (.expr "a" [] (.of 3 1 3 5)) (some "f") false (.of 2 1 8 9)
  let t : Tree := .block [.expr "x" [] {}, .expr "<-" [.expr "f" [] (.of 2 1 8 9), function]
    (.of 2 1 8 9)] {}
  let located (line₁ column₁ line₂ column₂ : Int) (form : Form) : Form :=
    .list [.symbol "at", .integer line₁, .integer column₁, .integer line₂, .integer column₂, form]
  let form : Form := .list [.symbol "block", .symbol "x", located 1 1 9 9 (located 2 1 8 9
    (.list [.symbol "<-", .symbol "f", .list [.symbol "function", .list [.symbol "a"],
      located 3 1 3 5 (.symbol "a")]]))]
  have hread : Form.read text = .ok form := by cbv
  have hparse : parse "" text = .ok t := parse_eq_ok_iff.mpr ⟨form, hread, by rfl⟩
  obtain ⟨form', hread', hnodes⟩ := span_inherited hparse
  obtain rfl : form = form' := Except.ok.inj (hread.symm.trans hread')
  obtain ⟨source, hsource, -, hspan, hplaced, hbelow⟩ :=
    hnodes [1, 1] function rfl Tree.noConfusion
  obtain rfl : _ = source := Option.some.inj hsource
  have hcontains := (hbelow.resolve_left fun h => List.cons_ne_nil _ _ h.1) [0] _ _ rfl rfl
  exact ⟨text, t, function, form, _, hparse, rfl, rfl, rfl, hread, hsource, rfl, hspan, hplaced,
    hcontains, by decide⟩

end Tree

end TailLint
