import Mathlib
import TailLint.Proofs.Loaded
import TailLint.Proofs.Reports

/-!
# Diagnostics point into their function

A diagnostic carries the span of the node that it is about.  If a text has an `at` around all of it,
the span of each node lies in the spans of all nodes above it, and since what is reported of a
function stands in its body, a diagnostic points into the body, into the function, into every
function around that one, and into the whole.

The loader does not check any of this as such.  It compares an `at` with the nearest `at` around it
and with nothing else, and the nodes in between have no span of their own to compare with.  The
invariant of loaded trees says what that amounts to at one node (`Tree.Loaded.node`); from there it
is carried down a path, one position at a time.

Without the outermost `at` all this fails.  A node with no `at` around it has the default span, and
any span may stand below it.

* `Tree.Loaded.node` --- what the invariant says of a node, whatever its kind;
* `Tree.Loaded.contains` --- below an `at`, the span of a node contains those of all nodes below it;
* `Tree.Loaded.contains_along` --- and so for every node on the way to another one;
* `Definition.exists_of_mem_lint` --- what a diagnostic points to stands in the body of the function.
-/

namespace TailLint

namespace Tree

/-! ## One node -/

/-- A node of a loaded tree has a span that may stand in the outer one, and what stands in its
positions is loaded inside its own span, unless it was left out. -/
theorem Loaded.node {named spanned : Bool} {outer : Span} {t : Tree}
    (h : Loaded named spanned outer t) :
    ∃ span, t.span? = some span ∧ Admits spanned outer span
      ∧ ∀ child ∈ t.slots, child = .missing
        ∨ ∃ named', Loaded named' (within spanned outer span) span child := by
  have hrow {named : Bool} {span : Span} {ts : List Tree}
      (hts : LoadedAll named (within spanned outer span) span ts) :
      ∀ child ∈ ts, child = .missing
        ∨ ∃ named', Loaded named' (within spanned outer span) span child :=
    fun child hchild => Or.inr ⟨named, loadedAll_iff.mp hts child hchild⟩
  cases t with
  | missing => exact absurd h id
  | foreign => exact absurd h id
  | block statements span => exact ⟨span, rfl, h.1, hrow h.2⟩
  | conditional condition consequent alternative span =>
    obtain ⟨hadmits, hcondition, hconsequent, halternative, -⟩ := h
    refine ⟨span, rfl, hadmits, fun child hchild => ?_⟩
    simp only [slots, List.mem_cons, List.not_mem_nil, or_false] at hchild
    rcases hchild with rfl | rfl | rfl
    · exact Or.inr ⟨true, hcondition⟩
    · exact hconsequent.imp_right fun hbranch => ⟨true, hbranch⟩
    · exact halternative.imp_right fun hbranch => ⟨true, hbranch⟩
  | call callee arguments span => exact ⟨span, rfl, h.1, hrow h.2⟩
  | pipe source stage operator span =>
    obtain ⟨hadmits, -, hsource, hstage⟩ := h
    refine ⟨span, rfl, hadmits, fun child hchild => ?_⟩
    simp only [slots, List.mem_cons, List.not_mem_nil, or_false] at hchild
    rcases hchild with rfl | rfl
    · exact Or.inr ⟨true, hsource⟩
    · exact Or.inr ⟨true, hstage⟩
  | expr text operands span => exact ⟨span, rfl, h.1, hrow h.2⟩
  | function parameters body name isLambda span =>
    obtain ⟨hadmits, -, hbody⟩ := h
    refine ⟨span, rfl, hadmits, fun child hchild => ?_⟩
    obtain rfl := List.mem_singleton.mp hchild
    exact hbody.imp_right fun hbody => ⟨true, hbody⟩

/-- Below an `at` an admitted span lies in the outer one. -/
theorem Admits.contains {outer span : Span} (h : Admits true outer span)
    (hplaced : outer.WellPlaced) : span.WellPlaced ∧ outer.Contains span := by
  rcases h with rfl | ⟨hspan, -, hinside⟩
  · exact ⟨hplaced, .refl span⟩
  · exact ⟨hspan, hinside rfl⟩

/-- Below an `at`, a node has a well placed span inside the outer one, and what stands in its
positions is loaded inside that, unless it was left out. -/
theorem Loaded.node_contains {named : Bool} {outer : Span} {t : Tree}
    (h : Loaded named true outer t) (hplaced : outer.WellPlaced) :
    ∃ span, t.span? = some span ∧ span.WellPlaced ∧ outer.Contains span
      ∧ ∀ child ∈ t.slots, child = .missing ∨ ∃ named', Loaded named' true span child := by
  obtain ⟨span, hspan, hadmits, hslots⟩ := h.node
  obtain ⟨hspanPlaced, hcontains⟩ := hadmits.contains hplaced
  exact ⟨span, hspan, hspanPlaced, hcontains, hslots⟩

/-! ## Along a path -/

/-- What stands in a position on the way to a node with a span is loaded if its parent is. -/
theorem loaded_of_slot {t child u : Tree} {i : Nat} {path : Path} {span inner : Span}
    (hslots : ∀ child ∈ t.slots, child = .missing ∨ ∃ named, Loaded named true span child)
    (hslot : t.slots[i]? = some child) (hat : child.at? path = some u)
    (hspan : u.span? = some inner) : ∃ named, Loaded named true span child := by
  rcases hslots child (List.mem_of_getElem? hslot) with rfl | hchild
  · obtain rfl := eq_missing_of_at?_missing hat
    cases hspan
  · exact hchild

/-- Below an `at`, the span of a node contains those of all nodes below it, and these are well
placed. -/
theorem Loaded.contains {named : Bool} {outer : Span} {t : Tree} (h : Loaded named true outer t)
    (hplaced : outer.WellPlaced) {path : Path} {u : Tree} {inner : Span}
    (hat : t.at? path = some u) (hinner : u.span? = some inner) :
    ∃ span, t.span? = some span ∧ outer.Contains span ∧ span.Contains inner
      ∧ inner.WellPlaced := by
  induction path generalizing named outer t with
  | nil =>
    obtain rfl : t = u := Option.some.inj hat
    obtain ⟨span, hspan, hspanPlaced, hcontains, -⟩ := h.node_contains hplaced
    obtain rfl : span = inner := Option.some.inj (hspan.symm.trans hinner)
    exact ⟨span, hspan, hcontains, .refl span, hspanPlaced⟩
  | cons i path ih =>
    obtain ⟨child, hslot, hat⟩ := at?_cons.mp hat
    obtain ⟨span, hspan, hspanPlaced, hcontains, hslots⟩ := h.node_contains hplaced
    obtain ⟨_, hchild⟩ := loaded_of_slot hslots hslot hat hinner
    obtain ⟨childSpan, -, hin, hbelow, hinnerPlaced⟩ := ih hchild hspanPlaced hat
    exact ⟨span, hspan, hcontains, hin.trans hbelow, hinnerPlaced⟩

/-- Below an `at`, the span of each node on the way to another one contains the span of that one. -/
theorem Loaded.contains_along {named : Bool} {outer : Span} {t : Tree}
    (h : Loaded named true outer t) (hplaced : outer.WellPlaced) {above below : Path} {u : Tree}
    {inner : Span} (hat : t.at? (above ++ below) = some u) (hinner : u.span? = some inner) :
    ∃ v span, t.at? above = some v ∧ v.span? = some span ∧ span.Contains inner := by
  induction above generalizing named outer t with
  | nil =>
    obtain ⟨span, hspan, -, hcontains, -⟩ := h.contains hplaced hat hinner
    exact ⟨t, span, rfl, hspan, hcontains⟩
  | cons i above ih =>
    obtain ⟨child, hslot, hat⟩ := at?_cons.mp hat
    obtain ⟨span, -, hspanPlaced, -, hslots⟩ := h.node_contains hplaced
    obtain ⟨_, hchild⟩ := loaded_of_slot hslots hslot hat hinner
    obtain ⟨v, vSpan, hv, hvSpan, hcontains⟩ := ih hchild hspanPlaced hat
    exact ⟨v, vSpan, at?_cons.mpr ⟨child, hslot, hv⟩, hvSpan, hcontains⟩

/-- What is loaded from an `at` is loaded from a form in it, inside a well placed span. -/
theorem exists_of_load_located {context : Context} {items : List Form} {t : Tree}
    (h : load context (.list (.symbol "at" :: items)) = .ok t) :
    ∃ form ∈ items, ∃ span : Span, span.WellPlaced ∧ load (context.inside span) form = .ok t := by
  generalize hwhole : Form.list (.symbol "at" :: items) = whole at h
  cases loads_of_load h with
  | @located _ _ _ _ form span _ hspan hform =>
    obtain ⟨-, rfl⟩ := List.cons.inj (Form.list.inj hwhole)
    exact ⟨form, by simp, span, (Context.readSpan_eq_ok_iff.mp hspan).2.1, hform⟩
  | assignment arrow => cases arrow <;> simp [Arrow.symbol] at hwhole
  | _ => simp at hwhole

/-- A text with an `at` around all of it is loaded inside the span of that. -/
theorem loaded_of_parse_located {file text : String} {items : List Form} {t : Tree}
    (hread : Form.read text = .ok (.list (.symbol "at" :: items)))
    (hparse : parse file text = .ok t) :
    ∃ outer : Span, outer.WellPlaced ∧ Loaded true true outer t := by
  have hload : load { file } (.list (.symbol "at" :: items)) = .ok t := by
    rw [parse, hread] at hparse
    exact hparse
  obtain ⟨form, hmem, span, hplaced, hform⟩ := exists_of_load_located hload
  have hshort : Form.ShortAll (.symbol "at" :: items) := Form.short_of_read hread
  have hformShort := Form.shortAll_iff.mp hshort form (List.mem_cons_of_mem _ hmem)
  exact ⟨span, hplaced, loaded_of_load hformShort hform⟩

end Tree

/-! ## Diagnostics -/

/-- A diagnostic of a function carries the span of a node that stands in its body. -/
theorem Definition.exists_of_mem_lint {policy : Policy} {file : String} {d : Definition}
    {diagnostic : Diagnostic} (h : diagnostic ∈ d.lint policy file) :
    ∃ path node, d.body.at? path = some node ∧ node.span? = some diagnostic.span := by
  have hreported : some diagnostic ∈ (d.reports policy []).map (Report.diagnostic? file) := by
    rw [map_diagnostic?_reports]
    exact List.mem_map_of_mem h
  obtain ⟨r, hr, hdiagnostic⟩ := List.mem_map.mp hreported
  obtain ⟨-, -, path, -, hreaches⟩ := reaches_of_mem_reports hr
  obtain ⟨span, hspan, rfl⟩ := Option.map_eq_some_iff.mp hdiagnostic
  exact ⟨path, r.finding.node, hreaches.at?, hspan⟩

/-- In a text with an `at` around all of it, a diagnostic of a function points to a well placed span
in the body of the function, in the function, in every function around it and in the whole. -/
theorem Tree.span_of_mem_lint {file text : String} {items : List Form} {t : Tree}
    (hread : Form.read text = .ok (.list (.symbol "at" :: items)))
    (hparse : parse file text = .ok t) {home : Path} {d : Definition}
    (hd : t.at? home = some (ofDefinition d)) {policy : Policy} {source : String}
    {diagnostic : Diagnostic} (hmem : diagnostic ∈ d.lint policy source) :
    diagnostic.span.WellPlaced
      ∧ (∃ span, d.body.span? = some span ∧ span.Contains diagnostic.span)
      ∧ d.span.Contains diagnostic.span
      ∧ (∀ around e, around <+: home → t.at? around = some (ofDefinition e) →
          e.span.Contains diagnostic.span)
      ∧ ∃ span, t.span? = some span ∧ span.Contains diagnostic.span := by
  obtain ⟨outer, hplaced, hloaded⟩ := loaded_of_parse_located hread hparse
  obtain ⟨path, node, hnode, hspan⟩ := Definition.exists_of_mem_lint hmem
  have hat : t.at? (home ++ 0 :: path) = some node := by
    rw [at?_append, hd]
    exact hnode
  obtain ⟨wholeSpan, hwhole, -, hcontains, hdiagnostic⟩ := hloaded.contains hplaced hat hspan
  -- the body and the functions around it all stand on the way to the node
  have halong {above : Path} {v : Tree} (habove : above <+: home ++ 0 :: path)
      (hv : t.at? above = some v) : ∃ span, v.span? = some span ∧ span.Contains diagnostic.span := by
    obtain ⟨below, hbelow⟩ := habove
    rw [← hbelow] at hat
    obtain ⟨v', span, hv', hvSpan, hin⟩ := hloaded.contains_along hplaced hat hspan
    obtain rfl : v = v' := Option.some.inj (hv.symm.trans hv')
    exact ⟨span, hvSpan, hin⟩
  have hfunction {around : Path} {e : Definition} (haround : around <+: home)
      (he : t.at? around = some (ofDefinition e)) : e.span.Contains diagnostic.span := by
    obtain ⟨span, heSpan, hin⟩ := halong (haround.trans (List.prefix_append _ _)) he
    obtain rfl : e.span = span := Option.some.inj heSpan
    exact hin
  have hbody : t.at? (home ++ [0]) = some d.body := by
    rw [at?_append, hd]
    rfl
  have hbodyPrefix : home ++ [0] <+: home ++ 0 :: path := ⟨path, by simp⟩
  exact ⟨hdiagnostic, halong hbodyPrefix hbody, hfunction (List.prefix_refl home) hd,
    fun around e => hfunction, wholeSpan, hwhole, hcontains⟩

set_option maxRecDepth 1024 in
/-- A function in a function, with no `at` around the inner one.  It ends in a chain, and the call at
the end of the chain is what is reported. -/
theorem Tree.span_of_mem_lint_nested :
    ∃ (text : String) (items : List Form) (t : Tree) (d e : Definition) (diagnostic : Diagnostic),
      Form.read text = .ok (.list (.symbol "at" :: items)) ∧ parse "" text = .ok t
        ∧ t.at? [] = some (ofDefinition e) ∧ t.at? [0] = some (ofDefinition d)
        ∧ diagnostic ∈ d.lint .default "" ∧ diagnostic.span = .of 3 1 3 9
        ∧ diagnostic.span.WellPlaced
        ∧ (∃ span, d.body.span? = some span ∧ span.Contains diagnostic.span)
        ∧ d.span.Contains diagnostic.span ∧ e.span.Contains diagnostic.span
        ∧ ∃ span, t.span? = some span ∧ span.Contains diagnostic.span := by
  let text := "(at 1 1 9 9 (function () (lambda () (pipe x (at 3 1 3 9 (call return))))))"
  let located (line₁ column₁ line₂ column₂ : Int) (form : Form) : List Form :=
    [.symbol "at", .integer line₁, .integer column₁, .integer line₂, .integer column₂, form]
  let stage : Form := .list (located 3 1 3 9 (.list [.symbol "call", .symbol "return"]))
  let whole : Form := .list [.symbol "function", .list [],
    .list [.symbol "lambda", .list [], .list [.symbol "pipe", .symbol "x", stage]]]
  let d : Definition :=
    { body := .pipe (.expr "x" [] (.of 1 1 9 9)) (.call "return" [] (.of 3 1 3 9)) "%>%"
        (.of 1 1 9 9)
      isLambda := true
      span := .of 1 1 9 9 }
  let e : Definition := { body := ofDefinition d, span := .of 1 1 9 9 }
  have hread : Form.read text = .ok (.list (located 1 1 9 9 whole)) := by cbv
  have hparse : parse "" text = .ok (ofDefinition e) := by
    rw [parse, hread]
    rfl
  have hat : (ofDefinition e).at? [0] = some (ofDefinition d) := rfl
  have hmem : Diagnostic.ofRule ⟨"", none⟩ .pipeReturn (.of 3 1 3 9) ∈ d.lint .default "" :=
    List.mem_singleton_self _
  obtain ⟨hplaced, hbody, hfunction, haround, hwhole⟩ := span_of_mem_lint hread hparse hat hmem
  exact ⟨text, _, ofDefinition e, d, e, _, hread, hparse, rfl, hat, hmem, rfl, hplaced, hbody,
    hfunction, haround [] e List.nil_prefix rfl, hwhole⟩

end TailLint
