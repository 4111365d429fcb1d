import TailLint.Proofs.Exit
import TailLint.Proofs.Naming

/-!
# What the linter says of a tree that comes back

Printing a tree and loading it again leaves everything alone that the linter looks at, apart
from the names of functions.  A name is looked at twice: it decides whether the function is
exempt, and it is named in each diagnostic.  So the diagnostics of the tree that comes back are
those of the tree if every function has the name that it comes back with.

The converse is nearly true.  A function of which nothing can be reported under any policy may
come back with another name, and nobody notices.  Such a function is left only by calls that
count as an exit under every policy and are no `return` (`Tree.Silent`).  Of any other function
something is reported under one of two policies that exempt nothing with an ordinary name
(`strictPolicies`), and there the names show.

* `Definition.lint_restored` --- only the name matters for what is said of a function that
  comes back;
* `Tree.Silent.allows`, `Tree.silent_of_allows` --- a silent body is left only where every policy
  allows it, and a body that is left only where the two strict policies allow it is silent;
* `Tree.lint_reloaded_iff` --- for trees made of plain words, printing and loading again keeps
  the diagnostics under all policies if and only if every assigned function has the name it comes
  back with or is silent.
-/

namespace TailLint

namespace Tree

/-! ## What the linter looks at comes back -/

/-- Whether two nodes look alike to the linter, apart from what is below them. -/
structure Alike (u t : Tree) : Prop where
  isConditional : u.isConditional = t.isConditional
  isBlock : u.isBlock = t.isBlock
  isPipe : u.isPipe = t.isPipe
  span? : u.span? = t.span?
  callee? : u.callee? = t.callee?
  lacksAlternative : u.lacksAlternative = t.lacksAlternative

/-- A node comes back as a node that looks alike. -/
theorem alike_reloaded (named : Bool) (t : Tree) : Alike (reloaded named t) t := by
  cases t with
  | conditional condition consequent alternative span =>
    exact ⟨rfl, rfl, rfl, rfl, rfl, isMissing_reloaded true alternative⟩
  | expr text operands span =>
    obtain ⟨operands', hback, -⟩ := exists_reloaded_expr named text operands span
    rw [hback]
    exact ⟨rfl, rfl, rfl, rfl, rfl, rfl⟩
  | _ => exact ⟨rfl, rfl, rfl, rfl, rfl, rfl⟩

/-- What is no function comes back the same whatever becomes of names. -/
theorem restored_of_isPipe {t : Tree} (h : t.isPipe = true)
    (rename : Option String → Option String) : t.restored rename = reloaded true t := by
  cases t with
  | pipe => rfl
  | _ => cases h

theorem isPipe_restored (rename : Option String → Option String) (t : Tree) :
    (t.restored rename).isPipe = t.isPipe := by
  cases t with
  | function => rfl
  | _ => exact (alike_reloaded true _).isPipe

/-- An assignment comes back as an assignment, and so does what is none. -/
theorem assignment?_reloaded (t : Tree) :
    (reloaded true t).assignment? = t.assignment?.map fun a =>
      ⟨a.arrow, a.left.restored fun _ => a.leftName?, a.right.restored fun _ => a.rightName?⟩ := by
  cases ha : t.assignment? with
  | some a =>
    obtain ⟨span, hback⟩ := reloaded_of_assignment? ha
    rw [hback, assignment?_arrow]
    rfl
  | none =>
    cases t with
    | expr text operands span =>
      rw [reloaded_expr true ha]
      match operands, ha with
      | [], _ => rfl
      | [_], _ => rfl
      | [left, right], ha =>
        have harrow : Arrow.ofSymbol? text = none := Option.map_eq_none_iff.mp ha
        exact Option.map_eq_none_iff.mpr harrow
      | _ :: _ :: _ :: _, _ => rfl
    | _ => rfl

theorem value_restored (a : Assignment) :
    Assignment.value
        ⟨a.arrow, a.left.restored fun _ => a.leftName?, a.right.restored fun _ => a.rightName?⟩
      = a.value.restored fun _ => a.targetName? := by
  unfold Assignment.value Assignment.leftName? Assignment.rightName?
  cases a.arrow.pointsRight with
  | false => rfl
  | true => rfl

theorem finalStage_reloaded : ∀ t : Tree, (reloaded true t).finalStage = reloaded true t.finalStage
  | .missing => rfl
  | .foreign _ => rfl
  | .block _ _ => rfl
  | .conditional _ _ _ _ => rfl
  | .call _ _ _ => rfl
  | .pipe _ stage _ _ => finalStage_reloaded stage
  | .expr text operands span => by
    obtain ⟨operands', hback, -⟩ := exists_reloaded_expr true text operands span
    show _ = reloaded true (.expr text operands span)
    rw [hback]
    rfl
  | .function _ _ _ _ _ => rfl

theorem pipeOperand?_reloaded (t : Tree) :
    (reloaded true t).pipeOperand? = t.pipeOperand?.map (reloaded true) := by
  unfold pipeOperand?
  rw [(alike_reloaded true t).isPipe]
  cases t.isPipe with
  | true => rfl
  | false =>
    rw [if_neg Bool.false_ne_true, if_neg Bool.false_ne_true, assignment?_reloaded]
    cases t.assignment? with
    | none => rfl
    | some a =>
      rw [Option.map_some, Option.bind_some, Option.bind_some, value_restored, isPipe_restored]
      cases hpipe : a.value.isPipe with
      | false => rfl
      | true =>
        rw [if_pos rfl, if_pos rfl, restored_of_isPipe hpipe]
        rfl

theorem callTarget_reloaded (t : Tree) :
    (reloaded true t).callTarget = reloaded true t.callTarget := by
  unfold callTarget
  rw [pipeOperand?_reloaded]
  cases t.pipeOperand? with
  | none => rfl
  | some chain => exact finalStage_reloaded chain

mutual

/-- The terminal positions of a body come back. -/
theorem terminals_reloaded :
    ∀ t : Tree, (reloaded true t).terminals = t.terminals.map (reloaded true)
  | .missing => rfl
  | .foreign _ => rfl
  | .block [] _ => rfl
  | .block (first :: rest) _ => lastTerminals_reloadedAll (first :: rest)
  | .conditional condition consequent alternative span => by
    rw [reloaded, terminals, terminals, isMissing_reloaded, terminals_reloaded consequent,
      terminals_reloaded alternative, List.map_append, List.map_append]
    cases alternative.isMissing with
    | false => rfl
    | true => rfl
  | .call _ _ _ => rfl
  | .pipe _ _ _ _ => rfl
  | .expr text operands span => by
    obtain ⟨operands', hback, -⟩ := exists_reloaded_expr true text operands span
    show _ = [reloaded true (.expr text operands span)]
    rw [hback]
    rfl
  | .function _ _ _ _ _ => rfl

theorem lastTerminals_reloadedAll :
    ∀ ts : List Tree, lastTerminals (reloadedAll true ts) = (lastTerminals ts).map (reloaded true)
  | [] => rfl
  | [last] => terminals_reloaded last
  | _ :: next :: rest => lastTerminals_reloadedAll (next :: rest)

end

end Tree

/-- The findings at a position that comes back are those at the position. -/
theorem Terminal.findings_reloaded (policy : Policy) (flag : Bool) (node : Tree) :
    findings policy ⟨node.reloaded true, flag⟩
      = (findings policy ⟨node, flag⟩).map fun f => ⟨f.rule, f.node.reloaded true⟩ := by
  have hcallee : (node.reloaded true).callTarget.callee? = node.callTarget.callee? := by
    rw [Tree.callTarget_reloaded, (Tree.alike_reloaded true node.callTarget).callee?]
  have hpipe : (node.reloaded true).endsInPipe = node.endsInPipe := by
    unfold Tree.endsInPipe
    rw [Tree.pipeOperand?_reloaded, Option.isSome_map]
  unfold findings styleFindings elseFindings
  dsimp only
  rw [(Tree.alike_reloaded true node).isConditional, (Tree.alike_reloaded true node).isBlock,
    hcallee, hpipe, (Tree.alike_reloaded true node).lacksAlternative, Tree.callTarget_reloaded,
    List.map_append]
  congr 1
  · split
    · rfl
    · split
      · split
        · rfl
        · rfl
      · split
        · rfl
        · rfl
  · split
    · rfl
    · rfl

namespace Definition

/-- A function under another name. -/
def withName (d : Definition) (name : Option String) : Definition := { d with name := name }

theorem findings_restored (policy : Policy) (d : Definition) (name : Option String) :
    (d.restored name).findings policy
      = ((d.withName name).findings policy).map fun f => ⟨f.rule, f.node.reloaded true⟩ := by
  have hskipped : Terminal.isSkipped policy (d.restored name)
      = Terminal.isSkipped policy (d.withName name) := rfl
  unfold findings Terminal.ofDefinition
  rw [hskipped]
  split
  · rfl
  · show (Terminal.find _ (d.body.reloaded true)).flatMap _
      = ((Terminal.find _ d.body).flatMap _).map _
    rw [Terminal.find, Terminal.find, Tree.terminals_reloaded, List.map_map, List.flatMap_map,
      List.flatMap_map, List.map_flatMap]
    exact List.flatMap_congr fun node _ => Terminal.findings_reloaded policy _ node

/-- What is said of a function that comes back is what is said of the function under the name
it comes back with. -/
theorem lint_restored (policy : Policy) (file : String) (d : Definition) (name : Option String) :
    (d.restored name).lint policy file = (d.withName name).lint policy file := by
  unfold lint
  rw [findings_restored, List.filterMap_map]
  refine List.filterMap_congr fun f _ => ?_
  show (f.node.reloaded true).span?.map _ = f.node.span?.map _
  rw [(Tree.alike_reloaded true f.node).span?]
  rfl

end Definition

/-! ## Functions of which nothing can be said -/

/-- Whether a body is left only by calls that count as an exit under every policy and are no
`return`. -/
def Tree.Silent (body : Tree) : Prop :=
  ∀ node ∈ body.terminals, node.isConditional = false
    ∧ ∃ name ∈ baseReturnFunctions, name ≠ "return" ∧ node.callTarget.callee? = some name

/-- Two policies that between them find something in every body that is not silent, and exempt
nothing but the hooks. -/
def strictPolicies : List Policy :=
  [.of .explicit true .empty .empty, .of .implicit false .empty .empty]

namespace Tree

/-- A silent body is left only where leaving is allowed. -/
theorem Silent.allows {body node : Tree} (h : body.Silent) (hnode : node ∈ body.terminals)
    (policy : Policy) : policy.Allows node := by
  obtain ⟨hconditional, name, hname, hreturn, hcallee⟩ := h node hnode
  unfold Policy.Allows
  rw [if_neg (by simp [hconditional])]
  cases policy.style with
  | implicit =>
    show node.callTarget.callee? ≠ some "return"
    rw [hcallee]
    exact fun heq => hreturn (Option.some.inj heq)
  | explicit => exact ⟨name, policy.base_mem name hname, hcallee⟩

/-- A body that is left only where the two strict policies allow it is silent. -/
theorem silent_of_allows {body : Tree}
    (h : ∀ policy ∈ strictPolicies, ∀ node ∈ body.terminals, policy.Allows node) :
    body.Silent := by
  intro node hnode
  have hexplicit := h _ List.mem_cons_self node hnode
  have himplicit := h _ (List.mem_cons_of_mem _ List.mem_cons_self) node hnode
  unfold Policy.Allows at hexplicit himplicit
  cases hconditional : node.isConditional with
  | true =>
    rw [hconditional] at himplicit
    cases himplicit
  | false =>
    rw [hconditional] at hexplicit himplicit
    obtain ⟨name, hname, hcallee⟩ : ∃ name ∈ baseReturnFunctions.union .empty,
      node.callTarget.callee? = some name := hexplicit
    have hreturn : node.callTarget.callee? ≠ some "return" := himplicit
    refine ⟨rfl, name, ?_, fun heq => hreturn (heq ▸ hcallee), hcallee⟩
    exact (NameSet.mem_union.mp hname).resolve_right (NameSet.not_mem_empty name)

end Tree

namespace Definition

theorem function_of_mem_lint {policy : Policy} {file : String} {d : Definition}
    {diagnostic : Diagnostic} (h : diagnostic ∈ d.lint policy file) :
    diagnostic.function = d.name := by
  obtain ⟨f, -, hf⟩ := List.mem_filterMap.mp h
  obtain ⟨span, -, rfl⟩ := Option.map_eq_some_iff.mp hf
  rfl

/-- Under another name, the same is said of a function if it is silent. -/
theorem lint_withName {d : Definition} {name : Option String}
    (h : d.name = name ∨ d.body.Silent) (policy : Policy) (file : String) :
    (d.withName name).lint policy file = d.lint policy file := by
  rcases h with rfl | hsilent
  · rfl
  · have hclean : ∀ e : Definition, e.body.Silent → e.lint policy file = [] := by
      intro e he
      refine (lint_eq_nil_iff policy file e).mpr (Or.inr fun oracle node hexit => ?_)
      exact he.allows (Tree.mem_terminals_of_exit hexit) policy
    rw [hclean d hsilent, hclean (d.withName name) hsilent]

/-- If the same is said of a function under two names by the strict policies, which exempt
neither, the names are the same or the function is silent. -/
theorem name_eq_or_silent {d : Definition} {name : Option String}
    (hexempt : ∀ policy ∈ strictPolicies, policy.isExempt d.name = false)
    (h : ∀ policy ∈ strictPolicies, (d.withName name).lint policy "" = d.lint policy "") :
    d.name = name ∨ d.body.Silent := by
  by_cases hname : d.name = name
  · exact Or.inl hname
  · refine Or.inr (Tree.silent_of_allows fun policy hpolicy node hnode => ?_)
    have hclean : d.lint policy "" = [] := by
      refine List.eq_nil_iff_forall_not_mem.mpr fun diagnostic hmem => hname ?_
      have hmem' : diagnostic ∈ (d.withName name).lint policy "" := h policy hpolicy ▸ hmem
      rw [← function_of_mem_lint hmem, function_of_mem_lint hmem']
      rfl
    rcases (lint_eq_nil_iff policy "" d).mp hclean with hskipped | hallows
    · unfold Terminal.isSkipped at hskipped
      rw [hexempt policy hpolicy, Bool.and_false] at hskipped
      cases hskipped
    · obtain ⟨oracle, hexit⟩ := Tree.mem_terminals_iff.mp hnode
      exact hallows oracle node hexit

/-- As many things are said of a function under two names if neither is exempt. -/
theorem length_lint_withName {policy : Policy} {d : Definition} {name : Option String}
    (h : policy.isExempt d.name = false) (h' : policy.isExempt name = false) (file : String) :
    ((d.withName name).lint policy file).length = (d.lint policy file).length := by
  have hfindings : (d.withName name).findings policy = d.findings policy := by
    unfold findings Terminal.ofDefinition Terminal.isSkipped
    show (if policy.consultsExemptions && policy.isExempt name then [] else _).flatMap _ = _
    rw [h, h']
    rfl
  have hlength : ∀ e : Definition, (e.lint policy file).length = (e.findings policy).length := by
    intro e
    rw [← List.length_map (f := some), map_some_lint, List.length_map]
  rw [hlength, hlength, hfindings]

end Definition

/-! ## Trees made of plain words -/

namespace Tree

/-- Whether a text is made of letters and read as a symbol. -/
def IsWord (text : String) : Prop :=
  text ≠ "" ∧ text.toList.all Char.isAlpha = true ∧ IsSymbol text

/-- Whether the names and texts of a node are words; the text of an expression with operands may
be that of an arrow. -/
def Worded : Tree → Prop
  | .call callee _ _ => IsWord callee
  | .expr text operands _ => IsWord text ∨ operands ≠ [] ∧ ∃ arrow : Arrow, text = arrow.symbol
  | .function parameters _ name _ _ => (∀ p ∈ parameters, IsWord p) ∧ ∀ n ∈ name, IsWord n
  | _ => True

/-- A letter is none of some characters that are no letters. -/
theorem not_mem_of_isAlpha {c : Char} (hc : c.isAlpha = true) {cs : List Char}
    (hcs : cs.all (!·.isAlpha) = true) : c ∉ cs := by
  intro hmem
  have hnot := List.all_eq_true.mp hcs c hmem
  rw [hc] at hnot
  cases hnot

namespace IsWord

theorem isAlpha {text : String} (h : IsWord text) {c : Char} (hc : c ∈ text.toList) :
    c.isAlpha = true :=
  List.all_eq_true.mp h.2.1 c hc

theorem isPlain {text : String} (h : IsWord text) : IsPlain text :=
  fun _ hc => not_mem_of_isAlpha (h.isAlpha hc) (by decide)

/-- A word is written without quotes. -/
theorem needsQuotes {text : String} (h : IsWord text) :
    Tree.needsQuotes text.toList = false := by
  unfold Tree.needsQuotes
  rw [Bool.or_eq_false_iff]
  constructor
  · have hne : text.toList ≠ [] := fun hnil => h.1 (String.toList_eq_nil_iff.mp hnil)
    exact List.isEmpty_eq_false_iff.mpr hne
  · refine List.any_eq_false.mpr fun c hc => ?_
    have hnot : c ∉ [' ', '(', ')', '"', '\'', '[', ']', ';'] :=
      not_mem_of_isAlpha (h.isAlpha hc) (by decide)
    simpa using hnot

theorem legibleName {text : String} (h : IsWord text) : LegibleName text :=
  Or.inr ⟨h.isPlain, Or.inl h.2.2⟩

theorem legibleLeaf {text : String} (h : IsWord text) : LegibleLeaf text :=
  Or.inl ⟨h.needsQuotes, h.isPlain, h.2.2⟩

end IsWord

theorem legibleName_symbol (arrow : Arrow) : LegibleName arrow.symbol := by
  refine Or.inr ⟨?_, Or.inl ?_⟩
  · cases arrow with
    | _ => decide
  · cases arrow with
    | _ => rfl

theorem legible_expr {text : String} {operands : List Tree} {span : Span}
    (h : Worded (.expr text operands span)) :
    if operands.isEmpty then LegibleLeaf text else LegibleName text := by
  cases operands with
  | nil => exact (h.resolve_right fun harrow => harrow.1 rfl).legibleLeaf
  | cons =>
    rcases h with hword | ⟨-, arrow, rfl⟩
    · exact hword.legibleName
    · exact legibleName_symbol arrow

mutual

/-- A tree made of words is legible. -/
theorem legible_of_worded (named : Bool) : ∀ {t : Tree}, Everywhere Worded t → Legible named t
  | .missing, _ => trivial
  | .foreign _, _ => trivial
  | .block _ _, h => legibleAll_of_worded true (everywhere_iff.mp h).2
  | .conditional condition consequent alternative span, h => by
    have hslots : ∀ child ∈ [condition, consequent, alternative],
        child = .missing ∨ Everywhere Worded child := fun child hchild => h.of_mem_slots hchild
    simp only [List.forall_mem_cons] at hslots
    obtain ⟨hcondition, hconsequent, halternative, -⟩ := hslots
    refine ⟨?_, ?_, ?_⟩
    · rcases hcondition with rfl | hcondition
      · trivial
      · exact legible_of_worded true hcondition
    · rcases hconsequent with rfl | hconsequent
      · trivial
      · exact legible_of_worded true hconsequent
    · rcases halternative with rfl | halternative
      · trivial
      · exact legible_of_worded true halternative
  | .call _ _ _, h =>
    ⟨(everywhere_iff.mp h).1.legibleName, legibleAll_of_worded true (everywhere_iff.mp h).2⟩
  | .pipe source stage _ _, h => by
    have hchildren := (everywhere_iff.mp h).2
    exact ⟨legible_of_worded true (hchildren source (by simp [children])),
      legible_of_worded true (hchildren stage (by simp [children]))⟩
  | .expr _ _ _, h =>
    ⟨legible_expr (everywhere_iff.mp h).1, legibleAll_of_worded _ (everywhere_iff.mp h).2⟩
  | .function parameters body name isLambda span, h => by
    obtain ⟨⟨hparameters, hname⟩, -⟩ := everywhere_iff.mp h
    refine ⟨fun p hp => (hparameters p hp).legibleName, fun _ n hn => (hname n hn).legibleName, ?_⟩
    have hslot : body ∈ (Tree.function parameters body name isLambda span).slots :=
      List.mem_singleton_self body
    rcases h.of_mem_slots hslot with rfl | hbody
    · trivial
    · exact legible_of_worded true hbody

theorem legibleAll_of_worded (named : Bool) :
    ∀ {ts : List Tree}, (∀ t ∈ ts, Everywhere Worded t) → LegibleAll named ts
  | [], _ => trivial
  | _ :: _, h => ⟨legible_of_worded named (h _ List.mem_cons_self),
      legibleAll_of_worded named fun t ht => h t (List.mem_cons_of_mem _ ht)⟩

end

/-! ## Names made of letters are not exempt -/

/-- Whether a name, if there is one, is made of letters. -/
def Lettered (name? : Option String) : Prop :=
  ∀ name ∈ name?, ∀ c ∈ name.toList, c.isAlpha = true

theorem mem_of_mem_unquoted {text : String} {c : Char} (h : c ∈ (unquoted text).toList) :
    c ∈ text.toList := by
  unfold unquoted at h
  rw [String.toList_ofList, List.mem_reverse] at h
  have hreverse := (List.dropWhile_sublist _).subset h
  exact (List.dropWhile_sublist _).subset (List.mem_reverse.mp hreverse)

/-- The name that a leaf made of letters gives is made of letters. -/
theorem lettered_leafName? {t : Tree} (h : Worded t) : Lettered t.leafName? := by
  cases t with
  | expr text operands span =>
    cases operands with
    | nil =>
      rintro _ ⟨⟩ c hc
      exact (h.resolve_right fun harrow => harrow.1 rfl).isAlpha (mem_of_mem_unquoted hc)
    | cons => exact nofun
  | _ => exact nofun

/-- The hooks have a dot in their names. -/
theorem not_mem_lifecycleHooks {name : String} (h : ∀ c ∈ name.toList, c.isAlpha = true) :
    name ∉ lifecycleHooks := by
  intro hmem
  have hdot : '.' ∈ name.toList := by
    have hall : ∀ hook ∈ [".onLoad", ".onUnload", ".onAttach", ".onDetach", ".Last.lib", ".First",
      ".Last"], '.' ∈ hook.toList := by decide
    exact hall name (NameSet.mem_ofList.mp hmem)
  have := h '.' hdot
  cases this

theorem isExempt_of_lettered {name? : Option String} (h : Lettered name?) {policy : Policy}
    (hpolicy : policy ∈ strictPolicies) : policy.isExempt name? = false := by
  cases name? with
  | none => rfl
  | some name =>
    have hnot : name ∉ lifecycleHooks.union .empty := by
      intro hmem
      rcases NameSet.mem_union.mp hmem with hhook | hempty
      · exact not_mem_lifecycleHooks (h name rfl) hhook
      · exact NameSet.not_mem_empty name hempty
    simp only [strictPolicies, List.mem_cons, List.not_mem_nil, or_false] at hpolicy
    rcases hpolicy with rfl | rfl
    · exact decide_eq_false hnot
    · exact decide_eq_false hnot

/-- In a tree made of words, functions have and come back with names made of letters. -/
theorem lettered_of_mem_comebacks {t : Tree} (h : Everywhere Worded t)
    {x : Definition × Option String} (hx : x ∈ t.comebacks id) :
    Lettered x.1.name ∧ Lettered x.2 := by
  have hname : Lettered x.1.name := by
    have hmem : x.1 ∈ t.definitions := by
      rw [← map_fst_comebacks id t]
      exact List.mem_map_of_mem hx
    rw [definitions_eq] at hmem
    obtain ⟨u, hu, hd⟩ := List.mem_filterMap.mp hmem
    have hworded : Worded (ofDefinition x.1) := eq_ofDefinition hd ▸ h u hu
    exact fun name hn c hc => (hworded.2 name hn).isAlpha hc
  refine ⟨hname, ?_⟩
  have hall := (forall_comebacks (Q := fun d name => Lettered d.name → Lettered name)
    (fun _ => id) id t).mpr ⟨fun _ _ => id, fun u hu a ha => ?_⟩
  · exact hall x hx hname
  · have htarget : Lettered a.targetName? := by
      obtain ⟨span, rfl⟩ := eq_expr_of_assignment? ha
      have hbelow := (everywhere_iff.mp (h.parts _ hu)).2
      refine lettered_leafName? (everywhere_iff.mp (hbelow a.target ?_)).1
      unfold Assignment.target
      split
      · exact List.mem_cons_of_mem _ List.mem_cons_self
      · exact List.mem_cons_self
    have hnone : Lettered none := nofun
    unfold Assignment.leftName? Assignment.rightName?
    cases a.arrow.pointsRight with
    | false => exact ⟨fun _ _ _ => hnone, fun _ _ _ => htarget⟩
    | true => exact ⟨fun _ _ _ => htarget, fun _ _ _ => hnone⟩

end Tree

/-! ## The exact condition -/

/-- Whether it makes no difference to the linter that the functions in an assignment come back
with the names that loading gives them: each of them has that name or is silent. -/
def Assignment.NamesHarmless (a : Assignment) : Prop :=
  (∀ d, a.value.definition? = some d → d.name = a.targetName? ∨ d.body.Silent)
    ∧ ∀ d, a.target.definition? = some d → d.name = none ∨ d.body.Silent

theorem Assignment.namesHarmless_iff (a : Assignment) :
    a.NamesHarmless ↔
      (∀ d, a.left.definition? = some d → d.name = a.leftName? ∨ d.body.Silent)
        ∧ ∀ d, a.right.definition? = some d → d.name = a.rightName? ∨ d.body.Silent := by
  unfold NamesHarmless value target leftName? rightName?
  cases a.arrow.pointsRight with
  | false => exact and_comm
  | true => exact Iff.rfl

/-- Rows that are equal as a whole are equal block by block if the blocks have equal lengths. -/
theorem eq_of_flatMap_eq {α β : Type} {f g : α → List β} {xs : List α}
    (h : xs.flatMap f = xs.flatMap g) (hlength : ∀ x ∈ xs, (f x).length = (g x).length) :
    ∀ x ∈ xs, f x = g x := by
  induction xs with
  | nil => exact fun _ hx => absurd hx List.not_mem_nil
  | cons y rest ih =>
    rw [List.flatMap_cons, List.flatMap_cons] at h
    obtain ⟨hhead, hrest⟩ := List.append_inj h (hlength y List.mem_cons_self)
    intro x hx
    rcases List.mem_cons.mp hx with rfl | hx
    · exact hhead
    · exact ih hrest (fun z hz => hlength z (List.mem_cons_of_mem y hz)) x hx

namespace Tree

theorem lint_eq_flatMap_comebacks (policy : Policy) (file : String) (t : Tree) :
    t.lint policy file = (t.comebacks id).flatMap fun x => x.1.lint policy file := by
  rw [lint, ← map_fst_comebacks id t, List.flatMap_map]

theorem lint_reloaded_eq_flatMap_comebacks {spanned : Bool} {outer : Span} {t : Tree}
    (h : Loaded true spanned outer t) (policy : Policy) (file : String) :
    (reloaded true t).lint policy file
      = (t.comebacks id).flatMap fun x => (x.1.withName x.2).lint policy file := by
  rw [lint, definitions_reloaded h, List.flatMap_map]
  exact List.flatMap_congr fun x _ => Definition.lint_restored policy file x.1 x.2

/-- For a loaded tree made of words, the tree that comes back has the same diagnostics under all
policies if and only if the names in all its assignments are harmless. -/
theorem lint_reloaded_iff {spanned : Bool} {outer : Span} {t : Tree}
    (hloaded : Loaded true spanned outer t) (hwords : Everywhere Worded t) :
    (∀ policy file, (reloaded true t).lint policy file = t.lint policy file)
      ↔ Everywhere (fun u => ∀ a, u.assignment? = some a → a.NamesHarmless) t := by
  have hnames := forall_comebacks (Q := fun d name => d.name = name ∨ d.body.Silent)
    (fun _ => Or.inl rfl) id t
  simp only [← Assignment.namesHarmless_iff] at hnames
  have hroot : ∀ d, t.definition? = some d → d.name = id d.name ∨ d.body.Silent :=
    fun _ _ => Or.inl rfl
  rw [and_iff_right hroot] at hnames
  rw [← hnames]
  constructor
  · intro h x hx
    obtain ⟨hletters, -⟩ := lettered_of_mem_comebacks hwords hx
    refine Definition.name_eq_or_silent (fun _ => isExempt_of_lettered hletters)
      fun policy hpolicy => ?_
    have hrow := h policy ""
    rw [lint_reloaded_eq_flatMap_comebacks hloaded, lint_eq_flatMap_comebacks] at hrow
    refine eq_of_flatMap_eq hrow (fun y hy => ?_) x hx
    obtain ⟨hy₁, hy₂⟩ := lettered_of_mem_comebacks hwords hy
    exact Definition.length_lint_withName (isExempt_of_lettered hy₁ hpolicy)
      (isExempt_of_lettered hy₂ hpolicy) ""
  · intro h policy file
    rw [lint_reloaded_eq_flatMap_comebacks hloaded, lint_eq_flatMap_comebacks]
    exact List.flatMap_congr fun x hx => Definition.lint_withName (h x hx) policy file

/-- A tree that was loaded from a text and is made of words can be printed and what is printed
can be loaded.  The tree that comes back has the same diagnostics under all policies if and only
if each function that is an operand of an assignment has the name that loading gives it or is
silent. -/
theorem lint_unparse_iff {file text : String} {t : Tree} (hload : parse file text = .ok t)
    (hwords : Everywhere Worded t) :
    ∃ printed t', unparse {} t = .ok printed ∧ (∀ file, parse file printed = .ok t')
      ∧ ((∀ policy file, t'.lint policy file = t.lint policy file)
        ↔ Everywhere (fun u => ∀ a, u.assignment? = some a → a.NamesHarmless) t) := by
  obtain ⟨printed, hprinted, hback⟩ := parse_print hload (legible_of_worded true hwords)
  exact ⟨printed, reloaded true t, hprinted, hback,
    lint_reloaded_iff (loaded_of_parse hload) hwords⟩

/-- A silent function loses its name to that of the target, and no policy notices. -/
theorem lint_unparse_silent :
    ∃ t printed t', parse "" "(<- f (function g (x) (call stop x)))" = .ok t
      ∧ unparse {} t = .ok printed ∧ (∀ file, parse file printed = .ok t')
      ∧ ∀ policy file, t'.lint policy file = t.lint policy file := by
  have hload : parse "" "(<- f (function g (x) (call stop x)))"
      = .ok (.expr "<-" [.expr "f" [] {}, .function ["x"] (.call "stop" [.expr "x" [] {}] {})
          (some "g") false {}] {}) := by
    cbv
  have hf : IsWord "f" := ⟨by decide, by decide, rfl⟩
  have hg : IsWord "g" := ⟨by decide, by decide, rfl⟩
  have hx : IsWord "x" := ⟨by decide, by decide, rfl⟩
  have hstop : IsWord "stop" := ⟨by decide, by decide, rfl⟩
  obtain ⟨printed, t', hprinted, hback, hiff⟩ := lint_unparse_iff hload (by
    simp only [Everywhere, preorder, preorderAll, isMissing, Bool.false_eq_true, if_false,
      List.append_nil, List.cons_append, List.nil_append, List.forall_mem_cons]
    exact ⟨Or.inr ⟨List.cons_ne_nil _ _, .left, rfl⟩, Or.inl hf,
      ⟨by simpa using hx, by simpa using hg⟩, hstop, Or.inl hx, by simp⟩)
  refine ⟨_, printed, t', hload, hprinted, hback, hiff.mpr ?_⟩
  simp only [Everywhere, preorder, preorderAll, isMissing, Bool.false_eq_true, if_false,
    List.append_nil, List.cons_append, List.nil_append, List.forall_mem_cons]
  refine ⟨fun a ha => ?_, by simp [assignment?], by simp [assignment?], by simp [assignment?],
    by simp [assignment?], by simp⟩
  cases ha
  refine ⟨fun d hd => Or.inr fun node hnode => ?_, fun d hd => ?_⟩
  · cases hd
    rw [List.mem_singleton.mp hnode]
    exact ⟨rfl, "stop", NameSet.mem_ofList.mpr (by decide), by decide, rfl⟩
  · cases hd

/-- Any other function with a name of its own is reported under that of the target. -/
theorem lint_unparse_renamed :
    ∃ t printed t', parse "" "(<- f (function g (x) (call return x)))" = .ok t
      ∧ Everywhere Worded t ∧ unparse {} t = .ok printed ∧ parse "" printed = .ok t'
      ∧ t'.lint .default "" ≠ t.lint .default "" := by
  have hf : IsWord "f" := ⟨by decide, by decide, rfl⟩
  have hg : IsWord "g" := ⟨by decide, by decide, rfl⟩
  have hx : IsWord "x" := ⟨by decide, by decide, rfl⟩
  have hreturn : IsWord "return" := ⟨by decide, by decide, rfl⟩
  have hfunction (name : String) : ((Tree.expr "<-" [.expr "f" [] {}, .function ["x"]
      (.call "return" [.expr "x" [] {}] {}) (some name) false {}] {}).lint .default "").map
        Diagnostic.function = [some name] := by
    rw [lint, definitions_eq]
    rfl
  refine ⟨.expr "<-" [.expr "f" [] {}, .function ["x"] (.call "return" [.expr "x" [] {}] {})
      (some "g") false {}] {}, "(<- f (function (x) (call return x)))",
    .expr "<-" [.expr "f" [] {}, .function ["x"] (.call "return" [.expr "x" [] {}] {})
      (some "f") false {}] {}, by cbv, ?_, rfl, by cbv, fun heq => ?_⟩
  · simp only [Everywhere, preorder, preorderAll, isMissing, Bool.false_eq_true, if_false,
      List.append_nil, List.cons_append, List.nil_append, List.forall_mem_cons]
    exact ⟨Or.inr ⟨List.cons_ne_nil _ _, .left, rfl⟩, Or.inl hf,
      ⟨by simpa using hx, by simpa using hg⟩, hreturn, Or.inl hx, by simp⟩
  · have hnames := congrArg (List.map Diagnostic.function) heq
    rw [hfunction, hfunction] at hnames
    exact absurd hnames (by decide)

end Tree

end TailLint
