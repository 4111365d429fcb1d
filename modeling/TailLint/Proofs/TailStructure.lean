import TailLint.Proofs.Enumeration
import TailLint.Proofs.PolicyChange

/-!
# Only the tail of a body matters

Most of a body is never looked at.  The statements before the last one, the conditions, the
arguments of calls, the operands of expressions, the stages of a chain before its last one and the
bodies of inner functions may be anything, and the linter says the same.  This is made precise by a
relation between bodies that leaves all of that open (`Tree.TailAlike`), and the statement that it
does not change what is said of a function (`Definition.lint_alike`).

The relation must not be built from the functions that the linter uses to find its way, or it would
hold of whatever these functions do.  So the last stage of a chain and the value of an assignment
are described here once more, by the shapes they have (`Tree.EndsIn`, `Tree.Assigns`), and
`Tree.EndsIn.finalStage_eq` and `Tree.assigns_iff` connect the two.

Spans are a parameter.  Two bodies are compared up to a relation `near` between the spans of the
nodes that can be reported, and what comes out are diagnostics with `near` spans and equal in
everything else.  With equality for `near` the diagnostics are equal.  With a relation that always
holds, the spans drop out altogether.

* `Tree.pipeOperand?_eq_some_iff` --- which chain a statement evaluates to;
* `Tree.TailAlike.terminals` --- bodies that are alike have terminal positions that are alike, one
  for one;
* `Terminal.findings_alike` --- at positions that are alike, the same is found;
* `Definition.lint_alike` --- of functions with bodies that are alike, the same is said.
-/

namespace TailLint

namespace Tree

/-! ## Last stages and assigned values -/

/-- A chain of pipes ends in a stage, which is no pipe itself. -/
inductive EndsIn (stage : Tree) : Tree → Prop
  | here (hstage : stage.isPipe = false) : EndsIn stage stage
  | pipe (source : Tree) {next : Tree} (operator : String) (span : Span)
      (hnext : EndsIn stage next) : EndsIn stage (.pipe source next operator span)

theorem EndsIn.finalStage_eq {stage t : Tree} (h : EndsIn stage t) : t.finalStage = stage := by
  induction h with
  | here hstage => exact finalStage_of_not_isPipe hstage
  | pipe source operator span _ ih => exact ih

/-- Every chain ends in its last stage. -/
theorem endsIn_finalStage (t : Tree) : EndsIn t.finalStage t := by
  fun_induction finalStage t with
  | case1 source stage operator span ih => exact .pipe source operator span ih
  | case2 t hpipe =>
    cases t with
    | pipe source stage operator span => exact absurd rfl (hpipe source stage operator span)
    | _ => exact .here rfl

/-- An expression assigns a value, which stands on the right of three arrows and on the left of the
two others. -/
inductive Assigns (value : Tree) : Tree → Prop
  | leftward {text : String} (htext : text ∈ ["<-", "=", "<<-"]) (target : Tree) (span : Span) :
      Assigns value (.expr text [target, value] span)
  | rightward {text : String} (htext : text ∈ ["->", "->>"]) (target : Tree) (span : Span) :
      Assigns value (.expr text [value, target] span)

theorem assigns_of_assignment? {t : Tree} {a : Assignment} (h : t.assignment? = some a) :
    Assigns a.value t := by
  obtain ⟨span, rfl⟩ := eq_expr_of_assignment? h
  obtain ⟨arrow, left, right⟩ := a
  cases arrow with
  | left => exact .leftward (by simp [Arrow.symbol]) left span
  | equals => exact .leftward (by simp [Arrow.symbol]) left span
  | farLeft => exact .leftward (by simp [Arrow.symbol]) left span
  | right => exact .rightward (by simp [Arrow.symbol]) right span
  | farRight => exact .rightward (by simp [Arrow.symbol]) right span

/-- What an expression assigns is the value of the assignment that it is. -/
theorem assigns_iff {value t : Tree} :
    Assigns value t ↔ ∃ a, t.assignment? = some a ∧ a.value = value := by
  constructor
  · intro h
    cases h with
    | leftward htext target span =>
      simp only [List.mem_cons, List.not_mem_nil, or_false] at htext
      rcases htext with rfl | rfl | rfl
      · exact ⟨⟨.left, target, value⟩, rfl, rfl⟩
      · exact ⟨⟨.equals, target, value⟩, rfl, rfl⟩
      · exact ⟨⟨.farLeft, target, value⟩, rfl, rfl⟩
    | rightward htext target span =>
      simp only [List.mem_cons, List.not_mem_nil, or_false] at htext
      rcases htext with rfl | rfl
      · exact ⟨⟨.right, value, target⟩, rfl, rfl⟩
      · exact ⟨⟨.farRight, value, target⟩, rfl, rfl⟩
  · rintro ⟨a, ha, rfl⟩
    exact assigns_of_assignment? ha

/-- A statement evaluates to a chain of pipes if it is one or assigns one. -/
theorem pipeOperand?_eq_some_iff {t chain : Tree} :
    t.pipeOperand? = some chain ↔ chain.isPipe = true ∧ (t = chain ∨ Assigns chain t) := by
  unfold pipeOperand?
  constructor
  · intro h
    split at h
    · next hpipe =>
      obtain rfl := Option.some.inj h
      exact ⟨hpipe, Or.inl rfl⟩
    · obtain ⟨a, ha, hvalue⟩ := Option.bind_eq_some_iff.mp h
      split at hvalue
      · next hpipe =>
        obtain rfl := Option.some.inj hvalue
        exact ⟨hpipe, Or.inr (assigns_of_assignment? ha)⟩
      · cases hvalue
  · rintro ⟨hpipe, rfl | hassigns⟩
    · rw [if_pos hpipe]
    · obtain ⟨a, ha, rfl⟩ := assigns_iff.mp hassigns
      obtain ⟨span, rfl⟩ := eq_expr_of_assignment? ha
      rw [if_neg (by exact Bool.false_ne_true), ha, Option.bind_some, if_pos hpipe]

/-- A statement that is no chain and assigns none evaluates to none. -/
theorem pipeOperand?_eq_none {t : Tree} (hpipe : t.isPipe = false)
    (hassigns : ∀ value, Assigns value t → value.isPipe = false) : t.pipeOperand? = none := by
  refine Option.eq_none_iff_forall_ne_some.mpr fun chain hchain => ?_
  obtain ⟨hchainPipe, rfl | hvalue⟩ := pipeOperand?_eq_some_iff.mp hchain
  · exact Bool.false_ne_true (hpipe.symm.trans hchainPipe)
  · exact Bool.false_ne_true ((hassigns chain hvalue).symm.trans hchainPipe)

/-- The terminal nodes of a block that is not empty are those of its last statement. -/
theorem terminals_block (before : List Tree) (last : Tree) (span : Span) :
    (Tree.block (before ++ [last]) span).terminals = last.terminals := by
  rw [← map_node_terminalSpots, terminalSpots_block, map_node_map_under, map_node_terminalSpots]

/-! ## Bodies with the same tail -/

/-- Whether two last stages decide alike: both are calls of the same name, at spans that are `near`,
or both are no calls. -/
inductive StageAlike (near : Span → Span → Prop) : Tree → Tree → Prop
  | call (callee : String) (arguments arguments' : List Tree) {span span' : Span}
      (hspan : near span span') :
      StageAlike near (.call callee arguments span) (.call callee arguments' span')
  | noCall {stage stage' : Tree} (h : stage.callee? = none) (h' : stage'.callee? = none) :
      StageAlike near stage stage'

/-- Whether two chains, however long and however nested, have last stages that decide alike. -/
def ChainAlike (near : Span → Span → Prop) (chain chain' : Tree) : Prop :=
  ∃ stage stage', EndsIn stage chain ∧ EndsIn stage' chain' ∧ StageAlike near stage stage'

/-- Whether two bodies have the same tail: the same structure of last statements and branches, and
at its ends the same as far as it decides. -/
inductive TailAlike (near : Span → Span → Prop) : Tree → Tree → Prop
  | noNode {t t' : Tree} (h : t.kind? = none) (h' : t'.kind? = none) : TailAlike near t t'
  | block (before before' : List Tree) {last last' : Tree} (span span' : Span)
      (hlast : TailAlike near last last') :
      TailAlike near (.block (before ++ [last]) span) (.block (before' ++ [last']) span')
  | emptyBlock {span span' : Span} (hspan : near span span') :
      TailAlike near (.block [] span) (.block [] span')
  | conditional (condition condition' : Tree)
      {consequent consequent' alternative alternative' : Tree} (span span' : Span)
      (hconsequent : TailAlike near consequent consequent')
      (halternative : TailAlike near alternative alternative')
      (hthere : alternative.isMissing = false) (hthere' : alternative'.isMissing = false) :
      TailAlike near (.conditional condition consequent alternative span)
        (.conditional condition' consequent' alternative' span')
  | noAlternative (condition condition' : Tree) {consequent consequent' : Tree}
      {span span' : Span} (hconsequent : TailAlike near consequent consequent')
      (hspan : near span span') :
      TailAlike near (.conditional condition consequent .missing span)
        (.conditional condition' consequent' .missing span')
  | call (callee : String) (arguments arguments' : List Tree) {span span' : Span}
      (hspan : near span span') :
      TailAlike near (.call callee arguments span) (.call callee arguments' span')
  | function (parameters parameters' : List String) (body body' : Tree)
      (name name' : Option String) (isLambda isLambda' : Bool) {span span' : Span}
      (hspan : near span span') :
      TailAlike near (.function parameters body name isLambda span)
        (.function parameters' body' name' isLambda' span')
  | pipe {source source' stage stage' : Tree} {operator operator' : String} {span span' : Span}
      (hchain : ChainAlike near (.pipe source stage operator span)
        (.pipe source' stage' operator' span'))
      (hspan : near span span') :
      TailAlike near (.pipe source stage operator span) (.pipe source' stage' operator' span')
  | assignedChain {text text' : String} {operands operands' : List Tree} {span span' : Span}
      {chain chain' : Tree} (hassigns : Assigns chain (.expr text operands span))
      (hassigns' : Assigns chain' (.expr text' operands' span')) (hpipe : chain.isPipe = true)
      (hpipe' : chain'.isPipe = true) (hchain : ChainAlike near chain chain')
      (hspan : near span span') :
      TailAlike near (.expr text operands span) (.expr text' operands' span')
  | expr {text text' : String} {operands operands' : List Tree} {span span' : Span}
      (hassigns : ∀ value, Assigns value (.expr text operands span) → value.isPipe = false)
      (hassigns' : ∀ value, Assigns value (.expr text' operands' span') → value.isPipe = false)
      (hspan : near span span') :
      TailAlike near (.expr text operands span) (.expr text' operands' span')

/-- Bodies with the same tail, and with equal spans wherever something can be reported. -/
abbrev TailEqual : Tree → Tree → Prop := TailAlike Eq

/-! ## Terminal positions -/

section

variable {near : Span → Span → Prop}

namespace StageAlike

theorem callee?_eq {stage stage' : Tree} (h : StageAlike near stage stage') :
    stage.callee? = stage'.callee? := by
  cases h with
  | call => rfl
  | noCall h h' => rw [h, h']

/-- If one is a call, both have a span. -/
theorem span? {stage stage' : Tree} (h : StageAlike near stage stage') {name : String}
    (hcall : stage.callee? = some name) : Option.Rel near stage.span? stage'.span? := by
  cases h with
  | call callee arguments arguments' hspan => exact .some hspan
  | noCall h => cases h.symm.trans hcall

end StageAlike

/-- Whether two terminal positions look alike to the linter. -/
structure ExitAlike (near : Span → Span → Prop) (node node' : Tree) : Prop where
  isConditional : node.isConditional = node'.isConditional
  lacksAlternative : node.lacksAlternative = node'.lacksAlternative
  isBlock : node.isBlock = node'.isBlock
  endsInPipe : node.endsInPipe = node'.endsInPipe
  target : StageAlike near node.callTarget node'.callTarget
  span? : Option.Rel near node.span? node'.span?

/-- What evaluates to chains that are alike decides alike. -/
theorem ChainAlike.target {node node' chain chain' : Tree}
    (hnode : node.pipeOperand? = some chain) (hnode' : node'.pipeOperand? = some chain')
    (h : ChainAlike near chain chain') :
    node.endsInPipe = node'.endsInPipe ∧ StageAlike near node.callTarget node'.callTarget := by
  obtain ⟨stage, stage', hend, hend', hstages⟩ := h
  have htarget : node.callTarget = stage := by
    rw [callTarget, hnode]
    exact hend.finalStage_eq
  have htarget' : node'.callTarget = stage' := by
    rw [callTarget, hnode']
    exact hend'.finalStage_eq
  refine ⟨?_, by rwa [htarget, htarget']⟩
  rw [endsInPipe, endsInPipe, hnode, hnode']
  rfl

/-- What evaluates to no chain decides by itself. -/
theorem target_of_pipeOperand?_eq_none {node node' : Tree} (hnode : node.pipeOperand? = none)
    (hnode' : node'.pipeOperand? = none) (h : StageAlike near node node') :
    node.endsInPipe = node'.endsInPipe ∧ StageAlike near node.callTarget node'.callTarget := by
  have htarget : node.callTarget = node := by rw [callTarget, hnode]
  have htarget' : node'.callTarget = node' := by rw [callTarget, hnode']
  refine ⟨?_, by rwa [htarget, htarget']⟩
  rw [endsInPipe, endsInPipe, hnode, hnode']

/-- Bodies with the same tail have terminal positions that look alike, one for one. -/
theorem TailAlike.terminals {body body' : Tree} (h : TailAlike near body body') :
    List.Forall₂ (ExitAlike near) body.terminals body'.terminals := by
  induction h with
  | noNode h h' =>
    have hnone {u : Tree} (hu : u.kind? = none) : u.terminals = [] := by
      cases u with
      | missing => rfl
      | foreign => rfl
      | _ => cases hu
    rw [hnone h, hnone h']
    exact .nil
  | block before before' span span' _ ih =>
    rw [terminals_block, terminals_block]
    exact ih
  | emptyBlock hspan =>
    exact .cons ⟨rfl, rfl, rfl, rfl, .noCall rfl rfl, .some hspan⟩ .nil
  | conditional condition condition' span span' _ _ hthere hthere' ih ih' =>
    rw [Tree.terminals, Tree.terminals, hthere, hthere']
    exact List.rel_append ih ih'
  | noAlternative condition condition' _ hspan ih =>
    refine List.rel_append (List.rel_append ?_ ih) .nil
    exact .cons ⟨rfl, rfl, rfl, rfl, .noCall rfl rfl, .some hspan⟩ .nil
  | call callee arguments arguments' hspan =>
    exact .cons ⟨rfl, rfl, rfl, rfl, .call callee arguments arguments' hspan, .some hspan⟩ .nil
  | function parameters parameters' body body' name name' isLambda isLambda' hspan =>
    exact .cons ⟨rfl, rfl, rfl, rfl, .noCall rfl rfl, .some hspan⟩ .nil
  | pipe hchain hspan =>
    obtain ⟨hends, htarget⟩ := hchain.target
      (pipeOperand?_eq_some_iff.mpr ⟨rfl, Or.inl rfl⟩)
      (pipeOperand?_eq_some_iff.mpr ⟨rfl, Or.inl rfl⟩)
    exact .cons ⟨rfl, rfl, rfl, hends, htarget, .some hspan⟩ .nil
  | assignedChain hassigns hassigns' hpipe hpipe' hchain hspan =>
    obtain ⟨hends, htarget⟩ := hchain.target
      (pipeOperand?_eq_some_iff.mpr ⟨hpipe, Or.inr hassigns⟩)
      (pipeOperand?_eq_some_iff.mpr ⟨hpipe', Or.inr hassigns'⟩)
    exact .cons ⟨rfl, rfl, rfl, hends, htarget, .some hspan⟩ .nil
  | @expr text text' operands operands' span span' hassigns hassigns' hspan =>
    have hstages : StageAlike near (.expr text operands span) (.expr text' operands' span') :=
      .noCall rfl rfl
    obtain ⟨hends, htarget⟩ := target_of_pipeOperand?_eq_none
      (pipeOperand?_eq_none rfl hassigns) (pipeOperand?_eq_none rfl hassigns') hstages
    exact .cons ⟨rfl, rfl, rfl, hends, htarget, .some hspan⟩ .nil

end

end Tree

/-! ## Findings and diagnostics -/

/-- Whether two findings are of the same rule, at spans that are `near`. -/
structure Finding.Alike (near : Span → Span → Prop) (f f' : Finding) : Prop where
  rule : f.rule = f'.rule
  span? : Option.Rel near f.node.span? f'.node.span?

/-- Whether two diagnostics differ at most in their spans, and these are `near`. -/
structure Diagnostic.Alike (near : Span → Span → Prop) (d d' : Diagnostic) : Prop where
  span : near d.span d'.span
  others : { d with span := d'.span } = d'

variable {near : Span → Span → Prop}

/-- Findings that are alike are reported by diagnostics that are alike. -/
theorem Finding.Alike.diagnostic? {f f' : Finding} (h : Finding.Alike near f f')
    (origin : Origin) :
    Option.Rel (Diagnostic.Alike near) (f.diagnostic? origin) (f'.diagnostic? origin) := by
  obtain ⟨hrule, hspan⟩ := h
  unfold Finding.diagnostic?
  rw [hrule]
  generalize f.node.span? = span at hspan ⊢
  generalize f'.node.span? = span' at hspan ⊢
  cases hspan with
  | none => exact .none
  | some hspan => exact .some ⟨hspan, rfl⟩

/-- At terminal positions that look alike, the same is found about the return style. -/
theorem Terminal.styleFindings_alike {node node' : Tree} (h : Tree.ExitAlike near node node')
    (policy : Policy) (flag flag' : Bool) :
    List.Forall₂ (Finding.Alike near) (styleFindings policy ⟨node, flag⟩)
      (styleFindings policy ⟨node', flag'⟩) := by
  have hcallee := h.target.callee?_eq
  unfold styleFindings
  dsimp only
  rw [h.isConditional, h.isBlock, h.endsInPipe, ← hcallee]
  split
  · exact .nil
  · cases policy.style with
    | implicit =>
      dsimp only
      split
      · exact .nil
      · next hreturn =>
        -- only a call is reported here, and then both are calls
        have hcall : node.callTarget.callee? = some "return" := by
          simp only [Bool.or_eq_true, decide_eq_true_eq, not_or, ne_eq, Decidable.not_not]
            at hreturn
          exact hreturn.2
        exact .cons ⟨rfl, h.target.span? hcall⟩ .nil
    | explicit =>
      dsimp only
      split
      · exact .nil
      · exact .cons ⟨rfl, h.span?⟩ .nil

/-- At terminal positions that look alike, the same is found. -/
theorem Terminal.findings_alike {node node' : Tree} (h : Tree.ExitAlike near node node')
    (policy : Policy) (flag : Bool) :
    List.Forall₂ (Finding.Alike near) (findings policy ⟨node, flag⟩)
      (findings policy ⟨node', flag⟩) := by
  have helse : List.Forall₂ (Finding.Alike near) (elseFindings ⟨node, flag⟩)
      (elseFindings ⟨node', flag⟩) := by
    unfold elseFindings
    dsimp only
    rw [h.lacksAlternative]
    split
    · exact .cons ⟨rfl, h.span?⟩ .nil
    · exact .nil
  exact List.rel_append (styleFindings_alike h policy flag flag) helse

/-- Of functions with the same name, and bodies with the same tail, the same is said. -/
theorem Definition.lint_alike {d e : Definition} (hname : d.name = e.name)
    (hbody : Tree.TailAlike near d.body e.body) (policy : Policy) (file : String) :
    List.Forall₂ (Diagnostic.Alike near) (d.lint policy file) (e.lint policy file) := by
  have hskipped : Terminal.isSkipped policy d = Terminal.isSkipped policy e := by
    rw [Terminal.isSkipped, Terminal.isSkipped, hname]
  have hfindings : List.Forall₂ (Finding.Alike near) (d.findings policy) (e.findings policy) := by
    unfold Definition.findings Terminal.ofDefinition
    rw [hskipped]
    split
    · exact .nil
    · rw [Terminal.find, Terminal.find, List.flatMap_map, List.flatMap_map]
      exact List.rel_flatMap hbody.terminals
        fun _ _ hnode => Terminal.findings_alike hnode policy _
  unfold Definition.lint
  rw [hname]
  exact List.rel_filterMap (fun _ _ hf => hf.diagnostic? ⟨file, e.name⟩) hfindings

/-- Of two functions with the same name, the same is said if their bodies have the same tail,
whatever else is in them. -/
theorem Definition.lint_eq_of_tailEqual {d e : Definition} (hname : d.name = e.name)
    (hbody : d.body.TailEqual e.body) (policy : Policy) (file : String) :
    d.lint policy file = e.lint policy file := by
  have halike := lint_alike hname hbody policy file
  have hequal : List.Forall₂ Eq (d.lint policy file) (e.lint policy file) := by
    refine halike.imp fun x y hxy => ?_
    obtain ⟨hspan, hothers⟩ := hxy
    rw [← hothers, ← hspan]
  rwa [List.forall₂_eq_eq_eq] at hequal

/-- One body assigns a chain to the left, the other one a longer chain to the right, after a
statement that returns and under another condition.  Both chains end in the same call. -/
theorem Definition.lint_eq_of_tailEqual_assigned :
    ∃ d e : Definition,
      d.name = e.name ∧ d.body.TailEqual e.body
        ∧ d.lint Policy.default.demandingElse "" = e.lint Policy.default.demandingElse ""
        ∧ (d.lint Policy.default.demandingElse "").map (fun x => (x.errorId, x.span))
          = [("implicitElse", .of 1 1 4 9), ("pipeReturn", .of 2 5 2 9)] := by
  let short : Tree := .pipe (.expr "x" [] {}) (.call "return" [] (.of 2 5 2 9)) "%>%" {}
  let long : Tree := .pipe (.call "return" [] {})
    (.pipe (.expr "z" [] {}) (.call "return" [.expr "w" [] {}] (.of 2 5 2 9)) "|>" {}) "|>" {}
  let d : Definition :=
    { body := .block [.conditional (.expr "c" [] {}) (.expr "<-" [.expr "y" [] {}, short] {})
        .missing (.of 1 1 4 9)] {}
      name := some "f" }
  let e : Definition :=
    { parameters := ["n"]
      body := .block [.call "return" [] {}, .conditional (.call "return" [] {})
        (.expr "->>" [long, .expr "k" [] {}] {}) .missing (.of 1 1 4 9)] (.of 1 1 9 9)
      name := some "f" }
  have hchain : Tree.ChainAlike Eq short long :=
    ⟨_, _, .pipe _ _ _ (.here rfl), .pipe _ _ _ (.pipe _ _ _ (.here rfl)), .call _ _ _ rfl⟩
  have htail : d.body.TailEqual e.body := by
    refine .block [] [_] _ _ (.noAlternative _ _ ?_ rfl)
    exact .assignedChain (.leftward (by decide) _ _) (.rightward (by decide) _ _) rfl rfl hchain
      rfl
  have hname : d.name = e.name := rfl
  exact ⟨d, e, hname, htail, lint_eq_of_tailEqual hname htail Policy.default.demandingElse "",
    by cbv⟩

end TailLint
