import TailLint.Lint
import TailLint.Proofs.Place

/-!
# How control leaves a body

The terminal positions of a body are found by a walk over its syntax.  Here is what they are
for, said without that walk.  When a body is run, each of its conditionals goes one way or
the other, and then the body is left at one node (`Tree.exit`): a block at its last statement,
a conditional in the branch that is taken, or at itself if that branch is an `else` that is
not there, and anything else where it stands.  Which way the conditionals go is up to an
oracle, which is asked for each conditional by its place, so that two conditionals that look
alike may go different ways.

* `Tree.mem_terminals_iff` --- the terminal positions are the exits, over all oracles.  That
  every terminal position is an exit takes an oracle that leads there;
* `Terminal.findings_eq_nil_iff` --- a terminal position has no finding if and only if leaving
  there is allowed (`Policy.Allows`);
* `Definition.lint_eq_nil_iff` --- nothing is reported of a function if and only if it is not
  checked or is left only where leaving is allowed.

For a whole tree this says that an empty list of diagnostics is both sound and complete: it is
empty if and only if every function that stands anywhere in the tree and is checked at all is
left only where leaving is allowed.
-/

namespace TailLint

/-- Which way each conditional of a body goes, by its place. -/
abbrev Oracle := Path → Bool

namespace Oracle

/-- The part of an oracle for the child at position `i`. -/
def below (oracle : Oracle) (i : Nat) : Oracle := fun path => oracle (i :: path)

/-- The oracle that decides at the root as it is told and below each child alike. -/
def rooted (choice : Bool) (oracle : Oracle) : Oracle
  | [] => choice
  | _ :: path => oracle path

theorem rooted_nil (choice : Bool) (oracle : Oracle) : rooted choice oracle [] = choice :=
  rfl

theorem below_rooted (choice : Bool) (oracle : Oracle) (i : Nat) :
    (rooted choice oracle).below i = oracle := rfl

end Oracle

namespace Tree

mutual

/-- Where a body is left under an oracle; what is no node is left nowhere. -/
def exit (oracle : Oracle) : Tree → Option Tree
  | .missing | .foreign _ => none
  | .block [] span => some (.block [] span)
  | .block statements _ => exitLast oracle 0 statements
  | .conditional condition consequent alternative span =>
    if oracle [] then exit (oracle.below 1) consequent
    else if alternative.isMissing then some (.conditional condition consequent alternative span)
    else exit (oracle.below 2) alternative
  | t => some t

/-- Where the last statement of a row is left; the first statement stands at position `i`. -/
def exitLast (oracle : Oracle) (i : Nat) : List Tree → Option Tree
  | [] => none
  | [last] => exit (oracle.below i) last
  | _ :: next :: rest => exitLast oracle (i + 1) (next :: rest)

end

/-! ## Exits are terminal positions -/

mutual

/-- A body is left at a terminal position. -/
theorem mem_terminals_of_exit {oracle : Oracle} {u : Tree} :
    ∀ {body : Tree}, body.exit oracle = some u → u ∈ body.terminals
  | .missing, h => by cases h
  | .foreign _, h => by cases h
  | .block [] _, h => List.mem_singleton.mpr (Option.some.inj h).symm
  | .block (first :: rest) _, h => mem_lastTerminals_of_exitLast (first :: rest) h
  | .conditional condition consequent alternative span, h => by
    rw [exit] at h
    rw [terminals]
    split at h
    · exact List.mem_append_left _ (List.mem_append_right _ (mem_terminals_of_exit h))
    · split at h
      · next hmissing =>
        rw [if_pos hmissing]
        exact List.mem_append_left _
          (List.mem_append_left _ (List.mem_singleton.mpr (Option.some.inj h).symm))
      · exact List.mem_append_right _ (mem_terminals_of_exit h)
  | .call _ _ _, h => List.mem_singleton.mpr (Option.some.inj h).symm
  | .pipe _ _ _ _, h => List.mem_singleton.mpr (Option.some.inj h).symm
  | .expr _ _ _, h => List.mem_singleton.mpr (Option.some.inj h).symm
  | .function _ _ _ _ _, h => List.mem_singleton.mpr (Option.some.inj h).symm

/-- A row is left at a terminal position of its last statement. -/
theorem mem_lastTerminals_of_exitLast {oracle : Oracle} {i : Nat} {u : Tree} :
    ∀ statements : List Tree, exitLast oracle i statements = some u →
      u ∈ lastTerminals statements
  | [], h => by cases h
  | [_], h => mem_terminals_of_exit h
  | _ :: next :: rest, h => mem_lastTerminals_of_exitLast (next :: rest) h

end

/-! ## Terminal positions are exits -/

mutual

/-- Some oracle leads to each terminal position. -/
theorem exists_exit_of_mem_terminals {u : Tree} :
    ∀ {body : Tree}, u ∈ body.terminals → ∃ oracle, body.exit oracle = some u
  | .missing, h => absurd h List.not_mem_nil
  | .foreign _, h => absurd h List.not_mem_nil
  | .block [] _, h => ⟨fun _ => true, congrArg some (List.mem_singleton.mp h).symm⟩
  | .block (first :: rest) _, h => by
    obtain ⟨oracle, horacle⟩ := exists_exitLast_of_mem_lastTerminals (first :: rest) h
    exact ⟨oracle, horacle 0⟩
  | .conditional condition consequent alternative span, h => by
    rw [terminals] at h
    rcases List.mem_append.mp h with h | h
    · rcases List.mem_append.mp h with h | h
      · split at h
        · next hmissing =>
          refine ⟨fun _ => false, ?_⟩
          rw [exit, if_neg Bool.false_ne_true, if_pos hmissing, List.mem_singleton.mp h]
        · exact absurd h List.not_mem_nil
      · obtain ⟨oracle, horacle⟩ := exists_exit_of_mem_terminals h
        refine ⟨.rooted true oracle, ?_⟩
        rw [exit, Oracle.rooted_nil, if_pos rfl, Oracle.below_rooted]
        exact horacle
    · obtain ⟨oracle, horacle⟩ := exists_exit_of_mem_terminals h
      have hthere : alternative.isMissing = false := by
        cases alternative with
        | missing => exact absurd h List.not_mem_nil
        | _ => rfl
      refine ⟨.rooted false oracle, ?_⟩
      rw [exit, Oracle.rooted_nil, if_neg Bool.false_ne_true, hthere, if_neg Bool.false_ne_true,
        Oracle.below_rooted]
      exact horacle
  | .call _ _ _, h => ⟨fun _ => true, congrArg some (List.mem_singleton.mp h).symm⟩
  | .pipe _ _ _ _, h => ⟨fun _ => true, congrArg some (List.mem_singleton.mp h).symm⟩
  | .expr _ _ _, h => ⟨fun _ => true, congrArg some (List.mem_singleton.mp h).symm⟩
  | .function _ _ _ _ _, h => ⟨fun _ => true, congrArg some (List.mem_singleton.mp h).symm⟩

/-- Some oracle leads to each terminal position of the last statement of a row, wherever the
row starts. -/
theorem exists_exitLast_of_mem_lastTerminals {u : Tree} :
    ∀ statements : List Tree, u ∈ lastTerminals statements →
      ∃ oracle, ∀ i, exitLast oracle i statements = some u
  | [], h => absurd h List.not_mem_nil
  | [last], h => by
    obtain ⟨oracle, horacle⟩ := exists_exit_of_mem_terminals h
    refine ⟨.rooted true oracle, fun i => ?_⟩
    rw [exitLast, Oracle.below_rooted]
    exact horacle
  | _ :: next :: rest, h => by
    obtain ⟨oracle, horacle⟩ := exists_exitLast_of_mem_lastTerminals (next :: rest) h
    exact ⟨oracle, fun i => horacle (i + 1)⟩

end

/-- The terminal positions of a body are the nodes where it can be left. -/
theorem mem_terminals_iff {body u : Tree} :
    u ∈ body.terminals ↔ ∃ oracle, body.exit oracle = some u :=
  ⟨exists_exit_of_mem_terminals, fun ⟨_, h⟩ => mem_terminals_of_exit h⟩

mutual

/-- A conditional is a terminal position only if it has no alternative. -/
theorem lacksAlternative_of_exit {oracle : Oracle} {u : Tree} :
    ∀ {body : Tree}, body.exit oracle = some u → u.isConditional = true →
      u.lacksAlternative = true
  | .missing, h, _ => by cases h
  | .foreign _, h, _ => by cases h
  | .block [] _, h, hu => by cases h; cases hu
  | .block (first :: rest) _, h, hu => lacksAlternative_of_exitLast (first :: rest) h hu
  | .conditional condition consequent alternative span, h, hu => by
    rw [exit] at h
    split at h
    · exact lacksAlternative_of_exit h hu
    · split at h
      · next hmissing =>
        cases h
        exact hmissing
      · exact lacksAlternative_of_exit h hu
  | .call _ _ _, h, hu => by cases h; cases hu
  | .pipe _ _ _ _, h, hu => by cases h; cases hu
  | .expr _ _ _, h, hu => by cases h; cases hu
  | .function _ _ _ _ _, h, hu => by cases h; cases hu

/-- The same for the last statement of a row. -/
theorem lacksAlternative_of_exitLast {oracle : Oracle} {i : Nat} {u : Tree} :
    ∀ statements : List Tree, exitLast oracle i statements = some u → u.isConditional = true →
      u.lacksAlternative = true
  | [], h, _ => by cases h
  | [_], h, hu => lacksAlternative_of_exit h hu
  | _ :: next :: rest, h, hu => lacksAlternative_of_exitLast (next :: rest) h hu

end

end Tree

/-! ## Where leaving is allowed -/

/-- Whether a policy allows a function to be left at a node: at a conditional if an `else` may
be missing, and elsewhere if the node calls something that counts as an exit, or, when exits
are to be implicit, if it does not call `return`. -/
def Policy.Allows (policy : Policy) (node : Tree) : Prop :=
  if node.isConditional then policy.allowImplicitElse = true
  else
    match policy.style with
    | .implicit => node.callTarget.callee? ≠ some "return"
    | .explicit => ∃ name ∈ policy.returnFunctions, node.callTarget.callee? = some name

theorem Policy.isReturnFunction_iff {policy : Policy} {name? : Option String} :
    policy.isReturnFunction name? = true ↔ ∃ name ∈ policy.returnFunctions, name? = some name := by
  cases name? with
  | none => simp [isReturnFunction]
  | some name => simp [isReturnFunction]

/-- Of a conditional only the missing `else` can be reported. -/
theorem Terminal.findings_conditional {policy : Policy} {node : Tree} (flag : Bool)
    (hnode : node.isConditional = true) :
    findings policy ⟨node, flag⟩
      = if node.lacksAlternative && flag then [⟨.implicitElse, node⟩] else [] := by
  rw [findings, styleFindings, if_pos hnode, List.nil_append]
  rfl

/-- Of anything else only the style can be reported. -/
theorem Terminal.findings_of_not_conditional {policy : Policy} {node : Tree} (flag : Bool)
    (hnode : node.isConditional = false) :
    findings policy ⟨node, flag⟩ = styleFindings policy ⟨node, flag⟩ := by
  have helse : elseFindings ⟨node, flag⟩ = [] := by
    cases node with
    | conditional => cases hnode
    | _ => rfl
  rw [findings, helse, List.append_nil]

/-- A node where a body is left has no finding if and only if leaving there is allowed. -/
theorem Terminal.findings_eq_nil_iff {policy : Policy} {oracle : Oracle} {body node : Tree}
    (hexit : body.exit oracle = some node) :
    findings policy ⟨node, !policy.allowImplicitElse⟩ = [] ↔ policy.Allows node := by
  unfold Policy.Allows
  cases hnode : node.isConditional with
  | true =>
    rw [findings_conditional _ hnode, Tree.lacksAlternative_of_exit hexit hnode]
    cases policy.allowImplicitElse with
    | false => simp
    | true => simp
  | false =>
    rw [findings_of_not_conditional _ hnode, styleFindings, if_neg (by simp [hnode]),
      if_neg Bool.false_ne_true]
    cases policy.style with
    | implicit =>
      by_cases hreturn : node.callTarget.callee? = some "return"
      · -- an empty block calls nothing, so it is idle to ask whether the node is a block
        have hblock : node.isBlock = false := by
          cases node with
          | block => cases hreturn
          | _ => rfl
        simp [hreturn, hblock]
      · simp [hreturn]
    | explicit =>
      rw [← Policy.isReturnFunction_iff]
      cases hcall : policy.isReturnFunction node.callTarget.callee? with
      | false => simp [hcall]
      | true => simp [hcall]

/-! ## Clean trees -/

/-- A function is skipped if the exempt functions are looked at and it is one of them by its
name. -/
theorem Terminal.isSkipped_iff {policy : Policy} {d : Definition} :
    isSkipped policy d = true ↔ policy.consultsExemptions = true
      ∧ ∃ name, d.name = some name ∧ name ∈ policy.exceptFunctions := by
  unfold isSkipped Policy.isExempt
  cases d.name with
  | none => simp
  | some name => simp

namespace Definition

/-- What is found in the body of a function can be reported. -/
theorem isSome_diagnostic? {policy : Policy} {d : Definition} {f : Finding} (origin : Origin)
    (hf : f ∈ d.findings policy) : (f.diagnostic? origin).isSome = true := by
  obtain ⟨terminal, hterminal, hf⟩ := List.mem_flatMap.mp hf
  rw [Finding.diagnostic?, Option.isSome_map]
  refine Terminal.isSome_span?_of_mem_findings ?_ hf
  unfold Terminal.ofDefinition at hterminal
  split at hterminal
  · exact absurd hterminal List.not_mem_nil
  · obtain ⟨node, hnode, rfl⟩ := List.mem_map.mp hterminal
    exact Tree.isSome_span?_of_mem_terminals d.body hnode

/-- Each finding in the body of a function is reported, in the order of the findings. -/
theorem map_some_lint (policy : Policy) (file : String) (d : Definition) :
    (d.lint policy file).map some
      = (d.findings policy).map (Finding.diagnostic? ⟨file, d.name⟩) := by
  unfold lint
  have hall : ∀ f ∈ d.findings policy, (f.diagnostic? ⟨file, d.name⟩).isSome = true :=
    fun f hf => isSome_diagnostic? ⟨file, d.name⟩ hf
  generalize d.findings policy = findings at hall ⊢
  induction findings with
  | nil => rfl
  | cons f rest ih =>
    obtain ⟨diagnostic, hd⟩ := Option.isSome_iff_exists.mp (hall f List.mem_cons_self)
    rw [List.filterMap_cons_some hd, List.map_cons, List.map_cons, hd,
      ih fun g hg => hall g (List.mem_cons_of_mem f hg)]

/-- Nothing is reported of a function if and only if it is not checked or is left only where
leaving is allowed. -/
theorem lint_eq_nil_iff (policy : Policy) (file : String) (d : Definition) :
    d.lint policy file = [] ↔ Terminal.isSkipped policy d = true
      ∨ ∀ oracle node, d.body.exit oracle = some node → policy.Allows node := by
  have hlint : d.lint policy file = [] ↔ d.findings policy = [] := by
    rw [← List.map_eq_nil_iff (f := some), map_some_lint, List.map_eq_nil_iff]
  rw [hlint, findings, Terminal.ofDefinition]
  cases Terminal.isSkipped policy d with
  | true => simp
  | false =>
    rw [if_neg Bool.false_ne_true, List.flatMap_eq_nil_iff, Terminal.find]
    constructor
    · intro h
      refine Or.inr fun oracle node hexit => ?_
      have hmem := Tree.mem_terminals_of_exit hexit
      exact (Terminal.findings_eq_nil_iff hexit).mp (h _ (List.mem_map_of_mem hmem))
    · intro h terminal hterminal
      obtain ⟨node, hnode, rfl⟩ := List.mem_map.mp hterminal
      obtain ⟨oracle, hexit⟩ := Tree.exists_exit_of_mem_terminals hnode
      exact (Terminal.findings_eq_nil_iff hexit).mpr
        (h.resolve_left Bool.false_ne_true oracle node hexit)

end Definition

/-- Nothing is reported of a tree if and only if every function that stands anywhere in it,
has a body and is not exempt is left, whichever way its conditionals go, only where the policy
allows it. -/
theorem Tree.lint_eq_nil_iff_exits (policy : Policy) (file : String) (t : Tree) :
    t.lint policy file = [] ↔
      ∀ path d, t.at? path = some (ofDefinition d) → d.body.isMissing = false →
        ¬ (policy.consultsExemptions = true
          ∧ ∃ name, d.name = some name ∧ name ∈ policy.exceptFunctions) →
        ∀ oracle node, d.body.exit oracle = some node → policy.Allows node := by
  rw [Tree.lint, List.flatMap_eq_nil_iff]
  constructor
  · intro h path d hplace _ hchecked oracle node hexit
    have hclean := h d (mem_definitions.mpr ⟨path, hplace⟩)
    rcases (Definition.lint_eq_nil_iff policy file d).mp hclean with hskipped | hall
    · exact absurd (Terminal.isSkipped_iff.mp hskipped) hchecked
    · exact hall oracle node hexit
  · intro h d hd
    obtain ⟨path, hplace⟩ := mem_definitions.mp hd
    rw [Definition.lint_eq_nil_iff]
    by_cases hskipped : Terminal.isSkipped policy d = true
    · exact Or.inl hskipped
    · refine Or.inr fun oracle node hexit => ?_
      have hbody : d.body.isMissing = false := by
        cases hmissing : d.body with
        | missing =>
          rw [hmissing] at hexit
          cases hexit
        | _ => rfl
      exact h path d hplace hbody (fun hexempt => hskipped (Terminal.isSkipped_iff.mpr hexempt))
        oracle node hexit

end TailLint
