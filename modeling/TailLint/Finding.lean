import TailLint.Diagnostic
import TailLint.Pipe
import TailLint.Terminal

/-!
# Judging terminal positions

Two questions are asked of every terminal position, and neither answer depends on the
other: does it follow the return style, and if it is a conditional, may it do without an
`else`?  So a position has no finding, one, or two.

A finding names a rule and the node it is about.  To report it, the node has to have a
place (`Finding.diagnostic?`).  The nodes that the finder gives out all have one, but
positions may also be judged that come from elsewhere, and then a missing node or a
value that is no node cannot be reported (`Terminal.evaluateAll`).
-/

namespace TailLint

/-- A rule and the node that breaks it. -/
structure Finding where
  rule : Rule
  node : Tree

namespace Finding

/-- The diagnostic of a finding; there is none when its node has no place. -/
def diagnostic? (origin : Origin) (f : Finding) : Option Diagnostic :=
  f.node.span?.map (Diagnostic.ofRule origin f.rule)

/-- The diagnostics of some findings, or the first node among them that has no
place. -/
def diagnostics (origin : Origin) : List Finding → Except Tree (List Diagnostic)
  | [] => .ok []
  | f :: rest =>
    match f.diagnostic? origin with
    | none => .error f.node
    | some d => (diagnostics origin rest).map (d :: ·)

/-- Findings whose nodes all have places can all be reported. -/
theorem diagnostics_eq_ok (origin : Origin) :
    ∀ {findings : List Finding}, (∀ f ∈ findings, f.node.span?.isSome = true) →
      diagnostics origin findings = .ok (findings.filterMap (diagnostic? origin))
  | [], _ => rfl
  | f :: rest, h => by
    obtain ⟨span, hspan⟩ := Option.isSome_iff_exists.mp (h f List.mem_cons_self)
    have hf : f.diagnostic? origin = some (Diagnostic.ofRule origin f.rule span) := by
      simp [diagnostic?, hspan]
    have ih := diagnostics_eq_ok origin fun g hg => h g (List.mem_cons_of_mem f hg)
    simp [diagnostics, hf, ih, Except.map]

end Finding

namespace Tree

/-- Whether the node is a conditional. -/
def isConditional : Tree → Bool
  | .conditional .. => true
  | _ => false

/-- Whether the node is a block. -/
def isBlock : Tree → Bool
  | .block .. => true
  | _ => false

/-- Whether the node is a conditional without an alternative. -/
def lacksAlternative : Tree → Bool
  | .conditional _ _ alternative _ => alternative.isMissing
  | _ => false

end Tree

namespace Terminal

/-- Does the position follow the return style?  Under the implicit style an explicit
return is one too many, and it is reported where it stands.  Under the explicit style a
position that is no exit is one too few.  Conditionals are not asked, since their
branches are. -/
def styleFindings (policy : Policy) (t : Terminal) : List Finding :=
  if t.node.isConditional then
    []
  else
    let target := t.node.callTarget
    match policy.style with
    | .implicit =>
      if t.node.isBlock || target.callee? ≠ some "return" then []
      else [⟨if t.node.endsInPipe then .pipeReturn else .explicitReturnNotNeeded, target⟩]
    | .explicit =>
      if policy.isReturnFunction target.callee? then [] else [⟨.explicitReturnMissing, t.node⟩]

/-- May the position do without an `else`? -/
def elseFindings (t : Terminal) : List Finding :=
  if t.node.lacksAlternative && t.checkElse then [⟨.implicitElse, t.node⟩] else []

/-- All findings at a position: those on style first. -/
def findings (policy : Policy) (t : Terminal) : List Finding :=
  styleFindings policy t ++ elseFindings t

/-- The diagnostics of one position. -/
def evaluate (policy : Policy) (origin : Origin) (t : Terminal) : Except Tree (List Diagnostic) :=
  Finding.diagnostics origin (findings policy t)

/-- The diagnostics of some positions, or the first node that cannot be reported. -/
def evaluateAll (policy : Policy) (origin : Origin) (terminals : List Terminal) :
    Except Tree (List Diagnostic) :=
  Finding.diagnostics origin (terminals.flatMap (findings policy))

/-! ### What can be reported -/

/-- What calls something has a place. -/
theorem isSome_span?_of_callee? {t : Tree} {name : String} (h : t.callee? = some name) :
    t.span?.isSome = true := by
  cases t with
  | call => rfl
  | _ => cases h

/-- A finding at a position with a place is about a node with a place. -/
theorem isSome_span?_of_mem_findings {policy : Policy} {t : Terminal} {f : Finding}
    (ht : t.node.span?.isSome = true) (hf : f ∈ findings policy t) :
    f.node.span?.isSome = true := by
  rcases List.mem_append.mp hf with hf | hf
  · simp only [styleFindings] at hf
    split at hf
    · exact absurd hf List.not_mem_nil
    · split at hf
      · split at hf
        · exact absurd hf List.not_mem_nil
        · next hcall =>
          rw [List.mem_singleton.mp hf]
          simp only [Bool.or_eq_true, decide_eq_true_eq, not_or, ne_eq, Decidable.not_not] at hcall
          exact isSome_span?_of_callee? hcall.2
      · split at hf
        · exact absurd hf List.not_mem_nil
        · rw [List.mem_singleton.mp hf]
          exact ht
  · simp only [elseFindings] at hf
    split at hf
    · rw [List.mem_singleton.mp hf]
      exact ht
    · exact absurd hf List.not_mem_nil

end Terminal

end TailLint
