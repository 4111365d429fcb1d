import Mathlib
import TailLint.Proofs.TailStructure

/-!
# Chains are judged by their last stage

The stages of a chain can be nested in many ways.  Read from left to right they make one list
(`Tree.stages`), and that list is all that a reader of the chain would call the chain.  The linter
never makes the list.  It goes down the right-hand sides until it meets something that is no pipe,
and it never looks at the left-hand sides, where most of the stages may be.

That it ends up at the last stage of the list is therefore a fact about nesting
(`Tree.getLast?_stages`).  It follows that chains with the same stages cannot be told apart by what
they end in, neither alone nor as the value of an assignment, whichever side the value stands on.

A chain is itself a node that may be reported, namely when its last stage is no exit, and it is
reported at its own span.  This is why two chains that stand alone have to have the same span if the
same is to be said of them.  Behind an assignment not even that is needed, since then the assignment
is reported.

* `Tree.getLast?_stages` --- the last of the stages is where the linter looks;
* `Tree.exitAlike_of_stages_eq`, `Tree.exitAlike_assigning` --- chains with the same stages look
  alike to the linter, alone and as the value of an assignment;
* `Tree.JudgedAlike.of_exitAlike` --- about positions that look alike, the same is said.
-/

namespace TailLint

namespace Tree

/-! ## The stages of a chain -/

/-- The stages of a chain of pipes, from left to right.  What is no pipe is a chain of one stage. -/
def stages : Tree → List Tree
  | .pipe source stage _ _ => source.stages ++ stage.stages
  | t => [t]

theorem stages_of_not_isPipe {t : Tree} (h : t.isPipe = false) : t.stages = [t] := by
  cases t with
  | pipe => cases h
  | _ => rfl

/-- A chain is taken apart completely. -/
theorem not_isPipe_of_mem_stages {t stage : Tree} (h : stage ∈ t.stages) :
    stage.isPipe = false := by
  fun_induction stages t with
  | case1 source next operator span ihsource ihnext =>
    exact (List.mem_append.mp h).elim ihsource ihnext
  | case2 t hpipe =>
    obtain rfl := List.mem_singleton.mp h
    cases stage with
    | pipe source next operator span => exact absurd rfl (hpipe source next operator span)
    | _ => rfl

/-- The last of the stages is the one at the end of the right-hand sides, however the stages are
nested. -/
theorem getLast?_stages (t : Tree) : t.stages.getLast? = some t.finalStage := by
  fun_induction finalStage t with
  | case1 source next operator span ih =>
    -- nothing of the source is last, because the list of the stages after it is not empty
    rw [stages, List.getLast?_append, ih]
    rfl
  | case2 t hpipe =>
    cases t with
    | pipe source next operator span => exact absurd rfl (hpipe source next operator span)
    | _ => rfl

/-- Pipes are the chains with more than one stage. -/
theorem one_lt_length_stages_iff {t : Tree} : 1 < t.stages.length ↔ t.isPipe = true := by
  have hpos (u : Tree) : 0 < u.stages.length := by
    refine List.length_pos_iff.mpr fun hnil => ?_
    have hlast := getLast?_stages u
    rw [hnil] at hlast
    cases hlast
  cases t with
  | pipe source next operator span =>
    refine iff_of_true ?_ rfl
    rw [stages, List.length_append]
    have := hpos source
    have := hpos next
    omega
  | _ => exact iff_of_false (Nat.lt_irrefl 1) Bool.false_ne_true

section SameStages

variable {t u : Tree}

theorem isPipe_eq_of_stages_eq (h : t.stages = u.stages) : t.isPipe = u.isPipe := by
  rw [Bool.eq_iff_iff, ← one_lt_length_stages_iff, ← one_lt_length_stages_iff, h]

theorem finalStage_eq_of_stages_eq (h : t.stages = u.stages) : t.finalStage = u.finalStage := by
  have hlast := getLast?_stages t
  rw [h, getLast?_stages u] at hlast
  exact (Option.some.inj hlast).symm

/-- A chain of one stage is that stage. -/
theorem eq_of_stages_eq (h : t.stages = u.stages) (hpipe : t.isPipe = false) : t = u := by
  have hpipe' : u.isPipe = false := by rw [← isPipe_eq_of_stages_eq h, hpipe]
  rw [stages_of_not_isPipe hpipe, stages_of_not_isPipe hpipe'] at h
  exact (List.cons.inj h).1

/-! ## What the linter sees of a chain -/

theorem StageAlike.refl (stage : Tree) : StageAlike Eq stage stage := by
  cases stage with
  | call callee arguments span => exact .call callee arguments arguments rfl
  | _ => exact .noCall rfl rfl

/-- Chains with the same stages end alike. -/
theorem chainAlike_of_stages_eq (h : t.stages = u.stages) : ChainAlike Eq t u := by
  refine ⟨t.finalStage, u.finalStage, endsIn_finalStage t, endsIn_finalStage u, ?_⟩
  rw [finalStage_eq_of_stages_eq h]
  exact .refl _

/-- Pipes with the same stages and the same span look alike to the linter. -/
theorem exitAlike_of_stages_eq (h : t.stages = u.stages) (hpipe : t.isPipe = true)
    (hspan : t.span? = u.span?) : ExitAlike Eq t u := by
  have hpipe' : u.isPipe = true := by rw [← isPipe_eq_of_stages_eq h, hpipe]
  obtain ⟨hends, htarget⟩ := (chainAlike_of_stages_eq h).target
    (pipeOperand?_eq_some_iff.mpr ⟨hpipe, Or.inl rfl⟩)
    (pipeOperand?_eq_some_iff.mpr ⟨hpipe', Or.inl rfl⟩)
  cases t with
  | pipe source next operator span =>
    cases u with
    | pipe source' next' operator' span' =>
      exact ⟨rfl, rfl, rfl, hends, htarget, .some (Option.some.inj hspan)⟩
    | _ => cases hpipe'
  | _ => cases hpipe

/-- The assignment of a value to a target, each on its side of the arrow. -/
def assigning (arrow : Arrow) (target value : Tree) (span : Span) : Tree :=
  if arrow.pointsRight then .expr arrow.symbol [value, target] span
  else .expr arrow.symbol [target, value] span

theorem assigns_assigning (arrow : Arrow) (target value : Tree) (span : Span) :
    Assigns value (assigning arrow target value span) := by
  cases arrow with
  | left => exact .leftward (by simp [Arrow.symbol]) target span
  | equals => exact .leftward (by simp [Arrow.symbol]) target span
  | farLeft => exact .leftward (by simp [Arrow.symbol]) target span
  | right => exact .rightward (by simp [Arrow.symbol]) target span
  | farRight => exact .rightward (by simp [Arrow.symbol]) target span

theorem exists_assigning_eq (arrow : Arrow) (target value : Tree) (span : Span) :
    ∃ operands, assigning arrow target value span = .expr arrow.symbol operands span := by
  unfold assigning
  split
  · exact ⟨_, rfl⟩
  · exact ⟨_, rfl⟩

/-- Assignments of pipes with the same stages look alike to the linter, whatever the spans of the
pipes. -/
theorem exitAlike_assigning (h : t.stages = u.stages) (hpipe : t.isPipe = true) (arrow : Arrow)
    (target : Tree) (span : Span) :
    ExitAlike Eq (assigning arrow target t span) (assigning arrow target u span) := by
  have hpipe' : u.isPipe = true := by rw [← isPipe_eq_of_stages_eq h, hpipe]
  obtain ⟨hends, htarget⟩ := (chainAlike_of_stages_eq h).target
    (pipeOperand?_eq_some_iff.mpr ⟨hpipe, Or.inr (assigns_assigning arrow target t span)⟩)
    (pipeOperand?_eq_some_iff.mpr ⟨hpipe', Or.inr (assigns_assigning arrow target u span)⟩)
  obtain ⟨operands, ht⟩ := exists_assigning_eq arrow target t span
  obtain ⟨operands', hu⟩ := exists_assigning_eq arrow target u span
  rw [ht] at hends htarget ⊢
  rw [hu] at hends htarget ⊢
  exact ⟨rfl, rfl, rfl, hends, htarget, .some rfl⟩

end SameStages

end Tree

/-! ## What is said of a chain -/

theorem eq_of_rel_eq {α : Type} {x y : Option α} (h : Option.Rel Eq x y) : x = y := by
  cases h with
  | none => rfl
  | some h => rw [h]

/-- Findings of the same rules at the same spans are reported alike. -/
theorem Finding.diagnostics_congr (origin : Origin) {findings findings' : List Finding}
    (h : List.Forall₂ (Finding.Alike Eq) findings findings')
    (hspans : ∀ f ∈ findings, f.node.span?.isSome = true) :
    diagnostics origin findings = diagnostics origin findings' := by
  induction h with
  | nil => rfl
  | @cons f f' rest rest' hf _ ih =>
    have hsame : f.diagnostic? origin = f'.diagnostic? origin := by
      rw [diagnostic?, diagnostic?, hf.rule, eq_of_rel_eq hf.span?]
    obtain ⟨span, hspan⟩ := Option.isSome_iff_exists.mp (hspans f List.mem_cons_self)
    have hreported : f.diagnostic? origin = some (Diagnostic.ofRule origin f.rule span) := by
      simp [diagnostic?, hspan]
    rw [diagnostics, diagnostics, ← hsame, hreported,
      ih fun g hg => hspans g (List.mem_cons_of_mem f hg)]

/-- Whether the linter says the same of two statements that a function may end with: whether they end
in a pipe, what they call, and what is wrong with their return style, under every policy, for every
file and function they may stand in, and whether or not an `else` is asked for there. -/
structure Tree.JudgedAlike (t u : Tree) : Prop where
  endsInPipe : t.endsInPipe = u.endsInPipe
  callee? : t.callTarget.callee? = u.callTarget.callee?
  style : ∀ (policy : Policy) (origin : Origin) (flag : Bool),
    Finding.diagnostics origin (Terminal.styleFindings policy ⟨t, flag⟩)
      = Finding.diagnostics origin (Terminal.styleFindings policy ⟨u, flag⟩)

theorem Tree.JudgedAlike.of_exitAlike {t u : Tree} (h : ExitAlike Eq t u)
    (ht : t.span?.isSome = true) : JudgedAlike t u where
  endsInPipe := h.endsInPipe
  callee? := h.target.callee?_eq
  style policy origin flag := by
    refine Finding.diagnostics_congr origin (Terminal.styleFindings_alike h policy flag flag) ?_
    intro f hf
    exact Terminal.isSome_span?_of_mem_findings (t := ⟨t, flag⟩) ht (List.mem_append_left _ hf)

/-- The last of the stages of a chain is where the linter looks, so of two chains with the same
stages the same is said: if they have the same span, and in any case if both are the value of the
same assignment. -/
theorem Tree.chains_judged_by_last_stage :
    (∀ chain : Tree, (∀ stage ∈ chain.stages, stage.isPipe = false)
        ∧ chain.stages.getLast? = some chain.finalStage)
      ∧ ∀ chain chain' : Tree, chain.stages = chain'.stages →
          (chain.span? = chain'.span? → JudgedAlike chain chain')
            ∧ ∀ (arrow : Arrow) (target : Tree) (span : Span),
                JudgedAlike (assigning arrow target chain span)
                  (assigning arrow target chain' span) := by
  refine ⟨fun chain => ⟨fun _ => not_isPipe_of_mem_stages, getLast?_stages chain⟩, ?_⟩
  intro chain chain' hstages
  cases hpipe : chain.isPipe with
  | false =>
    obtain rfl := eq_of_stages_eq hstages hpipe
    exact ⟨fun _ => ⟨rfl, rfl, fun _ _ _ => rfl⟩, fun _ _ _ => ⟨rfl, rfl, fun _ _ _ => rfl⟩⟩
  | true =>
    constructor
    · intro hspan
      refine .of_exitAlike (exitAlike_of_stages_eq hstages hpipe hspan) ?_
      cases chain with
      | pipe => rfl
      | _ => cases hpipe
    · intro arrow target span
      refine .of_exitAlike (exitAlike_assigning hstages hpipe arrow target span) ?_
      obtain ⟨operands, heq⟩ := exists_assigning_eq arrow target chain span
      rw [heq]
      rfl

/-- Four stages, nested to the right and in two pairs, with other operators and other spans inside.
Both are reported as a chain that returns, alone and when they are assigned to the right. -/
theorem Tree.chains_judged_by_last_stage_pairs :
    ∃ chain chain' : Tree,
      chain ≠ chain' ∧ chain.stages = chain'.stages ∧ chain.stages.length = 4
        ∧ chain.span? = chain'.span? ∧ JudgedAlike chain chain'
        ∧ JudgedAlike (assigning .right (.expr "k" [] {}) chain {})
            (assigning .right (.expr "k" [] {}) chain' {})
        ∧ Finding.diagnostics ⟨"", none⟩ (Terminal.styleFindings .default ⟨chain, true⟩)
          = .ok [Diagnostic.ofRule ⟨"", none⟩ .pipeReturn (.of 4 1 4 8)] := by
  let x : Tree := .expr "x" [] {}
  let f : Tree := .call "return" [] (.of 2 1 2 8)
  let g : Tree := .call "g" [] {}
  let last : Tree := .call "return" [x] (.of 4 1 4 8)
  let rightward : Tree :=
    .pipe x (.pipe f (.pipe g last "|>" (.of 3 1 4 8)) "%>%" (.of 2 1 4 8)) "%>%" (.of 1 1 4 8)
  let paired : Tree := .pipe (.pipe x f "|>" {}) (.pipe g last "%>%" {}) "|>" (.of 1 1 4 8)
  have hstages : rightward.stages = paired.stages := rfl
  obtain ⟨halone, hassigned⟩ := chains_judged_by_last_stage.2 rightward paired hstages
  have hne : rightward ≠ paired := by
    intro heq
    injection heq with hsource
    cases hsource
  exact ⟨rightward, paired, hne, hstages, rfl, rfl, halone rfl, hassigned .right _ {}, by cbv⟩

end TailLint
