import TailLint.Pipe
import TailLint.Proofs.Place

/-!
# Statements that resolve to a call

Which call decides about a statement is computed by going down the last stages of a chain of pipes,
after looking through one assignment.  Here the same is described by the ways that lead to a call,
without saying how they are found.  A chain ends in a call if its last stage does, however the
stages before it are nested (`Tree.EndsInCall`).  A statement resolves to a call if it is such a
chain, and a call alone is one, or if it assigns such a chain to something (`Tree.ResolvesTo`).

An assignment is looked through only once and only if its value is a pipe.  A call whose value is
assigned directly is not what the assignment resolves to, and neither is a call at the end of a
chain whose last stage is an assignment.

* `Tree.endsInCall_iff` --- chains, and their last stages;
* `Tree.resolvesTo_iff` --- statements, and the calls that decide about them.
-/

namespace TailLint.Tree

/-- A chain of pipes, nested in whatever way, ends in a call of this name.  A call alone is a
chain of one stage. -/
inductive EndsInCall (name : String) : Tree → Prop
  | call (arguments : List Tree) (span : Span) : EndsInCall name (.call name arguments span)
  | pipe (source : Tree) {stage : Tree} (operator : String) (span : Span)
      (hstage : EndsInCall name stage) : EndsInCall name (.pipe source stage operator span)

/-- A statement resolves to a call of this name: directly, through a chain of pipes, or through
the assignment of a chain of pipes. -/
inductive ResolvesTo (name : String) : Tree → Prop
  | chain {t : Tree} (h : EndsInCall name t) : ResolvesTo name t
  | assigned {t : Tree} {a : Assignment} (ha : t.assignment? = some a)
      (hpipe : a.value.isPipe = true) (h : EndsInCall name a.value) : ResolvesTo name t

theorem endsInCall_iff {name : String} {t : Tree} :
    EndsInCall name t ↔ t.finalStage.callee? = some name := by
  constructor
  · intro h
    induction h with
    | call => rfl
    | pipe _ _ _ _ ih => exact ih
  · intro h
    fun_induction finalStage t with
    | case1 source stage operator span ih => exact .pipe source operator span (ih h)
    | case2 t hpipe =>
      cases t with
      | call callee arguments span =>
        obtain rfl : callee = name := Option.some.inj h
        exact .call arguments span
      | _ => cases h

theorem finalStage_of_not_isPipe {t : Tree} (h : t.isPipe = false) : t.finalStage = t := by
  cases t with
  | pipe => cases h
  | _ => rfl

/-- What assigns no chain resolves to what it ends in itself. -/
theorem resolvesTo_iff_endsInCall {name : String} {t : Tree}
    (h : ∀ a, t.assignment? = some a → a.value.isPipe = false) :
    ResolvesTo name t ↔ EndsInCall name t := by
  refine ⟨fun hresolves => ?_, .chain⟩
  cases hresolves with
  | chain hends => exact hends
  | assigned ha hpipe =>
    rw [h _ ha] at hpipe
    cases hpipe

/-- An assignment is no chain, and what it resolves to is up to its value. -/
theorem resolvesTo_assignment_iff {name : String} {t : Tree} {a : Assignment}
    (ha : t.assignment? = some a) (hpipe : a.value.isPipe = true) :
    ResolvesTo name t ↔ EndsInCall name a.value := by
  refine ⟨fun hresolves => ?_, .assigned ha hpipe⟩
  cases hresolves with
  | chain hends =>
    obtain ⟨span, rfl⟩ := eq_expr_of_assignment? ha
    cases hends
  | assigned ha' _ hends =>
    obtain rfl := Option.some.inj (ha.symm.trans ha')
    exact hends

/-- A statement resolves to a call if and only if that call decides about it. -/
theorem resolvesTo_iff {name : String} {t : Tree} :
    ResolvesTo name t ↔ t.callTarget.callee? = some name := by
  unfold callTarget pipeOperand?
  cases hpipe : t.isPipe with
  | true =>
    have hnone : ∀ a, t.assignment? = some a → a.value.isPipe = false := by
      intro a ha
      obtain ⟨span, rfl⟩ := eq_expr_of_assignment? ha
      cases hpipe
    rw [resolvesTo_iff_endsInCall hnone, endsInCall_iff]
    rfl
  | false =>
    have hself := finalStage_of_not_isPipe hpipe
    rw [if_neg Bool.false_ne_true]
    cases ha : t.assignment? with
    | none =>
      rw [resolvesTo_iff_endsInCall (fun a ha' => by cases ha.symm.trans ha'), endsInCall_iff,
        hself]
      rfl
    | some a =>
      cases hvalue : a.value.isPipe with
      | true =>
        rw [resolvesTo_assignment_iff ha hvalue, endsInCall_iff, Option.bind_some, if_pos hvalue]
      | false =>
        have honly : ∀ a', t.assignment? = some a' → a'.value.isPipe = false := by
          intro a' ha'
          obtain rfl := Option.some.inj (ha.symm.trans ha')
          exact hvalue
        rw [resolvesTo_iff_endsInCall honly, endsInCall_iff, hself, Option.bind_some,
          if_neg (by rw [hvalue]; exact Bool.false_ne_true)]

end TailLint.Tree
