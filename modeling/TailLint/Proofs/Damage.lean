import TailLint.Lint

/-!
# Damaged trees

Anything may stand in the place of a node: nothing at all, or a value that is no node.  A finding
about such a thing could not be reported, because it has no span, and judging would fail there
(`Terminal.evaluateAll`).  In a tree that is walked function by function this never happens, however
damaged the tree is.

Two things together see to that.  What the finder records is always a node, since it passes over
whatever is none.  And where the node that a finding is about is not the recorded one but the last
stage of a chain, which may well be damaged, the finding says that this stage is a call.

Terminal positions that come from elsewhere are another matter.  The implicit style has nothing to
say about what is no node, so it never fails; the explicit style asks for an exit there, and fails
with the first of them (`Terminal.evaluateAll_eq_error_iff`).

* `Terminal.evaluate_eq_error_iff` --- when judging one position fails;
* `Terminal.evaluateAll_cons` --- judging a row is judging its first position and then the others.
-/

namespace TailLint

/-- What has a kind has a span. -/
theorem Tree.isSome_span? (t : Tree) : t.span?.isSome = t.kind?.isSome := by
  cases t <;> rfl

namespace Finding

/-- Findings are reported one after the other. -/
theorem diagnostics_append (origin : Origin) (first rest : List Finding) :
    diagnostics origin (first ++ rest)
      = diagnostics origin first >>= fun ds => (diagnostics origin rest).map (ds ++ ·) := by
  induction first with
  | nil =>
    rw [List.nil_append]
    cases diagnostics origin rest <;> rfl
  | cons f others ih =>
    rw [List.cons_append, diagnostics, diagnostics]
    cases f.diagnostic? origin with
    | none => rfl
    | some d =>
      simp only [ih]
      cases diagnostics origin others with
      | error node => rfl
      | ok ds => cases diagnostics origin rest <;> rfl

end Finding

namespace Terminal

/-! ## One position -/

/-- About what is no node the implicit style says nothing, and the explicit style says that it is
no exit. -/
theorem findings_of_kind?_eq_none {policy : Policy} {t : Terminal} (h : t.node.kind? = none) :
    findings policy t
      = match policy.style with
        | .implicit => []
        | .explicit => [⟨.explicitReturnMissing, t.node⟩] := by
  obtain ⟨node, checkElse⟩ := t
  simp only [findings, styleFindings]
  cases node with
  | missing | foreign => cases policy.style <;> rfl
  | _ => cases h

/-- Judging one position fails under the explicit style, at what is no node. -/
theorem evaluate_eq_error_iff {policy : Policy} {origin : Origin} {t : Terminal} {node : Tree} :
    evaluate policy origin t = .error node
      ↔ policy.style = .explicit ∧ t.node.kind? = none ∧ t.node = node := by
  cases hkind : t.node.kind? with
  | some kind =>
    have hspan : t.node.span?.isSome = true := by
      rw [Tree.isSome_span?, hkind]
      rfl
    have hok : evaluate policy origin t
        = .ok ((findings policy t).filterMap (Finding.diagnostic? origin)) :=
      Finding.diagnostics_eq_ok origin fun f hf => isSome_span?_of_mem_findings hspan hf
    simp [hok]
  | none =>
    have hspan : t.node.span? = none := by
      rw [← Option.isNone_iff_eq_none, ← Option.not_isSome, Tree.isSome_span?, hkind]
      rfl
    rw [evaluate, findings_of_kind?_eq_none hkind]
    cases policy.style with
    | implicit => simp [Finding.diagnostics]
    | explicit => simp [Finding.diagnostics, Finding.diagnostic?, hspan]

/-! ## Rows of positions -/

theorem evaluateAll_cons (policy : Policy) (origin : Origin) (t : Terminal) (rest : List Terminal) :
    evaluateAll policy origin (t :: rest)
      = evaluate policy origin t >>= fun ds => (evaluateAll policy origin rest).map (ds ++ ·) := by
  rw [evaluateAll, List.flatMap_cons, Finding.diagnostics_append]
  rfl

/-- Judging a row fails under the explicit style, at the first thing in it that is no node. -/
theorem evaluateAll_eq_error_iff {policy : Policy} {origin : Origin} {terminals : List Terminal}
    {node : Tree} :
    evaluateAll policy origin terminals = .error node
      ↔ policy.style = .explicit
        ∧ (terminals.map (·.node)).find? (·.kind?.isNone) = some node := by
  induction terminals with
  | nil => simp [evaluateAll, Finding.diagnostics]
  | cons t rest ih =>
    rw [evaluateAll_cons, List.map_cons, List.find?_cons]
    cases hfirst : evaluate policy origin t with
    | error node' =>
      obtain ⟨hstyle, hkind, rfl⟩ := evaluate_eq_error_iff.mp hfirst
      simp [hstyle, hkind, bind, Except.bind]
    | ok ds =>
      -- Under the explicit style a position that was judged is a node, so the search passes it.
      have hnode (hstyle : policy.style = .explicit) : t.node.kind?.isNone = false := by
        rw [Option.isNone_eq_false_iff, ← Option.ne_none_iff_isSome]
        intro hkind
        have herror : evaluate policy origin t = .error t.node :=
          evaluate_eq_error_iff.mpr ⟨hstyle, hkind, rfl⟩
        cases hfirst.symm.trans herror
      have hrest : (Except.ok ds >>= fun ds => (evaluateAll policy origin rest).map (ds ++ ·))
          = .error node ↔ evaluateAll policy origin rest = .error node := by
        cases evaluateAll policy origin rest <;> simp [bind, Except.bind, Except.map]
      rw [hrest, ih]
      exact and_congr_right fun hstyle => by rw [hnode hstyle]

/-- What the finder records is a node. -/
theorem kind?_ne_none_of_mem_find {checkElse : Bool} {body : Tree} {t : Terminal}
    (h : t ∈ find checkElse body) : t.node.kind? ≠ none := by
  obtain ⟨node, hnode, rfl⟩ := List.mem_map.mp h
  rw [Option.ne_none_iff_isSome, ← Tree.isSome_span?]
  exact Tree.isSome_span?_of_mem_terminals body hnode

end Terminal

/-! ## Trees -/

/-- Judging the functions of a tree one after the other never fails and gives the diagnostics of the
tree, whatever stands in it.  Judging positions from elsewhere fails under the explicit style when
one of them is no node, and such a position is never found in a tree. -/
theorem Tree.judging_fails_iff (policy : Policy) (file : String) :
    (∀ t : Tree,
        (t.definitions.mapM fun d => Terminal.evaluateAll policy ⟨file, d.name⟩
          (Terminal.ofDefinition policy d)).map List.flatten = .ok (t.lint policy file))
      ∧ (∀ origin terminals, (∃ node, Terminal.evaluateAll policy origin terminals = .error node)
          ↔ policy.style = .explicit ∧ ∃ t ∈ terminals, t.node.kind? = none)
      ∧ ∀ checkElse body, ∀ t ∈ Terminal.find checkElse body, t.node.kind? ≠ none := by
  refine ⟨fun t => ?_, fun origin terminals => ?_, fun checkElse body t ht => ?_⟩
  · simp only [Definition.evaluateAll_eq_ok]
    have hall : (t.definitions.mapM fun d => (.ok (d.lint policy file) : Except Tree _))
        = .ok (t.definitions.map (Definition.lint policy file)) := List.mapM_pure
    rw [hall, lint, List.flatMap_def]
    rfl
  · simp only [Terminal.evaluateAll_eq_error_iff, exists_and_left]
    refine and_congr_right fun _ => ?_
    rw [← Option.isSome_iff_exists, List.find?_map, Option.isSome_map, List.find?_isSome]
    simp
  · exact Terminal.kind?_ne_none_of_mem_find ht

/-- A function that ends in a chain without a last stage, or else in a value that is no node. -/
def Tree.damagedFunction : Tree :=
  .function [] (.conditional .missing (.pipe .missing (.foreign (.number 3)) "|>" {})
    (.block [.missing, .foreign (.text "x")] {}) {}) none false {}

/-- The chain is reported and the value is passed over.  Had the value been recorded, judging would
have failed. -/
theorem Tree.judging_damagedFunction :
    ∃ policy : Policy, policy.style = .explicit
      ∧ (damagedFunction.definitions.mapM fun d => Terminal.evaluateAll policy ⟨"", d.name⟩
          (Terminal.ofDefinition policy d)).map List.flatten
        = .ok (damagedFunction.lint policy "")
      ∧ (damagedFunction.lint policy "").map (·.errorId) = ["explicitReturnMissing"]
      ∧ (∃ node, Terminal.evaluateAll policy {} [⟨.foreign (.text "x"), false⟩] = .error node)
      ∧ ∃ t ∈ Terminal.find false damagedFunction, t.node.kind? ≠ none := by
  obtain ⟨hlint, hfails, hfind⟩ := judging_fails_iff (.of .explicit true .empty .empty) ""
  refine ⟨.of .explicit true .empty .empty, rfl, hlint damagedFunction, by cbv, ?_, ?_⟩
  · exact (hfails {} _).mpr ⟨rfl, _, List.mem_singleton_self _, rfl⟩
  · exact ⟨_, List.mem_singleton_self _, hfind false damagedFunction _ (List.mem_singleton_self _)⟩

end TailLint
