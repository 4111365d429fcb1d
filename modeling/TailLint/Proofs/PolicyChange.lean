import TailLint.Proofs.Chain
import TailLint.Proofs.Reports

/-!
# What a change of the policy changes

When one entry of a policy is changed, a tree gets another list of diagnostics.  Here is how the
new list comes from the old one, for three changes: more functions are exempt, an `else` is asked
for, and more calls count as an exit.  Each time diagnostics are left out and all others stay, in
their order.

A diagnostic does not tell at which terminal position it was found, and two diagnostics may be
equal.  Which one of them is left out then still matters, because others may stand between the
two.  So the comparison is made between the reports, which know their places, and a list of
diagnostics is only read off at the end.

The flag on `else` is the odd one.  It decides whether a missing `else` is reported, and under the
implicit style it also decides whether the exempt functions are looked at in the first place.  To
ask for more therefore takes something away as well.

* `Definition.reports_eq_filter` --- if one policy finds at every terminal position what another
  finds there, less what is let through, then so it is for a whole function;
* `Tree.filter_reports_congr` --- trees are compared one function at a time;
* `Tree.filter_lint` --- from reports to diagnostics;
* `Tree.filter_home_reports` --- what is reported for the function at a place is what is said of
  that function alone.
-/

namespace TailLint

namespace NameSet

/-- Whether a function with this name, if it has one, is among the names. -/
def covers (names : NameSet) (name? : Option String) : Bool :=
  name?.any fun name => decide (name ∈ names)

theorem covers_union (s t : NameSet) (name? : Option String) :
    (s.union t).covers name? = (s.covers name? || t.covers name?) := by
  cases name? with
  | none => rfl
  | some name => simp [covers]

/-- A set with the members of a part of it added is the set. -/
theorem union_eq_right {s t : NameSet} (h : ∀ name ∈ s, name ∈ t) : s.union t = t := by
  refine ext fun name => ?_
  rw [mem_union]
  exact ⟨fun hname => hname.elim (h name) id, Or.inr⟩

end NameSet

/-! ## Three changes -/

namespace Policy

/-- The policy with further functions that are never checked. -/
def exempting (p : Policy) (names : NameSet) : Policy :=
  .of p.style p.allowImplicitElse p.returnFunctions (p.exceptFunctions.union names)

/-- The policy under which no terminal `if` may do without an `else`. -/
def demandingElse (p : Policy) : Policy :=
  .of p.style false p.returnFunctions p.exceptFunctions

/-- The policy with further calls that count as an explicit exit. -/
def accepting (p : Policy) (names : NameSet) : Policy :=
  .of p.style p.allowImplicitElse (p.returnFunctions.union names) p.exceptFunctions

/-! What the changed policies are like, entry by entry. -/

@[simp] theorem style_exempting (p : Policy) (names : NameSet) :
    (p.exempting names).style = p.style := rfl

@[simp] theorem allowImplicitElse_exempting (p : Policy) (names : NameSet) :
    (p.exempting names).allowImplicitElse = p.allowImplicitElse := rfl

@[simp] theorem consultsExemptions_exempting (p : Policy) (names : NameSet) :
    (p.exempting names).consultsExemptions = p.consultsExemptions := rfl

@[simp] theorem returnFunctions_exempting (p : Policy) (names : NameSet) :
    (p.exempting names).returnFunctions = p.returnFunctions :=
  NameSet.union_eq_right p.base_mem

@[simp] theorem exceptFunctions_exempting (p : Policy) (names : NameSet) :
    (p.exempting names).exceptFunctions = p.exceptFunctions.union names :=
  NameSet.union_eq_right fun name h => NameSet.mem_union.mpr (Or.inl (p.hooks_mem name h))

@[simp] theorem style_demandingElse (p : Policy) : p.demandingElse.style = p.style := rfl

@[simp] theorem allowImplicitElse_demandingElse (p : Policy) :
    p.demandingElse.allowImplicitElse = false := rfl

@[simp] theorem consultsExemptions_demandingElse (p : Policy) :
    p.demandingElse.consultsExemptions = true := Bool.or_true _

@[simp] theorem returnFunctions_demandingElse (p : Policy) :
    p.demandingElse.returnFunctions = p.returnFunctions :=
  NameSet.union_eq_right p.base_mem

@[simp] theorem exceptFunctions_demandingElse (p : Policy) :
    p.demandingElse.exceptFunctions = p.exceptFunctions :=
  NameSet.union_eq_right p.hooks_mem

@[simp] theorem style_accepting (p : Policy) (names : NameSet) :
    (p.accepting names).style = p.style := rfl

@[simp] theorem allowImplicitElse_accepting (p : Policy) (names : NameSet) :
    (p.accepting names).allowImplicitElse = p.allowImplicitElse := rfl

@[simp] theorem consultsExemptions_accepting (p : Policy) (names : NameSet) :
    (p.accepting names).consultsExemptions = p.consultsExemptions := rfl

@[simp] theorem returnFunctions_accepting (p : Policy) (names : NameSet) :
    (p.accepting names).returnFunctions = p.returnFunctions.union names :=
  NameSet.union_eq_right fun name h => NameSet.mem_union.mpr (Or.inl (p.base_mem name h))

@[simp] theorem exceptFunctions_accepting (p : Policy) (names : NameSet) :
    (p.accepting names).exceptFunctions = p.exceptFunctions :=
  NameSet.union_eq_right p.hooks_mem

theorem isExempt_eq (p : Policy) (name? : Option String) :
    p.isExempt name? = p.exceptFunctions.covers name? := rfl

theorem isReturnFunction_eq (p : Policy) (name? : Option String) :
    p.isReturnFunction name? = p.returnFunctions.covers name? := rfl

end Policy

/-- Whether a statement resolves to a call of one of these names. -/
def Tree.ResolvesInto (names : NameSet) (t : Tree) : Prop := ∃ name ∈ names, ResolvesTo name t

theorem Tree.resolvesInto_iff {names : NameSet} {t : Tree} :
    t.ResolvesInto names ↔ names.covers t.callTarget.callee? = true := by
  unfold ResolvesInto NameSet.covers
  simp only [resolvesTo_iff]
  cases t.callTarget.callee? with
  | none => simp
  | some name => simp

instance (names : NameSet) (t : Tree) : Decidable (t.ResolvesInto names) :=
  decidable_of_iff _ Tree.resolvesInto_iff.symm

/-! ## One terminal position -/

namespace Terminal

/-- What is found at a position depends on the style and, if that is explicit, on the calls that
count as an exit. -/
theorem findings_congr {p q : Policy} (hstyle : q.style = p.style)
    (hreturns : p.style = .explicit → q.returnFunctions = p.returnFunctions) (t : Terminal) :
    findings q t = findings p t := by
  unfold findings styleFindings
  rw [hstyle]
  cases hp : p.style with
  | implicit => rfl
  | explicit =>
    have hsame (name? : Option String) : q.isReturnFunction name? = p.isReturnFunction name? := by
      rw [Policy.isReturnFunction_eq, hreturns hp, Policy.isReturnFunction_eq]
    simp only [hsame]

/-- A finding on style is not about an `else`. -/
theorem rule_ne_implicitElse {p : Policy} {t : Terminal} {f : Finding}
    (hf : f ∈ styleFindings p t) : f.rule ≠ .implicitElse := by
  have hcases := styleFindings_cases p t
  rcases hcases with h | h | h | h
  · rw [h] at hf
    exact absurd hf List.not_mem_nil
  · rw [h] at hf
    rw [List.mem_singleton.mp hf]
    exact nofun
  · rw [h] at hf
    rw [List.mem_singleton.mp hf]
    exact nofun
  · rw [h] at hf
    rw [List.mem_singleton.mp hf]
    exact nofun

/-- A missing exit is reported where it is missing. -/
theorem node_eq_of_missing {p : Policy} {t : Terminal} {f : Finding} (hf : f ∈ findings p t)
    (hrule : f.rule = .explicitReturnMissing) : f.node = t.node := by
  rcases List.mem_append.mp hf with hf | hf
  · rcases styleFindings_cases p t with h | h | h | h
    · rw [h] at hf
      exact absurd hf List.not_mem_nil
    · rw [h] at hf
      rw [List.mem_singleton.mp hf]
    · rw [h] at hf
      rw [List.mem_singleton.mp hf] at hrule
      cases hrule
    · rw [h] at hf
      rw [List.mem_singleton.mp hf] at hrule
      cases hrule
  · unfold elseFindings at hf
    split at hf
    · rw [List.mem_singleton.mp hf]
    · exact absurd hf List.not_mem_nil

/-- Where nobody asks for an `else`, what is found is what is found anyhow, less the missing
`else`. -/
theorem findings_unchecked (p : Policy) (node : Tree) (flag : Bool) :
    findings p ⟨node, false⟩
      = (findings p ⟨node, flag⟩).filter (·.rule ≠ .implicitElse) := by
  have hstyle : (styleFindings p ⟨node, flag⟩).filter (·.rule ≠ .implicitElse)
      = styleFindings p ⟨node, flag⟩ := by
    refine List.filter_eq_self.mpr fun f hf => ?_
    exact decide_eq_true (rule_ne_implicitElse hf)
  have helse : (elseFindings ⟨node, flag⟩).filter (·.rule ≠ .implicitElse) = [] := by
    unfold elseFindings
    split
    · rfl
    · rfl
  have hnone : elseFindings ⟨node, false⟩ = [] := by
    unfold elseFindings
    rw [Bool.and_false, if_neg Bool.false_ne_true]
  rw [findings, findings, List.filter_append, hstyle, helse, hnone]
  rfl

/-- Under the explicit style, more calls that count as an exit excuse the positions that resolve
to one of them, and nothing else. -/
theorem findings_accepting {p : Policy} (hstyle : p.style = .explicit) (names : NameSet)
    (t : Terminal) :
    findings (p.accepting names) t = (findings p t).filter
      fun f => ¬ (f.rule = .explicitReturnMissing ∧ f.node.ResolvesInto names) := by
  have helse : (elseFindings t).filter
      (fun f => ¬ (f.rule = .explicitReturnMissing ∧ f.node.ResolvesInto names))
        = elseFindings t := by
    unfold elseFindings
    split
    · rfl
    · rfl
  rw [findings, findings, List.filter_append, helse]
  congr 1
  unfold styleFindings
  rw [Policy.style_accepting, hstyle]
  split
  · rfl
  · dsimp only
    rw [Policy.isReturnFunction_eq, Policy.isReturnFunction_eq, Policy.returnFunctions_accepting,
      NameSet.covers_union]
    cases p.returnFunctions.covers t.node.callTarget.callee? with
    | true => rfl
    | false =>
      rw [Bool.false_or, if_neg Bool.false_ne_true]
      cases hnames : names.covers t.node.callTarget.callee? with
      | true =>
        have hresolves : t.node.ResolvesInto names := Tree.resolvesInto_iff.mpr hnames
        simp [hresolves]
      | false =>
        have hresolves : ¬ t.node.ResolvesInto names := by
          rw [Tree.resolvesInto_iff, hnames]
          exact Bool.false_ne_true
        simp [hresolves]

/-! Whether a function is skipped. -/

/-- More exempt functions are skipped, if the exempt functions are looked at. -/
theorem isSkipped_exempting (p : Policy) (names : NameSet) (d : Definition) :
    isSkipped (p.exempting names) d
      = (isSkipped p d || p.consultsExemptions && names.covers d.name) := by
  rw [isSkipped, isSkipped, Policy.consultsExemptions_exempting, Policy.isExempt_eq,
    Policy.isExempt_eq, Policy.exceptFunctions_exempting, NameSet.covers_union,
    Bool.and_or_distrib_left]

/-- Once an `else` is asked for, every exempt function is skipped. -/
theorem isSkipped_demandingElse (p : Policy) (d : Definition) :
    isSkipped p.demandingElse d = p.isExempt d.name := by
  rw [isSkipped, Policy.consultsExemptions_demandingElse, Policy.isExempt_eq,
    Policy.exceptFunctions_demandingElse, Bool.true_and, Policy.isExempt_eq]

/-- Where an `else` may be missing, the exempt functions are skipped under the explicit style
only. -/
theorem isSkipped_of_allowImplicitElse {p : Policy} (hallow : p.allowImplicitElse = true)
    (d : Definition) : isSkipped p d = (decide (p.style = .explicit) && p.isExempt d.name) := by
  rw [isSkipped, Policy.consultsExemptions, hallow, Bool.not_true, Bool.or_false]

/-- The calls that count as an exit do not matter for this. -/
theorem isSkipped_accepting (p : Policy) (names : NameSet) (d : Definition) :
    isSkipped (p.accepting names) d = isSkipped p d := by
  rw [isSkipped, isSkipped, Policy.consultsExemptions_accepting, Policy.isExempt_eq,
    Policy.isExempt_eq, Policy.exceptFunctions_accepting]

end Terminal

/-! ## One function -/

namespace Definition

/-- If a policy skips a function as another one does, and finds at every terminal position what
the other one finds there and `keep` lets through, then it reports of the function what the other
one reports and `keep` lets through. -/
theorem reports_eq_filter {p q : Policy} {d : Definition} (keep : Finding → Bool)
    (hskipped : Terminal.isSkipped q d = Terminal.isSkipped p d)
    (hfindings : ∀ node, Terminal.findings q ⟨node, !q.allowImplicitElse⟩
      = (Terminal.findings p ⟨node, !p.allowImplicitElse⟩).filter keep) (home : Path) :
    d.reports q home = (d.reports p home).filter fun r => keep r.finding := by
  unfold reports
  rw [hskipped]
  split
  · rfl
  · rw [List.filter_flatMap]
    refine List.flatMap_congr fun s _ => ?_
    rw [hfindings, List.filter_map]
    rfl

theorem reports_congr {p q : Policy} {d : Definition}
    (hskipped : Terminal.isSkipped q d = Terminal.isSkipped p d)
    (hflag : q.allowImplicitElse = p.allowImplicitElse)
    (hfindings : ∀ t, Terminal.findings q t = Terminal.findings p t) (home : Path) :
    d.reports q home = d.reports p home := by
  have hall := reports_eq_filter (fun _ => true) hskipped
    (fun node => by rw [hflag, hfindings, List.filter_true]) home
  rwa [List.filter_true] at hall

theorem reports_of_isSkipped {p : Policy} {d : Definition}
    (h : Terminal.isSkipped p d = true) (home : Path) : d.reports p home = [] := by
  unfold reports
  rw [if_pos h]

/-- What is reported of a function is let through or not by its name alone, if only the name is
looked at. -/
theorem filter_name_reports (p : Policy) (keep : Option String → Bool) (d : Definition)
    (home : Path) :
    (d.reports p home).filter (fun r => keep r.name)
      = if keep d.name then d.reports p home else [] := by
  have hname : ∀ r ∈ d.reports p home, r.name = d.name :=
    fun r hr => (reaches_of_mem_reports hr).2.1
  split
  · next hkeep =>
    refine List.filter_eq_self.mpr fun r hr => ?_
    rw [hname r hr]
    exact hkeep
  · next hkeep =>
    refine List.filter_eq_nil_iff.mpr fun r hr => ?_
    rw [hname r hr]
    exact hkeep

/-- A function that becomes exempt loses its reports, if the exempt functions are looked at, and
any other keeps them. -/
theorem reports_exempting (p : Policy) (names : NameSet) (d : Definition) (home : Path) :
    d.reports (p.exempting names) home
      = if p.consultsExemptions && names.covers d.name then [] else d.reports p home := by
  have hskipped := Terminal.isSkipped_exempting p names d
  cases hnew : p.consultsExemptions && names.covers d.name with
  | true =>
    rw [hnew, Bool.or_true] at hskipped
    exact reports_of_isSkipped hskipped home
  | false =>
    rw [hnew, Bool.or_false] at hskipped
    refine reports_congr hskipped (p.allowImplicitElse_exempting names) ?_ home
    exact Terminal.findings_congr (p.style_exempting names)
      fun _ => p.returnFunctions_exempting names

/-- When an `else` is asked for, then apart from the missing ones nothing new is reported of a
function, and all is lost if it is exempt and was checked before. -/
theorem reports_demandingElse {p : Policy} (hallow : p.allowImplicitElse = true) (d : Definition)
    (home : Path) :
    (d.reports p.demandingElse home).filter (·.finding.rule ≠ .implicitElse)
      = (d.reports p home).filter fun r => decide (p.style = .explicit) || !p.isExempt r.name := by
  have hfindings (node : Tree) : Terminal.findings p ⟨node, !p.allowImplicitElse⟩
      = (Terminal.findings p.demandingElse ⟨node, !p.demandingElse.allowImplicitElse⟩).filter
        (·.rule ≠ .implicitElse) := by
    rw [Terminal.findings_congr p.style_demandingElse fun _ => p.returnFunctions_demandingElse,
      hallow]
    exact Terminal.findings_unchecked p node true
  have hbefore := Terminal.isSkipped_of_allowImplicitElse hallow d
  have hafter := Terminal.isSkipped_demandingElse p d
  rw [filter_name_reports p (fun name? => decide (p.style = .explicit) || !p.isExempt name?)]
  cases hexempt : p.isExempt d.name with
  | true =>
    rw [hexempt] at hbefore hafter
    rw [reports_of_isSkipped hafter, List.filter_nil, Bool.not_true, Bool.or_false]
    split
    · next hstyle =>
      rw [hstyle] at hbefore
      exact (reports_of_isSkipped hbefore home).symm
    · rfl
  | false =>
    rw [hexempt, Bool.and_false] at hbefore
    rw [hexempt] at hafter
    rw [Bool.not_false, Bool.or_true, if_pos rfl]
    exact (reports_eq_filter (fun f => decide (f.rule ≠ .implicitElse))
      (hbefore.trans hafter.symm) hfindings home).symm

end Definition

/-! ## A whole tree -/

namespace Tree

/-- If two policies agree on every function, apart from what is filtered out, they agree on a
tree. -/
theorem filter_reports_congr {p q : Policy} (keep keep' : Report → Bool)
    (h : ∀ home d, (Definition.reports q home d).filter keep
      = (Definition.reports p home d).filter keep') (t : Tree) :
    (t.reports q).filter keep = (t.reports p).filter keep' := by
  unfold reports
  rw [List.filter_flatMap, List.filter_flatMap]
  refine List.flatMap_congr fun s _ => ?_
  cases s.node.definition? with
  | none => rfl
  | some d => exact h s.path d

theorem reports_eq_filter {p q : Policy} (keep : Report → Bool)
    (h : ∀ home d, Definition.reports q home d = (Definition.reports p home d).filter keep)
    (t : Tree) : t.reports q = (t.reports p).filter keep := by
  have hall := filter_reports_congr (p := p) (q := q) (fun _ => true) keep
    (fun home d => by rw [List.filter_true, h home d]) t
  rwa [List.filter_true] at hall

/-- The diagnostics of a tree are those of the reports on it. -/
theorem lint_eq_filterMap_reports (policy : Policy) (file : String) (t : Tree) :
    t.lint policy file = (t.reports policy).filterMap (Report.diagnostic? file) := by
  have h := congrArg (List.filterMap id) (map_diagnostic?_reports policy file t)
  rw [List.filterMap_map, List.filterMap_map] at h
  simpa using h.symm

/-- Leaving out diagnostics is leaving out reports. -/
theorem filter_lint {file : String} (keep : Diagnostic → Bool) (keep' : Report → Bool)
    (h : ∀ r diagnostic, Report.diagnostic? file r = some diagnostic → keep diagnostic = keep' r)
    (policy : Policy) (t : Tree) :
    (t.lint policy file).filter keep
      = ((t.reports policy).filter keep').filterMap (Report.diagnostic? file) := by
  rw [lint_eq_filterMap_reports, List.filter_filterMap, List.filterMap_filter]
  refine List.filterMap_congr fun r _ => ?_
  cases hr : r.diagnostic? file with
  | none => simp
  | some diagnostic => simp [Option.filter, h r diagnostic hr]

/-- What is reported for the function at a place is what is said of that function alone. -/
theorem filter_home_reports {t : Tree} {home : Path} {d : Definition}
    (h : t.at? home = some (ofDefinition d)) (policy : Policy) :
    (t.reports policy).filter (·.home = home) = d.reports policy home := by
  have hothers : ∀ s : Spot, s.path ≠ home →
      (s.node.definition?.elim [] (Definition.reports policy s.path)).filter (·.home = home)
        = [] := by
    intro s hs
    cases s.node.definition? with
    | none => rfl
    | some e =>
      refine List.filter_eq_nil_iff.mpr fun r hr hhome => hs ?_
      rw [← (Definition.reaches_of_mem_reports hr).1]
      exact of_decide_eq_true hhome
  have hown : (d.reports policy home).filter (·.home = home) = d.reports policy home := by
    refine List.filter_eq_self.mpr fun r hr => ?_
    exact decide_eq_true (Definition.reaches_of_mem_reports hr).1
  -- the walk visits the place once, and all that it visits before or after is elsewhere
  obtain ⟨before, after, hspots⟩ := List.append_of_mem (mem_spots h rfl)
  have hpaths := nodup_path_spots t
  rw [hspots, List.map_append, List.map_cons, List.nodup_middle, List.nodup_cons] at hpaths
  have hbefore : ∀ s ∈ before, s.path ≠ home := by
    intro s hs heq
    exact hpaths.1 (List.mem_append_left _ (List.mem_map.mpr ⟨s, hs, heq⟩))
  have hafter : ∀ s ∈ after, s.path ≠ home := by
    intro s hs heq
    exact hpaths.1 (List.mem_append_right _ (List.mem_map.mpr ⟨s, hs, heq⟩))
  unfold reports
  rw [hspots, List.filter_flatMap, List.flatMap_append, List.flatMap_cons,
    List.flatMap_eq_nil_iff.mpr fun s hs => hothers s (hbefore s hs),
    List.flatMap_eq_nil_iff.mpr fun s hs => hothers s (hafter s hs), List.nil_append,
    List.append_nil]
  exact hown

end Tree

namespace Report

theorem function_of_diagnostic? {file : String} {r : Report} {diagnostic : Diagnostic}
    (h : r.diagnostic? file = some diagnostic) : diagnostic.function = r.name := by
  obtain ⟨span, -, rfl⟩ := Option.map_eq_some_iff.mp h
  rfl

/-- A diagnostic carries the identifier of its rule, and no other rule has that identifier. -/
theorem errorId_of_diagnostic? {file : String} {r : Report} {diagnostic : Diagnostic}
    (h : r.diagnostic? file = some diagnostic) (rule : Rule) :
    diagnostic.errorId = rule.id ↔ r.finding.rule = rule := by
  obtain ⟨span, -, rfl⟩ := Option.map_eq_some_iff.mp h
  constructor
  · intro hid
    have hrule := congrArg Rule.ofId? hid
    exact Option.some.inj (by simpa [Diagnostic.ofRule] using hrule)
  · intro hrule
    rw [← hrule]
    rfl

end Report

namespace Tree

/-- What is reported was found at a terminal position of the function it is reported for. -/
theorem exists_terminal_of_mem_reports {p : Policy} {t : Tree} {r : Report}
    (hr : r ∈ t.reports p) :
    ∃ d s, t.at? r.home = some (ofDefinition d) ∧ s ∈ d.body.terminalSpots
      ∧ r.finding ∈ Terminal.findings p ⟨s.node, !p.allowImplicitElse⟩
      ∧ r.place = r.home ++ 0 :: (s.path ++ r.finding.offset s.node) := by
  obtain ⟨spot, hspot, hr⟩ := List.mem_flatMap.mp hr
  cases hd : spot.node.definition? with
  | none =>
    rw [hd] at hr
    exact absurd hr List.not_mem_nil
  | some d =>
    have hat : t.at? spot.path = some (ofDefinition d) :=
      eq_ofDefinition hd ▸ at?_of_mem_spots hspot
    rw [hd, Option.elim_some, Definition.reports] at hr
    split at hr
    · exact absurd hr List.not_mem_nil
    · obtain ⟨s, hs, hr⟩ := List.mem_flatMap.mp hr
      obtain ⟨f, hf, rfl⟩ := List.mem_map.mp hr
      exact ⟨d, s, hat, hs, hf, rfl⟩

/-- Where an `else` may be missing, none is reported. -/
theorem rule_ne_implicitElse_of_mem_reports {p : Policy} (hallow : p.allowImplicitElse = true)
    {t : Tree} {r : Report} (hr : r ∈ t.reports p) : r.finding.rule ≠ .implicitElse := by
  obtain ⟨_, s, -, -, hfinding, -⟩ := exists_terminal_of_mem_reports hr
  rw [hallow] at hfinding
  have hkept : r.finding ∈ (Terminal.findings p ⟨s.node, false⟩).filter
      (·.rule ≠ .implicitElse) := Terminal.findings_unchecked p s.node false ▸ hfinding
  exact of_decide_eq_true (List.mem_filter.mp hkept).2

/-- When more functions become exempt, the diagnostics of exactly these functions are left out if
the exempt functions are looked at, and none otherwise.  In particular a function that stands
inside one that becomes exempt, and does not become exempt itself, keeps all its diagnostics. -/
theorem lint_exempting (p : Policy) (names : NameSet) (file : String) (t : Tree) :
    t.lint (p.exempting names) file
        = (if p.consultsExemptions
            then (t.lint p file).filter fun diagnostic => !names.covers diagnostic.function
            else t.lint p file)
      ∧ (t.lint (p.exempting names) file).map some
          = (t.reports (p.exempting names)).map (Report.diagnostic? file)
      ∧ ∀ outer inner d e,
          t.at? outer = some (ofDefinition d) → names.covers d.name = true →
          t.at? (outer ++ 0 :: inner) = some (ofDefinition e) → names.covers e.name = false →
          ((t.reports (p.exempting names)).filter (·.home = outer ++ 0 :: inner)).map
              (Report.diagnostic? file) = (e.lint p file).map some := by
  refine ⟨?_, (map_diagnostic?_reports (p.exempting names) file t).symm, ?_⟩
  · have hreports : t.reports (p.exempting names)
        = (t.reports p).filter fun r => !(p.consultsExemptions && names.covers r.name) := by
      refine reports_eq_filter _ (fun home d => ?_) t
      rw [Definition.reports_exempting, Definition.filter_name_reports p
        fun name? => !(p.consultsExemptions && names.covers name?)]
      cases p.consultsExemptions && names.covers d.name with
      | true => rfl
      | false => rfl
    rw [lint_eq_filterMap_reports, hreports, ← filter_lint
      (fun diagnostic => !(p.consultsExemptions && names.covers diagnostic.function)) _
      fun r diagnostic hr => by rw [Report.function_of_diagnostic? hr]]
    cases p.consultsExemptions with
    | true => rfl
    | false => exact List.filter_true _
  · intro outer inner d e _ _ hinner hkept
    rw [filter_home_reports hinner, Definition.reports_exempting, hkept, Bool.and_false,
      if_neg Bool.false_ne_true, Definition.map_diagnostic?_reports]

/-- One function inside another one.  When the outer one becomes exempt, it loses its diagnostic
and the inner one keeps its own. -/
theorem lint_exempting_nested :
    ∃ outer inner : Definition,
      ((ofDefinition outer).lint Policy.default.demandingElse "").map (·.function)
          = [some "f", some "g"]
        ∧ (ofDefinition outer).at? ([] ++ 0 :: [0]) = some (ofDefinition inner)
        ∧ (ofDefinition outer).lint (Policy.default.demandingElse.exempting (.ofList ["f"])) ""
          = ((ofDefinition outer).lint Policy.default.demandingElse "").filter
              (fun d => !(NameSet.ofList ["f"]).covers d.function)
        ∧ (((ofDefinition outer).reports
                (Policy.default.demandingElse.exempting (.ofList ["f"]))).filter
              (·.home = [] ++ 0 :: [0])).map (Report.diagnostic? "")
          = (inner.lint Policy.default.demandingElse "").map some := by
  let inner : Definition := { body := .call "return" [] {}, name := some "g" }
  let outer : Definition :=
    { body := .block [ofDefinition inner, .call "return" [] {}] {}, name := some "f" }
  obtain ⟨hfilter, -, hinner⟩ :=
    lint_exempting Policy.default.demandingElse (.ofList ["f"]) "" (ofDefinition outer)
  refine ⟨outer, inner, ?_, rfl, hfilter, hinner [] [0] outer inner rfl rfl rfl rfl⟩
  rw [lint, definitions_eq]
  rfl

/-- When an `else` is asked for that could be missing before, then apart from the missing ones the
diagnostics are the same under the explicit style, and under the implicit style they are those of
the functions that are not exempt.  Before, no missing `else` was reported. -/
theorem lint_demandingElse {p : Policy} (hallow : p.allowImplicitElse = true) (file : String)
    (t : Tree) :
    (t.lint p.demandingElse file).filter (·.errorId ≠ Rule.implicitElse.id)
        = (match p.style with
            | .explicit => t.lint p file
            | .implicit => (t.lint p file).filter fun diagnostic =>
                !p.isExempt diagnostic.function)
      ∧ ∀ diagnostic ∈ t.lint p file, diagnostic.errorId ≠ Rule.implicitElse.id := by
  have hreports := filter_reports_congr _ _
    (fun home d => Definition.reports_demandingElse hallow d home) t
  have helse : ∀ r diagnostic, Report.diagnostic? file r = some diagnostic →
      decide (diagnostic.errorId ≠ Rule.implicitElse.id)
        = decide (r.finding.rule ≠ .implicitElse) := by
    intro r diagnostic hr
    rw [decide_eq_decide, Ne, Ne, Report.errorId_of_diagnostic? hr]
  have hname : ∀ r diagnostic, Report.diagnostic? file r = some diagnostic →
      (decide (p.style = .explicit) || !p.isExempt diagnostic.function)
        = (decide (p.style = .explicit) || !p.isExempt r.name) := by
    intro r diagnostic hr
    rw [Report.function_of_diagnostic? hr]
  constructor
  · rw [filter_lint _ _ helse, hreports, ← filter_lint _ _ hname]
    cases p.style with
    | explicit => exact List.filter_true _
    | implicit => rfl
  · intro diagnostic hmem
    rw [lint_eq_filterMap_reports] at hmem
    obtain ⟨r, hr, hdiagnostic⟩ := List.mem_filterMap.mp hmem
    rw [Ne, Report.errorId_of_diagnostic? hdiagnostic]
    exact rule_ne_implicitElse_of_mem_reports hallow hr

/-- Under the default policy the hook is checked.  When an `else` is asked for, it is not, and of
the other function the missing `else` is reported as well. -/
theorem lint_demandingElse_hook :
    ∃ t : Tree,
      (t.lint .default "").map (fun d => (d.function, d.errorId))
          = [(some ".onLoad", "explicitReturnNotNeeded"), (some "f", "explicitReturnNotNeeded")]
        ∧ (t.lint Policy.default.demandingElse "").map (fun d => (d.function, d.errorId))
          = [(some "f", "implicitElse"), (some "f", "explicitReturnNotNeeded")]
        ∧ Policy.default.allowImplicitElse = true
        ∧ (t.lint Policy.default.demandingElse "").filter (·.errorId ≠ Rule.implicitElse.id)
          = (t.lint .default "").filter (fun d => !Policy.default.isExempt d.function)
        ∧ ∀ d ∈ t.lint .default "", d.errorId ≠ Rule.implicitElse.id := by
  have hdemanding := fun t => lint_demandingElse (p := .default) rfl "" t
  refine ⟨.block
    [.function [] (.conditional (.expr "c" [] {}) (.call "return" [] {}) .missing {})
      (some ".onLoad") false {},
      .function [] (.conditional (.expr "c" [] {}) (.call "return" [] {}) .missing {})
        (some "f") false {}] {}, ?_, ?_, rfl, (hdemanding _).1, (hdemanding _).2⟩
  · rw [lint, definitions_eq]
    rfl
  · rw [lint, definitions_eq]
    rfl

/-- When more calls count as an exit, nothing changes under the implicit style.  Under the
explicit style the diagnostics of exactly those positions are left out that lacked an exit and
resolve to one of these calls.  Each diagnostic is traced to its position by its report: a missing
exit is reported at a terminal position of the function. -/
theorem lint_accepting (p : Policy) (names : NameSet) (file : String) (t : Tree) :
    (p.style = .implicit → t.lint (p.accepting names) file = t.lint p file)
      ∧ (t.lint p file).map some = (t.reports p).map (Report.diagnostic? file)
      ∧ (p.style = .explicit → (t.lint (p.accepting names) file).map some
          = ((t.reports p).filter fun r => ¬ (r.finding.rule = .explicitReturnMissing
              ∧ r.finding.node.ResolvesInto names)).map (Report.diagnostic? file))
      ∧ ∀ r ∈ t.reports p, r.finding.rule = .explicitReturnMissing →
          ∃ d path, t.at? r.home = some (ofDefinition d)
            ∧ ⟨path, r.finding.node⟩ ∈ d.body.terminalSpots ∧ r.place = r.home ++ 0 :: path := by
  refine ⟨fun hstyle => ?_, (map_diagnostic?_reports p file t).symm, fun hstyle => ?_, ?_⟩
  · have hfindings : ∀ terminal, Terminal.findings (p.accepting names) terminal
        = Terminal.findings p terminal := by
      refine Terminal.findings_congr (p.style_accepting names) fun hexplicit => ?_
      cases hstyle.symm.trans hexplicit
    have hreports : t.reports (p.accepting names) = (t.reports p).filter fun _ => true := by
      refine reports_eq_filter _ (fun home d => ?_) t
      rw [List.filter_true]
      exact Definition.reports_congr (Terminal.isSkipped_accepting p names d)
        (p.allowImplicitElse_accepting names) hfindings home
    rw [lint_eq_filterMap_reports, hreports, List.filter_true, lint_eq_filterMap_reports]
  · rw [← map_diagnostic?_reports]
    congr 1
    exact reports_eq_filter _ (fun home d => Definition.reports_eq_filter _
      (Terminal.isSkipped_accepting p names d)
      (fun node => Terminal.findings_accepting hstyle names _) home) t
  · intro r hr hrule
    obtain ⟨d, s, hd, hs, hfinding, hplace⟩ := exists_terminal_of_mem_reports hr
    have hnode : r.finding.node = s.node := Terminal.node_eq_of_missing hfinding hrule
    have hoffset : r.finding.offset s.node = [] := by
      rw [Finding.offset, hrule]
    refine ⟨d, s.path, hd, ?_, ?_⟩
    · rw [hnode]
      exact hs
    · rw [hplace, hoffset, List.append_nil]

/-- One branch pipes into a call and assigns the result, the other one calls directly.  When the
first call counts as an exit, only the second branch lacks one. -/
theorem lint_accepting_assigned :
    ∃ (p : Policy) (t : Tree),
      p.style = .explicit
        ∧ (t.lint p "").map (·.errorId) = ["explicitReturnMissing", "explicitReturnMissing"]
        ∧ (t.lint (p.accepting (.ofList ["done"])) "").map (·.errorId)
          = ["explicitReturnMissing"]
        ∧ (t.lint (p.accepting (.ofList ["done"])) "").map some
          = ((t.reports p).filter fun r => ¬ (r.finding.rule = .explicitReturnMissing
              ∧ r.finding.node.ResolvesInto (.ofList ["done"]))).map (Report.diagnostic? "") := by
  let piped : Tree := .pipe (.expr "x" [] {}) (.call "done" [] {}) "|>" {}
  let t : Tree := .function []
    (.conditional (.expr "c" [] {}) (.expr "<-" [.expr "y" [] {}, piped] {}) (.call "g" [] {}) {})
    (some "f") false {}
  obtain ⟨-, -, hexplicit, -⟩ :=
    lint_accepting (.of .explicit true .empty .empty) (.ofList ["done"]) "" t
  refine ⟨_, t, rfl, ?_, ?_, hexplicit rfl⟩
  · rw [lint, definitions_eq]
    rfl
  · rw [lint, definitions_eq]
    rfl

end Tree

end TailLint
