import TailLint.Proofs.Exit

/-!
# Where the findings are

A diagnostic carries a span, and several nodes may have the same span.  To say that nothing is
reported twice, each diagnostic is traced back to the place of the node that its span is taken
from (`Report`): the terminal position, or the call that the terminal position resolves to,
which may stand some stages further down a chain of pipes.

Two reports could fall on one place in four ways: a conditional is recorded together with its
branches, a call at the end of a chain lies below the position it is found at, functions nest,
and a function can itself be a terminal position of the function around it.  The first two are
a matter of one body, and an induction over the body excludes them.  The other two are excluded
by a single observation: on the way from a function to what is reported of it stands no other
function (`Tree.Reaches`), and so the place alone tells which function it belongs to.

* `Tree.map_node_terminalSpots` --- the terminal positions, with their places;
* `Tree.nodup_extended_terminalSpots` --- within a body no place is met twice;
* `Tree.Reaches.home_unique` --- the place determines the function;
* `Tree.map_diagnostic?_reports` --- the reports are the diagnostics, one for one;
* `Tree.nodup_place_reports` --- all reports of a tree are at different places.
-/

namespace TailLint

namespace Tree

/-! ## Paths that enter no function -/

/-- A path leads from a tree to a node without going through a function on the way; the node
at its end may be one. -/
inductive Reaches : Tree → Path → Tree → Prop
  | here (t : Tree) : Reaches t [] t
  | step {t child u : Tree} {i : Nat} {path : Path} (hopen : t.definition? = none)
      (hslot : t.slots[i]? = some child) (hrest : Reaches child path u) : Reaches t (i :: path) u

namespace Reaches

theorem at? {t u : Tree} {path : Path} (h : Reaches t path u) : t.at? path = some u := by
  induction h with
  | here => rfl
  | step _ hslot _ ih => exact at?_cons.mpr ⟨_, hslot, ih⟩

theorem trans {t u v : Tree} {path rest : Path} (h : Reaches t path u) (h' : Reaches u rest v) :
    Reaches t (path ++ rest) v := by
  induction h with
  | here => exact h'
  | step hopen hslot _ ih => exact .step hopen hslot (ih h')

/-- No function stands before the end of the path. -/
theorem at?_ne_ofDefinition {t u : Tree} {path : Path} (h : Reaches t path u) {before : Path}
    (hbefore : before <+: path) (hne : before ≠ path) (d : Definition) :
    t.at? before ≠ some (ofDefinition d) := by
  induction h generalizing before with
  | here => exact absurd (List.prefix_nil.mp hbefore) hne
  | @step t child u i path hopen hslot _ ih =>
    intro hat
    cases before with
    | nil =>
      cases hat
      cases hopen
    | cons j before =>
      obtain ⟨rfl, hrest⟩ := List.cons_prefix_cons.mp hbefore
      obtain ⟨_, hslot', hat⟩ := at?_cons.mp hat
      obtain rfl : child = _ := Option.some.inj (hslot.symm.trans hslot')
      exact ih hrest (fun heq => hne (heq ▸ rfl)) hat

/-- A function that stands on the way from another one to a place in it hides the place from
that one. -/
theorem home_eq_of_length_le {t u : Tree} {d d' : Definition} {home home' path path' : Path}
    (hd : t.at? home = some (ofDefinition d)) (hd' : t.at? home' = some (ofDefinition d'))
    (h : Reaches d.body path u) (heq : home ++ 0 :: path = home' ++ 0 :: path')
    (hle : home.length ≤ home'.length) : home = home' := by
  have hprefix : home <+: home' :=
    List.prefix_of_prefix_length_le (List.prefix_append home (0 :: path))
      (heq ▸ List.prefix_append home' (0 :: path')) hle
  obtain ⟨rest, rfl⟩ := hprefix
  rw [List.append_assoc, List.append_cancel_left_eq] at heq
  cases rest with
  | nil => rw [List.append_nil]
  | cons i rest =>
    obtain ⟨rfl, hpath⟩ : 0 = i ∧ path = rest ++ 0 :: path' := List.cons.inj heq
    rw [at?_append, hd] at hd'
    have hinside : d.body.at? rest = some (ofDefinition d') := hd'
    have hne : rest ≠ path := by
      intro hrest
      have hlength := congrArg List.length (hrest.trans hpath)
      rw [List.length_append, List.length_cons] at hlength
      omega
    have hbefore : rest <+: path := hpath ▸ List.prefix_append rest (0 :: path')
    exact absurd hinside (h.at?_ne_ofDefinition hbefore hne d')

/-- Two functions from whose bodies the same place is reached are at the same place. -/
theorem home_unique {t u u' : Tree} {d d' : Definition} {home home' path path' : Path}
    (hd : t.at? home = some (ofDefinition d)) (hd' : t.at? home' = some (ofDefinition d'))
    (h : Reaches d.body path u) (h' : Reaches d'.body path' u')
    (heq : home ++ 0 :: path = home' ++ 0 :: path') : home = home' := by
  rcases Nat.le_total home.length home'.length with hle | hle
  · exact home_eq_of_length_le hd hd' h heq hle
  · exact (home_eq_of_length_le hd' hd h' heq.symm hle).symm

end Reaches

/-! ## Terminal positions with their places -/

mutual

/-- The terminal positions of a body and their places in it. -/
def terminalSpots : Tree → List Spot
  | .missing | .foreign _ => []
  | .block [] span => [⟨[], .block [] span⟩]
  | .block statements _ => lastTerminalSpots 0 statements
  | .conditional condition consequent alternative span =>
    (if alternative.isMissing then [⟨[], .conditional condition consequent alternative span⟩]
      else [])
      ++ consequent.terminalSpots.map (Spot.under 1) ++ alternative.terminalSpots.map (Spot.under 2)
  | t => [⟨[], t⟩]

/-- The terminal positions of the last statement of a row; the first statement stands at
position `i`. -/
def lastTerminalSpots (i : Nat) : List Tree → List Spot
  | [] => []
  | [last] => last.terminalSpots.map (Spot.under i)
  | _ :: next :: rest => lastTerminalSpots (i + 1) (next :: rest)

end

theorem map_node_map_under (i : Nat) (spots : List Spot) :
    (spots.map (Spot.under i)).map Spot.node = spots.map Spot.node := by
  rw [List.map_map]
  rfl

mutual

/-- Without their places, they are the terminal positions that the finder lists. -/
theorem map_node_terminalSpots : ∀ body : Tree, body.terminalSpots.map Spot.node = body.terminals
  | .missing => rfl
  | .foreign _ => rfl
  | .block [] _ => rfl
  | .block (first :: rest) _ => map_node_lastTerminalSpots 0 (first :: rest)
  | .conditional condition consequent alternative span => by
    rw [terminalSpots, terminals, List.map_append, List.map_append, map_node_map_under,
      map_node_map_under, map_node_terminalSpots consequent, map_node_terminalSpots alternative]
    cases alternative.isMissing with
    | false => rfl
    | true => rfl
  | .call _ _ _ => rfl
  | .pipe _ _ _ _ => rfl
  | .expr _ _ _ => rfl
  | .function _ _ _ _ _ => rfl

theorem map_node_lastTerminalSpots (i : Nat) :
    ∀ statements : List Tree,
      (lastTerminalSpots i statements).map Spot.node = lastTerminals statements
  | [] => rfl
  | [last] => by
    rw [lastTerminalSpots, map_node_map_under, map_node_terminalSpots last]
    rfl
  | _ :: next :: rest => map_node_lastTerminalSpots (i + 1) (next :: rest)

end

mutual

/-- A terminal position is reached without entering a function. -/
theorem reaches_of_mem_terminalSpots {s : Spot} :
    ∀ {body : Tree}, s ∈ body.terminalSpots → Reaches body s.path s.node
  | .missing, h => absurd h List.not_mem_nil
  | .foreign _, h => absurd h List.not_mem_nil
  | .block [] span, h => by
    rw [List.mem_singleton.mp h]
    exact .here _
  | .block (first :: rest) span, h =>
    reaches_of_mem_lastTerminalSpots (first :: rest) (.block (first :: rest) span) rfl
      (fun k => by rw [Nat.zero_add]; rfl) h
  | .conditional condition consequent alternative span, h => by
    rw [terminalSpots] at h
    rcases List.mem_append.mp h with h | h
    · rcases List.mem_append.mp h with h | h
      · split at h
        · rw [List.mem_singleton.mp h]
          exact .here _
        · exact absurd h List.not_mem_nil
      · obtain ⟨below, hbelow, rfl⟩ := List.mem_map.mp h
        exact .step rfl rfl (reaches_of_mem_terminalSpots hbelow)
    · obtain ⟨below, hbelow, rfl⟩ := List.mem_map.mp h
      exact .step rfl rfl (reaches_of_mem_terminalSpots hbelow)
  | .call _ _ _, h => by
    rw [List.mem_singleton.mp h]
    exact .here _
  | .pipe _ _ _ _, h => by
    rw [List.mem_singleton.mp h]
    exact .here _
  | .expr _ _ _, h => by
    rw [List.mem_singleton.mp h]
    exact .here _
  | .function _ _ _ _ _, h => by
    rw [List.mem_singleton.mp h]
    exact .here _

/-- The same for a row, if it is the end of the children of a node that is no function. -/
theorem reaches_of_mem_lastTerminalSpots {s : Spot} {i : Nat} :
    ∀ (statements : List Tree) (t : Tree), t.definition? = none →
      (∀ k, t.slots[i + k]? = statements[k]?) → s ∈ lastTerminalSpots i statements →
      Reaches t s.path s.node
  | [], _, _, _, h => absurd h List.not_mem_nil
  | [last], _, hopen, hslots, h => by
    obtain ⟨below, hbelow, rfl⟩ := List.mem_map.mp h
    exact .step hopen (hslots 0) (reaches_of_mem_terminalSpots hbelow)
  | _ :: next :: rest, t, hopen, hslots, h => by
    refine reaches_of_mem_lastTerminalSpots (next :: rest) t hopen (fun k => ?_) h
    rw [Nat.add_assoc, Nat.add_comm 1 k]
    exact hslots (k + 1)

end

/-! ## The place of the call that decides -/

/-- The way from a chain of pipes to its last stage. -/
def finalStagePath : Tree → Path
  | .pipe _ stage _ _ => 1 :: finalStagePath stage
  | _ => []

/-- The way from a statement to the node whose call decides about it. -/
def callTargetPath (t : Tree) : Path :=
  if t.isPipe then t.finalStagePath
  else
    match t.assignment? with
    | some a =>
      if a.value.isPipe then (if a.arrow.pointsRight then 0 else 1) :: a.value.finalStagePath
      else []
    | none => []

theorem reaches_finalStage : ∀ t : Tree, Reaches t t.finalStagePath t.finalStage
  | .pipe _ stage _ _ => .step rfl rfl (reaches_finalStage stage)
  | .missing => .here _
  | .foreign _ => .here _
  | .block _ _ => .here _
  | .conditional _ _ _ _ => .here _
  | .call _ _ _ => .here _
  | .expr _ _ _ => .here _
  | .function _ _ _ _ _ => .here _

/-- The value of an assignment is its first operand or its second, as the arrow points. -/
theorem slots_of_assignment? {t : Tree} {a : Assignment} (h : t.assignment? = some a) :
    t.definition? = none ∧ t.slots[if a.arrow.pointsRight then 0 else 1]? = some a.value := by
  obtain ⟨span, rfl⟩ := eq_expr_of_assignment? h
  refine ⟨rfl, ?_⟩
  unfold Assignment.value
  cases a.arrow.pointsRight with
  | false => rfl
  | true => rfl

/-- The node whose call decides is reached without entering a function. -/
theorem reaches_callTarget (t : Tree) : Reaches t t.callTargetPath t.callTarget := by
  unfold callTargetPath callTarget pipeOperand?
  cases hpipe : t.isPipe with
  | true => exact reaches_finalStage t
  | false =>
    rw [if_neg Bool.false_ne_true, if_neg Bool.false_ne_true]
    cases ha : t.assignment? with
    | none => exact .here t
    | some a =>
      obtain ⟨hopen, hslot⟩ := slots_of_assignment? ha
      cases hvalue : a.value.isPipe with
      | false =>
        simp only [Option.bind_some, hvalue, Bool.false_eq_true, if_false]
        exact .here t
      | true =>
        simp only [Option.bind_some, hvalue, if_true]
        exact .step hopen hslot (reaches_finalStage a.value)

end Tree

/-! ## The place of a finding -/

/-- The way from a terminal position to the node that a finding there is about: the position
itself if something is missing there, and the call if the call is one too many. -/
def Finding.offset (position : Tree) (f : Finding) : Path :=
  match f.rule with
  | .explicitReturnMissing | .implicitElse => []
  | .explicitReturnNotNeeded | .pipeReturn => position.callTargetPath

namespace Terminal

/-- The findings on style are at most one, which is about the position or about the call. -/
theorem styleFindings_cases (policy : Policy) (t : Terminal) :
    styleFindings policy t = [] ∨ styleFindings policy t = [⟨.explicitReturnMissing, t.node⟩]
      ∨ styleFindings policy t = [⟨.explicitReturnNotNeeded, t.node.callTarget⟩]
      ∨ styleFindings policy t = [⟨.pipeReturn, t.node.callTarget⟩] := by
  unfold styleFindings
  split
  · exact Or.inl rfl
  · dsimp only
    split
    · split
      · exact Or.inl rfl
      · cases t.node.endsInPipe with
        | false => exact Or.inr (Or.inr (Or.inl rfl))
        | true => exact Or.inr (Or.inr (Or.inr rfl))
    · split
      · exact Or.inl rfl
      · exact Or.inr (Or.inl rfl)

/-- There is at most one finding at a position, at a conditional it is about the conditional,
and anyhow it is about the node that its offset leads to. -/
theorem findings_cases (policy : Policy) (node : Tree) (flag : Bool) :
    findings policy ⟨node, flag⟩ = []
      ∨ ∃ f, findings policy ⟨node, flag⟩ = [f] ∧ Tree.Reaches node (f.offset node) f.node
        ∧ (node.isConditional = true → f.offset node = []) := by
  cases hnode : node.isConditional with
  | true =>
    rw [findings_conditional flag hnode]
    split
    · exact Or.inr ⟨_, rfl, .here node, fun _ => rfl⟩
    · exact Or.inl rfl
  | false =>
    rw [findings_of_not_conditional flag hnode]
    rcases styleFindings_cases policy ⟨node, flag⟩ with h | h | h | h
    · exact Or.inl h
    · exact Or.inr ⟨_, h, .here node, nofun⟩
    · exact Or.inr ⟨_, h, Tree.reaches_callTarget node, nofun⟩
    · exact Or.inr ⟨_, h, Tree.reaches_callTarget node, nofun⟩

end Terminal

/-! ## No place twice in a body -/

/-- The places at some distances below a spot. -/
def Spot.extended (offsets : Tree → List Path) (s : Spot) : List Path :=
  (offsets s.node).map (s.path ++ ·)

theorem flatMap_extended_under (offsets : Tree → List Path) (i : Nat) (spots : List Spot) :
    (spots.map (Spot.under i)).flatMap (Spot.extended offsets)
      = (spots.flatMap (Spot.extended offsets)).map (i :: ·) := by
  rw [List.flatMap_map, List.map_flatMap]
  refine List.flatMap_congr fun s _ => ?_
  rw [Spot.extended, Spot.extended, List.map_map]
  rfl

theorem Spot.nodup_map_cons {places : List Path} (i : Nat) (h : places.Nodup) :
    (places.map (i :: ·)).Nodup :=
  h.map List.cons_injective

theorem Spot.extended_root (offsets : Tree → List Path) (t : Tree) :
    [(⟨[], t⟩ : Spot)].flatMap (Spot.extended offsets) = offsets t := by
  rw [List.flatMap_singleton, Spot.extended]
  exact List.map_id _

/-- Whether the distances below a node are all different, and a conditional has only itself. -/
structure Separated (offsets : Tree → List Path) : Prop where
  nodup : ∀ t, (offsets t).Nodup
  root : ∀ t, t.isConditional = true → ∀ path ∈ offsets t, path = []

namespace Tree

mutual

/-- No place is at such a distance below two terminal positions of a body. -/
theorem nodup_extended_terminalSpots {offsets : Tree → List Path} (h : Separated offsets) :
    ∀ body : Tree, (body.terminalSpots.flatMap (Spot.extended offsets)).Nodup
  | .missing => List.nodup_nil
  | .foreign _ => List.nodup_nil
  | .block [] span => by
    rw [terminalSpots, Spot.extended_root]
    exact h.nodup _
  | .block (first :: rest) _ => nodup_extended_lastTerminalSpots h 0 (first :: rest)
  | .conditional condition consequent alternative span => by
    have hfirst := Spot.nodup_map_cons 1 (nodup_extended_terminalSpots h consequent)
    have hsecond := Spot.nodup_map_cons 2 (nodup_extended_terminalSpots h alternative)
    rw [terminalSpots, List.flatMap_append, List.flatMap_append, flatMap_extended_under,
      flatMap_extended_under]
    generalize consequent.terminalSpots.flatMap (Spot.extended offsets) = places at hfirst ⊢
    generalize alternative.terminalSpots.flatMap (Spot.extended offsets) = places' at hsecond ⊢
    generalize hown : (if alternative.isMissing then
      [(⟨[], .conditional condition consequent alternative span⟩ : Spot)] else []) = own
    obtain ⟨hnodup, hnil⟩ : (own.flatMap (Spot.extended offsets)).Nodup
        ∧ ∀ path ∈ own.flatMap (Spot.extended offsets), path = [] := by
      rw [← hown]
      split
      · rw [Spot.extended_root]
        exact ⟨h.nodup _, h.root _ rfl⟩
      · exact ⟨List.nodup_nil, fun path hpath => absurd hpath List.not_mem_nil⟩
    -- the three parts differ in how their places begin
    refine List.Nodup.append (List.Nodup.append hnodup hfirst ?_) hsecond ?_
    · intro path hpath hbelow
      obtain ⟨_, -, rfl⟩ := List.mem_map.mp hbelow
      cases hnil _ hpath
    · intro path hpath hbelow
      obtain ⟨_, -, rfl⟩ := List.mem_map.mp hbelow
      rcases List.mem_append.mp hpath with hpath | hpath
      · cases hnil _ hpath
      · obtain ⟨_, -, heq⟩ := List.mem_map.mp hpath
        cases heq
  | .call callee arguments span => by
    show ([⟨[], .call callee arguments span⟩].flatMap (Spot.extended offsets)).Nodup
    rw [Spot.extended_root]
    exact h.nodup _
  | .pipe source stage operator span => by
    show ([⟨[], .pipe source stage operator span⟩].flatMap (Spot.extended offsets)).Nodup
    rw [Spot.extended_root]
    exact h.nodup _
  | .expr text operands span => by
    show ([⟨[], .expr text operands span⟩].flatMap (Spot.extended offsets)).Nodup
    rw [Spot.extended_root]
    exact h.nodup _
  | .function parameters body name isLambda span => by
    show ([⟨[], .function parameters body name isLambda span⟩].flatMap
      (Spot.extended offsets)).Nodup
    rw [Spot.extended_root]
    exact h.nodup _

theorem nodup_extended_lastTerminalSpots {offsets : Tree → List Path} (h : Separated offsets)
    (i : Nat) :
    ∀ statements : List Tree,
      ((lastTerminalSpots i statements).flatMap (Spot.extended offsets)).Nodup
  | [] => List.nodup_nil
  | [last] => by
    rw [lastTerminalSpots, flatMap_extended_under]
    exact Spot.nodup_map_cons i (nodup_extended_terminalSpots h last)
  | _ :: next :: rest => nodup_extended_lastTerminalSpots h (i + 1) (next :: rest)

end

end Tree

/-! ## Reports -/

/-- A finding and where it belongs. -/
structure Report where
  /-- The place of the function it is reported for. -/
  home : Path
  /-- The name of that function. -/
  name : Option String
  /-- The place of the node it is about. -/
  place : Path
  finding : Finding

/-- The diagnostic of a report. -/
def Report.diagnostic? (file : String) (r : Report) : Option Diagnostic :=
  r.finding.diagnostic? ⟨file, r.name⟩

/-- The reports on one function, which stands at `home`: its findings in their order, each at
its distance from the terminal position where it is found.  The body of a function is its child
at position zero. -/
def Definition.reports (policy : Policy) (home : Path) (d : Definition) : List Report :=
  if Terminal.isSkipped policy d then []
  else
    d.body.terminalSpots.flatMap fun s =>
      (Terminal.findings policy ⟨s.node, !policy.allowImplicitElse⟩).map fun f =>
        ⟨home, d.name, home ++ 0 :: (s.path ++ f.offset s.node), f⟩

/-- The reports on all functions in a tree. -/
def Tree.reports (policy : Policy) (t : Tree) : List Report :=
  t.spots.flatMap fun s => s.node.definition?.elim [] (Definition.reports policy s.path)

namespace Definition

/-- The reports on a function are its findings. -/
theorem map_finding_reports (policy : Policy) (home : Path) (d : Definition) :
    (d.reports policy home).map Report.finding = d.findings policy := by
  unfold reports findings Terminal.ofDefinition
  split
  · rfl
  · rw [Terminal.find, ← Tree.map_node_terminalSpots, List.map_flatMap, List.map_map,
      List.flatMap_map]
    refine List.flatMap_congr fun s _ => ?_
    rw [List.map_map]
    exact List.map_id _

/-- The diagnostics of the reports on a function are its diagnostics. -/
theorem map_diagnostic?_reports (policy : Policy) (file : String) (home : Path) (d : Definition) :
    (d.reports policy home).map (Report.diagnostic? file) = (d.lint policy file).map some := by
  have hname : ∀ r ∈ d.reports policy home,
      r.diagnostic? file = r.finding.diagnostic? ⟨file, d.name⟩ := by
    intro r hr
    unfold reports at hr
    split at hr
    · exact absurd hr List.not_mem_nil
    · obtain ⟨s, -, hr⟩ := List.mem_flatMap.mp hr
      obtain ⟨f, -, rfl⟩ := List.mem_map.mp hr
      rfl
  rw [map_some_lint, ← map_finding_reports policy home, List.map_map]
  exact List.map_congr_left hname

/-- The distances of the findings at a terminal position are as they should be. -/
theorem separated_offsets (policy : Policy) (flag : Bool) :
    Separated fun node => (Terminal.findings policy ⟨node, flag⟩).map (Finding.offset node) := by
  refine ⟨fun node => ?_, fun node hnode path hpath => ?_⟩
  · rcases Terminal.findings_cases policy node flag with h | ⟨f, h, -, -⟩
    · rw [h]
      exact List.nodup_nil
    · rw [h]
      exact List.nodup_singleton _
  · rcases Terminal.findings_cases policy node flag with h | ⟨f, h, -, hroot⟩
    · rw [h] at hpath
      exact absurd hpath List.not_mem_nil
    · rw [h] at hpath
      rw [List.mem_singleton.mp hpath]
      exact hroot hnode

/-- No place in a function is reported twice. -/
theorem nodup_place_reports (policy : Policy) (home : Path) (d : Definition) :
    ((d.reports policy home).map Report.place).Nodup := by
  unfold reports
  split
  · exact List.nodup_nil
  · have hbody := Tree.nodup_extended_terminalSpots
      (separated_offsets policy !policy.allowImplicitElse) d.body
    have hinjective : Function.Injective (home ++ 0 :: · : Path → Path) := by
      intro path path' heq
      exact List.cons_injective (List.append_cancel_left heq)
    have hplaces := hbody.map hinjective
    rw [List.map_flatMap] at hplaces ⊢
    convert hplaces using 2
    funext s
    rw [Spot.extended, List.map_map, List.map_map, List.map_map]
    rfl

/-- What is reported of a function is reached from its body. -/
theorem reaches_of_mem_reports {policy : Policy} {home : Path} {d : Definition} {r : Report}
    (h : r ∈ d.reports policy home) :
    r.home = home ∧ r.name = d.name
      ∧ ∃ path, r.place = home ++ 0 :: path ∧ Tree.Reaches d.body path r.finding.node := by
  unfold reports at h
  split at h
  · exact absurd h List.not_mem_nil
  · obtain ⟨s, hs, h⟩ := List.mem_flatMap.mp h
    obtain ⟨f, hf, rfl⟩ := List.mem_map.mp h
    refine ⟨rfl, rfl, _, rfl, (Tree.reaches_of_mem_terminalSpots hs).trans ?_⟩
    rcases Terminal.findings_cases policy s.node !policy.allowImplicitElse with
      hnone | ⟨g, hone, hreaches, -⟩
    · rw [hnone] at hf
      exact absurd hf List.not_mem_nil
    · rw [hone] at hf
      rw [List.mem_singleton.mp hf]
      exact hreaches

end Definition

namespace Tree

/-- A report on a tree is a report on a function that stands in the tree. -/
theorem exists_of_mem_reports {policy : Policy} {t : Tree} {s : Spot} {r : Report}
    (hs : s ∈ t.spots)
    (h : r ∈ s.node.definition?.elim [] (Definition.reports policy s.path)) :
    ∃ d path, t.at? s.path = some (ofDefinition d) ∧ r.home = s.path ∧ r.name = d.name
      ∧ r.place = s.path ++ 0 :: path ∧ Reaches d.body path r.finding.node := by
  cases hd : s.node.definition? with
  | none =>
    rw [hd] at h
    exact absurd h List.not_mem_nil
  | some d =>
    rw [hd] at h
    obtain ⟨hhome, hname, path, hplace, hreaches⟩ := Definition.reaches_of_mem_reports h
    exact ⟨d, path, eq_ofDefinition hd ▸ at?_of_mem_spots hs, hhome, hname, hplace, hreaches⟩

/-- The diagnostics of the reports on a tree are its diagnostics. -/
theorem map_diagnostic?_reports (policy : Policy) (file : String) (t : Tree) :
    (t.reports policy).map (Report.diagnostic? file) = (t.lint policy file).map some := by
  unfold lint reports
  rw [definitions_eq, preorder_eq_map_spots, List.map_flatMap, List.map_flatMap]
  induction t.spots with
  | nil => rfl
  | cons s rest ih =>
    rw [List.flatMap_cons, ih, List.map_cons]
    cases hd : s.node.definition? with
    | none =>
      rw [List.filterMap_cons_none hd]
      rfl
    | some d =>
      rw [List.filterMap_cons_some hd, List.flatMap_cons]
      congr 1
      exact Definition.map_diagnostic?_reports policy file s.path d

/-- No place in a tree is reported twice. -/
theorem nodup_place_reports (policy : Policy) (t : Tree) :
    ((t.reports policy).map Report.place).Nodup := by
  unfold reports
  rw [List.map_flatMap]
  refine List.nodup_flatMap.mpr ⟨fun s _ => ?_, ?_⟩
  · cases s.node.definition? with
    | none => exact List.nodup_nil
    | some d => exact Definition.nodup_place_reports policy s.path d
  · have hpaths : t.spots.Pairwise (fun s s' => s.path ≠ s'.path) :=
      List.pairwise_map.mp (nodup_path_spots t)
    refine hpaths.imp_of_mem fun {s s'} hs hs' hne place hplace hplace' => hne ?_
    obtain ⟨r, hr, hrplace⟩ := List.mem_map.mp hplace
    obtain ⟨r', hr', hrplace'⟩ := List.mem_map.mp hplace'
    obtain ⟨d, path, hd, -, -, heq, hreaches⟩ := exists_of_mem_reports hs hr
    obtain ⟨d', path', hd', -, -, heq', hreaches'⟩ := exists_of_mem_reports hs' hr'
    refine hreaches.home_unique hd hd' hreaches' ?_
    rw [← heq, ← heq', hrplace, hrplace']

/-- The diagnostics of a tree are at different places, and each of them is at a place in the
body of the function that it is reported for, with no other function between the two. -/
theorem reports_distinct (policy : Policy) (file : String) (t : Tree) :
    (t.reports policy).map (Report.diagnostic? file) = (t.lint policy file).map some
      ∧ ((t.reports policy).map Report.place).Nodup
      ∧ ∀ r ∈ t.reports policy, ∃ d path,
          t.at? r.home = some (ofDefinition d) ∧ r.name = d.name
            ∧ r.place = r.home ++ 0 :: path ∧ t.at? r.place = some r.finding.node
            ∧ ∀ before, before <+: path → before ≠ path →
                ∀ inner, d.body.at? before ≠ some (ofDefinition inner) := by
  refine ⟨map_diagnostic?_reports policy file t, nodup_place_reports policy t, fun r hr => ?_⟩
  obtain ⟨s, hs, hr⟩ := List.mem_flatMap.mp hr
  obtain ⟨d, path, hd, hhome, hname, hplace, hreaches⟩ := exists_of_mem_reports hs hr
  rw [hhome]
  refine ⟨d, path, hd, hname, hplace, ?_, fun before => hreaches.at?_ne_ofDefinition⟩
  rw [hplace, at?_append, hd]
  exact hreaches.at?

end Tree

end TailLint
