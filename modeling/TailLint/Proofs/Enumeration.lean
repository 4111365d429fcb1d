import TailLint.Proofs.Reports

/-!
# The finder lists the exits, in order

`Proofs.Exit` says of each terminal node that the body can be left there.  A node is a value, and
the same value may stand in several places of a body, so this does not yet say *where* the body is
left, nor that no exit is listed twice.  Here the same is said of places.

The place at which a body is left under an oracle is described by the ways in which that can happen
(`Tree.LeavesAt`), one constructor a way and nothing about how it is computed.  A body that is no
node, or a branch that is missing where it is taken, is left nowhere: no constructor applies.

The oracle is asked for every conditional by its place.  That is what makes the choices independent,
and it is needed for one direction only: to leave at a given terminal position, the conditionals
above it have to go the right way, and no two of them are the same one.

* `Tree.LeavesAt.exit_eq` --- what stands at the place is where `exit` leaves;
* `Tree.mem_terminalPaths_iff` --- the recorded places are those at which the body can be left;
* `Tree.LeavesAt.tailWay` --- on the way there only last statements and branches are entered;
* `Tree.terminalSpots_sublist` --- they are recorded as the walk meets them, and the walk meets
  every place once.
-/

namespace TailLint.Tree

/-! ## Last statements -/

/-- Whatever passes over a row of statements, counting them, until one is left, comes to the last
one with the number of those before it. -/
theorem concat_of_passes {α : Type} {f : Nat → List Tree → α}
    (hpass : ∀ i first next rest, f i (first :: next :: rest) = f (i + 1) (next :: rest))
    (before : List Tree) (last : Tree) (i : Nat) :
    f i (before ++ [last]) = f (i + before.length) [last] := by
  induction before generalizing i with
  | nil => rfl
  | cons first rest ih =>
    have hstep : f i (first :: rest ++ [last]) = f (i + 1) (rest ++ [last]) := by
      cases rest with
      | nil => exact hpass i first last []
      | cons next rest => exact hpass i first next (rest ++ [last])
    have hcount : i + 1 + rest.length = i + (first :: rest).length := by
      rw [List.length_cons]
      omega
    rw [hstep, ih, hcount]

/-- A block that is not empty has the terminal positions of its last statement. -/
theorem terminalSpots_block (before : List Tree) (last : Tree) (span : Span) :
    (Tree.block (before ++ [last]) span).terminalSpots
      = last.terminalSpots.map (Spot.under before.length) := by
  have hrow : (Tree.block (before ++ [last]) span).terminalSpots
      = lastTerminalSpots 0 (before ++ [last]) := by
    cases before with
    | nil => rfl
    | cons => rfl
  rw [hrow, concat_of_passes (f := lastTerminalSpots) fun _ _ _ _ => rfl, Nat.zero_add]
  rfl

/-- A block that is not empty is left where its last statement is. -/
theorem exit_block (oracle : Oracle) (before : List Tree) (last : Tree) (span : Span) :
    (Tree.block (before ++ [last]) span).exit oracle = last.exit (oracle.below before.length) := by
  have hrow : (Tree.block (before ++ [last]) span).exit oracle
      = exitLast oracle 0 (before ++ [last]) := by
    cases before with
    | nil => rfl
    | cons => rfl
  rw [hrow, concat_of_passes (f := exitLast oracle) fun _ _ _ _ => rfl, Nat.zero_add]
  rfl

/-! ## Where a body is left -/

/-- Under an oracle a body is left at a place.  A block that is not empty is left in its last
statement, a conditional in the branch that the oracle takes, or at itself if that is an `else`
which is not there, and everything else where it stands. -/
inductive LeavesAt : Oracle → Tree → Path → Prop
  | block (before : List Tree) (span : Span) {oracle : Oracle} {last : Tree} {path : Path}
      (hlast : LeavesAt (oracle.below before.length) last path) :
      LeavesAt oracle (.block (before ++ [last]) span) (before.length :: path)
  | emptyBlock (oracle : Oracle) (span : Span) : LeavesAt oracle (.block [] span) []
  | consequent (condition alternative : Tree) (span : Span) {oracle : Oracle} {consequent : Tree}
      {path : Path} (htrue : oracle [] = true) (hbranch : LeavesAt (oracle.below 1) consequent path) :
      LeavesAt oracle (.conditional condition consequent alternative span) (1 :: path)
  | alternative (condition consequent : Tree) (span : Span) {oracle : Oracle} {alternative : Tree}
      {path : Path} (hfalse : oracle [] = false)
      (hbranch : LeavesAt (oracle.below 2) alternative path) :
      LeavesAt oracle (.conditional condition consequent alternative span) (2 :: path)
  | noAlternative (condition consequent : Tree) (span : Span) {oracle : Oracle}
      (hfalse : oracle [] = false) :
      LeavesAt oracle (.conditional condition consequent .missing span) []
  | call (oracle : Oracle) (callee : String) (arguments : List Tree) (span : Span) :
      LeavesAt oracle (.call callee arguments span) []
  | pipe (oracle : Oracle) (source stage : Tree) (operator : String) (span : Span) :
      LeavesAt oracle (.pipe source stage operator span) []
  | expr (oracle : Oracle) (text : String) (operands : List Tree) (span : Span) :
      LeavesAt oracle (.expr text operands span) []
  | function (oracle : Oracle) (parameters : List String) (body : Tree) (name : Option String)
      (isLambda : Bool) (span : Span) :
      LeavesAt oracle (.function parameters body name isLambda span) []

/-- Whether a position of a node is one that the value of the node can come from: the last
statement of a block, or a branch of a conditional. -/
def TailSlot (t : Tree) (i : Nat) : Prop :=
  match t with
  | .block statements _ => i + 1 = statements.length
  | .conditional .. => i = 1 ∨ i = 2
  | _ => False

/-- Whether a path goes through such positions only. -/
def TailWay (t : Tree) (path : Path) : Prop :=
  ∀ above i below, path = above ++ i :: below → ∃ u, t.at? above = some u ∧ u.TailSlot i

theorem tailWay_nil (t : Tree) : t.TailWay [] := by
  intro above i below hpath
  exact absurd hpath (by simp)

theorem TailWay.cons {t child : Tree} {i : Nat} {path : Path} (hslot : t.slots[i]? = some child)
    (htail : t.TailSlot i) (h : child.TailWay path) : t.TailWay (i :: path) := by
  intro above j below hpath
  cases above with
  | nil =>
    obtain ⟨rfl, -⟩ := List.cons.inj hpath
    exact ⟨t, rfl, htail⟩
  | cons k above =>
    obtain ⟨rfl, hrest⟩ : i = k ∧ path = above ++ j :: below := List.cons.inj hpath
    obtain ⟨u, hu, hlower⟩ := h above j below hrest
    exact ⟨u, at?_cons.mpr ⟨child, hslot, hu⟩, hlower⟩

theorem slots_block_last (before : List Tree) (last : Tree) (span : Span) :
    (Tree.block (before ++ [last]) span).slots[before.length]? = some last :=
  List.getElem?_concat_length

theorem tailSlot_block_last (before : List Tree) (last : Tree) (span : Span) :
    (Tree.block (before ++ [last]) span).TailSlot before.length := by
  show before.length + 1 = (before ++ [last]).length
  rw [List.length_append, List.length_singleton]

namespace LeavesAt

/-- What is left somewhere is there. -/
theorem isMissing {oracle : Oracle} {body : Tree} {path : Path} (h : LeavesAt oracle body path) :
    body.isMissing = false := by
  cases h <;> rfl

/-- The node at which a body is left stands at the place at which it is left. -/
theorem exit_eq {oracle : Oracle} {body : Tree} {path : Path} (h : LeavesAt oracle body path) :
    body.exit oracle = body.at? path := by
  induction h with
  | block before span _ ih =>
    rw [exit_block, at?, slots_block_last, ih]
    rfl
  | consequent condition alternative span htrue _ ih =>
    rw [exit, if_pos htrue, ih]
    rfl
  | alternative condition consequent span hfalse hbranch ih =>
    have hfalse' : ¬ _ = true := Bool.eq_false_iff.mp hfalse
    rw [exit, if_neg hfalse', if_neg (Bool.eq_false_iff.mp hbranch.isMissing), ih]
    rfl
  | noAlternative condition consequent span hfalse =>
    rw [exit, if_neg (Bool.eq_false_iff.mp hfalse)]
    rfl
  | emptyBlock => rfl
  | call => rfl
  | pipe => rfl
  | expr => rfl
  | function => rfl

/-- The place at which a body is left is recorded. -/
theorem mem {oracle : Oracle} {body : Tree} {path : Path} (h : LeavesAt oracle body path) :
    path ∈ body.terminalSpots.map Spot.path := by
  have hunder {i : Nat} {rest : Path} {spots : List Spot} (hrest : rest ∈ spots.map Spot.path) :
      i :: rest ∈ (spots.map (Spot.under i)).map Spot.path := by
    obtain ⟨s, hs, rfl⟩ := List.mem_map.mp hrest
    exact List.mem_map.mpr ⟨s.under i, List.mem_map_of_mem hs, rfl⟩
  induction h with
  | block before span _ ih =>
    rw [terminalSpots_block]
    exact hunder ih
  | consequent condition alternative span _ _ ih =>
    rw [terminalSpots, List.map_append, List.map_append]
    exact List.mem_append_left _ (List.mem_append_right _ (hunder ih))
  | alternative condition consequent span _ _ ih =>
    rw [terminalSpots, List.map_append]
    exact List.mem_append_right _ (hunder ih)
  | noAlternative condition consequent span _ => exact List.mem_cons_self
  | emptyBlock => exact List.mem_cons_self
  | call => exact List.mem_cons_self
  | pipe => exact List.mem_cons_self
  | expr => exact List.mem_cons_self
  | function => exact List.mem_cons_self

/-- On the way to the place at which a body is left, only last statements and branches are
entered. -/
theorem tailWay {oracle : Oracle} {body : Tree} {path : Path} (h : LeavesAt oracle body path) :
    body.TailWay path := by
  induction h with
  | block before span _ ih =>
    exact .cons (slots_block_last before _ span) (tailSlot_block_last before _ span) ih
  | consequent condition alternative span _ _ ih => exact .cons rfl (Or.inl rfl) ih
  | alternative condition consequent span _ _ ih => exact .cons rfl (Or.inr rfl) ih
  | noAlternative => exact tailWay_nil _
  | emptyBlock => exact tailWay_nil _
  | call => exact tailWay_nil _
  | pipe => exact tailWay_nil _
  | expr => exact tailWay_nil _
  | function => exact tailWay_nil _

end LeavesAt

/-- Some oracle leads to each recorded place. -/
theorem exists_leavesAt {body : Tree} {s : Spot} (h : s ∈ body.terminalSpots) :
    ∃ oracle, LeavesAt oracle body s.path := by
  induction body using induction_on_slots generalizing s with
  | step body ih =>
    cases body with
    | missing => exact absurd h List.not_mem_nil
    | foreign => exact absurd h List.not_mem_nil
    | block statements span =>
      rcases List.eq_nil_or_concat' statements with rfl | ⟨before, last, rfl⟩
      · rw [List.mem_singleton.mp h]
        exact ⟨fun _ => true, .emptyBlock _ span⟩
      · rw [terminalSpots_block] at h
        obtain ⟨inner, hinner, rfl⟩ := List.mem_map.mp h
        obtain ⟨oracle, hleaves⟩ := ih last List.mem_concat_self hinner
        exact ⟨.rooted true oracle, .block before span hleaves⟩
    | conditional condition consequent alternative span =>
      rw [terminalSpots] at h
      rcases List.mem_append.mp h with h | h
      · rcases List.mem_append.mp h with h | h
        · split at h
          · next hmissing =>
            obtain rfl := eq_missing hmissing
            rw [List.mem_singleton.mp h]
            exact ⟨fun _ => false, .noAlternative condition consequent span rfl⟩
          · exact absurd h List.not_mem_nil
        · obtain ⟨inner, hinner, rfl⟩ := List.mem_map.mp h
          obtain ⟨oracle, hleaves⟩ := ih consequent (by simp [slots]) hinner
          exact ⟨.rooted true oracle, .consequent condition alternative span rfl hleaves⟩
      · obtain ⟨inner, hinner, rfl⟩ := List.mem_map.mp h
        obtain ⟨oracle, hleaves⟩ := ih alternative (by simp [slots]) hinner
        exact ⟨.rooted false oracle, .alternative condition consequent span rfl hleaves⟩
    | call callee arguments span =>
      rw [List.mem_singleton.mp h]
      exact ⟨fun _ => true, .call _ callee arguments span⟩
    | pipe source stage operator span =>
      rw [List.mem_singleton.mp h]
      exact ⟨fun _ => true, .pipe _ source stage operator span⟩
    | expr text operands span =>
      rw [List.mem_singleton.mp h]
      exact ⟨fun _ => true, .expr _ text operands span⟩
    | function parameters body name isLambda span =>
      rw [List.mem_singleton.mp h]
      exact ⟨fun _ => true, .function _ parameters body name isLambda span⟩

/-- The recorded places are those at which the body can be left. -/
theorem mem_terminalPaths_iff {body : Tree} {path : Path} :
    path ∈ body.terminalSpots.map Spot.path ↔ ∃ oracle, LeavesAt oracle body path := by
  constructor
  · intro h
    obtain ⟨s, hs, rfl⟩ := List.mem_map.mp h
    exact exists_leavesAt hs
  · rintro ⟨oracle, hleaves⟩
    exact hleaves.mem

/-! ## The order of the record -/

/-- A branch whose terminal positions are in the order of the walk keeps them so below its
conditional.  The walk enters it only if it is there, and if it is not, nothing is recorded. -/
theorem terminalSpots_sublist_branch {branch : Tree} (i : Nat)
    (h : branch.terminalSpots.Sublist branch.spots) :
    (branch.terminalSpots.map (Spot.under i)).Sublist
      (([(branch, i)].filter (!·.1.isMissing)).flatMap fun visit =>
        visit.1.spots.map (Spot.under visit.2)) := by
  cases branch with
  | missing => exact List.Sublist.refl _
  | _ =>
    rw [List.filter_cons_of_pos rfl, List.filter_nil, List.flatMap_singleton]
    exact h.map _

/-- The terminal positions are recorded in the order in which the walk meets them. -/
theorem terminalSpots_sublist (body : Tree) : body.terminalSpots.Sublist body.spots := by
  induction body using induction_on_slots with
  | step body ih =>
    have hroot : [(⟨[], body⟩ : Spot)].Sublist body.spots := by
      rw [spots_eq]
      exact (List.nil_sublist _).cons_cons _
    cases body with
    | missing => exact List.nil_sublist _
    | foreign => exact List.nil_sublist _
    | block statements span =>
      rcases List.eq_nil_or_concat' statements with rfl | ⟨before, last, rfl⟩
      · exact hroot
      · have hlast : (last, before.length) ∈ (Tree.block (before ++ [last]) span).visits :=
          List.mk_mem_zipIdx_iff_getElem?.mpr (slots_block_last before last span)
        have hwalk := List.sublist_flatten_of_mem
          (List.mem_map_of_mem (f := fun v => v.1.spots.map (Spot.under v.2)) hlast)
        rw [terminalSpots_block, spots_eq, List.flatMap_def]
        exact (((ih last List.mem_concat_self).map _).trans hwalk).cons _
    | conditional condition consequent alternative span =>
      have hown : (if alternative.isMissing then
          [(⟨[], .conditional condition consequent alternative span⟩ : Spot)] else []).Sublist
            [⟨[], .conditional condition consequent alternative span⟩] := by
        split
        · exact List.Sublist.refl _
        · exact List.nil_sublist _
      have hfirst := terminalSpots_sublist_branch 1 (ih consequent (by simp [slots]))
      have hsecond := terminalSpots_sublist_branch 2 (ih alternative (by simp [slots]))
      -- what the walk meets in the condition is skipped
      have hvisits : (Tree.conditional condition consequent alternative span).visits
          = [(condition, 0)].filter (!·.1.isMissing) ++ ([(consequent, 1)].filter (!·.1.isMissing)
            ++ [(alternative, 2)].filter (!·.1.isMissing)) := by
        rw [← List.filter_append, ← List.filter_append]
        rfl
      rw [spots_eq, hvisits, List.flatMap_append, List.flatMap_append, terminalSpots,
        List.append_assoc]
      exact hown.append ((hfirst.append hsecond).trans (List.sublist_append_right _ _))
    | call => exact hroot
    | pipe => exact hroot
    | expr => exact hroot
    | function => exact hroot

/-! ## The record -/

/-- What the finder records of a body, all with the same flag, stands at the places at which the
body can be left, whichever way its conditionals go.  These are recorded in the order of the walk
over the body, which lists every place once, and the way to each of them goes through last
statements and branches only: never into a condition, an earlier statement, an argument, an
operand, a side of a pipe or the body of a function. -/
theorem find_lists_exits (checkElse : Bool) (body : Tree) :
    Terminal.find checkElse body = body.terminalSpots.map (fun s => ⟨s.node, checkElse⟩)
      ∧ (∀ path, path ∈ body.terminalSpots.map Spot.path ↔ ∃ oracle, LeavesAt oracle body path)
      ∧ (∀ oracle path, LeavesAt oracle body path → body.exit oracle = body.at? path)
      ∧ (body.terminalSpots.map Spot.path).Nodup
      ∧ body.terminalSpots.Sublist body.spots
      ∧ (body.spots.map Spot.path).Nodup ∧ body.spots.map Spot.node = body.preorder
      ∧ ∀ s ∈ body.terminalSpots, body.at? s.path = some s.node ∧ body.TailWay s.path := by
  have horder := terminalSpots_sublist body
  have honce := nodup_path_spots body
  refine ⟨?_, fun path => mem_terminalPaths_iff, fun oracle path => LeavesAt.exit_eq,
    honce.sublist (horder.map Spot.path), horder, honce, (preorder_eq_map_spots body).symm,
    fun s hs => ?_⟩
  · rw [Terminal.find, ← map_node_terminalSpots, List.map_map]
    rfl
  · obtain ⟨oracle, hleaves⟩ := exists_leavesAt hs
    exact ⟨at?_of_mem_spots (horder.subset hs), hleaves.tailWay⟩

/-- The `else` of the outer conditional is there and that of the inner one is not. -/
example :
    ((Tree.block [.call "f" [] {}, .conditional (.call "p" [] {})
        (.conditional (.call "q" [] {}) (.call "g" [] {}) .missing {})
        (.block [.call "h" [] {}, .call "return" [] {}] {}) {}] {}).terminalSpots.map Spot.path)
      = [[1, 1], [1, 1, 1], [1, 2, 1]] := rfl

end TailLint.Tree
