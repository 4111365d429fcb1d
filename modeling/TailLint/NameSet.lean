/-!
# Sets of names

A policy holds sets of function names, and a policy is written back to a
configuration in which each set is a list in increasing order.  So a set is kept as
that list: its names in strictly increasing order, character by character.  Two sets
with the same members are then equal (`NameSet.ext`), and the list that is written
back is simply there.
-/

namespace TailLint

/-- A finite set of names, as the list of its members in strictly increasing order. -/
structure NameSet where
  names : List String
  sorted : names.Pairwise (· < ·)
  deriving DecidableEq

namespace NameSet

instance : Membership String NameSet := ⟨fun s name => name ∈ s.names⟩

theorem mem_def {name : String} {s : NameSet} : name ∈ s ↔ name ∈ s.names := Iff.rfl

instance (name : String) (s : NameSet) : Decidable (name ∈ s) :=
  inferInstanceAs (Decidable (name ∈ s.names))

/-! ## Order of names -/

/-- Of two different names one comes first. -/
theorem lt_or_lt_of_ne {x y : String} (h : x ≠ y) : x < y ∨ y < x := by
  by_cases hxy : x < y
  · exact Or.inl hxy
  · by_cases hyx : y < x
    · exact Or.inr hyx
    · exact absurd (String.le_antisymm (String.not_lt.mp hyx) (String.not_lt.mp hxy)) h

/-! ## Insertion -/

/-- A name put into its place in an increasing list, unless it is there. -/
def insertSorted (x : String) : List String → List String
  | [] => [x]
  | y :: rest =>
    if x < y then x :: y :: rest
    else if x = y then y :: rest
    else y :: insertSorted x rest

theorem mem_insertSorted {x z : String} {names : List String} :
    z ∈ insertSorted x names ↔ z = x ∨ z ∈ names := by
  induction names with
  | nil => simp [insertSorted]
  | cons y rest ih =>
    by_cases hlt : x < y
    · simp [insertSorted, hlt]
    · by_cases heq : x = y
      · subst heq
        simp [insertSorted]
      · simp only [insertSorted, hlt, heq, if_false, List.mem_cons, ih]
        constructor
        · rintro (h | h | h)
          · exact Or.inr (Or.inl h)
          · exact Or.inl h
          · exact Or.inr (Or.inr h)
        · rintro (h | h | h)
          · exact Or.inr (Or.inl h)
          · exact Or.inl h
          · exact Or.inr (Or.inr h)

theorem pairwise_insertSorted (x : String) {names : List String}
    (h : names.Pairwise (· < ·)) : (insertSorted x names).Pairwise (· < ·) := by
  induction names with
  | nil => simp [insertSorted]
  | cons y rest ih =>
    rw [List.pairwise_cons] at h
    by_cases hlt : x < y
    · simp only [insertSorted, hlt, if_true, List.pairwise_cons]
      refine ⟨?_, h⟩
      intro z hz
      rcases List.mem_cons.mp hz with rfl | hz
      · exact hlt
      · exact String.lt_trans hlt (h.1 z hz)
    · by_cases heq : x = y
      · subst heq
        simp only [insertSorted, hlt, if_false, if_true, List.pairwise_cons]
        exact h
      · simp only [insertSorted, hlt, heq, if_false, List.pairwise_cons]
        refine ⟨?_, ih h.2⟩
        intro z hz
        rcases mem_insertSorted.mp hz with rfl | hz
        · exact (lt_or_lt_of_ne heq).resolve_left hlt
        · exact h.1 z hz

/-- The set with one more name. -/
def insert (x : String) (s : NameSet) : NameSet :=
  ⟨insertSorted x s.names, pairwise_insertSorted x s.sorted⟩

@[simp] theorem mem_insert {x z : String} {s : NameSet} : z ∈ s.insert x ↔ z = x ∨ z ∈ s :=
  mem_insertSorted

/-! ## Sets from lists, unions and differences -/

/-- The set without members. -/
def empty : NameSet := ⟨[], .nil⟩

@[simp] theorem not_mem_empty (x : String) : x ∉ empty := List.not_mem_nil

/-- The set with the names of a list added. -/
def addAll (s : NameSet) (names : List String) : NameSet :=
  names.foldr insert s

@[simp] theorem mem_addAll {x : String} {s : NameSet} {names : List String} :
    x ∈ s.addAll names ↔ x ∈ names ∨ x ∈ s := by
  induction names with
  | nil => simp [addAll]
  | cons y rest ih =>
    change x ∈ (s.addAll rest).insert y ↔ _
    rw [mem_insert, ih, List.mem_cons, or_assoc]

/-- The set of the names in a list. -/
def ofList (names : List String) : NameSet := empty.addAll names

@[simp] theorem mem_ofList {x : String} {names : List String} :
    x ∈ ofList names ↔ x ∈ names := by
  simp [ofList]

/-- The union of two sets. -/
def union (s t : NameSet) : NameSet := s.addAll t.names

@[simp] theorem mem_union {x : String} {s t : NameSet} : x ∈ s.union t ↔ x ∈ s ∨ x ∈ t := by
  rw [union, mem_addAll, ← mem_def, or_comm]

/-- The members of the first set that are not in the second, in increasing order. -/
def without (s t : NameSet) : List String :=
  s.names.filter fun x => decide (x ∉ t)

@[simp] theorem mem_without {x : String} {s t : NameSet} :
    x ∈ s.without t ↔ x ∈ s ∧ x ∉ t := by
  simp [without, mem_def]

theorem pairwise_without (s t : NameSet) : (s.without t).Pairwise (· < ·) :=
  s.sorted.filter _

/-! ## Extensionality -/

/-- An increasing list is determined by its members. -/
theorem eq_of_mem_iff : ∀ {xs ys : List String}, xs.Pairwise (· < ·) → ys.Pairwise (· < ·) →
    (∀ z, z ∈ xs ↔ z ∈ ys) → xs = ys
  | [], [], _, _, _ => rfl
  | [], y :: ys, _, _, h => absurd ((h y).mpr List.mem_cons_self) List.not_mem_nil
  | x :: xs, [], _, _, h => absurd ((h x).mp List.mem_cons_self) List.not_mem_nil
  | x :: xs, y :: ys, hx, hy, h => by
    rw [List.pairwise_cons] at hx hy
    have hxy : x = y := by
      rcases List.mem_cons.mp ((h x).mp List.mem_cons_self) with hx' | hx'
      · exact hx'
      · rcases List.mem_cons.mp ((h y).mpr List.mem_cons_self) with hy' | hy'
        · exact hy'.symm
        · exact absurd (String.lt_trans (hx.1 y hy') (hy.1 x hx')) (String.lt_irrefl x)
    subst hxy
    have hrest : xs = ys := by
      refine eq_of_mem_iff hx.2 hy.2 fun z => ?_
      constructor
      · intro hz
        rcases List.mem_cons.mp ((h z).mp (List.mem_cons_of_mem x hz)) with rfl | hz'
        · exact absurd (hx.1 z hz) (String.lt_irrefl z)
        · exact hz'
      · intro hz
        rcases List.mem_cons.mp ((h z).mpr (List.mem_cons_of_mem x hz)) with rfl | hz'
        · exact absurd (hy.1 z hz) (String.lt_irrefl z)
        · exact hz'
    rw [hrest]

/-- Sets with the same members are equal. -/
theorem ext {s t : NameSet} (h : ∀ x, x ∈ s ↔ x ∈ t) : s = t := by
  obtain ⟨xs, hxs⟩ := s
  obtain ⟨ys, hys⟩ := t
  obtain rfl : xs = ys := eq_of_mem_iff hxs hys h
  rfl

end NameSet

end TailLint
