import TailLint.Proofs.Reading

/-!
# What has been read stays

`Reads` says what becomes of a text that was put together to be read.  Of a text that was not, less can
be said, but one thing always: the reader never takes a form off its stack again.  What has been read
at a level will stand at the front of the row that the level ends with, and when the level ends, its
row becomes a form in the row around it.

This is enough to tell that something goes wrong.  If the first form that is read after some point is
not the right one, then nothing that follows can mend it, and it is not necessary to know what
follows.

* `Closes` --- how the row of a level ends up in the result of the run;
* `persists_of_readFrom` --- every run that succeeds ends like that, with the rows on its stack at the
  front of the rows it closes;
* `Next` --- what is known of the next form at the innermost level.
-/

namespace TailLint.Form

/-! ## How levels end -/

/-- How a run ends whose innermost level ends with the given row.  The level makes a form of the row,
more forms may follow it in the row around it, and so on outwards. -/
def Closes : List (Opened × List Form) → List Form → List Form → Prop
  | [], row, result => row = result
  | (.bracket kind, before) :: levels, row, result =>
    ∃ more, Closes levels (before.reverse ++ kind.form row :: more) result
  | (.quote _, before) :: levels, row, result =>
    ∃ first others more, row = first :: others
      ∧ Closes levels (before.reverse ++ .quoted first :: (others ++ more)) result

/-- Whether a run from a stack may end with the given result, some forms more being read at the
innermost level. -/
def Stack.Persists (stack : Stack) (result : List Form) : Prop :=
  ∃ more, Closes stack.levels (stack.forms.reverse ++ more) result

namespace Stack

/-- A form that was pushed follows those that were there before. -/
theorem Persists.of_push {stack : Stack} {form : Form} {result : List Form}
    (h : (stack.push form).Persists result) :
    ∃ more, Closes stack.levels (stack.forms.reverse ++ form :: more) result := by
  obtain ⟨more, h⟩ := h
  refine ⟨more, ?_⟩
  rwa [push, List.reverse_cons, List.append_assoc, List.singleton_append] at h

/-- A bracket that was opened will be a form after those that were there before. -/
theorem Persists.of_enter_bracket {stack : Stack} {kind : Bracket} {result : List Form}
    (h : (stack.enter (.bracket kind)).Persists result) :
    ∃ row more, Closes stack.levels (stack.forms.reverse ++ kind.form row :: more) result := by
  obtain ⟨row, more, h⟩ := h
  exact ⟨row, more, h⟩

theorem Persists.of_enter_quote {stack : Stack} {left : Nat} {result : List Form}
    (h : (stack.enter (.quote left)).Persists result) : stack.Persists result := by
  obtain ⟨_, first, others, more, -, h⟩ := h
  exact ⟨_, h⟩

/-- Ending the quotes of a bracket takes nothing away. -/
theorem persists_of_endQuotesFrom {forms : List Form} {levels : List (Opened × List Form)}
    {ended : Stack} {result : List Form} (h : endQuotesFrom forms levels = .ok ended)
    (hended : ended.Persists result) : Persists ⟨forms, levels⟩ result := by
  fun_induction endQuotesFrom forms levels with
  | case1 => cases h
  | case2 forms left before levels forms' hend ih =>
    obtain ⟨more, hcloses⟩ := ih h
    unfold endQuote? at hend
    split at hend
    · cases hend
    · next first others hreverse =>
      cases hend
      refine ⟨[], first, others, more, by rw [List.append_nil, hreverse], ?_⟩
      simpa using hcloses
  | case3 => cases h; exact hended

/-- No quote is open after the quotes have been ended. -/
theorem levels_of_endQuotesFrom {forms before : List Form} {levels rest : List (Opened × List Form)}
    {ended : Stack} {left : Nat} (h : endQuotesFrom forms levels = .ok ended) :
    ended.levels ≠ (.quote left, before) :: rest := by
  fun_induction endQuotesFrom forms levels with
  | case1 => cases h
  | case2 forms _ _ levels forms' hend ih => exact ih h
  | case3 forms levels hquote =>
    cases h
    exact hquote left before rest

end Stack

/-! ## One turn and the whole run -/

theorem persists_of_close {bracket : Bracket} {left : Nat} {stack closed : Stack}
    {result : List Form} (h : close bracket left stack = .ok closed)
    (hclosed : closed.Persists result) : stack.Persists result := by
  unfold close at h
  split at h
  · cases h
  · next forms kind before levels hend =>
    split at h
    · cases h
      have hpushed : (Stack.push (kind.form forms.reverse) ⟨before, levels⟩).Persists result :=
        hclosed
      obtain ⟨more, hcloses⟩ := hpushed.of_push
      refine Stack.persists_of_endQuotesFrom hend ⟨[], more, ?_⟩
      rwa [List.append_nil]
    · cases h
  · cases h

/-- At the end of the text the outermost row is the result. -/
theorem persists_of_finish {stack : Stack} {result : List Form} (h : finish stack = .ok result) :
    stack.Persists result := by
  unfold finish at h
  split at h
  · cases h
  · cases h
  · next forms levels hbracket hend =>
    cases h
    refine Stack.persists_of_endQuotesFrom hend ⟨[], ?_⟩
    rw [List.append_nil]
    match levels with
    | [] => rfl
    | (.bracket kind, before) :: rest => exact absurd rfl (hbracket kind before rest)
    | (.quote left, before) :: rest => exact absurd rfl (Stack.levels_of_endQuotesFrom hend)

/-- One turn of the loop takes nothing off the stack. -/
theorem persists_of_step {stack next : Stack} {c : Char} {rest after : List Char}
    {result : List Form} (h : step stack c rest = .ok (next, after))
    (hnext : next.Persists result) : stack.Persists result := by
  have hpush {form : Form} (hpushed : (stack.push form).Persists result) :
      stack.Persists result := by
    obtain ⟨more, hcloses⟩ := hpushed.of_push
    exact ⟨form :: more, hcloses⟩
  have henter {kind : Bracket} (hentered : (stack.enter (.bracket kind)).Persists result) :
      stack.Persists result := by
    obtain ⟨row, more, hcloses⟩ := hentered.of_enter_bracket
    exact ⟨kind.form row :: more, hcloses⟩
  unfold step at h
  split at h
  · cases h; exact hnext
  · split at h
    · split at h
      · cases h
      · cases h; exact hpush hnext
    · cases h; exact henter hnext
    · cases h; exact henter hnext
    · obtain ⟨closed, hclose, heq⟩ := map_eq_ok_iff.mp h
      cases heq; exact persists_of_close hclose hnext
    · obtain ⟨closed, hclose, heq⟩ := map_eq_ok_iff.mp h
      cases heq; exact persists_of_close hclose hnext
    · cases h; exact hnext.of_enter_quote
    · cases h; exact hnext
    · split at h
      · cases h
      · cases h; exact hpush hnext

/-- Nor does the whole run. -/
theorem persists_of_readFrom {stack : Stack} {s : List Char} {result : List Form}
    (h : readFrom stack s = .ok result) : stack.Persists result := by
  fun_induction readFrom stack s with
  | case1 stack => exact persists_of_finish h
  | case2 => cases h
  | case3 stack c rest next after hstep ih => exact persists_of_step hstep (ih h)

/-! ## The next form -/

/-- A run that succeeds succeeds in its first turn. -/
theorem exists_step_of_readFrom {stack : Stack} {c : Char} {rest : List Char} {result : List Form}
    (h : readFrom stack (c :: rest) = .ok result) :
    ∃ next after, step stack c rest = .ok (next, after) ∧ readFrom next after = .ok result := by
  cases hstep : step stack c rest with
  | error stop =>
    rw [readFrom] at h
    split at h
    · cases h
    · next hstep' => rw [hstep] at hstep'; cases hstep'
  | ok turn =>
    rw [readFrom_cons hstep] at h
    exact ⟨turn.1, turn.2, rfl, h⟩

/-- What starts with a character of an atom is read as an atom or not at all. -/
theorem exists_atom_of_step {stack next : Stack} {c : Char} {rest after : List Char}
    (hc : endsAtom c = false) (hq : c ≠ '\'') (h : step stack c rest = .ok (next, after)) :
    ∃ atom, readAtom [] (c :: rest) = .ok (atom, after) ∧ next = stack.push (ofAtom atom) := by
  cases hatom : readAtom [] (c :: rest) with
  | error what =>
    simp only [endsAtom, Bool.or_eq_false_iff, decide_eq_false_iff_not] at hc
    obtain ⟨⟨⟨⟨⟨⟨hblank, hopen⟩, hclose⟩, hsquare⟩, hclosed⟩, hquote⟩, hcomment⟩ := hc
    simp only [step, hblank, Bool.false_eq_true, if_false, hatom] at h
    cases h
  | ok read =>
    rw [step_of_atom hc hq hatom] at h
    cases h
    exact ⟨read.1, rfl, rfl⟩

/-- Whether, if the text is read from the stack and the run succeeds, the next form at the innermost
level has the property, as far as there is a next one. -/
def Next (P : Form → Prop) (stack : Stack) (s : List Char) : Prop :=
  ∀ result, readFrom stack s = .ok result →
    ∃ more, (∀ form ∈ more.head?, P form)
      ∧ Closes stack.levels (stack.forms.reverse ++ more) result

section NextForm

variable {P : Form → Prop} {stack : Stack} {rest : List Char}

/-- What was skipped was no form. -/
theorem Next.of_skip {c : Char} {after : List Char} (hstep : step stack c rest = .ok (stack, after))
    (h : Next P stack after) : Next P stack (c :: rest) := by
  intro result hread
  rw [readFrom_cons hstep] at hread
  exact h result hread

theorem Next.blank {c : Char} (hc : Text.isBlank c = true) (h : Next P stack rest) :
    Next P stack (c :: rest) := by
  refine h.of_skip ?_
  unfold step
  rw [if_pos hc]

/-- A text that reads as one form puts that form next. -/
theorem next_of_reads {text : List Char} {form : Form} (htext : Reads text [form])
    (hrest : Delimited rest) (h : P form) : Next P stack (text ++ rest) := by
  intro result hread
  rw [htext stack rest hrest] at hread
  obtain ⟨more, hcloses⟩ := (persists_of_readFrom hread).of_push
  refine ⟨form :: more, ?_, hcloses⟩
  rintro _ ⟨⟩
  exact h

/-- An atom is the next form, if it can be read. -/
theorem next_of_atom {c : Char} (hc : endsAtom c = false) (hq : c ≠ '\'')
    (h : ∀ atom after, readAtom [] (c :: rest) = .ok (atom, after) → P (ofAtom atom)) :
    Next P stack (c :: rest) := by
  intro result hread
  obtain ⟨next, after, hstep, hread⟩ := exists_step_of_readFrom hread
  obtain ⟨atom, hatom, rfl⟩ := exists_atom_of_step hc hq hstep
  obtain ⟨more, hcloses⟩ := (persists_of_readFrom hread).of_push
  refine ⟨ofAtom atom :: more, ?_, hcloses⟩
  rintro _ ⟨⟩
  exact h atom after hatom

/-- A string is the next form, if it can be read. -/
theorem next_of_string
    (h : ∀ text after, readString [] rest = .ok (text, after) → P (.string (String.ofList text))) :
    Next P stack ('"' :: rest) := by
  intro result hread
  obtain ⟨next, after, hstep, hread⟩ := exists_step_of_readFrom hread
  rw [step, if_neg (by decide)] at hstep
  split at hstep
  · cases hstep
  · next text _ htext =>
    cases hstep
    obtain ⟨more, hcloses⟩ := (persists_of_readFrom hread).of_push
    refine ⟨.string (String.ofList text) :: more, ?_, hcloses⟩
    rintro _ ⟨⟩
    exact h text after htext

/-- An opened bracket is the next form. -/
theorem next_of_open (h : ∀ items, P (.list items)) : Next P stack ('(' :: rest) := by
  intro result hread
  have hstep : step stack '(' rest = .ok (stack.enter (.bracket .round), rest) := rfl
  rw [readFrom_cons hstep] at hread
  obtain ⟨row, more, hcloses⟩ := (persists_of_readFrom hread).of_enter_bracket
  refine ⟨.list row :: more, ?_, hcloses⟩
  rintro _ ⟨⟩
  exact h row

/-- Nothing comes next where the bracket is closed. -/
theorem next_of_close {before : List Form} {levels : List (Opened × List Form)}
    (hlevels : stack.levels = (.bracket .round, before) :: levels) :
    Next P stack (')' :: rest) := by
  intro result hread
  obtain ⟨forms, _⟩ := stack
  obtain rfl : _ = _ := hlevels
  have hstep : step ⟨forms, (.bracket .round, before) :: levels⟩ ')' rest
      = .ok (Stack.push (.list forms.reverse) ⟨before, levels⟩, rest) := rfl
  rw [readFrom_cons hstep] at hread
  obtain ⟨more, hcloses⟩ := (persists_of_readFrom hread).of_push
  refine ⟨[], nofun, more, ?_⟩
  rwa [List.append_nil]

end NextForm

end TailLint.Form
