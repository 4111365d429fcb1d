import TailLint.Form.Reader
import TailLint.Proofs.WholeNumber

/-!
# Reading a text that was put together

The reader keeps its stack in the open, so what a piece of text does to it can be said
without mentioning the rest of the run: `Reads text forms` means that from any stack, and
whatever comes after, reading `text` amounts to putting `forms` on the stack.  Texts are
put together from pieces, and `Reads` is put together alongside (`Reads.append`,
`Reads.blank`, `Reads.list`).

"Whatever comes after" needs one word of caution.  An atom has no end of its own; it ends
where a character stands that cannot be part of it.  So `Reads` only promises something
about continuations that start with such a character, or are empty (`Delimited`).  Each
piece that follows an atom has to be delimited in turn, which is why `Reads.append` asks
for it.

The leaves of the construction are bare atoms, which are read as what they are
(`reads_atom`), and strings, given by what the string reader makes of them
(`reads_of_readString`).

The last section goes the other way and says what every form that was read satisfies: the
whole numbers in it are short, because longer ones are read as something else
(`short_of_read`).
-/

namespace TailLint

/-! ## Steps that may fail -/

section Outcomes

variable {ε α β : Type}

theorem bind_eq_ok_iff {x : Except ε α} {f : α → Except ε β} {b : β} :
    x >>= f = .ok b ↔ ∃ a, x = .ok a ∧ f a = .ok b := by
  constructor
  · intro h
    cases x with
    | error e => cases h
    | ok a => exact ⟨a, rfl, h⟩
  · rintro ⟨a, rfl, h⟩
    exact h

theorem map_eq_ok_iff {x : Except ε α} {f : α → β} {b : β} :
    x.map f = .ok b ↔ ∃ a, x = .ok a ∧ f a = b := by
  constructor
  · intro h
    cases x with
    | error e => cases h
    | ok a => exact ⟨a, rfl, Except.ok.inj h⟩
  · rintro ⟨a, rfl, rfl⟩
    rfl

theorem mapError_eq_ok_iff {x : Except ε α} {f : ε → β} {a : α} :
    x.mapError f = .ok a ↔ x = .ok a := by
  constructor
  · intro h
    cases x with
    | error e => cases h
    | ok b => exact congrArg Except.ok (Except.ok.inj h)
  · rintro rfl
    rfl

end Outcomes

namespace Form

/-! ## What a text does to the stack -/

/-- Whether an atom just before the text would end there. -/
def Delimited (s : List Char) : Prop := ∀ c ∈ s.head?, endsAtom c = true

theorem delimited_nil : Delimited [] := by
  intro c hc
  cases hc

theorem delimited_cons {c : Char} {s : List Char} (h : endsAtom c = true) :
    Delimited (c :: s) := by
  intro d hd
  rw [List.head?_cons] at hd
  rw [← Option.some_inj.mp hd]
  exact h

theorem Delimited.append {s rest : List Char} (hs : Delimited s) (hrest : Delimited rest) :
    Delimited (s ++ rest) := by
  cases s with
  | nil => exact hrest
  | cons c s => exact delimited_cons (hs c rfl)

/-- Several forms more at the innermost level. -/
def Stack.pushAll (forms : List Form) (stack : Stack) : Stack :=
  { stack with forms := forms.reverse ++ stack.forms }

@[simp] theorem Stack.pushAll_nil (stack : Stack) : stack.pushAll [] = stack := rfl

theorem Stack.pushAll_append (forms others : List Form) (stack : Stack) :
    stack.pushAll (forms ++ others) = (stack.pushAll forms).pushAll others := by
  simp [Stack.pushAll, List.append_assoc]

/-- Reading the text from any stack puts the forms on it, whatever delimited text comes
after. -/
def Reads (text : List Char) (forms : List Form) : Prop :=
  ∀ stack rest, Delimited rest →
    readFrom stack (text ++ rest) = readFrom (stack.pushAll forms) rest

theorem reads_nil : Reads [] [] := by
  intro stack rest _
  rfl

/-- Two texts one after the other. -/
theorem Reads.append {text others : List Char} {forms otherForms : List Form}
    (h : Reads text forms) (hd : Delimited others) (ho : Reads others otherForms) :
    Reads (text ++ others) (forms ++ otherForms) := by
  intro stack rest hrest
  rw [List.append_assoc, h stack (others ++ rest) (hd.append hrest), ho _ rest hrest,
    Stack.pushAll_append]

/-- A blank before a text changes nothing. -/
theorem Reads.blank {text : List Char} {forms : List Form} (h : Reads text forms) :
    Reads (' ' :: text) forms := by
  intro stack rest hrest
  have hskip : step stack ' ' (text ++ rest) = .ok (stack, text ++ rest) := rfl
  rw [List.cons_append, readFrom_cons hskip]
  exact h stack rest hrest

/-- A closing bracket makes a list of the forms at its own level. -/
theorem close_pushAll_enter (forms : List Form) (stack : Stack) (left : Nat) :
    close .round left ((stack.enter (.bracket .round)).pushAll forms)
      = .ok (stack.push (.list forms)) := by
  simp [close, Stack.endQuotes, Stack.endQuotesFrom, Stack.enter, Stack.pushAll, Stack.push,
    Bracket.form]

/-- Brackets around a text make a list of what is inside. -/
theorem Reads.list {text : List Char} {forms : List Form} (h : Reads text forms) :
    Reads ('(' :: text ++ [')']) [.list forms] := by
  intro stack rest _
  have hclose : step ((stack.enter (.bracket .round)).pushAll forms) ')' rest
      = .ok (stack.push (.list forms), rest) := by
    rw [show step ((stack.enter (.bracket .round)).pushAll forms) ')' rest
        = (close .round (rest.length + 1) ((stack.enter (.bracket .round)).pushAll forms)).map
            (fun stack => (stack, rest)) from rfl, close_pushAll_enter]
    rfl
  calc readFrom stack ('(' :: text ++ [')'] ++ rest)
      = readFrom stack ('(' :: (text ++ ')' :: rest)) := by simp
    _ = readFrom (stack.enter (.bracket .round)) (text ++ ')' :: rest) := readFrom_cons rfl
    _ = readFrom ((stack.enter (.bracket .round)).pushAll forms) (')' :: rest) :=
        h _ _ (delimited_cons (by decide))
    _ = readFrom (stack.pushAll [.list forms]) rest := readFrom_cons hclose

/-- The form that a text holds is what is read from the empty stack, if that is a single form. -/
theorem read_eq_ok_iff {text : String} {form : Form} :
    Form.read text = .ok form ↔ readFrom {} text.toList = .ok [form] := by
  constructor
  · intro h
    simp only [Form.read] at h
    split at h
    · next hread =>
      cases h
      exact hread
    all_goals cases h
  · intro h
    simp [Form.read, h]

/-- A text that reads as one form holds that form. -/
theorem Reads.read {text : List Char} {form : Form} (h : Reads text [form]) :
    Form.read (String.ofList text) = .ok form := by
  have hrun := h {} [] delimited_nil
  rw [List.append_nil, readFrom_nil] at hrun
  rw [read_eq_ok_iff, String.toList_ofList, hrun]
  rfl

/-! ## Atoms -/

/-- Whether a text is an atom just as it stands: no character ends it, escapes the next
one, or opens something else. -/
def IsBare (atom : List Char) : Prop :=
  atom ≠ [] ∧ ∀ c ∈ atom, endsAtom c = false ∧ c ≠ '\\' ∧ c ≠ '\''

instance (atom : List Char) : Decidable (IsBare atom) :=
  @instDecidableAnd _ _ _ (List.decidableBAll _ atom)

/-- Whether a text is read to its end and as it stands when it is read as an atom: no character ends
it, and each backslash stands for itself. -/
def readsWhole : List Char → Bool
  | [] => true
  | '\\' :: [] => false
  | '\\' :: c :: rest => !atomEscapes.contains c && readsWhole rest
  | c :: rest => !endsAtom c && readsWhole rest

theorem ne_backslash_of_endsAtom {c : Char} (h : endsAtom c = true) : c ≠ '\\' := by
  rintro rfl
  cases h

/-- A character that no case for a backslash covers is no backslash. -/
theorem ne_backslash_of_cases {c : Char} {s : List Char} (hlast : c = '\\' → s = [] → False)
    (hpair : ∀ next rest, c = '\\' → s = next :: rest → False) : c ≠ '\\' := by
  intro hc
  cases s with
  | nil => exact hlast hc rfl
  | cons next rest => exact hpair next rest hc rfl

/-- An atom goes on as long as nothing ends it. -/
theorem readAtom_append {atom rest : List Char} (hatom : readsWhole atom = true)
    (hrest : Delimited rest) (read : List Char) :
    readAtom read (atom ++ rest) = .ok (read.reverse ++ atom, rest) := by
  fun_induction readsWhole atom generalizing read with
  | case1 =>
    cases rest with
    | nil => simp [readAtom]
    | cons c rest =>
      have hc : endsAtom c = true := hrest c rfl
      have hb := ne_backslash_of_endsAtom hc
      rw [List.nil_append, readAtom.eq_4 _ _ _ (by simp [hb]) (by simp [hb])]
      simp [hc]
  | case2 => cases hatom
  | case3 c atom ih =>
    rw [Bool.and_eq_true_iff, Bool.not_eq_true'] at hatom
    rw [List.cons_append, List.cons_append, readAtom, hatom.1, ih hatom.2]
    simp
  | case4 c atom hlast hpair ih =>
    rw [Bool.and_eq_true_iff, Bool.not_eq_true'] at hatom
    have hb : c ≠ '\\' := ne_backslash_of_cases hlast hpair
    rw [List.cons_append, readAtom.eq_4 _ _ _ (by simp [hb]) (by simp [hb]), hatom.1,
      if_neg Bool.false_ne_true, ih hatom.2]
    simp

theorem readsWhole_of_isBare {atom : List Char} (h : IsBare atom) : readsWhole atom = true := by
  obtain ⟨-, hatom⟩ := h
  fun_induction readsWhole atom with
  | case1 => rfl
  | case2 => exact absurd rfl (hatom '\\' List.mem_cons_self).2.1
  | case3 => exact absurd rfl (hatom '\\' List.mem_cons_self).2.1
  | case4 c atom _ _ ih =>
    rw [(hatom c List.mem_cons_self).1, ih fun d hd => hatom d (List.mem_cons_of_mem c hd)]
    rfl

/-- What starts with a character of an atom is an atom. -/
theorem step_of_atom {stack : Stack} {c : Char} {rest atom after : List Char}
    (hc : endsAtom c = false) (hq : c ≠ '\'') (h : readAtom [] (c :: rest) = .ok (atom, after)) :
    step stack c rest = .ok (stack.push (ofAtom atom), after) := by
  simp only [endsAtom, Bool.or_eq_false_iff, decide_eq_false_iff_not] at hc
  obtain ⟨⟨⟨⟨⟨⟨hblank, hopen⟩, hclose⟩, hsquare⟩, hclosed⟩, hquote⟩, hcomment⟩ := hc
  simp only [step, hblank, Bool.false_eq_true, if_false, h]

/-- The first character of a text that is read whole ends no atom. -/
theorem not_endsAtom_of_readsWhole {c : Char} {atom : List Char}
    (h : readsWhole (c :: atom) = true) : endsAtom c = false := by
  by_cases hc : endsAtom c = true
  · have hb := ne_backslash_of_endsAtom hc
    rw [readsWhole.eq_4 _ _ (by simp [hb]) (by simp [hb]), hc] at h
    cases h
  · exact Bool.eq_false_iff.mpr hc

/-- A text that is read whole is read as what it is, unless a quote mark stands at its front. -/
theorem reads_whole {atom : List Char} (hne : atom ≠ []) (hquote : atom.head? ≠ some '\'')
    (h : readsWhole atom = true) : Reads atom [ofAtom atom] := by
  intro stack rest hrest
  cases atom with
  | nil => exact absurd rfl hne
  | cons c atom =>
    have hq : c ≠ '\'' := fun heq => hquote (congrArg some heq)
    have hread := readAtom_append h hrest []
    exact readFrom_cons (step_of_atom (not_endsAtom_of_readsWhole h) hq hread)

/-- A bare atom is read as what it is. -/
theorem reads_atom {atom : List Char} (h : IsBare atom) : Reads atom [ofAtom atom] := by
  refine reads_whole h.1 (fun hhead => ?_) (readsWhole_of_isBare h)
  exact absurd rfl (h.2 '\'' (List.mem_of_mem_head? hhead)).2.2

/-! ## Strings -/

/-- A string goes on over every character that is no quote and no backslash. -/
theorem readString_append {inside : List Char} (h : ∀ c ∈ inside, c ≠ '"' ∧ c ≠ '\\')
    (read rest : List Char) :
    readString read (inside ++ '"' :: rest) = .ok (read.reverse ++ inside, rest) := by
  induction inside generalizing read with
  | nil => simp [readString]
  | cons c inside ih =>
    obtain ⟨hq, hb⟩ := h c List.mem_cons_self
    rw [List.cons_append, readString.eq_5 _ _ _ (by simp [hq]) (by simp [hb]) (by simp [hb]),
      ih fun d hd => h d (List.mem_cons_of_mem c hd)]
    simp

/-- The string between two quotes. -/
theorem reads_of_readString {inside text : List Char}
    (h : ∀ rest, readString [] (inside ++ '"' :: rest) = .ok (text, rest)) :
    Reads ('"' :: inside ++ ['"']) [.string (String.ofList text)] := by
  intro stack rest _
  have hstep : step stack '"' (inside ++ '"' :: rest)
      = .ok (stack.push (.string (String.ofList text)), rest) := by
    rw [step, if_neg (by decide), h rest]
  calc readFrom stack ('"' :: inside ++ ['"'] ++ rest)
      = readFrom stack ('"' :: (inside ++ '"' :: rest)) := by simp
    _ = readFrom (stack.pushAll [.string (String.ofList text)]) rest := readFrom_cons hstep

/-- A text between quotes, without quotes and backslashes inside. -/
theorem reads_string {inside : List Char} (h : ∀ c ∈ inside, c ≠ '"' ∧ c ≠ '\\') :
    Reads ('"' :: inside ++ ['"']) [.string (String.ofList inside)] :=
  reads_of_readString fun rest => readString_append h [] rest

/-! ## The whole numbers in a form that was read -/

/-- Whatever an atom is, it holds no long whole number. -/
theorem short_ofAtom (atom : List Char) : (ofAtom atom).Short := by
  unfold ofAtom
  split
  · next hwhole => exact Numeral.short_of_whole? hwhole
  · split <;> trivial

/-- Whether all whole numbers on a stack are short. -/
def Stack.Short (stack : Stack) : Prop :=
  (∀ form ∈ stack.forms, form.Short) ∧ ∀ level ∈ stack.levels, ∀ form ∈ level.2, form.Short

namespace Stack

theorem Short.push {stack : Stack} {form : Form} (hs : stack.Short) (hf : form.Short) :
    (stack.push form).Short := by
  refine ⟨fun f hmem => ?_, hs.2⟩
  rcases List.mem_cons.mp hmem with rfl | hmem
  · exact hf
  · exact hs.1 f hmem

theorem Short.enter {stack : Stack} (hs : stack.Short) (opened : Opened) :
    (stack.enter opened).Short := by
  refine ⟨fun f hmem => absurd hmem List.not_mem_nil, fun level hmem => ?_⟩
  rcases List.mem_cons.mp hmem with rfl | hmem
  · exact hs.1
  · exact hs.2 level hmem

/-- Ending a quote moves its forms one level out, the first of them quoted. -/
theorem short_of_endQuote? {forms before result : List Form}
    (h : endQuote? forms before = some result) (hforms : ∀ form ∈ forms, form.Short)
    (hbefore : ∀ form ∈ before, form.Short) : ∀ form ∈ result, form.Short := by
  unfold endQuote? at h
  split at h
  · cases h
  · next first others hreverse =>
    cases h
    intro f hmem
    rcases List.mem_append.mp hmem with hmem | hmem
    · refine hforms f (List.mem_reverse.mp ?_)
      rw [hreverse]
      exact List.mem_cons_of_mem _ (List.mem_reverse.mp hmem)
    · rcases List.mem_cons.mp hmem with rfl | hmem
      · refine hforms first (List.mem_reverse.mp ?_)
        rw [hreverse]
        exact List.mem_cons_self
      · exact hbefore f hmem

theorem short_of_endQuotesFrom {forms : List Form} {levels : List (Opened × List Form)}
    {result : Stack} (h : endQuotesFrom forms levels = .ok result)
    (hs : Stack.Short ⟨forms, levels⟩) : result.Short := by
  fun_induction endQuotesFrom forms levels with
  | case1 => cases h
  | case2 forms left before levels forms' hend ih =>
    have hlevels : ∀ level ∈ levels, ∀ form ∈ level.2, form.Short :=
      fun level hmem => hs.2 level (List.mem_cons_of_mem _ hmem)
    exact ih h ⟨short_of_endQuote? hend hs.1 (hs.2 _ List.mem_cons_self), hlevels⟩
  | case3 => cases h; exact hs

end Stack

theorem short_of_close {bracket : Bracket} {left : Nat} {stack result : Stack}
    (h : close bracket left stack = .ok result) (hs : stack.Short) : result.Short := by
  unfold close at h
  split at h
  · cases h
  · next forms kind before levels hend =>
    have hended := Stack.short_of_endQuotesFrom hend hs
    split at h
    · cases h
      have hbefore : Stack.Short ⟨before, levels⟩ :=
        ⟨hended.2 _ List.mem_cons_self,
          fun level hmem => hended.2 level (List.mem_cons_of_mem _ hmem)⟩
      have hforms : ShortAll forms.reverse :=
        shortAll_iff.mpr fun f hmem => hended.1 f (List.mem_reverse.mp hmem)
      have hform : (kind.form forms.reverse).Short := by
        cases kind with
        | round => exact hforms
        | square => exact hforms
      exact hbefore.push hform
    · cases h
  · cases h

theorem short_of_finish {stack : Stack} {forms : List Form} (h : finish stack = .ok forms)
    (hs : stack.Short) : ∀ form ∈ forms, form.Short := by
  unfold finish at h
  split at h
  · cases h
  · cases h
  · next hend =>
    cases h
    intro f hmem
    exact (Stack.short_of_endQuotesFrom hend hs).1 f (List.mem_reverse.mp hmem)

/-- One turn of the loop puts no long whole number on the stack. -/
theorem short_of_step {stack next : Stack} {c : Char} {rest after : List Char}
    (h : step stack c rest = .ok (next, after)) (hs : stack.Short) : next.Short := by
  unfold step at h
  split at h
  · cases h; exact hs
  · split at h
    · split at h
      · cases h
      · cases h; exact hs.push trivial
    · cases h; exact hs.enter _
    · cases h; exact hs.enter _
    · obtain ⟨closed, hclose, heq⟩ := map_eq_ok_iff.mp h
      cases heq; exact short_of_close hclose hs
    · obtain ⟨closed, hclose, heq⟩ := map_eq_ok_iff.mp h
      cases heq; exact short_of_close hclose hs
    · cases h; exact hs.enter _
    · cases h; exact hs
    · split at h
      · cases h
      · cases h; exact hs.push (short_ofAtom _)

/-- Nor does the whole run. -/
theorem short_of_readFrom {stack : Stack} {s : List Char} {forms : List Form}
    (h : readFrom stack s = .ok forms) (hs : stack.Short) : ∀ form ∈ forms, form.Short := by
  fun_induction readFrom stack s with
  | case1 stack => exact short_of_finish h hs
  | case2 => cases h
  | case3 stack c rest next after hstep ih => exact ih h (short_of_step hstep hs)

/-- All whole numbers in a form that was read are short. -/
theorem short_of_read {text : String} {form : Form} (h : Form.read text = .ok form) :
    form.Short := by
  have hempty : Stack.Short {} := ⟨fun _ hmem => absurd hmem List.not_mem_nil,
    fun _ hmem => absurd hmem List.not_mem_nil⟩
  exact short_of_readFrom (read_eq_ok_iff.mp h) hempty form List.mem_cons_self

end Form

end TailLint
