import Mathlib
import TailLint.Proofs.Grammar
import TailLint.Proofs.Persistence
import TailLint.Proofs.Verdict

/-!
# Names that survive printing

A name may be any text, since it may be written as a string.  The printer writes it as a string only if
it is empty or has one of eight characters in it, and else bare.  The reader has rules of its own for
what is written bare: it stops at six blanks of which the printer knows one, it drops a backslash before
thirteen characters, it takes what looks like a number for one, and it skips what is nothing but blanks.

`Survives` is the condition under which the two agree, and this module shows that it cannot be
weakened: a name that does not survive is not read back, wherever it stands and whatever stands beside
it.  What is read in its place may be a number, a shorter name, two names, a name that has eaten the one
after it, or nothing.  None of this has to be told apart.  It is enough to look at the next form that is
read (`Form.Next`), which is not the name, and to know that it stays.

* `Form.readsWhole_of_readAtom` --- what comes back as an atom was read whole;
* `Tree.next_ne_of_not_survives` --- where a name is printed that does not survive, another form is
  read next;
* `Tree.exists_row_of_readFrom` --- if a row of names comes back, all of them survive;
* `Tree.survives_of_parse_call`, `Tree.survives_of_parse_function` --- the names of a node that comes
  back survive.
-/

namespace TailLint

namespace Form

/-! ## Atoms -/

/-- What has been read of an atom stays. -/
theorem prefix_of_readAtom {read s atom after : List Char}
    (h : readAtom read s = .ok (atom, after)) : read.reverse <+: atom := by
  fun_induction readAtom read s with
  | case1 read =>
    cases h
    exact List.prefix_refl _
  | case2 => cases h
  | case3 read c rest ih =>
    refine List.IsPrefix.trans ?_ (ih h)
    split
    · simp
    · simp
  | case4 =>
    cases h
    exact List.prefix_refl _
  | case5 read c rest _ _ _ ih =>
    refine List.IsPrefix.trans ?_ (ih h)
    simp

/-- The only blank that an atom can start with is the space, and that after a backslash. -/
theorem eq_space_of_readAtom {c d : Char} {rest atom after : List Char}
    (h : readAtom [] (c :: rest) = .ok (atom, after)) (hc : Text.isBlank c = false)
    (hd : d ∈ atom.head?) (hblank : Text.isBlank d = true) : d = ' ' := by
  have hstart {first : List Char} (hfront : first <+: atom) (hne : first ≠ []) :
      first.head? = some d := by
    obtain ⟨others, rfl⟩ := hfront
    rwa [List.head?_append_of_ne_nil _ hne] at hd
  by_cases hb : c = '\\'
  · subst hb
    cases rest with
    | nil => cases h
    | cons next rest =>
      rw [readAtom] at h
      have hfront := prefix_of_readAtom h
      split at hfront
      · next hescape =>
        obtain rfl : next = d := Option.some.inj (hstart hfront (List.cons_ne_nil _ _))
        have hspace : ∀ e ∈ atomEscapes, Text.isBlank e = true → e = ' ' := by
          simp [atomEscapes, Text.isBlank]
        exact hspace next (List.contains_iff_mem.mp hescape) hblank
      · obtain rfl : '\\' = d := Option.some.inj (hstart hfront (List.cons_ne_nil _ _))
        cases hblank
  · rw [readAtom.eq_4 _ _ _ (by simp [hb]) (by simp [hb])] at h
    split at h
    · cases h
      cases hd
    · obtain rfl : c = d :=
        Option.some.inj (hstart (prefix_of_readAtom h) (List.cons_ne_nil _ _))
      rw [hc] at hblank
      cases hblank

/-- An atom is no longer than the text it is read from, up to a character that ends it and has not
become part of it.  If it is as long, the text was read whole. -/
theorem readsWhole_of_readAtom {ender : Char} (hends : endsAtom ender = true)
    (hescape : ender ∈ atomEscapes) {read s rest atom after : List Char}
    (h : readAtom read (s ++ ender :: rest) = .ok (atom, after)) (hnot : ender ∉ atom) :
    atom.length ≤ read.length + s.length
      ∧ (atom.length = read.length + s.length → readsWhole s = true) := by
  fun_induction readsWhole s generalizing read with
  | case1 =>
    have hb := ne_backslash_of_endsAtom hends
    rw [List.nil_append, readAtom.eq_4 _ _ _ (by simp [hb]) (by simp [hb]), if_pos hends] at h
    cases h
    simp
  | case2 =>
    -- the backslash is the last character, and takes the one that should end the atom with it
    rw [List.singleton_append, readAtom, if_pos (List.contains_iff_mem.mpr hescape)] at h
    exact absurd ((prefix_of_readAtom h).subset (by simp)) hnot
  | case3 c s ih =>
    rw [List.cons_append, List.cons_append, readAtom] at h
    split at h
    · obtain ⟨hle, -⟩ := ih h
      simp only [List.length_cons] at hle ⊢
      exact ⟨by omega, by omega⟩
    · next hc =>
      obtain ⟨hle, hwhole⟩ := ih h
      simp only [List.length_cons] at hle hwhole ⊢
      refine ⟨by omega, fun hlength => ?_⟩
      rw [hwhole (by omega), Bool.eq_false_iff.mpr hc]
      rfl
  | case4 c s hlast hpair ih =>
    have hb : c ≠ '\\' := ne_backslash_of_cases hlast hpair
    rw [List.cons_append, readAtom.eq_4 _ _ _ (by simp [hb]) (by simp [hb])] at h
    split at h
    · cases h
      simp only [List.length_reverse, List.length_cons]
      exact ⟨by omega, by omega⟩
    · next hc =>
      obtain ⟨hle, hwhole⟩ := ih h
      simp only [List.length_cons] at hle hwhole ⊢
      refine ⟨by omega, fun hlength => ?_⟩
      rw [hwhole (by omega), Bool.eq_false_iff.mpr hc]
      rfl

end Form

namespace Tree

open Form (Next Names readAtom ofAtom Closes Stack)

/-! ## Bare names -/

/-- An atom that is a name is the spelling of a number that is not finite, or the name as it stands. -/
theorem of_names_ofAtom {atom : List Char} {name : String} (h : (ofAtom atom).Names name) :
    name ∈ nonFiniteNames ∨ name.toList = atom ∧ IsSymbol name := by
  unfold ofAtom at h
  split at h
  · cases h
  · next hwhole =>
    split at h
    · next value hvalue =>
      left
      cases h with
      | float hfinite =>
        cases value with
        | nan => simp [nonFiniteNames, Form.numberText]
        | infinite negative => cases negative <;> simp [nonFiniteNames, Form.numberText]
        | _ => cases hfinite
    · next hvalue =>
      right
      cases h
      refine ⟨String.toList_ofList, ?_⟩
      rw [IsSymbol, String.toList_ofList, ofAtom, hwhole, hvalue]

/-- A name that is written bare does not come back as an atom if there is a blank at its front. -/
theorem not_isBlank_of_readAtom {name : String} (hquotes : needsQuotes name.toList = false)
    {c b : Char} {rest after : List Char}
    (hread : readAtom [] (c :: rest) = .ok (name.toList, after)) (hc : Text.isBlank c = false)
    (hb : b ∈ name.toList.head?) : Text.isBlank b = false := by
  by_contra hblank
  obtain rfl : b = ' ' :=
    Form.eq_space_of_readAtom hread hc hb (Bool.eq_true_of_not_eq_false hblank)
  exact not_mem_of_needsQuotes hquotes (List.mem_of_mem_head? hb) (by simp)

/-- The blanks at the front of a bare text are skipped, and the atom after them is the next form.  If
there are only blanks, the next form is whatever comes afterwards. -/
theorem next_of_bare {P : Form → Prop} {stack : Stack} {s rest : List Char}
    (hs : ∀ c ∈ s, c ∉ [' ', '(', ')', '"', '\'', '[', ']', ';'])
    (hatom : ∀ blanks c others atom after, s = blanks ++ c :: others →
      (∀ b ∈ blanks, Text.isBlank b = true) → Text.isBlank c = false →
      readAtom [] (c :: (others ++ rest)) = .ok (atom, after) → P (ofAtom atom))
    (hrest : (∀ c ∈ s, Text.isBlank c = true) → Next P stack rest) :
    Next P stack (s ++ rest) := by
  induction s with
  | nil => exact hrest nofun
  | cons c s ih =>
    obtain ⟨hc, hs⟩ := List.forall_mem_cons.mp hs
    by_cases hblank : Text.isBlank c = true
    · refine Next.blank hblank (ih hs ?_ fun hall => hrest ?_)
      · intro blanks d others atom after heq hblanks hd hread
        refine hatom (c :: blanks) d others atom after (by rw [heq, List.cons_append]) ?_ hd hread
        exact List.forall_mem_cons.mpr ⟨hblank, hblanks⟩
      · exact List.forall_mem_cons.mpr ⟨hblank, hall⟩
    · have hblank := Bool.eq_false_iff.mpr hblank
      simp only [List.mem_cons, List.not_mem_nil, or_false, not_or] at hc
      have hends : Form.endsAtom c = false := by
        simp only [Form.endsAtom, hblank, Bool.false_or, Bool.or_eq_false_iff,
          decide_eq_false_iff_not]
        tauto
      refine Form.next_of_atom hends hc.2.2.2.2.1 fun atom after hread => ?_
      exact hatom [] c s atom after rfl nofun hblank hread

/-- Where a name is printed that does not survive, another form is read next.  A name of blanks is
skipped, and then it depends on what follows. -/
theorem next_ne_of_not_survives {name : String} (hname : ¬ Survives name) {ender : Char}
    (hender : ender = ' ' ∨ ender = ')') {stack : Stack} {rest : List Char}
    (hrest : needsQuotes name.toList = false → (∀ c ∈ name.toList, Text.isBlank c = true) →
      Next (fun form => ¬ form.Names name) stack (ender :: rest)) :
    Next (fun form => ¬ form.Names name) stack (printName name ++ ender :: rest) := by
  have hquotes : needsQuotes name.toList = false :=
    Bool.eq_false_iff.mpr fun hquotes => hname (Or.inl hquotes)
  rw [printName, hquotes, if_neg Bool.false_ne_true]
  refine next_of_bare (fun c hc => not_mem_of_needsQuotes hquotes hc) ?_ (hrest hquotes)
  intro blanks c others atom after heq hblanks hc hread hnames
  rcases of_names_ofAtom hnames with hnumber | ⟨rfl, hsymbol⟩
  · exact hname (Or.inr (Or.inl hnumber))
  · cases blanks with
    | cons b blanks =>
      have hb := not_isBlank_of_readAtom hquotes hread hc (b := b) (by rw [heq]; rfl)
      rw [hblanks b List.mem_cons_self] at hb
      cases hb
    | nil =>
      -- the name was read from its first character on, and with nothing lost
      have hread' : readAtom [] (name.toList ++ ender :: rest) = .ok (name.toList, after) := by
        rw [← hread]
        exact congrArg (readAtom [] <| · ++ ender :: rest) heq
      have hnot : ender ∉ name.toList := by
        intro hmem
        refine not_mem_of_needsQuotes hquotes hmem ?_
        rcases hender with rfl | rfl <;> simp
      have hwhole : Form.readsWhole name.toList = true := by
        refine (Form.readsWhole_of_readAtom ?_ ?_ hread' hnot).2 (by simp)
        · rcases hender with rfl | rfl <;> decide
        · rcases hender with rfl | rfl <;> decide
      exact hname (Or.inr (Or.inr ⟨hwhole, hsymbol⟩))

/-! ## Rows of names -/

/-- Names as they are written in a row, each after a space. -/
def printRow (names : List String) : List Char :=
  names.flatMap fun name => ' ' :: printName name

theorem printRow_cons (name : String) (names : List String) :
    printRow (name :: names) = ' ' :: (printName name ++ printRow names) := by
  simp [printRow]

/-- After a row of names, a space or the closing bracket comes next. -/
theorem exists_ender (names : List String) (rest : List Char) :
    ∃ ender others, printRow names ++ ')' :: rest = ender :: others
      ∧ (ender = ' ' ∨ ender = ')') := by
  cases names with
  | nil => exact ⟨')', rest, rfl, Or.inr rfl⟩
  | cons name names => exact ⟨' ', _, by rw [printRow_cons]; rfl, Or.inl rfl⟩

theorem delimited_printRow (names : List String) (rest : List Char) :
    Form.Delimited (printRow names ++ ')' :: rest) := by
  obtain ⟨ender, others, heq, hender⟩ := exists_ender names rest
  rw [heq]
  refine Form.delimited_cons ?_
  rcases hender with rfl | rfl <;> decide

theorem readFrom_blank (stack : Stack) (s : List Char) :
    Form.readFrom stack (' ' :: s) = Form.readFrom stack s :=
  Form.readFrom_cons rfl

section Rows

variable {stack : Stack} {before : List Form} {levels : List (Form.Opened × List Form)}

/-- In place of a name of blanks the next name of the row is read, and that is another one, or the row
ends. -/
theorem next_ne_of_blank (hlevels : stack.levels = (.bracket .round, before) :: levels)
    {name : String} (hquotes : needsQuotes name.toList = false)
    (hblank : ∀ c ∈ name.toList, Text.isBlank c = true) (names : List String)
    (rest : List Char) :
    Next (fun form => ¬ form.Names name) stack (printRow names ++ ')' :: rest) := by
  induction names with
  | nil => exact Form.next_of_close hlevels
  | cons other names ih =>
    rw [printRow_cons, List.cons_append, List.append_assoc]
    refine Next.blank (by decide) ?_
    unfold printName
    by_cases hother : needsQuotes other.toList = true
    · rw [if_pos hother]
      refine Form.next_of_reads (reads_quoteName other.toList) (delimited_printRow names rest) ?_
      intro hnames
      rw [String.ofList_toList] at hnames
      cases hnames
      rw [hquotes] at hother
      cases hother
    · rw [if_neg hother]
      refine next_of_bare
        (fun c hc => not_mem_of_needsQuotes (Bool.eq_false_iff.mpr hother) hc) ?_ fun _ => ih
      intro blanks c others atom after _ _ hc hread hnames
      rcases of_names_ofAtom hnames with hnumber | ⟨rfl, -⟩
      · have hvisible : ∀ n ∈ nonFiniteNames, ¬ ∀ c ∈ n.toList, Text.isBlank c = true := by
          simp [nonFiniteNames, Text.isBlank]
        exact hvisible name hnumber hblank
      · cases hname : name.toList with
        | nil =>
          rw [hname] at hquotes
          cases hquotes
        | cons b _ =>
          have hb := not_isBlank_of_readAtom hquotes hread hc (b := b) (by rw [hname]; rfl)
          rw [hblank b (by rw [hname]; exact List.mem_cons_self)] at hb
          cases hb

/-- Where a name is printed in a row that does not survive, another form is read next. -/
theorem next_ne_in_row (hlevels : stack.levels = (.bracket .round, before) :: levels)
    {name : String} (hname : ¬ Survives name) (names : List String) (rest : List Char) :
    Next (fun form => ¬ form.Names name) stack
      (printName name ++ (printRow names ++ ')' :: rest)) := by
  have hblank (hquotes : needsQuotes name.toList = false)
      (h : ∀ c ∈ name.toList, Text.isBlank c = true) :=
    next_ne_of_blank hlevels hquotes h names rest
  obtain ⟨ender, others, heq, hender⟩ := exists_ender names rest
  rw [heq] at hblank ⊢
  exact next_ne_of_not_survives hname hender hblank

/-- If a printed row of names comes back, all names in it survive. -/
theorem exists_row_of_readFrom (hlevels : stack.levels = (.bracket .round, before) :: levels)
    {names : List String} {rest : List Char} {result : List Form}
    (h : Form.readFrom stack (printRow names ++ ')' :: rest) = .ok result) :
    ∃ more, Closes stack.levels (stack.forms.reverse ++ more) result
      ∧ (List.Forall₂ Names more names → ∀ name ∈ names, Survives name) := by
  induction names generalizing stack with
  | nil =>
    obtain ⟨more, hcloses⟩ := Form.persists_of_readFrom h
    exact ⟨more, hcloses, nofun⟩
  | cons name names ih =>
    rw [printRow_cons, List.cons_append, List.append_assoc, readFrom_blank] at h
    by_cases hname : Survives name
    · obtain ⟨form, hreads, -⟩ := writesName_printName hname
      rw [hreads stack _ (delimited_printRow names rest)] at h
      have hpushed : (stack.pushAll [form]).levels = (.bracket .round, before) :: levels := hlevels
      obtain ⟨more, hcloses, hrow⟩ := ih hpushed h
      refine ⟨form :: more, ?_, fun hall => ?_⟩
      · simpa [Stack.pushAll] using hcloses
      · obtain ⟨-, hrest⟩ := List.forall₂_cons.mp hall
        exact List.forall_mem_cons.mpr ⟨hname, hrow hrest⟩
    · obtain ⟨more, hnext, hcloses⟩ := next_ne_in_row hlevels hname names rest result h
      refine ⟨more, hcloses, fun hall => ?_⟩
      obtain ⟨first, others, hfirst, -, rfl⟩ := List.forall₂_cons_right_iff.mp hall
      exact absurd hfirst (hnext first rfl)

end Rows

/-! ## Nodes that come back -/

/-- A single list is what stands in its brackets. -/
theorem eq_list_of_closes {row : List Form} {form : Form}
    (h : Closes [(.bracket .round, [])] row [form]) : form = .list row := by
  obtain ⟨more, h⟩ := h
  exact (List.cons.inj h).1.symm

/-- The reader behind the opening bracket and the tag of a node. -/
theorem readFrom_tagged (tag : Tag) {text : List Char} (hd : Form.Delimited text) :
    Form.readFrom {} ('(' :: (tag.symbol.toList ++ text))
      = Form.readFrom ⟨[.symbol tag.symbol], [(.bracket .round, [])]⟩ text := by
  have hopen : Form.readFrom {} ('(' :: (tag.symbol.toList ++ text))
      = Form.readFrom ⟨[], [(.bracket .round, [])]⟩ (tag.symbol.toList ++ text) :=
    Form.readFrom_cons rfl
  rw [hopen, reads_symbol tag _ text hd]
  rfl

/-! ### Calls -/

/-- A call has its name from the first form behind the tag. -/
theorem exists_name_of_load_call {context : Context} {row : List Form} {callee : String}
    {arguments : List Tree} {span : Span}
    (h : load context (.list (.symbol "call" :: row)) = .ok (.call callee arguments span)) :
    ∃ first others, row = first :: others ∧ first.Names callee := by
  have htagged : loadTagged context .call "call" row = .ok (.call callee arguments span) :=
    (load_tagged context .call (by decide) row).symm.trans h
  cases row with
  | nil => cases htagged
  | cons first others =>
    rw [loadTagged] at htagged
    obtain ⟨name, hname, htagged⟩ := bind_eq_ok_iff.mp htagged
    obtain ⟨trees, -, htagged⟩ := bind_eq_ok_iff.mp htagged
    cases htagged
    exact ⟨first, others, rfl, Context.name_eq_ok_iff.mp hname⟩

/-- A word is printed as a name is. -/
theorem printLeaf_word {word : String} (h : IsWord word) : printLeaf word = printName word := by
  rw [printLeaf, if_neg]
  intro hhead
  have := h.isAlpha (List.mem_of_mem_head? hhead)
  cases this

theorem printAll_words {words : List String} (h : ∀ word ∈ words, IsWord word) :
    printAll true {} (words.map fun word => .expr word [] {}) = printRow words := by
  induction words with
  | nil => rfl
  | cons word words ih =>
    obtain ⟨hword, hwords⟩ := List.forall_mem_cons.mp h
    rw [List.map_cons, printAll, ih hwords, printRow_cons]
    show ' ' :: printLeaf word ++ printRow words = _
    rw [printLeaf_word hword]
    rfl

theorem print_call (name : String) {words : List String} (h : ∀ word ∈ words, IsWord word) :
    print true {} (.call name (words.map fun word => .expr word [] {}) {})
      = '(' :: (Tag.call.symbol.toList ++ ' ' :: (printName name ++ (printRow words ++ [')']))) := by
  rw [print, printAll_words h, located, if_pos rfl]
  simp [Tag.symbol]

/-- The name of a call that comes back survives. -/
theorem survives_of_parse_call {file name : String} {words : List String}
    (hwords : ∀ word ∈ words, IsWord word)
    (h : parse file (String.ofList (print true {} (.call name (words.map (.expr · [] {})) {})))
      = .ok (.call name (words.map (.expr · [] {})) {})) : Survives name := by
  by_contra hname
  obtain ⟨form, hread, hload⟩ := parse_eq_ok_iff.mp h
  rw [Form.read_eq_ok_iff, String.toList_ofList, print_call name hwords,
    readFrom_tagged .call (delimited_blank _), readFrom_blank] at hread
  obtain ⟨row, hnext, hcloses⟩ := next_ne_in_row rfl hname words [] _ hread
  obtain rfl := eq_list_of_closes hcloses
  obtain ⟨first, others, rfl, hfirst⟩ := exists_name_of_load_call hload
  exact hnext first rfl hfirst

/-! ### Functions -/

/-- The tag of a function. -/
def functionTag (isLambda : Bool) : Tag := if isLambda then .lambda else .function

/-- A function has its name, if it has one, and its parameters from the first forms behind the tag. -/
theorem exists_header_of_load {context : Context} {isLambda isLambda' : Bool} {row : List Form}
    {parameters : List String} {body : Tree} {name : Option String} {span : Span}
    (h : load context (.list (.symbol (functionTag isLambda).symbol :: row))
      = .ok (.function parameters body name isLambda' span)) :
    ∃ naming forms others, row = naming ++ .list forms :: others
      ∧ List.Forall₂ Names naming name.toList ∧ List.Forall₂ Names forms parameters := by
  generalize hwhole : Form.list (.symbol (functionTag isLambda).symbol :: row) = whole at h
  generalize ht : Tree.function parameters body name isLambda' span = t at h
  have htag : (functionTag isLambda).symbol ≠ "at" := by cases isLambda <;> decide
  cases loads_of_load h with
  | located => exact absurd (Form.symbol.inj (List.cons.inj (Form.list.inj hwhole)).1) htag
  | header hparameters =>
    cases ht
    obtain ⟨-, rfl⟩ := List.cons.inj (Form.list.inj hwhole)
    exact ⟨[], _, [], rfl, .nil, Context.names_eq_ok_iff.mp hparameters⟩
  | function hparameters =>
    cases ht
    obtain ⟨-, rfl⟩ := List.cons.inj (Form.list.inj hwhole)
    exact ⟨[], _, [_], rfl, .nil, Context.names_eq_ok_iff.mp hparameters⟩
  | namedHeader hname hparameters =>
    cases ht
    obtain ⟨-, rfl⟩ := List.cons.inj (Form.list.inj hwhole)
    obtain ⟨forms, rfl, hforms⟩ := Context.parameters_eq_ok_iff.mp hparameters
    exact ⟨[_], forms, [], rfl, .cons (Context.name_eq_ok_iff.mp hname) .nil, hforms⟩
  | namedFunction hname hparameters =>
    cases ht
    obtain ⟨-, rfl⟩ := List.cons.inj (Form.list.inj hwhole)
    obtain ⟨forms, rfl, hforms⟩ := Context.parameters_eq_ok_iff.mp hparameters
    exact ⟨[_], forms, [_], rfl, .cons (Context.name_eq_ok_iff.mp hname) .nil, hforms⟩
  | lambdaHeader hparameters =>
    cases ht
    obtain ⟨-, rfl⟩ := List.cons.inj (Form.list.inj hwhole)
    obtain ⟨forms, rfl, hforms⟩ := Context.parameters_eq_ok_iff.mp hparameters
    exact ⟨[], forms, [], rfl, .nil, hforms⟩
  | lambda hparameters =>
    cases ht
    obtain ⟨-, rfl⟩ := List.cons.inj (Form.list.inj hwhole)
    obtain ⟨forms, rfl, hforms⟩ := Context.parameters_eq_ok_iff.mp hparameters
    exact ⟨[], forms, [_], rfl, .nil, hforms⟩
  | assignment arrow =>
    unfold assigned at ht
    split at ht
    · cases ht
    · cases ht
  | _ => cases ht

/-- Names with a space between each two are names in a row, up to the space before the first. -/
theorem printRow_eq (name : String) (names : List String) :
    printRow (name :: names) = ' ' :: printNames (name :: names) := by
  induction names generalizing name with
  | nil => simp [printRow, printNames]
  | cons next names ih =>
    rw [printRow_cons, ih]
    rfl

theorem readFrom_printNames (stack : Stack) (names : List String) (rest : List Char) :
    Form.readFrom stack (printNames names ++ rest)
      = Form.readFrom stack (printRow names ++ rest) := by
  cases names with
  | nil => rfl
  | cons name names => rw [printRow_eq, List.cons_append, readFrom_blank]

/-- The name of a function that is no lambda is written. -/
theorem writtenName_of_lambda {name : Option String} {isLambda : Bool}
    (hlambda : isLambda = true → name = none) : writtenName true name isLambda = name := by
  cases isLambda with
  | false => rfl
  | true => exact (hlambda rfl).symm

theorem exists_print_function (parameters : List String) (body : Tree) {name : Option String}
    {isLambda : Bool} (hlambda : isLambda = true → name = none) :
    ∃ rest, print true {} (.function parameters body name isLambda {})
      = '(' :: ((functionTag isLambda).symbol.toList ++ ((name.elim [] fun n => ' ' :: printName n)
        ++ ' ' :: '(' :: (printNames parameters ++ ')' :: rest))) := by
  refine ⟨(if body.isMissing then [] else ' ' :: print true {} body) ++ [')'], ?_⟩
  rw [print, located, if_pos rfl, functionHead_eq, writtenName_of_lambda hlambda, functionTag]
  simp

/-- The name and the parameters of a function that comes back survive. -/
theorem survives_of_parse_function {file : String} {parameters : List String} {body : Tree}
    {name : Option String} {isLambda : Bool} (hlambda : isLambda = true → name = none)
    (h : parse file (String.ofList (print true {} (.function parameters body name isLambda {})))
      = .ok (.function parameters body name isLambda {})) :
    (∀ parameter ∈ parameters, Survives parameter) ∧ ∀ n ∈ name, Survives n := by
  obtain ⟨form, hread, hload⟩ := parse_eq_ok_iff.mp h
  obtain ⟨rest, hprint⟩ := exists_print_function parameters body hlambda
  have hdelimited (s : List Char) :
      Form.Delimited ((name.elim [] fun n => ' ' :: printName n) ++ ' ' :: s) := by
    cases name with
    | none => exact delimited_blank _
    | some n => exact delimited_blank _
  rw [Form.read_eq_ok_iff, String.toList_ofList, hprint, readFrom_tagged _ (hdelimited _)] at hread
  have hname : ∀ n ∈ name, Survives n := by
    rintro n ⟨⟩
    by_contra hn
    -- the list of the parameters is the next form if the name is skipped, and a list is no name
    have hopen : Next (fun form => ¬ form.Names n)
        ⟨[.symbol (functionTag isLambda).symbol], [(.bracket .round, [])]⟩
        (' ' :: '(' :: (printNames parameters ++ ')' :: rest)) :=
      Next.blank (by decide) (Form.next_of_open fun _ => nofun)
    have hnext := next_ne_of_not_survives hn (Or.inl rfl) fun _ _ => hopen
    rw [Option.elim_some, List.cons_append, readFrom_blank] at hread
    obtain ⟨row, hfirst, hcloses⟩ := hnext _ hread
    obtain rfl := eq_list_of_closes hcloses
    obtain ⟨naming, forms, others, rfl, hnaming, -⟩ := exists_header_of_load hload
    obtain ⟨first, _, hnames, -, rfl⟩ := List.forall₂_cons_right_iff.mp hnaming
    exact hfirst first rfl hnames
  refine ⟨?_, hname⟩
  obtain ⟨naming, hreads, hlength⟩ : ∃ naming,
      Form.Reads (name.elim [] fun n => ' ' :: printName n) naming
        ∧ naming.length = name.toList.length := by
    cases name with
    | none => exact ⟨[], Form.reads_nil, rfl⟩
    | some n =>
      obtain ⟨form, hreads, -⟩ := writesName_printName (hname n rfl)
      exact ⟨[form], hreads.blank, rfl⟩
  rw [hreads _ _ (delimited_blank _), readFrom_blank, Form.readFrom_cons rfl,
    readFrom_printNames] at hread
  obtain ⟨row, ⟨more, hcloses⟩, hrow⟩ := exists_row_of_readFrom rfl hread
  obtain rfl := eq_list_of_closes hcloses
  have hbefore : (naming.reverse ++ [Form.symbol (functionTag isLambda).symbol]).reverse
      = .symbol (functionTag isLambda).symbol :: naming := by simp
  have hload' : load { file } (.list (.symbol (functionTag isLambda).symbol
      :: (naming ++ .list row :: more))) = .ok (.function parameters body name isLambda {}) := by
    rw [← List.cons_append, ← hbefore]
    exact hload
  obtain ⟨naming', forms, others, heq, hnaming, hforms⟩ := exists_header_of_load hload'
  -- as many forms were read for the name as were taken for it, so the lists after them are the same
  have hsame : naming.length = naming'.length := by rw [hlength, hnaming.length_eq]
  obtain ⟨-, hlists⟩ := List.append_inj heq hsame
  obtain rfl : row = forms := Form.list.inj (List.cons.inj hlists).1
  exact hrow hforms

/-! ## The exact condition -/

/-- Whether a tree can be printed and is loaded again from what is printed, as it is. -/
def ComesBack (file : String) (t : Tree) : Prop :=
  ∃ printed, unparse {} t = .ok printed ∧ parse file printed = .ok t

theorem comesBack_iff {file : String} {t : Tree} (h : t.unprintable? = none) :
    ComesBack file t ↔ parse file (String.ofList (print true {} t)) = .ok t := by
  have hprinted : unparse {} t = .ok (String.ofList (print true {} t)) := by rw [unparse, h]
  constructor
  · rintro ⟨printed, hunparse, hparse⟩
    obtain rfl := Except.ok.inj (hprinted.symm.trans hunparse)
    exact hparse
  · intro hparse
    exact ⟨_, hprinted, hparse⟩

theorem unprintableAll?_words (words : List String) :
    unprintableAll? (words.map fun word => .expr word [] {}) = none := by
  induction words with
  | nil => rfl
  | cons word words ih => exact ih

theorem writesAll_words {words : List String} (h : ∀ word ∈ words, IsWord word) :
    WritesAll false {} (printAll true {} (words.map fun word => .expr word [] {}))
      (words.map fun word => .expr word [] {}) := by
  induction words with
  | nil => exact writesAll_nil
  | cons word words ih =>
    obtain ⟨hword, hwords⟩ := List.forall_mem_cons.mp h
    exact (writes_leaf hword.legibleLeaf).cons (ih hwords)

/-- Whether a body is absent or is a tree that comes back: one that might have been loaded, with
nothing in it that cannot be read back and with the names that the loader gives. -/
def IsFaithfulBody (body : Tree) : Prop :=
  body = .missing ∨ Loaded true false {} body ∧ Legible true body
    ∧ Everywhere (fun u => ∀ a, u.assignment? = some a → a.NamesAgree) body

theorem IsFaithfulBody.writesBody {body : Tree} (h : IsFaithfulBody body) :
    WritesBody false {} (if body.isMissing then [] else ' ' :: print true {} body) body := by
  rcases h with rfl | ⟨hloaded, hlegible, hnames⟩
  · exact Or.inl ⟨rfl, rfl⟩
  · have hwrites := writes_print hloaded hlegible
    rw [reloaded_eq hloaded hnames] at hwrites
    rw [hloaded.isMissing]
    exact Or.inr ⟨_, rfl, hwrites⟩

theorem IsFaithfulBody.unprintable? {body : Tree} (h : IsFaithfulBody body) :
    body.unprintable? = none := by
  rcases h with rfl | ⟨hloaded, -⟩
  · rfl
  · exact hloaded.unprintable?

/-- A call comes back if and only if its name survives, and a function if and only if its parameters
and its name survive. -/
theorem comesBack_iff_survives (file : String) :
    (∀ (name : String) (words : List String), (∀ word ∈ words, IsWord word) →
      (ComesBack file (.call name (words.map (.expr · [] {})) {}) ↔ Survives name))
    ∧ ∀ (parameters : List String) (body : Tree) (name : Option String) (isLambda : Bool),
        (isLambda = true → name = none) → IsFaithfulBody body →
        (ComesBack file (.function parameters body name isLambda {})
          ↔ (∀ parameter ∈ parameters, Survives parameter) ∧ ∀ n ∈ name, Survives n) := by
  constructor
  · intro name words hwords
    have hprintable : (Tree.call name (words.map (.expr · [] {})) {}).unprintable? = none :=
      unprintableAll?_words words
    rw [comesBack_iff hprintable]
    constructor
    · exact survives_of_parse_call hwords
    · intro hname
      exact ((writesAll_words hwords).call hname).parse file
  · intro parameters body name isLambda hlambda hbody
    have hprintable : (Tree.function parameters body name isLambda {}).unprintable? = none :=
      hbody.unprintable?
    rw [comesBack_iff hprintable]
    constructor
    · exact survives_of_parse_function hlambda
    · rintro ⟨hparameters, hname⟩
      have hwritten := writtenName_of_lambda hlambda
      have hwrites := hbody.writesBody.function true isLambda (by rwa [hwritten]) hparameters
      rw [hwritten] at hwrites
      exact hwrites.parse file

/-- A name with a space, one with a backslash that stands for itself, and one that is read as a number
and back. -/
theorem comesBack_iff_survives_mixed :
    ComesBack "" (.call "my f" [.expr "x" [] {}] {})
      ∧ ComesBack "" (.function ["a\\b", "it's"] (.expr "x" [] {}) (some "Inf") false {}) := by
  have hword : IsWord "x" := ⟨by decide, by decide, rfl⟩
  have hspace : Survives "my f" := Or.inl rfl
  have hquote : Survives "it's" := Or.inl rfl
  have hbackslash : Survives "a\\b" := Or.inr (Or.inr ⟨rfl, rfl⟩)
  have hnumber : Survives "Inf" := Or.inr (Or.inl (by decide))
  have hbody : IsFaithfulBody (.expr "x" [] {}) := by
    refine Or.inr ⟨loaded_leaf _ _, ⟨hword.legibleLeaf, trivial⟩, ?_⟩
    exact everywhere_iff.mpr ⟨nofun, nofun⟩
  obtain ⟨hcall, hfunction⟩ := comesBack_iff_survives ""
  constructor
  · exact (hcall "my f" ["x"] (by simpa using hword)).mpr hspace
  · exact (hfunction _ _ _ false nofun hbody).mpr
      ⟨by simpa using ⟨hbackslash, hquote⟩, by simpa using hnumber⟩

/-- Three names that do not survive.  A name of digits is written bare and refused, a parameter with a
tab in it comes back as two, and a function whose name is a tab comes back without a name. -/
theorem comesBack_iff_survives_misread :
    (parse "" "(call \"12\")" = .ok (.call "12" [] {})
      ∧ unparse {} (.call "12" [] {}) = .ok "(call 12)"
      ∧ parse "" "(call 12)"
        = .error (.refused ⟨.expectedName (.integer 12), .integer 12, ""⟩))
    ∧ (unparse {} (.function ["a\tb"] .missing none false {}) = .ok "(function (a\tb))"
      ∧ parse "" "(function (a\tb))" = .ok (.function ["a", "b"] .missing none false {}))
    ∧ unparse {} (.function [] .missing (some "\t") false {}) = .ok "(function \t ())"
      ∧ parse "" "(function \t ())" = .ok (.function [] .missing none false {}) := by
  refine ⟨⟨by cbv, rfl, by cbv⟩, ⟨rfl, by cbv⟩, rfl, by cbv⟩

end Tree

end TailLint
