import Mathlib
import TailLint.Proofs.BareNames

/-!
# String literals that survive printing

A leaf that comes from a string has the text of the string for its text, between two quotes.  The
escapes were taken out when the string was read, and the printer does not put them back: it sees the
quote at the front, takes the text for a literal and writes it as it is.  So the same text is read for
a second time as the inside of a string.

It comes through if nothing in it has a meaning there (`Form.readsVerbatim`): no quote, and no
backslash before the closing quote or before one of the seven characters that a backslash may stand
before.  This module shows that every other text is lost, in whatever row of literals it stands.  A
quote ends its literal too early.  A backslash at the end takes the closing quote into the literal,
which then goes on into the next one.  The only text that looks right for a while is a row of
backslashes, of which half are lost; from then on what is read is behind what it should be, and it
never catches up (`Form.readsVerbatim_of_readString`).

* `Form.readString_verbatim` --- a text without such a place is read as it stands;
* `Form.readsVerbatim_of_readString` --- what is read as it stands is such a text;
* `Tree.next_ne_of_not_readsVerbatim` --- where any other literal is printed, another string is read
  next, and nothing that follows can mend it;
* `Tree.exists_row_of_literals` --- if a row of literals comes back, all of them are read as they
  stand.
-/

namespace TailLint

namespace Form

/-! ## The inside of a string -/

/-- The characters that have a meaning after a backslash in a string. -/
def stringEscapes : List Char := ['\\', '"', 'b', 'f', 'n', 'r', 't']

/-- Before any other character a backslash stays. -/
theorem stringEscape_of_not_mem {c : Char} (h : c ∉ stringEscapes) : stringEscape c = ['\\', c] := by
  simp only [stringEscapes, List.mem_cons, List.not_mem_nil, or_false, not_or] at h
  simp [stringEscape, h]

/-- Before those the two become one character, and a backslash only if they were two backslashes. -/
theorem stringEscape_of_mem {c : Char} (h : c ∈ stringEscapes) :
    ∃ d, stringEscape c = [d] ∧ (d = '\\' → c = '\\') := by
  simp only [stringEscapes, List.mem_cons, List.not_mem_nil, or_false] at h
  rcases h with rfl | rfl | rfl | rfl | rfl | rfl | rfl
  · exact ⟨'\\', rfl, id⟩
  all_goals exact ⟨_, rfl, by decide⟩

/-- Whether a text is read to its end and as it stands when it is read as the inside of a string: no
quote ends it, and each backslash stands for itself. -/
def readsVerbatim : List Char → Bool
  | [] => true
  | '"' :: _ => false
  | '\\' :: [] => false
  | '\\' :: c :: rest => !stringEscapes.contains c && readsVerbatim rest
  | _ :: rest => readsVerbatim rest

/-- What has been read of a string stays. -/
theorem prefix_of_readString {read s text after : List Char}
    (h : readString read s = .ok (text, after)) : read.reverse <+: text := by
  fun_induction readString read s with
  | case1 => cases h
  | case2 read rest =>
    cases h
    exact List.prefix_refl _
  | case3 => cases h
  | case4 read c rest ih =>
    refine List.IsPrefix.trans ?_ (ih h)
    simp
  | case5 read c rest _ _ _ ih =>
    refine List.IsPrefix.trans ?_ (ih h)
    simp

theorem readString_verbatim {s : List Char} (h : readsVerbatim s = true) (read rest : List Char) :
    readString read (s ++ '"' :: rest) = .ok (read.reverse ++ s, rest) := by
  fun_induction readsVerbatim s generalizing read with
  | case1 => simp [readString]
  | case2 => cases h
  | case3 => cases h
  | case4 c s ih =>
    rw [Bool.and_eq_true_iff, Bool.not_eq_true'] at h
    have hc : c ∉ stringEscapes := by
      simpa using h.1
    rw [List.cons_append, List.cons_append, readString, stringEscape_of_not_mem hc, ih h.2]
    simp
  | case5 c s hquote hlast hpair ih =>
    have hb : c ≠ '\\' := ne_backslash_of_cases hlast hpair
    rw [List.cons_append, readString.eq_5 _ _ _ (by simpa using hquote) (by simp [hb])
      (by simp [hb]), ih h]
    simp

/-- If some characters have been read and what is read in the end is known, they are the next ones of
it. -/
theorem isPrefix_of_readString {read first expected s after : List Char}
    (h : readString (first.reverse ++ read) s = .ok (read.reverse ++ expected, after)) :
    first <+: expected := by
  have hfront := prefix_of_readString h
  rwa [List.reverse_append, List.reverse_reverse, List.prefix_append_right_inj] at hfront

/-- A row of backslashes is the same with a backslash at its end or at its front. -/
theorem replicate_append_backslash (n : Nat) (s : List Char) :
    List.replicate n '\\' ++ '\\' :: s = '\\' :: (List.replicate n '\\' ++ s) := by
  rw [List.append_cons, ← List.replicate_succ', List.replicate_succ, List.cons_append]

theorem eq_zero_of_isPrefix {c : Char} (hc : c ≠ '\\') {n : Nat} {s : List Char}
    (h : [c] <+: List.replicate n '\\' ++ s) : n = 0 := by
  cases n with
  | zero => rfl
  | succ n =>
    rw [List.replicate_succ, List.cons_append, List.cons_prefix_cons] at h
    exact absurd h.1 hc

/-- What is read of a text as the inside of a string is the text with some backslashes before it only
if there are none of these and the text is read as it stands.  The backslashes are those that pairs of
them have cost so far: reading that is behind stays behind. -/
theorem readsVerbatim_of_readString {read s rest after : List Char} {n : Nat}
    (h : readString read (s ++ '"' :: rest)
      = .ok (read.reverse ++ (List.replicate n '\\' ++ s), after)) :
    n = 0 ∧ readsVerbatim s = true := by
  fun_induction readsVerbatim s generalizing read n with
  | case1 =>
    have hread := congrArg Prod.fst (Except.ok.inj h)
    simpa using hread
  | case2 s =>
    have hread := congrArg Prod.fst (Except.ok.inj h)
    simp at hread
  | case3 =>
    -- the closing quote is read in place of the backslash before it
    rw [replicate_append_backslash] at h
    have hfront : ['"'] <+: _ := isPrefix_of_readString h
    simp at hfront
  | case4 c s ih =>
    rw [List.cons_append, List.cons_append, readString, replicate_append_backslash] at h
    by_cases hc : c ∈ stringEscapes
    · obtain ⟨d, hd, hbackslash⟩ := stringEscape_of_mem hc
      rw [hd] at h
      have hfront : [d] <+: _ := isPrefix_of_readString h
      obtain rfl : d = '\\' := (List.cons_prefix_cons.mp hfront).1
      obtain rfl := hbackslash rfl
      -- of two backslashes one is read
      rw [replicate_append_backslash] at h
      have hbehind : readString ('\\' :: read) (s ++ '"' :: rest)
          = .ok (('\\' :: read).reverse ++ (List.replicate (n + 1) '\\' ++ s), after) := by
        simpa [List.replicate_succ] using h
      obtain ⟨hzero, -⟩ := ih hbehind
      cases hzero
    · rw [stringEscape_of_not_mem hc] at h
      have hfront : ['\\', c] <+: _ := isPrefix_of_readString h
      have hb : c ≠ '\\' := fun heq => hc (heq ▸ List.mem_cons_self)
      obtain rfl := eq_zero_of_isPrefix hb (List.cons_prefix_cons.mp hfront).2
      have hkeeps : readString (c :: '\\' :: read) (s ++ '"' :: rest)
          = .ok ((c :: '\\' :: read).reverse ++ (List.replicate 0 '\\' ++ s), after) := by
        simpa using h
      refine ⟨rfl, ?_⟩
      rw [(ih hkeeps).2]
      simpa using hc
  | case5 c s hquote hlast hpair ih =>
    have hb : c ≠ '\\' := ne_backslash_of_cases hlast hpair
    rw [List.cons_append, readString.eq_5 _ _ _ (by simpa using hquote) (by simp [hb])
      (by simp [hb])] at h
    have hfront : [c] <+: _ := isPrefix_of_readString h
    obtain rfl := eq_zero_of_isPrefix hb hfront
    have hkeeps : readString (c :: read) (s ++ '"' :: rest)
        = .ok ((c :: read).reverse ++ (List.replicate 0 '\\' ++ s), after) := by
      simpa using h
    exact ih hkeeps

end Form

namespace Tree

open Form (Next Closes Stack readsVerbatim)

/-! ## Rows of literals -/

/-- The leaf that a string is loaded as. -/
def literal (text : String) : Tree := .expr ("\"" ++ text ++ "\"") [] {}

/-- The block that a row of strings is loaded as. -/
def literals (texts : List String) : Tree := .block (texts.map literal) {}

theorem literal_injective : Function.Injective literal := by
  intro text other h
  have htext : "\"" ++ text ++ "\"" = "\"" ++ other ++ "\"" := by
    injection h
  have hlist := congrArg String.toList htext
  rw [← String.toList_inj]
  simpa using hlist

theorem load_literals (file : String) (texts : List String) :
    load { file } (.list (.symbol "block" :: texts.map .string)) = .ok (literals texts) := by
  refine load_of_loads (.block ?_)
  induction texts with
  | nil => rfl
  | cons text texts ih =>
    rw [List.map_cons, loadStatements, ih]
    rfl

/-- A literal as it is printed. -/
def printLiteral (text : String) : List Char := '"' :: text.toList ++ ['"']

/-- Literals as they are printed in a row, each after a space. -/
def printLiterals (texts : List String) : List Char :=
  texts.flatMap fun text => ' ' :: printLiteral text

theorem printLiterals_cons (text : String) (texts : List String) :
    printLiterals (text :: texts) = ' ' :: (printLiteral text ++ printLiterals texts) := by
  simp [printLiterals]

theorem delimited_printLiterals (texts : List String) (rest : List Char) :
    Form.Delimited (printLiterals texts ++ ')' :: rest) := by
  cases texts with
  | nil => exact Form.delimited_cons (by decide)
  | cons text texts =>
    rw [printLiterals_cons]
    exact delimited_blank _

theorem print_literal (text : String) : print true {} (literal text) = printLiteral text := by
  show printLeaf ("\"" ++ text ++ "\"") = _
  have htext : ("\"" ++ text ++ "\"").toList = printLiteral text := by
    simp [printLiteral]
  rw [printLeaf, htext]
  rfl

theorem printAll_literals (texts : List String) :
    printAll true {} (texts.map literal) = printLiterals texts := by
  induction texts with
  | nil => rfl
  | cons text texts ih =>
    rw [List.map_cons, printAll, print_literal, ih, printLiterals_cons, List.cons_append]

theorem print_literals (texts : List String) :
    print true {} (literals texts)
      = '(' :: (Tag.block.symbol.toList ++ (printLiterals texts ++ [')'])) := by
  rw [literals, print, located, if_pos rfl, printAll_literals]
  simp [Tag.symbol]

/-! ## Literals that are read as they stand -/

theorem reads_literal {text : String} (h : readsVerbatim text.toList = true) :
    Form.Reads (printLiteral text) [.string text] := by
  have hreads := Form.reads_of_readString fun rest => Form.readString_verbatim h [] rest
  rwa [List.reverse_nil, List.nil_append, String.ofList_toList] at hreads

theorem writesAll_literals {texts : List String}
    (h : ∀ text ∈ texts, readsVerbatim text.toList = true) :
    WritesAll false {} (printLiterals texts) (texts.map literal) := by
  induction texts with
  | nil => exact writesAll_nil
  | cons text texts ih =>
    obtain ⟨htext, htexts⟩ := List.forall_mem_cons.mp h
    have hwrites : Writes false {} (printLiteral text) (literal text) :=
      ⟨.string text, reads_literal htext, rfl, fun _ => rfl⟩
    rw [printLiterals_cons]
    exact hwrites.cons (ih htexts)

/-! ## Literals that are not -/

/-- Where a literal is printed that is not read as it stands, another string is read next. -/
theorem next_ne_of_not_readsVerbatim {text : String} (h : ¬ readsVerbatim text.toList = true)
    {stack : Stack} (rest : List Char) :
    Next (fun form => ∃ other, form = .string other ∧ other ≠ text) stack
      (printLiteral text ++ rest) := by
  rw [printLiteral, List.cons_append, List.cons_append, List.append_assoc, List.singleton_append]
  refine Form.next_of_string fun read after hread => ⟨_, rfl, ?_⟩
  rintro rfl
  rw [String.toList_ofList] at h hread
  exact h (Form.readsVerbatim_of_readString (n := 0) hread).2

/-- If a printed row of literals comes back, all of them are read as they stand. -/
theorem exists_row_of_literals {stack : Stack} {texts : List String} {rest : List Char}
    {result : List Form}
    (h : Form.readFrom stack (printLiterals texts ++ ')' :: rest) = .ok result) :
    ∃ more, Closes stack.levels (stack.forms.reverse ++ more) result
      ∧ ∀ file, loadStatements { file } more = .ok (texts.map literal) →
          ∀ text ∈ texts, readsVerbatim text.toList = true := by
  induction texts generalizing stack with
  | nil =>
    obtain ⟨more, hcloses⟩ := Form.persists_of_readFrom h
    exact ⟨more, hcloses, fun _ _ => nofun⟩
  | cons text texts ih =>
    rw [printLiterals_cons, List.cons_append, List.append_assoc, readFrom_blank] at h
    by_cases htext : readsVerbatim text.toList = true
    · rw [reads_literal htext stack _ (delimited_printLiterals texts rest)] at h
      obtain ⟨more, hcloses, hrow⟩ := ih h
      refine ⟨.string text :: more, ?_, fun file hload => ?_⟩
      · simpa [Stack.pushAll] using hcloses
      · obtain ⟨_, -, hload⟩ := bind_eq_ok_iff.mp hload
        obtain ⟨ts, hts, hload⟩ := bind_eq_ok_iff.mp hload
        have heq : ts = texts.map literal := (List.cons.inj (Except.ok.inj hload)).2
        exact List.forall_mem_cons.mpr ⟨htext, hrow file (heq ▸ hts)⟩
    · obtain ⟨more, hnext, hcloses⟩ := next_ne_of_not_readsVerbatim htext _ result h
      refine ⟨more, hcloses, fun file hload => ?_⟩
      cases more with
      | nil => cases hload
      | cons form more =>
        obtain ⟨other, rfl, hne⟩ := hnext form rfl
        obtain ⟨t, ht, hload⟩ := bind_eq_ok_iff.mp hload
        obtain ⟨ts, -, hload⟩ := bind_eq_ok_iff.mp hload
        have hother : literal other = t := Except.ok.inj ht
        have hfirst : t = literal text := (List.cons.inj (Except.ok.inj hload)).1
        exact absurd (literal_injective (hother.trans hfirst)) hne

theorem readsVerbatim_of_parse {file : String} {texts : List String}
    (h : parse file (String.ofList (print true {} (literals texts))) = .ok (literals texts)) :
    ∀ text ∈ texts, readsVerbatim text.toList = true := by
  obtain ⟨form, hread, hload⟩ := parse_eq_ok_iff.mp h
  rw [Form.read_eq_ok_iff, String.toList_ofList, print_literals,
    readFrom_tagged .block (delimited_printLiterals texts [])] at hread
  obtain ⟨row, hcloses, hrow⟩ := exists_row_of_literals hread
  obtain rfl := eq_list_of_closes hcloses
  obtain ⟨statements, hstatements, hload⟩ := bind_eq_ok_iff.mp hload
  have heq : statements = texts.map literal := by
    injection Except.ok.inj hload
  exact hrow file (heq ▸ hstatements)

/-! ## The exact condition -/

theorem unprintableAll?_literals (texts : List String) :
    unprintableAll? (texts.map literal) = none := by
  induction texts with
  | nil => rfl
  | cons text texts ih => exact ih

/-- Strings are loaded as a block of literals, and the block comes back if and only if each of them is
read as it stands. -/
theorem comesBack_literals_iff (file : String) (texts : List String) :
    load { file } (.list (.symbol "block" :: texts.map .string)) = .ok (literals texts)
      ∧ (ComesBack file (literals texts)
        ↔ ∀ text ∈ texts, readsVerbatim text.toList = true) := by
  have hprintable : (literals texts).unprintable? = none := unprintableAll?_literals texts
  refine ⟨load_literals file texts, ?_⟩
  rw [comesBack_iff hprintable]
  constructor
  · exact readsVerbatim_of_parse
  · intro h
    have hwrites := (writesAll_literals h).block
    rw [← printAll_literals] at hwrites
    exact hwrites.parse file

/-- Three literals that are lost.  A quote leaves a text that is refused, an escaped line break comes
back as a line break, and quotes with a space between them make two statements of one. -/
theorem comesBack_literals_misread :
    (unparse {} (literals ["a\"b"]) = .ok "(block \"a\"b\")"
      ∧ parse "" "(block \"a\"b\")"
        = .error (.refused ⟨.notAForm .unclosedString, .missing, ""⟩))
    ∧ (unparse {} (literals ["\\n"]) = .ok "(block \"\\n\")"
      ∧ parse "" "(block \"\\n\")" = .ok (literals ["\n"]))
    ∧ unparse {} (literals ["a\" \"b"]) = .ok "(block \"a\" \"b\")"
      ∧ parse "" "(block \"a\" \"b\")" = .ok (literals ["a", "b"]) := by
  refine ⟨⟨rfl, by cbv⟩, ⟨rfl, by cbv⟩, rfl, by cbv⟩

end Tree

end TailLint
