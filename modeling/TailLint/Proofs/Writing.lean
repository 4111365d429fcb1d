import TailLint.Proofs.Loaded
import TailLint.Tree.Printer

/-!
# Texts that are loaded as a given tree

Between a printed tree and the tree that is loaded from it stands a form: the reader makes
the form of the text, the loader makes the tree of the form.  Which form it is matters to
nobody else, so it is hidden: `Writes` says of a text and a tree that there is a form that
joins them, in every context with the right span.

The statement about whole trees is then put together the way the printer puts texts
together, one lemma for each thing the printer writes (`Writes.call`, `Writes.located` and
so on).  At the bottom are the names and the leaves, and with them the only conditions:

* a name is read back if it needs quotes, or if it is the spelling of a number that is not
  finite, or if it is a symbol that is read whole (`Survives`); most of these are plain, and
  easier to recognise by that (`LegibleName`);
* a leaf is read back if it is a plain symbol, a number that is a name or a whole number,
  or a string literal with neither quotes nor backslashes inside (`LegibleLeaf`).

They are conditions on the two halves together.  The printer decides from eight characters
whether to write quotes, the reader has six blanks and an escape character, and so there are
names that are written bare and not read back; and a leaf that needs quotes comes back with
the quotes as part of its text.
-/

namespace TailLint.Tree

open Form (Reads Delimited)

/-! ## Legible names and leaves -/

/-- The spellings of the numbers that are not finite. -/
def nonFiniteNames : List String := ["Inf", "-Inf", "NaN"]

/-- Whether a text has no backslash and no blank other than the space, which the printer
looks for itself. -/
def IsPlain (text : String) : Prop :=
  ∀ c ∈ text.toList, c ∉ ['\\', '\t', '\n', '\r', '\x0b', '\x0c']

instance (text : String) : Decidable (IsPlain text) := List.decidableBAll _ text.toList

/-- Whether the reader takes a text for a symbol. -/
def IsSymbol (text : String) : Prop := Form.ofAtom text.toList = .symbol text

/-- The names that are read back when they are printed. -/
def Survives (name : String) : Prop :=
  needsQuotes name.toList = true ∨ name ∈ nonFiniteNames
    ∨ Form.readsWhole name.toList = true ∧ IsSymbol name

/-- The names that are read back and have nothing in them that the reader might mistake. -/
def LegibleName (name : String) : Prop :=
  needsQuotes name.toList = true ∨ IsPlain name ∧ (IsSymbol name ∨ name ∈ nonFiniteNames)

/-- The texts of leaves that are read back when they are printed. -/
def LegibleLeaf (text : String) : Prop :=
  (needsQuotes text.toList = false ∧ IsPlain text ∧ IsSymbol text) ∨ text ∈ nonFiniteNames
    ∨ (∃ n : Int, text = String.ofList (Text.intText n) ∧ ShortInt n)
    ∨ ∃ inside : List Char, text = "\"" ++ String.ofList inside ++ "\""
        ∧ ∀ c ∈ inside, c ≠ '"' ∧ c ≠ '\\'

/-- What needs no quotes and is plain is an atom as it stands. -/
theorem isBare_of_isPlain {text : String} (hquotes : needsQuotes text.toList = false)
    (hplain : IsPlain text) : Form.IsBare text.toList := by
  simp only [needsQuotes, Bool.or_eq_false_iff, List.isEmpty_eq_false_iff,
    List.any_eq_false] at hquotes
  refine ⟨hquotes.1, fun c hc => ?_⟩
  have hq := hquotes.2 c hc
  have hp := hplain c hc
  simp only [List.contains_eq_mem, List.mem_cons, List.not_mem_nil, or_false, decide_eq_true_eq,
    not_or] at hq hp
  have hblank : Text.isBlank c = false := by
    have hcode (n : Nat) (d : Char) (hd : d = Char.ofNat n) (hne : c ≠ d) : c.toNat ≠ n := by
      intro hn
      rw [← hn, Char.ofNat_toNat] at hd
      exact hne hd.symm
    have h9 := hcode 9 '\t' rfl hp.2.1
    have h10 := hcode 10 '\n' rfl hp.2.2.1
    have h11 := hcode 11 '\x0b' rfl hp.2.2.2.2.1
    have h12 := hcode 12 '\x0c' rfl hp.2.2.2.2.2
    have h13 := hcode 13 '\r' rfl hp.2.2.2.1
    simp only [Text.isBlank, hq.1, decide_false, Bool.false_or, Bool.and_eq_false_iff,
      decide_eq_false_iff_not]
    omega
  simp only [Form.endsAtom, hblank, Bool.false_or, Bool.or_eq_false_iff, decide_eq_false_iff_not]
  tauto

/-! ## Names -/

/-- Whether a text is read as a form that is the given name. -/
def WritesName (text : List Char) (name : String) : Prop :=
  ∃ form, Reads text [form] ∧ ∀ context : Context, context.name form = .ok name

/-- Between quotes, a backslash before each backslash and each quote is taken out again. -/
theorem readString_quoteName (name read rest : List Char) :
    Form.readString read
        (name.flatMap (fun c => if c = '\\' || c = '"' then ['\\', c] else [c]) ++ '"' :: rest)
      = .ok (read.reverse ++ name, rest) := by
  induction name generalizing read with
  | nil => simp [Form.readString]
  | cons c name ih =>
    rw [List.flatMap_cons, List.append_assoc]
    by_cases hc : c = '\\' ∨ c = '"'
    · have hescape : Form.stringEscape c = [c] := by
        rcases hc with rfl | rfl <;> rfl
      rw [if_pos (by simpa using hc), List.cons_append, List.cons_append, List.nil_append,
        Form.readString, hescape, ih]
      simp
    · have hb : c ≠ '\\' := fun h => hc (Or.inl h)
      have hq : c ≠ '"' := fun h => hc (Or.inr h)
      rw [if_neg (by simpa using hc), List.cons_append, List.nil_append,
        Form.readString.eq_5 _ _ _ (by simp [hq]) (by simp [hb]) (by simp [hb]), ih]
      simp

theorem reads_quoteName (name : List Char) :
    Reads (quoteName name) [.string (String.ofList name)] :=
  Form.reads_of_readString fun rest => readString_quoteName name [] rest

/-- The spellings of the numbers that are not finite are read as those numbers. -/
theorem ofAtom_of_mem_nonFiniteNames {name : String} (h : name ∈ nonFiniteNames) :
    ∃ value : Binary64, Form.ofAtom name.toList = .float value ∧ value.isFinite = false
      ∧ Form.numberText value = name := by
  simp only [nonFiniteNames, List.mem_cons, List.not_mem_nil, or_false] at h
  rcases h with rfl | rfl | rfl
  · exact ⟨.infinite false, rfl, rfl, rfl⟩
  · exact ⟨.infinite true, rfl, rfl, rfl⟩
  · exact ⟨.nan, rfl, rfl, rfl⟩

theorem isBare_of_mem_nonFiniteNames {name : String} (h : name ∈ nonFiniteNames) :
    Form.IsBare name.toList := by
  simp only [nonFiniteNames, List.mem_cons, List.not_mem_nil, or_false] at h
  rcases h with rfl | rfl | rfl <;> decide

theorem survives_of_legibleName {name : String} (h : LegibleName name) : Survives name := by
  by_cases hquotes : needsQuotes name.toList = true
  · exact Or.inl hquotes
  · obtain ⟨hplain, hsymbol | hnumber⟩ := h.resolve_left hquotes
    · have hbare := isBare_of_isPlain (Bool.eq_false_iff.mpr hquotes) hplain
      exact Or.inr (Or.inr ⟨Form.readsWhole_of_isBare hbare, hsymbol⟩)
    · exact Or.inr (Or.inl hnumber)

/-- What needs no quotes has none of the characters in it that the printer looks for. -/
theorem not_mem_of_needsQuotes {name : List Char} (h : needsQuotes name = false) {c : Char}
    (hc : c ∈ name) : c ∉ [' ', '(', ')', '"', '\'', '[', ']', ';'] := by
  simp only [needsQuotes, Bool.or_eq_false_iff, List.any_eq_false] at h
  exact fun hmem => h.2 c hc (List.contains_iff_mem.mpr hmem)

/-- A name that survives is read back. -/
theorem writesName_printName {name : String} (h : Survives name) :
    WritesName (printName name) name := by
  unfold printName
  by_cases hquotes : needsQuotes name.toList = true
  · rw [if_pos hquotes]
    refine ⟨_, reads_quoteName name.toList, fun context => ?_⟩
    rw [String.ofList_toList]
    rfl
  · rw [if_neg hquotes]
    rcases h.resolve_left hquotes with hnumber | ⟨hwhole, hsymbol⟩
    · obtain ⟨value, hvalue, hfinite, htext⟩ := ofAtom_of_mem_nonFiniteNames hnumber
      refine ⟨_, Form.reads_atom (isBare_of_mem_nonFiniteNames hnumber), fun context => ?_⟩
      rw [hvalue, Context.name, hfinite, htext]
      rfl
    · have hne : name.toList ≠ [] := by
        intro hnil
        rw [hnil] at hquotes
        exact hquotes rfl
      have hquote : name.toList.head? ≠ some '\'' := fun hhead =>
        not_mem_of_needsQuotes (Bool.eq_false_iff.mpr hquotes) (List.mem_of_mem_head? hhead)
          (by simp)
      refine ⟨_, Form.reads_whole hne hquote hwhole, fun context => ?_⟩
      rw [hsymbol]
      rfl

/-- Names that survive, with a space between each two, are read back one by one. -/
theorem reads_printNames :
    ∀ {names : List String}, (∀ name ∈ names, Survives name) →
      ∃ forms, Reads (printNames names) forms
        ∧ ∀ context : Context, context.names forms = .ok names
  | [], _ => ⟨[], Form.reads_nil, fun _ => rfl⟩
  | [name], h => by
    obtain ⟨form, hread, hname⟩ := writesName_printName (h name List.mem_cons_self)
    refine ⟨[form], hread, fun context => ?_⟩
    rw [Context.names, hname]
    rfl
  | name :: next :: rest, h => by
    obtain ⟨form, hread, hname⟩ := writesName_printName (h name List.mem_cons_self)
    obtain ⟨forms, hreads, hnames⟩ :=
      reads_printNames fun other hother => h other (List.mem_cons_of_mem name hother)
    refine ⟨form :: forms, hread.append (Form.delimited_cons (by decide)) hreads.blank,
      fun context => ?_⟩
    rw [Context.names, hname, hnames]
    rfl

/-! ## Trees -/

/-- Whether a text is read as a form that is loaded as the given tree, in every context
with the given span and flag.  The form is no comment, so that it may be a statement. -/
def Writes (spanned : Bool) (outer : Span) (text : List Char) (t : Tree) : Prop :=
  ∃ form, Reads text [form] ∧ form.isComment = false
    ∧ ∀ file : String, load ⟨file, outer, spanned⟩ form = .ok t

/-- Whether a text is read as forms that are loaded as the given row of trees.  It starts
with a blank, unless it is empty, so that it may follow anything. -/
def WritesAll (spanned : Bool) (outer : Span) (text : List Char) (ts : List Tree) : Prop :=
  Delimited text ∧ ∃ forms, Reads text forms ∧ (∀ form ∈ forms, form.isComment = false)
    ∧ ∀ file : String, loadAll ⟨file, outer, spanned⟩ forms = .ok ts

section Shapes

variable {spanned : Bool} {outer : Span}

/-- A form after a blank, and more forms after it. -/
theorem reads_blank_append {text others : List Char} {form : Form} {forms : List Form}
    (h : Reads text [form]) (hd : Delimited others) (ho : Reads others forms) :
    Reads (' ' :: text ++ others) (form :: forms) :=
  h.blank.append hd ho

theorem delimited_blank (text : List Char) : Delimited (' ' :: text) :=
  Form.delimited_cons (by decide)

theorem writesAll_nil : WritesAll spanned outer [] [] :=
  ⟨Form.delimited_nil, [], Form.reads_nil, nofun, fun _ => rfl⟩

theorem Writes.cons {text others : List Char} {t : Tree} {ts : List Tree}
    (h : Writes spanned outer text t) (ho : WritesAll spanned outer others ts) :
    WritesAll spanned outer (' ' :: text ++ others) (t :: ts) := by
  obtain ⟨form, hread, hcomment, hload⟩ := h
  obtain ⟨hd, forms, hreads, hcomments, hloads⟩ := ho
  refine ⟨delimited_blank _, form :: forms, reads_blank_append hread hd hreads, ?_, fun file => ?_⟩
  · intro other hother
    rcases List.mem_cons.mp hother with rfl | hother
    · exact hcomment
    · exact hcomments other hother
  · rw [loadAll, hload, hloads]
    rfl

/-! ### Tagged lists -/

/-- A tag is read as the symbol that it is. -/
theorem reads_symbol (tag : Tag) : Reads tag.symbol.toList [.symbol tag.symbol] := by
  have hbare : Form.IsBare tag.symbol.toList := by
    cases tag with
    | assignment arrow => cases arrow <;> decide
    | _ => decide
  have hsymbol : Form.ofAtom tag.symbol.toList = .symbol tag.symbol := by
    cases tag with
    | assignment arrow => cases arrow <;> rfl
    | _ => rfl
  have := Form.reads_atom hbare
  rwa [hsymbol] at this

/-- No tag starts a comment. -/
theorem isComment_tagged (tag : Tag) (forms : List Form) :
    (Form.list (.symbol tag.symbol :: forms)).isComment = false := by
  cases tag with
  | assignment arrow => cases arrow <;> rfl
  | _ => rfl

/-- A tag and what follows it, between brackets. -/
theorem writes_tagged (tag : Tag) {text : List Char} {forms : List Form} {t : Tree}
    (hd : Delimited text) (h : Reads text forms)
    (hload : ∀ file, Loads ⟨file, outer, spanned⟩ (.list (.symbol tag.symbol :: forms)) t) :
    Writes spanned outer ('(' :: (tag.symbol.toList ++ text) ++ [')']) t :=
  ⟨.list (.symbol tag.symbol :: forms), ((reads_symbol tag).append hd h).list,
    isComment_tagged tag forms, fun file => load_of_loads (hload file)⟩

/-- Statements without comments among them are loaded as a plain row. -/
theorem loadStatements_eq_loadAll {context : Context} {forms : List Form}
    (h : ∀ form ∈ forms, form.isComment = false) :
    loadStatements context forms = loadAll context forms := by
  rw [loadStatements_eq, List.filter_eq_self.mpr fun form hform => by simp [h form hform]]

theorem WritesAll.block {text : List Char} {ts : List Tree}
    (h : WritesAll spanned outer text ts) :
    Writes spanned outer ("(block".toList ++ text ++ [')']) (.block ts outer) := by
  obtain ⟨hd, forms, hreads, hcomments, hloads⟩ := h
  refine writes_tagged .block hd hreads fun file => .block ?_
  rw [loadStatements_eq_loadAll hcomments, hloads]

theorem WritesAll.call {name : String} {text : List Char} {ts : List Tree}
    (hname : Survives name) (h : WritesAll spanned outer text ts) :
    Writes spanned outer ("(call ".toList ++ printName name ++ text ++ [')'])
      (.call name ts outer) := by
  obtain ⟨form, hread, hcallee⟩ := writesName_printName hname
  obtain ⟨hd, forms, hreads, -, hloads⟩ := h
  have hrow := reads_blank_append hread hd hreads
  simpa [Tag.symbol] using writes_tagged .call (delimited_blank _) hrow fun file =>
    Loads.call (hcallee _) (hloads file)

theorem WritesAll.expr {name : String} {text : List Char} {ts : List Tree}
    (hname : Survives name) (h : WritesAll spanned outer text ts) :
    Writes spanned outer ("(expr ".toList ++ printName name ++ text ++ [')'])
      (.expr name ts outer) := by
  obtain ⟨form, hread, htext⟩ := writesName_printName hname
  obtain ⟨hd, forms, hreads, -, hloads⟩ := h
  have hrow := reads_blank_append hread hd hreads
  simpa [Tag.symbol] using writes_tagged .expr (delimited_blank _) hrow fun file =>
    Loads.expr (htext _) (hloads file)

/-- The two sides of an assignment, the value of which is given its name. -/
theorem WritesAll.assignment (arrow : Arrow) {text : List Char} {left right : Tree}
    (h : WritesAll spanned outer text [left, right]) :
    Writes spanned outer ('(' :: arrow.symbol.toList ++ text ++ [')'])
      (assigned arrow left right outer) := by
  obtain ⟨hd, forms, hreads, -, hloads⟩ := h
  simp only [loadAll_eq_ok_iff] at hloads
  -- two trees come from two forms, whatever the file
  obtain ⟨form₁, rest₁, -, hrest₁, rfl⟩ := List.forall₂_cons_right_iff.mp (hloads "")
  obtain ⟨form₂, rest₂, -, hrest₂, rfl⟩ := List.forall₂_cons_right_iff.mp hrest₁
  obtain rfl := List.forall₂_nil_right_iff.mp hrest₂
  simpa [Tag.symbol] using writes_tagged (.assignment arrow) hd hreads fun file => by
    have hrow := hloads file
    simp only [List.forall₂_cons, List.forall₂_nil_left_iff, and_true] at hrow
    exact Loads.assignment arrow hrow.1 hrow.2

theorem Writes.condition {text : List Char} {condition : Tree}
    (h : Writes spanned outer text condition) :
    Writes spanned outer ("(if ".toList ++ text ++ [')'])
      (.conditional condition .missing .missing outer) := by
  obtain ⟨form, hread, -, hload⟩ := h
  simpa [Tag.symbol] using writes_tagged .conditional (delimited_blank _) hread.blank fun file =>
    Loads.condition (hload file)

theorem Writes.consequent {text₁ text₂ : List Char} {condition consequent : Tree}
    (h₁ : Writes spanned outer text₁ condition) (h₂ : Writes spanned outer text₂ consequent) :
    Writes spanned outer ("(if ".toList ++ text₁ ++ ' ' :: text₂ ++ [')'])
      (.conditional condition consequent .missing outer) := by
  obtain ⟨form₁, hread₁, -, hload₁⟩ := h₁
  obtain ⟨form₂, hread₂, -, hload₂⟩ := h₂
  have hrow := reads_blank_append hread₁ (delimited_blank _) hread₂.blank
  simpa [Tag.symbol] using writes_tagged .conditional (delimited_blank _) hrow fun file =>
    Loads.consequent (hload₁ file) (hload₂ file)

theorem Writes.alternative {text₁ text₂ text₃ : List Char}
    {condition consequent alternative : Tree} (h₁ : Writes spanned outer text₁ condition)
    (h₂ : Writes spanned outer text₂ consequent) (h₃ : Writes spanned outer text₃ alternative) :
    Writes spanned outer ("(if ".toList ++ text₁ ++ ' ' :: text₂ ++ ' ' :: text₃ ++ [')'])
      (.conditional condition consequent alternative outer) := by
  obtain ⟨form₁, hread₁, -, hload₁⟩ := h₁
  obtain ⟨form₂, hread₂, -, hload₂⟩ := h₂
  obtain ⟨form₃, hread₃, -, hload₃⟩ := h₃
  have hbranches := reads_blank_append hread₂ (delimited_blank _) hread₃.blank
  have hrow := reads_blank_append hread₁ (delimited_blank _) hbranches
  simpa [Tag.symbol] using writes_tagged .conditional (delimited_blank _) hrow fun file =>
    Loads.alternative (hload₁ file) (hload₂ file) (hload₃ file)

theorem Writes.pipe {text₁ text₂ : List Char} {source stage : Tree} {operator : String}
    (h₁ : Writes spanned outer text₁ source) (h₂ : Writes spanned outer text₂ stage)
    (hoperator : operator ∈ pipeOperators) :
    Writes spanned outer
      ("(pipe ".toList ++ text₁ ++ ' ' :: text₂ ++ printOperator operator ++ [')'])
      (.pipe source stage operator outer) := by
  obtain ⟨form₁, hread₁, -, hload₁⟩ := h₁
  obtain ⟨form₂, hread₂, -, hload₂⟩ := h₂
  simp only [pipeOperators, List.mem_cons, List.not_mem_nil, or_false] at hoperator
  rcases hoperator with rfl | rfl
  · have hrow := reads_blank_append hread₁ (delimited_blank _) hread₂.blank
    simpa [Tag.symbol, printOperator] using
      writes_tagged .pipe (delimited_blank _) hrow
        fun file => Loads.pipe (hload₁ file) (hload₂ file)
  · have hread₃ : Reads ('"' :: ['|', '>'] ++ ['"']) [.string "|>"] := Form.reads_string (by simp)
    have hrest := reads_blank_append hread₂ (delimited_blank _) hread₃.blank
    have hrow := reads_blank_append hread₁ (delimited_blank _) hrest
    simpa [Tag.symbol, printOperator] using
      writes_tagged .pipe (delimited_blank _) hrow fun file =>
        Loads.pipeWith rfl (hload₁ file) (hload₂ file)

/-! ### Functions -/

/-- The name that is written of a function: none for a lambda, and none where the name is
left out. -/
def writtenName (named : Bool) (name : Option String) (isLambda : Bool) : Option String :=
  if named && !isLambda then name else none

/-- The head of a function is the tag and, if there is one, the name that is written. -/
theorem functionHead_eq (named : Bool) (name : Option String) (isLambda : Bool) :
    functionHead named name isLambda
      = '(' :: ((if isLambda then Tag.lambda else Tag.function).symbol.toList
        ++ (writtenName named name isLambda).elim [] fun name => ' ' :: printName name) := by
  cases isLambda <;> cases named <;> cases name <;> simp [functionHead, writtenName, Tag.symbol]

/-- The body of a function, or nothing. -/
def WritesBody (spanned : Bool) (outer : Span) (text : List Char) (body : Tree) : Prop :=
  text = [] ∧ body = .missing ∨ ∃ inside, text = ' ' :: inside ∧ Writes spanned outer inside body

theorem WritesBody.function {parameters : List String} {text : List Char} {body : Tree}
    (named : Bool) {name : Option String} (isLambda : Bool)
    (hname : ∀ n ∈ writtenName named name isLambda, Survives n)
    (hparameters : ∀ n ∈ parameters, Survives n) (hbody : WritesBody spanned outer text body) :
    Writes spanned outer
      (functionHead named name isLambda ++ " (".toList ++ printNames parameters ++ ')' :: text
        ++ [')'])
      (.function parameters body (writtenName named name isLambda) isLambda outer) := by
  obtain ⟨forms, hreads, hnames⟩ := reads_printNames hparameters
  have hlist (context : Context) : context.parameters (.list forms) = .ok parameters :=
    hnames context
  rw [functionHead_eq]
  cases hwritten : writtenName named name isLambda with
  | none =>
    rcases hbody with ⟨rfl, rfl⟩ | ⟨inside, rfl, form, hread, -, hload⟩
    · have hrow := hreads.list.blank
      cases isLambda with
      | false => simpa [Tag.symbol] using
          writes_tagged .function (delimited_blank _) hrow fun file => Loads.header (hnames _)
      | true => simpa [Tag.symbol] using
          writes_tagged .lambda (delimited_blank _) hrow fun file => Loads.lambdaHeader (hlist _)
    · have hrow := reads_blank_append hreads.list (delimited_blank _) hread.blank
      cases isLambda with
      | false => simpa [Tag.symbol] using
          writes_tagged .function (delimited_blank _) hrow fun file =>
            Loads.function (hnames _) (hload file)
      | true => simpa [Tag.symbol] using
          writes_tagged .lambda (delimited_blank _) hrow fun file =>
            Loads.lambda (hlist _) (hload file)
  | some n =>
    obtain ⟨nameForm, hnameRead, hnameForm⟩ := writesName_printName (hname n hwritten)
    obtain rfl : isLambda = false := by
      cases isLambda with
      | false => rfl
      | true => simp [writtenName] at hwritten
    rcases hbody with ⟨rfl, rfl⟩ | ⟨inside, rfl, form, hread, -, hload⟩
    · have hrow := reads_blank_append hnameRead (delimited_blank _) hreads.list.blank
      simpa [Tag.symbol] using writes_tagged .function (delimited_blank _) hrow fun file =>
        Loads.namedHeader (hnameForm _) (hlist _)
    · have hrest := reads_blank_append hreads.list (delimited_blank _) hread.blank
      have hrow := reads_blank_append hnameRead (delimited_blank _) hrest
      simpa [Tag.symbol] using writes_tagged .function (delimited_blank _) hrow fun file =>
        Loads.namedFunction (hnameForm _) (hlist _) (hload file)

/-! ### Leaves -/

/-- What is read as an atom is no comment. -/
theorem isComment_ofAtom (atom : List Char) : (Form.ofAtom atom).isComment = false := by
  unfold Form.ofAtom
  split
  · rfl
  · split <;> rfl

/-- An atom as it stands needs no quotes. -/
theorem needsQuotes_of_isBare {atom : List Char} (h : Form.IsBare atom) :
    needsQuotes atom = false := by
  simp only [needsQuotes, Bool.or_eq_false_iff, List.isEmpty_eq_false_iff, List.any_eq_false]
  refine ⟨h.1, fun c hc => ?_⟩
  obtain ⟨hends, -, hquote⟩ := h.2 c hc
  simp only [Form.endsAtom, Text.isBlank, Bool.or_eq_false_iff, decide_eq_false_iff_not] at hends
  simp only [List.contains_eq_mem, List.mem_cons, List.not_mem_nil, or_false, decide_eq_true_eq,
    not_or]
  tauto

/-- A text that is an atom as it stands and is loaded as itself. -/
theorem writes_bare {text : String} (hbare : Form.IsBare text.toList)
    (hload : ∀ context, load context (Form.ofAtom text.toList) = .ok (.expr text [] context.span)) :
    Writes spanned outer (printLeaf text) (.expr text [] outer) := by
  have hprint : printLeaf text = text.toList := by
    have hhead : text.toList.head? ≠ some '"' := by
      intro h
      exact absurd (hbare.2 '"' (List.mem_of_mem_head? h)).1 (by decide)
    rw [printLeaf, if_neg hhead, printName, if_neg (by simp [needsQuotes_of_isBare hbare])]
  rw [hprint]
  exact ⟨_, Form.reads_atom hbare, isComment_ofAtom _, fun file => hload _⟩

/-- A decimal text is an atom as it stands. -/
theorem isBare_intText (n : Int) : Form.IsBare (Text.intText n) := by
  constructor
  · cases n with
    | ofNat m => exact Nat.toDigits_ne_nil
    | negSucc m => exact List.cons_ne_nil _ _
  · intro c hc
    rcases Numeral.of_mem_intText hc with h | rfl
    · have hcode := Numeral.toNat_of_isDigit h
      have hne {d : Char} (hd : d.isDigit = false) : c ≠ d := Numeral.ne_of_isDigit h hd
      refine ⟨?_, hne (by decide), hne (by decide)⟩
      simp only [Form.endsAtom, Text.isBlank, Bool.or_eq_false_iff, Bool.and_eq_false_iff,
        decide_eq_false_iff_not]
      refine ⟨⟨⟨⟨⟨⟨⟨hne (by decide), by omega⟩, ?_⟩, ?_⟩, ?_⟩, ?_⟩, ?_⟩, ?_⟩ <;>
        exact hne (by decide)
    · decide

/-- A legible leaf is read back. -/
theorem writes_leaf {text : String} (h : LegibleLeaf text) :
    Writes spanned outer (printLeaf text) (.expr text [] outer) := by
  rcases h with ⟨hquotes, hplain, hsymbol⟩ | hnumber | ⟨n, rfl, hshort⟩ | ⟨inside, rfl, hinside⟩
  · refine writes_bare (isBare_of_isPlain hquotes hplain) fun context => ?_
    rw [hsymbol]
    rfl
  · obtain ⟨value, hvalue, -, htext⟩ := ofAtom_of_mem_nonFiniteNames hnumber
    refine writes_bare (isBare_of_mem_nonFiniteNames hnumber) fun context => ?_
    rw [hvalue, load, htext]
  · have hbare := isBare_intText n
    rw [← String.toList_ofList (l := Text.intText n)] at hbare
    refine writes_bare hbare fun context => ?_
    rw [String.toList_ofList, Form.ofAtom, Numeral.whole?_intText hshort]
    exact load_integer_of_short hshort
  · refine ⟨.string (String.ofList inside), ?_, rfl, fun file => rfl⟩
    have hprint : printLeaf ("\"" ++ String.ofList inside ++ "\"") = '"' :: inside ++ ['"'] := by
      simp [printLeaf]
    rw [hprint]
    exact Form.reads_string hinside

/-! ### Spans -/

/-- The decimal text of a short number is read as that number. -/
theorem reads_intText {n : Int} (h : ShortInt n) : Reads (Text.intText n) [.integer n] := by
  have := Form.reads_atom (isBare_intText n)
  rwa [Form.ofAtom, Numeral.whole?_intText h] at this

theorem reads_printSpan {span : Span} (h : span.Short) :
    Reads (printSpan span) [.integer span.start.line, .integer span.start.column,
      .integer span.stop.line, .integer span.stop.column] := by
  obtain ⟨hline₁, hcolumn₁, hline₂, hcolumn₂⟩ := h
  have h₂ := reads_blank_append (reads_intText hline₂) (delimited_blank _)
    (reads_intText hcolumn₂).blank
  have h₁ := reads_blank_append (reads_intText hcolumn₁) (delimited_blank _) h₂
  simpa [printSpan] using (reads_intText hline₁).append (delimited_blank _) h₁

/-- A node with its span: the span is left out if it is the outer one, and else it stands
in an `at` that is accepted there. -/
theorem Writes.located {span : Span} {text : List Char} {t : Tree}
    (hspan : Admits spanned outer span) (h : Writes (within spanned outer span) span text t) :
    Writes spanned outer (located outer span text) t := by
  unfold Tree.located
  by_cases heq : span = outer
  · rw [if_pos heq]
    rwa [heq, within_self] at h
  · rw [if_neg heq]
    obtain ⟨hplaced, hshort, hinside⟩ := hspan.resolve_left heq
    have hwithin : within spanned outer span = true := by simp [within, heq]
    rw [hwithin] at h
    obtain ⟨form, hread, -, hload⟩ := h
    have hrow := (reads_printSpan hshort).blank.append (delimited_blank _) hread.blank
    simpa [Tag.symbol] using writes_tagged .located (delimited_blank _) hrow fun file =>
      Loads.located (Context.readSpan_eq_ok_iff.mpr ⟨⟨rfl, rfl, rfl, rfl⟩, hplaced, hinside⟩)
        (hload file)

end Shapes

/-! ## Whole texts -/

/-- A whole text that is read and loaded as a tree holds that tree. -/
theorem Writes.parse {text : List Char} {t : Tree} (h : Writes false {} text t) (file : String) :
    Tree.parse file (String.ofList text) = .ok t := by
  obtain ⟨form, hread, -, hload⟩ := h
  exact parse_eq_ok_iff.mpr ⟨form, hread.read, hload file⟩

end TailLint.Tree
