import TailLint.Form.Basic
import TailLint.Number.Numeral
import TailLint.Text.Blank

/-!
# Reading forms

The reader is one loop over the characters.  What it has to remember is a stack: the
forms collected at the innermost open bracket, and for every bracket that is still
open the forms that stood before it.  A quote mark opens a level of its own, which
no character closes --- everything up to the next closing bracket belongs to it, and
only the first form there is quoted.  A closing bracket therefore first ends the
quotes inside its own bracket, the innermost first.

Because the loop keeps the stack explicit, the effect of reading the text of a form
is an equation about the stack: reading `text ++ rest` from a stack is reading
`rest` from the stack with one form more on it.

Texts that are not a single form are refused with a `ReadError`.
-/

namespace TailLint

/-- The two kinds of brackets. -/
inductive Bracket where
  | round
  | square
  deriving DecidableEq

namespace Bracket

/-- The closing bracket. -/
def closer : Bracket → Char
  | .round => ')'
  | .square => ']'

/-- The form that a pair of brackets makes of what is inside. -/
def form : Bracket → List Form → Form
  | .round => .list
  | .square => .brackets

end Bracket

/-- Why a text is not a single form. -/
inductive ReadError where
  /-- A string has no closing quote. -/
  | unclosedString
  /-- A backslash is the last character. -/
  | danglingBackslash
  /-- A bracket met something other than its closer; nothing at the end of the text. -/
  | unclosedBracket (bracket : Bracket) (found : Option Char)
  /-- No form follows the quote mark at this offset. -/
  | nothingQuoted (offset : Nat)
  /-- A closer was never opened; the text from it on. -/
  | strayCloser (rest : String)
  /-- The text holds no form at all, or more than one. -/
  | notOneForm
  deriving DecidableEq

namespace ReadError

/-- The wording of each error. -/
def text : ReadError → String
  | .unclosedString => "'NoneType' object has no attribute 'start'"
  | .danglingBackslash => "string index out of range"
  | .unclosedBracket bracket found =>
    "Not enough closing brackets. Expected " ++ Text.quoted bracket.closer.toString
      ++ " to be the last letter in the sexp. Got: "
      ++ (match found with
        | some c => Text.quoted c.toString
        | none => "None")
  | .nothingQuoted offset => s!"No s-exp is found after an apostrophe at position {offset}"
  | .strayCloser rest =>
    "Too many closing brackets. Expected no character left in the sexp. Got: "
      ++ Text.quoted rest
  | .notOneForm => ""

end ReadError

namespace Form

/-! ## Atoms -/

/-- The characters that end an atom. -/
def endsAtom (c : Char) : Bool :=
  Text.isBlank c || c = '(' || c = ')' || c = '[' || c = ']' || c = '"' || c = ';'

/-- The characters that a backslash in an atom stands for; before any other one it
stands for itself. -/
def atomEscapes : List Char :=
  ['\\', '\'', '`', '"', '(', ')', '[', ']', ' ', ',', '?', ';', '#']

/-- The text of an atom and what follows it.  `read` holds the atom so far, the
latest character first. -/
def readAtom (read : List Char) : List Char → Except ReadError (List Char × List Char)
  | [] => .ok (read.reverse, [])
  | '\\' :: [] => .error .danglingBackslash
  | '\\' :: c :: rest =>
    readAtom (if atomEscapes.contains c then c :: read else c :: '\\' :: read) rest
  | c :: rest => if endsAtom c then .ok (read.reverse, c :: rest) else readAtom (c :: read) rest

/-- What an atom is: a whole number, another number, or else a symbol. -/
def ofAtom (atom : List Char) : Form :=
  match Numeral.whole? atom with
  | some value => .integer value
  | none =>
    match Numeral.binary64? atom with
    | some value => .float value
    | none => .symbol (String.ofList atom)

/-! ## Strings and comments -/

/-- What a backslash and the character after it stand for in a string.  Both stay
unless the character is one of the seven that have a meaning. -/
def stringEscape (c : Char) : List Char :=
  if c = '\\' || c = '"' then [c]
  else if c = 'b' then ['\x08']
  else if c = 'f' then ['\x0c']
  else if c = 'n' then ['\n']
  else if c = 'r' then ['\r']
  else if c = 't' then ['\t']
  else ['\\', c]

/-- The text of a string after its opening quote, and what follows the closing one.
`read` holds the text so far, the latest character first. -/
def readString (read : List Char) : List Char → Except ReadError (List Char × List Char)
  | [] => .error .unclosedString
  | '"' :: rest => .ok (read.reverse, rest)
  | '\\' :: [] => .error .danglingBackslash
  | '\\' :: c :: rest => readString ((stringEscape c).reverse ++ read) rest
  | c :: rest => readString (c :: read) rest

/-- What follows the line that a comment stands on. -/
def skipLine (s : List Char) : List Char := (s.dropWhile (· ≠ '\n')).drop 1

/-! ## The stack -/

/-- A level that is still open. -/
inductive Opened where
  /-- A bracket. -/
  | bracket (kind : Bracket)
  /-- A quote mark, and the number of characters left at it. -/
  | quote (left : Nat)
  deriving DecidableEq

/-- The forms at the innermost open level, and for each open level how it was
opened and the forms before it.  All forms are kept with the latest first, all
levels with the innermost first. -/
structure Stack where
  forms : List Form := []
  levels : List (Opened × List Form) := []

namespace Stack

/-- One more form at the innermost level. -/
def push (form : Form) (stack : Stack) : Stack :=
  { stack with forms := form :: stack.forms }

/-- One more level. -/
def enter (opened : Opened) (stack : Stack) : Stack :=
  ⟨[], (opened, stack.forms) :: stack.levels⟩

/-- The forms of a quote level, of which the first one is quoted, put on top of the
forms before it.  Nothing if the level is empty. -/
def endQuote? (forms before : List Form) : Option (List Form) :=
  match forms.reverse with
  | [] => none
  | first :: others => some (others.reverse ++ .quoted first :: before)

/-- The stack with the open quotes of its innermost bracket ended.  An empty quote
is reported by the number of characters left at its mark. -/
def endQuotesFrom (forms : List Form) : List (Opened × List Form) → Except Nat Stack
  | (.quote left, before) :: levels =>
    match endQuote? forms before with
    | none => .error left
    | some forms => endQuotesFrom forms levels
  | levels => .ok ⟨forms, levels⟩

/-- The stack with the open quotes of its innermost bracket ended. -/
def endQuotes (stack : Stack) : Except Nat Stack :=
  endQuotesFrom stack.forms stack.levels

end Stack

/-- An error met while reading, with characters counted from the end of the text. -/
inductive Stop where
  | error (what : ReadError)
  | nothingQuoted (left : Nat)
  | strayCloser (left : Nat)

/-- The stack after a closing bracket; `left` is the number of characters left at
it. -/
def close (bracket : Bracket) (left : Nat) (stack : Stack) : Except Stop Stack :=
  match stack.endQuotes with
  | .error left => .error (.nothingQuoted left)
  | .ok ⟨forms, (.bracket kind, before) :: levels⟩ =>
    if kind = bracket then .ok ⟨kind.form forms.reverse :: before, levels⟩
    else .error (.error (.unclosedBracket kind (some bracket.closer)))
  | .ok _ => .error (.strayCloser left)

/-- The forms at the end of the text. -/
def finish (stack : Stack) : Except Stop (List Form) :=
  match stack.endQuotes with
  | .error left => .error (.nothingQuoted left)
  | .ok ⟨_, (.bracket kind, _) :: _⟩ => .error (.error (.unclosedBracket kind none))
  | .ok ⟨forms, _⟩ => .ok forms.reverse

/-! ## The loop -/

/-- One turn of the loop: the stack and the rest of the text after whatever starts
with the character `c`. -/
def step (stack : Stack) (c : Char) (rest : List Char) : Except Stop (Stack × List Char) :=
  if Text.isBlank c then
    .ok (stack, rest)
  else
    match c with
    | '"' =>
      match readString [] rest with
      | .error what => .error (.error what)
      | .ok (text, after) => .ok (stack.push (.string (String.ofList text)), after)
    | '(' => .ok (stack.enter (.bracket .round), rest)
    | '[' => .ok (stack.enter (.bracket .square), rest)
    | ')' => (close .round (rest.length + 1) stack).map fun stack => (stack, rest)
    | ']' => (close .square (rest.length + 1) stack).map fun stack => (stack, rest)
    | '\'' => .ok (stack.enter (.quote (rest.length + 1)), rest)
    | ';' => .ok (stack, skipLine rest)
    | c =>
      match readAtom [] (c :: rest) with
      | .error what => .error (.error what)
      | .ok (atom, after) => .ok (stack.push (ofAtom atom), after)

/-! ### The text gets shorter -/

theorem length_le_of_readAtom {read s : List Char} {result : List Char × List Char}
    (h : readAtom read s = .ok result) : result.2.length ≤ s.length := by
  fun_induction readAtom read s with
  | case1 => simp_all; subst h; simp
  | case2 => simp at h
  | case3 read c rest ih => have := ih h; simp only [List.length_cons]; omega
  | case4 read c rest _ _ hc => simp at h; subst h; simp
  | case5 read c rest _ _ hc ih => have := ih h; simp only [List.length_cons]; omega

/-- An atom has at least one character. -/
theorem length_le_of_readAtom_cons {read rest : List Char} {c : Char}
    {result : List Char × List Char} (hc : endsAtom c = false)
    (h : readAtom read (c :: rest) = .ok result) : result.2.length ≤ rest.length := by
  by_cases hb : c = '\\'
  · subst hb
    cases rest with
    | nil => simp [readAtom] at h
    | cons next others =>
      rw [readAtom] at h
      have := length_le_of_readAtom h
      simp only [List.length_cons]
      omega
  · have hr : readAtom read (c :: rest) = readAtom (c :: read) rest := by
      rw [readAtom.eq_4 _ _ _ (by simp_all) (by simp_all)]
      simp [hc]
    exact length_le_of_readAtom (hr ▸ h)

theorem length_le_of_readString {read s : List Char} {result : List Char × List Char}
    (h : readString read s = .ok result) : result.2.length ≤ s.length := by
  fun_induction readString read s with
  | case1 => simp at h
  | case2 => simp at h; subst h; simp
  | case3 => simp at h
  | case4 read c rest ih => have := ih h; simp only [List.length_cons]; omega
  | case5 read c rest _ _ _ ih => have := ih h; simp only [List.length_cons]; omega

theorem length_skipLine_le (s : List Char) : (skipLine s).length ≤ s.length := by
  have := (List.dropWhile_sublist (fun c => decide (c ≠ '\n')) (l := s)).length_le
  simp only [skipLine, List.length_drop]
  omega

/-- Every turn of the loop uses up its character. -/
theorem length_le_of_step {stack : Stack} {c : Char} {rest : List Char}
    {result : Stack × List Char} (h : step stack c rest = .ok result) :
    result.2.length ≤ rest.length := by
  unfold step at h
  split at h
  · cases h; exact Nat.le_refl _
  · split at h
    · split at h
      · cases h
      · next hs => cases h; exact length_le_of_readString hs
    · cases h; exact Nat.le_refl _
    · cases h; exact Nat.le_refl _
    · cases hs : close .round (rest.length + 1) stack with
      | error => rw [hs] at h; cases h
      | ok => rw [hs] at h; cases h; exact Nat.le_refl _
    · cases hs : close .square (rest.length + 1) stack with
      | error => rw [hs] at h; cases h
      | ok => rw [hs] at h; cases h; exact Nat.le_refl _
    · cases h; exact Nat.le_refl _
    · cases h; exact length_skipLine_le rest
    · next hblank _ _ _ _ _ _ _ =>
      split at h
      · cases h
      · next hs =>
        cases h
        exact length_le_of_readAtom_cons (by simp_all [endsAtom]) hs

/-- Reads the text from a stack to its end. -/
def readFrom (stack : Stack) (s : List Char) : Except Stop (List Form) :=
  match s with
  | [] => finish stack
  | c :: rest =>
    match _h : step stack c rest with
    | .error stop => .error stop
    | .ok (next, after) => readFrom next after
termination_by s.length
decreasing_by exact Nat.lt_succ_of_le (length_le_of_step _h)

@[simp] theorem readFrom_nil (stack : Stack) : readFrom stack [] = finish stack := by
  rw [readFrom]

/-- The loop goes on after a successful turn. -/
theorem readFrom_cons {stack next : Stack} {c : Char} {rest after : List Char}
    (h : step stack c rest = .ok (next, after)) :
    readFrom stack (c :: rest) = readFrom next after := by
  rw [readFrom]
  split
  · next h' => rw [h] at h'; cases h'
  · next h' => rw [h] at h'; cases h'; rfl

/-- The single form that a text holds. -/
def read (text : String) : Except ReadError Form :=
  let s := text.toList
  match readFrom {} s with
  | .ok [form] => .ok form
  | .ok _ => .error .notOneForm
  | .error (.error what) => .error what
  | .error (.nothingQuoted left) => .error (.nothingQuoted (s.length - left))
  | .error (.strayCloser left) =>
    .error (.strayCloser (String.ofList (s.drop (s.length - left))))

end Form

end TailLint
