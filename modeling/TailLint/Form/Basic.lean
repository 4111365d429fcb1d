import TailLint.Number.Numeral
import TailLint.Number.Shortest
import TailLint.Text.Quoted

/-!
# Forms

A form is what a tree file is made of before anybody asks what it means: symbols,
strings and numbers, lists in round brackets, and two kinds of form that no tree
uses --- lists in square brackets and quoted forms --- but which can be written, and
so can be met and refused.  Truth values and the missing form cannot be written;
they stand for values that reach the loader from elsewhere.

Messages about a form show it in the notation of `Form.display` and name its kind
by `Form.kindWord`.  A form can be shown if all integers in it can be written
(`Form.Short`).
-/

namespace TailLint

/-- A form, read but not yet understood. -/
inductive Form where
  | symbol (name : String)
  | string (text : String)
  | integer (value : Int)
  | float (value : Binary64)
  | boolean (value : Bool)
  | missing
  | list (items : List Form)
  | brackets (items : List Form)
  | quoted (form : Form)
  deriving Inhabited

namespace Form

/-- Whether the form is the missing one. -/
def isMissing : Form → Bool
  | .missing => true
  | _ => false

/-- A list with the symbol `comment` at its head says nothing about the tree. -/
def isComment : Form → Bool
  | .list (.symbol name :: _) => name = "comment"
  | _ => false

/-- The word by which messages name the kind of a form. -/
def kindWord : Form → String
  | .symbol _ => "Symbol"
  | .string _ => "str"
  | .integer _ => "int"
  | .float _ => "float"
  | .boolean _ => "bool"
  | .missing => "NoneType"
  | .list _ => "list"
  | .brackets _ => "Brackets"
  | .quoted _ => "Quoted"

mutual

/-- A form as messages show it. -/
def display : Form → String
  | .symbol name => "Symbol(" ++ Text.quoted name ++ ")"
  | .string text => Text.quoted text
  | .integer value => String.ofList (Text.intText value)
  | .float value => value.text
  | .boolean value => if value then "True" else "False"
  | .missing => "None"
  | .list items => "[" ++ ", ".intercalate (displayItems items) ++ "]"
  | .brackets items => "Brackets(I=[" ++ ", ".intercalate (displayItems items) ++ "])"
  | .quoted form => "Quoted(" ++ display form ++ ")"

/-- The items of a list, each as messages show it. -/
def displayItems : List Form → List String
  | [] => []
  | item :: rest => display item :: displayItems rest

end

mutual

/-- Whether all integers in a form are short. -/
def Short : Form → Prop
  | .integer value => ShortInt value
  | .list items => ShortAll items
  | .brackets items => ShortAll items
  | .quoted form => form.Short
  | _ => True

/-- Whether all integers in a row of forms are short. -/
def ShortAll : List Form → Prop
  | [] => True
  | form :: rest => form.Short ∧ ShortAll rest

end

mutual

instance decidableShort : (form : Form) → Decidable form.Short
  | .integer value => inferInstanceAs (Decidable (ShortInt value))
  | .list items => decidableShortAll items
  | .brackets items => decidableShortAll items
  | .quoted form => decidableShort form
  | .symbol _ | .string _ | .float _ | .boolean _ | .missing => .isTrue trivial

instance decidableShortAll : (forms : List Form) → Decidable (ShortAll forms)
  | [] => .isTrue trivial
  | form :: rest => @instDecidableAnd _ _ (decidableShort form) (decidableShortAll rest)

end

theorem shortAll_iff {forms : List Form} : ShortAll forms ↔ ∀ form ∈ forms, form.Short := by
  induction forms with
  | nil => simp [ShortAll]
  | cons form rest ih => simp [ShortAll, ih]

/-- How the source language spells the numbers that are not finite; a finite one is
written by its shortest decimal. -/
def numberText : Binary64 → String
  | .nan => "NaN"
  | .infinite negative => if negative then "-Inf" else "Inf"
  | value => value.text

end Form

end TailLint
