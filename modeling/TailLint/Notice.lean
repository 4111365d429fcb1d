/-!
# Notices

When a run cannot go on, its user is told one thing: a message, and beside it what
the message is about.  There are three kinds of notices.  A general one may carry a
hint.  One about a configuration names the offending entry, shows its value and may
carry a hint.  One about a tree shows the offending form and names the file, and only
there the file name is part of the text.
-/

namespace TailLint

/-- What a user is told when a run cannot go on. -/
inductive Notice where
  | general (message hint : String)
  | policy (message : String) (key : Option String) (value hint : String)
  | tree (message : String) (form : Option String) (file : String)
  deriving DecidableEq

namespace Notice

/-- The message alone. -/
def message : Notice → String
  | .general message _ | .policy message _ _ _ | .tree message _ _ => message

/-- A message and the hint after it, if there is one. -/
def withHint (message hint : String) : String :=
  if hint.isEmpty then message else message ++ " (hint: " ++ hint ++ ")"

/-- The whole text. -/
def text : Notice → String
  | .general message hint | .policy message _ _ hint => withHint message hint
  | .tree message _ file => file ++ ": " ++ message

end Notice

end TailLint
