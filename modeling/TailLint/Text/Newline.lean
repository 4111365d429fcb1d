/-!
# Line ends

A text file may end its lines with a newline, a carriage return, or both in that
order reversed; readers see newlines only.
-/

namespace TailLint.Text

/-- The text with each carriage return, together with a newline right after it, as
one newline.  `read` holds what has been read, the latest character first. -/
def newlinesFrom (read : List Char) : List Char → List Char
  | [] => read.reverse
  | '\r' :: '\n' :: rest => newlinesFrom ('\n' :: read) rest
  | c :: rest => newlinesFrom ((if c = '\r' then '\n' else c) :: read) rest

/-- The text with newlines as its only line ends. -/
def normalNewlines (s : List Char) : List Char := newlinesFrom [] s

end TailLint.Text
