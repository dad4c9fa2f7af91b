import Stencil.Text.Blank

/-!
# Indentation

A partial that is alone on its line is indented as far as its tag: the padding in front of the tag goes in front of every line
that holds anything. A line starts at the front of the text and behind a line feed or a carriage return; between the two
characters of one line end there is nothing to indent.
-/

namespace Stencil.Text

/-- Indents the rest of a text; `fresh` says whether a line starts here. -/
def indentFrom (indent : List Char) : (fresh : Bool) → List Char → List Char
  | _, [] => []
  | fresh, c :: s =>
    let rest := c :: indentFrom indent (isLineEnd c) s
    if fresh && !isLineEnd c then indent ++ rest else rest

/-- Puts the indent in front of every line that holds anything. -/
def indentLines (indent s : String) : String := String.ofList (indentFrom indent.toList true s.toList)

end Stencil.Text
