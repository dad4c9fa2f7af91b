/-!
# Escaping

What is done to the text of a value before it is written: characters that mean something in HTML are replaced by entities, or
the text is left alone.
-/

namespace Stencil

/-- The entity of a character that means something in HTML, and any other character itself. -/
def htmlChar (c : Char) : List Char :=
  match c with
  | '<' => ['&', 'l', 't', ';']
  | '>' => ['&', 'g', 't', ';']
  | '&' => ['&', 'a', 'm', 'p', ';']
  | '"' => ['&', 'q', 'u', 'o', 't', ';']
  | '\'' => ['&', '#', 'x', '2', '7', ';']
  | c => [c]

/-- The text with entities for the characters that mean something in HTML. -/
def escapeHtml (s : String) : String := String.ofList (s.toList.flatMap htmlChar)

/-- The ways of escaping that options can name. -/
inductive EscapeMode where
  | html
  | none
deriving DecidableEq, Repr, Inhabited

namespace EscapeMode

def apply : EscapeMode → String → String
  | html => escapeHtml
  | none => id

def name : EscapeMode → String
  | html => "html"
  | none => "none"

end EscapeMode
end Stencil
