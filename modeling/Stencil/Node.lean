import Stencil.Delimiters

/-!
# Parsed templates

A template is a list of nodes. A block and an inverted block hold the nodes between their tags; a block also keeps that text
as it was written (`raw`) and the delimiters in force at its opening tag, so that a lambda can be given the text and its
answer can be read the same way.
-/

namespace Stencil

/-- One element of a parsed template. -/
inductive Node where
  /-- Text that is written as it stands. -/
  | literal (text : String)
  /-- The value of a name, escaped or not. -/
  | interpolation (name : String) (escaped : Bool)
  /-- A body that is written for each element of a list, or once for another value that holds. -/
  | block (name : String) (body : List Node) (raw : String) (delimiters : Delimiters)
  /-- A body that is written if the value does not hold. -/
  | inverted (name : String) (body : List Node)
  /-- A partial, every line of which is indented. -/
  | inclusion (name : String) (indent : String)
  | comment
deriving BEq

namespace Node

def name? : Node → Option String
  | interpolation name _ | block name .. | inverted name _ | inclusion name _ => some name
  | literal _ | comment => none

/-- The nodes of a text: one literal, or none if there is no text. -/
def ofText (text : List Char) : List Node := if text.isEmpty then [] else [literal (String.ofList text)]

/-- Two lists of nodes one after the other, where literals that meet become one. -/
def fuse : List Node → List Node → List Node
  | [], after => after
  | [literal a], literal b :: after => literal (a ++ b) :: after
  | node :: before, after => node :: fuse before after

@[simp] theorem fuse_nil_left (after : List Node) : fuse [] after = after := rfl

@[simp] theorem fuse_nil_right (before : List Node) : fuse before [] = before := by
  induction before with
  | nil => rfl
  | cons node before ih => cases node <;> cases before <;> simp_all [fuse]

end Node
end Stencil
