import Stencil.Delimiters
import Stencil.Text.Position

/-!
# Malformed templates

Why a text is not a template, and where. The position is that of the tag at fault; for a section that is never closed it is
the section's opening tag.
-/

namespace Stencil

def maxOpenSections : Nat := 128

/-- What is wrong with the content of a tag that should name two delimiters. -/
inductive ChangeFault where
  /-- The content has another number of words than two. -/
  | count (words : Nat)
  | rule (fault : DelimiterFault)
deriving DecidableEq, Repr

/-- What is wrong with a template. -/
inductive ParseFault where
  | unclosedTag
  | emptyTag
  | unknownSigil (sigil : Char)
  | invalidName (name : String)
  | invalidDelimiters (content : String) (fault : ChangeFault)
  | unclosedSection (name : String)
  | mismatchedClose (expected found : String)
  | unopenedClose (name : String)
  | tooDeeplyNested (name : String)
deriving DecidableEq, Repr

/-- A fault and the tag it was found at. -/
structure ParseError where
  fault : ParseFault
  position : Position
deriving DecidableEq, Repr

def ChangeFault.reason : ChangeFault → String
  | .count words => s!"expected two delimiters, found {words}"
  | .rule fault => fault.reason

def ParseError.message (e : ParseError) : String :=
  let place := e.position.display
  match e.fault with
  | .unclosedTag => s!"unclosed tag at {place}"
  | .emptyTag => s!"empty tag at {place}"
  | .unknownSigil sigil => s!"unrecognized tag type '{sigil}' at {place}"
  | .invalidName name => s!"invalid tag name '{name}' at {place}"
  | .invalidDelimiters content fault => s!"invalid delimiter change '{content}' at {place}: {fault.reason}"
  | .unclosedSection name => s!"unclosed section '{name}' opened at {place}"
  | .mismatchedClose expected found => s!"section '{expected}' closed by '{found}' at {place}"
  | .unopenedClose name => s!"closing tag '{name}' has no open section at {place}"
  | .tooDeeplyNested name => s!"section '{name}' at {place} nested deeper than {maxOpenSections} levels"

end Stencil
