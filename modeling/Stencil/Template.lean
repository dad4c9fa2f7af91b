import Stencil.Error
import Stencil.Parse

/-!
# Templates

A template that has been read, with its text.
-/

namespace Stencil

/-- A text and the nodes that were read from it. -/
structure Template where
  source : String
  nodes : List Node
deriving BEq

namespace Template

/-- Reads a template that starts with the delimiters `d`. -/
def parse (d : Delimiters) (source : String) : Except Error Template :=
  match Stencil.parse d source with
  | .ok nodes => .ok ⟨source, nodes⟩
  | .error e => .error (.parsing e)

def ofBytes (encoding : Encoding) (bytes : List UInt8) : Except Error Template :=
  match encoding.decode bytes with
  | .ok source => parse .standard source
  | .error e => .error (.decode e)

end Template
end Stencil
