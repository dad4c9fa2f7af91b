import Stencil.Delimiters
import Stencil.Escape

/-!
# Settings

What a rendering is told beside the template, the data and the host.
-/

namespace Stencil

/-- What is done about a name that has no value. -/
inductive MissingTags where
  /-- It counts as nothing. -/
  | ignore
  /-- Rendering fails. -/
  | strict
deriving DecidableEq, Repr, Inhabited

def MissingTags.name : MissingTags → String
  | ignore => "ignore"
  | strict => "strict"

/-- The settings of a rendering. -/
structure Settings where
  /-- Applied to the text of an escaped value. -/
  escape : String → String
  /-- Applied to the text of a value that is not escaped. -/
  literal : String → String
  missingTags : MissingTags
  /-- The delimiters that templates, partials and the answers of lambdas start with. -/
  delimiters : Delimiters
  /-- How many sections, partials and answers of lambdas may be nested. -/
  maxDepth : Nat

def defaultMaxDepth : Nat := 128

def Settings.standard : Settings where
  escape := escapeHtml
  literal := id
  missingTags := .ignore
  delimiters := .standard
  maxDepth := defaultMaxDepth

instance : Inhabited Settings := ⟨.standard⟩

end Stencil
