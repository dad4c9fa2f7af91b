import Stencil.Registry
import Stencil.Renderer

/-!
# Options

The settings of a renderer as data that can be written down: named choices in place of functions, delimiters that need not be
legal yet, and partials by name. No partials means that there is no loader at all.
-/

namespace Stencil

/-- Settings that can be written down. -/
structure Options where
  escape : EscapeMode := .html
  missingTags : MissingTags := .ignore
  opener : String := Delimiters.standard.opener
  closer : String := Delimiters.standard.closer
  encoding : Encoding := .utf8
  partials : Entries String := []
  maxDepth : Nat := defaultMaxDepth
deriving DecidableEq, Inhabited

namespace Options

def delimiters (o : Options) : Except Error Delimiters :=
  (Delimiters.ofTexts o.opener o.closer).mapError (.config ∘ .delimiters)

def renderer (o : Options) : Except Error Renderer :=
  Renderer.Plan.build
    { escape := o.escape.apply
      missingTags := o.missingTags
      opener := o.opener
      closer := o.closer
      encoding := o.encoding
      maxDepth := o.maxDepth }

def registry? (o : Options) : Option Registry := if o.partials.isEmpty then none else some ⟨o.partials⟩

end Options
end Stencil
