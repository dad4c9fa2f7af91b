import Stencil.Encoding
import Stencil.ParseError

/-!
# Failures

Why a template was not rendered. A host that loads partials may report failures of its own; they are passed on as it words
them.
-/

namespace Stencil

/-- Why a value has no plain form. -/
inductive PlainFault where
  | lambda
  /-- An object that is neither a list nor a text. -/
  | object (label : String)
deriving DecidableEq, Repr

/-- What takes a level of nesting. -/
inductive Nesting where
  | block
  | inclusion
  | lambda
deriving DecidableEq, Repr

/-- Why a value was not written. -/
inductive RenderFault where
  | tooDeep (nesting : Nesting) (name : String) (limit : Nat)
  /-- A lambda that takes a section's text stands where a value is asked for. -/
  | sectionLambda (name : String)
  /-- A lambda answered with a value of the given kind, which is no scalar. -/
  | lambdaResult (name kind : String)
  | objectText (label : String)
  | lambdaText
  | reported (message : String)
deriving DecidableEq, Repr

/-- What is wrong with a configuration. -/
inductive ConfigFault where
  | delimiters (e : InvalidDelimiters)
  | noDepth
  /-- The text is not a set of options. -/
  | unreadable
  | reported (message : String)
deriving DecidableEq, Repr

/-- Why something was not rendered. -/
inductive Error where
  | parsing (e : ParseError)
  | templateNotFound (name : String)
  | keyNotFound (name : String)
  | render (fault : RenderFault)
  | serialization (fault : PlainFault)
  | config (fault : ConfigFault)
  | decode (e : Text.Utf8.DecodeError)
deriving DecidableEq, Repr

def PlainFault.message : PlainFault → String
  | lambda => "lambdas cannot be serialized"
  | object label => s!"object {label} cannot be serialized"

def Nesting.name : Nesting → String
  | block => "section"
  | inclusion => "partial"
  | lambda => "lambda"

def RenderFault.message : RenderFault → String
  | tooDeep nesting name limit => s!"{nesting.name} '{name}' nested deeper than {limit} levels"
  | sectionLambda name => s!"section lambda '{name}' used in a variable tag"
  | lambdaResult name kind => s!"lambda '{name}' returned a {kind}, expected a scalar"
  | objectText label => s!"object {label} has no text form"
  | lambdaText => "a lambda cannot be converted to text"
  | reported message => message

def ConfigFault.message : ConfigFault → String
  | delimiters e => e.message
  | noDepth => "max_depth must be at least 1"
  | unreadable => "not a set of options"
  | reported message => message

def Error.message : Error → String
  | parsing e => s!"parsing error: {e.message}"
  | templateNotFound name => s!"template not found: {name}"
  | keyNotFound name => s!"key not found: {name}"
  | render fault => s!"render error: {fault.message}"
  | serialization fault => s!"serialization error: {fault.message}"
  | config fault => s!"configuration error: {fault.message}"
  | decode e => s!"decode error: {e.message}"

end Stencil
