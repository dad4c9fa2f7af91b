import Stencil.Error
import Stencil.Value.Basic

/-!
# Hosts

The program around a rendering: it answers calls of lambdas and may load partials. Its answers may depend on a memory of type
`σ`, which each call and each load hands on; nothing else is assumed of it.
-/

namespace Stencil

abbrev Loader (σ : Type) : Type := String → σ → Except Error String × σ

/-- The program around a rendering. -/
structure Host (σ : Type) where
  /-- What a lambda answers; one that takes no argument is called with none. -/
  answer : Lambda → Option String → σ → Value × σ
  loader? : Option (Loader σ)

namespace Host

variable {σ : Type}

def call? (host : Host σ) (l : Lambda) (memory : σ) : Option (Value × σ) :=
  match l.arity with
  | .nullary => some (host.answer l none memory)
  | .unary => none

def callWith? (host : Host σ) (l : Lambda) (text : String) (memory : σ) : Option (Value × σ) :=
  match l.arity with
  | .nullary => none
  | .unary => some (host.answer l (some text) memory)

end Host
end Stencil
