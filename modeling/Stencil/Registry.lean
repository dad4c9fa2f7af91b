import Stencil.Entries
import Stencil.Error

/-!
# Registries

A store of named templates that answers loads.
-/

namespace Stencil

/-- Named templates in the order of their names. -/
structure Registry where
  entries : Entries String
deriving Inhabited

namespace Registry

def empty : Registry := ⟨[]⟩

def add (r : Registry) (name content : String) : Registry := ⟨r.entries.insert name content⟩

def extend (r : Registry) (pairs : List (String × String)) : Registry := ⟨r.entries.insertAll pairs⟩

/-- The registry of a list of templates; the last of a name stays. -/
def ofPairs (pairs : List (String × String)) : Registry := empty.extend pairs

def remove (r : Registry) (name : String) : Registry := ⟨r.entries.erase name⟩

def get? (r : Registry) (name : String) : Option String := r.entries.find? name

def contains (r : Registry) (name : String) : Bool := (r.get? name).isSome

def names (r : Registry) : List String := r.entries.names

def size (r : Registry) : Nat := r.entries.length

def isEmpty (r : Registry) : Bool := r.entries.isEmpty

/-- The template of a name, or the failure that says there is none. -/
def load (r : Registry) (name : String) : Except Error String :=
  match r.get? name with
  | some content => .ok content
  | none => .error (.templateNotFound name)

end Registry
end Stencil
