import Stencil.Entries
import Stencil.Value.Number

/-!
# Template data

What a template can look at: nothing, truth values, numbers, text, lists, maps, objects of the host program, and lambdas. A
lambda is known by its key alone; what it answers is the host's affair. An object shows what the host chooses to show: fields
by name, a text, items if it is a list, and whether it holds.
-/

namespace Stencil

/-- How many arguments a lambda takes. -/
inductive Arity where
  /-- None: it stands for a value. -/
  | nullary
  /-- One: the text of the section it is used for. -/
  | unary
deriving DecidableEq, Repr

/-- A function of the host program. -/
structure Lambda where
  key : Nat
  arity : Arity
deriving DecidableEq, Repr

/-- What an object of the host program says of itself, beside its fields and items. -/
structure ObjectInfo where
  key : Nat
  /-- The text it is written as. -/
  text? : Option String
  /-- Whether a section goes through its items. -/
  isList : Bool
  /-- Whether it holds, if the host decides that. -/
  holds? : Option Bool
  /-- What messages call it. -/
  label : String
deriving DecidableEq, Repr

/-- A value in template data. -/
inductive Value where
  | null
  | bool (b : Bool)
  | number (n : Number)
  | string (s : String)
  | list (items : List Value)
  | map (entries : List (String × Value))
  | object (info : ObjectInfo) (fields : List (String × Value)) (items : List Value)
  | lambda (l : Lambda)
deriving Inhabited

namespace Value

/-- The value of a floating-point number: nothing, if it is infinite or no number. -/
def ofFloat (x : Float) : Value := if x.isFinite then number (.float x) else null

def kind : Value → String
  | null => "null"
  | bool _ => "bool"
  | number _ => "number"
  | string _ => "string"
  | list _ => "list"
  | map _ => "map"
  | object .. => "object"
  | lambda _ => "lambda"

def isScalar : Value → Bool
  | null | bool _ | number _ | string _ => true
  | _ => false

def string? : Value → Option String
  | string s => some s
  | _ => none

/-- Whether a section on the value is written. Nothing, `false`, and empty texts, lists and maps do not hold; every number
and every lambda does; an object that says nothing of it holds unless it is an empty list. -/
def holds : Value → Bool
  | null => false
  | bool b => b
  | number _ => true
  | string s => s != ""
  | list items => !items.isEmpty
  | map entries => !entries.isEmpty
  | object info _ items => info.holds?.getD (!info.isList || !items.isEmpty)
  | lambda _ => true

/-- What the value has under a name. Only maps and objects have names. -/
def lookup (v : Value) (name : String) : Option Value :=
  match v with
  | map entries => Entries.find? entries name
  | object _ fields _ => Entries.find? fields name
  | _ => none

/-- The items that a section on the value goes through, if it is a list or an object that is one. -/
def items? : Value → Option (List Value)
  | list items => some items
  | object info _ items => if info.isList then some items else none
  | _ => none

mutual
/-- Equality of values. Objects and lambdas are equal to themselves only. -/
protected def beq : Value → Value → Bool
  | null, null => true
  | bool a, bool b => a == b
  | number a, number b => a == b
  | string a, string b => a == b
  | list a, list b => Value.beqItems a b
  | map a, map b => Value.beqEntries a b
  | object a _ _, object b _ _ => a.key == b.key
  | lambda a, lambda b => a == b
  | _, _ => false
protected def beqItems : List Value → List Value → Bool
  | [], [] => true
  | a :: as, b :: bs => a.beq b && Value.beqItems as bs
  | _, _ => false
protected def beqEntries : List (String × Value) → List (String × Value) → Bool
  | [], [] => true
  | (k, a) :: as, (l, b) :: bs => k == l && a.beq b && Value.beqEntries as bs
  | _, _ => false
end

instance : BEq Value := ⟨Value.beq⟩

end Value
end Stencil
